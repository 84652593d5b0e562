import Frag.Guarantees.Wire

/-!
# Authentic Messages

Every message that a client shows was sent by the client whose identity it bears, in the chat
that it bears, and is made of the chunks of this one message. On the wire this needs nothing of
what others send, and nothing of the order in which connections are served.

It is an invariant of the whole system: what a client shows may rest on a POST of long ago,
handled by another backend for another client.

## Main results

- `Identified.apply`: no call changes a stored identity;
- `Authentic.step`: the invariant is kept;
- `messages_are_authentic`: it holds of every run on the wire.
-/

namespace Frag

open Runs

variable {B ι : Type} [DecidableEq B] [DecidableEq ι]

/-! ## Identities -/

namespace App

/-- The hash of the application, which is stored. -/
structure Identified (app : App) (hash : JsString) : Prop where
  inMemory : app.state.identity = some hash
  stored : app.storage.identity = some hash

variable {app : App} {hash : JsString}

/-- **A stored identity stays**, whatever is called. -/
theorem Identified.apply (h : app.Identified hash) (hne : hash ≠ []) (a : Action) :
    (a.apply app).Identified hash := by
  have hcreate : ∀ {app₁ app₂ : App} {name : JsString} {serverIds : List JsString} {chatId keyB64 : JsString}
      {rand : ChatRandom} {c : Chat}, app₁.Identified hash →
      app₁.createChat name serverIds chatId keyB64 rand = .ok (c, app₂) → app₂.Identified hash := by
    intro app₁ app₂ name serverIds chatId keyB64 rand c h₁ hok
    obtain ⟨-, -, rfl⟩ := createChat_eq_ok hok
    exact ⟨h₁.inMemory, h₁.stored⟩
  cases a with
  | addServer url token label id =>
    simp only [Action.apply]
    split
    · rename_i hadd
      rw [addServer_eq_ok hadd]
      exact ⟨h.inMemory, h.stored⟩
    · exact h
  | removeServer id => exact ⟨h.inMemory, h.stored⟩
  | createChat name serverIds chatId keyB64 rand =>
    simp only [Action.apply]
    split
    · rename_i hok
      exact hcreate h hok
    · exact h
  | importChat data fresh rand =>
    have himport : (app.importServers fresh data.servers).1.Identified hash := by
      refine importServers_invariant (P := fun app₁ => app₁.Identified hash) ?_ h fresh data.servers
      intro app₁ s h₁
      exact ⟨h₁.inMemory, h₁.stored⟩
    rw [Action.apply]
    rcases app.importChat_cases data fresh rand with ⟨e, heq | heq⟩ | ⟨serverIds, c, app', hok, -, heq⟩
    · rw [heq]
      exact h
    · rw [heq]
      exact himport
    · rw [heq]
      exact hcreate himport hok
  | removeChat id => exact ⟨h.inMemory, h.stored⟩
  | setActiveChat id =>
    obtain ⟨_, _, _, heq, -⟩ := app.setActiveChat_eq id
    rw [Action.apply, heq]
    exact ⟨h.inMemory, h.stored⟩
  | reload identity =>
    -- What is stored is not empty, so `init` takes it over.
    have hinit : (init app.storage identity).state.identity = some hash := by
      show some _ = some hash
      simp only [h.stored, if_neg hne]
    exact ⟨hinit, hinit⟩

theorem Identified.settle (h : app.Identified hash) (o : Outgoing) (accepted : List Bool) :
    (o.settle app accepted).1.Identified hash := by
  rw [Outgoing.settle_fst]
  exact ⟨h.inMemory, h.stored⟩

theorem Identified.pollChat (h : app.Identified hash) (W : WebCrypto) (chat : Chat) (answer : Answer) :
    (Frag.pollChat W app chat answer).Identified hash := by
  rcases pollChat_cases W app chat answer with ⟨-, hsame⟩ | ⟨-, hsame⟩
  · refine ⟨hsame.identity.trans h.inMemory, ?_⟩
    rw [hsame.storage]
    exact h.stored
  · exact ⟨hsame.identity.trans h.inMemory, hsame.storage ▸ h.stored⟩

end App

namespace World

/-! ## Where messages come from -/

/-- The message `msg` that client `i` shows is the sent message `s`: either the client sent it
    itself, or its text is what some key makes of chunks of `s` that backends have accepted. -/
structure Attributed (E : Env B) (w : World B ι) (i : ι) (msg : Message) (s : Sent ι) : Prop where
  sent : s ∈ w.sent
  id : msg.id = s.messageId.val
  chatId : msg.chatId = s.outgoing.chat.chatId
  senderHash : msg.senderHash = s.senderHash
  own : msg.status ≠ .received → s.client = i ∧ msg.text = s.outgoing.text
  received : msg.status = .received → ∃ key chunks,
    msg.text = (decrypt E.crypto key (joinPayload chunks)).getD (js "[decryption failed]") ∧
      ∀ chunk ∈ chunks, ∃ (j : Nat) (p : Server × FragmentPost JsString),
        s.posts[j]? = some p ∧ p.2.payload = chunk ∧ (s.messageId, j) ∈ w.accepted

/-- Every message is attributed, and every sent message bears the identity of its client. -/
structure Authentic (E : Env B) (hash : ι → JsString) (w : World B ι) : Prop where
  identified : ∀ i, (w.apps i).Identified (hash i)
  bears : ∀ s ∈ w.sent, s.senderHash = hash s.client
  messages : ∀ i cid, ∀ msg ∈ (w.apps i).messagesOf cid, ∃ s, w.Attributed E i msg s

/-- A chat that is polled has an id without control characters. -/
def PlainPoll (w : World B ι) : Event B ι → Prop
  | .poll i id _ => ∀ chat ∈ w.chat? i id, WireSafe chat.chatId
  | _ => True

variable {E : Env B} {w : World B ι} {e : Event B ι} {i : ι} {msg : Message} {s : Sent ι}

theorem Attributed.step (h : w.Attributed E i msg s) : (w.step E e).Attributed E i msg s where
  sent := mem_sent_step h.sent
  id := h.id
  chatId := h.chatId
  senderHash := h.senderHash
  own := h.own
  received hstatus := by
    obtain ⟨key, chunks, htext, hchunks⟩ := h.received hstatus
    refine ⟨key, chunks, htext, fun chunk hchunk => ?_⟩
    obtain ⟨j, p, hp, hpay, hacc⟩ := hchunks chunk hchunk
    exact ⟨j, p, hp, hpay, mem_accepted_step hacc⟩

omit [DecidableEq B] [DecidableEq ι] in
/-- A message that a client adds when its POSTs have settled is its own. -/
theorem attributed_settle {hash : JsString} (happ : (w.apps i).Identified hash) (hs : s ∈ w.sent)
    (hclient : s.client = i) (hbears : s.senderHash = hash) (accepted : List Bool) :
    w.Attributed E i (s.outgoing.message (w.apps i) accepted) s where
  sent := hs
  id := rfl
  chatId := rfl
  senderHash := by
    show (w.apps i).state.identity.getD [] = s.senderHash
    rw [happ.inMemory, hbears]
    rfl
  own _ := ⟨hclient, rfl⟩
  received hstatus := by
    -- It is sent, or sent in part.
    have hne : (s.outgoing.message (w.apps i) accepted).status ≠ .received := by
      unfold Outgoing.message
      simp only
      split <;> simp
    exact absurd hstatus hne

omit [DecidableEq B] [DecidableEq ι] in
/-- What a server answers to a poll stems from a message that was sent in the polled chat. -/
theorem Honest.origin_of_answered (h : w.Honest E) {app : App} {chat : Chat} {up : Server → Bool}
    (hchat : WireSafe chat.chatId) {frags : List (Fragment JsString)} {f : Fragment JsString}
    (hfrags : frags ∈ pollResults app chat (w.answer E up)) (hf : f ∈ frags) :
    ∃ s j p, s ∈ w.sent ∧ s.posts[j]? = some p ∧ (s.messageId, j) ∈ w.accepted ∧
      s.outgoing.chat.chatId = chat.chatId ∧ f.messageId = s.messageId.val ∧
      f.senderHash = s.senderHash ∧ f.payload = p.2.payload := by
  obtain ⟨server, -, rfl⟩ := List.mem_map.mp hfrags
  obtain ⟨r, hr, hchatId, -, rfl⟩ := exists_row_of_mem_answer hf
  obtain ⟨s, j, p, horigin⟩ := h.rows _ r hr
  obtain ⟨hid, hpayload, -, hsender⟩ := horigin.readBack h
  have hsame := cStr_toWire_inj (h.transparent s horigin.sent).2.1 hchat ((horigin.ids h).2.symm.trans hchatId)
  exact ⟨s, j, p, horigin.sent, horigin.post, horigin.accepted, hsame, hid, hsender, hpayload⟩

omit [DecidableEq B] [DecidableEq ι] in
/-- **A message that a poll delivers** is one that was sent, and all its chunks are chunks of it. -/
theorem Honest.attributed_of_pending (h : w.Honest E) {app : App} {chat : Chat} {up : Server → Bool}
    (hchat : WireSafe chat.chatId) {p : PendingMessage} (hp : p ∈ pendingOf app chat (w.answer E up))
    (key : AesKey) (i : ι) : ∃ s, w.Attributed E i (receivedBy E.crypto chat key p) s := by
  -- Id and sender are those of the first fragment.
  obtain ⟨frags, f, hhead, hf, hid, hsender, -⟩ := head_of_mem_pendingOf h.names hp
  obtain ⟨s, -, -, hs, -, -, hsame, hfid, hfsender, -⟩ :=
    h.origin_of_answered hchat (List.mem_of_mem_head? hhead) hf
  refine ⟨s, hs, hid.symm.trans hfid, hsame.symm, hsender.trans hfsender, fun hne => absurd rfl hne,
    fun _ => ⟨key, p.chunks, rfl, fun chunk hchunk => ?_⟩⟩
  -- The fragment of every position has the same id, so it is of the same message.
  obtain ⟨hlen, hpositions⟩ := chunk_of_mem_pendingOf h.names hp
  obtain ⟨k, hk⟩ := List.getElem?_of_mem hchunk
  obtain ⟨hlt, -⟩ := List.getElem?_eq_some_iff.mp hk
  have hget := List.getElem?_eq_getElem (hlen ▸ hlt)
  obtain ⟨f', hf', hid', hpay'⟩ := hpositions k _ hget
  obtain ⟨s', j, q, hs', hq, hacc, -, hfid', -, hpayload⟩ :=
    h.origin_of_answered hchat (List.mem_of_getElem? hget) hf'
  have hval : s'.messageId.val = s.messageId.val := by
    rw [← hfid', hid', ← hid, hfid]
  obtain rfl : s' = s := h.eq_of_messageId hs' hs (Uuid.ext hval)
  refine ⟨j, q, hq, ?_, hacc⟩
  rw [← hpayload]
  exact Option.some.inj (hpay'.symm.trans hk)

omit [DecidableEq B] [DecidableEq ι] in
/-- A poll adds attributed messages only. -/
theorem Authentic.pollChat {hash : ι → JsString} (h : w.Authentic E hash) (hw : w.Honest E) {chat : Chat}
    (hchat : WireSafe chat.chatId) (up : Server → Bool) (cid : JsString)
    (hmsg : msg ∈ (Frag.pollChat E.crypto (w.apps i) chat (w.answer E up)).messagesOf cid) :
    ∃ s, w.Attributed E i msg s := by
  by_cases hcid : cid = chat.id
  · subst hcid
    obtain ⟨new, hnew, hreceived⟩ := messagesOf_pollChat_append E.crypto (w.apps i) chat (w.answer E up)
    rw [hnew, List.mem_append] at hmsg
    rcases hmsg with hold | hmem
    · exact h.messages i _ msg hold
    · obtain ⟨key, -, p, hp, rfl⟩ := hreceived msg hmem
      exact hw.attributed_of_pending hchat hp key i
  · rw [messagesOf_pollChat_ne hcid] at hmsg
    exact h.messages i cid msg hmsg

/-- **Authenticity is invariant.** -/
theorem Authentic.step {hash : ι → JsString} (hhash : ∀ i, hash i ≠ []) (h : w.Authentic E hash)
    (hw : w.Honest E) (hplain : w.PlainPoll e) : (w.step E e).Authentic E hash where
  identified i := by
    rcases app_step E w e i with heq | ⟨a, -, heq⟩ | ⟨s, -, accepted, -, heq⟩ | ⟨id, up, chat, -, -, heq⟩
    · exact heq ▸ h.identified i
    · rw [heq]
      exact (h.identified i).apply (hhash i) a
    · rw [heq]
      exact (h.identified i).settle s.outgoing accepted
    · rw [heq]
      exact (h.identified i).pollChat E.crypto chat (w.answer E up)
  bears s hs := by
    rcases sent_step E w e with heq | ⟨i, text, ttl, rand, o, -, -, heq⟩
    · exact h.bears s (heq ▸ hs)
    · rw [heq, List.mem_append, List.mem_singleton] at hs
      rcases hs with hold | rfl
      · exact h.bears s hold
      · -- The hash that a message is sent with is the one in memory.
        show (w.apps i).state.identity.getD [] = hash i
        rw [(h.identified i).inMemory]
        rfl
  messages i cid msg hmsg := by
    suffices hbefore : ∃ s, w.Attributed E i msg s by
      obtain ⟨s, hs⟩ := hbefore
      exact ⟨s, hs.step⟩
    rcases app_step E w e i with heq | ⟨a, -, heq⟩ | ⟨s, hs, accepted, hclient, heq⟩ |
      ⟨id, up, chat, rfl, hchat, heq⟩
    · rw [heq] at hmsg
      exact h.messages i cid msg hmsg
    · rw [heq] at hmsg
      rcases App.messagesOf_apply (w.apps i) a cid with hkeep | hdrop
      · exact h.messages i cid msg (hkeep ▸ hmsg)
      · rw [hdrop] at hmsg
        cases hmsg
    · rw [heq, Outgoing.settle_fst, App.messagesOf_emit, App.pushMessage, App.messagesOf_setMessages] at hmsg
      split at hmsg
      · rw [List.mem_append, List.mem_singleton] at hmsg
        rcases hmsg with hold | rfl
        · exact h.messages i _ msg hold
        · exact ⟨s, attributed_settle (h.identified i) hs hclient (hclient ▸ h.bears s hs) accepted⟩
      · exact h.messages i cid msg hmsg
    · rw [heq] at hmsg
      exact h.pollChat hw (hplain chat hchat) up cid hmsg

/-! ## Runs on the wire -/

variable {D : Deployment B}

/-- A chat that is polled on the wire has an id without control characters. -/
def PlainQuery (w : World B ι) : WireEvent B ι → Prop
  | .poll i id _ => ∀ chat ∈ w.chat? i id, WireSafe chat.chatId
  | _ => True

omit [DecidableEq B] [DecidableEq ι] in
theorem PlainQuery.plainPoll {e : WireEvent B ι} (h : w.PlainQuery e) (hproper : w.Proper D e) {e' : Event B ι}
    (he : w.abstract D e = some e') : w.PlainPoll e' := by
  cases e with
  | quiet e =>
    cases he
    -- Polls are not quiet.
    cases e' with
    | poll i cid up => exact hproper.1.elim
    | _ => trivial
  | post k j x =>
    obtain ⟨p, -, he⟩ := Option.bind_eq_some_iff.mp he
    split at he
    · cases he
      trivial
    · cases he
  | poll i id x =>
    cases he
    exact h
  | stray b allowed now segs => cases he

/-- **No message is forged or misattributed**: in every run on the wire, whatever strangers send
    and whatever is lost, cut, refused or repeated, every message in the list of a chat was sent in
    a chat with the same id by the client whose hash it bears. If the client did not send it
    itself, its text was made of accepted chunks of this message and of no other. -/
theorem messages_are_authentic (D : Deployment B) {w : World B ι} (hblank : w.Blank) (hsaved : w.Saved)
    (hcursors : ∀ i, ∀ c ∈ (w.apps i).chatObjects, SafeNat c.lastSince)
    (hash : ι → JsString) (hhash : ∀ i, hash i ≠ []) (hidentified : ∀ i, (w.apps i).Identified (hash i))
    (hmessages : ∀ i cid, (w.apps i).messagesOf cid = []) {es : List (WireEvent B ι)}
    (hes : Along (wireStep D) (fun w e => w.Proper D e ∧ w.PlainQuery e) w es) (i : ι) (cid : JsString) :
    ∀ msg ∈ ((run (wireStep D) w es).apps i).messagesOf cid, ∃ s,
      (run (wireStep D) w es).Attributed D.env i msg s ∧ msg.senderHash = hash s.client := by
  have hwired : w.Wired D.env := wired_of_blank hblank hsaved hcursors
  have hauthentic : w.Authentic D.env hash :=
    { identified := hidentified
      bears := fun s hs => by rw [hblank.sent] at hs; cases hs
      messages := fun i cid msg hmsg => by rw [hmessages i cid] at hmsg; cases hmsg }
  -- The wire comes to events of the system, which keep the invariant.
  obtain ⟨-, hfinal⟩ := hes.invariant (fun w => w.Wired D.env ∧ w.Authentic D.env hash) ⟨hwired, hauthentic⟩ (by
    rintro w e ⟨hproper, hplain⟩ ⟨hwired, hauthentic⟩
    refine ⟨hwired.wireStep hproper, ?_⟩
    rw [wireStep_eq hwired hproper]
    cases he : w.abstract D e with
    | none => exact hauthentic
    | some e' => exact hauthentic.step hhash hwired.honest (hplain.plainPoll hproper he))
  intro msg hmsg
  obtain ⟨s, hs⟩ := hfinal.messages i cid msg hmsg
  exact ⟨s, hs, hs.senderHash.trans (hfinal.bears s hs.sent)⟩

end World

/-! ## The sample run -/

namespace Sample

/-- The identities of the clients. -/
def hashOf (i : Bool) : JsString := List.replicate 64 (if i then 0x61 else 0x62)

/-- The chat that the reader polls has a plain id. -/
theorem plainQuery_connections :
    Along (World.wireStep deployment) (fun w e => w.PlainQuery e) world connections := by
  refine ⟨trivial, trivial, trivial, trivial, fun c hc => ?_, trivial⟩
  have hchat : (run (World.wireStep deployment) world (connections.take 4)).chat? false id = some chat := by
    decide +kernel
  obtain rfl := Option.some.inj (hchat.symm.trans hc)
  exact chatId.wireSafe

end Sample

open Sample in
theorem sample_messages_are_authentic :
    ((run (World.wireStep deployment) world connections).apps false).messagesOf id ≠ [] ∧
      ∀ msg ∈ ((run (World.wireStep deployment) world connections).apps false).messagesOf id, ∃ s,
        (run (World.wireStep deployment) world connections).Attributed env false msg s ∧
          msg.senderHash = hashOf s.client := by
  refine ⟨by decide +kernel, World.messages_are_authentic deployment blank saved_world cursors_world
    hashOf (fun i => ?_) (fun i => ?_) (fun i cid => ?_)
    (proper_connections.and plainQuery_connections) false id⟩
  · cases i <;> decide
  · cases i <;> exact ⟨rfl, rfl⟩
  · cases i <;> exact rfl

end Frag
