import Frag.System.Scanned

/-!
# Positions and Backends

A poll takes the position of a fragment from the server that answered it. Two entries of
a server list may address the same backend: they differ in the token, in a trailing
slash, or in nothing at all. Such a backend answers both entries with the fragments of
both positions, and each of the two slots ends up with the last of them.

The chunk of a position has to be stored in the first place. Backends find it by its member name
in the body, after the chat id, which a client that imports a chat takes from the text it is given.

## Main results

- `slots_hold_their_chunks_iff`
-/

namespace Frag

open Runs

variable {B ι : Type} [DecidableEq B] [DecidableEq ι]

/-- Positions of one backend have equal chunks. If the chat id ends in the quoted name `payload`,
    the sender hash is the chunk of every position. -/
structure Sent.ChunksMatch (E : Env B) (s : Sent ι) : Prop where
  equal : ∀ p ∈ s.posts, ∀ q ∈ s.posts, E.backend p.1 = E.backend q.1 → p.2.payload = q.2.payload
  sender : QuotedSuffix (js "payload") s.outgoing.chat.chatId →
    ∀ p ∈ s.posts, storedText s.senderHash = p.2.payload

omit [DecidableEq B] [DecidableEq ι] in
/-- What is served for a position is the chunk of every position of the same backend. -/
theorem Sent.chunksMatch_iff {E : Env B} {s : Sent ι} : s.ChunksMatch E ↔
    ∀ p ∈ s.posts, ∀ q ∈ s.posts, E.backend p.1 = E.backend q.1 → s.servedChunk p = q.2.payload := by
  by_cases hname : QuotedSuffix (js "payload") s.outgoing.chat.chatId
  · have hserved : ∀ p, s.servedChunk p = storedText s.senderHash := fun p => if_pos hname
    constructor
    · intro h p _ q hq _
      exact (hserved p).trans (h.sender hname q hq)
    · intro h
      refine ⟨fun p hp q hq hback => ?_, fun _ p hp => (hserved p).symm.trans (h p hp p hp rfl)⟩
      rw [← h p hp p hp rfl, hserved, ← hserved q, h q hq q hq rfl]
  · have hserved : ∀ p, s.servedChunk p = p.2.payload := fun p => if_neg hname
    simp only [hserved]
    exact ⟨fun h => h.equal, fun h => ⟨h, fun hn => absurd hn hname⟩⟩

namespace World

variable {E : Env B} {w : World B ι} {s : Sent ι} {p : Server × FragmentPost JsString}
  {app : App} {chat : Chat} {up : Server → Bool}

omit [DecidableEq B] [DecidableEq ι] in
/-- What the fragments of a backend leave in a slot is what is served for one of the positions
    that address the backend. -/
theorem Traced.slot_fetch (hw : w.Traced E) (hs : s ∈ w.sent) (hp : p ∈ s.posts)
    (hstored : w.Stored E s)
    (hfound : cStr (scanned s.outgoing.chat.chatId) = cStr (toWire s.outgoing.chat.chatId)) :
    ∃ q ∈ s.posts, E.backend q.1 = E.backend p.1 ∧
      slot (w.fetch (E.backend p.1) s.outgoing.chat.chatId 0) s.messageId.val =
        some (s.servedChunk q) := by
  obtain ⟨j, hj⟩ := List.getElem?_of_mem hp
  obtain ⟨r, hr, hid⟩ := List.mem_map.mp (hstored p hp)
  obtain ⟨s', j', p', horigin⟩ := hw.rows _ r hr
  obtain ⟨rfl, rfl⟩ := horigin.post_eq hw hs hj hid
  obtain ⟨-, hchat, hmid, -⟩ := horigin.readBack hw
  -- There is a fragment of the message, and so there is a last one.
  have hsome : (slot (w.fetch (E.backend p'.1) s'.outgoing.chat.chatId 0) s'.messageId.val).isSome :=
    slot_isSome.mpr ⟨World.readBack r,
      mem_fetch.mpr ⟨r, hr, hchat.trans hfound, hw.positive _ r hr, rfl⟩, hmid⟩
  obtain ⟨chunk, hchunk⟩ := Option.isSome_iff_exists.mp hsome
  obtain ⟨f, hf, hfid, rfl⟩ := exists_of_slot_eq_some hchunk
  obtain ⟨r', hr', -, -, rfl⟩ := mem_fetch.mp hf
  obtain ⟨t, i, q, hother⟩ := hw.rows _ r' hr'
  obtain ⟨-, -, hmid', hpayload⟩ := hother.readBack hw
  obtain rfl := hw.eq_of_messageId hother.sent hs (Uuid.ext (hmid'.symm.trans hfid))
  exact ⟨q, List.mem_of_getElem? hother.post, hother.backend, hchunk.trans (by rw [hpayload])⟩

omit [DecidableEq B] [DecidableEq ι] in
/-- A chat id that is stored as another text is not found. -/
theorem Traced.slot_fetch_eq_none (hw : w.Traced E) (hs : s ∈ w.sent) {b : B}
    (hlost : cStr (scanned s.outgoing.chat.chatId) ≠ cStr (toWire s.outgoing.chat.chatId)) :
    slot (w.fetch b s.outgoing.chat.chatId 0) s.messageId.val = none := by
  rw [← Option.not_isSome_iff_eq_none, slot_isSome]
  rintro ⟨f, hf, hid⟩
  obtain ⟨r, hr, hchat, -, rfl⟩ := mem_fetch.mp hf
  obtain ⟨t, j, q, horigin⟩ := hw.rows _ r hr
  obtain ⟨-, hstored, hmid, -⟩ := horigin.readBack hw
  obtain rfl := hw.eq_of_messageId horigin.sent hs (Uuid.ext (hmid.symm.trans hid))
  exact hlost (hstored.symm.trans hchat)

omit [DecidableEq B] [DecidableEq ι] in
/-- Message ids are no names that objects inherit. -/
theorem Traced.names (hw : w.Traced E) :
    ∀ frags ∈ pollResults app chat (w.answer E up), ∀ f ∈ frags, f.messageId ∉ inheritedNames := by
  intro frags hfrags f hf hmem
  obtain ⟨b, r, hr, rfl⟩ := exists_row_of_mem_pollResults hfrags hf
  obtain ⟨s, j, p, horigin⟩ := hw.rows b r hr
  have hshort : ∀ n ∈ inheritedNames, n.length ≠ 36 := by decide
  rw [(horigin.readBack hw).2.2.1] at hmem
  exact hshort _ hmem (length_of_isUuid s.messageId.shape)

omit [DecidableEq B] [DecidableEq ι] in
/-- The slots of a message, after a poll that is answered by all its servers. -/
theorem Traced.filledSlot_eq (hw : w.Traced E) (hchat : chat.chatId = s.outgoing.chat.chatId)
    (hservers : (app.resolveServers chat.serverIds).map E.backend =
      s.outgoing.servers.map E.backend)
    (hsince : app.lastSince chat.id = 0)
    (hanswered : ∀ server ∈ app.resolveServers chat.serverIds,
      (w.answer E up server chat.chatId (app.lastSince chat.id)).isSome) (i : Nat) :
    filledSlot (pollResults app chat (w.answer E up)) s.messageId.val i =
      s.posts[i]?.bind fun p =>
        slot (w.fetch (E.backend p.1) s.outgoing.chat.chatId 0) s.messageId.val := by
  have hresults : pollResults app chat (w.answer E up) = s.posts.map fun p =>
      w.fetch (E.backend p.1) s.outgoing.chat.chatId 0 := by
    rw [pollResults_of_answered hanswered, hservers, hchat, hsince, Outgoing.servers, List.map_map,
      List.map_map]
    rfl
  rw [Frag.filledSlot_eq hw.names, hresults, List.getD_eq_getElem?_getD, List.getElem?_map]
  cases s.posts[i]? <;> rfl

omit [DecidableEq B] [DecidableEq ι] in
/-- What a poll puts in the slots of a stored message, read in one world. -/
theorem Traced.filledSlot_iff (hw : w.Traced E) (hs : s ∈ w.sent) (hstored : w.Stored E s)
    (hchat : chat.chatId = s.outgoing.chat.chatId)
    (hservers : (app.resolveServers chat.serverIds).map E.backend =
      s.outgoing.servers.map E.backend)
    (hsince : app.lastSince chat.id = 0)
    (hanswered : ∀ server ∈ app.resolveServers chat.serverIds,
      (w.answer E up server chat.chatId (app.lastSince chat.id)).isSome) :
    (∀ i, filledSlot (pollResults app chat (w.answer E up)) s.messageId.val i =
        s.outgoing.payloads[i]?) ↔
      (∀ c ∈ toWire s.outgoing.chat.chatId, Legible c) ∧ s.ChunksMatch E := by
  have hslot := hw.filledSlot_eq hchat hservers hsince hanswered
  have hpayload : ∀ i : Nat, s.outgoing.payloads[i]? =
      s.posts[i]?.map fun (p : Server × FragmentPost JsString) => p.2.payload := by
    intro i
    rw [Outgoing.payloads, List.getElem?_map]
    rfl
  obtain ⟨p₀, hp₀⟩ := List.exists_mem_of_ne_nil _ (hw.genuine s hs).posts_ne
  -- A server that answers has been sent the chat id.
  have hwf : isWellFormed s.outgoing.chat.chatId = true := by
    have hmem : E.backend p₀.1 ∈ (app.resolveServers chat.serverIds).map E.backend := by
      rw [hservers, Outgoing.servers, List.map_map]
      exact List.mem_map_of_mem hp₀
    obtain ⟨server, hserver, -⟩ := List.mem_map.mp hmem
    exact hchat ▸ (answer_isSome.mp (hanswered server hserver)).2.1
  simp only [hslot, hpayload]
  by_cases hlegible : ∀ c ∈ toWire s.outgoing.chat.chatId, Legible c
  · have hfound := (scanned_iff hwf).2.mpr hlegible
    rw [and_iff_right hlegible, Sent.chunksMatch_iff]
    constructor
    · intro hall p hp q hq hback
      -- Both positions are answered by the backend that they share.
      obtain ⟨i, hi⟩ := List.getElem?_of_mem hp
      obtain ⟨j, hj⟩ := List.getElem?_of_mem hq
      have hp' := hall i
      have hq' := hall j
      rw [hi, Option.bind_some, Option.map_some, hback] at hp'
      rw [hj, Option.bind_some, Option.map_some] at hq'
      have hequal : p.2.payload = q.2.payload := Option.some.inj (hp'.symm.trans hq')
      obtain ⟨r, -, -, hfetch⟩ := hw.slot_fetch hs hq hstored hfound
      have hserved : s.servedChunk r = q.2.payload := Option.some.inj (hfetch.symm.trans hq')
      unfold Sent.servedChunk at hserved ⊢
      split
      · rename_i hname
        rwa [if_pos hname] at hserved
      · exact hequal
    · intro hmatch i
      cases hi : s.posts[i]? with
      | none => rfl
      | some p =>
        have hp := List.mem_of_getElem? hi
        obtain ⟨q, hq, hback, hfetch⟩ := hw.slot_fetch hs hp hstored hfound
        rw [Option.bind_some, Option.map_some, hfetch, hmatch q hq p hp hback]
  · -- The first slot stays empty.
    have hlost := fun h => hlegible ((scanned_iff hwf).2.mp h)
    refine iff_of_false (fun hall => ?_) fun h => hlegible h.1
    obtain ⟨i, hi⟩ := List.getElem?_of_mem hp₀
    have hfirst := hall i
    rw [hi, Option.bind_some, Option.map_some, hw.slot_fetch_eq_none hs hlost] at hfirst
    cases hfirst

end World

/-- **Every slot holds the chunk of its position** iff the chat id is stored as it is, positions that
    address the same backend have equal chunks, and no other member is read as the payload. -/
theorem slots_hold_their_chunks_iff {E : Env B} {w₀ : World B ι} (h₀ : w₀.Blank)
    {es : List (Event B ι)}
    (hes : Along (World.scannedStep E)
      (fun w e => w.FreshSend e ∧ w.OnPost (fun _ _ now => 0 < now) e) w₀ es)
    {s : Sent ι} (hs : s ∈ (run (World.scannedStep E) w₀ es).sent)
    (hacc : s.Accepted (run (World.scannedStep E) w₀ es))
    (hkept : s.Permanent ∨ (run (World.scannedStep E) w₀ es).Stored E s)
    {app : App} {chat : Chat} (hchat : chat.chatId = s.outgoing.chat.chatId)
    (hservers : (app.resolveServers chat.serverIds).map E.backend =
      s.outgoing.servers.map E.backend)
    (hsince : app.lastSince chat.id = 0) {up : Server → Bool}
    (hanswered : ∀ server ∈ app.resolveServers chat.serverIds,
      ((run (World.scannedStep E) w₀ es).answer E up server chat.chatId
        (app.lastSince chat.id)).isSome) :
    let results := pollResults app chat ((run (World.scannedStep E) w₀ es).answer E up)
    (∀ i, filledSlot results s.messageId.val i = s.outgoing.payloads[i]?) ↔
      (∀ c ∈ toWire s.outgoing.chat.chatId, Legible c) ∧ s.ChunksMatch E := by
  have htraced : (run (World.scannedStep E) w₀ es).Traced E :=
    hes.invariant (fun w => w.Traced E) h₀.traced fun w e hok h => h.step hok.1 hok.2
  have hstored := hkept.elim (fun hperm => htraced.kept.stored hs hperm hacc) id
  exact htraced.filledSlot_iff hs hstored hchat hservers hsince hanswered

/-- The list names one backend twice, with two tokens. -/
def twoTokensRun : List (Event JsString Bool) :=
  [.act true (.addServer (js "https://a") (js "t") [] (Sample.serverIds.getD 0 [])),
    .act true (.addServer (js "https://a/") (js "u") [] (Sample.serverIds.getD 1 [])),
    .act true (.createChat (js "c") Sample.serverIds [] [] (Sample.chatDraw true)),
    .act true (.setActiveChat (some (Sample.chatObject true).val)),
    Sample.say true 1, .post 0 0 100, .post 0 1 100]

/-- The list names two backends, and the chat is imported under the id `chatId`. -/
def importedRun (chatId : JsString) : List (Event JsString Bool) :=
  [.act true (.importChat { Sample.exported with chatId } (fun i => Sample.serverIds.getD i [])
      (Sample.chatDraw true)),
    .act true (.setActiveChat (some (Sample.chatObject true).val)),
    Sample.say true 1, .post 0 0 100, .post 0 1 100]

/-- The message that a run sends is accepted, and its sender, whose cursor is at the start, finds
    `found` in its two slots. -/
def Finds (es : List (Event JsString Bool)) (found : Option JsString × Option JsString) : Prop :=
  let w := run (World.scannedStep Sample.env) Sample.start es
  Along (World.scannedStep Sample.env)
      (fun w e => w.FreshSend e ∧ w.OnPost (fun _ _ now => 0 < now) e) Sample.start es ∧
    ∃ s ∈ w.sent, s.Accepted w ∧ s.Permanent ∧
      ∃ chat ∈ w.chat? true (Sample.chatObject true).val,
        (w.apps true).lastSince chat.id = 0 ∧
        (∀ server ∈ (w.apps true).resolveServers chat.serverIds,
          (w.answer Sample.env (fun _ => true) server chat.chatId 0).isSome) ∧
        let results := pollResults (w.apps true) chat (w.answer Sample.env fun _ => true)
        s.outgoing.payloads = [js "AAAAAAAAAAAAAAAAps6t", js "FFzvPp7rKPjaAjmu9Tjl"] ∧
        (filledSlot results s.messageId.val 0, filledSlot results s.messageId.val 1) = found

instance (es : List (Event JsString Bool)) (found : Option JsString × Option JsString) :
    Decidable (Finds es found) :=
  inferInstanceAs (Decidable (Along _ _ _ _ ∧ ∃ s ∈ _, _ ∧ _ ∧ ∃ chat ∈ _, _ ∧ _ ∧ _ ∧ _))

/-- One backend in both positions, a chat id that is the name of a member, and one with a control
    character: the slots hold the second chunk twice, the sender hash twice, and nothing. -/
theorem one_backend_fills_both_slots :
    Finds twoTokensRun (some (js "FFzvPp7rKPjaAjmu9Tjl"), some (js "FFzvPp7rKPjaAjmu9Tjl")) ∧
      Finds (importedRun (js "payload"))
        (some (List.replicate 64 0x61), some (List.replicate 64 0x61)) ∧
      Finds (importedRun [0x08]) (none, none) := by
  refine ⟨?_, ?_, ?_⟩ <;> decide +kernel

/-- The same message over two backends. -/
def twoBackendsRun : List (Event JsString Bool) :=
  Sample.setup ++ [Sample.say true 1, .post 0 0 100, .post 0 1 100]

theorem two_backends_fill_their_slots :
    let w := run (World.scannedStep Sample.env) Sample.start twoBackendsRun
    ∃ s ∈ w.sent, ∃ chat ∈ w.chat? false Sample.id,
      ∀ i, filledSlot (pollResults (w.apps false) chat (w.answer Sample.env fun _ => true))
        s.messageId.val i = s.outgoing.payloads[i]? := by
  obtain ⟨s, hs, chat, hchat, hacc, hpermanent, hid, hservers, hsince, hanswered, hlegible, hname,
      hequal⟩ :
      let w := run (World.scannedStep Sample.env) Sample.start twoBackendsRun
      ∃ s ∈ w.sent, ∃ chat ∈ w.chat? false Sample.id, s.Accepted w ∧ s.Permanent ∧
        chat.chatId = s.outgoing.chat.chatId ∧
        ((w.apps false).resolveServers chat.serverIds).map Sample.env.backend =
          s.outgoing.servers.map Sample.env.backend ∧
        (w.apps false).lastSince chat.id = 0 ∧
        (∀ server ∈ (w.apps false).resolveServers chat.serverIds,
          (w.answer Sample.env (fun _ => true) server chat.chatId
            ((w.apps false).lastSince chat.id)).isSome) ∧
        (∀ c ∈ toWire s.outgoing.chat.chatId, Legible c) ∧
        ¬ QuotedSuffix (js "payload") s.outgoing.chat.chatId ∧
        ∀ p ∈ s.posts, ∀ q ∈ s.posts, Sample.env.backend p.1 = Sample.env.backend q.1 →
          p.2.payload = q.2.payload := by decide +kernel
  exact ⟨s, hs, chat, hchat, (slots_hold_their_chunks_iff Sample.blank_start (by decide +kernel) hs
    hacc (.inl hpermanent) hid hservers hsince hanswered).mpr
      ⟨hlegible, hequal, fun h => absurd h hname⟩⟩

end Frag
