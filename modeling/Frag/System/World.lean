import Frag.Backend.Handlers
import Frag.Client.Action
import Frag.Client.PollSpec
import Frag.Client.Send
import Frag.Library.Runs
import Mathlib.Logic.Function.Basic

/-!
# The System

Any number of clients and backends. A `World` holds the fragment table of every
backend, the application of every client, and what is on its way between them: the
executions of `sendMessage` that reached their POSTs (`sent`) and the exported chats
(`exports`). An `Event` is one uninterrupted step of some party and carries what the
environment chooses: who acts, which POST is handled when and at which clock
reading, which servers answer a poll.

POSTs of one message are separate events, so any of them may be lost, handled late
or handled twice, in any order and with any other events in between. A poll is one
event.

## Main results

- `mem_rows_step`: what an event can add to a table;
- `Honest.step`: every row of every table stems from a POST of a sent message, and
  distinct messages have distinct ids.
-/

namespace Frag

variable {B ι : Type} [DecidableEq B] [DecidableEq ι]

/-! ## State and events -/

/-- What surrounds the program: the AES-GCM of the platform, and the backend that
    the base URL of a request leads to. -/
structure Env (B : Type) where
  crypto : WebCrypto
  backendOf : JsString → B

/-- The backend a server entry addresses; `request` strips a trailing slash. -/
def Env.backend (E : Env B) (server : Server) : B := E.backendOf (App.stripSlash server.url)

/-- A message on its way: an execution of `sendMessage` that issued its POSTs. -/
structure Sent (ι : Type) where
  client : ι
  senderHash : JsString
  outgoing : Outgoing

/-- The id of a sent message. -/
def Sent.messageId (s : Sent ι) : Uuid := s.outgoing.messageId

/-- The POSTs of a sent message: the server and the fragment of every position. -/
def Sent.posts (s : Sent ι) : List (Server × FragmentPost JsString) := s.outgoing.posts

/-- The state of all parties. `accepted` lists the POSTs answered with 2xx, by
    message id and position. -/
structure World (B ι : Type) where
  stores : B → Database
  apps : ι → App
  sent : List (Sent ι)
  accepted : List (Uuid × Nat)
  exports : List App.ExportedChat

/-- One step of one party. -/
inductive Event (B ι : Type) where
  /-- A client performs a call that is not suspended. -/
  | act (i : ι) (a : Action)
  /-- A client exports a chat and passes the text on. -/
  | share (i : ι) (id : JsString)
  /-- A client runs `sendMessage` up to its POSTs. -/
  | send (i : ι) (text : JsString) (ttl : Option Rat) (rand : SendRandom)
  /-- The `j`-th POST of the `k`-th sent message reaches its backend. -/
  | post (k j : Nat) (now : Int)
  /-- The POSTs of the `k`-th sent message have settled for its sender. -/
  | settle (k : Nat) (accepted : List Bool)
  /-- A client polls a chat; the servers in `up` answer. -/
  | poll (i : ι) (id : JsString) (up : Server → Bool)
  /-- The cleanup thread of a backend runs. -/
  | purge (b : B) (now : Int)

namespace World

/-- The answers to the GETs of a poll. -/
def answer (E : Env B) (w : World B ι) (up : Server → Bool) : Answer := fun server chatId since =>
  if up server ∧ isWellFormed chatId then
    (makeGetFragmentsHandler (w.stores (E.backend server)) (toWire chatId) since).map
      fun frags => frags.map fun f => f.map fromWire
  else none

/-- The `j`-th POST of the `k`-th sent message. -/
def request (w : World B ι) (k j : Nat) : Option (Sent ι × Server × FragmentPost JsString) :=
  w.sent[k]?.bind fun s => s.posts[j]?.map fun p => (s, p)

/-- The chat object of a client that is polled under an internal id. -/
def chat? (w : World B ι) (i : ι) (id : JsString) : Option Chat :=
  (w.apps i).state.chats.find? fun c => c.id = id

/-- One event. -/
def step (E : Env B) (w : World B ι) : Event B ι → World B ι
  | .act i a => { w with apps := Function.update w.apps i (a.apply (w.apps i)) }
  | .share i id =>
    match (w.apps i).exportChat id with
    | .error _ => w
    | .ok data => { w with exports := w.exports ++ [data] }
  | .send i text ttl rand =>
    match sendMessage E.crypto (w.apps i) text ttl rand with
    | .error _ => w
    | .ok o =>
      let senderHash := (w.apps i).state.identity.getD []
      { w with sent := w.sent ++ [{ client := i, senderHash, outgoing := o }] }
  | .post k j now =>
    match w.request k j with
    | none => w
    | some (s, server, fragment) =>
      let b := E.backend server
      let (response, db) := makePostFragmentHandler (w.stores b) (fragment.map toWire) now
      { w with
        stores := Function.update w.stores b db
        accepted := if response.ok then w.accepted ++ [(s.messageId, j)] else w.accepted }
  | .settle k accepted =>
    match w.sent[k]? with
    | none => w
    | some s =>
      let app := (s.outgoing.settle (w.apps s.client) accepted).1
      { w with apps := Function.update w.apps s.client app }
  | .poll i id up =>
    match w.chat? i id with
    | none => w
    | some chat =>
      let app := pollChat E.crypto (w.apps i) chat (w.answer E up)
      { w with apps := Function.update w.apps i app }
  | .purge b now => { w with stores := Function.update w.stores b ((w.stores b).purgeExpired now).2 }

/-- Freshly set up backends, and nothing on its way. -/
structure Blank (w : World B ι) : Prop where
  stores : ∀ b, (w.stores b).rows = []
  sent : w.sent = []
  accepted : w.accepted = []
  exports : w.exports = []

/-! ## What an event can do -/

variable {E : Env B} {w : World B ι} {e : Event B ι}

omit [DecidableEq B] [DecidableEq ι] in
theorem request_eq_some {k j : Nat} {s : Sent ι} {p : Server × FragmentPost JsString} :
    w.request k j = some (s, p) ↔ w.sent[k]? = some s ∧ s.posts[j]? = some p := by
  simp only [request, Option.bind_eq_some_iff, Option.map_eq_some_iff, Prod.mk.injEq]
  constructor
  · rintro ⟨s', hs, p', hp, rfl, rfl⟩
    exact ⟨hs, hp⟩
  · rintro ⟨hs, hp⟩
    exact ⟨s, hs, p, hp, rfl, rfl⟩

/-- The row a backend makes of a POST. -/
def rowOf (fragment : FragmentPost JsString) (now : Int) : Fragment CString :=
  ((fragment.map toWire).stamped now).map cStr

/-- A POST handled by its backend `b`. -/
structure Handles (E : Env B) (w : World B ι) (e : Event B ι) (b : B) (s : Sent ι) (j : Nat)
    (p : Server × FragmentPost JsString) (now : Int) : Prop where
  event : ∃ k, e = .post k j now ∧ w.request k j = some (s, p)
  backend : E.backend p.1 = b

/-- **What an event does to the tables**: it leaves them alone, or one POST is handled, or one
    backend cleans up. -/
theorem tables_step (E : Env B) (w : World B ι) (e : Event B ι) :
    ((w.step E e).stores = w.stores ∧ (w.step E e).accepted = w.accepted) ∨
      (∃ s j p now, w.Handles E e (E.backend p.1) s j p now ∧
        (w.step E e).stores = Function.update w.stores (E.backend p.1)
          (makePostFragmentHandler (w.stores (E.backend p.1)) (p.2.map toWire) now).2 ∧
        (w.step E e).accepted =
          if (makePostFragmentHandler (w.stores (E.backend p.1)) (p.2.map toWire) now).1.ok then
            w.accepted ++ [(s.messageId, j)] else w.accepted) ∨
      ∃ b now, e = .purge b now ∧
        (w.step E e).stores = Function.update w.stores b ((w.stores b).purgeExpired now).2 ∧
        (w.step E e).accepted = w.accepted := by
  cases e with
  | act i a => exact .inl ⟨rfl, rfl⟩
  | share i id =>
    simp only [step]
    split <;> exact .inl ⟨rfl, rfl⟩
  | send i text ttl rand =>
    simp only [step]
    split <;> exact .inl ⟨rfl, rfl⟩
  | post k j now =>
    simp only [step]
    split
    · exact .inl ⟨rfl, rfl⟩
    · rename_i s server fragment hreq
      exact .inr (.inl ⟨s, j, (server, fragment), now, ⟨⟨k, rfl, hreq⟩, rfl⟩, rfl, rfl⟩)
  | settle k accepted =>
    simp only [step]
    split <;> exact .inl ⟨rfl, rfl⟩
  | poll i id up =>
    simp only [step]
    split <;> exact .inl ⟨rfl, rfl⟩
  | purge b now => exact .inr (.inr ⟨b, now, rfl, rfl, rfl⟩)

/-- Only a POST adds a row, and the row is the one made of it. -/
theorem mem_rows_step {b : B} {r : Fragment CString} (h : r ∈ ((w.step E e).stores b).rows) :
    r ∈ (w.stores b).rows ∨ ∃ s j p now, w.Handles E e b s j p now ∧
      missingMember (p.2.map toWire) = none ∧
      cStr (toWire p.2.id) ∉ (w.stores b).rows.map Fragment.id ∧ r = rowOf p.2 now ∧
      (s.messageId, j) ∈ (w.step E e).accepted := by
  rcases tables_step E w e with ⟨hstores, -⟩ | ⟨s, j, p, now, hhandles, hstores, haccepted⟩ |
    ⟨b', now, -, hstores, -⟩
  · rw [hstores] at h
    exact .inl h
  · rw [hstores] at h
    by_cases hb : b = E.backend p.1
    · subst hb
      rw [Function.update_self] at h
      by_cases hold : r ∈ (w.stores (E.backend p.1)).rows
      · exact .inl hold
      · -- A row that was not there is answered with 2xx.
        have hok := ok_of_new_row h hold
        rcases mem_rows_makePostFragmentHandler.mp h with hr | ⟨hnone, hid, hrow⟩
        · exact absurd hr hold
        · refine .inr ⟨s, j, p, now, hhandles, hnone, hid, hrow, ?_⟩
          rw [haccepted, if_pos hok]
          exact List.mem_append_right _ List.mem_cons_self
    · rw [Function.update_of_ne hb] at h
      exact .inl h
  · rw [hstores] at h
    by_cases hb : b = b'
    · subst hb
      rw [Function.update_self] at h
      exact .inl (Database.mem_rows_purgeExpired.mp h).1
    · rw [Function.update_of_ne hb] at h
      exact .inl h

/-- A row is lost to the cleanup of its backend only. -/
theorem mem_rows_step_of_mem {b : B} {r : Fragment CString} (h : r ∈ (w.stores b).rows) :
    r ∈ ((w.step E e).stores b).rows ∨
      ∃ now, e = .purge b now ∧ 0 < r.ttl ∧ r.timestamp + r.ttl ≤ now := by
  rcases tables_step E w e with ⟨hstores, -⟩ | ⟨s, j, p, now, -, hstores, -⟩ |
    ⟨b', now, rfl, hstores, -⟩
  · rw [hstores]
    exact .inl h
  · left
    rw [hstores]
    by_cases hb : b = E.backend p.1
    · subst hb
      rw [Function.update_self]
      exact mem_rows_makePostFragmentHandler.mpr (.inl h)
    · rwa [Function.update_of_ne hb]
  · rw [hstores]
    -- The cleanup of this backend or of another one.
    by_cases hb : b = b'
    · subst hb
      rw [Function.update_self, Database.mem_rows_purgeExpired]
      by_cases hexp : 0 < r.ttl ∧ r.timestamp + r.ttl ≤ now
      · exact .inr ⟨now, rfl, hexp⟩
      · exact .inl ⟨h, hexp⟩
    · rw [Function.update_of_ne hb]
      exact .inl h

/-- A message is sent by `sendMessage` only. -/
theorem sent_step (E : Env B) (w : World B ι) (e : Event B ι) :
    (w.step E e).sent = w.sent ∨ ∃ i text ttl rand o, e = .send i text ttl rand ∧
      sendMessage E.crypto (w.apps i) text ttl rand = .ok o ∧
      (w.step E e).sent = w.sent ++
        [{ client := i, senderHash := (w.apps i).state.identity.getD [], outgoing := o }] := by
  cases e with
  | act i a => exact .inl rfl
  | share i id =>
    simp only [step]
    split <;> exact .inl rfl
  | send i text ttl rand =>
    simp only [step]
    split
    · exact .inl rfl
    · rename_i o ho
      exact .inr ⟨i, text, ttl, rand, o, rfl, ho, rfl⟩
  | post k j now =>
    simp only [step]
    split <;> exact .inl rfl
  | settle k accepted =>
    simp only [step]
    split <;> exact .inl rfl
  | poll i id up =>
    simp only [step]
    split <;> exact .inl rfl
  | purge b now => exact .inl rfl

/-- **What an event does to the application of a client**: nothing, or a call of its own, the end
    of a send or a poll. -/
theorem app_step (E : Env B) (w : World B ι) (e : Event B ι) (i : ι) :
    (w.step E e).apps i = w.apps i ∨
      (∃ a, e = .act i a ∧ (w.step E e).apps i = a.apply (w.apps i)) ∨
      (∃ s ∈ w.sent, ∃ accepted : List Bool, s.client = i ∧
        (w.step E e).apps i = (s.outgoing.settle (w.apps i) accepted).1) ∨
      ∃ id up chat, e = .poll i id up ∧ w.chat? i id = some chat ∧
        (w.step E e).apps i = pollChat E.crypto (w.apps i) chat (w.answer E up) := by
  cases e with
  | act i' a =>
    simp only [step]
    by_cases hi : i = i'
    · subst hi
      exact .inr (.inl ⟨a, rfl, Function.update_self _ _ _⟩)
    · exact .inl (Function.update_of_ne hi _ _)
  | share i' id =>
    simp only [step]
    split <;> exact .inl rfl
  | send i' text ttl rand =>
    simp only [step]
    split <;> exact .inl rfl
  | post k j now =>
    simp only [step]
    split <;> exact .inl rfl
  | settle k accepted =>
    simp only [step]
    split
    · exact .inl rfl
    · rename_i s hs
      -- The end of a send touches its client only.
      by_cases hclient : i = s.client
      · subst hclient
        exact .inr (.inr (.inl ⟨s, List.mem_of_getElem? hs, accepted, rfl, Function.update_self _ _ _⟩))
      · exact .inl (Function.update_of_ne hclient _ _)
  | poll i' id up =>
    simp only [step]
    split
    · exact .inl rfl
    · rename_i chat hchat
      by_cases hi : i = i'
      · subst hi
        exact .inr (.inr (.inr ⟨id, up, chat, rfl, hchat, Function.update_self _ _ _⟩))
      · exact .inl (Function.update_of_ne hi _ _)
  | purge b now => exact .inl rfl

theorem mem_sent_step {s : Sent ι} (h : s ∈ w.sent) : s ∈ (w.step E e).sent := by
  rcases sent_step E w e with heq | ⟨_, _, _, _, _, -, -, heq⟩
  · rwa [heq]
  · rw [heq]
    exact List.mem_append_left _ h

/-- A newly accepted POST was handled, and its fragment is stored. -/
theorem accepted_step {a : Uuid × Nat} (h : a ∈ (w.step E e).accepted) :
    a ∈ w.accepted ∨ ∃ s j p now, w.Handles E e (E.backend p.1) s j p now ∧
      a = (s.messageId, j) ∧
      cStr (toWire p.2.id) ∈ ((w.step E e).stores (E.backend p.1)).rows.map Fragment.id := by
  rcases tables_step E w e with ⟨-, haccepted⟩ | ⟨s, j, p, now, hhandles, hstores, haccepted⟩ |
    ⟨b, now, -, -, haccepted⟩
  · rw [haccepted] at h
    exact .inl h
  · rw [haccepted] at h
    split at h
    · rename_i hok
      rcases List.mem_append.mp h with hold | hnew
      · exact .inl hold
      · rw [List.mem_singleton] at hnew
        -- Created or a duplicate: there is a row with the id.
        obtain ⟨r, hr, hid⟩ := exists_row_of_ok hok
        refine .inr ⟨s, j, p, now, hhandles, hnew, ?_⟩
        rw [hstores, Function.update_self]
        exact List.mem_map.mpr ⟨r, hr, hid⟩
    · exact .inl h
  · rw [haccepted] at h
    exact .inl h

theorem mem_accepted_step {a : Uuid × Nat} (h : a ∈ w.accepted) : a ∈ (w.step E e).accepted := by
  rcases tables_step E w e with ⟨-, haccepted⟩ | ⟨s, j, p, now, -, -, haccepted⟩ |
    ⟨b, now, -, -, haccepted⟩
  · rwa [haccepted]
  · rw [haccepted]
    split
    · exact List.mem_append_left _ h
    · exact h
  · rwa [haccepted]

end World

/-! ## Where rows come from -/

/-- What `sendMessage` fixes of a message, without the state it ran in. -/
structure Sent.Genuine (W : WebCrypto) (s : Sent ι) : Prop where
  posts_ne : s.posts ≠ []
  post : ∀ j p, s.posts[j]? = some p → p.2.id = fragmentId s.messageId.val j ∧
    p.2.messageId = s.messageId.val ∧ p.2.chatId = s.outgoing.chat.chatId ∧
    p.2.senderHash = s.senderHash
  encrypted : ∃ key iv, importKey s.outgoing.chat.keyB64 = some key ∧
    s.outgoing.payloads = splitPayload (encrypt W key iv s.outgoing.text) s.posts.length

omit [DecidableEq ι] in
theorem Sent.genuine_of_sendMessage {W : WebCrypto} {app : App} {text : JsString}
    {ttl : Option Rat} {rand : SendRandom} {o : Outgoing}
    (h : sendMessage W app text ttl rand = .ok o) (i : ι) :
    Sent.Genuine W { client := i, senderHash := app.state.identity.getD [], outgoing := o } where
  posts_ne hnil := by
    obtain ⟨chat, senderHash, key, -, -, -, hne, rfl⟩ := sendMessage_eq_ok h
    simp [Sent.posts, hne] at hnil
  post j p hp := by
    obtain ⟨hid, -, -, heq⟩ := post_of_sendMessage h hp
    refine ⟨congrArg FragmentPost.id heq, congrArg FragmentPost.messageId heq,
      congrArg FragmentPost.chatId heq, ?_⟩
    rw [hid, Option.getD_some]
  encrypted := by
    obtain ⟨key, hkey, hpay⟩ := payloads_of_sendMessage h
    refine ⟨key, rand.iv, hkey, ?_⟩
    rw [(fields_of_sendMessage h).2.1]
    exact hpay

omit [DecidableEq ι] in
/-- A message whose chunks spell what was encrypted has the text of the sent message. -/
theorem Sent.Genuine.text_receivedBy {W : WebCrypto} (hW : W.Lawful) {s : Sent ι}
    (h : s.Genuine W) (htext : PlainText s.outgoing.text) {chat : Chat} {key : AesKey}
    (hkey : importKey chat.keyB64 = some key)
    (hsame : chat.keyB64 = s.outgoing.chat.keyB64) {p : PendingMessage}
    (hp : Base64.atob (joinPayload p.chunks) = Base64.atob (joinPayload s.outgoing.payloads)) :
    (receivedBy W chat key p).text = s.outgoing.text := by
  obtain ⟨key', iv, hkey', hpay⟩ := h.encrypted
  rw [hsame] at hkey
  obtain rfl : key = key' := Option.some.inj (hkey.symm.trans hkey')
  have hdecrypt : decrypt W key (joinPayload p.chunks) = some s.outgoing.text := by
    rw [hpay, joinPayload_splitPayload] at hp
    rw [decrypt, hp, ← decrypt, decrypt_encrypt hW _ _ htext]
  simp only [receivedBy, hdecrypt, Option.getD_some]

/-- The row `r` of backend `b` was made of the POST of position `j` of `s`, which was
    answered with 2xx. -/
structure World.Origin (E : Env B) (w : World B ι) (b : B) (r : Fragment CString) (s : Sent ι)
    (j : Nat) (p : Server × FragmentPost JsString) : Prop where
  sent : s ∈ w.sent
  post : s.posts[j]? = some p
  backend : E.backend p.1 = b
  members : missingMember (p.2.map toWire) = none
  row : r = rowOf p.2 r.timestamp
  accepted : (s.messageId, j) ∈ w.accepted

/-- What holds of every world that clients and backends of this repository reach, as
    long as messages are sent as `CleanSend` says. -/
structure World.Honest (E : Env B) (w : World B ι) : Prop where
  genuine : ∀ s ∈ w.sent, s.Genuine E.crypto
  transparent : ∀ s ∈ w.sent, Transparent s.senderHash ∧ Transparent s.outgoing.chat.chatId
  ids : (w.sent.map Sent.messageId).Nodup
  rows : ∀ b, ∀ r ∈ (w.stores b).rows, ∃ s j p, w.Origin E b r s j p
  accepted : ∀ a ∈ w.accepted, ∃ s ∈ w.sent, s.messageId = a.1

/-- `generateId()` does not repeat a message id, and the backend finds the members of
    the posted fragments as they were written. -/
def World.CleanSend (w : World B ι) : Event B ι → Prop
  | .send i _ _ rand => (∀ s ∈ w.sent, s.messageId ≠ rand.messageId) ∧
      (∀ hash ∈ (w.apps i).state.identity, Transparent hash) ∧
      ∀ chat ∈ (w.apps i).getActiveChat, Transparent chat.chatId
  | _ => True

instance (w : World B ι) : ∀ e : Event B ι, Decidable (w.CleanSend e)
  | .send _ _ _ _ => inferInstanceAs (Decidable (_ ∧ _ ∧ _))
  | .act _ _ | .share _ _ | .post _ _ _ | .settle _ _ | .poll _ _ _ | .purge _ _ => .isTrue trivial

namespace World

variable {E : Env B} {w : World B ι} {e : Event B ι}

omit [DecidableEq B] [DecidableEq ι] in
theorem Blank.honest (h : w.Blank) : w.Honest E where
  genuine s hs := by rw [h.sent] at hs; cases hs
  transparent s hs := by rw [h.sent] at hs; cases hs
  ids := by rw [h.sent]; exact List.nodup_nil
  rows b r hr := by rw [h.stores b] at hr; cases hr
  accepted a ha := by rw [h.accepted] at ha; cases ha

theorem Origin.step {b : B} {r : Fragment CString} {s : Sent ι} {j : Nat}
    {p : Server × FragmentPost JsString} (h : w.Origin E b r s j p) :
    (w.step E e).Origin E b r s j p :=
  { h with sent := mem_sent_step h.sent, accepted := mem_accepted_step h.accepted }

/-- **Honesty is invariant.** -/
theorem Honest.step (h : w.Honest E) (hclean : w.CleanSend e) : (w.step E e).Honest E := by
  refine ⟨?_, ?_, ?_, ?_, ?_⟩
  · intro s hs
    rcases sent_step E w e with heq | ⟨i, text, ttl, rand, o, -, ho, heq⟩
    · exact h.genuine s (heq ▸ hs)
    · rw [heq, List.mem_append, List.mem_singleton] at hs
      rcases hs with hs | rfl
      · exact h.genuine s hs
      · exact Sent.genuine_of_sendMessage ho i
  · intro s hs
    rcases sent_step E w e with heq | ⟨i, text, ttl, rand, o, rfl, ho, heq⟩
    · exact h.transparent s (heq ▸ hs)
    · rw [heq, List.mem_append, List.mem_singleton] at hs
      rcases hs with hs | rfl
      · exact h.transparent s hs
      · -- The sender hash is the identity of the client.
        obtain ⟨_, hash, _, _, hid, _, _, _⟩ := sendMessage_eq_ok ho
        refine ⟨?_, hclean.2.2 _ (fields_of_sendMessage ho).1⟩
        show Transparent ((w.apps i).state.identity.getD [])
        rw [hid]
        exact hclean.2.1 hash hid
  · rcases sent_step E w e with heq | ⟨i, text, ttl, rand, o, rfl, ho, heq⟩
    · rw [heq]
      exact h.ids
    · rw [heq, List.map_append, List.nodup_append]
      refine ⟨h.ids, by simp, ?_⟩
      -- The id is drawn, and no sent message has it.
      rintro m hm m' hm' rfl
      rw [List.map_singleton, List.mem_singleton] at hm'
      obtain ⟨s, hs, hsm⟩ := List.mem_map.mp hm
      exact hclean.1 s hs (hsm.trans (hm'.trans (fields_of_sendMessage ho).2.2))
  · intro b r hr
    rcases mem_rows_step hr with hold | ⟨s, j, p, now, hhandles, hmembers, -, hrow, hacc⟩
    · obtain ⟨s, j, p, horigin⟩ := h.rows b r hold
      exact ⟨s, j, p, horigin.step⟩
    · obtain ⟨⟨k, -, hreq⟩, hb⟩ := hhandles
      obtain ⟨hs, hp⟩ := request_eq_some.mp hreq
      refine ⟨s, j, p, mem_sent_step (List.mem_of_getElem? hs), hp, hb, hmembers, ?_, hacc⟩
      rw [hrow]
      rfl
  · intro a ha
    rcases accepted_step ha with hold | ⟨s, j, p, now, ⟨⟨k, -, hreq⟩, -⟩, rfl, -⟩
    · obtain ⟨s, hs, hid⟩ := h.accepted a hold
      exact ⟨s, mem_sent_step hs, hid⟩
    · exact ⟨s, mem_sent_step (List.mem_of_getElem? (request_eq_some.mp hreq).1), rfl⟩

omit [DecidableEq B] [DecidableEq ι] in
/-- Messages are identified by their ids. -/
theorem Honest.eq_of_messageId (h : w.Honest E) {s s' : Sent ι} (hs : s ∈ w.sent)
    (hs' : s' ∈ w.sent) (hid : s.messageId = s'.messageId) : s = s' :=
  List.inj_on_of_nodup_map h.ids hs hs' hid

end World

/-! ## What is saved -/

namespace App

variable {app : App}

theorem Persisted.of_sameSetup {app' : App} (h : app.Persisted) (hsame : app.SameSetup app') :
    app'.Persisted :=
  ⟨by rw [hsame.storage, hsame.servers, h.servers], by rw [hsame.storage, hsame.chats, h.chats]⟩

/-- A poll saves the cursor that it moves. -/
theorem Persisted.pollChat (h : app.Persisted) (W : WebCrypto) (chat : Chat) (answer : Answer) :
    (Frag.pollChat W app chat answer).Persisted := by
  rcases pollChat_cases W app chat answer with ⟨-, hsame⟩ | ⟨-, hsame⟩
  · have hsaved : ∀ since, (app.setLastSince chat.id since).saveChats.Persisted :=
      fun _ => ⟨h.servers, rfl⟩
    exact (hsaved _).of_sameSetup hsame
  · exact h.of_sameSetup hsame

theorem Persisted.settle (h : app.Persisted) (o : Outgoing) (accepted : List Bool) :
    (o.settle app accepted).1.Persisted := by
  rw [Outgoing.settle_fst]
  exact ⟨h.servers, h.chats⟩

/-- A reload of a saved application keeps its servers and chats. -/
theorem Persisted.reload (h : app.Persisted) (identity : JsString) :
    (init app.storage identity).state.servers = app.state.servers ∧
      (init app.storage identity).state.chats = app.state.chats :=
  ⟨h.servers, h.chats⟩

end App

namespace World

/-- The servers and chats of every client are saved. -/
def Saved (w : World B ι) : Prop := ∀ i, (w.apps i).Persisted

variable {E : Env B} {w : World B ι} {e : Event B ι}

/-- **Everything is saved in every run.** -/
theorem Saved.step (h : w.Saved) : (w.step E e).Saved := by
  intro i
  rcases app_step E w e i with heq | ⟨a, -, heq⟩ | ⟨s, -, accepted, -, heq⟩ | ⟨id, up, chat, -, -, heq⟩
  · rw [heq]
    exact h i
  · rw [heq]
    exact (h i).apply a
  · rw [heq]
    exact (h i).settle s.outgoing accepted
  · rw [heq]
    exact (h i).pollChat E.crypto chat (w.answer E up)

end World

end Frag
