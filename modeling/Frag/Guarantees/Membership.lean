import Frag.Guarantees.Reload
import Mathlib.Data.Fintype.Basic

/-!
# Changing Server Lists

Chats are created with a drawn id and key and passed on as exports, and every member
may add and remove servers at any time. Sender and reader each resolve the servers of
the chat in their own list and leave out those they do not find, so the two may count
different positions. A message is read back with its text as long as the chunks it had
for the reader's servers, joined in the reader's order, spell what the sender split.

## Main results

- `Membership.step`: chats that share an id share their key;
- `received_text_is_sent_text`
-/

namespace Frag

open Runs

variable {B ι : Type} [DecidableEq B] [DecidableEq ι]

namespace World

/-! ## Chats in use -/

/-- The id and key of a chat are known to a client, in an export, or used by a message. -/
def InUse (w : World B ι) (shared : JsString × JsString) : Prop :=
  (∃ i, ∃ c ∈ (w.apps i).state.chats, c.shared = shared) ∨
    (∃ data ∈ w.exports, data.shared = shared) ∨
    ∃ s ∈ w.sent, s.outgoing.chat.shared = shared

/-- No chat in use has the id. -/
def FreshChatId (w : World B ι) (chatId : JsString) : Prop :=
  (∀ i, ∀ c ∈ (w.apps i).state.chats, c.chatId ≠ chatId) ∧
    (∀ data ∈ w.exports, data.chatId ≠ chatId) ∧
    ∀ s ∈ w.sent, s.outgoing.chat.chatId ≠ chatId

/-- Chats are created with a fresh id or imported from an export, messages
    have fresh ids, transparent senders and servers at distinct backends. -/
def MembersStep (E : Env B) (w : World B ι) : Event B ι → Prop
  | .act _ (.createChat _ _ chatId _ rand) => chatId = [] ∧ w.FreshChatId rand.chatId.val
  | .act _ (.importChat data _ _) => data ∈ w.exports
  | .send i _ _ rand => (∀ s ∈ w.sent, s.messageId ≠ rand.messageId) ∧
      (∀ hash ∈ (w.apps i).state.identity, Transparent hash) ∧
      ∀ chat ∈ (w.apps i).getActiveChat,
        (((w.apps i).resolveServers chat.serverIds).map E.backend).Nodup
  | _ => True

instance [Fintype ι] (w : World B ι) (chatId : JsString) : Decidable (w.FreshChatId chatId) :=
  inferInstanceAs (Decidable (_ ∧ _ ∧ _))

instance [Fintype ι] (E : Env B) (w : World B ι) : ∀ e : Event B ι, Decidable (w.MembersStep E e)
  | .act _ (.createChat _ _ chatId _ rand) =>
    inferInstanceAs (Decidable (chatId = [] ∧ w.FreshChatId rand.chatId.val))
  | .act _ (.importChat data _ _) => inferInstanceAs (Decidable (data ∈ w.exports))
  | .send _ _ _ _ => inferInstanceAs (Decidable (_ ∧ _ ∧ ∀ chat ∈ App.getActiveChat _, List.Nodup _))
  | .act _ (.addServer _ _ _ _) | .act _ (.removeServer _) | .act _ (.removeChat _)
  | .act _ (.setActiveChat _) | .act _ (.reload _) => .isTrue trivial
  | .share _ _ | .post _ _ _ | .settle _ _ | .poll _ _ _ | .purge _ _ => .isTrue trivial

/-- A poll of the chat takes the message up: it is new, and every server of the chat
    answers and holds a fragment of it above the cursor. -/
def Finds (E : Env B) (w : World B ι) (i : ι) (chat : Chat) (up : Server → Bool) (s : Sent ι) :
    Prop :=
  s.messageId.val ∉ ((w.apps i).messagesOf chat.id).map Message.id ∧
    (w.apps i).resolveServers chat.serverIds ≠ [] ∧
    ∀ server ∈ (w.apps i).resolveServers chat.serverIds, up server = true ∧
      ∃ r ∈ (w.stores (E.backend server)).rows, r.chatId = cStr (toWire chat.chatId) ∧
        r.messageId = cStr (toWire s.messageId.val) ∧ (w.apps i).lastSince chat.id < r.timestamp

/-- The chunks the message had for the servers of the reader, joined in the reader's
    order, spell the blob that was split. -/
def Spelled (E : Env B) (w : World B ι) (i : ι) (chat : Chat) (s : Sent ι) : Prop :=
  Base64.atob (joinPayload
      ((((w.apps i).resolveServers chat.serverIds).map E.backend).filterMap (s.payloadAt E))) =
    Base64.atob (joinPayload s.outgoing.payloads)

/-- Polls take up only plain text that is spelled by the servers of the reader. -/
def Aligned (E : Env B) (w : World B ι) : Event B ι → Prop
  | .poll i id up => ∀ chat ∈ w.chat? i id, ∀ s ∈ w.sent, w.Finds E i chat up s →
      PlainText s.outgoing.text ∧ w.Spelled E i chat s
  | _ => True

instance (E : Env B) (w : World B ι) (i : ι) (chat : Chat) (up : Server → Bool) (s : Sent ι) :
    Decidable (w.Finds E i chat up s) :=
  inferInstanceAs (Decidable (_ ∧ _ ∧ ∀ server ∈ (w.apps i).resolveServers chat.serverIds, _))

instance (E : Env B) (w : World B ι) (i : ι) (chat : Chat) (s : Sent ι) :
    Decidable (w.Spelled E i chat s) :=
  inferInstanceAs (Decidable (_ = _))

instance (E : Env B) (w : World B ι) : ∀ e : Event B ι, Decidable (w.Aligned E e)
  | .poll i id _ => inferInstanceAs (Decidable (∀ chat ∈ w.chat? i id, ∀ s ∈ w.sent, _ → _ ∧ _))
  | .act _ _ | .share _ _ | .send _ _ _ _ | .post _ _ _ | .settle _ _ | .purge _ _ =>
    .isTrue trivial

/-- What the members of chats keep. -/
structure Membership (E : Env B) (w : World B ι) : Prop where
  honest : w.Honest E
  saved : w.Saved
  distinct : ∀ s ∈ w.sent, (s.outgoing.servers.map E.backend).Nodup
  transparent : ∀ shared, w.InUse shared → Transparent shared.1
  agree : ∀ shared shared', w.InUse shared → w.InUse shared' → shared.1 = shared'.1 →
    shared = shared'

variable {E : Env B} {w : World B ι} {e : Event B ι}

omit [DecidableEq B] [DecidableEq ι] in
theorem InUse.not_fresh {shared : JsString × JsString} (h : w.InUse shared) :
    ¬ w.FreshChatId shared.1 := by
  rintro ⟨hchats, hexports, hsent⟩
  rcases h with ⟨i, c, hc, rfl⟩ | ⟨data, hdata, rfl⟩ | ⟨s, hs, rfl⟩
  · exact hchats i c hc rfl
  · exact hexports data hdata rfl
  · exact hsent s hs rfl

omit [DecidableEq B] in
private theorem inUse_update (w' : World B ι) {i : ι} {app : App}
    (happs : w'.apps = Function.update w.apps i app) (hexports : w'.exports = w.exports)
    (hsent : w'.sent = w.sent) {shared : JsString × JsString} (h : w'.InUse shared) :
    w.InUse shared ∨ ∃ c ∈ app.state.chats, c.shared = shared := by
  rw [InUse, hexports, hsent, happs] at h
  rcases h with ⟨j, c, hc, heq⟩ | hother
  · by_cases hj : j = i
    · rw [hj, Function.update_self] at hc
      exact .inr ⟨c, hc, heq⟩
    · rw [Function.update_of_ne hj] at hc
      exact .inl (.inl ⟨j, c, hc, heq⟩)
  · exact .inl (.inr hother)

/-- A step brings at most one chat into use, and that one has a fresh id. -/
theorem inUse_step (hsaved : w.Saved) (hok : w.MembersStep E e) :
    (∀ shared, (w.step E e).InUse shared → w.InUse shared) ∨
      ∃ fresh : JsString × JsString, w.FreshChatId fresh.1 ∧ Transparent fresh.1 ∧
        ∀ shared, (w.step E e).InUse shared → w.InUse shared ∨ shared = fresh := by
  -- Clients that keep their chats, up to cursors, bring nothing into use.
  have hkeep : ∀ {w' : World B ι} {i : ι} {app : App}, w'.apps = Function.update w.apps i app →
      w'.exports = w.exports → w'.sent = w.sent →
      (∀ c ∈ app.state.chats, ∃ c' ∈ (w.apps i).state.chats, c'.shared = c.shared) →
      ∀ shared, w'.InUse shared → w.InUse shared := by
    intro w' i app happs hexports hsent hchats shared h
    rcases inUse_update w' happs hexports hsent h with hold | ⟨c, hc, rfl⟩
    · exact hold
    · obtain ⟨c', hc', heq⟩ := hchats c hc
      exact .inl ⟨i, c', hc', heq⟩
  cases e with
  | act i a =>
    have hacted : ∀ shared, (w.step E (.act i a)).InUse shared →
        w.InUse shared ∨ ∃ c ∈ (a.apply (w.apps i)).state.chats, c.shared = shared :=
      fun _ h => inUse_update (w.step E (.act i a)) rfl rfl rfl h
    by_cases hcreate : ∃ name serverIds chatId keyB64 rand,
        a = .createChat name serverIds chatId keyB64 rand
    · obtain ⟨name, serverIds, chatId, keyB64, rand, rfl⟩ := hcreate
      obtain ⟨rfl, hfresh⟩ := hok
      -- The id of a new chat is drawn, and its key may be given.
      refine .inr ⟨(rand.chatId.val, if keyB64 = [] then Base64.btoa rand.key.raw else keyB64),
        hfresh, rand.chatId.transparent, fun shared h => ?_⟩
      rcases hacted shared h with hold | ⟨c, hc, rfl⟩
      · exact .inl hold
      · rcases App.mem_chats_apply (hsaved i) hc with hold | ⟨_, _, _, _, _, heq, hid, hkey⟩ |
          ⟨_, _, _, heq, -⟩
        · exact .inl (.inl ⟨i, c, hold, rfl⟩)
        · cases heq
          exact .inr (Prod.ext hid hkey)
        · cases heq
    · left
      intro shared h
      rcases hacted shared h with hold | ⟨c, hc, rfl⟩
      · exact hold
      · rcases App.mem_chats_apply (hsaved i) hc with hold | ⟨_, _, _, _, _, heq, -, -⟩ |
          ⟨data, fresh, rand, rfl, heq⟩
        · exact .inl ⟨i, c, hold, rfl⟩
        · exact absurd ⟨_, _, _, _, _, heq⟩ hcreate
        · exact .inr (.inl ⟨data, hok, heq.symm⟩)
  | share i id =>
    left
    intro shared h
    simp only [step] at h
    split at h
    · exact h
    · rename_i data hexport
      -- An export has the id and the key of a chat that its client has.
      rcases h with hchats | ⟨d, hd, rfl⟩ | hsent
      · exact .inl hchats
      · rcases List.mem_append.mp hd with hold | hnew
        · exact .inr (.inl ⟨d, hold, rfl⟩)
        · obtain ⟨c, hc, heq⟩ := App.shared_of_exportChat hexport
          rw [List.mem_singleton] at hnew
          exact .inl ⟨i, c, hc, hnew ▸ heq⟩
      · exact .inr (.inr hsent)
  | send i text ttl rand =>
    left
    intro shared h
    simp only [step] at h
    split at h
    · exact h
    · rename_i o ho
      rcases h with hchats | hexports | ⟨s, hs, rfl⟩
      · exact .inl hchats
      · exact .inr (.inl hexports)
      · rcases List.mem_append.mp hs with hold | hnew
        · exact .inr (.inr ⟨s, hold, rfl⟩)
        · rw [List.mem_singleton] at hnew
          subst hnew
          exact .inl ⟨i, o.chat, List.mem_of_find?_eq_some (fields_of_sendMessage ho).1, rfl⟩
  | post k j now =>
    left
    intro shared h
    simp only [step] at h
    split at h <;> exact h
  | settle k accepted =>
    left
    simp only [step]
    split
    · exact fun _ h => h
    · refine hkeep rfl rfl rfl fun c hc => ⟨c, ?_, rfl⟩
      rwa [Outgoing.settle_fst] at hc
  | poll i id up =>
    left
    simp only [step]
    split
    · exact fun _ h => h
    · exact hkeep rfl rfl rfl fun c hc => shared_pollChat hc
  | purge b now => exact .inl fun _ h => h

omit [DecidableEq B] [DecidableEq ι] in
/-- The chat ids of members are transparent. -/
theorem Membership.cleanSend (h : Membership E w) (hok : w.MembersStep E e) : w.CleanSend e := by
  cases e with
  | send i text ttl rand =>
    refine ⟨hok.1, hok.2.1, fun chat hchat => ?_⟩
    exact h.transparent chat.shared (.inl ⟨i, chat, List.mem_of_find?_eq_some hchat, rfl⟩)
  | _ => trivial

/-- **Chats that share an id share their key**, in every run of their members. -/
theorem Membership.step (h : Membership E w) (hok : w.MembersStep E e) :
    Membership E (w.step E e) := by
  refine ⟨h.honest.step (h.cleanSend hok), h.saved.step, ?_, ?_, ?_⟩
  · intro s hs
    rcases sent_step E w e with heq | ⟨i, text, ttl, rand, o, rfl, ho, heq⟩
    · exact h.distinct s (heq ▸ hs)
    · rw [heq, List.mem_append, List.mem_singleton] at hs
      rcases hs with hs | rfl
      · exact h.distinct s hs
      · have hservers := hok.2.2 _ (fields_of_sendMessage ho).1
        rwa [← servers_of_sendMessage ho] at hservers
  · rcases inUse_step h.saved hok with hold | ⟨fresh, -, htransparent, hnew⟩
    · exact fun shared hin => h.transparent shared (hold shared hin)
    · intro shared hin
      rcases hnew shared hin with hin | rfl
      · exact h.transparent shared hin
      · exact htransparent
  · rcases inUse_step h.saved hok with hold | ⟨fresh, hfresh, -, hnew⟩
    · exact fun shared shared' hin hin' => h.agree _ _ (hold _ hin) (hold _ hin')
    · intro shared shared' hin hin' heq
      rcases hnew shared hin with hin | rfl <;> rcases hnew shared' hin' with hin' | rfl
      · exact h.agree _ _ hin hin' heq
      · exact absurd (heq ▸ hfresh) hin.not_fresh
      · exact absurd (heq ▸ hfresh) hin'.not_fresh
      · rfl

/-! ## What a poll appends -/

variable {i : ι} {chat : Chat} {up : Server → Bool} {p : PendingMessage} {s : Sent ι}

omit [DecidableEq B] [DecidableEq ι] in
/-- The server that answers a fragment of the message is up and holds it for the chat. -/
private theorem exists_row_of_fragment (h : w.Honest E) (hs : s ∈ w.sent) {server : Server}
    {chatId : JsString} {since : Int} {f : Fragment JsString}
    (hf : f ∈ (w.answer E up server chatId since).getD []) (hid : f.messageId = s.messageId.val) :
    up server = true ∧ ∃ r ∈ (w.stores (E.backend server)).rows, r.chatId = cStr (toWire chatId) ∧
      r.messageId = cStr (toWire s.messageId.val) ∧ since < r.timestamp ∧
      r.chatId = cStr (toWire s.outgoing.chat.chatId) := by
  constructor
  · by_contra hdown
    simp [answer, hdown] at hf
  · obtain ⟨r, hr, hchat, hsince, rfl⟩ := exists_row_of_mem_answer hf
    obtain ⟨s', j, q, horigin⟩ := h.rows _ r hr
    obtain rfl := h.eq_of_messageId horigin.sent hs
      (Uuid.ext ((horigin.readBack h).1.symm.trans hid))
    obtain ⟨hmid, hchat'⟩ := horigin.ids h
    exact ⟨r, hr, hchat, hmid, hsince, hchat'⟩

omit [DecidableEq B] [DecidableEq ι] in
/-- What a poll appends of a sent message it finds, and the chat is that of the message. -/
theorem Membership.finds (h : Membership E w) (hchat : w.chat? i chat.id = some chat)
    (hp : p ∈ pendingOf (w.apps i) chat (w.answer E up)) (hs : s ∈ w.sent)
    (hid : p.id = s.messageId.val) :
    w.Finds E i chat up s ∧ chat.shared = s.outgoing.chat.shared := by
  obtain ⟨-, hchunks⟩ := chunk_of_mem_pendingOf h.honest.names hp
  have hall : ∀ server ∈ (w.apps i).resolveServers chat.serverIds, up server = true ∧
      ∃ r ∈ (w.stores (E.backend server)).rows, r.chatId = cStr (toWire chat.chatId) ∧
        r.messageId = cStr (toWire s.messageId.val) ∧ (w.apps i).lastSince chat.id < r.timestamp ∧
        r.chatId = cStr (toWire s.outgoing.chat.chatId) := by
    intro server hserver
    obtain ⟨k, hk⟩ := List.getElem?_of_mem hserver
    obtain ⟨f, hf, hfid, -⟩ := hchunks k _ (by rw [pollResults, List.getElem?_map, hk]; rfl)
    exact exists_row_of_fragment h.honest hs hf (hfid.trans hid)
  -- A message is only taken up if some server answers.
  have hne : (w.apps i).resolveServers chat.serverIds ≠ [] := by
    obtain ⟨frags, f, hhead, -⟩ := head_of_mem_pendingOf h.honest.names hp
    intro hnil
    simp [pollResults, hnil] at hhead
  refine ⟨⟨hid ▸ notMem_of_mem_pendingOf hp, hne, fun server hserver => ?_⟩, ?_⟩
  · obtain ⟨hup, r, hr, hrchat, hrid, hsince, -⟩ := hall server hserver
    exact ⟨hup, r, hr, hrchat, hrid, hsince⟩
  · obtain ⟨server, hserver⟩ := List.exists_mem_of_ne_nil _ hne
    obtain ⟨-, r, -, hrchat, -, -, hrsent⟩ := hall server hserver
    have hreader : w.InUse chat.shared :=
      .inl ⟨i, chat, List.mem_of_find?_eq_some hchat, rfl⟩
    have hsender : w.InUse s.outgoing.chat.shared := .inr (.inr ⟨s, hs, rfl⟩)
    exact h.agree _ _ hreader hsender
      (cStr_toWire_inj (h.transparent _ hreader).1 (h.transparent _ hsender).1 (hrchat.symm.trans hrsent))

private theorem filterMap_of_map {α β : Type} {f : α → Option β} {l : List α} {ys : List β}
    (h : ys.map some = l.map f) : l.filterMap f = ys := by
  have hid : l.filterMap f = (l.map f).filterMap id := by
    rw [List.filterMap_map]
    rfl
  rw [hid, ← h, List.filterMap_map]
  exact List.filterMap_some

end World

/-- **A member reads what another one wrote**, in every run in which polls take up only
    plain text that is spelled by the servers of the reader. -/
theorem received_text_is_sent_text {E : Env B} (hW : E.crypto.Lawful) {w₀ : World B ι}
    (h₀ : w₀.Blank) (hstart : ∀ i, (w₀.apps i).state.chats = [] ∧ (w₀.apps i).Persisted)
    {es : List (Event B ι)} {i : ι} {id : JsString} {up : Server → Bool}
    (hes : Along (World.step E) (fun w e => w.MembersStep E e ∧ w.Aligned E e) w₀
      (es ++ [.poll i id up])) :
    let w := run (World.step E) w₀ es
    let w' := run (World.step E) w₀ (es ++ [.poll i id up])
    ∃ new, (w'.apps i).messagesOf id = (w.apps i).messagesOf id ++ new ∧
      ∀ msg ∈ new, ∀ s ∈ w.sent, s.messageId.val = msg.id → msg.text = s.outgoing.text := by
  intro w w'
  rw [along_concat] at hes
  -- At the start no chat is in use, so the invariant holds.
  have h : World.Membership E w := by
    refine hes.1.invariant _ ?_ fun w e hok h => h.step hok.1
    have hunused : ∀ shared, ¬ w₀.InUse shared := by
      rintro shared (⟨i, c, hc, -⟩ | ⟨d, hd, -⟩ | ⟨s, hs, -⟩)
      · rw [(hstart i).1] at hc
        cases hc
      · rw [h₀.exports] at hd
        cases hd
      · rw [h₀.sent] at hs
        cases hs
    refine ⟨h₀.honest, fun i => (hstart i).2, ?_, fun shared h => absurd h (hunused shared),
      fun shared _ h => absurd h (hunused shared)⟩
    intro s hs
    rw [h₀.sent] at hs
    cases hs
  have hw' : w' = w.step E (.poll i id up) := run_concat _ _ _
  cases hfind : w.chat? i id with
  | none =>
    refine ⟨[], ?_, by simp⟩
    rw [hw', List.append_nil]
    simp only [World.step, hfind]
  | some chat =>
    obtain ⟨rfl, -⟩ := World.chat?_some hfind
    have happ : w'.apps i = pollChat E.crypto (w.apps i) chat (w.answer E up) := by
      rw [hw']
      simp only [World.step, hfind, Function.update_self]
    obtain ⟨new, hmsgs, hnew⟩ := messagesOf_pollChat_append E.crypto (w.apps i) chat (w.answer E up)
    refine ⟨new, by rw [happ, hmsgs], fun msg hmsg s hs hid => ?_⟩
    obtain ⟨key, hkey, p, hp, rfl⟩ := hnew msg hmsg
    -- The message was found for this chat, so reader and sender have the same key.
    obtain ⟨hfinds, hshared⟩ := h.finds hfind hp hs hid.symm
    obtain ⟨hplain, hspelled⟩ := hes.2.2 chat hfind s hs hfinds
    refine (h.honest.genuine s hs).text_receivedBy hW hplain hkey (congrArg Prod.snd hshared) ?_
    have hchunks := World.filterMap_of_map (h.honest.chunks_at hp hs hid.symm (h.distinct s hs))
    rw [World.Spelled, hchunks] at hspelled
    exact hspelled

/-- The reader removes the second server of the chat before the message is sent. -/
def divergedRun : List (Event JsString Bool) :=
  Sample.setup ++ [.act false (.removeServer (Sample.serverIds.getD 1 [])), Sample.say true 1,
    .post 0 0 100, .post 0 1 100]

theorem removed_server_breaks_messages :
    let w := run (World.step Sample.env) Sample.start divergedRun
    let w' := run (World.step Sample.env) Sample.start (divergedRun ++ [Sample.look])
    Along (World.step Sample.env) (World.MembersStep Sample.env) Sample.start
        (divergedRun ++ [Sample.look]) ∧
      w.sent.map (fun s => (s.messageId.val, s.outgoing.text)) =
        [((Sample.messageId 1).val, js "hi")] ∧
      (w.apps false).messagesOf Sample.id = [] ∧
      ((w'.apps false).messagesOf Sample.id).map (fun msg => (msg.id, msg.text)) =
        [((Sample.messageId 1).val, js "[decryption failed]")] := by
  decide +kernel

/-- The reader adds a server that the chat does not use. -/
def agreeingRun : List (Event JsString Bool) :=
  Sample.setup ++ [.act false (.addServer (js "https://c") (js "t") [] (js "c")),
    Sample.say true 1, .post 0 1 100, .post 0 0 100]

theorem unused_server_breaks_nothing :
    let w := run (World.step Sample.env) Sample.start agreeingRun
    let w' := run (World.step Sample.env) Sample.start (agreeingRun ++ [Sample.look])
    ∃ new, (w'.apps false).messagesOf Sample.id = (w.apps false).messagesOf Sample.id ++ new ∧
      ∀ msg ∈ new, ∀ s ∈ w.sent, s.messageId.val = msg.id → msg.text = s.outgoing.text :=
  received_text_is_sent_text (E := Sample.env) sampleCrypto_lawful Sample.blank_start
    (fun _ => ⟨rfl, ⟨rfl, rfl⟩⟩) (by decide +kernel)

end Frag
