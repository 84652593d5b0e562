import Frag.Library.HighWater
import Frag.System.World

/-!
# One Chat of the System

A chat that its members hold with the same ordered configuration: the same id and key
and servers at the same backends. This module connects the faithful model to the
abstract reader of `HighWater`: the tables of the backends are the sources, the
fragments of a message its listings, `lastSince` the cursor.

## Main results

- `Honest.chunks_of_pending`: what a poll decrypts of a message are its payloads;
- `mem_ids_pendingOf`: a poll appends exactly the messages that `HighWater.Fetchable`
  describes;
- `board_poll`: a poll that all servers answer is a fetch of the board.
-/

namespace Frag

variable {B ι : Type}

/-- What the members of a chat agree on. -/
structure ChatConfig (B : Type) where
  chatId : JsString
  transparent : Transparent chatId
  chatId_ne : chatId ≠ []
  keyB64 : JsString
  backends : List B
  distinct : backends.Nodup
  backends_ne : backends ≠ []

/-- The backends of the chat, the sources of its board. -/
def ChatConfig.sources (cfg : ChatConfig B) : Set B := {b | b ∈ cfg.backends}

/-- A client holds the configuration: its chat object has the id and the key, and its
    servers resolve to the backends, in order. -/
structure Holds (E : Env B) (cfg : ChatConfig B) (app : App) (chat : Chat) : Prop where
  chatId : chat.chatId = cfg.chatId
  keyB64 : chat.keyB64 = cfg.keyB64
  backends : (app.resolveServers chat.serverIds).map E.backend = cfg.backends

instance [DecidableEq B] (E : Env B) (cfg : ChatConfig B) (app : App) (chat : Chat) :
    Decidable (Holds E cfg app chat) :=
  decidable_of_iff (chat.chatId = cfg.chatId ∧ chat.keyB64 = cfg.keyB64 ∧
      (app.resolveServers chat.serverIds).map E.backend = cfg.backends)
    ⟨fun h => ⟨h.1, h.2.1, h.2.2⟩, fun h => ⟨h.chatId, h.keyB64, h.backends⟩⟩

/-- The message was sent in the chat of the configuration. -/
def Sent.InChat (cfg : ChatConfig B) (s : Sent ι) : Prop := s.outgoing.chat.chatId = cfg.chatId

instance (cfg : ChatConfig B) (s : Sent ι) : Decidable (s.InChat cfg) :=
  inferInstanceAs (Decidable (_ = _))

/-- The payload of a message for a backend. -/
def Sent.payloadAt [DecidableEq B] (E : Env B) (s : Sent ι) (b : B) : Option JsString :=
  (s.posts.find? fun p => E.backend p.1 = b).map fun p => p.2.payload

theorem Sent.payloadAt_of_mem [DecidableEq B] {E : Env B} (s : Sent ι)
    (hdistinct : (s.outgoing.servers.map E.backend).Nodup) {p : Server × FragmentPost JsString}
    (hp : p ∈ s.posts) : s.payloadAt E (E.backend p.1) = some p.2.payload := by
  have hsome : (s.posts.find? fun q => E.backend q.1 = E.backend p.1).isSome :=
    List.find?_isSome.mpr ⟨p, hp, by simp⟩
  obtain ⟨q, hq⟩ := Option.isSome_iff_exists.mp hsome
  have hback : E.backend q.1 = E.backend p.1 := by simpa using List.find?_some hq
  rw [Outgoing.servers, List.map_map] at hdistinct
  obtain rfl : q = p := List.inj_on_of_nodup_map hdistinct (List.mem_of_find?_eq_some hq) hp hback
  rw [payloadAt, hq, Option.map_some]

/-- For the backends it was posted to, these are its payloads. -/
theorem Sent.map_payloadAt [DecidableEq B] {E : Env B} (s : Sent ι)
    (hdistinct : (s.outgoing.servers.map E.backend).Nodup) :
    (s.outgoing.servers.map E.backend).map (s.payloadAt E) = s.outgoing.payloads.map some := by
  rw [Outgoing.servers, Outgoing.payloads, List.map_map, List.map_map, List.map_map]
  exact List.map_congr_left fun p hp => s.payloadAt_of_mem hdistinct hp

/-! ## Reading rows back -/

/-- The payload of a post is the chunk of its position. -/
theorem Sent.payload_of_post {s : Sent ι} {j : Nat} {p : Server × FragmentPost JsString}
    (hp : s.posts[j]? = some p) : s.outgoing.payloads[j]? = some p.2.payload := by
  rw [Sent.posts] at hp
  simp [Outgoing.payloads, hp]

/-- The chunks of a message are base64 text. -/
theorem Sent.Genuine.wireSafe_payload {W : WebCrypto} {s : Sent ι} (h : s.Genuine W) {j : Nat}
    {p : Server × FragmentPost JsString} (hp : s.posts[j]? = some p) : WireSafe p.2.payload := by
  obtain ⟨key, iv, -, hpay⟩ := h.encrypted
  have hmem := List.mem_of_getElem? (Sent.payload_of_post hp)
  rw [hpay] at hmem
  exact wireSafe_of_ascii fun u hu => (isCodeUnit_of_mem_encrypt (mem_of_mem_splitPayload hmem hu)).toNat

namespace World

variable {E : Env B} {w : World B ι}

/-- A row as the client receives it. -/
def readBack (r : Fragment CString) : Fragment JsString := (r.map CString.bytes).map fromWire

/-- What a backend that answers returns. -/
def fetch (w : World B ι) (b : B) (chatId : JsString) (since : Int) : List (Fragment JsString) :=
  ((w.stores b).getFragments (toWire chatId) since).map fun f => f.map fromWire

theorem mem_fetch {b : B} {chatId : JsString} {since : Int} {f : Fragment JsString} :
    f ∈ w.fetch b chatId since ↔ ∃ r ∈ (w.stores b).rows, r.chatId = cStr (toWire chatId) ∧
      since < r.timestamp ∧ f = readBack r := by
  simp only [fetch, List.mem_map, Database.mem_getFragments]
  constructor
  · rintro ⟨x, ⟨r, hr, hchat, hsince, rfl⟩, rfl⟩
    exact ⟨r, hr, hchat, hsince, rfl⟩
  · rintro ⟨r, hr, hchat, hsince, rfl⟩
    exact ⟨_, ⟨r, hr, hchat, hsince, rfl⟩, rfl⟩

private theorem toWire_ne_nil {s : JsString} (hs : WireSafe s) (hne : s ≠ []) : toWire s ≠ [] := by
  intro hnil
  have hback := fromWire_cStr_toWire hs
  rw [hnil] at hback
  exact hne (hback.symm.trans (by decide))

/-- A request is answered if its server is up, and its chat id can be sent and is not empty. -/
theorem answer_isSome {server : Server} {up : Server → Bool} {chatId : JsString} {since : Int} :
    (w.answer E up server chatId since).isSome ↔
      up server = true ∧ isWellFormed chatId = true ∧ toWire chatId ≠ [] := by
  unfold answer makeGetFragmentsHandler
  grind

/-- The results of a poll that is answered by all its servers. -/
theorem pollResults_of_answered {app : App} {chat : Chat} {up : Server → Bool}
    (h : ∀ server ∈ app.resolveServers chat.serverIds,
      (w.answer E up server chat.chatId (app.lastSince chat.id)).isSome) :
    pollResults app chat (w.answer E up) =
      ((app.resolveServers chat.serverIds).map E.backend).map fun b =>
        w.fetch b chat.chatId (app.lastSince chat.id) := by
  rw [pollResults, List.map_map]
  refine List.map_congr_left fun server hserver => ?_
  obtain ⟨hup, hwf, hne⟩ := answer_isSome.mp (h server hserver)
  rw [answer, if_pos ⟨hup, hwf⟩, makeGetFragmentsHandler, if_neg hne]
  rfl

theorem pollResults_answer {app : App} {chat : Chat} {up : Server → Bool}
    (hchat : WireSafe chat.chatId) (hne : chat.chatId ≠ [])
    (hup : ∀ server ∈ app.resolveServers chat.serverIds, up server = true) :
    pollResults app chat (w.answer E up) =
      ((app.resolveServers chat.serverIds).map E.backend).map fun b =>
        w.fetch b chat.chatId (app.lastSince chat.id) :=
  pollResults_of_answered fun server hserver =>
    answer_isSome.mpr ⟨hup server hserver, isWellFormed_of_wireSafe hchat, toWire_ne_nil hchat hne⟩

/-- Everything a poll of wire-safe origin finds in a row. -/
theorem Origin.readBack (hw : w.Honest E) {b : B} {r : Fragment CString} {s : Sent ι} {j : Nat}
    {p : Server × FragmentPost JsString} (h : w.Origin E b r s j p) :
    (readBack r).messageId = s.messageId.val ∧ (readBack r).payload = p.2.payload ∧
      s.outgoing.payloads[j]? = some p.2.payload ∧
      (readBack r).senderHash = s.senderHash := by
  obtain ⟨-, hmid, -, hsender⟩ := (hw.genuine s h.sent).post j p h.post
  have hsafe := (hw.genuine s h.sent).wireSafe_payload h.post
  have hread : ∀ t, WireSafe t → fromWire (cStr (toWire t)).bytes = t :=
    fun t ht => fromWire_cStr_toWire ht
  rw [h.row]
  refine ⟨?_, hread _ hsafe, Sent.payload_of_post h.post, ?_⟩
  · exact (hread _ (hmid ▸ s.messageId.wireSafe)).trans hmid
  · exact (hread _ (hsender ▸ (hw.transparent s h.sent).1.1)).trans hsender

/-- All messages of the chat were sent with the configuration. -/
def Agreed (E : Env B) (cfg : ChatConfig B) (w : World B ι) : Prop :=
  ∀ s ∈ w.sent, s.InChat cfg → s.outgoing.chat.keyB64 = cfg.keyB64 ∧
    s.outgoing.servers.map E.backend = cfg.backends

variable {cfg : ChatConfig B}

/-- Position `j` of a message of the chat goes to the `j`-th backend. -/
theorem getElem?_backends (ha : w.Agreed E cfg) {s : Sent ι} (hs : s ∈ w.sent)
    (hin : s.InChat cfg) {j : Nat} {p : Server × FragmentPost JsString}
    (hp : s.posts[j]? = some p) : cfg.backends[j]? = some (E.backend p.1) := by
  rw [← (ha s hs hin).2]
  rw [Sent.posts] at hp
  simp [Outgoing.servers, hp]

/-- Every backend of the chat has a position in every message of the chat. -/
theorem exists_post (ha : w.Agreed E cfg) {s : Sent ι} (hs : s ∈ w.sent) (hin : s.InChat cfg)
    {b : B} (hb : b ∈ cfg.backends) :
    ∃ (j : Nat) (p : Server × FragmentPost JsString), s.posts[j]? = some p ∧ E.backend p.1 = b := by
  rw [← (ha s hs hin).2, Outgoing.servers, List.map_map, List.mem_map] at hb
  obtain ⟨p, hp, hpb⟩ := hb
  obtain ⟨j, hj⟩ := List.getElem?_of_mem hp
  exact ⟨j, p, hj, hpb⟩

/-- At a backend of the chat a message has one position. -/
theorem position_unique (ha : w.Agreed E cfg) {s : Sent ι} (hs : s ∈ w.sent)
    (hin : s.InChat cfg) {j j' : Nat} {p p' : Server × FragmentPost JsString}
    (hp : s.posts[j]? = some p) (hp' : s.posts[j']? = some p')
    (hb : E.backend p.1 = E.backend p'.1) : j = j' ∧ p = p' := by
  have hj := getElem?_backends ha hs hin hp
  have hj' := getElem?_backends ha hs hin hp'
  rw [← hb] at hj'
  obtain ⟨hlt, -⟩ := List.getElem?_eq_some_iff.mp hj
  obtain rfl : j = j' := (List.getElem?_inj hlt cfg.distinct).mp (hj.trans hj'.symm)
  exact ⟨rfl, Option.some.inj (hp.symm.trans hp')⟩

/-- The chat and message members of a row. -/
theorem Origin.ids (hw : w.Honest E) {b : B} {r : Fragment CString} {s : Sent ι} {j : Nat}
    {p : Server × FragmentPost JsString} (h : w.Origin E b r s j p) :
    r.messageId = cStr (toWire s.messageId.val) ∧
      r.chatId = cStr (toWire s.outgoing.chat.chatId) := by
  obtain ⟨-, hmid, hchat, -⟩ := (hw.genuine s h.sent).post j p h.post
  rw [h.row, ← hmid, ← hchat]
  exact ⟨rfl, rfl⟩

theorem Origin.messageId_eq (hw : w.Honest E) {b : B} {r : Fragment CString} {s : Sent ι}
    {j : Nat} {p : Server × FragmentPost JsString} (h : w.Origin E b r s j p) {m : Uuid}
    (hm : r.messageId = cStr (toWire m.val)) : s.messageId = m :=
  Uuid.ext (cStr_toWire_inj s.messageId.wireSafe m.wireSafe ((h.ids hw).1.symm.trans hm))

/-- A row of the chat stems from a message of the chat. -/
theorem Origin.inChat (hw : w.Honest E) {b : B} {r : Fragment CString}
    {s : Sent ι} {j : Nat} {p : Server × FragmentPost JsString} (h : w.Origin E b r s j p)
    (hr : r.chatId = cStr (toWire cfg.chatId)) : s.InChat cfg :=
  cStr_toWire_inj (hw.transparent s h.sent).2.1 cfg.transparent.1 ((h.ids hw).2.symm.trans hr)

/-- The row of a message at a backend of the chat is unique. -/
theorem row_unique (hw : w.Honest E) (ha : w.Agreed E cfg) {b : B} {r r' : Fragment CString}
    {m : Uuid} (hr : r ∈ (w.stores b).rows) (hr' : r' ∈ (w.stores b).rows)
    (hchat : r.chatId = cStr (toWire cfg.chatId)) (hm : r.messageId = cStr (toWire m.val))
    (hm' : r'.messageId = cStr (toWire m.val)) : r = r' := by
  obtain ⟨s, j, p, h⟩ := hw.rows b r hr
  obtain ⟨s', j', p', h'⟩ := hw.rows b r' hr'
  obtain rfl : s = s' := hw.eq_of_messageId h.sent h'.sent
    ((h.messageId_eq hw hm).trans (h'.messageId_eq hw hm').symm)
  obtain ⟨rfl, rfl⟩ := position_unique ha h.sent (h.inChat hw hchat) h.post h'.post
    (h.backend.trans h'.backend.symm)
  refine Database.eq_of_id_eq hr hr' ?_
  rw [h.row, h'.row]
  rfl

/-! ## What a poll finds -/

variable {app : App} {chat : Chat} {up : Server → Bool}

/-- An answered fragment is a row of the answering backend. -/
theorem exists_row_of_mem_answer {server : Server} {chatId : JsString} {since : Int}
    {f : Fragment JsString} (h : f ∈ (w.answer E up server chatId since).getD []) :
    ∃ r ∈ (w.stores (E.backend server)).rows, r.chatId = cStr (toWire chatId) ∧
      since < r.timestamp ∧ f = World.readBack r := by
  unfold answer at h
  split at h
  · unfold makeGetFragmentsHandler at h
    split at h
    · simp at h
    · exact mem_fetch.mp h
  · simp at h

theorem exists_row_of_mem_pollResults {frags : List (Fragment JsString)}
    {f : Fragment JsString} (hfrags : frags ∈ pollResults app chat (w.answer E up))
    (hf : f ∈ frags) : ∃ b, ∃ r ∈ (w.stores b).rows, f = World.readBack r := by
  obtain ⟨server, -, rfl⟩ := List.mem_map.mp hfrags
  obtain ⟨r, hr, -, -, heq⟩ := exists_row_of_mem_answer hf
  exact ⟨_, r, hr, heq⟩

/-- Honest fragments do not carry an inherited name: `byMessage` does not throw. -/
theorem Honest.names (hw : w.Honest E) :
    ∀ frags ∈ pollResults app chat (w.answer E up), ∀ f ∈ frags,
      f.messageId ∉ inheritedNames := by
  intro frags hfrags f hf hmem
  obtain ⟨b, r, hr, rfl⟩ := exists_row_of_mem_pollResults hfrags hf
  obtain ⟨s, j, p, horigin⟩ := hw.rows b r hr
  have hshort : ∀ n ∈ inheritedNames, n.length ≠ 36 := by decide
  rw [(horigin.readBack hw).1] at hmem
  exact hshort _ hmem (length_of_isUuid s.messageId.shape)

/-- A poll that misses the answer of one of its servers appends nothing. -/
theorem Honest.pendingOf_eq_nil (hw : w.Honest E) {server : Server}
    (hserver : server ∈ app.resolveServers chat.serverIds) (hdown : up server = false) :
    pendingOf app chat (w.answer E up) = [] := by
  refine List.eq_nil_iff_forall_not_mem.mpr fun p hp => ?_
  obtain ⟨i, hi⟩ := List.getElem?_of_mem hserver
  obtain ⟨f, hf, -⟩ := (chunk_of_mem_pendingOf hw.names hp).2 i _ (by
    rw [pollResults, List.getElem?_map, hi, Option.map_some])
  simp [answer, hdown] at hf

/-- An answered fragment with the id of a sent message is one of its POSTs. -/
private theorem exists_post_of_answer (hw : w.Honest E) {s : Sent ι} (hs : s ∈ w.sent) {i : Nat}
    {frags : List (Fragment JsString)} {f : Fragment JsString}
    (hi : (pollResults app chat (w.answer E up))[i]? = some frags) (hf : f ∈ frags)
    (hid : f.messageId = s.messageId.val) :
    ∃ p ∈ s.posts, ((app.resolveServers chat.serverIds).map E.backend)[i]? = some (E.backend p.1) ∧
      f.payload = p.2.payload ∧ f.senderHash = s.senderHash := by
  rw [pollResults, List.getElem?_map] at hi
  obtain ⟨server, hserver, rfl⟩ := Option.map_eq_some_iff.mp hi
  obtain ⟨r, hr, -, -, rfl⟩ := exists_row_of_mem_answer hf
  obtain ⟨s', j, p, horigin⟩ := hw.rows _ r hr
  obtain ⟨hmid, hpayload, -, hsender⟩ := horigin.readBack hw
  obtain rfl : s' = s := hw.eq_of_messageId horigin.sent hs (Uuid.ext (hmid.symm.trans hid))
  refine ⟨p, List.mem_of_getElem? horigin.post, ?_, hpayload, hsender⟩
  rw [List.getElem?_map, hserver, Option.map_some, horigin.backend]

/-- A poll takes the sender of a message from its fragments. -/
theorem Honest.sender_of_pending (hw : w.Honest E) {p : PendingMessage} {s : Sent ι}
    (hp : p ∈ pendingOf app chat (w.answer E up)) (hs : s ∈ w.sent)
    (hid : p.id = s.messageId.val) : p.sender = s.senderHash := by
  obtain ⟨frags, f, hhead, hf, hfid, hsender, -⟩ := head_of_mem_pendingOf hw.names hp
  rw [List.head?_eq_getElem?] at hhead
  obtain ⟨-, -, -, -, hsame⟩ := exists_post_of_answer hw hs hhead hf (hfid.trans hid)
  rw [hsender, hsame]

section Payloads

variable [DecidableEq B]

/-- **What a poll decrypts** of a message: the payloads it had for the backends of the
    reader, in the reader's order. -/
theorem Honest.chunks_at (hw : w.Honest E) {p : PendingMessage} {s : Sent ι}
    (hp : p ∈ pendingOf app chat (w.answer E up)) (hs : s ∈ w.sent)
    (hid : p.id = s.messageId.val) (hdistinct : (s.outgoing.servers.map E.backend).Nodup) :
    p.chunks.map some =
      ((app.resolveServers chat.serverIds).map E.backend).map (s.payloadAt E) := by
  obtain ⟨hlen, hchunks⟩ := chunk_of_mem_pendingOf hw.names hp
  -- Position by position: the results are in the order of the servers.
  refine List.ext_getElem? fun i => ?_
  rw [List.getElem?_map, List.getElem?_map]
  cases hi : (pollResults app chat (w.answer E up))[i]? with
  | none =>
    have hle := List.getElem?_eq_none_iff.mp hi
    have hservers : (pollResults app chat (w.answer E up)).length =
        ((app.resolveServers chat.serverIds).map E.backend).length := by simp [pollResults]
    rw [List.getElem?_eq_none (hlen ▸ hle), List.getElem?_eq_none (hservers ▸ hle)]
    rfl
  | some frags =>
    obtain ⟨f, hf, hfid, hchunk⟩ := hchunks i frags hi
    obtain ⟨q, hq, hback, hpayload, -⟩ := exists_post_of_answer hw hs hi hf (hfid.trans hid)
    rw [hchunk, hback, Option.map_some, Option.map_some, s.payloadAt_of_mem hdistinct hq, hpayload]

/-- With the backends of the sender, in its order, these are the payloads that were
    split. -/
theorem Honest.chunks_of_pending (hw : w.Honest E) {p : PendingMessage} {s : Sent ι}
    (hp : p ∈ pendingOf app chat (w.answer E up)) (hs : s ∈ w.sent)
    (hid : p.id = s.messageId.val)
    (hservers : (app.resolveServers chat.serverIds).map E.backend =
      s.outgoing.servers.map E.backend)
    (hdistinct : (s.outgoing.servers.map E.backend).Nodup) :
    p.chunks = s.outgoing.payloads := by
  have hat := hw.chunks_at hp hs hid hdistinct
  rw [hservers, s.map_payloadAt hdistinct] at hat
  exact List.map_injective_iff.mpr (Option.some_injective _) hat

end Payloads

/-! ## Listings -/

/-- The timestamp under which a backend lists a message of the chat. -/
def stamp (cfg : ChatConfig B) (w : World B ι) (m : Uuid) (b : B) : Option Int :=
  ((w.stores b).rows.find? fun r =>
    r.chatId = cStr (toWire cfg.chatId) ∧ r.messageId = cStr (toWire m.val)).map
      Fragment.timestamp

theorem stamp_eq_some (hw : w.Honest E) (ha : w.Agreed E cfg) {m : Uuid} {b : B} {t : Int} :
    w.stamp cfg m b = some t ↔ ∃ r ∈ (w.stores b).rows, r.chatId = cStr (toWire cfg.chatId) ∧
      r.messageId = cStr (toWire m.val) ∧ r.timestamp = t := by
  simp only [stamp, Option.map_eq_some_iff]
  constructor
  · rintro ⟨r, hr, rfl⟩
    have hp := List.find?_some hr
    simp only [decide_eq_true_eq] at hp
    exact ⟨r, List.mem_of_find?_eq_some hr, hp.1, hp.2, rfl⟩
  · rintro ⟨r, hr, hchat, hm, rfl⟩
    have hsome : ((w.stores b).rows.find? fun r => r.chatId = cStr (toWire cfg.chatId) ∧
        r.messageId = cStr (toWire m.val)).isSome :=
      List.find?_isSome.mpr ⟨r, hr, by simp [hchat, hm]⟩
    -- A backend has one row of the message.
    obtain ⟨r', hr'⟩ := Option.isSome_iff_exists.mp hsome
    have hp := List.find?_some hr'
    simp only [decide_eq_true_eq] at hp
    obtain rfl := row_unique hw ha hr (List.mem_of_find?_eq_some hr') hchat hm hp.2
    exact ⟨r, hr', rfl⟩

/-- All fragments of the message are stored at the backends they were posted to. -/
def Stored (E : Env B) (w : World B ι) (s : Sent ι) : Prop :=
  ∀ p ∈ s.posts, cStr (toWire p.2.id) ∈ (w.stores (E.backend p.1)).rows.map Fragment.id

instance [DecidableEq B] (s : Sent ι) : Decidable (w.Stored E s) :=
  inferInstanceAs (Decidable (∀ p ∈ s.posts, _ ∈ List.map Fragment.id _))

/-- The row of a fragment id belongs to the message of that id. -/
theorem Origin.sent_eq (hw : w.Honest E) {b : B} {r : Fragment CString} {s s' : Sent ι}
    {j j' : Nat} {p p' : Server × FragmentPost JsString} (h : w.Origin E b r s' j' p')
    (hs : s ∈ w.sent) (hp : s.posts[j]? = some p) (hid : r.id = cStr (toWire p.2.id)) :
    s' = s := by
  refine hw.eq_of_messageId h.sent hs (eq_of_fragmentId_eq (i := j') (j := j) ?_)
  rw [← ((hw.genuine s hs).post j p hp).1, ← ((hw.genuine s' h.sent).post j' p' h.post).1]
  have hsafe : ∀ {s : Sent ι} {j : Nat} {p : Server × FragmentPost JsString}, s ∈ w.sent →
      s.posts[j]? = some p → WireSafe p.2.id := by
    intro s j p hs hp
    rw [((hw.genuine s hs).post j p hp).1]
    exact s.messageId.wireSafe_fragmentId j
  refine cStr_toWire_inj (hsafe h.sent h.post) (hsafe hs hp) (Eq.trans ?_ hid)
  rw [h.row]
  rfl

/-- What a backend lists of a message is the fragment posted to it. -/
theorem exists_row_of_stamp (hw : w.Honest E) (ha : w.Agreed E cfg) {s : Sent ι}
    (hs : s ∈ w.sent) (hin : s.InChat cfg) {p : Server × FragmentPost JsString} (hp : p ∈ s.posts)
    {t : Int} (ht : w.stamp cfg s.messageId (E.backend p.1) = some t) :
    ∃ r ∈ (w.stores (E.backend p.1)).rows, r.id = cStr (toWire p.2.id) ∧ r.timestamp = t := by
  obtain ⟨j, hj⟩ := List.getElem?_of_mem hp
  obtain ⟨r, hr, -, hm, rfl⟩ := (stamp_eq_some hw ha).mp ht
  obtain ⟨s', j', p', h⟩ := hw.rows _ r hr
  obtain rfl : s' = s := hw.eq_of_messageId h.sent hs (h.messageId_eq hw hm)
  obtain ⟨-, rfl⟩ := position_unique ha hs hin hj h.post h.backend.symm
  exact ⟨r, hr, by rw [h.row]; rfl, rfl⟩

/-- **A message of the chat is stored iff every backend lists it.** -/
theorem stored_iff_complete (hw : w.Honest E) (ha : w.Agreed E cfg) {s : Sent ι}
    (hs : s ∈ w.sent) (hin : s.InChat cfg) :
    w.Stored E s ↔ ∀ b ∈ cfg.backends, ∃ t, w.stamp cfg s.messageId b = some t := by
  constructor
  · intro hstored b hb
    obtain ⟨j, p, hp, rfl⟩ := exists_post ha hs hin hb
    obtain ⟨r, hr, hid⟩ := List.mem_map.mp (hstored p (List.mem_of_getElem? hp))
    obtain ⟨s', j', p', h⟩ := hw.rows _ r hr
    obtain rfl := h.sent_eq hw hs hp hid
    obtain ⟨hm, hchat⟩ := h.ids hw
    exact ⟨r.timestamp, (stamp_eq_some hw ha).mpr ⟨r, hr, hin ▸ hchat, hm, rfl⟩⟩
  · intro hall p hp
    obtain ⟨j, hj⟩ := List.getElem?_of_mem hp
    obtain ⟨t, ht⟩ := hall _ (List.mem_of_getElem? (getElem?_backends ha hs hin hj))
    obtain ⟨r, hr, hid, -⟩ := exists_row_of_stamp hw ha hs hin hp ht
    exact List.mem_map.mpr ⟨r, hr, hid⟩

/-! ## The board -/

/-- The abstract view of a chat for a client that knows it under an internal id. -/
def board (cfg : ChatConfig B) (w : World B ι) (app : App) (id : JsString) :
    HighWater.Board Uuid B Int where
  stamp := w.stamp cfg
  cursor := app.lastSince id
  shown := {m | m.val ∈ (app.messagesOf id).map Message.id}

section Board

variable (hw : w.Honest E) (ha : w.Agreed E cfg) (hc : Holds E cfg app chat)

include hw ha hc

/-- The key of the chat is valid once a message was sent in it. -/
theorem exists_key {m : Uuid} (hm : HighWater.Fetchable cfg.sources (w.board cfg app chat.id) m) :
    ∃ key, importKey chat.keyB64 = some key := by
  obtain ⟨b, hb⟩ := List.exists_mem_of_ne_nil _ cfg.backends_ne
  obtain ⟨t, ht, -⟩ := hm b hb
  obtain ⟨r, hr, hchat, -, -⟩ := (stamp_eq_some hw ha).mp ht
  obtain ⟨s, j, p, h⟩ := hw.rows b r hr
  obtain ⟨key, iv, hkey, -⟩ := (hw.genuine s h.sent).encrypted
  rw [(ha s h.sent (h.inChat hw hchat)).1, ← hc.keyB64] at hkey
  exact ⟨key, hkey⟩

/-- **What a poll appends**, with all servers answering: the messages that every
    backend lists above the cursor and that are not shown. -/
theorem mem_ids_pendingOf (hup : ∀ server ∈ app.resolveServers chat.serverIds, up server = true)
    {id : JsString} :
    id ∈ (pendingOf app chat (w.answer E up)).map PendingMessage.id ↔
      ∃ m : Uuid, id = m.val ∧ m ∉ (w.board cfg app chat.id).shown ∧
        HighWater.Fetchable cfg.sources (w.board cfg app chat.id) m := by
  have hres : pollResults app chat (w.answer E up) =
      cfg.backends.map fun b => w.fetch b cfg.chatId (app.lastSince chat.id) := by
    rw [pollResults_answer (hc.chatId ▸ cfg.transparent.1) (hc.chatId ▸ cfg.chatId_ne) hup,
      hc.backends, hc.chatId]
  constructor
  · intro h
    obtain ⟨p, hp, -⟩ := List.mem_map.mp h
    obtain ⟨key, hkey⟩ := exists_key_of_mem_pendingOf hp
    obtain ⟨hnew, -, hall⟩ := (Frag.mem_ids_pendingOf hw.names hkey).mp h
    rw [hres] at hall
    -- Every backend has a row of the message, so the id is that of a sent message.
    have hrow : ∀ b ∈ cfg.backends, ∃ m : Uuid, m.val = id ∧
        ∃ t, w.stamp cfg m b = some t ∧ app.lastSince chat.id < t := by
      intro b hb
      obtain ⟨f, hf, hid⟩ := hall _ (List.mem_map_of_mem hb)
      obtain ⟨r, hr, hchat, hlt, rfl⟩ := mem_fetch.mp hf
      obtain ⟨s, j, q, horigin⟩ := hw.rows b r hr
      refine ⟨s.messageId, (horigin.readBack hw).1.symm.trans hid, r.timestamp, ?_, hlt⟩
      exact (stamp_eq_some hw ha).mpr ⟨r, hr, hchat, (horigin.ids hw).1, rfl⟩
    obtain ⟨b, hb⟩ := List.exists_mem_of_ne_nil _ cfg.backends_ne
    obtain ⟨m, rfl, -⟩ := hrow b hb
    refine ⟨m, rfl, hnew, fun b hb => ?_⟩
    obtain ⟨m', hm', ht⟩ := hrow b hb
    exact Uuid.ext hm' ▸ ht
  · -- The key can be imported, since the sender has encrypted with it.
    rintro ⟨m, rfl, hnew, hfetch⟩
    obtain ⟨key, hkey⟩ := exists_key hw ha hc hfetch
    refine (Frag.mem_ids_pendingOf hw.names hkey).mpr ⟨hnew, ?_, ?_⟩
    · rw [hres]
      simpa using cfg.backends_ne
    · intro frags hfrags
      rw [hres] at hfrags
      obtain ⟨b, hb, rfl⟩ := List.mem_map.mp hfrags
      obtain ⟨t, ht, hlt⟩ := hfetch b hb
      obtain ⟨r, hr, hchat, hm, rfl⟩ := (stamp_eq_some hw ha).mp ht
      refine ⟨_, mem_fetch.mpr ⟨r, hr, hchat, hlt, rfl⟩, ?_⟩
      simp only [World.readBack, Fragment.messageId_map, hm, fromWire_cStr_toWire m.wireSafe]

/-- The timestamp of an appended message is a stamp of it at a backend of the chat. -/
theorem timestamp_of_mem_pendingOf {p : PendingMessage}
    (hp : p ∈ pendingOf app chat (w.answer E up)) :
    ∃ m : Uuid, m.val = p.id ∧ ∃ b ∈ cfg.backends, w.stamp cfg m b = some p.timestamp := by
  obtain ⟨frags, f, hhead, hf, hid, -, hstamp⟩ := head_of_mem_pendingOf hw.names hp
  obtain ⟨server, hserver, rfl⟩ := List.mem_map.mp (List.mem_of_mem_head? hhead)
  obtain ⟨r, hr, hchat, -, rfl⟩ := exists_row_of_mem_answer hf
  obtain ⟨s, j, q, horigin⟩ := hw.rows _ r hr
  refine ⟨s.messageId, (horigin.readBack hw).1.symm.trans hid, E.backend server, ?_, ?_⟩
  · rw [← hc.backends]
    exact List.mem_map_of_mem hserver
  · rw [hc.chatId] at hchat
    exact (stamp_eq_some hw ha).mpr ⟨r, hr, hchat, (horigin.ids hw).1, hstamp.symm⟩

/-- **A poll that all servers answer is a fetch of the board.** -/
theorem board_poll (hup : ∀ server ∈ app.resolveServers chat.serverIds, up server = true)
    (hchat : (app.chat? chat.id).isSome) :
    HighWater.Fetch cfg.sources (w.board cfg app chat.id)
      (w.board cfg (pollChat E.crypto app chat (w.answer E up)) chat.id) := by
  refine ⟨rfl, fun m => ?_, ?_, ?_⟩
  · show m.val ∈ ((pollChat E.crypto app chat (w.answer E up)).messagesOf chat.id).map Message.id ↔
      m.val ∈ (app.messagesOf chat.id).map Message.id ∨ _
    rw [ids_pollChat, List.mem_append, mem_ids_pendingOf hw ha hc hup]
    constructor
    · rintro (hold | ⟨m', hm', -, hfetch⟩)
      · exact .inl hold
      · exact .inr (Uuid.ext hm' ▸ hfetch)
    · rintro (hold | hfetch)
      · exact .inl hold
      · by_cases hshown : m ∈ (w.board cfg app chat.id).shown
        · exact .inl hshown
        · exact .inr ⟨m, rfl, hshown, hfetch⟩
  · show app.lastSince chat.id ≤ (pollChat E.crypto app chat (w.answer E up)).lastSince chat.id
    rw [lastSince_pollChat hchat]
    exact le_newest _ _
  · show (pollChat E.crypto app chat (w.answer E up)).lastSince chat.id = app.lastSince chat.id ∨
      ∃ m, ∃ b ∈ cfg.sources, w.stamp cfg m b =
        some ((pollChat E.crypto app chat (w.answer E up)).lastSince chat.id)
    -- The cursor stays, or it is the timestamp of a message that is appended.
    rw [lastSince_pollChat hchat]
    rcases newest_cases (app.lastSince chat.id) (pendingOf app chat (w.answer E up)) with
      heq | ⟨p, hp, heq⟩
    · exact .inl heq
    · obtain ⟨m, -, b, hb, ht⟩ := timestamp_of_mem_pendingOf hw ha hc hp
      exact .inr ⟨m, b, hb, heq ▸ ht⟩

end Board

end World

end Frag
