import Frag.Guarantees.Scanning
import Frag.Library.Simulation
import Frag.System.Acceptance

/-!
# Scanned Bodies

`World.step` hands the members of a POST to the handler as they were written. What the handler
finds in the body can be something else, depending on the chat id and the sender hash. In
`World.scannedStep` it stores what it finds. The ids of messages and of fragments are found in
every body, so that a row still leads back to the POST it was made of.

## Main results

- `Honest.run_scannedStep`: in an honest world nothing else is found, and the runs are the same;
- `Traced.step`: the rows of every run, whatever the chats are called.
-/

namespace Frag

variable {B ι : Type} [DecidableEq B] [DecidableEq ι]

namespace World

/-- A backend handles a POST with what it finds in the body. -/
def scanPost (E : Env B) (w : World B ι) (s : Sent ι) (j : Nat) (p : Server × FragmentPost JsString)
    (now : Int) : World B ι :=
  let b := E.backend p.1
  let (response, db) := makePostFragmentHandler (w.stores b) (readFragment (requestBody p.2)) now
  { w with
    stores := Function.update w.stores b db
    accepted := if response.ok then w.accepted ++ [(s.messageId, j)] else w.accepted }

/-- One event, with POSTs that are scanned. -/
def scannedStep (E : Env B) (w : World B ι) (e : Event B ι) : World B ι :=
  match e with
  | .post k j now =>
    match w.request k j with
    | none => w
    | some (s, p) => w.scanPost E s j p now
  | e => w.step E e

/-- `generateId()` does not repeat a message id. -/
def FreshSend (w : World B ι) : Event B ι → Prop
  | .send _ _ _ rand => ∀ s ∈ w.sent, s.messageId ≠ rand.messageId
  | _ => True

instance (w : World B ι) : ∀ e : Event B ι, Decidable (w.FreshSend e)
  | .send _ _ _ rand => inferInstanceAs (Decidable (∀ s ∈ w.sent, s.messageId ≠ rand.messageId))
  | .act _ _ | .share _ _ | .post _ _ _ | .settle _ _ | .poll _ _ _ | .purge _ _ => .isTrue trivial

variable {E : Env B} {w : World B ι} {e : Event B ι}

/-! ## What an event can do -/

omit [DecidableEq ι] in
@[simp] theorem stores_scanPost (E : Env B) (w : World B ι) (s : Sent ι) (j : Nat)
    (p : Server × FragmentPost JsString) (now : Int) : (w.scanPost E s j p now).stores =
      Function.update w.stores (E.backend p.1) (makePostFragmentHandler (w.stores (E.backend p.1))
        (readFragment (requestBody p.2)) now).2 := rfl

omit [DecidableEq ι] in
@[simp] theorem accepted_scanPost (E : Env B) (w : World B ι) (s : Sent ι) (j : Nat)
    (p : Server × FragmentPost JsString) (now : Int) : (w.scanPost E s j p now).accepted =
      if (makePostFragmentHandler (w.stores (E.backend p.1)) (readFragment (requestBody p.2)) now).1.ok
        then w.accepted ++ [(s.messageId, j)] else w.accepted := rfl

omit [DecidableEq ι] in
@[simp] theorem sent_scanPost (E : Env B) (w : World B ι) (s : Sent ι) (j : Nat)
    (p : Server × FragmentPost JsString) (now : Int) : (w.scanPost E s j p now).sent = w.sent := rfl

/-- **Only POSTs are scanned**: another event is that of the world, and a POST is lost or handled. -/
theorem scannedStep_cases (E : Env B) (w : World B ι) (e : Event B ι) :
    ((∀ k j now, e ≠ .post k j now) ∧ w.scannedStep E e = w.step E e) ∨
      w.scannedStep E e = w ∨
      ∃ s j p now, w.Handles E e (E.backend p.1) s j p now ∧
        w.scannedStep E e = w.scanPost E s j p now := by
  cases e with
  | post k j now =>
    right
    simp only [scannedStep]
    split
    · exact .inl rfl
    · rename_i s p hreq
      exact .inr ⟨s, j, p, now, ⟨⟨k, rfl, hreq⟩, rfl⟩, rfl⟩
  | act i a => exact .inl ⟨by intros; nofun, rfl⟩
  | share i id => exact .inl ⟨by intros; nofun, rfl⟩
  | send i text ttl rand => exact .inl ⟨by intros; nofun, rfl⟩
  | settle k accepted => exact .inl ⟨by intros; nofun, rfl⟩
  | poll i id up => exact .inl ⟨by intros; nofun, rfl⟩
  | purge b now => exact .inl ⟨by intros; nofun, rfl⟩

theorem sent_scannedStep (E : Env B) (w : World B ι) (e : Event B ι) :
    (w.scannedStep E e).sent = w.sent ∨ ∃ i text ttl rand o, e = .send i text ttl rand ∧
      sendMessage E.crypto (w.apps i) text ttl rand = .ok o ∧
      (w.scannedStep E e).sent = w.sent ++
        [{ client := i, senderHash := (w.apps i).state.identity.getD [], outgoing := o }] := by
  rcases scannedStep_cases E w e with ⟨-, heq⟩ | heq | ⟨s, j, p, now, -, heq⟩
  · rw [heq]
    exact sent_step E w e
  · rw [heq]
    exact .inl rfl
  · rw [heq, sent_scanPost]
    exact .inl rfl

theorem mem_sent_scannedStep {s : Sent ι} (h : s ∈ w.sent) : s ∈ (w.scannedStep E e).sent := by
  rcases sent_scannedStep E w e with heq | ⟨_, _, _, _, _, -, -, heq⟩
  · rwa [heq]
  · rw [heq]
    exact List.mem_append_left _ h

/-- Only a POST adds a row, and the row is what is found in its body. -/
theorem mem_rows_scannedStep {b : B} {r : Fragment CString}
    (h : r ∈ ((w.scannedStep E e).stores b).rows) :
    r ∈ (w.stores b).rows ∨ ∃ s j p now, w.Handles E e b s j p now ∧
      missingMember (readFragment (requestBody p.2)) = none ∧
      r = ((readFragment (requestBody p.2)).stamped now).map cStr := by
  rcases scannedStep_cases E w e with ⟨hpost, heq⟩ | heq | ⟨s, j, p, now, hhandles, heq⟩
  · rw [heq] at h
    rcases mem_rows_step h with hold | ⟨_, j, _, now, ⟨⟨k, he, -⟩, -⟩, -⟩
    · exact .inl hold
    · exact absurd he (hpost k j now)
  · rw [heq] at h
    exact .inl h
  · rw [heq, stores_scanPost] at h
    -- Only the table of the addressed backend is written.
    by_cases hb : b = E.backend p.1
    · subst hb
      rw [Function.update_self] at h
      rcases mem_rows_makePostFragmentHandler.mp h with hold | ⟨hnone, -, hrow⟩
      · exact .inl hold
      · exact .inr ⟨s, j, p, now, hhandles, hnone, hrow⟩
    · rw [Function.update_of_ne hb] at h
      exact .inl h

theorem mem_rows_scannedStep_of_mem {b : B} {r : Fragment CString} (h : r ∈ (w.stores b).rows) :
    r ∈ ((w.scannedStep E e).stores b).rows ∨
      ∃ now, e = .purge b now ∧ 0 < r.ttl ∧ r.timestamp + r.ttl ≤ now := by
  rcases scannedStep_cases E w e with ⟨-, heq⟩ | heq | ⟨s, j, p, now, -, heq⟩
  · rw [heq]
    exact mem_rows_step_of_mem h
  · rw [heq]
    exact .inl h
  · left
    rw [heq, stores_scanPost]
    by_cases hb : b = E.backend p.1
    · subst hb
      rw [Function.update_self]
      exact mem_rows_makePostFragmentHandler.mpr (.inl h)
    · rwa [Function.update_of_ne hb]

/-- A newly accepted POST was handled, and a row with the id in its body is stored. -/
theorem accepted_scannedStep {a : Uuid × Nat} (h : a ∈ (w.scannedStep E e).accepted) :
    a ∈ w.accepted ∨ ∃ s j p now, w.Handles E e (E.backend p.1) s j p now ∧ a = (s.messageId, j) ∧
      cStr (readFragment (requestBody p.2)).id ∈
        ((w.scannedStep E e).stores (E.backend p.1)).rows.map Fragment.id := by
  rcases scannedStep_cases E w e with ⟨hpost, heq⟩ | heq | ⟨s, j, p, now, hhandles, heq⟩
  · rw [heq] at h
    rcases accepted_step h with hold | ⟨_, j, _, now, ⟨⟨k, he, -⟩, -⟩, -⟩
    · exact .inl hold
    · exact absurd he (hpost k j now)
  · rw [heq] at h
    exact .inl h
  · rw [heq, accepted_scanPost] at h
    rw [heq, stores_scanPost]
    split at h
    · rename_i hok
      rcases List.mem_append.mp h with hold | hnew
      · exact .inl hold
      · -- Created or a duplicate: there is a row with the id.
        obtain ⟨r, hr, hid⟩ := exists_row_of_ok hok
        refine .inr ⟨s, j, p, now, hhandles, List.mem_singleton.mp hnew, ?_⟩
        rw [Function.update_self]
        exact List.mem_map.mpr ⟨r, hr, hid⟩
    · exact .inl h

/-- **In an honest world the scanner finds what was written.** -/
theorem Honest.scannedStep_eq (hw : w.Honest E)
    (httl : w.OnPost (fun _ p _ => 0 ≤ p.2.ttl ∧ p.2.ttl ≤ 9007199254740991) e) :
    w.scannedStep E e = w.step E e := by
  cases e with
  | post k j now =>
    cases hreq : w.request k j with
    | none => simp only [scannedStep, World.step, hreq]
    | some sp =>
      obtain ⟨s, p⟩ := sp
      obtain ⟨hs, hp⟩ := request_eq_some.mp hreq
      have hread : readFragment (requestBody p.2) = p.2.map toWire :=
        hw.readFragment_post (List.mem_of_getElem? hs) (List.mem_of_getElem? hp) (httl _ hreq)
      simp only [scannedStep, World.step, hreq, scanPost, hread]
  | act i a => rfl
  | share i id => rfl
  | send i text ttl rand => rfl
  | settle k accepted => rfl
  | poll i id up => rfl
  | purge b now => rfl

/-- The runs that are clean are those of the world. -/
theorem Honest.run_scannedStep (hw : w.Honest E) {es : List (Event B ι)}
    (hes : Runs.Along (World.step E) (fun w e => w.CleanSend e ∧
      w.OnPost (fun _ p _ => 0 ≤ p.2.ttl ∧ p.2.ttl ≤ 9007199254740991) e) w es) :
    Runs.run (scannedStep E) w es = Runs.run (World.step E) w es := by
  apply hes.run_eq (fun w => w.Honest E) hw
  · rintro w e ⟨hclean, -⟩ h
    exact h.step hclean
  · rintro w e ⟨-, httl⟩ h
    exact h.scannedStep_eq httl

end World

/-! ## Where rows come from -/

/-- A text as it is stored and served again. -/
def storedText (s : JsString) : JsString := fromWire (cStr (scanned s)).bytes

theorem storedText_of_wireSafe {s : JsString} (h : WireSafe s) : storedText s = s := by
  rw [storedText, scanned_of_wireSafe h, fromWire_cStr_toWire h]

/-- The chunk that is served for a position. After a chat id that ends in the name `payload` it
    is the sender hash. -/
def Sent.servedChunk (s : Sent ι) (p : Server × FragmentPost JsString) : JsString :=
  if QuotedSuffix (js "payload") s.outgoing.chat.chatId then storedText s.senderHash else p.2.payload

section Genuine

variable {W : WebCrypto} {s : Sent ι} {j : Nat} {p : Server × FragmentPost JsString}

omit [DecidableEq ι] in
/-- **What is found of a message** in the body of a POST. -/
theorem Sent.Genuine.readFragment (h : s.Genuine W) (hp : s.posts[j]? = some p) :
    (readFragment (requestBody p.2)).id = toWire p.2.id ∧
      (readFragment (requestBody p.2)).messageId = toWire s.messageId.val ∧
      (readFragment (requestBody p.2)).chatId = scanned s.outgoing.chat.chatId ∧
      fromWire (cStr (readFragment (requestBody p.2)).payload).bytes = s.servedChunk p := by
  obtain ⟨hid, hmessageId, hchat, hsender⟩ := h.post j p hp
  have hidText : IdText p.2.id := by
    rw [hid]
    exact fun u hu => isIdUnit_of_mem_fragmentId hu
  have hmessageIdText : IdText p.2.messageId := by
    rw [hmessageId]
    exact fun u hu => isIdUnit_of_mem_uuid hu
  rw [readFragment_texts hidText hmessageIdText]
  -- Ids and chat id are found as written; the payload may be the sender hash.
  refine ⟨rfl, by rw [hmessageId], by rw [hchat], ?_⟩
  rw [Sent.servedChunk, hchat, hsender]
  split
  · rfl
  · exact storedText_of_wireSafe (h.wireSafe_payload hp)

omit [DecidableEq ι] in
/-- A fragment that does not expire is not given a ttl. -/
theorem Sent.Genuine.ttl_readFragment (h : s.Genuine W) (hp : s.posts[j]? = some p)
    (httl : p.2.ttl = 0) : (Frag.readFragment (requestBody p.2)).ttl = 0 := by
  obtain ⟨hid, hmessageId, -, -⟩ := h.post j p hp
  rw [Frag.ttl_readFragment (hid ▸ fun u hu => isIdUnit_of_mem_fragmentId hu)
    (hmessageId ▸ fun u hu => isIdUnit_of_mem_uuid hu) (by omega), httl, ite_self]

end Genuine

/-- The row `r` of backend `b` was made of what was found in the POST of position `j` of `s`. -/
structure World.ScanOrigin (E : Env B) (w : World B ι) (b : B) (r : Fragment CString) (s : Sent ι)
    (j : Nat) (p : Server × FragmentPost JsString) : Prop where
  sent : s ∈ w.sent
  post : s.posts[j]? = some p
  backend : E.backend p.1 = b
  members : missingMember (readFragment (requestBody p.2)) = none
  row : r = ((readFragment (requestBody p.2)).stamped r.timestamp).map cStr

/-- What holds of every world that clients and backends of this repository reach, with message
    ids that are not repeated and positive clocks. -/
structure World.Traced (E : Env B) (w : World B ι) : Prop where
  genuine : ∀ s ∈ w.sent, s.Genuine E.crypto
  ids : (w.sent.map Sent.messageId).Nodup
  rows : ∀ b, ∀ r ∈ (w.stores b).rows, ∃ s j p, w.ScanOrigin E b r s j p
  positive : w.Positive
  accepted : ∀ a ∈ w.accepted, ∃ s ∈ w.sent, s.messageId = a.1
  kept : w.Kept E

namespace World

variable {E : Env B} {w : World B ι} {e : Event B ι}

omit [DecidableEq B] [DecidableEq ι] in
theorem Blank.traced (h : w.Blank) : w.Traced E where
  genuine s hs := by rw [h.sent] at hs; cases hs
  ids := by rw [h.sent]; exact List.nodup_nil
  rows b r hr := by rw [h.stores b] at hr; cases hr
  positive b r hr := by rw [h.stores b] at hr; cases hr
  accepted a ha := by rw [h.accepted] at ha; cases ha
  kept s hs := by rw [h.sent] at hs; cases hs

omit [DecidableEq B] [DecidableEq ι] in
theorem Traced.eq_of_messageId (h : w.Traced E) {s s' : Sent ι} (hs : s ∈ w.sent)
    (hs' : s' ∈ w.sent) (hid : s.messageId = s'.messageId) : s = s' :=
  List.inj_on_of_nodup_map h.ids hs hs' hid

omit [DecidableEq B] [DecidableEq ι] in
/-- What a poll finds in a row. -/
theorem ScanOrigin.readBack (hw : w.Traced E) {b : B} {r : Fragment CString} {s : Sent ι} {j : Nat}
    {p : Server × FragmentPost JsString} (h : w.ScanOrigin E b r s j p) :
    r.id = cStr (toWire p.2.id) ∧ r.chatId = cStr (scanned s.outgoing.chat.chatId) ∧
      (readBack r).messageId = s.messageId.val ∧ (readBack r).payload = s.servedChunk p := by
  obtain ⟨hid, hmessageId, hchat, hpayload⟩ := (hw.genuine s h.sent).readFragment h.post
  rw [h.row]
  refine ⟨congrArg cStr hid, congrArg cStr hchat, ?_, hpayload⟩
  exact (congrArg (fun t => fromWire (cStr t).bytes) hmessageId).trans
    (fromWire_cStr_toWire s.messageId.wireSafe)

omit [DecidableEq B] [DecidableEq ι] in
/-- The row of a fragment id belongs to the POST of that id. -/
theorem ScanOrigin.post_eq (hw : w.Traced E) {b : B} {r : Fragment CString} {s s' : Sent ι}
    {j j' : Nat} {p p' : Server × FragmentPost JsString} (h : w.ScanOrigin E b r s' j' p')
    (hs : s ∈ w.sent) (hp : s.posts[j]? = some p) (hid : r.id = cStr (toWire p.2.id)) :
    s' = s ∧ p' = p := by
  have hsame : fragmentId s'.messageId.val j' = fragmentId s.messageId.val j := by
    refine cStr_toWire_inj (s'.messageId.wireSafe_fragmentId j') (s.messageId.wireSafe_fragmentId j) ?_
    rw [← ((hw.genuine s hs).post j p hp).1, ← ((hw.genuine s' h.sent).post j' p' h.post).1, ← hid,
      (h.readBack hw).1]
  obtain rfl := hw.eq_of_messageId h.sent hs (eq_of_fragmentId_eq hsame)
  obtain rfl := fragmentId_inj.mp hsame
  exact ⟨rfl, Option.some.inj (h.post.symm.trans hp)⟩

/-- A fragment that does not expire stays stored. -/
theorem Traced.stored_step (hw : w.Traced E) {s : Sent ι} (hs : s ∈ w.sent) (hperm : s.Permanent)
    {j : Nat} {p : Server × FragmentPost JsString} (hp : s.posts[j]? = some p)
    (h : cStr (toWire p.2.id) ∈ (w.stores (E.backend p.1)).rows.map Fragment.id) :
    cStr (toWire p.2.id) ∈ ((w.scannedStep E e).stores (E.backend p.1)).rows.map Fragment.id := by
  obtain ⟨r, hr, hid⟩ := List.mem_map.mp h
  rcases mem_rows_scannedStep_of_mem (E := E) (e := e) hr with hnew | ⟨now, -, hpos, -⟩
  · exact List.mem_map.mpr ⟨r, hnew, hid⟩
  · -- Only rows with a ttl are cleaned up.
    obtain ⟨s', j', p', horigin⟩ := hw.rows _ r hr
    obtain ⟨rfl, rfl⟩ := horigin.post_eq hw hs hp hid
    have hzero : r.ttl = 0 := by
      rw [horigin.row]
      exact (hw.genuine s' hs).ttl_readFragment hp (hperm _ (List.mem_of_getElem? hp))
    omega

/-- **Every row leads back to its POST**, in every run. -/
theorem Traced.step (h : w.Traced E) (hfresh : w.FreshSend e)
    (hpost : w.OnPost (fun _ _ now => 0 < now) e) : (w.scannedStep E e).Traced E := by
  have hgenuine : ∀ s ∈ (w.scannedStep E e).sent, s.Genuine E.crypto := by
    intro s hs
    rcases sent_scannedStep E w e with heq | ⟨i, text, ttl, rand, o, -, ho, heq⟩
    · exact h.genuine s (heq ▸ hs)
    · rw [heq, List.mem_append, List.mem_singleton] at hs
      rcases hs with hs | rfl
      · exact h.genuine s hs
      · exact Sent.genuine_of_sendMessage ho i
  have hids : ((w.scannedStep E e).sent.map Sent.messageId).Nodup := by
    rcases sent_scannedStep E w e with heq | ⟨i, text, ttl, rand, o, rfl, ho, heq⟩
    · rw [heq]
      exact h.ids
    · rw [heq, List.map_append, List.nodup_append]
      refine ⟨h.ids, by simp, ?_⟩
      -- The id is drawn, and no sent message has it.
      rintro m hm m' hm' rfl
      rw [List.map_singleton, List.mem_singleton] at hm'
      obtain ⟨s, hs, hsm⟩ := List.mem_map.mp hm
      exact hfresh s hs (hsm.trans (hm'.trans (fields_of_sendMessage ho).2.2))
  refine ⟨hgenuine, hids, ?_, ?_, ?_, ?_⟩
  · intro b r hr
    rcases mem_rows_scannedStep hr with hold | ⟨s, j, p, now, ⟨⟨k, -, hreq⟩, hb⟩, hnone, hrow⟩
    · obtain ⟨s, j, p, horigin⟩ := h.rows b r hold
      exact ⟨s, j, p, { horigin with sent := mem_sent_scannedStep horigin.sent }⟩
    · obtain ⟨hs, hp⟩ := request_eq_some.mp hreq
      refine ⟨s, j, p, mem_sent_scannedStep (List.mem_of_getElem? hs), hp, hb, hnone, ?_⟩
      rw [hrow]
      rfl
  · intro b r hr
    rcases mem_rows_scannedStep hr with hold | ⟨s, j, p, now, ⟨⟨k, rfl, hreq⟩, -⟩, -, rfl⟩
    · exact h.positive b r hold
    · exact hpost _ hreq
  · intro a ha
    rcases accepted_scannedStep ha with hold | ⟨s, j, p, now, ⟨⟨k, -, hreq⟩, -⟩, rfl, -⟩
    · obtain ⟨s, hs, hid⟩ := h.accepted a hold
      exact ⟨s, mem_sent_scannedStep hs, hid⟩
    · exact ⟨s, mem_sent_scannedStep (List.mem_of_getElem? (request_eq_some.mp hreq).1), rfl⟩
  · intro s hs hperm j p hp hacc
    rcases accepted_scannedStep hacc with hold | ⟨s', j', p', now, ⟨⟨k, -, hreq⟩, -⟩, heq, hstored⟩
    · -- A message accepted before was sent before: ids are fresh.
      obtain ⟨s', hs', hid⟩ := h.accepted _ hold
      obtain rfl : s' = s := List.inj_on_of_nodup_map hids (mem_sent_scannedStep hs') hs hid
      exact h.stored_step hs' hperm hp (h.kept s' hs' hperm j p hp hold)
    · obtain ⟨hs', hp'⟩ := request_eq_some.mp hreq
      have hmem := mem_sent_scannedStep (E := E) (e := e) (List.mem_of_getElem? hs')
      obtain rfl : s = s' := List.inj_on_of_nodup_map hids hs hmem (congrArg Prod.fst heq)
      obtain rfl : j = j' := congrArg Prod.snd heq
      obtain rfl := Option.some.inj (hp.symm.trans hp')
      rwa [((hgenuine s hs).readFragment hp).1] at hstored

end World

end Frag
