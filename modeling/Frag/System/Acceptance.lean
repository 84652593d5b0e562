import Frag.System.Reader

/-!
# Accepted POSTs

A POST answered with 2xx has its fragment stored, and it stays stored when the message
does not expire. For a chat at distinct backends the converse holds as well, so that
"all POSTs were accepted" and "all fragments are stored" are the same.

## Main results

- `Kept.step`: the fragments of accepted POSTs without expiry stay;
- `accepted_iff_stored`: a message without expiry is accepted iff it is stored.
-/

namespace Frag

variable {B ι : Type} [DecidableEq B] [DecidableEq ι]

/-- Every POST of the message was answered with 2xx. -/
def Sent.Accepted (w : World B ι) (s : Sent ι) : Prop :=
  ∀ j < s.posts.length, (s.messageId, j) ∈ w.accepted

instance (w : World B ι) (s : Sent ι) : Decidable (s.Accepted w) :=
  inferInstanceAs (Decidable (∀ j < s.posts.length, (s.messageId, j) ∈ w.accepted))

/-- The fragments of the message do not expire. -/
def Sent.Permanent (s : Sent ι) : Prop := ∀ p ∈ s.posts, p.2.ttl = 0

omit [DecidableEq ι] in
/-- A message that is sent without a ttl does not expire. -/
theorem Sent.permanent_of_sendMessage {W : WebCrypto} {app : App} {text : JsString}
    {ttl : Option Rat} {rand : SendRandom} {o : Outgoing}
    (h : sendMessage W app text ttl rand = .ok o) (httl : resolveTtl ttl = 0) (i : ι)
    (senderHash : JsString) : Sent.Permanent { client := i, senderHash, outgoing := o } := by
  intro p hp
  obtain ⟨j, hj⟩ := List.getElem?_of_mem hp
  exact (congrArg FragmentPost.ttl (post_of_sendMessage h hj).2.2.2).trans httl

instance (s : Sent ι) : Decidable s.Permanent :=
  inferInstanceAs (Decidable (∀ p ∈ s.posts, _ = _))

namespace World

variable {E : Env B} {cfg : ChatConfig B} {w : World B ι} {e : Event B ι}

/-- The timestamps of all rows are positive, as they are when the clocks are. -/
def Positive (w : World B ι) : Prop := ∀ b, ∀ r ∈ (w.stores b).rows, 0 < r.timestamp

theorem Positive.step (h : w.Positive) (hpost : w.OnPost (fun _ _ now => 0 < now) e) :
    (w.step E e).Positive := by
  intro b r hr
  rcases mem_rows_step hr with hold | ⟨s, j, p, now, hhandles, -, -, rfl, -⟩
  · exact h b r hold
  · obtain ⟨⟨k, rfl, hreq⟩, -⟩ := hhandles
    exact hpost _ hreq

/-- The fragments of accepted POSTs are stored, unless they may expire. -/
def Kept (E : Env B) (w : World B ι) : Prop :=
  ∀ s ∈ w.sent, s.Permanent → ∀ (j : Nat) (p : Server × FragmentPost JsString),
    s.posts[j]? = some p → (s.messageId, j) ∈ w.accepted →
    cStr (toWire p.2.id) ∈ (w.stores (E.backend p.1)).rows.map Fragment.id

/-- A fragment that does not expire stays stored. -/
theorem stored_step (hw : w.Honest E) {s : Sent ι} (hs : s ∈ w.sent) (hperm : s.Permanent)
    {j : Nat} {p : Server × FragmentPost JsString} (hp : s.posts[j]? = some p)
    (h : cStr (toWire p.2.id) ∈ (w.stores (E.backend p.1)).rows.map Fragment.id) :
    cStr (toWire p.2.id) ∈ ((w.step E e).stores (E.backend p.1)).rows.map Fragment.id := by
  obtain ⟨r, hr, hid⟩ := List.mem_map.mp h
  rcases mem_rows_step_of_mem (E := E) (e := e) hr with hnew | ⟨now, -, hpos, -⟩
  · exact List.mem_map.mpr ⟨r, hnew, hid⟩
  · obtain ⟨s', j', p', horigin⟩ := hw.rows _ r hr
    obtain rfl := horigin.sent_eq hw hs hp hid
    have hzero : r.ttl = 0 := by
      rw [horigin.row]
      exact hperm p' (List.mem_of_getElem? horigin.post)
    omega

/-- A row of a message that does not expire stays. -/
theorem mem_rows_step_of_permanent (hw : w.Honest E)
    (hperm : ∀ s ∈ w.sent, s.InChat cfg → s.Permanent) {b : B} {r : Fragment CString}
    (hr : r ∈ (w.stores b).rows)
    (hchat : r.chatId = cStr (toWire cfg.chatId)) : r ∈ ((w.step E e).stores b).rows := by
  rcases mem_rows_step_of_mem (E := E) (e := e) hr with hkeep | ⟨now, -, hpos, -⟩
  · exact hkeep
  · obtain ⟨s, j, p, horigin⟩ := hw.rows b r hr
    have hzero : r.ttl = 0 := by
      rw [horigin.row]
      exact hperm s horigin.sent (horigin.inChat hw hchat) p (List.mem_of_getElem? horigin.post)
    omega

/-- **Accepted fragments without expiry stay stored.** -/
theorem Kept.step (h : w.Kept E) (hw : w.Honest E) (hclean : w.CleanSend e) :
    (w.step E e).Kept E := by
  have hw' := hw.step hclean
  intro s hs hperm j p hp hacc
  rcases accepted_step hacc with hold | ⟨s', j', p', now, hhandles, heq, hstored⟩
  · -- A message accepted before was sent before: ids are fresh.
    rcases sent_step E w e with hsent | ⟨i, text, ttl, rand, o, rfl, ho, hsent⟩
    · rw [hsent] at hs
      exact stored_step hw hs hperm hp (h s hs hperm j p hp hold)
    · rw [hsent, List.mem_append, List.mem_singleton] at hs
      rcases hs with hs | rfl
      · exact stored_step hw hs hperm hp (h s hs hperm j p hp hold)
      · obtain ⟨s', hs', hid⟩ := hw.accepted _ hold
        exact absurd (hid.trans (fields_of_sendMessage ho).2.2) (hclean.1 s' hs')
  · obtain ⟨⟨k, -, hreq⟩, -⟩ := hhandles
    obtain ⟨hs', hp'⟩ := request_eq_some.mp hreq
    obtain rfl : s = s' := hw'.eq_of_messageId hs (mem_sent_step (List.mem_of_getElem? hs'))
      (congrArg Prod.fst heq)
    obtain rfl : j = j' := congrArg Prod.snd heq
    obtain rfl := Option.some.inj (hp.symm.trans hp')
    exact hstored

omit [DecidableEq B] [DecidableEq ι] in
theorem Kept.stored (h : w.Kept E) {s : Sent ι} (hs : s ∈ w.sent) (hperm : s.Permanent)
    (hacc : s.Accepted w) : w.Stored E s := by
  intro p hp
  obtain ⟨j, hj⟩ := List.getElem?_of_mem hp
  exact h s hs hperm j p hj (hacc j (List.getElem?_eq_some_iff.mp hj).1)

omit [DecidableEq B] [DecidableEq ι] in
/-- **Accepted is stored**, for a message of the chat that does not expire. -/
theorem accepted_iff_stored (hw : w.Honest E) (hk : w.Kept E) (ha : w.Agreed E cfg) {s : Sent ι}
    (hs : s ∈ w.sent) (hin : s.InChat cfg) (hperm : s.Permanent) :
    s.Accepted w ↔ w.Stored E s := by
  constructor
  · exact hk.stored hs hperm
  · intro hstored j hj
    have hp := List.getElem?_eq_getElem hj
    obtain ⟨r, hr, hid⟩ := List.mem_map.mp (hstored _ (List.getElem_mem hj))
    obtain ⟨s', j', p', horigin⟩ := hw.rows _ r hr
    obtain rfl := horigin.sent_eq hw hs hp hid
    obtain ⟨rfl, -⟩ := position_unique ha hs hin hp horigin.post horigin.backend.symm
    exact horigin.accepted

end World

end Frag
