import Frag.Backend.Connection
import Frag.Backend.Text

/-!
# Outcomes of Concurrent Calls

`insert_fragment` and `delete_fragment` tell from the change counter of the connection
whether they changed a row, and the POST handler answers 201 or duplicate accordingly.
The counter is read in an API call of its own, so a statement of another thread may come
in between.

## Main results

- `calls_report_their_outcome`: without such a statement, or with one that agrees, every
  call reports its own outcome, and of the inserts of an id between two removals the first
  one alone reports that it added the row.
-/

namespace Frag

open Runs

/-! ## Inserts of one id -/

/-- The write inserts under the id. -/
def Write.Inserts (id : CString) : Write → Prop
  | .insertFragment f => cStr f.id = id
  | _ => False

instance (id : CString) : (w : Write) → Decidable (w.Inserts id)
  | .insertFragment f => inferInstanceAs (Decidable (cStr f.id = id))
  | .deleteFragment _ => .isFalse False.elim
  | .purgeExpired _ => .isFalse False.elim

/-- None of some writes removes the row of the id. -/
def NoRemoval (db : Database) (id : CString) : List Write → Prop :=
  Along Write.apply (fun db w => id ∈ db.rows.map Fragment.id →
    id ∈ (Write.apply db w).rows.map Fragment.id) db

instance (db : Database) (id : CString) (ws : List Write) : Decidable (NoRemoval db id ws) :=
  inferInstanceAs (Decidable (Along _ _ db ws))

/-- After its insert an id is taken. -/
theorem mem_ids_of_inserts {db : Database} {id : CString} {w : Write} (h : w.Inserts id) :
    id ∈ (Write.apply db w).rows.map Fragment.id := by
  cases w with
  | insertFragment f =>
    obtain rfl := h
    -- A row with the id was there, or the insert adds its own.
    by_cases htaken : cStr f.id ∈ db.rows.map Fragment.id
    · obtain ⟨r, hr, hid⟩ := List.mem_map.mp htaken
      exact List.mem_map.mpr ⟨r, Database.mem_rows_insertFragment.mpr (.inl hr), hid⟩
    · exact List.mem_map.mpr
        ⟨f.map cStr, Database.mem_rows_insertFragment.mpr (.inr ⟨htaken, rfl⟩), rfl⟩
  | deleteFragment id' => exact h.elim
  | purgeExpired now => exact h.elim

/-- Only an insert takes an id that is free. -/
theorem inserts_of_mem_ids {db : Database} {id : CString} {w : Write}
    (hfree : id ∉ db.rows.map Fragment.id)
    (h : id ∈ (Write.apply db w).rows.map Fragment.id) : w.Inserts id := by
  obtain ⟨r, hr, rfl⟩ := List.mem_map.mp h
  -- The row with the id is new, so the write has put it.
  rw [Write.apply, rows_exec, FirstWriter.mem_apply] at hr
  rcases hr with ⟨hold, -⟩ | ⟨hput, -⟩
  · exact absurd (List.mem_map_of_mem hold) hfree
  · cases w with
    | insertFragment f =>
      obtain rfl := FirstWriter.Op.put.inj hput
      rfl
    | deleteFragment id' => cases hput
    | purgeExpired now => cases hput

/-- Without a removal, an id that was free is taken as soon as it was inserted. -/
theorem mem_ids_afterWrites {db : Database} {id : CString} {ws : List Write}
    (hfree : id ∉ db.rows.map Fragment.id) (hkeep : NoRemoval db id ws) :
    id ∈ (afterWrites db ws).rows.map Fragment.id ↔ ∃ w ∈ ws, w.Inserts id := by
  induction ws using List.reverseRecOn with
  -- From the last write: it keeps the id, or is the insert that takes it.
  | nil => exact iff_of_false hfree (by simp)
  | append_singleton ws w ih =>
    obtain ⟨hkeep', hlast⟩ := along_concat.mp hkeep
    have hiff := ih hkeep'
    rw [afterWrites, run_concat, ← afterWrites]
    constructor
    · intro hmem
      by_cases hold : id ∈ (afterWrites db ws).rows.map Fragment.id
      · obtain ⟨v, hv, hins⟩ := hiff.mp hold
        exact ⟨v, List.mem_append_left _ hv, hins⟩
      · exact ⟨w, List.mem_append_right _ List.mem_cons_self, inserts_of_mem_ids hold hmem⟩
    · rintro ⟨v, hv, hins⟩
      rcases List.mem_append.mp hv with hv | hv
      · exact hlast (hiff.mpr ⟨v, hv, hins⟩)
      · exact mem_ids_of_inserts (List.mem_singleton.mp hv ▸ hins)

/-- An insert adds a row just in case it is the first one of its id since the id was free. -/
theorem rowsChanged_insert {db : Database} {ws : List Write} {before after : List Write}
    {f : Fragment Bytes} {vs : List Write}
    (hfree : cStr f.id ∉ (afterWrites db ws).rows.map Fragment.id)
    (hkeep : NoRemoval (afterWrites db ws) (cStr f.id) before) :
    0 < rowsChanged db (ws ++ (before ++ .insertFragment f :: after) ++ vs)
        (ws.length + before.length) ↔
      ∀ w ∈ before, ¬ w.Inserts (cStr f.id) := by
  -- The statement is executed on what `ws` and `before` leave, whatever comes after it.
  have hsplit : ws ++ (before ++ .insertFragment f :: after) ++ vs =
      (ws ++ before) ++ .insertFragment f :: (after ++ vs) := by simp
  have hrows : rowsChanged db (ws ++ (before ++ .insertFragment f :: after) ++ vs)
      (ws.length + before.length) =
        Write.rows (afterWrites (afterWrites db ws) before) (.insertFragment f) := by
    rw [hsplit, ← List.length_append, rowsChanged, List.getElem?_append_right (le_refl _),
      Nat.sub_self, List.take_left, afterWrites, run_append]
    rfl
  -- There the id is free just in case none of `before` inserted it.
  have hids := not_congr (mem_ids_afterWrites hfree hkeep)
  rw [not_exists] at hids
  simp only [not_and] at hids
  rw [hrows, ← hids, ← Database.insertFragment_fst, Write.rows]
  split <;> simp_all

/-! ## Runs -/

/-- **Calls report their own outcome**, if whenever a statement is executed it agrees on
    whether it changes a row with every statement whose report is outstanding. In every such
    run of any number of threads: each report is positive just in case the statement of its
    very call changed a row; and of the inserts of an id between two removals, exactly the
    first one to be executed reports that it added the row. -/
theorem calls_report_their_outcome {T : Type} [DecidableEq T] (db : Database)
    {events : List (ApiEvent T)}
    (h : Along Connection.step Connection.Agrees (.idle db : Connection T) events)
    {s : Connection T} (hs : s = run Connection.step (.idle db) events) :
    (∀ i n, s.reports i = some n → (0 < n ↔ 0 < rowsChanged db s.executed i)) ∧
    ∀ ws vs before after f n, s.executed = ws ++ (before ++ .insertFragment f :: after) ++ vs →
      cStr f.id ∉ (afterWrites db ws).rows.map Fragment.id →
      NoRemoval (afterWrites db ws) (cStr f.id) (before ++ .insertFragment f :: after) →
      s.reports (ws.length + before.length) = some n →
      (0 < n ↔ ∀ w ∈ before, ¬ w.Inserts (cStr f.id)) := by
  -- The invariant holds at the end of the run, and both parts are read off it.
  have hinv : s.Reported db := by
    rw [hs]
    exact h.invariant (Connection.Reported db) (.idle db) fun _ _ hagrees hi => hi.step hagrees
  refine ⟨fun i n hi => (hinv.reported i n hi).2, ?_⟩
  intro ws vs before after f n hsplit hfree hkeep hreport
  rw [(hinv.reported _ n hreport).2, hsplit]
  exact rowsChanged_insert hfree (along_append.mp hkeep).1

/-- A fragment of the chat `c`. -/
def concurrentFragment (id : String) : Fragment Bytes :=
  ⟨lit id, lit "m", lit "c", lit "s", lit "p", 100, 0⟩

/-- Two threads insert, the second one entering while the first is at work: `before` and
    `after` are how many API calls the first thread makes before and after those of the
    second. -/
def twoInserts (id id' : String) (before after : Nat) : List (ApiEvent Bool) :=
  [.enter false (.insertFragment (concurrentFragment id)),
    .enter true (.insertFragment (concurrentFragment id'))] ++
  List.replicate before (.next false) ++ List.replicate 6 (.next true) ++
  List.replicate after (.next false)

/-- The state of the connection after both inserts. -/
def afterTwoInserts (db : Database) (id id' : String) (before after : Nat) : Connection Bool :=
  run Connection.step (.idle db) (twoInserts id id' before after)

/-- Overlapping inserts of new ids agree, and both report that they added their row. -/
theorem overlapping_inserts_agree :
    (0 < 1 ↔ 0 < rowsChanged .empty (afterTwoInserts .empty "1" "2" 3 3).executed 0) ∧
    (0 < 1 ↔ ∀ w ∈ ([] : List Write), ¬ w.Inserts (cStr (lit "1"))) :=
  have h := calls_report_their_outcome (T := Bool) .empty
    (show Along _ _ _ (twoInserts "1" "2" 3 3) by decide +kernel) (s := afterTwoInserts .empty "1" "2" 3 3) rfl
  ⟨h.1 0 1 (by decide +kernel),
    h.2 [] [] [] [.insertFragment (concurrentFragment "2")] (concurrentFragment "1") 1
      (by decide +kernel) (by decide +kernel) (by decide +kernel) (by decide +kernel)⟩

/-- A table with one fragment. -/
def storedOne : Database := (Database.empty.insertFragment (concurrentFragment "1")).2

/-- A thread inserts between the statement of another and its report. When both insert one
    new id, neither reports that the row was added; and an insert of a taken id reports the
    row that the other thread added. -/
theorem overlapping_inserts_misreport :
    ((afterTwoInserts .empty "1" "1" 3 3).reports 0 = some 0 ∧
      rowsChanged .empty (afterTwoInserts .empty "1" "1" 3 3).executed 0 = 1 ∧
      (afterTwoInserts .empty "1" "1" 3 3).reports 1 = some 0) ∧
    (afterTwoInserts storedOne "1" "2" 3 3).reports 0 = some 1 ∧
      rowsChanged storedOne (afterTwoInserts storedOne "1" "2" 3 3).executed 0 = 0 := by
  decide +kernel

end Frag
