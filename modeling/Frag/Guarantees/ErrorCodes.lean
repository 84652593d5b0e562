import Frag.Backend.Statements

/-!
# Errors of SQLite

A member function of `Database` should return only what SQLite delivered without an error. The
insert and the delete check the code of their step and do so. The loops of the reading
functions end at any code but `SQLITE_ROW`, and the count and the purge drop the code of their
only step: an error of `sqlite3_step` is told to nobody.

## Main results

- `writes_tell_errors`: the functions that check the code of the step;
- `errors_are_told_iff`: when the others do as well.
-/

namespace Frag

namespace Statement

variable {ρ α : Type}

/-- The statement was prepared, and the code that ends the loop over its rows is no error. -/
def Succeeds (stmt : Statement ρ) : Prop := IsSuccess stmt.prepared ∧ IsSuccess stmt.steps.final

/-- The statement was prepared, and its first step is no error. -/
def Starts (stmt : Statement ρ) : Prop := IsSuccess stmt.prepared ∧ IsSuccess stmt.steps.first

/-- A function returns only if all went well, and then a value that covers all rows; otherwise
    it throws. -/
structure TellsErrors (well : Prop) (covers : α → Prop) (result : Except String α) : Prop where
  returns : ∀ a, result = .ok a → well ∧ covers a
  throws : ¬ well → ∃ error, result = .error error

/-- A function that checks `sqlite3_prepare_v2` and then returns tells an error of the step only
    if there is none. -/
theorem tellsErrors_check_iff {rc : Int} {context : String} {stepped : Prop} {covers : α → Prop}
    {a : α} (ha : covers a) :
    TellsErrors (IsSuccess rc ∧ stepped) covers (check rc context >>= fun _ => .ok a) ↔
      (IsSuccess rc → stepped) := by
  rcases check_cases rc context with ⟨hsuccess, hcheck⟩ | ⟨herror, error, hcheck⟩
  · -- The function returns, so all has to have gone well.
    rw [hcheck]
    constructor
    · intro h _
      exact (h.returns a rfl).1.2
    · intro h
      refine ⟨?_, fun hnot => absurd ⟨hsuccess, h hsuccess⟩ hnot⟩
      rintro b hb
      cases hb
      exact ⟨⟨hsuccess, h hsuccess⟩, ha⟩
  · -- It throws, and the statement was not prepared.
    rw [hcheck]
    refine iff_of_true ⟨fun b hb => ?_, fun _ => ⟨error, rfl⟩⟩ fun h => absurd h herror
    cases hb

/-- A function that checks both codes tells every error. -/
theorem tellsErrors_check_check {rc rc' : Int} {context context' : String} {covers : α → Prop} {a : α}
    (ha : covers a) :
    TellsErrors (IsSuccess rc ∧ IsSuccess rc') covers
      (check rc context >>= fun _ => check rc' context' >>= fun _ => .ok a) := by
  rcases check_cases rc context with ⟨hsuccess, hcheck⟩ | ⟨herror, error, hcheck⟩
  · rcases check_cases rc' context' with ⟨hsuccess', hcheck'⟩ | ⟨herror', error', hcheck'⟩
    · rw [hcheck, hcheck']
      refine ⟨?_, fun hnot => absurd ⟨hsuccess, hsuccess'⟩ hnot⟩
      rintro b hb
      cases hb
      exact ⟨⟨hsuccess, hsuccess'⟩, ha⟩
    · rw [hcheck, hcheck']
      refine ⟨fun b hb => ?_, fun _ => ⟨error', rfl⟩⟩
      cases hb
  · rw [hcheck]
    refine ⟨fun b hb => ?_, fun _ => ⟨error, rfl⟩⟩
    cases hb

/-- **The insert and the delete tell every error.** -/
theorem writes_tell_errors (stmt : Statement Unit) (changes : Int) :
    TellsErrors stmt.Starts (· = decide (changes > 0)) (stmt.insertFragment changes) ∧
      TellsErrors stmt.Starts (· = decide (changes > 0)) (stmt.deleteFragment changes) :=
  ⟨tellsErrors_check_check rfl, tellsErrors_check_check rfl⟩

/-- The loop covers all rows it steps over. -/
private theorem fetch_nil (steps : Stepping Columns) :
    fetch [] steps = steps.rows.map Columns.read := by
  rw [fetch_eq, List.nil_append]

/-- The handler answers 500 to what is thrown, and to nothing else. -/
private theorem fragmentsAnswer_iff (stmt : Statement Columns) :
    (¬ stmt.Succeeds → fragmentsAnswer stmt.getFragments = .serverError "db error") ↔
      (IsSuccess stmt.prepared → IsSuccess stmt.steps.final) := by
  rcases check_cases stmt.prepared "prepare get" with ⟨hsuccess, hcheck⟩ | ⟨herror, error, hcheck⟩
  · have hreturns : stmt.getFragments = .ok (fetch [] stmt.steps) := by
      rw [getFragments, hcheck]
      rfl
    -- A list of rows is answered with 200.
    have hanswer : fragmentsAnswer stmt.getFragments ≠ .serverError "db error" := by
      intro h
      rw [hreturns] at h
      have hstatus : (200 : Nat) = 500 := congrArg HttpResponse.statusCode h
      cases hstatus
    rw [Succeeds, and_iff_right hsuccess]
    constructor
    · intro h _
      by_contra hfinal
      exact hanswer (h hfinal)
    · intro h hfinal
      exact absurd (h hsuccess) hfinal
  · have hthrows : stmt.getFragments = .error error := by
      rw [getFragments, hcheck]
      rfl
    rw [hthrows]
    exact iff_of_true (fun _ => rfl) fun h => absurd h herror

/-- **When errors of SQLite are told**: the two reading functions, the count and the purge return
    only what is complete, and the handler answers errors with 500, if `sqlite3_prepare_v2`
    fails or the last code of `sqlite3_step` is no error. -/
theorem errors_are_told_iff (stmt : Statement Columns) (counting : Statement Int)
    (purging : Statement Unit) (changes : Int) :
    ((TellsErrors stmt.Succeeds (· = stmt.steps.rows.map Columns.read) stmt.getFragments ↔
        (IsSuccess stmt.prepared → IsSuccess stmt.steps.final)) ∧
      (TellsErrors stmt.Succeeds (· = stmt.steps.rows.map Columns.read) stmt.getMessageFragments ↔
        (IsSuccess stmt.prepared → IsSuccess stmt.steps.final)) ∧
      ((¬ stmt.Succeeds → fragmentsAnswer stmt.getFragments = .serverError "db error") ↔
        (IsSuccess stmt.prepared → IsSuccess stmt.steps.final))) ∧
    (TellsErrors counting.Starts (· = counting.steps.rows.head?.getD 0) counting.getFragmentCount ↔
      (IsSuccess counting.prepared → IsSuccess counting.steps.first)) ∧
    (TellsErrors purging.Starts (· = changes) (purging.purgeExpired changes) ↔
      (IsSuccess purging.prepared → IsSuccess purging.steps.first)) := by
  refine ⟨⟨?_, ?_, fragmentsAnswer_iff stmt⟩, ?_, ?_⟩
  · exact tellsErrors_check_iff (fetch_nil stmt.steps)
  · exact tellsErrors_check_iff (fetch_nil stmt.steps)
  · -- The count is the first row's, or zero if there is none.
    have hcount : counting.getFragmentCount = (check counting.prepared "prepare count" >>=
        fun _ => .ok (counting.steps.rows.head?.getD 0)) := by
      obtain ⟨prepared, steps⟩ := counting
      cases steps <;> rfl
    rw [hcount]
    exact tellsErrors_check_iff rfl
  · exact tellsErrors_check_iff rfl

/-- A row, and then `SQLITE_BUSY`. -/
def busyAfterRow : Statement Columns where
  prepared := sqliteOk
  steps := .row ⟨none, none, none, none, none, 0, 0⟩ (.last 5 (by decide))

/-- The row is returned as if it were all. -/
theorem not_forall_tellsErrors : ¬ ∀ stmt : Statement Columns,
    TellsErrors stmt.Succeeds (· = stmt.steps.rows.map Columns.read) stmt.getFragments := by
  intro h
  have hsucceeds := ((h busyAfterRow).returns (busyAfterRow.steps.rows.map Columns.read) rfl).1
  exact absurd hsucceeds.2 (by decide)

end Statement

end Frag
