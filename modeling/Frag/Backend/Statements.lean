import Frag.Backend.Server

/-!
# SQLite Statements

The member functions of `Database` over the result codes of SQLite: what `sqlite3_prepare_v2`
and the calls of `sqlite3_step` return. A function either returns a value or throws the
`runtime_error` of `check`.

The functions that insert and delete check the code of `sqlite3_step`. Those that read, and the
purge, do not.

## Main results

- `getFragments_interrupted`: what is returned of an answer of the table whose rows break off;
- `AppContext.getFragmentsWith_eq`: without errors the handler is that of the table.
-/

namespace Frag

/-! ## Result codes -/

/-- `SQLITE_OK` -/
def sqliteOk : Int := 0

/-- `SQLITE_ROW` -/
def sqliteRow : Int := 100

/-- `SQLITE_DONE` -/
def sqliteDone : Int := 101

/-- A code that is no error. -/
def IsSuccess (rc : Int) : Prop := rc = sqliteOk ∨ rc = sqliteRow ∨ rc = sqliteDone

instance (rc : Int) : Decidable (IsSuccess rc) :=
  inferInstanceAs (Decidable (rc = sqliteOk ∨ rc = sqliteRow ∨ rc = sqliteDone))

/-- `check` -/
def check (rc : Int) (context : String) : Except String Unit :=
  if rc ≠ sqliteOk ∧ rc ≠ sqliteRow ∧ rc ≠ sqliteDone then
    .error ("SQLite error (" ++ context ++ "): " ++ toString rc)
  else .ok ()

/-- `check` throws on errors, and on nothing else. -/
theorem check_cases (rc : Int) (context : String) :
    (IsSuccess rc ∧ check rc context = .ok ()) ∨
      (¬ IsSuccess rc ∧ ∃ error, check rc context = .error error) := by
  by_cases h : IsSuccess rc
  · refine .inl ⟨h, if_neg ?_⟩
    rintro ⟨hok, hrow, hdone⟩
    exact h.elim hok fun h => h.elim hrow hdone
  · refine .inr ⟨h, _, if_pos ?_⟩
    rwa [IsSuccess, not_or, not_or] at h

/-! ## Statements -/

/-- What the calls of `sqlite3_step` return: `SQLITE_ROW` with a row any number of times, and
    then another code. -/
inductive Stepping (ρ : Type) where
  | row (r : ρ) (next : Stepping ρ)
  | last (rc : Int) (h : rc ≠ sqliteRow)

/-- A prepared statement: the code of `sqlite3_prepare_v2`, and what stepping it returns. -/
structure Statement (ρ : Type) where
  prepared : Int
  steps : Stepping ρ

namespace Stepping

variable {ρ : Type}

/-- The code of the first call. -/
def first : Stepping ρ → Int
  | .row _ _ => sqliteRow
  | .last rc _ => rc

/-- The code that ends a loop over the rows. -/
def final : Stepping ρ → Int
  | .row _ next => next.final
  | .last rc _ => rc

/-- The rows that such a loop steps over. -/
def rows : Stepping ρ → List ρ
  | .row r next => r :: next.rows
  | .last _ _ => []

/-- Rows, and a code after them. -/
def ofRows (rc : Int) (h : rc ≠ sqliteRow) : List ρ → Stepping ρ
  | [] => .last rc h
  | r :: rs => .row r (ofRows rc h rs)

@[simp] theorem rows_ofRows {rc : Int} {h : rc ≠ sqliteRow} (rs : List ρ) :
    (ofRows rc h rs).rows = rs := by
  induction rs with
  | nil => rfl
  | cons r rs ih => rw [ofRows, rows, ih]

end Stepping

/-! ## Member functions -/

/-- The columns of a row; `sqlite3_column_text` may return a null pointer. -/
abbrev Columns := Fragment (Option CString)

/-- The fragment of a row; `col_text` makes a null pointer the empty text. -/
def Columns.read (c : Columns) : Fragment Bytes := c.map fun p => p.elim [] CString.bytes

namespace Statement

/-- `while (sqlite3_step(stmt) == SQLITE_ROW) …`: the loop of both reading functions. -/
def fetch (results : List (Fragment Bytes)) : Stepping Columns → List (Fragment Bytes)
  | .row c next => fetch (results ++ [Columns.read c]) next
  -- `SQLITE_DONE` or an error: the code is not looked at again.
  | .last _ _ => results

/-- `Database::get_fragments` -/
def getFragments (stmt : Statement Columns) : Except String (List (Fragment Bytes)) := do
  check stmt.prepared "prepare get"
  return fetch [] stmt.steps

/-- `Database::get_message_fragments` -/
def getMessageFragments (stmt : Statement Columns) : Except String (List (Fragment Bytes)) := do
  check stmt.prepared "prepare get_msg"
  return fetch [] stmt.steps

/-- `Database::get_fragment_count` -/
def getFragmentCount (stmt : Statement Int) : Except String Int := do
  check stmt.prepared "prepare count"
  match stmt.steps with
  | .row count _ => return count
  -- `count` keeps its initial value, also after an error.
  | .last _ _ => return 0

/-- `Database::purge_expired`; `changes` is what `sqlite3_changes` returns after the step. -/
def purgeExpired (stmt : Statement Unit) (changes : Int) : Except String Int := do
  check stmt.prepared "prepare purge"
  -- The code of `sqlite3_step` is dropped.
  return changes

/-- `Database::insert_fragment` -/
def insertFragment (stmt : Statement Unit) (changes : Int) : Except String Bool := do
  check stmt.prepared "prepare insert"
  check stmt.steps.first "step insert"
  return changes > 0

/-- `Database::delete_fragment` -/
def deleteFragment (stmt : Statement Unit) (changes : Int) : Except String Bool := do
  check stmt.prepared "prepare delete"
  check stmt.steps.first "step delete"
  return changes > 0

/-! ## What the loop returns -/

/-- The loop returns the rows that it stepped over, whatever ended it. -/
theorem fetch_eq (results : List (Fragment Bytes)) (steps : Stepping Columns) :
    fetch results steps = results ++ steps.rows.map Columns.read := by
  induction steps generalizing results with
  | last rc h => simp [fetch, Stepping.rows]
  | row c next ih => rw [fetch, ih, Stepping.rows, List.map_cons, List.append_assoc,
      List.singleton_append]

/-- The rows of an answer up to the `k`-th, and a code after them. -/
def interrupted (answer : List (Fragment CString)) (k : Nat) (rc : Int) (h : rc ≠ sqliteRow) :
    Statement Columns where
  prepared := sqliteOk
  steps := .ofRows rc h ((answer.take k).map fun r => r.map some)

theorem sqliteDone_ne_sqliteRow : sqliteDone ≠ sqliteRow := by decide

/-- A statement that returns the whole answer. -/
def complete (answer : List (Fragment CString)) : Statement Columns :=
  interrupted answer answer.length sqliteDone sqliteDone_ne_sqliteRow

/-- The rows of `SELECT … WHERE chat_id = ? AND timestamp > ? ORDER BY timestamp ASC`. -/
def selectFragments (db : Database) (chatId : Bytes) (since : Int) : List (Fragment CString) :=
  Database.orderByTimestamp
    (db.rows.filter fun r => r.chatId = cStr chatId ∧ since < r.timestamp)

/-- **An answer that breaks off is returned as far as it goes**, whatever the reason. -/
theorem getFragments_interrupted (db : Database) (chatId : Bytes) (since : Int) (k : Nat) (rc : Int)
    (h : rc ≠ sqliteRow) :
    getFragments (interrupted (selectFragments db chatId since) k rc h) =
      .ok ((db.getFragments chatId since).take k) := by
  have hread : ∀ rs : List (Fragment CString),
      (rs.map fun r => r.map some).map Columns.read = rs.map fun r => r.map CString.bytes := by
    intro rs
    rw [List.map_map]
    rfl
  have hfetch : fetch [] (interrupted (selectFragments db chatId since) k rc h).steps =
      (db.getFragments chatId since).take k := by
    rw [fetch_eq, List.nil_append, interrupted, Stepping.rows_ofRows, hread, Database.getFragments,
      ← List.map_take]
    rfl
  rw [← hfetch]
  rfl

end Statement

/-! ## The handler -/

/-- The answer of a handler to what a reading function returns or throws. -/
def fragmentsAnswer : Except String (List (Fragment Bytes)) → HttpResponse
  | .ok frags => .ok (fragmentsArray frags)
  | .error _ => .serverError "db error"

namespace AppContext

/-- `make_get_fragments_handler`; `select` tells what SQLite does with the statement for a chat
    and a timestamp. -/
def getFragmentsWith (ctx : AppContext) (select : Bytes → Int → Statement Columns)
    (req : HttpRequest) : HttpResponse :=
  if !isAuthorized req ctx.auth then .unauthorized
  else
    let chatId := (req.queryParams.get? (lit "chat_id")).getD []
    let since := ((req.queryParams.get? (lit "since")).bind stoll).getD 0
    if chatId = [] then .badRequest "missing chat_id query param"
    else fragmentsAnswer (select chatId since).getFragments

/-- **Without errors** it is the handler on the table. -/
theorem getFragmentsWith_eq (ctx : AppContext) (now : Int) (db : Database) (req : HttpRequest) :
    ctx.getFragmentsWith (fun chatId since => .complete (Statement.selectFragments db chatId since))
      req = (ctx.makeGetFragmentsHandler now db req).1 := by
  have hall : ∀ chatId since,
      (Statement.complete (Statement.selectFragments db chatId since)).getFragments =
        .ok (db.getFragments chatId since) := by
    intro chatId since
    have hlength : (db.getFragments chatId since).length =
        (Statement.selectFragments db chatId since).length := List.length_map _
    rw [Statement.complete, Statement.getFragments_interrupted, ← hlength, List.take_length]
  unfold getFragmentsWith makeGetFragmentsHandler
  split
  · rfl
  simp only [hall, fragmentsAnswer, Frag.makeGetFragmentsHandler]
  split <;> rfl

end AppContext

end Frag
