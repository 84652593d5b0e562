import Frag.Backend.Database

/-!
# Request Handlers

The fragment handlers of `handlers.cpp`, for requests that are authorised and within
the size limit and a database that reports no errors. The body of a POST is given
as the members the handler extracts from it.
-/

namespace Frag

/-! ## POST /api/fragments -/

/-- The responses of the POST handler: 201, 200 and 400. -/
inductive PostResponse where
  | created (id : Bytes)
  | duplicate
  | badRequest (error : String)
  deriving DecidableEq, Repr

/-- The client counts a POST as fulfilled. -/
def PostResponse.ok : PostResponse → Bool
  | .created _ => true
  | .duplicate => true
  | .badRequest _ => false

/-- The checks of the POST handler, in order. -/
def missingMember (body : FragmentPost Bytes) : Option String :=
  if body.id = [] then some "missing id"
  else if body.messageId = [] then some "missing message_id"
  else if body.chatId = [] then some "missing chat_id"
  else if body.senderHash = [] then some "missing sender_hash"
  else if body.payload = [] then some "missing payload"
  else none

/-- A body that passes the checks has no empty text. -/
theorem missingMember_eq_none {body : FragmentPost Bytes} :
    missingMember body = none ↔ body.id ≠ [] ∧ body.messageId ≠ [] ∧ body.chatId ≠ [] ∧
      body.senderHash ≠ [] ∧ body.payload ≠ [] := by
  unfold missingMember
  grind

/-- `make_post_fragment_handler`; `now` is `utils::now_seconds()`. -/
def makePostFragmentHandler (db : Database) (body : FragmentPost Bytes) (now : Int) :
    PostResponse × Database :=
  match missingMember body with
  | some error => (.badRequest error, db)
  | none =>
    let (inserted, db) := db.insertFragment (body.stamped now)
    (if inserted then .created body.id else .duplicate, db)

/-- A POST adds its row, unless a member is missing or the id is taken. -/
theorem mem_rows_makePostFragmentHandler {db : Database} {body : FragmentPost Bytes} {now : Int}
    {r : Fragment CString} :
    r ∈ (makePostFragmentHandler db body now).2.rows ↔
      r ∈ db.rows ∨ (missingMember body = none ∧ cStr body.id ∉ db.rows.map Fragment.id ∧
        r = (body.stamped now).map cStr) := by
  unfold makePostFragmentHandler
  cases h : missingMember body with
  | some error => simp
  | none =>
    have hrow := @Database.mem_rows_insertFragment db (body.stamped now) r
    simpa [FragmentPost.stamped] using hrow

/-- After a 2xx response a row with the fragment's id is stored. -/
theorem exists_row_of_ok {db : Database} {body : FragmentPost Bytes} {now : Int}
    (h : (makePostFragmentHandler db body now).1.ok = true) :
    ∃ r ∈ (makePostFragmentHandler db body now).2.rows, r.id = cStr body.id := by
  have hnone : missingMember body = none := by
    cases hm : missingMember body with
    | none => rfl
    | some error => simp [makePostFragmentHandler, hm, PostResponse.ok] at h
  by_cases hid : cStr body.id ∈ db.rows.map Fragment.id
  · obtain ⟨r, hr, he⟩ := List.mem_map.mp hid
    exact ⟨r, mem_rows_makePostFragmentHandler.mpr (.inl hr), he⟩
  · exact ⟨_, mem_rows_makePostFragmentHandler.mpr (.inr ⟨hnone, hid, rfl⟩), rfl⟩

/-- A new row comes with a 2xx response. -/
theorem ok_of_new_row {db : Database} {body : FragmentPost Bytes} {now : Int}
    {r : Fragment CString} (h : r ∈ (makePostFragmentHandler db body now).2.rows)
    (hnew : r ∉ db.rows) : (makePostFragmentHandler db body now).1.ok = true := by
  rcases mem_rows_makePostFragmentHandler.mp h with hr | ⟨hnone, -, -⟩
  · exact absurd hr hnew
  · unfold makePostFragmentHandler
    rw [hnone]
    simp only
    split <;> rfl

/-! ## GET /api/fragments -/

/-- `make_get_fragments_handler` on the decoded query parameters; `none` is a 400. -/
def makeGetFragmentsHandler (db : Database) (chatId : Bytes) (since : Int) :
    Option (List (Fragment Bytes)) :=
  if chatId = [] then none  -- "missing chat_id query param"
  else some (db.getFragments chatId since)

end Frag
