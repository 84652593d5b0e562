import Frag.Backend.Server
import Frag.Library.Runs

/-!
# Empty Fields

The POST handler refuses a body with an empty text, and the table never holds one that was
empty when it was checked. The checks are made on the scanned `std::string`s, but SQLite reads
the texts through `c_str()`. A text that begins with a NUL byte passes the checks and is stored
as the empty text.

## Main results

- `filled_throughout_iff`: the runs of the server in which no field is ever empty.
-/

namespace Frag

open Runs

/-! ## Runs of the server -/

/-- An event: a connection with the segments that arrive on it, or a round of the cleanup
    thread. `allowed` is what the rate limiter says of the client. -/
inductive ServerEvent where
  | connection (allowed : Bool) (now : Int) (segs : List Segment)
  | cleanup (now : Int)

/-- The table after an event. -/
def serve (ctx : AppContext) (corsOrigin : Bytes) (db : Database) : ServerEvent → Database
  | .connection allowed now segs =>
    ((ctx.server corsOrigin).handleConnection allowed now db segs).2
  | .cleanup now => (db.purgeExpired now).2

/-! ## Fields -/

/-- No text of the fragment is empty. -/
def Fragment.Filled (f : Fragment Bytes) : Prop :=
  f.id ≠ [] ∧ f.messageId ≠ [] ∧ f.chatId ≠ [] ∧ f.senderHash ≠ [] ∧ f.payload ≠ []

/-- No fragment that `get_fragments` returns has an empty text. -/
def Database.Filled (db : Database) : Prop :=
  ∀ chatId since, ∀ f ∈ db.getFragments chatId since, f.Filled

/-- A text of the body begins with a NUL byte. -/
def FragmentPost.BeginsWithNul (body : FragmentPost Bytes) : Prop :=
  body.id.head? = some 0 ∨ body.messageId.head? = some 0 ∨ body.chatId.head? = some 0 ∨
    body.senderHash.head? = some 0 ∨ body.payload.head? = some 0

/-- The event is a POST that is stored, and a text of its body begins with a NUL byte. -/
def StoresNul (ctx : AppContext) (db : Database) : ServerEvent → Prop
  | .connection allowed _ segs => allowed ∧ ctx.Stores db (readAndParse segs) ∧
      (readFragment (readAndParse segs).body).BeginsWithNul
  | .cleanup _ => False

/-- Every row is returned for its own chat. -/
theorem Database.filled_iff {db : Database} :
    db.Filled ↔ ∀ r ∈ db.rows, (r.map CString.bytes).Filled := by
  constructor
  · intro h r hr
    refine h r.chatId.bytes (r.timestamp - 1) _ (mem_getFragments.mpr ⟨r, hr, ?_, ?_, rfl⟩)
    · exact (cStr_bytes _).symm
    · omega
  · intro h chatId since f hf
    obtain ⟨r, hr, -, -, rfl⟩ := mem_getFragments.mp hf
    exact h r hr

/-- What is stored of a text is empty if the text is, or if it begins with a NUL byte. -/
theorem cStr_bytes_eq_nil {b : Bytes} : (cStr b).bytes = [] ↔ b = [] ∨ b.head? = some 0 := by
  cases b with
  | nil => simp [cStr]
  | cons c b => by_cases hc : c = 0 <;> simp [cStr, hc]

/-- A complete body is stored with a text in every field, unless one begins with a NUL byte. -/
theorem filled_stamped_iff {body : FragmentPost Bytes} (h : missingMember body = none) (now : Int) :
    (((body.stamped now).map cStr).map CString.bytes).Filled ↔ ¬ body.BeginsWithNul := by
  obtain ⟨hid, hmessageId, hchatId, hsenderHash, hpayload⟩ := missingMember_eq_none.mp h
  have hfield : ∀ b : Bytes, b ≠ [] → ((cStr b).bytes ≠ [] ↔ ¬ b.head? = some 0) := by
    intro b hb
    rw [Ne, cStr_bytes_eq_nil, or_iff_right hb]
  simp only [Fragment.Filled, Fragment.map, FragmentPost.stamped, FragmentPost.BeginsWithNul,
    not_or, hfield _ hid, hfield _ hmessageId, hfield _ hchatId, hfield _ hsenderHash,
    hfield _ hpayload]

/-! ## What an event adds -/

section Steps

variable {ctx : AppContext} {corsOrigin : Bytes} {now : Int} {db : Database} {req : HttpRequest}

/-- The POST handler adds the row of a request that it stores, and no other. -/
theorem mem_rows_post {r : Fragment CString} :
    r ∈ (ctx.makePostFragmentHandler now db req).2.rows ↔ r ∈ db.rows ∨
      (isAuthorized req ctx.auth ∧ req.body.length ≤ ctx.maxPayloadBytes ∧
        missingMember (readFragment req.body) = none ∧
        cStr (readFragment req.body).id ∉ db.rows.map Fragment.id ∧
        r = ((readFragment req.body).stamped now).map cStr) := by
  unfold AppContext.makePostFragmentHandler
  split
  · rename_i hauth
    simp_all
  split
  · -- An empty body has no members.
    rename_i hempty
    have hmissing : missingMember (readFragment req.body) ≠ none := by
      rw [hempty]
      decide
    exact (or_iff_left fun h => hmissing h.2.2.1).symm
  split
  · rename_i hlarge
    exact (or_iff_left fun h => Nat.not_lt.mpr h.2.1 hlarge).symm
  · rename_i hauth hne hwithin
    have hauth' : isAuthorized req ctx.auth = true := by simpa using hauth
    simp only
    rw [mem_rows_makePostFragmentHandler, and_iff_right hauth', and_iff_right (Nat.not_lt.mp hwithin)]

/-- A delete adds nothing. -/
theorem mem_rows_delete (now : Int) {r : Fragment CString}
    (h : r ∈ (ctx.makeDeleteFragmentHandler now db req).2.rows) : r ∈ db.rows := by
  unfold AppContext.makeDeleteFragmentHandler at h
  split at h
  · exact h
  simp only at h
  split at h
  · exact h
  · exact List.mem_of_mem_filter h

/-- **What a request adds to the table**: the row of a POST that is stored, and nothing else. -/
theorem mem_rows_respond {r : Fragment CString}
    (h : r ∈ ((ctx.server corsOrigin).respond now db req).2.rows) :
    r ∈ db.rows ∨
      (ctx.Stores db req ∧ r = ((readFragment req.body).stamped now).map cStr) := by
  rcases AppContext.respond_cases ctx corsOrigin now req with
    ⟨-, error, heq⟩ | ⟨route, hroute, haccept, heq⟩
  · rw [heq] at h
    exact .inl h
  · rw [heq] at h
    obtain ⟨hmatch, hmethod⟩ := (AppContext.accepts_iff hroute).mp haccept
    simp only [AppContext.routes, List.mem_cons, List.not_mem_nil, or_false] at hroute
    -- The routes in the order of their registration; only that of the POST adds rows.
    rcases hroute with rfl | rfl | rfl | rfl | rfl
    · exact .inl h
    · rcases mem_rows_post.mp h with hold | ⟨hauth, hwithin, hcomplete, hfree, hrow⟩
      · exact .inl hold
      · exact .inr ⟨⟨hmethod.symm, hmatch, hauth, hwithin, hcomplete, hfree⟩, hrow⟩
    · rw [Route.handle, AppContext.makeGetFragmentsHandler_snd] at h
      exact .inl h
    · rw [Route.handle, AppContext.makeGetMessageFragmentsHandler_snd] at h
      exact .inl h
    · exact .inl (mem_rows_delete now h)

/-- A POST that is stored is in the table. -/
theorem mem_rows_respond_of_stores (h : ctx.Stores db req) :
    ((readFragment req.body).stamped now).map cStr ∈
      ((ctx.server corsOrigin).respond now db req).2.rows := by
  have hpost : (⟨lit "POST", lit "/api/fragments", ctx.makePostFragmentHandler⟩ : Route) ∈
      ctx.routes := by simp [AppContext.routes]
  rcases AppContext.respond_cases ctx corsOrigin now req with
    ⟨hrefuse, -⟩ | ⟨route, hroute, haccept, heq⟩
  · -- The request is not refused, since the route of the POST accepts it.
    exact absurd ((AppContext.accepts_iff hpost).mpr ⟨h.path, h.method.symm⟩)
      (by simp [hrefuse _ hpost])
  · have hmethod := ((AppContext.accepts_iff hroute).mp haccept).2
    have hget : lit "GET" ≠ lit "POST" := by decide
    have hdelete : lit "DELETE" ≠ lit "POST" := by decide
    rw [h.method] at hmethod
    rw [heq]
    simp only [AppContext.routes, List.mem_cons, List.not_mem_nil, or_false] at hroute
    -- The second route is the only one with the method.
    rcases hroute with rfl | rfl | rfl | rfl | rfl
    · exact absurd hmethod hget
    · exact mem_rows_post.mpr (.inr ⟨h.authorized, h.within, h.complete, h.free, rfl⟩)
    · exact absurd hmethod hget
    · exact absurd hmethod hget
    · exact absurd hmethod hdelete

/-- An event that stores no text with a NUL byte in front keeps the fields filled. -/
theorem Database.Filled.serve (h : db.Filled) {e : ServerEvent} (he : ¬ StoresNul ctx db e) :
    (serve ctx corsOrigin db e).Filled := by
  rw [Database.filled_iff] at h ⊢
  intro r hr
  cases e with
  | cleanup now => exact h r (List.mem_of_mem_filter hr)
  | connection allowed now segs =>
    cases allowed with
    | false => exact h r hr
    | true =>
      rcases mem_rows_respond hr with hold | ⟨hstores, rfl⟩
      · exact h r hold
      · rw [filled_stamped_iff hstores.complete]
        exact fun hnul => he ⟨rfl, hstores, hnul⟩

/-- An event that stores such a text leaves an empty field in the table. -/
theorem not_filled_serve {e : ServerEvent} (he : StoresNul ctx db e) :
    ¬ (serve ctx corsOrigin db e).Filled := by
  cases e with
  | cleanup now => exact he.elim
  | connection allowed now segs =>
    obtain ⟨rfl, hstores, hnul⟩ := he
    intro hfilled
    have hrow := Database.filled_iff.mp hfilled _ (mem_rows_respond_of_stores hstores)
    exact (filled_stamped_iff hstores.complete now).mp hrow hnul

end Steps

/-! ## Whole runs -/

/-- **When no stored fragment ever has an empty field**: in the runs in which no POST is stored
    with a text that begins with a NUL byte. -/
theorem filled_throughout_iff (ctx : AppContext) (corsOrigin : Bytes) (events : List ServerEvent) :
    (∀ before, before <+: events → (run (serve ctx corsOrigin) .empty before).Filled) ↔
      Along (serve ctx corsOrigin) (fun db e => ¬ StoresNul ctx db e) .empty events := by
  have hempty : Database.empty.Filled :=
    Database.filled_iff.mpr fun r hr => absurd hr List.not_mem_nil
  have hall : Along (serve ctx corsOrigin) (fun _ _ => True) .empty events :=
    along_of_forall fun _ _ => trivial
  refine along_iff_prefixes Database.Filled Database.Filled hall (fun _ h => h) ?_ ?_ hempty
  · intro db e _ he hdb
    exact hdb.serve he
  · intro db e _ he _
    exact not_filled_serve (not_not.mp he)

/-- A POST whose payload is a NUL byte. -/
def nulPost : List ServerEvent :=
  [.connection true 100
    [⟨lit "POST /api/fragments HTTP/1.1\r\nAuthorization: Bearer secret\r\nContent-Length: 81\r\n\r\n",
      by decide, by decide⟩,
    ⟨Sample.body "1" "\x00", by decide, by decide⟩]]

/-- It is stored with an empty payload. -/
theorem not_forall_filled : ¬ ∀ (ctx : AppContext) (corsOrigin : Bytes) (events : List ServerEvent),
    (run (serve ctx corsOrigin) .empty events).Filled := by
  intro h
  have hstored : ∃ r ∈ (run (serve Sample.context []) .empty nulPost).rows, r.payload.bytes = [] := by
    decide +kernel
  obtain ⟨r, hr, hpayload⟩ := hstored
  have hrow := Database.filled_iff.mp (h Sample.context [] nulPost) r hr
  exact hrow.2.2.2.2 hpayload

end Frag
