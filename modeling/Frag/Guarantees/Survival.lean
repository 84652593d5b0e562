import Frag.Backend.CheckedHttp

/-!
# Every Byte Stream is Answered

The handlers and the connection with checked positions. What a connection has been sent is
part of the state, so that a computation that breaks off sends nothing more.

## Main results

- `server_survives`: whatever arrives, a connection that passes the rate limit is sent one
  response, and nothing breaks off.
-/

namespace Frag

namespace Checked

open Bounds

/-! ## Handlers -/

/-- What the POST handler reads of a body. -/
def readFragment (body : Bytes) : Checked (FragmentPost Bytes) := do
  let id ← extractString body (lit "id")
  let messageId ← extractString body (lit "message_id")
  let chatId ← extractString body (lit "chat_id")
  let senderHash ← extractString body (lit "sender_hash")
  let payload ← extractString body (lit "payload")
  let ttl ← extractInt body (lit "ttl") 0
  return { id, messageId, chatId, senderHash, payload, ttl }

/-- The loop of `json_build::fragments_array`. -/
def fragmentsLoop (frags : List (Fragment Bytes)) (i : Nat) (out : Bytes) : Checked Bytes :=
  if i < frags.length then do
    let f ← get frags i
    fragmentsLoop frags (i + 1) (out ++ (if i ≠ 0 then lit "," else []) ++ fragmentToJson f)
  else .ok (out ++ lit "]")
termination_by frags.length - i

/-- `json_build::fragments_array` -/
def fragmentsArray (frags : List (Fragment Bytes)) : Checked Bytes := fragmentsLoop frags 0 (lit "[")

/-- A handler with checked positions. -/
abbrev Handler := Int → Database → HttpRequest → Checked (HttpResponse × Database)

/-- `make_health_handler` -/
def makeHealthHandler (ctx : AppContext) : Handler := fun now db req =>
  .ok (ctx.makeHealthHandler now db req)

/-- `make_post_fragment_handler` -/
def makePostFragmentHandler (ctx : AppContext) : Handler := fun now db req => do
  if !(← isAuthorized req ctx.auth) then return (.unauthorized, db)
  if req.body = [] then return (.badRequest "empty body", db)
  if ctx.maxPayloadBytes < req.body.length then return (.payloadTooLarge, db)
  let f ← readFragment req.body
  let (response, db) := Frag.makePostFragmentHandler db f now
  return (response.toHttp, db)

/-- The cursor of a query. -/
def readSince (req : HttpRequest) : Checked Int :=
  match req.queryParams.get? (lit "since") with
  | none => .ok 0
  | some value => if value = [] then .ok 0 else catching (stoll value) 0

/-- `make_get_fragments_handler` -/
def makeGetFragmentsHandler (ctx : AppContext) : Handler := fun _ db req => do
  if !(← isAuthorized req ctx.auth) then return (.unauthorized, db)
  let chatId := (req.queryParams.get? (lit "chat_id")).getD []
  if chatId = [] then return (.badRequest "missing chat_id query param", db)
  return (.ok (← fragmentsArray (db.getFragments chatId (← readSince req))), db)

/-- `make_get_message_fragments_handler` -/
def makeGetMessageFragmentsHandler (ctx : AppContext) : Handler := fun _ db req => do
  if !(← isAuthorized req ctx.auth) then return (.unauthorized, db)
  let messageId := (req.pathParams.get? (lit "message_id")).getD []
  if messageId = [] then return (.badRequest "missing message_id", db)
  return (.ok (← fragmentsArray (db.getMessageFragments messageId)), db)

/-- `make_delete_fragment_handler` -/
def makeDeleteFragmentHandler (ctx : AppContext) : Handler := fun _ db req => do
  if !(← isAuthorized req ctx.auth) then return (.unauthorized, db)
  let id := (req.pathParams.get? (lit "id")).getD []
  if id = [] then return (.badRequest "missing id", db)
  let (deleted, db) := db.deleteFragment id
  return (if deleted then .noContent else .notFound, db)

theorem readFragment_eq (body : Bytes) : readFragment body = .ok (Frag.readFragment body) := by
  simp only [readFragment, extractString_eq, extractInt_eq, ok_bind]
  rfl

theorem fragmentsLoop_eq (frags : List (Fragment Bytes)) (i : Nat) (out : Bytes) :
    fragmentsLoop frags i out = .ok (out ++ (if i ≠ 0 ∧ i < frags.length then lit "," else []) ++
      (lit ",").intercalate ((frags.drop i).map fragmentToJson) ++ lit "]") := by
  rw [fragmentsLoop]
  split
  · rename_i hlt
    rw [get_of_lt hlt, ok_bind, fragmentsLoop_eq frags (i + 1), List.drop_eq_getElem_cons hlt]
    simp only [hlt, and_true, ne_eq, Nat.succ_ne_zero, not_false_eq_true, true_and, List.map_cons]
    by_cases hmore : i + 1 < frags.length
    · have hne : (frags.drop (i + 1)).map fragmentToJson ≠ [] := by
        rw [ne_eq, List.map_eq_nil_iff, List.drop_eq_nil_iff]
        omega
      rw [if_pos hmore, List.intercalate_cons_of_ne_nil hne]
      simp only [List.append_assoc]
    · rw [if_neg hmore, List.drop_eq_nil_of_le (Nat.not_lt.mp hmore), List.map_nil,
        List.intercalate_singleton, List.intercalate_nil]
      simp only [List.append_assoc, List.append_nil]
  · rename_i hend
    rw [List.drop_eq_nil_of_le (Nat.not_lt.mp hend), if_neg (fun h => hend h.2), List.append_nil,
      List.map_nil, List.intercalate_nil, List.append_nil]
termination_by frags.length - i

theorem fragmentsArray_eq (frags : List (Fragment Bytes)) :
    fragmentsArray frags = .ok (Frag.fragmentsArray frags) := by
  rw [fragmentsArray, fragmentsLoop_eq, if_neg (fun h => h.1 rfl), List.append_nil, List.drop_zero]
  rfl

/-- A missing cursor and one that is no number are read as 0. -/
theorem readSince_eq (req : HttpRequest) : readSince req =
    .ok (((req.queryParams.get? (lit "since")).bind Frag.stoll).getD 0) := by
  unfold readSince
  cases req.queryParams.get? (lit "since") with
  | none => rfl
  | some value =>
    simp only [catching_stoll, Option.bind_some]
    split
    · rename_i hempty
      rw [hempty]
      rfl
    · rfl

section Handlers

variable (ctx : AppContext) (now : Int) (db : Database) (req : HttpRequest)

theorem makePostFragmentHandler_eq :
    makePostFragmentHandler ctx now db req = .ok (ctx.makePostFragmentHandler now db req) := by
  unfold makePostFragmentHandler AppContext.makePostFragmentHandler
  simp only [isAuthorized_eq, readFragment_eq, ok_bind]
  split_ifs <;> rfl

theorem makeGetFragmentsHandler_eq :
    makeGetFragmentsHandler ctx now db req = .ok (ctx.makeGetFragmentsHandler now db req) := by
  unfold makeGetFragmentsHandler AppContext.makeGetFragmentsHandler Frag.makeGetFragmentsHandler
  simp only [isAuthorized_eq, readSince_eq, fragmentsArray_eq, ok_bind]
  split_ifs <;> rfl

theorem makeGetMessageFragmentsHandler_eq : makeGetMessageFragmentsHandler ctx now db req =
    .ok (ctx.makeGetMessageFragmentsHandler now db req) := by
  unfold makeGetMessageFragmentsHandler AppContext.makeGetMessageFragmentsHandler
  simp only [isAuthorized_eq, fragmentsArray_eq, ok_bind]
  split_ifs <;> rfl

theorem makeDeleteFragmentHandler_eq :
    makeDeleteFragmentHandler ctx now db req = .ok (ctx.makeDeleteFragmentHandler now db req) := by
  unfold makeDeleteFragmentHandler AppContext.makeDeleteFragmentHandler
  simp only [isAuthorized_eq, ok_bind]
  split_ifs <;> rfl

end Handlers

/-! ## Routes -/

structure Route where
  method : Bytes
  pattern : Bytes
  handler : Handler

/-- `register_routes` -/
def routes (ctx : AppContext) : List Route :=
  [⟨lit "GET", lit "/health", makeHealthHandler ctx⟩,
    ⟨lit "POST", lit "/api/fragments", makePostFragmentHandler ctx⟩,
    ⟨lit "GET", lit "/api/fragments", makeGetFragmentsHandler ctx⟩,
    ⟨lit "GET", lit "/api/fragments/:message_id/all", makeGetMessageFragmentsHandler ctx⟩,
    ⟨lit "DELETE", lit "/api/fragments/:id", makeDeleteFragmentHandler ctx⟩]

/-- The loop over the routes. -/
def route (now : Int) (db : Database) (req : HttpRequest) :
    List Route → Bool → Checked (HttpResponse × Database)
  | [], methodMatched => .ok (if methodMatched then .methodNotAllowed else .notFound, db)
  | r :: rs, methodMatched => do
    match ← matchPattern r.pattern req.path with
    | none => route now db req rs methodMatched
    | some params =>
      if r.method ≠ lit "*" ∧ r.method ≠ req.method then route now db req rs true
      else r.handler now db { req with pathParams := params }

/-- The route computes by position what the other one computes. -/
structure Route.Computes (r : Route) (r' : Frag.Route) : Prop where
  method : r.method = r'.method
  pattern : r.pattern = r'.pattern
  handler : ∀ now db req, r.handler now db req = .ok (r'.handler now db req)

theorem routes_compute (ctx : AppContext) :
    List.Forall₂ Route.Computes (routes ctx) ctx.routes := by
  refine .cons ⟨rfl, rfl, fun _ _ _ => rfl⟩ (.cons ⟨rfl, rfl, makePostFragmentHandler_eq ctx⟩
    (.cons ⟨rfl, rfl, makeGetFragmentsHandler_eq ctx⟩
      (.cons ⟨rfl, rfl, makeGetMessageFragmentsHandler_eq ctx⟩
        (.cons ⟨rfl, rfl, makeDeleteFragmentHandler_eq ctx⟩ .nil))))

theorem route_eq (now : Int) (db : Database) (req : HttpRequest) {rs : List Route}
    {rs' : List Frag.Route} (h : List.Forall₂ Route.Computes rs rs') (methodMatched : Bool) :
    route now db req rs methodMatched = .ok (HttpServer.route now db req rs' methodMatched) := by
  induction h generalizing methodMatched with
  | nil => rfl
  | @cons r r' rs rs' hr hrs ih =>
    rw [route, HttpServer.route, hr.pattern, hr.method, matchPattern_eq, ok_bind]
    cases Frag.matchPattern r'.pattern req.path with
    | none => exact ih methodMatched
    | some params =>
      simp only
      split
      · exact ih true
      · exact hr.handler now db _

/-! ## Connections -/

/-- What a connection has been sent, and the table. -/
structure Connection where
  sent : List Bytes
  db : Database

/-- `send` of a built response -/
def Connection.send (c : Connection) (raw : Bytes) : Connection := { c with sent := c.sent ++ [raw] }

/-- `HttpServer::handle_connection` -/
def handleConnection (ctx : AppContext) (corsOrigin : Bytes) (allowed : Bool) (now : Int)
    (c : Connection) (segs : List Segment) : Checked Connection := do
  let server := ctx.server corsOrigin
  if !allowed then return c.send (server.buildResponse .tooManyRequests)
  let req ← readAndParse segs
  if req.method = lit "OPTIONS" then return c.send (server.buildResponse .noContent)
  let (resp, db) ← route now c.db req (routes ctx) false
  return { c with db }.send (server.buildResponse resp)

/-- A connection computes by position what it computes. -/
theorem handleConnection_eq (ctx : AppContext) (corsOrigin : Bytes) (allowed : Bool) (now : Int)
    (c : Connection) (segs : List Segment) :
    handleConnection ctx corsOrigin allowed now c segs =
      let result := (ctx.server corsOrigin).handleConnection allowed now c.db segs
      .ok ⟨c.sent ++ [result.1], result.2⟩ := by
  unfold handleConnection HttpServer.handleConnection HttpServer.respond
  simp only [readAndParse_eq, ok_bind, route_eq now c.db _ (routes_compute ctx) false]
  cases allowed with
  | false => rfl
  | true =>
    simp only [Bool.not_true, Bool.false_eq_true, if_false, if_true]
    split <;> rfl

end Checked

/-- **The server survives every byte stream.** Whatever arrives, in whatever segments and
    wherever it is cut off, a connection that passes the rate limit ends with exactly one
    built response: no position on the way is out of range, and nothing that is thrown
    escapes. -/
theorem server_survives (ctx : AppContext) (corsOrigin : Bytes) (now : Int) (db : Database)
    (segs : List Segment) : ∃ resp db',
    (ctx.server corsOrigin).respond now db (readAndParse segs) = (resp, db') ∧
    Checked.handleConnection ctx corsOrigin true now ⟨[], db⟩ segs =
      .ok ⟨[(ctx.server corsOrigin).buildResponse resp], db'⟩ :=
  ⟨_, _, rfl, Checked.handleConnection_eq ctx corsOrigin true now ⟨[], db⟩ segs⟩

end Frag
