import Frag.Backend.Handlers
import Frag.Backend.Http

/-!
# The Server

The handlers of `handlers.cpp` on whole requests, behind the check of the token, and the
routes under which they are registered.

## Main results

- `respond_cases`: a request is handled by a route that accepts it, or rejected;
- `respond_snd_eq_iff`: the requests that change the table.
-/

namespace Frag

/-! ## Tokens -/

structure Auth where
  tokens : List Bytes

/-- `Auth::verify`: the value of an `Authorization` header is `Bearer <token>`, or a token. -/
def Auth.verify (auth : Auth) (headerValue : Bytes) : Bool :=
  if headerValue = [] then false
  else
    let token :=
      if toLower (headerValue.take 7) = lit "bearer " then trim (headerValue.drop 7)
      else headerValue
    auth.tokens.contains token

/-- `is_authorized` -/
def isAuthorized (req : HttpRequest) (auth : Auth) : Bool :=
  match req.headers.get? (lit "authorization") with
  | none => false
  | some value => auth.verify value

/-! ## Handlers -/

/-- What the handlers share. The table is passed to them. -/
structure AppContext where
  auth : Auth
  maxPayloadBytes : Nat
  startTime : Int

/-- The HTTP form of the outcomes of a POST. -/
def PostResponse.toHttp : PostResponse → HttpResponse
  | .created id => .created (lit "\x7b\"ok\":true,\"id\":\"" ++ jsonEscape id ++ lit "\"\x7d")
  | .duplicate => .ok (lit "\x7b\"ok\":true,\"duplicate\":true\x7d")
  | .badRequest error => .badRequest error

namespace AppContext

/-- `make_health_handler` -/
def makeHealthHandler (ctx : AppContext) (now : Int) (db : Database) (_ : HttpRequest) :
    HttpResponse × Database :=
  (.ok (lit "\x7b\"status\":\"ok\",\"version\":\"1.0.0\",\"uptime_sec\":" ++
    showInt (now - ctx.startTime) ++ lit ",\"fragment_count\":" ++ showInt db.getFragmentCount ++
    lit "\x7d"), db)

/-- `make_post_fragment_handler` -/
def makePostFragmentHandler (ctx : AppContext) (now : Int) (db : Database) (req : HttpRequest) :
    HttpResponse × Database :=
  if !isAuthorized req ctx.auth then (.unauthorized, db)
  else if req.body = [] then (.badRequest "empty body", db)
  else if ctx.maxPayloadBytes < req.body.length then (.payloadTooLarge, db)
  else
    let (response, db) := Frag.makePostFragmentHandler db (readFragment req.body) now
    (response.toHttp, db)

/-- `make_get_fragments_handler` -/
def makeGetFragmentsHandler (ctx : AppContext) (_now : Int) (db : Database) (req : HttpRequest) :
    HttpResponse × Database :=
  if !isAuthorized req ctx.auth then (.unauthorized, db)
  else
    let chatId := (req.queryParams.get? (lit "chat_id")).getD []
    let since := ((req.queryParams.get? (lit "since")).bind stoll).getD 0
    match Frag.makeGetFragmentsHandler db chatId since with
    | none => (.badRequest "missing chat_id query param", db)
    | some frags => (.ok (fragmentsArray frags), db)

/-- `make_get_message_fragments_handler` -/
def makeGetMessageFragmentsHandler (ctx : AppContext) (_now : Int) (db : Database)
    (req : HttpRequest) : HttpResponse × Database :=
  if !isAuthorized req ctx.auth then (.unauthorized, db)
  else
    let messageId := (req.pathParams.get? (lit "message_id")).getD []
    if messageId = [] then (.badRequest "missing message_id", db)
    else (.ok (fragmentsArray (db.getMessageFragments messageId)), db)

/-- `make_delete_fragment_handler` -/
def makeDeleteFragmentHandler (ctx : AppContext) (_now : Int) (db : Database) (req : HttpRequest) :
    HttpResponse × Database :=
  if !isAuthorized req ctx.auth then (.unauthorized, db)
  else
    let id := (req.pathParams.get? (lit "id")).getD []
    if id = [] then (.badRequest "missing id", db)
    else
      let (deleted, db) := db.deleteFragment id
      (if deleted then .noContent else .notFound, db)

/-- `register_routes` -/
def routes (ctx : AppContext) : List Route :=
  [⟨lit "GET", lit "/health", ctx.makeHealthHandler⟩,
    ⟨lit "POST", lit "/api/fragments", ctx.makePostFragmentHandler⟩,
    ⟨lit "GET", lit "/api/fragments", ctx.makeGetFragmentsHandler⟩,
    ⟨lit "GET", lit "/api/fragments/:message_id/all", ctx.makeGetMessageFragmentsHandler⟩,
    ⟨lit "DELETE", lit "/api/fragments/:id", ctx.makeDeleteFragmentHandler⟩]

/-- The server that `main` starts. -/
def server (ctx : AppContext) (corsOrigin : Bytes) : HttpServer := ⟨corsOrigin, ctx.routes⟩

end AppContext

/-! ## The route of a request -/

/-- The route handles requests with this method and path. -/
def Route.accepts (r : Route) (req : HttpRequest) : Bool :=
  (matchPattern r.pattern req.path).isSome && (r.method = lit "*" || r.method = req.method)

/-- What a route makes of a request that it accepts. -/
def Route.handle (r : Route) (now : Int) (db : Database) (req : HttpRequest) :
    HttpResponse × Database :=
  r.handler now db { req with pathParams := (matchPattern r.pattern req.path).getD .empty }

/-- The first route that accepts a request handles it; without one the table stays. -/
theorem HttpServer.route_eq (now : Int) (req : HttpRequest) (rs : List Route)
    (methodMatched : Bool) :
    ∃ error, ∀ db, HttpServer.route now db req rs methodMatched =
      match rs.find? fun r => r.accepts req with
      | some r => r.handle now db req
      | none => (error, db) := by
  induction rs generalizing methodMatched with
  -- The error depends on whether the path of an earlier route matched.
  | nil => exact ⟨if methodMatched then .methodNotAllowed else .notFound, fun _ => rfl⟩
  | cons r rs ih =>
    simp only [HttpServer.route, List.find?_cons]
    cases hmatch : matchPattern r.pattern req.path with
    | none =>
      have hrefuse : r.accepts req = false := by simp [Route.accepts, hmatch]
      simp only [hrefuse]
      exact ih methodMatched
    | some params =>
      by_cases hmethod : r.method ≠ lit "*" ∧ r.method ≠ req.method
      · have hrefuse : r.accepts req = false := by simp [Route.accepts, hmethod]
        simp only [hrefuse, if_pos hmethod]
        exact ih true
      · have haccept : r.accepts req = true := by
          rw [not_and_or, not_not, not_not] at hmethod
          simpa [Route.accepts, hmatch] using hmethod
        simp only [haccept, if_neg hmethod, Route.handle, hmatch, Option.getD_some]
        exact ⟨.notFound, fun _ => trivial⟩

namespace AppContext

variable {ctx : AppContext} {corsOrigin : Bytes} {now : Int} {db : Database} {req : HttpRequest}

/-- **What the server does with a request**: nothing, or what a route that accepts it does. -/
theorem respond_cases (ctx : AppContext) (corsOrigin : Bytes) (now : Int) (req : HttpRequest) :
    ((∀ r ∈ ctx.routes, r.accepts req = false) ∧
      ∃ error, ∀ db, (ctx.server corsOrigin).respond now db req = (error, db)) ∨
    ∃ r ∈ ctx.routes, r.accepts req = true ∧
      ∀ db, (ctx.server corsOrigin).respond now db req = r.handle now db req := by
  by_cases hoptions : req.method = lit "OPTIONS"
  · -- No route is registered for the method.
    refine .inl ⟨fun r hr => ?_, .noContent, fun db => if_pos hoptions⟩
    have hmethods : ∀ m ∈ ctx.routes.map Route.method, m ≠ lit "*" ∧ m ≠ lit "OPTIONS" := by
      simp only [routes, List.map_cons, List.map_nil]
      decide
    have hmethod := hmethods r.method (List.mem_map_of_mem hr)
    simp [Route.accepts, hoptions, hmethod]
  · obtain ⟨error, heq⟩ := HttpServer.route_eq now req ctx.routes false
    have hrespond : ∀ db, (ctx.server corsOrigin).respond now db req =
        HttpServer.route now db req ctx.routes false := fun db => if_neg hoptions
    cases hfind : ctx.routes.find? fun r => r.accepts req with
    | none =>
      refine .inl ⟨fun r hr => ?_, error, fun db => ?_⟩
      · simpa using List.find?_eq_none.mp hfind r hr
      · rw [hrespond, heq, hfind]
    | some r =>
      have haccept : r.accepts req = true := by simpa using List.find?_some hfind
      refine .inr ⟨r, List.mem_of_find?_eq_some hfind, haccept, fun db => ?_⟩
      rw [hrespond, heq, hfind]

/-! ## Requests that change the table -/

/-- An authorised POST within the size limit, with all texts and an id that is free. -/
structure Stores (ctx : AppContext) (db : Database) (req : HttpRequest) : Prop where
  method : req.method = lit "POST"
  path : (matchPattern (lit "/api/fragments") req.path).isSome
  authorized : isAuthorized req ctx.auth
  within : req.body.length ≤ ctx.maxPayloadBytes
  complete : missingMember (readFragment req.body) = none
  free : cStr (readFragment req.body).id ∉ db.rows.map Fragment.id

/-- An authorised DELETE of a stored id. -/
structure Removes (ctx : AppContext) (db : Database) (req : HttpRequest) : Prop where
  method : req.method = lit "DELETE"
  authorized : isAuthorized req ctx.auth
  stored : ∃ params id, matchPattern (lit "/api/fragments/:id") req.path = some params ∧
    params.get? (lit "id") = some id ∧ id ≠ [] ∧ cStr id ∈ db.rows.map Fragment.id

/-- A POST leaves the table as it is, unless it is complete and its id is free. -/
theorem makePostFragmentHandler_snd_eq_iff :
    (ctx.makePostFragmentHandler now db req).2 = db ↔
      ¬ (isAuthorized req ctx.auth ∧ req.body.length ≤ ctx.maxPayloadBytes ∧
        missingMember (readFragment req.body) = none ∧
        cStr (readFragment req.body).id ∉ db.rows.map Fragment.id) := by
  -- The checks of the handler one after the other: token, empty body, limit, members.
  unfold makePostFragmentHandler
  split
  · rename_i hauth
    simp_all
  split
  · rename_i hempty
    rw [hempty]
    simp only [true_iff]
    rintro ⟨-, -, hcomplete, -⟩
    exact absurd hcomplete (by decide)
  split
  · rename_i hlarge
    simp only [true_iff]
    rintro ⟨-, hwithin, -⟩
    omega
  · rename_i hauth hne hwithin
    cases hmissing : missingMember (readFragment req.body) with
    | some error => simp [Frag.makePostFragmentHandler, hmissing]
    | none =>
      simp only [Frag.makePostFragmentHandler, hmissing]
      rw [Database.insertFragment_snd_eq_iff]
      simp_all [FragmentPost.stamped]

/-- A DELETE leaves the table as it is, unless it names a stored id. -/
theorem makeDeleteFragmentHandler_snd_eq_iff (now : Int) :
    (ctx.makeDeleteFragmentHandler now db req).2 = db ↔
      ¬ (isAuthorized req ctx.auth ∧ ∃ id, req.pathParams.get? (lit "id") = some id ∧
        id ≠ [] ∧ cStr id ∈ db.rows.map Fragment.id) := by
  -- The token is checked first, then the path parameter.
  unfold makeDeleteFragmentHandler
  split
  · rename_i hauth
    simp_all
  · rename_i hauth
    cases hid : req.pathParams.get? (lit "id") with
    | none => simp
    | some id =>
      by_cases hne : id = []
      · simp [hne]
      · simp only [Option.getD_some, if_neg hne, Database.deleteFragment_snd_eq_iff]
        simp_all

theorem makeGetFragmentsHandler_snd (ctx : AppContext) (now : Int) (db : Database)
    (req : HttpRequest) : (ctx.makeGetFragmentsHandler now db req).2 = db := by
  unfold makeGetFragmentsHandler
  split
  · rfl
  · simp only
    split <;> rfl

theorem makeGetMessageFragmentsHandler_snd (ctx : AppContext) (now : Int) (db : Database)
    (req : HttpRequest) : (ctx.makeGetMessageFragmentsHandler now db req).2 = db := by
  unfold makeGetMessageFragmentsHandler
  split
  · rfl
  · simp only
    split <;> rfl

/-- A registered route accepts the requests with its method whose path it matches. -/
theorem accepts_iff {r : Route} (hr : r ∈ ctx.routes) :
    r.accepts req = true ↔ (matchPattern r.pattern req.path).isSome ∧ r.method = req.method := by
  have hmethods : ∀ m ∈ ctx.routes.map Route.method, m ≠ lit "*" := by
    simp only [routes, List.map_cons, List.map_nil]
    decide
  have hmethod := hmethods r.method (List.mem_map_of_mem hr)
  simp [Route.accepts, hmethod]

/-- **What changes the table**: POSTs of new fragments, DELETEs of stored ones, and nothing
    else. -/
theorem respond_snd_eq_iff :
    ((ctx.server corsOrigin).respond now db req).2 = db ↔
      ¬ ctx.Stores db req ∧ ¬ ctx.Removes db req := by
  have hpost : lit "GET" ≠ lit "POST" := by decide
  have hdelete : lit "GET" ≠ lit "DELETE" := by decide
  have hboth : lit "POST" ≠ lit "DELETE" := by decide
  rcases respond_cases ctx corsOrigin now req with
    ⟨hrefuse, error, heq⟩ | ⟨r, hr, haccept, heq⟩
  · -- No route accepts the request, and those of POST and DELETE would.
    rw [heq]
    refine iff_of_true rfl ⟨fun hstores => ?_, fun hremoves => ?_⟩
    · have hmem : (⟨lit "POST", lit "/api/fragments", ctx.makePostFragmentHandler⟩ : Route) ∈
          ctx.routes := by simp [routes]
      exact absurd ((accepts_iff hmem).mpr ⟨hstores.path, hstores.method.symm⟩)
        (by simp [hrefuse _ hmem])
    · obtain ⟨params, id, hmatch, -⟩ := hremoves.stored
      have hmem : (⟨lit "DELETE", lit "/api/fragments/:id", ctx.makeDeleteFragmentHandler⟩ : Route) ∈
          ctx.routes := by simp [routes]
      exact absurd ((accepts_iff hmem).mpr ⟨by simp [hmatch], hremoves.method.symm⟩)
        (by simp [hrefuse _ hmem])
  · rw [heq]
    obtain ⟨hmatch, hmethod⟩ := (accepts_iff hr).mp haccept
    have hread : r.method = lit "GET" → ¬ ctx.Stores db req ∧ ¬ ctx.Removes db req := fun hg =>
      ⟨fun h => hpost (hg.symm.trans (hmethod.trans h.method)),
        fun h => hdelete (hg.symm.trans (hmethod.trans h.method))⟩
    simp only [routes, List.mem_cons, List.not_mem_nil, or_false] at hr
    -- The routes in the order of their registration; three of them only read.
    rcases hr with rfl | rfl | rfl | rfl | rfl
    · exact iff_of_true rfl (hread rfl)
    · have hnot : ¬ ctx.Removes db req := fun h => hboth (hmethod.trans h.method)
      refine makePostFragmentHandler_snd_eq_iff.trans ?_
      rw [and_iff_left hnot, not_iff_not]
      exact ⟨fun ⟨hauth, hwithin, hcomplete, hfree⟩ =>
          ⟨hmethod.symm, hmatch, hauth, hwithin, hcomplete, hfree⟩,
        fun h => ⟨h.authorized, h.within, h.complete, h.free⟩⟩
    · exact iff_of_true (makeGetFragmentsHandler_snd ctx now db _) (hread rfl)
    · exact iff_of_true (makeGetMessageFragmentsHandler_snd ctx now db _) (hread rfl)
    · have hnot : ¬ ctx.Stores db req := fun h => hboth (h.method.symm.trans hmethod.symm)
      obtain ⟨params, hparams⟩ := Option.isSome_iff_exists.mp hmatch
      refine (makeDeleteFragmentHandler_snd_eq_iff now).trans ?_
      rw [and_iff_right hnot, not_iff_not, hparams, Option.getD_some]
      constructor
      · rintro ⟨hauth, id, hid, hne, hstored⟩
        exact ⟨hmethod.symm, hauth, params, id, hparams, hid, hne, hstored⟩
      · rintro ⟨-, hauth, params', id, hparams', hid, hne, hstored⟩
        obtain rfl := Option.some.inj (hparams.symm.trans hparams')
        exact ⟨hauth, id, hid, hne, hstored⟩

end AppContext

/-! ## A server to look at -/

namespace Sample

/-- A server with one token. -/
def context : AppContext := ⟨⟨[lit "secret"]⟩, 65536, 0⟩

/-- A request with a token and a body. -/
def request (method path token : String) (body : Bytes) : HttpRequest :=
  { HttpRequest.blank with
    method := lit method, path := lit path, body
    headers := OrderedMap.empty.set (lit "authorization") (lit token) }

/-- The body of a POST to the chat `c`. -/
def body (id payload : String) : Bytes :=
  lit "\x7b\"id\":\"" ++ lit id ++ lit "\",\"message_id\":\"m\",\"chat_id\":\"c\"," ++
    lit "\"sender_hash\":\"s\",\"payload\":\"" ++ lit payload ++ lit "\",\"ttl\":0\x7d"

/-- A POST with a token. -/
def post (id payload : String) : HttpRequest :=
  request "POST" "/api/fragments" "Bearer secret" (body id payload)

end Sample

end Frag
