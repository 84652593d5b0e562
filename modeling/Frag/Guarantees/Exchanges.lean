import Frag.Guarantees.Answers
import Frag.Guarantees.Querying
import Frag.Guarantees.Scanning
import Frag.System.Wire

/-!
# Exchanges

The two requests of the program, from the bytes that the client writes to the table of the
backend and back to what the client parses, whatever the environment chooses of the connection.

## Main results

- `Exchange.Carries.respond_post`: the handler gets the fragment that was posted, if the POST
  is let through;
- `Exchange.Carries.answer_get`: the client gets the fragments that the handler selects, if the
  answer comes back.
-/

namespace Frag

open Unicode
open JsonText (Data)
open Http (Field IsValue headerSection)

/-! ## Tokens -/

/-- The token decides. -/
theorem Exchange.Carries.isAuthorized {x : Exchange} {token : JsString} {bytes body : Bytes}
    (hx : x.Carries token bytes body) {req : HttpRequest} (hreq : req.headers = headersOf x.fields) (auth : Auth) :
    isAuthorized req auth = Exchange.verified auth token := by
  -- Some field has the name, so there is a last one.
  obtain ⟨f, hf, hname⟩ := hx.authorized
  have hsome : (x.fields.reverse.find? fun f => toLower f.name = lit "authorization").isSome := by
    rw [List.find?_isSome]
    exact ⟨f, List.mem_reverse.mpr hf, decide_eq_true hname⟩
  obtain ⟨g, hg⟩ := Option.isSome_iff_exists.mp hsome
  have hlast : toLower g.name = lit "authorization" := by simpa using List.find?_some hg
  have hvalue := hx.token g (List.mem_reverse.mp (List.mem_of_find?_eq_some hg)) hlast
  rw [Frag.isAuthorized, hreq, get?_headersOf, hg, Exchange.verified, hvalue]
  rfl

/-! ## Routes -/

section Routes

variable {ctx : AppContext} {corsOrigin : Bytes} {now : Int} {db : Database} {req : HttpRequest}

private theorem matchPattern_fragments : matchPattern (lit "/health") (lit "/api/fragments") = none ∧
    matchPattern (lit "/api/fragments") (lit "/api/fragments") = some .empty := ⟨rfl, rfl⟩

theorem respond_post (hmethod : req.method = lit "POST") (hpath : req.path = lit "/api/fragments") :
    (ctx.server corsOrigin).respond now db req =
      ctx.makePostFragmentHandler now db { req with pathParams := .empty } := by
  obtain ⟨hhealth, hfragments⟩ := matchPattern_fragments
  have hoptions : ¬ lit "POST" = lit "OPTIONS" := by decide
  simp only [HttpServer.respond, hmethod, if_neg hoptions, AppContext.server, AppContext.routes,
    HttpServer.route, hpath, hhealth, hfragments]
  rfl

theorem respond_get_fragments (hmethod : req.method = lit "GET") (hpath : req.path = lit "/api/fragments") :
    (ctx.server corsOrigin).respond now db req =
      ctx.makeGetFragmentsHandler now db { req with pathParams := .empty } := by
  obtain ⟨hhealth, hfragments⟩ := matchPattern_fragments
  have hoptions : ¬ lit "GET" = lit "OPTIONS" := by decide
  simp only [HttpServer.respond, hmethod, if_neg hoptions, AppContext.server, AppContext.routes,
    HttpServer.route, hpath, hhealth, hfragments]
  rfl

end Routes

/-! ## POST -/

section Post

variable {ctx : AppContext} {corsOrigin : Bytes} {x : Exchange} {token : JsString}
  {fragment : FragmentPost JsString}

theorem requestBody_ne_nil (p : FragmentPost JsString) : requestBody p ≠ [] := by
  rw [requestBody, stringify, toWire_js (by decide)]
  exact List.cons_ne_nil _ _

theorem postFragment_eq (headers : Bytes) (fragment : FragmentPost JsString) :
    postFragment headers fragment =
      httpRequest (lit "POST") (lit "/api/fragments") (headers ++ requestBody fragment) := by
  have htarget : requestTarget [lit "api", lit "fragments"] = lit "/api/fragments" := by decide
  rw [postFragment, htarget]

/-- The request that the backend reads. -/
theorem Exchange.Carries.readAndParse_post
    (hx : x.Carries token (postFragment (headerSection x.fields) fragment) (requestBody fragment)) :
    readAndParse x.segs =
      { method := lit "POST", path := lit "/api/fragments", headers := headersOf x.fields,
        queryParams := .empty, pathParams := .empty, body := requestBody fragment } := by
  have hmethod : 0x20 ∉ lit "POST" ∧ 0x0D ∉ lit "POST" := by decide
  have htarget : 0x20 ∉ lit "/api/fragments" ∧ 0x0D ∉ lit "/api/fragments" := by decide
  have hparse : parseTarget (lit "/api/fragments") = (lit "/api/fragments", .empty) := rfl
  have hwithin := hx.within
  have hcut := hx.cut
  rw [postFragment_eq] at hwithin hcut
  rw [readAndParse_httpRequest hmethod htarget hx.announced hwithin hcut,
    requestOf_fields hmethod htarget, hparse]

/-- The checks before the table: a POST passes them, or is refused with an error. -/
theorem AppContext.makePostFragmentHandler_cases (ctx : AppContext) (now : Int) (db : Database)
    {req : HttpRequest} (hne : req.body ≠ []) :
    ((isAuthorized req ctx.auth = true ∧ req.body.length ≤ ctx.maxPayloadBytes) ∧
        ctx.makePostFragmentHandler now db req =
          ((Frag.makePostFragmentHandler db (readFragment req.body) now).1.toHttp,
            (Frag.makePostFragmentHandler db (readFragment req.body) now).2)) ∨
      (¬ (isAuthorized req ctx.auth = true ∧ req.body.length ≤ ctx.maxPayloadBytes) ∧
        ∃ error, 400 ≤ error.statusCode ∧ ctx.makePostFragmentHandler now db req = (error, db)) := by
  unfold AppContext.makePostFragmentHandler
  rw [if_neg hne]
  split
  · rename_i hauth
    refine .inr ⟨fun h => ?_, _, ?_, rfl⟩
    · rw [h.1] at hauth
      cases hauth
    · exact Nat.le_add_left _ _
  · rename_i hauth
    rw [Bool.not_eq_true', Bool.not_eq_false] at hauth
    split
    · rename_i hlarge
      refine .inr ⟨fun h => Nat.not_le.mpr hlarge h.2, _, ?_, rfl⟩
      exact Nat.le_add_left _ _
    · rename_i hwithin
      exact .inl ⟨⟨hauth, Nat.not_lt.mp hwithin⟩, rfl⟩

/-- The client sees the outcome of a POST by its status. -/
theorem PostResponse.statusCode_toHttp (r : PostResponse) : r.toHttp.statusCode ≤ 299 ↔ r.ok = true := by
  cases r with
  | created id => exact iff_of_true (by show 201 ≤ 299; decide) rfl
  | duplicate => exact iff_of_true (by decide) rfl
  | badRequest error => exact iff_of_false (by show ¬ 400 ≤ 299; decide) Bool.false_ne_true

variable (ctx) in
/-- **A POST, from the bytes to the table**: the handler runs on the fragment that was posted, or the
    POST is refused. -/
theorem Exchange.Carries.respond_post
    (hx : x.Carries token (postFragment (headerSection x.fields) fragment) (requestBody fragment))
    (hread : readFragment (requestBody fragment) = fragment.map toWire) (corsOrigin : Bytes) (db : Database) :
    let server := ctx.server corsOrigin
    let response := Frag.makePostFragmentHandler db (fragment.map toWire) x.now
    ((server.replyTo x.allowed x.now db x.segs).statusCode ≤ 299 ↔
        x.admits ctx token fragment = true ∧ response.1.ok = true) ∧
      (server.handleConnection x.allowed x.now db x.segs).2 =
        if x.admits ctx token fragment then response.2 else db := by
  intro server response
  have hrequest := hx.readAndParse_post
  have hadmits : x.admits ctx token fragment = true ↔ x.allowed = true ∧
      Exchange.verified ctx.auth token = true ∧ (requestBody fragment).length ≤ ctx.maxPayloadBytes := by
    rw [Exchange.admits, Bool.and_eq_true, Bool.and_eq_true, decide_eq_true_eq, and_assoc]
  by_cases hallowed : x.allowed = true
  · have hbody : (readAndParse x.segs).body = requestBody fragment := by rw [hrequest]
    have hrespond : server.respond x.now db (readAndParse x.segs) =
        ctx.makePostFragmentHandler x.now db { readAndParse x.segs with pathParams := .empty } :=
      Frag.respond_post (by rw [hrequest]) (by rw [hrequest])
    have hreply : server.replyTo x.allowed x.now db x.segs = (server.respond x.now db (readAndParse x.segs)).1 :=
      if_pos hallowed
    have hdb : (server.handleConnection x.allowed x.now db x.segs).2 =
        (server.respond x.now db (readAndParse x.segs)).2 := by
      rw [HttpServer.handleConnection, if_pos hallowed]
    rw [hreply, hdb, hrespond]
    have hne : HttpRequest.body { readAndParse x.segs with pathParams := .empty } ≠ [] :=
      hbody ▸ requestBody_ne_nil fragment
    rcases ctx.makePostFragmentHandler_cases x.now db hne with
      ⟨hpass, heq⟩ | ⟨hfail, error, hstatus, heq⟩
    -- The fragment is handled.
    · rw [hx.isAuthorized (by rw [hrequest]), hbody] at hpass
      have htrue := hadmits.mpr ⟨hallowed, hpass⟩
      rw [heq, hbody, hread, if_pos htrue, and_iff_right htrue]
      exact ⟨PostResponse.statusCode_toHttp _, rfl⟩
    -- The token or the size is refused, and the table stays.
    · rw [hx.isAuthorized (by rw [hrequest]), hbody] at hfail
      have hfalse : ¬ x.admits ctx token fragment = true := fun h => hfail (hadmits.mp h).2
      rw [heq, if_neg hfalse]
      have hlarge : ¬ error.statusCode ≤ 299 := by omega
      exact ⟨iff_of_false hlarge fun h => hfalse h.1, rfl⟩
  · have hfalse : ¬ x.admits ctx token fragment = true := fun h => hallowed (hadmits.mp h).1
    rw [HttpServer.replyTo, HttpServer.handleConnection, if_neg hallowed, if_neg hallowed, if_neg hfalse]
    exact ⟨iff_of_false (by decide) fun h => hfalse h.1, rfl⟩

end Post

/-! ## GET -/

section Get

variable {ctx : AppContext} {corsOrigin : Bytes} {x : Exchange} {token chatId : JsString} {since : Nat}
  {bytes : Bytes}

/-- The request that the backend reads. -/
theorem Exchange.Carries.queried (hx : x.Carries token bytes [])
    (hget : getFragments (headerSection x.fields) chatId since = some bytes) :
    isWellFormed chatId = true ∧ Queried (readAndParse x.segs) (toWire chatId) since ∧
      (readAndParse x.segs).headers = headersOf x.fields := by
  obtain ⟨name, hname, rfl⟩ := Option.map_eq_some_iff.mp hget
  have hformed : isWellFormed chatId = true := by
    by_contra hnot
    rw [encodeURIComponent, if_neg hnot] at hname
    cases hname
  rw [encodeURIComponent, if_pos hformed, Option.some.injEq] at hname
  subst hname
  have hpath : requestTarget [lit "api", lit "fragments"] = lit "/api/fragments" := by decide
  have hwithin := hx.within
  have hcut := hx.cut
  rw [hpath, sentQuery_fragmentsQuery] at hwithin hcut
  -- The target has none of the separators of the request line.
  have hkeep : ∀ c ∈ [0x20, 0x0D, 0x25, 0x26, 0x2B], (isUnescaped c && c != 0x27) = false := by decide +kernel
  have htarget : ∀ c ∈ [0x20, 0x0D], c ∉ lit "/api/fragments" ++ 0x3F ::
      fragmentsQuery (Url.percentEncode (fun c => isUnescaped c && c != 0x27) (toWire chatId)) since := by
    intro c hc
    have hclass : c ∈ [0x20, 0x0D, 0x25, 0x26, 0x2B] ∧ c ≠ 0x25 ∧ ¬ (0x30 ≤ c ∧ c ≤ 0x39) ∧
        ¬ (0x41 ≤ c ∧ c ≤ 0x46) ∧ c ≠ 0x3F ∧
          c ∉ lit "/api/fragments" ∧ c ∉ lit "chat_id=" ∧ c ∉ lit "&since=" := by
      simp only [List.mem_cons, List.not_mem_nil, or_false] at hc
      rcases hc with rfl | rfl <;> decide
    obtain ⟨hlisted, hpercent, hdigit, hupper, hmark, hliteral, hkey, hkey'⟩ := hclass
    simp only [fragmentsQuery, List.mem_append, List.mem_cons, not_or]
    exact ⟨hliteral, hmark, ⟨⟨hkey, Url.notMem_percentEncode (hkeep c hlisted) hpercent hdigit hupper _⟩,
      hkey'⟩, notMem_digits since c hlisted⟩
  have hmethod : 0x20 ∉ lit "GET" ∧ 0x0D ∉ lit "GET" := by decide
  have hspace := htarget 0x20 (by decide)
  have hreturn := htarget 0x0D (by decide)
  have hfields := @requestOf_fields _ _ [] x.fields hmethod ⟨hspace, hreturn⟩
  have hread := readAndParse_httpRequest hmethod ⟨hspace, hreturn⟩ hx.announced
    (by rwa [List.append_nil]) (by rwa [List.append_nil])
  refine ⟨hformed, ?_, by rw [hread, hfields]⟩
  rw [hread, List.append_nil]
  exact queried_of_encoded hkeep (toWire chatId) (headerSection x.fields) since

/-- Rows whose numbers are doubles. -/
def Database.Safe (db : Database) : Prop :=
  ∀ r ∈ db.rows, World.SafeNat r.timestamp ∧ World.SafeNat r.ttl

/-- An error of the API is a rejected request. -/
theorem answerOf_error {r : HttpResponse} (h : r.Api) (hstatus : 300 ≤ r.statusCode) :
    answerOf (request (.response r.statusCode (some r.body))) = none := by
  have hunderstood := understood_of_api h
  rw [Understood, if_neg (by omega), if_neg (by omega)] at hunderstood
  obtain ⟨msg, -, heq⟩ := hunderstood
  rw [heq]
  rfl

/-- The array of the server is the array of the client. -/
theorem answerOf_fragmentsArray {db : Database} (hdb : db.Safe) {l : List (Fragment Bytes)}
    (hl : ∀ f ∈ l, ∃ r ∈ db.rows, f = r.map CString.bytes) :
    answerOf (request (.response 200 (some (fragmentsArray l)))) = some (l.map fun f => f.map fromWire) := by
  have hsafe : ∀ f ∈ l.map fun f => f.map fromWire, |f.timestamp| < 2 ^ 53 ∧ |f.ttl| < 2 ^ 53 := by
    intro f hf
    obtain ⟨g, hg, rfl⟩ := List.mem_map.mp hf
    obtain ⟨r, hr, rfl⟩ := hl g hg
    obtain ⟨⟨hlow, hhigh⟩, hlow', hhigh'⟩ := hdb r hr
    simp only [Fragment.timestamp_map, Fragment.ttl_map, abs_of_nonneg hlow, abs_of_nonneg hlow']
    omega
  -- Stored numbers are doubles, and come back as themselves.
  have hvalue := value_fragments hsafe
  have hparse : jsonParse (textDecode (fragmentsArray l)) =
      some (.array ((l.map fun f => f.map fromWire).map Fragment.toJs)) := by
    rw [textDecode_fragmentsArray, jsonParse_escaped, ← hvalue, List.map_map]
    rfl
  have hok : request (.response 200 (some (fragmentsArray l))) =
      .ok (.array ((l.map fun f => f.map fromWire).map Fragment.toJs)) := by
    rw [request]
    simp only [Option.map_some, hparse, Option.getD_some]
    rfl
  rw [hok, answerOf, fragments?_toJs]

/-- What the handler answers to a poll. -/
theorem Queried.makeGetFragmentsHandler_eq {req : HttpRequest} {chatId : Bytes} {since : Nat}
    (h : Queried req chatId since) (hsince : since < 2 ^ 63) (ctx : AppContext) (now : Int) (db : Database)
    (hauth : isAuthorized req ctx.auth = true) : ctx.makeGetFragmentsHandler now db req =
      match Frag.makeGetFragmentsHandler db chatId since with
      | none => (.badRequest "missing chat_id query param", db)
      | some frags => (.ok (fragmentsArray frags), db) := by
  by_cases hne : chatId = []
  · subst hne
    have hchat : req.queryParams.get? (lit "chat_id") = some [] := by
      rw [h.queryParams, OrderedMap.get?_set, if_neg (by decide), OrderedMap.get?_set_self]
    simp only [AppContext.makeGetFragmentsHandler, hauth, hchat, Option.getD_some, Frag.makeGetFragmentsHandler]
    rfl
  · rw [h.answered hsince hne ctx now db hauth, Frag.makeGetFragmentsHandler, if_neg hne]

/-- What the backend responds to a GET. -/
theorem Exchange.Carries.replyTo_get (hx : x.Carries token bytes [])
    (hget : getFragments (headerSection x.fields) chatId since = some bytes) (hsince : since < 2 ^ 63)
    (corsOrigin : Bytes) (db : Database) :
    ((x.allowed = true ∧ Exchange.verified ctx.auth token = true) ∧
        (ctx.server corsOrigin).replyTo x.allowed x.now db x.segs =
          match Frag.makeGetFragmentsHandler db (toWire chatId) since with
          | none => .badRequest "missing chat_id query param"
          | some frags => .ok (fragmentsArray frags)) ∨
      (¬ (x.allowed = true ∧ Exchange.verified ctx.auth token = true) ∧
        300 ≤ ((ctx.server corsOrigin).replyTo x.allowed x.now db x.segs).statusCode) := by
  obtain ⟨-, hqueried, hheaders⟩ := hx.queried hget
  by_cases hallowed : x.allowed = true
  · have hreply : (ctx.server corsOrigin).replyTo x.allowed x.now db x.segs =
        (ctx.makeGetFragmentsHandler x.now db { readAndParse x.segs with pathParams := .empty }).1 := by
      rw [HttpServer.replyTo, if_pos hallowed, respond_get_fragments hqueried.method hqueried.path]
    have hauth := @Exchange.Carries.isAuthorized _ _ _ _ hx { readAndParse x.segs with pathParams := .empty } hheaders
      ctx.auth
    rw [hreply]
    by_cases hverified : Exchange.verified ctx.auth token = true
    · have hsame : Queried { readAndParse x.segs with pathParams := .empty } (toWire chatId) since :=
        Queried.of_params hqueried.method hqueried.path hqueried.queryParams
      rw [hsame.makeGetFragmentsHandler_eq hsince ctx x.now db (hauth.trans hverified)]
      refine .inl ⟨⟨hallowed, hverified⟩, ?_⟩
      split <;> rfl
    · have hrefused : (!Exchange.verified ctx.auth token) = true := by simp [hverified]
      rw [AppContext.makeGetFragmentsHandler, hauth, if_pos hrefused]
      exact .inr ⟨fun h => hverified h.2, (by decide : 300 ≤ HttpResponse.unauthorized.statusCode)⟩
  · rw [HttpServer.replyTo, if_neg hallowed]
    exact .inr ⟨fun h => hallowed h.1, by decide⟩

variable (ctx) in
/-- **A GET, from the bytes to the client**: it gets what the handler selects, or its request fails. -/
theorem Exchange.Carries.answer_get (hx : x.Carries token bytes [])
    (hget : getFragments (headerSection x.fields) chatId since = some bytes) (hsince : since < 2 ^ 63)
    (hcors : IsValue corsOrigin) {db : Database} (hdb : db.Safe) :
    answerOf (request (x.fetched ((ctx.server corsOrigin).handleConnection x.allowed x.now db x.segs).1)) =
      if x.answers ctx token then
        (Frag.makeGetFragmentsHandler db (toWire chatId) since).map fun l => l.map fun f => f.map fromWire
      else none := by
  have hread := read_handleConnection ctx hcors x.allowed x.now db x.segs []
  rw [List.append_nil] at hread
  have hapi := ctx.api_replyTo corsOrigin x.allowed x.now db x.segs
  have hanswers : x.answers ctx token = true ↔
      (x.allowed = true ∧ Exchange.verified ctx.auth token = true) ∧ x.returned = true := by
    rw [Exchange.answers, Bool.and_eq_true, Bool.and_eq_true, and_right_comm]
  by_cases hreturned : x.returned = true
  · have hfetched : x.fetched ((ctx.server corsOrigin).handleConnection x.allowed x.now db x.segs).1 =
        .response ((ctx.server corsOrigin).replyTo x.allowed x.now db x.segs).statusCode
          (some ((ctx.server corsOrigin).replyTo x.allowed x.now db x.segs).body) := by
      rw [Exchange.fetched, Exchange.response, if_pos hreturned, hread]
    rw [hfetched]
    rcases hx.replyTo_get hget hsince corsOrigin db with ⟨hpass, hreply⟩ | ⟨hfail, hstatus⟩
    -- The handler answers; only an empty chat id is an error for it.
    · rw [if_pos (hanswers.mpr ⟨hpass, hreturned⟩)]
      unfold Frag.makeGetFragmentsHandler at hreply ⊢
      by_cases hne : toWire chatId = []
      · rw [if_pos hne] at hreply ⊢
        rw [hreply] at hapi ⊢
        exact answerOf_error hapi (by decide)
      · rw [if_neg hne] at hreply ⊢
        rw [hreply]
        apply answerOf_fragmentsArray hdb
        intro f hf
        obtain ⟨r, hr, -, -, heq⟩ := Database.mem_getFragments.mp hf
        exact ⟨r, hr, heq.symm⟩
    · rw [if_neg fun h => hfail (hanswers.mp h).1]
      exact answerOf_error hapi hstatus
  · rw [Exchange.fetched, Exchange.response, if_neg hreturned, if_neg fun h => hreturned (hanswers.mp h).2]
    rfl

end Get

end Frag
