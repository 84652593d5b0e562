import Frag.Backend.Server
import Frag.Library.Http

/-!
# Replies

What a client reads of the bytes that `build_response` writes. Every connection is answered
with exactly one response: its status is one of the API, its body ends where its
`Content-Length` says, and whatever follows on the connection is no part of it.

## Main results

- `read_buildResponse`: a response of the API is read back;
- `every_reply_is_one_response`: whatever bytes arrive on a connection.
-/

namespace Frag

open Http (Field IsValue)

/-! ## Responses of the API -/

/-- The errors of the API: status, reason and text. -/
def apiErrors : List (Nat × String × String) :=
  ["empty body", "missing id", "missing message_id", "missing chat_id", "missing sender_hash",
      "missing payload", "missing chat_id query param"].map (fun msg => (400, "Bad Request", msg)) ++
    [(401, "Unauthorized", "unauthorized"), (404, "Not Found", "not found"),
      (405, "Method Not Allowed", "method not allowed"), (413, "Payload Too Large", "payload too large"),
      (429, "Too Many Requests", "too many requests")]

/-- The responses of handlers and server. -/
inductive HttpResponse.Api : HttpResponse → Prop where
  | health (uptime count : Int) : Api (ok (lit "\x7b\"status\":\"ok\",\"version\":\"1.0.0\",\"uptime_sec\":" ++
      showInt uptime ++ lit ",\"fragment_count\":" ++ showInt count ++ lit "\x7d"))
  | created (id : Bytes) :
      Api (.created (lit "\x7b\"ok\":true,\"id\":\"" ++ jsonEscape id ++ lit "\"\x7d"))
  | duplicate : Api (ok (lit "\x7b\"ok\":true,\"duplicate\":true\x7d"))
  | fragments (l : List (Fragment Bytes)) : Api (ok (fragmentsArray l))
  | noContent : Api .noContent
  | error (e : Nat × String × String) (known : e ∈ apiErrors) : Api (json e.1 e.2.1 (errorBody e.2.2))

/-- A handler that responds with a known error. -/
theorem HttpResponse.api_error {status : Nat} {reason msg : String} (h : (status, reason, msg) ∈ apiErrors) :
    (json status reason (errorBody msg)).Api :=
  .error (status, reason, msg) h

/-- The checks of the POST handler name a member. -/
theorem api_missingMember {body : FragmentPost Bytes} {msg : String} (h : missingMember body = some msg) :
    (400, "Bad Request", msg) ∈ apiErrors := by
  unfold missingMember at h
  -- The five names in the order in which they are checked.
  split at h
  · cases h
    decide
  split at h
  · cases h
    decide
  split at h
  · cases h
    decide
  split at h
  · cases h
    decide
  split at h
  · cases h
    decide
  · cases h

/-- What all of them have in common. -/
structure HttpResponse.Framed (r : HttpResponse) : Prop where
  status : 200 ≤ r.statusCode ∧ r.statusCode < 500 ∧ r.statusCode ≠ 304
  reason : 0x0D ∉ r.statusText
  contentType : r.contentType = lit "application/json"
  noContent : r.statusCode = 204 → r.body = []

theorem HttpResponse.framed_json {status : Nat} {reason : String} {body : Bytes}
    (hstatus : 200 ≤ status ∧ status < 500 ∧ status ≠ 304) (hreason : 0x0D ∉ lit reason)
    (hempty : status = 204 → body = []) : (json status reason body).Framed :=
  ⟨hstatus, hreason, rfl, hempty⟩

theorem HttpResponse.Api.framed {r : HttpResponse} (h : r.Api) : r.Framed := by
  have herrors : ∀ e ∈ apiErrors, 400 ≤ e.1 ∧ e.1 < 500 ∧ 0x0D ∉ lit e.2.1 := by decide
  cases h with
  | health uptime count => exact framed_json (by decide) (by decide) nofun
  | created id => exact framed_json (by decide) (by decide) nofun
  | duplicate => exact framed_json (by decide) (by decide) nofun
  | fragments l => exact framed_json (by decide) (by decide) nofun
  | noContent => exact framed_json (by decide) (by decide) fun _ => rfl
  | error e known =>
    obtain ⟨hlow, hhigh, hreason⟩ := herrors e known
    exact framed_json (by omega) hreason (by omega)

namespace AppContext

variable (ctx : AppContext) (now : Int) (db : Database) (req : HttpRequest)

theorem api_makePostFragmentHandler : (ctx.makePostFragmentHandler now db req).1.Api := by
  unfold makePostFragmentHandler
  -- The checks of the handler one after the other.
  split
  · exact HttpResponse.api_error (by decide)
  split
  · exact HttpResponse.api_error (by decide)
  split
  · exact HttpResponse.api_error (by decide)
  · show (Frag.makePostFragmentHandler db (readFragment req.body) now).1.toHttp.Api
    unfold Frag.makePostFragmentHandler
    split
    · rename_i msg hmissing
      exact HttpResponse.api_error (api_missingMember hmissing)
    · simp only
      split
      · exact .created _
      · exact .duplicate

/-- The handlers of all routes. -/
theorem api_handler {r : Route} (hr : r ∈ ctx.routes) : (r.handler now db req).1.Api := by
  simp only [routes, List.mem_cons, List.not_mem_nil, or_false] at hr
  -- Each handler checks the token first, and then its parameter.
  rcases hr with rfl | rfl | rfl | rfl | rfl
  · exact .health _ _
  · exact ctx.api_makePostFragmentHandler now db req
  · simp only [makeGetFragmentsHandler]
    split
    · exact HttpResponse.api_error (by decide)
    split
    · exact HttpResponse.api_error (by decide)
    · exact .fragments _
  · simp only [makeGetMessageFragmentsHandler]
    split
    · exact HttpResponse.api_error (by decide)
    split
    · exact HttpResponse.api_error (by decide)
    · exact .fragments _
  · simp only [makeDeleteFragmentHandler]
    split
    · exact HttpResponse.api_error (by decide)
    split
    · exact HttpResponse.api_error (by decide)
    · split
      · exact .noContent
      · exact HttpResponse.api_error (by decide)

theorem api_route (rs : List Route) (hrs : ∀ r ∈ rs, r ∈ ctx.routes) (methodMatched : Bool) :
    (HttpServer.route now db req rs methodMatched).1.Api := by
  induction rs generalizing methodMatched with
  | nil =>
    rw [HttpServer.route]
    split
    · exact HttpResponse.api_error (by decide)
    · exact HttpResponse.api_error (by decide)
  | cons r rs ih =>
    have htail := ih fun r' hr' => hrs r' (List.mem_cons_of_mem _ hr')
    rw [HttpServer.route]
    split
    · exact htail methodMatched
    · split
      · exact htail true
      · exact ctx.api_handler now db _ (hrs r List.mem_cons_self)

theorem api_respond (corsOrigin : Bytes) : ((ctx.server corsOrigin).respond now db req).1.Api := by
  rw [HttpServer.respond]
  split
  · exact HttpResponse.Api.noContent
  · exact ctx.api_route now db req _ (fun _ hr => hr) false

end AppContext

/-! ## Fields -/

/-- A field of a response; the names and all values but two are literals. -/
def literalField (name value : String) (h : lit name ≠ [] ∧ (lit name).all Http.isTokenChar = true ∧
    IsValue (lit value)) : Field :=
  ⟨lit name, lit value, h.1, h.2.1, h.2.2⟩

theorem isValue_digits (n : Nat) : IsValue (Decimal.digits n) := by
  have hother : ∀ c : UInt8, Decimal.isDigit c = false → c ∉ Decimal.digits n := fun c hc hmem => by
    rw [Decimal.isDigit_of_mem_digits hmem] at hc
    cases hc
  have hblank : ∀ c ∈ Decimal.digits n, Http.isBlank c = false := by
    intro c hc
    have hdigit := Decimal.isDigit_iff.mp (Decimal.isDigit_of_mem_digits hc)
    simp only [Http.isBlank, Bool.or_eq_false_iff, beq_eq_false_iff_ne]
    refine ⟨?_, ?_⟩ <;> rintro rfl <;> exact absurd hdigit (by decide)
  exact ⟨hother _ (by decide), hother _ (by decide), fun c hc => hblank c (List.mem_of_mem_head? hc),
    fun c hc => hblank c (List.mem_of_getLast? hc)⟩

def contentLength (value : Bytes) (h : IsValue value) : Field :=
  ⟨lit "Content-Length", value, by decide, by decide, h⟩

/-- The fields of a response with a body of this length. -/
def replyFields {corsOrigin : Bytes} (hcors : IsValue corsOrigin) (length : Nat) : List Field :=
  [literalField "Content-Type" "application/json; charset=utf-8" (by decide),
    contentLength (Decimal.digits length) (isValue_digits length),
    literalField "Connection" "close" (by decide),
    ⟨lit "Access-Control-Allow-Origin", corsOrigin, by decide, by decide, hcors⟩,
    literalField "Access-Control-Allow-Methods" "GET, POST, DELETE, OPTIONS" (by decide),
    literalField "Access-Control-Allow-Headers" "Content-Type, Authorization" (by decide)]

/-- The bytes of a response. -/
theorem buildResponse_eq (server : HttpServer) (hcors : IsValue server.corsOrigin) {resp : HttpResponse}
    (h : resp.Framed) : server.buildResponse resp =
      Http.Response.text resp.statusCode (if resp.statusText = [] then lit "OK" else resp.statusText)
        (replyFields hcors resp.body.length) resp.body := by
  have hshow : ∀ n : Nat, showInt n = Decimal.digits n := fun n => by
    rw [showInt, if_neg (by omega), Int.natAbs_natCast]
  -- The literals of `build_response` at the ends of the lines.
  have hspace : lit " " = [0x20] := by decide
  have htype : lit "\r\nContent-Type: " = Http.crlf ++ (lit "Content-Type" ++ [0x3A, 0x20]) := by decide
  have hlength : lit "; charset=utf-8\r\nContent-Length: " =
      lit "; charset=utf-8" ++ (Http.crlf ++ (lit "Content-Length" ++ [0x3A, 0x20])) := by decide
  have horigin : lit "\r\nConnection: close\r\nAccess-Control-Allow-Origin: " =
      Http.crlf ++ (lit "Connection" ++ 0x3A :: 0x20 :: (lit "close" ++
        (Http.crlf ++ (lit "Access-Control-Allow-Origin" ++ [0x3A, 0x20])))) := by decide
  have hmethods : lit "\r\nAccess-Control-Allow-Methods: GET, POST, DELETE, OPTIONS" =
      Http.crlf ++ (lit "Access-Control-Allow-Methods" ++ 0x3A :: 0x20 ::
        lit "GET, POST, DELETE, OPTIONS") := by decide
  have hheaders : lit "\r\nAccess-Control-Allow-Headers: Content-Type, Authorization\r\n\r\n" =
      Http.crlf ++ (lit "Access-Control-Allow-Headers" ++ 0x3A :: 0x20 ::
        (lit "Content-Type, Authorization" ++ (Http.crlf ++ Http.crlf))) := by decide
  have hvalue : lit "application/json; charset=utf-8" = lit "application/json" ++ lit "; charset=utf-8" := by
    decide
  simp only [HttpServer.buildResponse, Http.Response.text, Http.headerSection, replyFields, literalField,
    Field.text, List.flatMap_cons, List.flatMap_nil, h.contentType, hshow, hspace, htype, hlength,
    horigin, hmethods, hheaders, hvalue, List.append_assoc, List.cons_append, List.nil_append]
  rfl

/-- **A response is read back**, and what follows it on the connection is not. -/
theorem read_buildResponse (server : HttpServer) (hcors : IsValue server.corsOrigin)
    {resp : HttpResponse} (h : resp.Api) (rest : Bytes) :
    Http.Response.read (server.buildResponse resp ++ rest) =
      some ⟨resp.statusCode, (replyFields hcors resp.body.length).map Field.pair, resp.body⟩ := by
  have h := h.framed
  obtain ⟨hlow, hhigh, hmodified⟩ := h.status
  have hreason : 0x0D ∉ if resp.statusText = [] then lit "OK" else resp.statusText := by
    split
    · decide
    · exact h.reason
  rw [buildResponse_eq server hcors h]
  refine Http.Response.read_text (by omega) (by omega) hreason ?_
  rw [Http.Response.content]
  by_cases hempty : resp.statusCode = 204
  · rw [if_pos (.inr (.inl hempty)), h.noContent hempty]
  · -- The length is that of the body.
    have hlength : Http.fieldValue (Http.ascii "content-length")
        ((replyFields hcors resp.body.length).map Field.pair) = some (Decimal.digits resp.body.length) := rfl
    have hcoding : Http.fieldValue (Http.ascii "transfer-encoding")
        ((replyFields hcors resp.body.length).map Field.pair) = none := rfl
    have hdigits : (Decimal.digits resp.body.length).all Decimal.isDigit = true := by
      rw [List.all_eq_true]
      exact fun c hc => Decimal.isDigit_of_mem_digits hc
    have hbody : ¬ (resp.statusCode < 200 ∨ resp.statusCode = 204 ∨ resp.statusCode = 304) := by omega
    have hcomplete : Decimal.digits resp.body.length ≠ [] ∧
        (Decimal.digits resp.body.length).all Decimal.isDigit = true ∧
        Decimal.value (Decimal.digits resp.body.length) ≤ (resp.body ++ rest).length := by
      rw [Decimal.value_digits, List.length_append]
      exact ⟨Decimal.digits_ne_nil _, hdigits, Nat.le_add_right _ _⟩
    rw [if_neg hbody, hcoding, hlength]
    simp only [Option.isSome_none, Bool.false_eq_true, if_false]
    rw [if_pos hcomplete, Decimal.value_digits, List.take_left]

/-- The response to what arrives on a connection. -/
def HttpServer.replyTo (server : HttpServer) (allowed : Bool) (now : Int) (db : Database)
    (segs : List Segment) : HttpResponse :=
  if allowed then (server.respond now db (readAndParse segs)).1 else .tooManyRequests

/-- The bytes sent on a connection are those of one response. -/
theorem handleConnection_fst (server : HttpServer) (allowed : Bool) (now : Int) (db : Database)
    (segs : List Segment) : (server.handleConnection allowed now db segs).1 =
      server.buildResponse (server.replyTo allowed now db segs) := by
  cases allowed <;> rfl

theorem AppContext.api_replyTo (ctx : AppContext) (corsOrigin : Bytes) (allowed : Bool) (now : Int)
    (db : Database) (segs : List Segment) :
    ((ctx.server corsOrigin).replyTo allowed now db segs).Api := by
  cases allowed with
  | false => exact HttpResponse.api_error (by decide)
  | true => exact ctx.api_respond now db _ corsOrigin

/-- What a client reads of the bytes sent on a connection. -/
theorem read_handleConnection (ctx : AppContext) {corsOrigin : Bytes} (hcors : IsValue corsOrigin)
    (allowed : Bool) (now : Int) (db : Database) (segs : List Segment) (rest : Bytes) :
    Http.Response.read (((ctx.server corsOrigin).handleConnection allowed now db segs).1 ++ rest) =
      some ⟨((ctx.server corsOrigin).replyTo allowed now db segs).statusCode,
        (replyFields hcors ((ctx.server corsOrigin).replyTo allowed now db segs).body.length).map Field.pair,
        ((ctx.server corsOrigin).replyTo allowed now db segs).body⟩ := by
  rw [handleConnection_fst]
  exact read_buildResponse (ctx.server corsOrigin) hcors (ctx.api_replyTo corsOrigin allowed now db segs) rest

/-- **Every reply is one response of the API**, whatever arrives on the connection, and the
    client reads the status and the body that the server meant, and nothing beyond them. -/
theorem every_reply_is_one_response (ctx : AppContext) {corsOrigin : Bytes} (hcors : IsValue corsOrigin)
    (allowed : Bool) (now : Int) (db : Database) (segs : List Segment) (rest : Bytes) :
    let reply := (ctx.server corsOrigin).replyTo allowed now db segs
    reply.Api ∧ Http.Response.read
        (((ctx.server corsOrigin).handleConnection allowed now db segs).1 ++ rest) =
      some ⟨reply.statusCode, (replyFields hcors reply.body.length).map Field.pair, reply.body⟩ := by
  exact ⟨ctx.api_replyTo corsOrigin allowed now db segs,
    read_handleConnection ctx hcors allowed now db segs rest⟩

/-- A table with two fragments of a chat. -/
def twoFragments : Database :=
  let first := Database.empty.insertFragment ⟨lit "1", lit "m", lit "c", lit "s", lit "QUJD", 10, 0⟩
  (first.2.insertFragment ⟨lit "2", lit "m", lit "c", lit "s", lit "REVG", 20, 0⟩).2

/-- The fragments of the chat are asked for, and bytes of the next answer follow. -/
theorem sample_every_reply_is_one_response :
    let ctx : AppContext := Sample.context
    let segs : List Segment := [⟨lit "GET /api/fragments?chat_id=c&since=5 HTTP/1.1\r\n" ++
      lit "Authorization: Bearer secret\r\n\r\n", by decide, by decide⟩]
    let reply := (ctx.server (lit "*")).replyTo true 100 twoFragments segs
    reply.Api ∧ Http.Response.read
        (((ctx.server (lit "*")).handleConnection true 100 twoFragments segs).1 ++ lit "HTTP/1.1") =
      some ⟨reply.statusCode, (replyFields (by decide : IsValue (lit "*")) reply.body.length).map Field.pair,
        reply.body⟩ :=
  every_reply_is_one_response Sample.context (by decide) true 100 twoFragments _ (lit "HTTP/1.1")

end Frag
