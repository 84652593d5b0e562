import Frag.Guarantees.Bodies
import Frag.Guarantees.Replies

/-!
# Answers

From the connection to the caller of `request`: whatever arrives at the server, the promise of
`request` is fulfilled with what the server meant if the status is 2xx, and otherwise rejected
with the text and the status of the server's error. A page of another origin learns this much
only if the server allows its origin and its preflight was let through by the rate limiter.

## Main results

- `understood_of_api`: from the response to the caller;
- `every_answer_is_understood`: from the connections to the caller.
-/

namespace Frag

open Unicode
open JsonText (Data)
open Http (IsValue)

/-! ## Bodies of the API -/

/-- `{"error":"…"}` -/
def errorData (msg : String) : Data := .object [(js "error", .string (js msg))]

theorem textDecode_errorBody : ∀ e ∈ apiErrors,
    textDecode (HttpResponse.errorBody e.2.2) = (errorData e.2.2).text escapeUnits := by
  decide +kernel

/-- The answer to a POST that stored its fragment. -/
theorem textDecode_created (id : Bytes) :
    textDecode (lit "\x7b\"ok\":true,\"id\":\"" ++ jsonEscape id ++ lit "\"\x7d") =
      (Data.object [(js "ok", .bool true), (js "id", .string (fromWire id))]).text escapeUnits := by
  have hok : escapeUnits (js "ok") = js "ok" := by decide
  have hid : escapeUnits (js "id") = js "id" := by decide
  have hend := fromWire_append_append (l := lit "\"\x7d") (by decide) (by decide) (jsonEscape id) []
  rw [List.append_nil] at hend
  rw [List.append_assoc, textDecode_append (by decide) (by decide), hend, fromWire_jsonEscape]
  simp only [Data.text, Data.memberTexts, hok, hid, List.intercalate_cons_cons,
    List.intercalate_singleton, List.append_assoc, List.cons_append, List.nil_append]
  rfl

/-- The answer to a health check. -/
theorem textDecode_health (uptime count : Int) :
    textDecode (lit "\x7b\"status\":\"ok\",\"version\":\"1.0.0\",\"uptime_sec\":" ++ showInt uptime ++
        lit ",\"fragment_count\":" ++ showInt count ++ lit "\x7d") =
      (Data.object [(js "status", .string (js "ok")), (js "version", .string (js "1.0.0")),
        (js "uptime_sec", .integer uptime), (js "fragment_count", .integer count)]).text escapeUnits := by
  have hname : ∀ n ∈ ["status", "ok", "version", "1.0.0", "uptime_sec", "fragment_count"].map js,
      escapeUnits n = n := by decide
  simp only [List.map_cons, List.map_nil, List.forall_mem_cons] at hname
  obtain ⟨hstatus, hok, hversion, hnumber, huptime, hcount, -⟩ := hname
  have hend := fromWire_append_append (l := lit "\x7d") (by decide) (by decide) (showInt count) []
  rw [List.append_nil] at hend
  rw [List.append_assoc, List.append_assoc, List.append_assoc, textDecode_append (by decide) (by decide),
    fromWire_append_append (by decide) (by decide), hend, fromWire_showInt, fromWire_showInt]
  simp only [Data.text, Data.memberTexts, hstatus, hok, hversion, hnumber, huptime, hcount,
    List.intercalate_cons_cons, List.intercalate_singleton, List.append_assoc, List.cons_append,
    List.nil_append]
  rfl

/-! ## The caller -/

/-- The caller of `request` gets what the response says. -/
def Understood (r : HttpResponse) (outcome : Except RequestFailure JsValue) : Prop :=
  if r.statusCode = 204 then outcome = .ok .null
  else if r.statusCode < 300 then ∃ v, jsonParse (textDecode r.body) = some v ∧ outcome = .ok v
  else ∃ msg, r.body = HttpResponse.errorBody msg ∧
    outcome = .error (.network (.string (js msg)) r.statusCode)

/-- A value, from its text to the caller. -/
theorem understood_of_value {r : HttpResponse} {d : Data} (hstatus : r.statusCode = 200 ∨ r.statusCode = 201)
    (hbody : textDecode r.body = d.text escapeUnits) :
    Understood r (request (.response r.statusCode (some r.body))) := by
  have hcontent : r.statusCode ≠ 204 := by omega
  have hlow : r.statusCode < 300 := by omega
  have hparse : jsonParse (textDecode r.body) = some (d.value jsBuilder) := by
    rw [hbody, jsonParse_escaped]
  rw [Understood, if_neg hcontent, if_pos hlow]
  refine ⟨_, hparse, ?_⟩
  rw [request, if_neg hcontent]
  simp only [Option.map_some, hparse, Option.getD_some]
  exact if_pos (by omega)

/-- An error: its text is not empty, so it is preferred to the status. -/
theorem understood_of_error {r : HttpResponse} {msg : String} (hstatus : 400 ≤ r.statusCode)
    (hbody : r.body = HttpResponse.errorBody msg)
    (hdecode : textDecode (HttpResponse.errorBody msg) = (errorData msg).text escapeUnits)
    (hne : js msg ≠ []) : Understood r (request (.response r.statusCode (some r.body))) := by
  have hfound : ((errorData msg).value jsBuilder).property "error" = some (.string (js msg)) := rfl
  have htruthy : (JsValue.string (js msg)).truthy = true := decide_eq_true hne
  have hparse : jsonParse (textDecode r.body) = some ((errorData msg).value jsBuilder) := by
    rw [hbody, hdecode, jsonParse_escaped]
  have hcontent : r.statusCode ≠ 204 := by omega
  have hlow : ¬ r.statusCode < 300 := by omega
  have hok : ¬ (200 ≤ r.statusCode ∧ r.statusCode ≤ 299) := by omega
  rw [Understood, if_neg hcontent, if_neg hlow]
  refine ⟨msg, hbody, ?_⟩
  rw [request, if_neg hcontent]
  simp only [Option.map_some, hparse, Option.getD_some, if_neg hok, hfound, Option.filter_some, htruthy,
    if_true]
  rfl

/-- **Every response of the API is understood.** -/
theorem understood_of_api {r : HttpResponse} (h : r.Api) :
    Understood r (request (.response r.statusCode (some r.body))) := by
  cases h with
  | health uptime count => exact understood_of_value (.inl rfl) (textDecode_health uptime count)
  | created id => exact understood_of_value (.inr rfl) (textDecode_created id)
  | duplicate =>
    exact understood_of_value (d := .object [(js "ok", .bool true), (js "duplicate", .bool true)])
      (.inl rfl) (by decide +kernel)
  | fragments l => exact understood_of_value (.inl rfl) (textDecode_fragmentsArray l)
  | noContent => rfl
  | error e known =>
    have herrors : ∀ e ∈ apiErrors, 400 ≤ e.1 ∧ js e.2.2 ≠ [] := by decide
    obtain ⟨hstatus, hne⟩ := herrors e known
    exact understood_of_error hstatus rfl (textDecode_errorBody e known) hne

/-! ## Other origins -/

section Origin

variable {corsOrigin origin : Bytes} (hcors : IsValue corsOrigin)

/-- The configured `cors_origin` admits the origin of the page. -/
def OriginAllowed (corsOrigin origin : Bytes) : Prop := corsOrigin = lit "*" ∨ corsOrigin = origin

instance (corsOrigin origin : Bytes) : Decidable (OriginAllowed corsOrigin origin) :=
  inferInstanceAs (Decidable (corsOrigin = lit "*" ∨ corsOrigin = origin))

include hcors

/-- The page of an allowed origin may read every response, and no other page may read any. -/
theorem corsAllows_replyFields (n : Nat) :
    corsAllows origin ((replyFields hcors n).map Http.Field.pair) = true ↔
      OriginAllowed corsOrigin origin := by
  have hvalue : Http.fieldValue (lit "access-control-allow-origin")
      ((replyFields hcors n).map Http.Field.pair) = some corsOrigin := rfl
  rw [corsAllows, hvalue, Bool.or_eq_true, decide_eq_true_eq, decide_eq_true_eq]
  exact Iff.rfl

/-- A preflight that is answered 204 allows the methods of the API. -/
theorem preflightAllows_noContent (horigin : OriginAllowed corsOrigin origin) {method : Bytes}
    (hmethod : method ∈ [lit "GET", lit "POST", lit "DELETE"]) :
    preflightAllows origin method ⟨204, (replyFields hcors 0).map Http.Field.pair, []⟩ = true := by
  have hmethods : fieldList "access-control-allow-methods" ((replyFields hcors 0).map Http.Field.pair) =
      [lit "GET", lit "POST", lit "DELETE", lit "OPTIONS"] := by
    have hvalue : Http.fieldValue (lit "access-control-allow-methods")
        ((replyFields hcors 0).map Http.Field.pair) = some (lit "GET, POST, DELETE, OPTIONS") := rfl
    rw [fieldList, hvalue]
    decide
  have hheaders : fieldList "access-control-allow-headers" ((replyFields hcors 0).map Http.Field.pair) =
      [lit "Content-Type", lit "Authorization"] := by
    have hvalue : Http.fieldValue (lit "access-control-allow-headers")
        ((replyFields hcors 0).map Http.Field.pair) = some (lit "Content-Type, Authorization") := rfl
    rw [fieldList, hvalue]
    decide
  -- GET and POST need no permission, DELETE is in the list.
  have hlisted : ∀ m ∈ [lit "GET", lit "POST", lit "DELETE"],
      [lit "GET", lit "HEAD", lit "POST"].contains m = true ∨
        [lit "GET", lit "POST", lit "DELETE", lit "OPTIONS"].contains m = true := by decide
  have hunsafe : unsafeHeaders.all
      ([lit "Content-Type", lit "Authorization"].map Http.lower).contains = true := by decide
  simp only [preflightAllows, (corsAllows_replyFields hcors 0).mpr horigin, hmethods, hheaders,
    hunsafe, Bool.and_eq_true, Bool.or_eq_true, decide_eq_true_eq]
  exact ⟨⟨⟨⟨trivial, by omega⟩, by omega⟩, hlisted method hmethod⟩, trivial⟩

/-- A preflight that was refused, or answered for another origin, allows nothing. -/
theorem preflightAllows_eq_false {method : Bytes} {status : Nat}
    (h : status = 429 ∨ ¬ OriginAllowed corsOrigin origin) (n : Nat) (body : Bytes) :
    preflightAllows origin method ⟨status, (replyFields hcors n).map Http.Field.pair, body⟩ = false := by
  rcases h with rfl | hother
  · have hstatus : decide (429 ≤ 299) = false := by decide
    simp only [preflightAllows, hstatus, Bool.and_false, Bool.false_and]
  · have hclosed : corsAllows origin ((replyFields hcors n).map Http.Field.pair) = false :=
      Bool.eq_false_iff.mpr fun h => hother ((corsAllows_replyFields hcors n).mp h)
    simp only [preflightAllows, hclosed, Bool.false_and]

/-- **Every answer is understood**: whatever arrives on the connection of a request, a page of an
    origin that the server allows gets what the server responds with, if its preflight came within
    the rate limit; any other page gets an error without a status. -/
theorem every_answer_is_understood (ctx : AppContext) {method : Bytes}
    (hmethod : method ∈ [lit "GET", lit "POST", lit "DELETE"]) (message : JsString)
    (dbs : Database × Database) (clocks : Int × Int) (allowed : Bool × Bool)
    {preflight : List Segment} (hpreflight : (readAndParse preflight).method = lit "OPTIONS")
    (segs : List Segment) :
    let server := ctx.server corsOrigin
    let reply := server.replyTo allowed.2 clocks.2 dbs.2 segs
    let outcome := request (fetched origin method message
      (server.handleConnection allowed.1 clocks.1 dbs.1 preflight).1
      (server.handleConnection allowed.2 clocks.2 dbs.2 segs).1)
    if allowed.1 ∧ OriginAllowed corsOrigin origin then Understood reply outcome
    else outcome = .error (.network (.string (js "Network error: " ++ message)) 0) := by
  intro server reply outcome
  have hread := fun allowed now db segs => read_handleConnection ctx hcors allowed now db segs []
  simp only [List.append_nil] at hread
  by_cases hgood : allowed.1 = true ∧ OriginAllowed corsOrigin origin
  · obtain ⟨hallowed, horigin⟩ := hgood
    have hempty : server.replyTo allowed.1 clocks.1 dbs.1 preflight = .noContent := by
      rw [HttpServer.replyTo, if_pos hallowed, HttpServer.respond, if_pos hpreflight]
    have hpass := preflightAllows_noContent hcors horigin hmethod
    have hstatus : HttpResponse.noContent.statusCode = 204 := rfl
    have hbody : HttpResponse.noContent.body = [] := rfl
    have houtcome : outcome = request (.response reply.statusCode (some reply.body)) := by
      show request (fetched _ _ _ _ _) = _
      rw [fetched, hread, hempty, hread]
      simp only [hstatus, hbody, List.length_nil, hpass,
        (corsAllows_replyFields hcors _).mpr horigin, if_true]
      rfl
    rw [if_pos ⟨hallowed, horigin⟩, houtcome]
    exact understood_of_api (ctx.api_replyTo corsOrigin allowed.2 clocks.2 dbs.2 segs)
  · -- The preflight is answered 429, or says another origin.
    have hrefuse : (server.replyTo allowed.1 clocks.1 dbs.1 preflight).statusCode = 429 ∨
        ¬ OriginAllowed corsOrigin origin := by
      by_cases hallowed : allowed.1 = true
      · exact .inr fun horigin => hgood ⟨hallowed, horigin⟩
      · left
        rw [HttpServer.replyTo, if_neg hallowed]
        rfl
    have houtcome : outcome = request (.failed message) := by
      show request (fetched _ _ _ _ _) = _
      rw [fetched, hread]
      refine congrArg request (if_neg ?_)
      rw [Bool.not_eq_true]
      exact preflightAllows_eq_false hcors hrefuse _ _
    rw [if_neg hgood, houtcome, request]

end Origin

/-- A page of `https://a` asks for a fragment to be deleted. -/
theorem sample_every_answer_is_understood :
    let ctx : AppContext := ⟨⟨[lit "t"]⟩, 65536, 0⟩
    let preflight : List Segment := [⟨lit "OPTIONS /api/fragments/x HTTP/1.1\r\n\r\n", by decide, by decide⟩]
    let segs : List Segment := [⟨lit "DELETE /api/fragments/x HTTP/1.1\r\n\r\n", by decide, by decide⟩]
    let server := ctx.server (lit "https://a")
    let reply := server.replyTo true 101 .empty segs
    Understood reply (request (fetched (lit "https://a") (lit "DELETE") (js "failed")
      (server.handleConnection true 100 .empty preflight).1
      (server.handleConnection true 101 .empty segs).1)) := by
  intro ctx preflight segs server reply
  have hoptions : (readAndParse preflight).method = lit "OPTIONS" := by decide +kernel
  have horigin : IsValue (lit "https://a") := by decide
  have hmethod : lit "DELETE" ∈ [lit "GET", lit "POST", lit "DELETE"] := by decide
  have hallowed : true = true ∧ OriginAllowed (lit "https://a") (lit "https://a") := by decide
  have hanswer := @every_answer_is_understood _ (lit "https://a") horigin ctx _ hmethod (js "failed")
    (.empty, .empty) (100, 101) (true, true) _ hoptions segs
  exact (if_pos hallowed).mp hanswer

end Frag
