import Frag.Backend.Database
import Frag.Backend.Text
import Frag.Library.OrderedMap

/-!
# Requests and Responses

The HTTP layer of `server.cpp`: how the bytes of a connection become a request, how a
request finds its route, and how a response is written.

A connection is the list of what the successive calls of `recv` return; when the list is
over, `recv` returns nothing more (the peer closed, the timeout ran out or the connection
failed). The read loop stops when the request is complete, and at its cap.
-/

namespace Frag

/-- `std::unordered_map<std::string, std::string>`; no result depends on the order. -/
abbrev Params := OrderedMap Bytes Bytes

/-! ## Data -/

structure HttpRequest where
  method : Bytes
  path : Bytes
  headers : Params
  queryParams : Params
  pathParams : Params
  body : Bytes

/-- `HttpRequest req;` -/
def HttpRequest.blank : HttpRequest := ⟨[], [], .empty, .empty, .empty, []⟩

structure HttpResponse where
  statusCode : Nat
  statusText : Bytes
  contentType : Bytes
  body : Bytes
  deriving DecidableEq

namespace HttpResponse

/-- A response of the API. -/
def json (statusCode : Nat) (statusText : String) (body : Bytes) : HttpResponse :=
  ⟨statusCode, lit statusText, lit "application/json", body⟩

/-- `{"error":"…"}` -/
def errorBody (msg : String) : Bytes := lit "\x7b\"error\":\"" ++ lit msg ++ lit "\"\x7d"

def ok (b : Bytes) : HttpResponse := json 200 "OK" b
def created (b : Bytes) : HttpResponse := json 201 "Created" b
def noContent : HttpResponse := json 204 "No Content" []
def badRequest (msg : String) : HttpResponse := json 400 "Bad Request" (errorBody msg)
def unauthorized : HttpResponse := json 401 "Unauthorized" (errorBody "unauthorized")
def notFound : HttpResponse := json 404 "Not Found" (errorBody "not found")
def methodNotAllowed : HttpResponse := json 405 "Method Not Allowed" (errorBody "method not allowed")
def payloadTooLarge : HttpResponse := json 413 "Payload Too Large" (errorBody "payload too large")
def tooManyRequests : HttpResponse := json 429 "Too Many Requests" (errorBody "too many requests")
def serverError (msg : String) : HttpResponse := json 500 "Internal Server Error" (errorBody msg)

end HttpResponse

/-! ## Reading -/

/-- What one call of `recv` returns: at least one byte, and no more than the buffer holds. -/
structure Segment where
  bytes : Bytes
  nonempty : bytes ≠ []
  fits : bytes.length ≤ 8192

/-- `MAX_REQUEST_BYTES` -/
def maxRequestBytes : Nat := 2097152

/-- The variables of the read loop. -/
structure ReadState where
  raw : Bytes
  headersDone : Bool
  contentLength : Nat
  headersEnd : Nat

/-- The value of the `Content-Length` header, from the header section. -/
def contentLengthOf (headers : Bytes) : Nat :=
  match Scan.after (lit "\r\ncontent-length:") (toLower headers) with
  | none => 0
  | some value =>
    let line := (Scan.indexOf (lit "\r\n") value).elim value value.take
    (stoull (trim line)).getD 0

namespace ReadState

/-- Before the first call of `recv`. -/
def start : ReadState := ⟨[], false, 0, 0⟩

/-- The bytes of one call of `recv` arrive. -/
def receive (s : ReadState) (bytes : Bytes) : ReadState :=
  let raw := s.raw ++ bytes
  -- The blank line is looked for until it was found once.
  if s.headersDone then { s with raw }
  else
    match Scan.indexOf (lit "\r\n\r\n") raw with
    | none => { s with raw }
    | some pos =>
      { raw, headersDone := true, headersEnd := pos + 4,
        contentLength := contentLengthOf (raw.take (pos + 4)) }

/-- `raw.size() >= headers_end + content_length`, a sum of type `size_t` -/
def complete (s : ReadState) : Bool :=
  s.headersDone && (s.headersEnd + s.contentLength) % 18446744073709551616 ≤ s.raw.length

/-- The read loop. -/
def loop (s : ReadState) : List Segment → ReadState
  | [] => s
  | seg :: segs =>
    -- The cap is checked before `recv`, so the last segment can go beyond it.
    if s.raw.length < maxRequestBytes then
      let s := s.receive seg.bytes
      if s.complete then s else s.loop segs
    else s

end ReadState

/-! ## Parsing -/

/-- The lines that end with CRLF; what follows the last of them is left out. `line` is what
    was read of the current line, reversed. -/
def crlfLines (line : Bytes) : Bytes → List Bytes
  | [] => []
  | [_] => []
  | c :: d :: s =>
    if c = 0x0D ∧ d = 0x0A then line.reverse :: crlfLines [] s
    else crlfLines (c :: line) (d :: s)

/-- One header line; a line without a colon is skipped. -/
def addHeader (headers : Params) (header : Bytes) : Params :=
  match Scan.indexOf [0x3A] header with
  | none => headers
  | some colon =>
    headers.set (toLower (trim (header.take colon))) (trim (header.drop (colon + 1)))

/-- `HttpServer::parse_query` -/
def parseQuery (qs : Bytes) : Params :=
  (split qs 0x26).foldl
    (fun result pair =>
      match Scan.indexOf [0x3D] pair with
      | none => result.set (urlDecode pair) []
      | some eq => result.set (urlDecode (pair.take eq)) (urlDecode (pair.drop (eq + 1))))
    .empty

/-- The target of the request line: the decoded path, and the query. -/
def parseTarget (rawPath : Bytes) : Bytes × Params :=
  match Scan.indexOf [0x3F] rawPath with
  | none => (urlDecode rawPath, .empty)
  | some qpos => (urlDecode (rawPath.take qpos), parseQuery (rawPath.drop (qpos + 1)))

/-- The parsing half of `read_and_parse`: what it makes of the state of the read loop. -/
def ReadState.parse (s : ReadState) : HttpRequest :=
  match Scan.indexOf (lit "\r\n") s.raw with
  -- Without a request line the request stays empty, and no route accepts it.
  | none => .blank
  | some lineEnd =>
    let requestLine := s.raw.take lineEnd
    match Scan.indexOf [0x20] requestLine with
    | none => .blank
    | some mEnd =>
      let rest := requestLine.drop (mEnd + 1)
      let (path, queryParams) := parseTarget ((Scan.indexOf [0x20] rest).elim rest rest.take)
      -- The headers end at the first empty line, or where the bytes end.
      let lines := (crlfLines [] (s.raw.drop (lineEnd + 2))).takeWhile (· ≠ [])
      { method := requestLine.take mEnd
        path := path
        headers := lines.foldl addHeader .empty
        queryParams := queryParams
        pathParams := .empty
        body := if 0 < s.headersEnd then s.raw.drop s.headersEnd else [] }

/-- `HttpServer::read_and_parse` -/
def readAndParse (segs : List Segment) : HttpRequest := (ReadState.start.loop segs).parse

/-- Where the first CRLF is. -/
theorem indexOf_crlf (c d : UInt8) (s : Bytes) : Scan.indexOf (lit "\r\n") (c :: d :: s) =
    if c = 0x0D ∧ d = 0x0A then some 0
    else (Scan.indexOf (lit "\r\n") (d :: s)).map (· + 1) := by
  have hcrlf : lit "\r\n" <+: c :: d :: s ↔ c = 0x0D ∧ d = 0x0A := by
    have hlit : lit "\r\n" = [0x0D, 0x0A] := by decide
    rw [hlit, List.cons_prefix_cons, List.cons_prefix_cons]
    simp [eq_comm]
  rw [Scan.indexOf]
  simp only [hcrlf]

/-- The first line is what stands before the first CRLF. -/
theorem crlfLines_eq (line s : Bytes) : crlfLines line s =
    match Scan.indexOf (lit "\r\n") s with
    | none => []
    | some i => (line.reverse ++ s.take i) :: crlfLines [] (s.drop (i + 2)) := by
  fun_induction crlfLines line s with
  | case1 line => rfl
  | case2 line c =>
    have hnone : Scan.indexOf (lit "\r\n") [c] = none := by
      have hnot : ¬ lit "\r\n" <+: [c] := fun h => by
        have hle : 2 ≤ 1 := h.length_le
        omega
      rw [Scan.indexOf, if_neg hnot]
      rfl
    rw [hnone]
  | case3 line c d s hcrlf =>
    simp only [indexOf_crlf, if_pos hcrlf, List.take_zero, List.append_nil]
    rfl
  | case4 line c d s hcrlf ih =>
    simp only [indexOf_crlf, if_neg hcrlf]
    rw [ih]
    -- The character belongs to the line.
    cases Scan.indexOf (lit "\r\n") (d :: s) with
    | none => rfl
    | some i => simp

/-- Later bytes add lines at the end. -/
theorem crlfLines_prefix (line s t : Bytes) : crlfLines line s <+: crlfLines line (s ++ t) := by
  fun_induction crlfLines line s with
  | case1 => exact List.nil_prefix
  | case2 => exact List.nil_prefix
  | case3 line c d s hcrlf ih =>
    rw [List.cons_append, List.cons_append, crlfLines, if_pos hcrlf]
    exact List.cons_prefix_cons.mpr ⟨rfl, ih⟩
  | case4 line c d s hcrlf ih =>
    rw [List.cons_append, List.cons_append, crlfLines, if_neg hcrlf]
    exact ih

/-! ## Routing -/

/-- `HttpServer::match_pattern`: the parameters of the pattern, if the path matches. -/
def matchPattern (pattern path : Bytes) : Option Params :=
  let pp := split pattern 0x2F
  let cp := split path 0x2F
  if pp.length ≠ cp.length then none
  else
    (pp.zip cp).foldlM
      (fun params p =>
        match p.1 with
        | 0x3A :: name => some (params.set name p.2)
        | _ => if p.1 = p.2 then some params else none)
      .empty

/-- A registered route. The handler runs at a clock reading, on a table. -/
structure Route where
  method : Bytes
  pattern : Bytes
  handler : Int → Database → HttpRequest → HttpResponse × Database

structure HttpServer where
  corsOrigin : Bytes
  routes : List Route

namespace HttpServer

/-- The loop over the routes: the first one that matches path and method handles the
    request; `methodMatched` tells whether a path matched with the wrong method. -/
def route (now : Int) (db : Database) (req : HttpRequest) :
    List Route → Bool → HttpResponse × Database
  | [], methodMatched => (if methodMatched then .methodNotAllowed else .notFound, db)
  | r :: rs, methodMatched =>
    match matchPattern r.pattern req.path with
    | none => route now db req rs methodMatched
    | some params =>
      -- The path matches with another method: a later route may still accept the request.
      if r.method ≠ lit "*" ∧ r.method ≠ req.method then route now db req rs true
      else r.handler now db { req with pathParams := params }

/-- The answer to a request: CORS preflight, and the routes. -/
def respond (server : HttpServer) (now : Int) (db : Database) (req : HttpRequest) :
    HttpResponse × Database :=
  if req.method = lit "OPTIONS" then (.noContent, db) else route now db req server.routes false

/-- `HttpServer::build_response` -/
def buildResponse (server : HttpServer) (resp : HttpResponse) : Bytes :=
  let statusText := if resp.statusText = [] then lit "OK" else resp.statusText
  lit "HTTP/1.1 " ++ showInt resp.statusCode ++ lit " " ++ statusText ++
    lit "\r\nContent-Type: " ++ resp.contentType ++ lit "; charset=utf-8\r\nContent-Length: " ++
    showInt resp.body.length ++ lit "\r\nConnection: close\r\nAccess-Control-Allow-Origin: " ++
    server.corsOrigin ++ lit "\r\nAccess-Control-Allow-Methods: GET, POST, DELETE, OPTIONS" ++
    lit "\r\nAccess-Control-Allow-Headers: Content-Type, Authorization\r\n\r\n" ++ resp.body

/-- `HttpServer::handle_connection`: the bytes sent, and the table. `allowed` is what the
    rate limiter says of the client. -/
def handleConnection (server : HttpServer) (allowed : Bool) (now : Int) (db : Database)
    (segs : List Segment) : Bytes × Database :=
  if allowed then
    let (resp, db) := server.respond now db (readAndParse segs)
    (server.buildResponse resp, db)
  else (server.buildResponse .tooManyRequests, db)

end HttpServer

end Frag
