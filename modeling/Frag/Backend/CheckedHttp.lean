import Frag.Backend.Checked

/-!
# Requests by Position

Reading and routing of requests with checked positions: the loops of `server.cpp` over the
bytes of a connection and the segments of a path.

## Main results

- `readAndParse_eq`: reading a request, whatever arrives and wherever it is cut;
- `matchPattern_eq`: matching its path.
-/

namespace Frag

namespace Checked

open Bounds

/-! ## Reading -/

/-- The value of the `Content-Length` header of a header section. -/
def contentLengthOf (raw : Bytes) (headersEnd : Nat) : Checked Nat := do
  let hdrSection := toLower (← substr raw 0 headersEnd)
  match Scan.find hdrSection (lit "\r\ncontent-length:") 0 with
  | none => .ok 0
  | some clPos =>
    let valStart := clPos + 17
    -- Without a line end `val_end` is `npos`.
    let valEnd := (Scan.find hdrSection (lit "\r\n") valStart).getD npos
    let clStr ← trim (← substr hdrSection valStart (← sub valEnd valStart))
    catching (stoull clStr) 0

/-- The bytes of one call of `recv` arrive. -/
def receive (s : ReadState) (bytes : Bytes) : Checked ReadState :=
  let raw := s.raw ++ bytes
  if s.headersDone then .ok { s with raw }
  else
    match Scan.find raw (lit "\r\n\r\n") 0 with
    | none => .ok { s with raw }
    | some pos => do
      let contentLength ← contentLengthOf raw (pos + 4)
      return { raw, headersDone := true, headersEnd := pos + 4, contentLength }

/-- The read loop. -/
def loop (s : ReadState) : List Segment → Checked ReadState
  | [] => .ok s
  | seg :: segs =>
    if s.raw.length < maxRequestBytes then do
      let s ← receive s seg.bytes
      if s.complete then .ok s else loop s segs
    else .ok s

theorem contentLengthOf_eq {raw : Bytes} {headersEnd : Nat} (h : raw.length ≤ npos) :
    contentLengthOf raw headersEnd = .ok (Frag.contentLengthOf (raw.take headersEnd)) := by
  rw [contentLengthOf, substr_of_le (Nat.zero_le _), ok_bind, List.drop_zero, Frag.contentLengthOf]
  have hkey := drop_find (toLower (raw.take headersEnd)) (lit "\r\ncontent-length:") 0
  rw [List.drop_zero] at hkey
  have hlength : (toLower (raw.take headersEnd)).length ≤ npos := by
    rw [toLower, List.length_map, List.length_take]
    omega
  generalize toLower (raw.take headersEnd) = hdr at hkey hlength ⊢
  rw [hkey]
  cases hpos : Scan.find hdr (lit "\r\ncontent-length:") 0 with
  | none => simp only [hpos, Option.map_none]
  | some clPos =>
    have hstart := (find_bounds (by decide) hpos).2
    have hseventeen : (lit "\r\ncontent-length:").length = 17 := rfl
    rw [hseventeen] at hstart
    simp only [hpos, Option.map_some, hseventeen]
    -- The line end bounds the value, or the header section does.
    have hline : (Scan.find hdr (lit "\r\n") (clPos + 17)) =
        (Scan.indexOf (lit "\r\n") (hdr.drop (clPos + 17))).map (· + (clPos + 17)) := find_eq
    rw [hline]
    cases Scan.indexOf (lit "\r\n") (hdr.drop (clPos + 17)) with
    | none =>
      have hall : (hdr.drop (clPos + 17)).take (npos - (clPos + 17)) = hdr.drop (clPos + 17) := by
        refine List.take_of_length_le ?_
        rw [List.length_drop]
        omega
      simp only [Option.map_none, Option.getD_none, Option.elim_none]
      rw [sub_of_le (by omega), ok_bind, substr_of_le hstart, ok_bind, hall, trim_eq, ok_bind,
        catching_stoull]
    | some i =>
      simp only [Option.map_some, Option.getD_some, Option.elim_some]
      rw [sub_of_le (by omega), ok_bind, Nat.add_sub_cancel, substr_of_le hstart, ok_bind, trim_eq,
        ok_bind, catching_stoull]

theorem receive_eq {s : ReadState} {bytes : Bytes} (h : s.raw.length + bytes.length ≤ npos) :
    receive s bytes = .ok (s.receive bytes) := by
  unfold receive ReadState.receive
  simp only [find_zero]
  split
  · rfl
  · cases Scan.indexOf (lit "\r\n\r\n") (s.raw ++ bytes) with
    | none => rfl
    | some pos =>
      simp only
      rw [contentLengthOf_eq (by rw [List.length_append]; exact h)]
      rfl

theorem loop_eq (s : ReadState) (segs : List Segment) : loop s segs = .ok (s.loop segs) := by
  induction segs generalizing s with
  | nil => rfl
  | cons seg segs ih =>
    rw [loop, ReadState.loop]
    split
    · rename_i hlt
      -- The cap keeps the positions far below `npos`.
      have hsmall : s.raw.length + seg.bytes.length ≤ npos := by
        have hfits := seg.fits
        have hmax : maxRequestBytes + 8192 ≤ npos := by decide
        omega
      rw [receive_eq hsmall, ok_bind]
      simp only
      split
      · rfl
      · exact ih _
    · rfl

/-! ## Parsing -/

/-- One header line. -/
def addHeader (headers : Params) (header : Bytes) : Checked Params :=
  match Scan.find header [0x3A] 0 with
  | none => .ok headers
  | some colon => do
    let key ← trim (← substr header 0 colon)
    let val ← trim (← substrFrom header (colon + 1))
    return headers.set (toLower key) val

/-- The loop over the header lines. -/
def headersLoop (raw : Bytes) (pos : Nat) (headers : Params) : Checked Params :=
  if pos < raw.length then
    match hend : Scan.find raw (lit "\r\n") pos with
    | none => .ok headers
    | some «end» =>
      if «end» = pos then .ok headers
      else do
        let header ← substr raw pos (← sub «end» pos)
        headersLoop raw («end» + 2) (← addHeader headers header)
  else .ok headers
termination_by raw.length - pos
decreasing_by
  have hbounds := find_bounds (by decide) hend
  omega

/-- One parameter of a query. -/
def addParam (result : Params) (pair : Bytes) : Checked Params :=
  match Scan.find pair [0x3D] 0 with
  | none => do return result.set (← urlDecode pair) []
  | some eq => do
    let key ← urlDecode (← substr pair 0 eq)
    let value ← urlDecode (← substrFrom pair (eq + 1))
    return result.set key value

/-- `HttpServer::parse_query` -/
def parseQuery (qs : Bytes) : Checked Params := (split qs 0x26).foldlM addParam .empty

/-- The target of the request line. -/
def parseTarget (rawPath : Bytes) : Checked (Bytes × Params) :=
  match Scan.find rawPath [0x3F] 0 with
  | none => do return (← urlDecode rawPath, .empty)
  | some qpos => do
    let path ← urlDecode (← substr rawPath 0 qpos)
    return (path, ← parseQuery (← substrFrom rawPath (qpos + 1)))

/-- What stands before the second space of the request line. -/
def rawPath (requestLine : Bytes) (pStart : Nat) : Checked Bytes := do
  let pEnd := (Scan.find requestLine [0x20] pStart).getD requestLine.length
  substr requestLine pStart (← sub pEnd pStart)

/-- What stands after the headers. -/
def bodyOf (raw : Bytes) (headersEnd : Nat) : Checked Bytes :=
  if 0 < headersEnd ∧ headersEnd < raw.length then substrFrom raw headersEnd else .ok []

/-- The parsing half of `read_and_parse`. -/
def parse (s : ReadState) : Checked HttpRequest :=
  match Scan.find s.raw (lit "\r\n") 0 with
  | none => .ok .blank
  | some lineEnd => do
    let requestLine ← substr s.raw 0 lineEnd
    match Scan.find requestLine [0x20] 0 with
    | none => .ok .blank
    | some mEnd =>
      let method ← substr requestLine 0 mEnd
      let (path, queryParams) ← parseTarget (← rawPath requestLine (mEnd + 1))
      let headers ← headersLoop s.raw (lineEnd + 2) .empty
      let body ← bodyOf s.raw s.headersEnd
      return { method, path, headers, queryParams, pathParams := .empty, body }

/-- `HttpServer::read_and_parse` -/
def readAndParse (segs : List Segment) : Checked HttpRequest := do parse (← loop .start segs)

/-- The occurrence of one character is a position of the text. -/
private theorem lt_of_find {s : Bytes} {c : UInt8} {start i : Nat}
    (h : Scan.find s [c] start = some i) : start ≤ i ∧ i < s.length := by
  have hbounds := find_bounds (List.cons_ne_nil c []) h
  rw [List.length_singleton] at hbounds
  omega

theorem addHeader_eq (headers : Params) (header : Bytes) :
    addHeader headers header = .ok (Frag.addHeader headers header) := by
  unfold addHeader Frag.addHeader
  rw [find_zero]
  cases hcolon : Scan.indexOf [0x3A] header with
  | none => rfl
  | some colon =>
    have hlt := (lt_of_find (find_zero.trans hcolon)).2
    simp only [substr_of_le (Nat.zero_le _), substrFrom_of_le hlt, ok_bind, trim_eq,
      List.drop_zero]
    rfl

theorem headersLoop_eq (raw : Bytes) (pos : Nat) (headers : Params) :
    headersLoop raw pos headers =
      .ok (((crlfLines [] (raw.drop pos)).takeWhile (· ≠ [])).foldl Frag.addHeader headers) := by
  rw [headersLoop, crlfLines_eq]
  split
  · rename_i hlt
    split
    · rename_i hend
      have hnone : Scan.indexOf (lit "\r\n") (raw.drop pos) = none := by
        rw [find_eq, Option.map_eq_none_iff] at hend
        exact hend
      rw [hnone]
      rfl
    · rename_i «end» hend
      have hbounds := find_bounds (by decide) hend
      have htwo : (lit "\r\n").length = 2 := rfl
      rw [find_eq] at hend
      obtain ⟨i, hi, rfl⟩ := Option.map_eq_some_iff.mp hend
      simp only [hi, List.reverse_nil, List.nil_append]
      split
      · -- An empty line ends the headers.
        rename_i hempty
        obtain rfl : i = 0 := by omega
        rfl
      · rename_i hne
        have hline : (raw.drop pos).take i ≠ [] := by
          intro hnil
          have hlen := congrArg List.length hnil
          rw [List.length_take, List.length_drop, List.length_nil] at hlen
          omega
        have hnext : (raw.drop pos).drop (i + 2) = raw.drop (i + pos + 2) := by
          rw [List.drop_drop]
          congr 1
          omega
        rw [sub_of_le (by omega), ok_bind, substr_of_le (by omega), ok_bind, addHeader_eq, ok_bind,
          headersLoop_eq raw (i + pos + 2), Nat.add_sub_cancel, hnext,
          List.takeWhile_cons_of_pos (by simpa using hline), List.foldl_cons]
  · rename_i hend
    rw [List.drop_eq_nil_of_le (Nat.not_lt.mp hend)]
    rfl
termination_by raw.length - pos

theorem addParam_eq (result : Params) (pair : Bytes) : addParam result pair = .ok
    (match Scan.indexOf [0x3D] pair with
      | none => result.set (Frag.urlDecode pair) []
      | some eq => result.set (Frag.urlDecode (pair.take eq)) (Frag.urlDecode (pair.drop (eq + 1)))) := by
  unfold addParam
  rw [find_zero]
  cases heq : Scan.indexOf [0x3D] pair with
  | none =>
    simp only [urlDecode_eq, ok_bind]
    rfl
  | some eq =>
    have hlt := (lt_of_find (find_zero.trans heq)).2
    simp only [substr_of_le (Nat.zero_le _), substrFrom_of_le hlt, ok_bind, urlDecode_eq,
      List.drop_zero]
    rfl

theorem parseQuery_eq (qs : Bytes) : parseQuery qs = .ok (Frag.parseQuery qs) :=
  foldlM_ok addParam_eq (split qs 0x26) OrderedMap.empty

theorem parseTarget_eq (rawPath : Bytes) : parseTarget rawPath = .ok (Frag.parseTarget rawPath) := by
  unfold parseTarget Frag.parseTarget
  rw [find_zero]
  cases hqpos : Scan.indexOf [0x3F] rawPath with
  | none => simp only [urlDecode_eq, ok_bind]; rfl
  | some qpos =>
    have hlt := (lt_of_find (find_zero.trans hqpos)).2
    simp only [substr_of_le (Nat.zero_le _), substrFrom_of_le hlt, ok_bind, urlDecode_eq,
      parseQuery_eq, List.drop_zero]
    rfl

theorem rawPath_eq {requestLine : Bytes} {pStart : Nat} (h : pStart ≤ requestLine.length) :
    rawPath requestLine pStart = .ok ((Scan.indexOf [0x20] (requestLine.drop pStart)).elim
      (requestLine.drop pStart) (requestLine.drop pStart).take) := by
  rw [rawPath, find_eq]
  cases Scan.indexOf [0x20] (requestLine.drop pStart) with
  | none =>
    rw [Option.map_none, Option.getD_none, Option.elim_none, sub_of_le h, ok_bind, substr_of_le h,
      List.take_of_length_le (by rw [List.length_drop])]
  | some i =>
    rw [Option.map_some, Option.getD_some, Option.elim_some, sub_of_le (by omega), ok_bind,
      substr_of_le h, Nat.add_sub_cancel]

theorem bodyOf_eq (raw : Bytes) (headersEnd : Nat) :
    bodyOf raw headersEnd = .ok (if 0 < headersEnd then raw.drop headersEnd else []) := by
  unfold bodyOf
  split_ifs with hboth hpos hpos
  · exact substrFrom_of_le hboth.2.le
  · exact absurd hboth.1 hpos
  · -- Nothing follows the headers.
    rw [List.drop_eq_nil_of_le (by omega)]
  · rfl

theorem parse_eq (s : ReadState) : parse s = .ok s.parse := by
  unfold parse ReadState.parse
  rw [find_zero]
  cases Scan.indexOf (lit "\r\n") s.raw with
  | none => rfl
  | some lineEnd =>
    simp only [substr_of_le (Nat.zero_le _), ok_bind, List.drop_zero, find_zero]
    generalize s.raw.take lineEnd = requestLine
    cases hspace : Scan.indexOf [0x20] requestLine with
    | none => rfl
    | some mEnd =>
      have hlt := (lt_of_find (find_zero.trans hspace)).2
      simp only [rawPath_eq hlt, parseTarget_eq, headersLoop_eq, bodyOf_eq, ok_bind]
      rfl

/-- **A request is read without a position out of range**, whatever arrives and wherever it
    is cut. -/
theorem readAndParse_eq (segs : List Segment) : readAndParse segs = .ok (Frag.readAndParse segs) := by
  rw [readAndParse, loop_eq, ok_bind, parse_eq]
  rfl

/-! ## Patterns -/

/-- `!pp[i].empty() && pp[i][0] == ':'` -/
def isParam (segment : Bytes) : Checked Bool :=
  if segment = [] then .ok false else do return (← get segment 0) == 0x3A

/-- The loop of `match_pattern` over the segments of the pattern and of the path. -/
def matchLoop (pp cp : List Bytes) (i : Nat) (params : Params) : Checked (Option Params) :=
  if i < pp.length then do
    let segment ← get pp i
    if ← isParam segment then
      let name ← substrFrom segment 1
      matchLoop pp cp (i + 1) (params.set name (← get cp i))
    else if segment ≠ (← get cp i) then .ok none
    else matchLoop pp cp (i + 1) params
  else .ok (some params)
termination_by pp.length - i

/-- `HttpServer::match_pattern` -/
def matchPattern (pattern path : Bytes) : Checked (Option Params) :=
  let pp := split pattern 0x2F
  let cp := split path 0x2F
  if pp.length ≠ cp.length then .ok none else matchLoop pp cp 0 .empty

theorem isParam_cons (c : UInt8) (name : Bytes) : isParam (c :: name) = .ok (c == 0x3A) := rfl

theorem matchLoop_eq {pp cp : List Bytes} (hlength : pp.length = cp.length) (i : Nat)
    (params : Params) : matchLoop pp cp i params = .ok (((pp.drop i).zip (cp.drop i)).foldlM
      (fun params p =>
        match p.1 with
        | 0x3A :: name => some (params.set name p.2)
        | _ => if p.1 = p.2 then some params else none) params) := by
  rw [matchLoop]
  split
  · rename_i hlt
    have hlt' : i < cp.length := hlength ▸ hlt
    rw [List.drop_eq_getElem_cons hlt, List.drop_eq_getElem_cons hlt', List.zip_cons_cons,
      List.foldlM_cons, get_of_lt hlt, ok_bind, get_of_lt hlt']
    generalize pp[i] = segment
    -- A segment with a colon is a parameter; every other one has to be met.
    split
    · rename_i name hname
      obtain rfl : segment = 0x3A :: name := hname
      rw [isParam_cons, ok_bind, if_pos (beq_self_eq_true _), substrFrom_of_le (by simp), ok_bind, ok_bind,
        matchLoop_eq hlength (i + 1)]
      rfl
    · rename_i hnot
      have hplain : isParam segment = .ok false := by
        cases segment with
        | nil => rfl
        | cons c name =>
          have hc : (c == 0x3A) = false := by
            rw [beq_eq_false_iff_ne]
            rintro rfl
            exact hnot name rfl
          rw [isParam_cons, hc]
      rw [hplain, ok_bind, if_neg Bool.false_ne_true, ok_bind]
      by_cases hsame : segment = cp[i]
      · rw [if_neg (not_not.mpr hsame), if_pos hsame, matchLoop_eq hlength (i + 1)]
        rfl
      · rw [if_pos hsame, if_neg hsame]
        rfl
  · rename_i hend
    rw [List.drop_eq_nil_of_le (Nat.not_lt.mp hend)]
    rfl
termination_by pp.length - i

theorem matchPattern_eq (pattern path : Bytes) :
    matchPattern pattern path = .ok (Frag.matchPattern pattern path) := by
  unfold matchPattern Frag.matchPattern
  simp only
  split
  · rfl
  · rename_i hlength
    exact matchLoop_eq (not_not.mp hlength) 0 .empty

end Checked

end Frag
