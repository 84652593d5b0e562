import Frag.Client.Addresses
import Frag.Guarantees.Reading

/-!
# Resources Named in Paths

The server decodes the path of a request before it splits it at the slashes, and the split
drops an empty last segment; the value is then bound as a C string. So a name can be taken
for another one, or for none.

## Main results

- `named_resource_is_addressed_iff`: a DELETE removes the row it names, and a GET returns the
  fragments of the message it names, iff the name is `Addressable`.
-/

namespace Frag

open Unicode

/-! ## Names -/

/-- A name that the request carries to the table: UTF-8 text without slash and NUL, and no
    dot segment. -/
structure Addressable (b : Bytes) : Prop where
  noNul : 0 ∉ b
  noSlash : 0x2F ∉ b
  notDot : b ≠ [0x2E]
  notDots : b ≠ [0x2E, 0x2E]
  utf8 : toWire (fromWire b) = b

instance (b : Bytes) : Decidable (Addressable b) :=
  decidable_of_iff (0 ∉ b ∧ 0x2F ∉ b ∧ b ≠ [0x2E] ∧ b ≠ [0x2E, 0x2E] ∧ toWire (fromWire b) = b)
    ⟨fun ⟨h₁, h₂, h₃, h₄, h₅⟩ => ⟨h₁, h₂, h₃, h₄, h₅⟩,
      fun h => ⟨h.noNul, h.noSlash, h.notDot, h.notDots, h.utf8⟩⟩

/-- What the browser sends of a name is UTF-8. -/
theorem toWire_fromWire (b : Bytes) : toWire (fromWire b) = utf8 (utf8Decode b) := by
  rw [toWire, fromWire, scalars_utf16]

/-- UTF-8 text up to an ASCII character is UTF-8 text. -/
theorem exists_utf8_of_append {cs : List Char} {a t : Bytes} {x : UInt8} (hx : x.toNat < 0x80)
    (h : utf8 cs = a ++ x :: t) : ∃ ds, a = utf8 ds := by
  have hc : String.utf8EncodeChar (Char.ofNat x.toNat) = [x] := by
    have hascii : Ascii [Char.ofNat x.toNat] := by
      simp [Ascii, toNat_charOfNat hx, hx]
    have hone := utf8_of_ascii hascii
    rw [List.map_singleton, toNat_charOfNat hx, UInt8.ofNat_toNat] at hone
    simpa [utf8] using hone
  have hother : ∀ d, x ∈ String.utf8EncodeChar d → d = Char.ofNat x.toNat := by
    intro d hd
    rw [← toNat_of_mem_utf8 hd hx, Char.ofNat_toNat]
  obtain ⟨ds, es, rfl, rfl⟩ := flatMap_eq_append_cons hc hother h
  refine ⟨ds, ?_⟩
  rw [utf8_append, utf8_cons, hc, List.singleton_append] at h
  exact (List.append_cancel_right h).symm

theorem cStr_append {a : Bytes} (h : 0 ∉ a) (t : Bytes) : (cStr (a ++ 0 :: t)).bytes = a := by
  have hall : ∀ c ∈ a, (c != 0) = true := fun c hc => bne_iff_ne.mpr fun e => h (e ▸ hc)
  change (a ++ 0 :: t).takeWhile (· != 0) = a
  rw [List.takeWhile_append_of_pos hall, List.takeWhile_cons_of_neg (by decide), List.append_nil]

/-- What is bound of UTF-8 text is UTF-8 text. -/
theorem exists_utf8_cStr (cs : List Char) : ∃ ds, (cStr (utf8 cs)).bytes = utf8 ds := by
  by_cases hnul : 0 ∈ utf8 cs
  · obtain ⟨a, t, ha, hno⟩ := List.eq_append_cons_of_mem hnul
    obtain ⟨ds, rfl⟩ := exists_utf8_of_append (by decide) ha
    exact ⟨ds, by rw [ha, cStr_append hno]⟩
  · exact ⟨cs, cStr_of_noNul hnul⟩

theorem toWire_fromWire_utf8 (cs : List Char) : toWire (fromWire (utf8 cs)) = utf8 cs := by
  rw [toWire_fromWire, utf8Decode_utf8]

/-! ## Paths -/

/-- The request line of a request gives its method and its target. -/
theorem requestOf_line {method target : Bytes} (hmethod : 0x20 ∉ method ∧ 0x0D ∉ method)
    (htarget : 0x20 ∉ target ∧ 0x0D ∉ target) (headers : Bytes) :
    let req := requestOf (httpRequest method target headers)
    req.method = method ∧ (req.path, req.queryParams) = parseTarget target := by
  have hline : httpRequest method target headers =
      (method ++ 0x20 :: (target ++ lit " HTTP/1.1")) ++ (lit "\r\n" ++ headers) := by
    have hlit : lit " HTTP/1.1\r\n" = lit " HTTP/1.1" ++ lit "\r\n" := by decide
    rw [httpRequest, hlit]
    simp only [List.append_assoc, List.cons_append]
  have hcrlf : Scan.indexOf (lit "\r\n") (httpRequest method target headers) =
      some (method ++ 0x20 :: (target ++ lit " HTTP/1.1")).length := by
    have hnot : 0x0D ∉ method ++ 0x20 :: (target ++ lit " HTTP/1.1") := by
      have hversion : 0x0D ∉ lit " HTTP/1.1" := by decide
      simp [hmethod.2, htarget.2, hversion]
    rw [hline]
    exact Scan.indexOf_append_of_prefix hnot (List.prefix_append (lit "\r\n") headers)
  -- The first space ends the method, and the next one the target.
  have hspace : Scan.indexOf [0x20] (method ++ 0x20 :: (target ++ lit " HTTP/1.1")) =
      some method.length := Scan.indexOf_append_of_prefix hmethod.1 ⟨_, rfl⟩
  have hspace' : Scan.indexOf [0x20] (target ++ lit " HTTP/1.1") = some target.length :=
    Scan.indexOf_append_of_prefix htarget.1 ⟨lit "HTTP/1.1", rfl⟩
  have htake : (httpRequest method target headers).take
      (method ++ 0x20 :: (target ++ lit " HTTP/1.1")).length =
        method ++ 0x20 :: (target ++ lit " HTTP/1.1") := by rw [hline, List.take_left]
  have hrest : (method ++ 0x20 :: (target ++ lit " HTTP/1.1")).drop (method.length + 1) =
      target ++ lit " HTTP/1.1" := by simp
  simp only [requestOf, ReadState.parse, ReadState.ofRaw, hcrlf, htake, hspace, hrest, hspace',
    Option.elim_some, List.take_left, Prod.mk.eta, and_self]

/-- Without a query the target is the path. -/
theorem requestOf_httpRequest {method target : Bytes} (hmethod : 0x20 ∉ method ∧ 0x0D ∉ method)
    (htarget : 0x20 ∉ target ∧ 0x0D ∉ target ∧ 0x3F ∉ target) (headers : Bytes) :
    (requestOf (httpRequest method target headers)).method = method ∧
      (requestOf (httpRequest method target headers)).path = urlDecode target := by
  obtain ⟨hparsed, hquery⟩ := requestOf_line hmethod ⟨htarget.1, htarget.2.1⟩ headers
  have hnone : parseTarget target = (urlDecode target, .empty) := by
    rw [parseTarget, Scan.indexOf_of_notMem htarget.2.2]
  exact ⟨hparsed, congrArg Prod.fst (hquery.trans hnone)⟩

/-- The parts between the slashes, of which there is one more than slashes. -/
theorem length_getlines (delim : UInt8) (item s t : Bytes) :
    (getlines delim item (s ++ delim :: t)).length =
      s.count delim + 1 + (split t delim).length := by
  induction s generalizing item with
  | nil =>
    rw [List.nil_append, getlines, if_pos rfl, List.length_cons, List.count_nil]
    exact Nat.add_comm _ _
  | cons c s ih =>
    rw [List.cons_append, getlines, List.count_cons]
    split
    · rename_i hc
      rw [List.length_cons, ih, hc, beq_self_eq_true, if_pos rfl, Nat.add_right_comm]
    · rename_i hc
      rw [ih, if_neg (by simpa using hc)]

/-- The path below the collection of the fragments. -/
theorem split_resource (w : Bytes) : split (lit "/api/fragments/" ++ w) 0x2F =
    [] :: lit "api" :: lit "fragments" :: split w 0x2F := by
  have hpath : lit "/api/fragments/" ++ w =
      [] ++ 0x2F :: (lit "api" ++ 0x2F :: (lit "fragments" ++ 0x2F :: w)) := by
    rfl
  rw [hpath, split_append (by decide), split_append (by decide), split_append (by decide)]

/-- The name under `/api/fragments/`, if the path has a single segment there. -/
theorem matchPattern_id (w : Bytes) :
    matchPattern (lit "/api/fragments/:id") (lit "/api/fragments/" ++ w) =
      match split w 0x2F with
      | [name] => some (OrderedMap.empty.set (lit "id") name)
      | _ => none := by
  have hpattern : split (lit "/api/fragments/:id") 0x2F =
      [[], lit "api", lit "fragments", lit ":id"] := by decide
  rw [matchPattern, hpattern, split_resource]
  match split w 0x2F with
  | [] => rfl
  | [name] => rfl
  | a :: b :: l => rfl

/-- The name of a message, if it has no slash. -/
theorem matchPattern_all {w : Bytes} (h : 0x2F ∉ w) :
    matchPattern (lit "/api/fragments/:message_id/all")
      (lit "/api/fragments/" ++ (w ++ 0x2F :: lit "all")) =
        some (OrderedMap.empty.set (lit "message_id") w) := by
  have hpattern : split (lit "/api/fragments/:message_id/all") 0x2F =
      [[], lit "api", lit "fragments", lit ":message_id", lit "all"] := by decide
  have hall : split (lit "all") 0x2F = [lit "all"] := by decide
  rw [matchPattern, hpattern, split_resource, split_append h, hall]
  rfl

/-- A name with a slash makes more segments than the pattern has. -/
theorem matchPattern_all_of_slash {w : Bytes} (h : 0x2F ∈ w) :
    matchPattern (lit "/api/fragments/:message_id/all")
      (lit "/api/fragments/" ++ (w ++ 0x2F :: lit "all")) = none := by
  have hcount : 0 < w.count 0x2F := List.count_pos_iff.mpr h
  have hlength : (split (w ++ 0x2F :: lit "all") 0x2F).length = w.count 0x2F + 1 + 1 :=
    length_getlines 0x2F [] w (lit "all")
  have hpattern : (split (lit "/api/fragments/:message_id/all") 0x2F).length = 5 := by decide
  refine if_pos fun heq => ?_
  rw [hpattern, split_resource] at heq
  simp only [List.length_cons, hlength] at heq
  omega

theorem split_ne_nil {s : Bytes} (h : s ≠ []) (delim : UInt8) : split s delim ≠ [] := by
  by_cases hmem : delim ∈ s
  · obtain ⟨a, t, rfl, ha⟩ := List.eq_append_cons_of_mem hmem
    rw [split_append ha]
    exact List.cons_ne_nil _ _
  · rw [split_of_notMem hmem h]
    exact List.cons_ne_nil _ _

/-- The first of several parts ends with the delimiter. -/
theorem of_split_eq_cons {delim : UInt8} {s a b : Bytes} {l : List Bytes}
    (h : split s delim = a :: b :: l) : ∃ t, s = a ++ delim :: t ∧ split t delim = b :: l := by
  by_cases hmem : delim ∈ s
  · obtain ⟨a', t, rfl, ha⟩ := List.eq_append_cons_of_mem hmem
    rw [split_append ha] at h
    obtain ⟨rfl, htail⟩ := List.cons.inj h
    exact ⟨t, rfl, htail⟩
  · have hne : s ≠ [] := by
      rintro rfl
      cases h
    rw [split_of_notMem hmem hne] at h
    cases h

/-- A text with a single part is the part, perhaps with the delimiter after it. -/
theorem of_split_eq_singleton {delim : UInt8} {s name : Bytes} (h : split s delim = [name]) :
    delim ∉ name ∧ (s = name ∨ s = name ++ [delim]) := by
  by_cases hmem : delim ∈ s
  · obtain ⟨a, t, rfl, ha⟩ := List.eq_append_cons_of_mem hmem
    rw [split_append ha] at h
    obtain ⟨rfl, hnil⟩ := List.cons.inj h
    have ht : t = [] := by
      by_contra hne
      exact split_ne_nil hne delim hnil
    exact ⟨ha, .inr (by rw [ht])⟩
  · have hne : s ≠ [] := by
      rintro rfl
      cases h
    rw [split_of_notMem hmem hne] at h
    obtain rfl := List.head_eq_of_cons_eq h
    exact ⟨hmem, .inl rfl⟩

/-! ## Requests -/

open Url in
/-- The request for a resource that is no dot segment. -/
theorem requestOf_named {method w : Bytes} (hmethod : 0x20 ∉ method ∧ 0x0D ∉ method)
    (hsingle : w ≠ [0x2E]) (hdouble : w ≠ [0x2E, 0x2E]) (tail : List Bytes)
    (htail : ∀ s ∈ tail, isSingleDot s = false ∧ isDoubleDot s = false ∧
      ∀ c ∈ [0x20, 0x0D, 0x3F, 0x25, 0x2B], c ∉ s) (headers : Bytes) :
    let req := requestOf (httpRequest method
      (requestTarget ([lit "api", lit "fragments", percentEncode isUnescaped w] ++ tail)) headers)
    req.method = method ∧ req.path = lit "/api/fragments/" ++ (w ++ joinPath tail) := by
  simp only
  rw [requestTarget_eq hsingle hdouble fun s hs => ⟨(htail s hs).1, (htail s hs).2.1⟩]
  have hjoin : ∀ c ∈ [0x20, 0x0D, 0x3F, 0x25, 0x2B], c ∉ joinPath tail := by
    intro c hc hmem
    obtain ⟨s, hs, hin⟩ := List.mem_flatMap.mp hmem
    rcases List.mem_cons.mp hin with rfl | hin
    · exact absurd hc (by decide)
    · exact (htail s hs).2.2 c hc hin
  have hclean : ∀ c ∈ [0x20, 0x0D, 0x3F],
      c ∉ lit "/api/fragments/" ++ (percentEncode isUnescaped w ++ joinPath tail) := by
    intro c hc
    simp only [List.mem_cons, List.not_mem_nil, or_false] at hc
    rw [List.mem_append, List.mem_append, not_or, not_or]
    rcases hc with rfl | rfl | rfl
    · exact ⟨by decide, notMem_encoded w _ (by decide), hjoin _ (by decide)⟩
    · exact ⟨by decide, notMem_encoded w _ (by decide), hjoin _ (by decide)⟩
    · exact ⟨by decide, notMem_encoded w _ (by decide), hjoin _ (by decide)⟩
  have hparsed := requestOf_httpRequest hmethod
    ⟨hclean 0x20 (by decide), hclean 0x0D (by decide), hclean 0x3F (by decide)⟩ headers
  refine ⟨hparsed.1, hparsed.2.trans ?_⟩
  -- The name is decoded again, and the rest has nothing to decode.
  have htext : urlDecode (joinPath tail) = joinPath tail := by
    have hcopy := urlDecode_append (hjoin 0x25 (by decide)) (hjoin 0x2B (by decide)) []
    rwa [List.append_nil, urlDecode, List.append_nil] at hcopy
  rw [urlDecode_append (by decide) (by decide), urlDecode_percentEncode (by decide) (by decide),
    htext]

/-! ## Responses -/

section Responses

variable {ctx : AppContext} {corsOrigin : Bytes} {now : Int} {req : HttpRequest}

/-- An authorised DELETE removes the row with the id in its path, if there is one. -/
theorem rows_respond_delete (hmethod : req.method = lit "DELETE")
    (hauth : isAuthorized req ctx.auth = true) (db : Database) :
    ((ctx.server corsOrigin).respond now db req).2.rows =
      match matchPattern (lit "/api/fragments/:id") req.path with
      | none => db.rows
      | some params =>
        let id := (params.get? (lit "id")).getD []
        if id = [] then db.rows else db.rows.filter fun r => r.id ≠ cStr id := by
  have hdelete : (⟨lit "DELETE", lit "/api/fragments/:id", ctx.makeDeleteFragmentHandler⟩ : Route) ∈
      ctx.routes := by simp [AppContext.routes]
  rcases AppContext.respond_cases ctx corsOrigin now req with
    ⟨hrefuse, error, heq⟩ | ⟨r, hr, haccept, heq⟩
  · have hnone : matchPattern (lit "/api/fragments/:id") req.path = none := by
      by_contra hne
      have haccept := (AppContext.accepts_iff hdelete).mpr
        ⟨Option.ne_none_iff_isSome.mp hne, hmethod.symm⟩
      exact absurd haccept (by simp [hrefuse _ hdelete])
    rw [heq, hnone]
  · obtain ⟨hmatch, hroute⟩ := (AppContext.accepts_iff hr).mp haccept
    rw [hmethod] at hroute
    have hget : lit "GET" ≠ lit "DELETE" := by decide
    have hpost : lit "POST" ≠ lit "DELETE" := by decide
    rw [heq]
    simp only [AppContext.routes, List.mem_cons, List.not_mem_nil, or_false] at hr
    -- The last route is the only one with the method.
    rcases hr with rfl | rfl | rfl | rfl | rfl
    · exact absurd hroute hget
    · exact absurd hroute hpost
    · exact absurd hroute hget
    · exact absurd hroute hget
    · obtain ⟨params, hparams⟩ := Option.isSome_iff_exists.mp hmatch
      simp only at hparams
      have hauth' : isAuthorized { req with pathParams := params } ctx.auth = true := hauth
      simp only [Route.handle, hparams, Option.getD_some, AppContext.makeDeleteFragmentHandler,
        hauth', Bool.not_true, Bool.false_eq_true, if_false]
      split <;> rfl

/-- The answer to an authorised GET of a message. -/
theorem makeGetMessageFragmentsHandler_set (hauth : isAuthorized req ctx.auth = true) (m : Bytes)
    (db : Database) : ctx.makeGetMessageFragmentsHandler now db
        { req with pathParams := OrderedMap.empty.set (lit "message_id") m } =
      if m = [] then (.badRequest "missing message_id", db)
      else (.ok (fragmentsArray (db.getMessageFragments m)), db) := by
  have hauth' : isAuthorized { req with pathParams := OrderedMap.empty.set (lit "message_id") m }
      ctx.auth = true := hauth
  simp only [AppContext.makeGetMessageFragmentsHandler, hauth', Bool.not_true, Bool.false_eq_true,
    if_false, OrderedMap.get?_set_self, Option.getD_some]

/-- A GET of a resource under `/api/fragments/` is answered by the route for messages, or it
    is an error. -/
theorem respond_get (ctx : AppContext) (corsOrigin : Bytes) (now : Int)
    (hmethod : req.method = lit "GET") {v : Bytes} (hv : v ≠ [])
    (hpath : req.path = lit "/api/fragments/" ++ v) (db : Database) :
    ∃ error ∈ [HttpResponse.notFound, HttpResponse.methodNotAllowed],
      (ctx.server corsOrigin).respond now db req =
        match matchPattern (lit "/api/fragments/:message_id/all") req.path with
        | none => (error, db)
        | some params => ctx.makeGetMessageFragmentsHandler now db { req with pathParams := params } := by
  -- The shorter patterns do not match.
  have hshort : ∀ pattern : Bytes, (split pattern 0x2F).length ≤ 3 →
      matchPattern pattern req.path = none := by
    intro pattern hpattern
    refine if_pos fun hlength => ?_
    have hlong := List.length_pos_iff.mpr (split_ne_nil hv 0x2F)
    rw [hlength, hpath, split_resource] at hpattern
    simp only [List.length_cons] at hpattern
    omega
  have hoptions : ¬ req.method = lit "OPTIONS" := by
    rw [hmethod]
    decide
  have hget : ¬ (lit "GET" ≠ lit "*" ∧ lit "GET" ≠ req.method) := fun h => h.2 hmethod.symm
  have hdelete : lit "DELETE" ≠ lit "*" ∧ lit "DELETE" ≠ req.method := by
    rw [hmethod]
    decide
  simp only [HttpServer.respond, if_neg hoptions, AppContext.server, AppContext.routes,
    HttpServer.route, hshort (lit "/health") (by decide), hshort (lit "/api/fragments") (by decide)]
  cases matchPattern (lit "/api/fragments/:message_id/all") req.path with
  | some params =>
    refine ⟨.notFound, List.mem_cons_self, ?_⟩
    simp only [if_neg hget]
  | none =>
    cases matchPattern (lit "/api/fragments/:id") req.path with
    | none => exact ⟨.notFound, List.mem_cons_self, rfl⟩
    | some params =>
      refine ⟨.methodNotAllowed, List.mem_cons_of_mem _ List.mem_cons_self, ?_⟩
      simp only [if_pos hdelete, if_true]

end Responses

/-! ## DELETE -/

/-- The id that a DELETE of `w` acts on. -/
def namedId (w : Bytes) : Option Bytes :=
  if w = [0x2E] ∨ w = [0x2E, 0x2E] then none
  else
    match split w 0x2F with
    | [name] => if name = [] then none else some name
    | _ => none

theorem deleteFragment_eq_some {b headers bytes : Bytes}
    (h : deleteFragment headers (fromWire b) = some bytes) : bytes = httpRequest (lit "DELETE")
      (requestTarget ([lit "api", lit "fragments",
        Url.percentEncode isUnescaped (toWire (fromWire b))] ++ [])) headers := by
  rw [deleteFragment, encodeURIComponent_fromWire, Option.map_some, Option.some.injEq] at h
  exact h.symm

/-- **What a DELETE removes**: the row with the id that the name comes to. -/
theorem rows_deleteFragment {ctx : AppContext} {b headers bytes : Bytes}
    (h : deleteFragment headers (fromWire b) = some bytes)
    (hauth : isAuthorized (requestOf bytes) ctx.auth = true) (corsOrigin : Bytes) (now : Int)
    (db : Database) : ((ctx.server corsOrigin).respond now db (requestOf bytes)).2.rows =
      match namedId (toWire (fromWire b)) with
      | none => db.rows
      | some i => db.rows.filter fun r => r.id ≠ cStr i := by
  obtain rfl := deleteFragment_eq_some h
  generalize toWire (fromWire b) = w at hauth ⊢
  have hclean : 0x20 ∉ lit "DELETE" ∧ 0x0D ∉ lit "DELETE" := by decide
  by_cases hdot : w = [0x2E] ∨ w = [0x2E, 0x2E]
  · -- The browser resolves the name, and no id is left.
    rw [namedId, if_pos hdot]
    have hpath : ∃ target, 0x20 ∉ target ∧ 0x0D ∉ target ∧ 0x3F ∉ target ∧
        requestTarget ([lit "api", lit "fragments", Url.percentEncode isUnescaped w] ++ []) =
          target ∧ matchPattern (lit "/api/fragments/:id") (urlDecode target) = none := by
      rcases hdot with rfl | rfl
      · exact ⟨lit "/api/fragments/", by decide⟩
      · exact ⟨lit "/api/", by decide⟩
    obtain ⟨target, hspace, hline, hquery, htarget, hmatch⟩ := hpath
    rw [htarget] at hauth ⊢
    obtain ⟨hmethod, hurl⟩ := requestOf_httpRequest hclean ⟨hspace, hline, hquery⟩ headers
    rw [rows_respond_delete hmethod hauth, hurl, hmatch]
  · rw [namedId, if_neg hdot]
    rw [not_or] at hdot
    obtain ⟨hmethod, hurl⟩ := requestOf_named hclean hdot.1 hdot.2 []
      (fun s hs => absurd hs List.not_mem_nil) headers
    rw [rows_respond_delete hmethod hauth, hurl]
    have hnil : w ++ Url.joinPath [] = w := List.append_nil w
    rw [hnil, matchPattern_id]
    cases split w 0x2F with
    | nil => rfl
    | cons name rest =>
      cases rest with
      | nil =>
        simp only [OrderedMap.get?_set_self, Option.getD_some]
        split <;> rfl
      | cons a l => rfl

/-! ## GET -/

/-- The message that a GET of `w` asks for. -/
def namedMessage (w : Bytes) : Option Bytes :=
  if w = [0x2E] ∨ w = [0x2E, 0x2E] ∨ 0x2F ∈ w ∨ w = [] then none else some w

theorem getMessageFragments_eq_some {b headers bytes : Bytes}
    (h : getMessageFragments headers (fromWire b) = some bytes) : bytes = httpRequest (lit "GET")
      (requestTarget ([lit "api", lit "fragments",
        Url.percentEncode isUnescaped (toWire (fromWire b))] ++ [lit "all"])) headers := by
  rw [getMessageFragments, encodeURIComponent_fromWire, Option.map_some, Option.some.injEq] at h
  exact h.symm

/-- A path that no pattern matches. -/
private theorem respond_api_all {ctx : AppContext} {corsOrigin : Bytes} {now : Int}
    {req : HttpRequest} (hmethod : req.method = lit "GET") (hpath : req.path = lit "/api/all")
    (db : Database) : (ctx.server corsOrigin).respond now db req = (.notFound, db) := by
  have hnone : ∀ pattern ∈ [lit "/health", lit "/api/fragments",
      lit "/api/fragments/:message_id/all", lit "/api/fragments/:id"],
      matchPattern pattern (lit "/api/all") = none := by decide
  have hoptions : ¬ req.method = lit "OPTIONS" := by
    rw [hmethod]
    decide
  simp only [HttpServer.respond, if_neg hoptions, AppContext.server, AppContext.routes,
    HttpServer.route, hpath, hnone (lit "/health") (by decide),
    hnone (lit "/api/fragments") (by decide), hnone (lit "/api/fragments/:message_id/all") (by decide),
    hnone (lit "/api/fragments/:id") (by decide)]
  rfl

/-- **What a GET returns**: the fragments of the message that the name comes to, or an
    error. -/
theorem respond_getMessageFragments {ctx : AppContext} {b headers bytes : Bytes}
    (h : getMessageFragments headers (fromWire b) = some bytes)
    (hauth : isAuthorized (requestOf bytes) ctx.auth = true) (corsOrigin : Bytes) (now : Int)
    (db : Database) :
    match namedMessage (toWire (fromWire b)) with
    | some m => ((ctx.server corsOrigin).respond now db (requestOf bytes)).1 =
        .ok (fragmentsArray (db.getMessageFragments m))
    | none => ((ctx.server corsOrigin).respond now db (requestOf bytes)).1.statusCode ≠ 200 := by
  obtain rfl := getMessageFragments_eq_some h
  generalize toWire (fromWire b) = w at hauth ⊢
  have hclean : 0x20 ∉ lit "GET" ∧ 0x0D ∉ lit "GET" := by decide
  have hstatus : ∀ error ∈ [HttpResponse.notFound, HttpResponse.methodNotAllowed],
      error.statusCode ≠ 200 := by decide
  by_cases hdot : w = [0x2E]
  · -- The name is dropped, and the path is that of a fragment.
    subst hdot
    have htarget : requestTarget ([lit "api", lit "fragments",
        Url.percentEncode isUnescaped [0x2E]] ++ [lit "all"]) = lit "/api/fragments/all" := by decide
    have hplain : 0x20 ∉ lit "/api/fragments/all" ∧ 0x0D ∉ lit "/api/fragments/all" ∧
        0x3F ∉ lit "/api/fragments/all" := by decide
    have hpath : urlDecode (lit "/api/fragments/all") = lit "/api/fragments/" ++ lit "all" := by decide
    have hnone : matchPattern (lit "/api/fragments/:message_id/all") (lit "/api/fragments/" ++ lit "all") =
        none := by decide
    rw [htarget] at hauth ⊢
    obtain ⟨hmethod, hurl⟩ := requestOf_httpRequest hclean hplain headers
    rw [hpath] at hurl
    obtain ⟨error, herror, heq⟩ := respond_get ctx corsOrigin now hmethod
      (by decide) hurl db
    rw [heq, hurl, hnone]
    exact hstatus error herror
  by_cases hdots : w = [0x2E, 0x2E]
  · subst hdots
    have htarget : requestTarget ([lit "api", lit "fragments",
        Url.percentEncode isUnescaped [0x2E, 0x2E]] ++ [lit "all"]) = lit "/api/all" := by decide
    have hplain : 0x20 ∉ lit "/api/all" ∧ 0x0D ∉ lit "/api/all" ∧ 0x3F ∉ lit "/api/all" := by decide
    have hpath : urlDecode (lit "/api/all") = lit "/api/all" := by decide
    rw [htarget] at hauth ⊢
    obtain ⟨hmethod, hurl⟩ := requestOf_httpRequest hclean hplain headers
    rw [respond_api_all hmethod (hurl.trans hpath)]
    exact hstatus .notFound List.mem_cons_self
  · have htail : ∀ s ∈ [lit "all"], Url.isSingleDot s = false ∧ Url.isDoubleDot s = false ∧
        ∀ c ∈ [0x20, 0x0D, 0x3F, 0x25, 0x2B], c ∉ s := by
      intro s hs
      obtain rfl := List.mem_singleton.mp hs
      refine ⟨by decide, by decide, fun c hc => ?_⟩
      simp only [List.mem_cons, List.not_mem_nil, or_false] at hc
      rcases hc with rfl | rfl | rfl | rfl | rfl <;> decide
    obtain ⟨hmethod, hurl⟩ := requestOf_named hclean hdot hdots [lit "all"] htail headers
    have hjoin : Url.joinPath [lit "all"] = 0x2F :: lit "all" := by decide
    rw [hjoin] at hurl
    obtain ⟨error, herror, heq⟩ := respond_get ctx corsOrigin now hmethod
      (by simp) hurl db
    rw [heq]
    by_cases hslash : 0x2F ∈ w
    · -- There are too many segments.
      rw [hurl, matchPattern_all_of_slash hslash, namedMessage, if_pos (.inr (.inr (.inl hslash)))]
      exact hstatus error herror
    · simp only [congrArg (matchPattern (lit "/api/fragments/:message_id/all")) hurl,
        matchPattern_all hslash, makeGetMessageFragmentsHandler_set hauth]
      by_cases hempty : w = []
      · rw [namedMessage, if_pos (.inr (.inr (.inr hempty))), if_pos hempty]
        exact (by decide : (400 : Nat) ≠ 200)
      · rw [namedMessage, if_neg (by simp [hdot, hdots, hslash, hempty]), if_neg hempty]

/-! ## Which names arrive -/

/-- A name that comes to itself is addressable. -/
theorem addressable_of_cStr {b i : Bytes} (hdot : toWire (fromWire b) ≠ [0x2E])
    (hdots : toWire (fromWire b) ≠ [0x2E, 0x2E]) (hslash : 0x2F ∉ i)
    (hw : toWire (fromWire b) = i ∨ toWire (fromWire b) = i ++ [0x2F])
    (hi : (cStr i).bytes = b) : Addressable b := by
  have hutf8 : ∃ ds, i = utf8 ds := by
    rw [toWire_fromWire] at hw
    rcases hw with hw | hw
    · exact ⟨_, hw.symm⟩
    · exact exists_utf8_of_append (by decide) hw
  -- What is bound of the text is valid, so the browser sends it as it is.
  have hwire : toWire (fromWire b) = b := by
    obtain ⟨ds, rfl⟩ := hutf8
    obtain ⟨es, hes⟩ := exists_utf8_cStr ds
    rw [← hi, hes, toWire_fromWire_utf8]
  have hle : b.length ≤ i.length := by
    rw [← hi]
    exact (List.takeWhile_prefix _).length_le
  have hbi : b = i := by
    rcases hw with hw | hw
    · exact hwire.symm.trans hw
    · have hlength := congrArg List.length (hwire.symm.trans hw)
      rw [List.length_append, List.length_singleton] at hlength
      omega
  exact ⟨hi ▸ (cStr i).noNul, hbi ▸ hslash, hwire ▸ hdot, hwire ▸ hdots, hwire⟩

theorem addressable_of_namedId {b i : Bytes} (h : namedId (toWire (fromWire b)) = some i)
    (hi : (cStr i).bytes = b) : Addressable b := by
  unfold namedId at h
  split at h
  · cases h
  · rename_i hdot
    rw [not_or] at hdot
    split at h
    · rename_i name hsplit
      split at h
      · cases h
      · cases h
        obtain ⟨hslash, hw⟩ := of_split_eq_singleton hsplit
        exact addressable_of_cStr hdot.1 hdot.2 hslash hw hi
    · cases h

theorem addressable_of_namedMessage {b m : Bytes} (h : namedMessage (toWire (fromWire b)) = some m)
    (hm : (cStr m).bytes = b) : Addressable b := by
  unfold namedMessage at h
  split at h
  · cases h
  · rename_i hplain
    cases h
    simp only [not_or] at hplain
    exact addressable_of_cStr hplain.1 hplain.2.1 hplain.2.2.1 (.inl rfl) hm

theorem Addressable.namedId {b : Bytes} (h : Addressable b) (hne : b ≠ []) :
    namedId (toWire (fromWire b)) = some b := by
  rw [h.utf8, Frag.namedId, if_neg (not_or.mpr ⟨h.notDot, h.notDots⟩),
    split_of_notMem h.noSlash hne]
  exact if_neg hne

theorem Addressable.namedMessage {b : Bytes} (h : Addressable b) (hne : b ≠ []) :
    namedMessage (toWire (fromWire b)) = some b := by
  rw [h.utf8, Frag.namedMessage, if_neg (by simp [h.notDot, h.notDots, h.noSlash, hne])]

/-- A table with one row. -/
def soleRow (id messageId : CString) : Database where
  rows := [⟨id, messageId, cStr [], cStr [], cStr [], 0, 0⟩]
  primaryKey := List.nodup_singleton _

/-- **A DELETE removes exactly the row that it names** iff the name is addressable. -/
theorem deletes_exactly_iff {ctx : AppContext} {id : CString} (hid : id.bytes ≠ [])
    {headers bytes : Bytes} (h : deleteFragment headers (fromWire id.bytes) = some bytes)
    (hauth : isAuthorized (requestOf bytes) ctx.auth = true) (corsOrigin : Bytes) (now : Int) :
    (∀ db, ((ctx.server corsOrigin).respond now db (requestOf bytes)).2.rows =
      db.rows.filter fun r => r.id ≠ id) ↔ Addressable id.bytes := by
  have hrows := rows_deleteFragment h hauth corsOrigin now
  constructor
  · intro hexact
    cases hnamed : namedId (toWire (fromWire id.bytes)) with
    | none =>
      -- The row would stay.
      have hstays := (hrows (soleRow id (cStr []))).symm.trans (hexact _)
      rw [hnamed] at hstays
      simp [soleRow] at hstays
    | some i =>
      by_cases hi : cStr i = id
      · exact addressable_of_namedId hnamed (congrArg CString.bytes hi)
      · -- Another row would go.
        have hgoes := (hrows (soleRow (cStr i) (cStr []))).symm.trans (hexact _)
        rw [hnamed] at hgoes
        simp [soleRow, hi] at hgoes
  · intro hname db
    rw [hrows db, hname.namedId hid]
    simp only [cStr_bytes]

/-- An array with a fragment is not the empty array. -/
theorem fragmentsArray_ne_nil (f : Fragment Bytes) : fragmentsArray [] ≠ fragmentsArray [f] := by
  intro h
  have hlength := congrArg List.length h
  rw [fragmentsArray, fragmentsArray, List.map_nil, List.map_singleton, List.intercalate_nil,
    List.intercalate_singleton, List.length_append, List.length_append, List.length_append,
    List.length_append, List.length_nil] at hlength
  have hopen : 0 < (fragmentToJson f).length := by
    have hbrace : 0 < (lit "\x7b\"id\":\"").length := by decide
    simp only [fragmentToJson, List.length_append]
    omega
  omega

theorem perm_getMessageFragments {m : Bytes} (hm : 0 ∉ m) (db : Database) :
    (db.getMessageFragments m).Perm ((db.rows.filter fun r => r.messageId.bytes = m).map
      fun r => r.map CString.bytes) := by
  have hfilter : (db.rows.filter fun r => r.messageId = cStr m) =
      db.rows.filter fun r => r.messageId.bytes = m :=
    List.filter_congr fun r _ => decide_eq_decide.mpr (eq_cStr_iff hm)
  rw [Database.getMessageFragments, hfilter]
  exact (List.perm_insertionSort _ _).map _

/-- **A GET returns exactly the fragments of the message that it names** iff the name is
    addressable. -/
theorem returns_exactly_iff {ctx : AppContext} {m : Bytes} (hm : m ≠ []) {headers bytes : Bytes}
    (h : getMessageFragments headers (fromWire m) = some bytes)
    (hauth : isAuthorized (requestOf bytes) ctx.auth = true) (corsOrigin : Bytes) (now : Int) :
    (∀ db, ∃ frags, ((ctx.server corsOrigin).respond now db (requestOf bytes)).1 =
        .ok (fragmentsArray frags) ∧
      frags.Perm ((db.rows.filter fun r => r.messageId.bytes = m).map
        fun r => r.map CString.bytes)) ↔ Addressable m := by
  have hresponse := respond_getMessageFragments h hauth corsOrigin now
  constructor
  · intro hexact
    cases hnamed : namedMessage (toWire (fromWire m)) with
    | none =>
      obtain ⟨frags, hok, -⟩ := hexact .empty
      have hstatus := hresponse .empty
      rw [hnamed] at hstatus
      exact absurd (congrArg HttpResponse.statusCode hok) hstatus
    | some w =>
      by_cases hw : (cStr w).bytes = m
      · exact addressable_of_namedMessage hnamed hw
      · -- The row of another message is returned.
        obtain ⟨frags, hok, hperm⟩ := hexact (soleRow (cStr [0x69]) (cStr w))
        have hother := hresponse (soleRow (cStr [0x69]) (cStr w))
        simp only [hnamed] at hother
        have hnil : frags = [] := by simpa [soleRow, hw] using hperm
        have hone : (soleRow (cStr [0x69]) (cStr w)).getMessageFragments w =
            [(⟨cStr [0x69], cStr w, cStr [], cStr [], cStr [], 0, 0⟩ : Fragment CString).map
              CString.bytes] := by
          simp [Database.getMessageFragments, soleRow, Database.orderByTimestamp]
        rw [hnil] at hok
        rw [hone] at hother
        exact absurd (congrArg HttpResponse.body (hok.symm.trans hother)) (fragmentsArray_ne_nil _)
  · intro hname db
    have hok := hresponse db
    rw [hname.namedMessage hm] at hok
    exact ⟨_, hok, perm_getMessageFragments hname.noNul db⟩

/-- **The resource that is named is the resource that is acted on** iff the name is
    addressable: for a DELETE of an id that can be stored, and for a GET of any message id. The
    requests are those that the server reads as a whole. -/
theorem named_resource_is_addressed_iff (ctx : AppContext) (corsOrigin : Bytes) (now : Int)
    (headers : Bytes) :
    (∀ (id : CString) (bytes : Bytes), id.bytes ≠ [] →
      deleteFragment headers (fromWire id.bytes) = some bytes →
      isAuthorized (requestOf bytes) ctx.auth = true →
      ((∀ db, ((ctx.server corsOrigin).respond now db (requestOf bytes)).2.rows =
        db.rows.filter fun r => r.id ≠ id) ↔ Addressable id.bytes)) ∧
    (∀ m bytes : Bytes, m ≠ [] → getMessageFragments headers (fromWire m) = some bytes →
      isAuthorized (requestOf bytes) ctx.auth = true →
      ((∀ db, ∃ frags, ((ctx.server corsOrigin).respond now db (requestOf bytes)).1 =
          .ok (fragmentsArray frags) ∧
        frags.Perm ((db.rows.filter fun r => r.messageId.bytes = m).map
          fun r => r.map CString.bytes)) ↔ Addressable m)) :=
  ⟨fun _ _ hid h hauth => deletes_exactly_iff hid h hauth corsOrigin now,
    fun _ _ hm h hauth => returns_exactly_iff hm h hauth corsOrigin now⟩

/-- Header lines with a token. -/
def tokenHeaders : Bytes := lit "Authorization: Bearer secret\r\n\r\n"

/-- A name that has to be escaped. -/
def percentName : CString := cStr (lit "50% a+b%2Fc")

theorem percent_name_is_addressed :
    ∃ bytes ∈ deleteFragment tokenHeaders (fromWire percentName.bytes),
      ∀ db, ((Sample.context.server []).respond 0 db (requestOf bytes)).2.rows =
        db.rows.filter fun r => r.id ≠ percentName := by
  obtain ⟨bytes, hbytes, hauth⟩ :
      ∃ bytes ∈ deleteFragment tokenHeaders (fromWire percentName.bytes),
        isAuthorized (requestOf bytes) Sample.context.auth = true := by decide +kernel
  exact ⟨bytes, hbytes, (((named_resource_is_addressed_iff Sample.context [] 0 tokenHeaders).1
    percentName bytes (by decide) hbytes hauth).mpr (by decide +kernel))⟩

/-- A table with the ids `x` and `x/`. -/
def slashTable : Database :=
  ((Database.empty.insertFragment ⟨lit "x", lit "m", lit "c", lit "s", lit "p", 0, 0⟩).2.insertFragment
    ⟨lit "x/", lit "m", lit "c", lit "s", lit "p", 0, 0⟩).2

/-- The DELETE of `x/` removes the row `x`. -/
theorem trailing_slash_deletes_another :
    ∃ bytes ∈ deleteFragment tokenHeaders (fromWire (lit "x/")),
      isAuthorized (requestOf bytes) Sample.context.auth = true ∧
      slashTable.rows.map (fun r => r.id.bytes) = [lit "x", lit "x/"] ∧
      ((Sample.context.server []).respond 0 slashTable (requestOf bytes)).2.rows.map
        (fun r => r.id.bytes) = [lit "x/"] := by
  decide +kernel

end Frag
