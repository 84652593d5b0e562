import Frag.Guarantees.Addressing
import Mathlib.Algebra.GroupWithZero.Nat

/-!
# Names in Queries

A poll names its chat in the query. The name is encoded by the client and taken apart by the
backend four times: the request line at its spaces, the target at its question mark, the query
at its ampersands, and a parameter at its first equals sign. What was encoded has none of these
separators in it, and the parts are decoded last.

## Main results

- `query_survives`: the chat id and the cursor of a poll arrive.
-/

namespace Frag

open Unicode Url

/-! ## Parameters -/

/-- A query of two parameters whose texts have no separators in them. -/
theorem parseQuery_pair {k v k' v' : Bytes} (hk : 0x26 ∉ k ∧ 0x3D ∉ k) (hv : 0x26 ∉ v)
    (hk' : 0x26 ∉ k' ∧ 0x3D ∉ k') (hv' : 0x26 ∉ v') :
    parseQuery (k ++ 0x3D :: v ++ 0x26 :: (k' ++ 0x3D :: v')) =
      (OrderedMap.empty.set (urlDecode k) (urlDecode v)).set (urlDecode k') (urlDecode v') := by
  have hfirst : (0x26 : UInt8) ∉ k ++ 0x3D :: v := by simp [hk.1, hv]
  have hlast : (0x26 : UInt8) ∉ k' ++ 0x3D :: v' := by simp [hk'.1, hv']
  have hparts : split (k ++ 0x3D :: v ++ 0x26 :: (k' ++ 0x3D :: v')) 0x26 =
      [k ++ 0x3D :: v, k' ++ 0x3D :: v'] := by
    rw [split_append hfirst, split_of_notMem hlast (by simp)]
  -- The first equals sign of a part is the one after its name.
  have heq : ∀ {a b : Bytes}, 0x3D ∉ a → Scan.indexOf [0x3D] (a ++ 0x3D :: b) = some a.length :=
    fun ha => Scan.indexOf_append_of_prefix ha ⟨_, rfl⟩
  rw [parseQuery, hparts]
  simp only [List.foldl_cons, List.foldl_nil, heq hk.2, heq hk'.2, List.take_left]
  rw [← List.drop_drop, ← List.drop_drop, List.drop_left, List.drop_left]
  rfl

/-- A digit is no separator, and is decoded as it is. -/
theorem notMem_digits (n : Nat) : ∀ c ∈ [0x20, 0x0D, 0x25, 0x26, 0x2B], c ∉ Decimal.digits n := by
  intro c hc hmem
  have hdigit := Decimal.isDigit_of_mem_digits hmem
  simp only [List.mem_cons, List.not_mem_nil, or_false] at hc
  rcases hc with rfl | rfl | rfl | rfl | rfl <;> exact absurd hdigit (by decide)

theorem urlDecode_digits (n : Nat) : urlDecode (Decimal.digits n) = Decimal.digits n := by
  have hcopy := urlDecode_append (notMem_digits n 0x25 (by decide)) (notMem_digits n 0x2B (by decide)) []
  rwa [List.append_nil, urlDecode, List.append_nil] at hcopy

/-! ## Polls -/

/-- A request is the poll of a chat from a cursor on. -/
structure Queried (req : HttpRequest) (chatId : Bytes) (since : Nat) : Prop where
  method : req.method = lit "GET"
  path : req.path = lit "/api/fragments"
  queryParams : req.queryParams =
    (OrderedMap.empty.set (lit "chat_id") chatId).set (lit "since") (Decimal.digits since)
  converted : since < 2 ^ 63 → (req.queryParams.get? (lit "since")).bind stoll = some (since : Int)
  answered : since < 2 ^ 63 → chatId ≠ [] → ∀ (ctx : AppContext) (now : Int) (db : Database),
    isAuthorized req ctx.auth = true → ctx.makeGetFragmentsHandler now db req =
      (.ok (fragmentsArray (db.getFragments chatId since)), db)

/-- The parameters decide what the handler answers. -/
theorem Queried.of_params {req : HttpRequest} {chatId : Bytes} {since : Nat}
    (hmethod : req.method = lit "GET") (hpath : req.path = lit "/api/fragments")
    (hparams : req.queryParams =
      (OrderedMap.empty.set (lit "chat_id") chatId).set (lit "since") (Decimal.digits since)) :
    Queried req chatId since := by
  have hsince : since < 2 ^ 63 →
      (req.queryParams.get? (lit "since")).bind stoll = some (since : Int) := by
    intro hlt
    have hread : stoll (showInt since ++ []) = some (since : Int) :=
      stoll_showInt (by omega) (by omega) (by simp)
    rw [List.append_nil, showInt, if_neg (by omega), Int.natAbs_natCast] at hread
    rw [hparams, OrderedMap.get?_set_self, Option.bind_some, hread]
  refine ⟨hmethod, hpath, hparams, hsince, ?_⟩
  intro hlt hne ctx now db hauth
  have hchat : req.queryParams.get? (lit "chat_id") = some chatId := by
    rw [hparams, OrderedMap.get?_set, if_neg (by decide), OrderedMap.get?_set_self]
  simp only [AppContext.makeGetFragmentsHandler, hauth, Bool.not_true, Bool.false_eq_true, if_false,
    hsince hlt, hchat, Option.getD_some, Frag.makeGetFragmentsHandler, if_neg hne]

/-- The request line is read as it was written, whichever characters are escaped in the name. -/
theorem queried_of_encoded {keep : UInt8 → Bool}
    (hkeep : ∀ c ∈ [0x20, 0x0D, 0x25, 0x26, 0x2B], keep c = false) (chatId headers : Bytes)
    (since : Nat) :
    Queried (requestOf (httpRequest (lit "GET") (lit "/api/fragments" ++
      0x3F :: fragmentsQuery (percentEncode keep chatId) since) headers)) chatId since := by
  have hname : ∀ c ∈ [0x20, 0x0D, 0x26], c ∉ percentEncode keep chatId := by
    intro c hc
    have hclass : c ∈ [0x20, 0x0D, 0x25, 0x26, 0x2B] ∧ c ≠ 0x25 ∧ ¬ (0x30 ≤ c ∧ c ≤ 0x39) ∧
        ¬ (0x41 ≤ c ∧ c ≤ 0x46) := by
      simp only [List.mem_cons, List.not_mem_nil, or_false] at hc
      rcases hc with rfl | rfl | rfl <;> decide
    exact notMem_percentEncode (hkeep c hclass.1) hclass.2.1 hclass.2.2.1 hclass.2.2.2 chatId
  -- The target has none of the separators of the request line.
  have htarget : ∀ c ∈ [0x20, 0x0D],
      c ∉ lit "/api/fragments" ++ 0x3F :: fragmentsQuery (percentEncode keep chatId) since := by
    intro c hc
    have hin : c ∈ [0x20, 0x0D, 0x26] ∧ c ∈ [0x20, 0x0D, 0x25, 0x26, 0x2B] ∧ c ≠ 0x3F ∧
        c ∉ lit "/api/fragments" ∧ c ∉ lit "chat_id=" ∧ c ∉ lit "&since=" := by
      simp only [List.mem_cons, List.not_mem_nil, or_false] at hc
      rcases hc with rfl | rfl <;> decide
    obtain ⟨hseparator, hnumber, hmark, hpath, hkey, hkey'⟩ := hin
    simp only [fragmentsQuery, List.mem_append, List.mem_cons, not_or]
    exact ⟨hpath, hmark, ⟨⟨hkey, hname c hseparator⟩, hkey'⟩, notMem_digits since c hnumber⟩
  have hquery : fragmentsQuery (percentEncode keep chatId) since =
      lit "chat_id" ++ 0x3D :: percentEncode keep chatId ++
        0x26 :: (lit "since" ++ 0x3D :: Decimal.digits since) := by
    have hchat : lit "chat_id=" = lit "chat_id" ++ [0x3D] := by decide
    have hsince : lit "&since=" = 0x26 :: (lit "since" ++ [0x3D]) := by decide
    rw [fragmentsQuery, hchat, hsince]
    simp only [List.append_assoc, List.cons_append, List.nil_append]
  have hmark : Scan.indexOf [0x3F] (lit "/api/fragments" ++
      0x3F :: fragmentsQuery (percentEncode keep chatId) since) =
        some (lit "/api/fragments").length :=
    Scan.indexOf_append_of_prefix (by decide) ⟨_, rfl⟩
  have hdecode : urlDecode (percentEncode keep chatId) = chatId := by
    have hback := urlDecode_percentEncode (hkeep 0x25 (by decide)) (hkeep 0x2B (by decide)) chatId []
    rwa [List.append_nil, urlDecode, List.append_nil] at hback
  have hget : 0x20 ∉ lit "GET" ∧ 0x0D ∉ lit "GET" := by decide
  obtain ⟨hmethod, hparsed⟩ := requestOf_line hget
    ⟨htarget 0x20 (by decide), htarget 0x0D (by decide)⟩ headers
  have htargetParsed : parseTarget (lit "/api/fragments" ++
      0x3F :: fragmentsQuery (percentEncode keep chatId) since) = (lit "/api/fragments",
        (OrderedMap.empty.set (lit "chat_id") chatId).set (lit "since") (Decimal.digits since)) := by
    have hpath : urlDecode (lit "/api/fragments") = lit "/api/fragments" := by decide
    have hkey : urlDecode (lit "chat_id") = lit "chat_id" := by decide
    have hkey' : urlDecode (lit "since") = lit "since" := by decide
    rw [parseTarget, hmark]
    simp only
    rw [List.take_left, ← List.drop_drop, List.drop_left, List.drop_one, List.tail_cons, hquery,
      parseQuery_pair (by decide) (hname 0x26 (by decide)) (by decide)
        (notMem_digits since 0x26 (by decide)), hdecode, urlDecode_digits, hpath, hkey, hkey']
  rw [htargetParsed, Prod.mk.injEq] at hparsed
  apply Queried.of_params hmethod
  · exact hparsed.1
  · exact hparsed.2

/-- The apostrophe is escaped in the name, and nothing else of the query. -/
theorem sentQuery_fragmentsQuery (chatId : Bytes) (since : Nat) :
    sentQuery (fragmentsQuery (percentEncode isUnescaped chatId) since) =
      fragmentsQuery (percentEncode (fun c => isUnescaped c && c != 0x27) chatId) since := by
  -- The browser escapes the apostrophe, which `encodeURIComponent` leaves alone.
  have hdigits : percentEncode (· != 0x27) (Decimal.digits since) = Decimal.digits since := by
    apply percentEncode_of_all
    intro c hc
    rw [bne_iff_ne]
    rintro rfl
    exact absurd (Decimal.isDigit_of_mem_digits hc) (by decide)
  have hname : percentEncode (· != 0x27) (percentEncode isUnescaped chatId) =
      percentEncode (fun c => isUnescaped c && c != 0x27) chatId := by
    apply percentEncode_percentEncode
    · decide
    · intro c hc
      rw [bne_iff_ne]
      rintro rfl
      exact absurd hc (by decide)
    · intro c hc
      rw [bne_iff_ne]
      rintro rfl
      exact absurd hc (by decide)
  have hkey : percentEncode (· != 0x27) (lit "chat_id=") = lit "chat_id=" := by decide
  have hkey' : percentEncode (· != 0x27) (lit "&since=") = lit "&since=" := by decide
  rw [sentQuery, fragmentsQuery, percentEncode_append, percentEncode_append, percentEncode_append,
    hdigits, hname, hkey, hkey', fragmentsQuery]

/-- **The poll query survives encoding**: the request line with the encoded chat id, and what
    `getFragments` makes a browser send. -/
theorem query_survives (chatId : List Char) (since : Nat) (headers : Bytes) :
    ∃ name, encodeURIComponent (utf16 chatId) = some name ∧
      Queried (requestOf (lit "GET /api/fragments?chat_id=" ++ name ++ lit "&since=" ++
        Decimal.digits since ++ lit " HTTP/1.1\r\n" ++ headers)) (utf8 chatId) since ∧
      ∃ sent, getFragments headers (utf16 chatId) since = some sent ∧
        Queried (requestOf sent) (utf8 chatId) since := by
  have hwire : toWire (utf16 chatId) = utf8 chatId := by
    rw [toWire, scalars_utf16]
  have hencode : encodeURIComponent (utf16 chatId) = some (percentEncode isUnescaped (utf8 chatId)) := by
    have hformed : isWellFormed (utf16 chatId) = true :=
      decide_eq_true (by rw [scalars_utf16])
    rw [encodeURIComponent, if_pos hformed, hwire]
  refine ⟨_, hencode, ?_, ?_⟩
  · have hkept : ∀ c ∈ [0x20, 0x0D, 0x25, 0x26, 0x2B], isUnescaped c = false := by decide +kernel
    have hline := queried_of_encoded hkept (utf8 chatId) headers since
    have hlit : lit "GET /api/fragments?chat_id=" =
        lit "GET" ++ 0x20 :: (lit "/api/fragments" ++ 0x3F :: lit "chat_id=") := by decide
    rw [httpRequest, fragmentsQuery] at hline
    rw [hlit]
    simpa only [List.append_assoc, List.cons_append] using hline
  · rw [getFragments, hencode, Option.map_some]
    refine ⟨_, rfl, ?_⟩
    have hpath : requestTarget [lit "api", lit "fragments"] = lit "/api/fragments" := by decide
    rw [hpath, sentQuery_fragmentsQuery]
    exact queried_of_encoded (by decide +kernel) (utf8 chatId) headers since

example : (getFragments [] (js "a&b=c+d %'") 5).map (fun sent => (requestOf sent).queryParams.get? (lit "chat_id")) =
    some (some (lit "a&b=c+d %'")) := by
  decide +kernel

end Frag
