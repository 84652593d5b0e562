import Frag.Backend.Text
import Frag.Library.Url

/-!
# Resources in Paths and Queries

The requests of `network.js` that name a resource in the path or in the query, as the browser
sends them: the name goes through `encodeURIComponent`, and the URL parser of the browser
resolves dot segments of the path and escapes the apostrophes of the query. The URL of a server
is taken to have no path of its own.

## Main results

- `urlDecode_percentEncode`: the backend decodes what was encoded;
- `requestTarget_eq`: only the names `.` and `..` are resolved.
-/

namespace Frag

open Url

/-- `A–Z a–z 0–9 - _ . ! ~ * ' ( )` -/
def isUnescaped (c : UInt8) : Bool :=
  (0x41 ≤ c && c ≤ 0x5A) || (0x61 ≤ c && c ≤ 0x7A) || (0x30 ≤ c && c ≤ 0x39) ||
    c ∈ [0x2D, 0x5F, 0x2E, 0x21, 0x7E, 0x2A, 0x27, 0x28, 0x29]

/-- `encodeURIComponent`; `none` where it throws. -/
def encodeURIComponent (s : JsString) : Option Bytes :=
  if isWellFormed s then some (percentEncode isUnescaped (toWire s)) else none

/-- The path of a request, as it is sent. -/
def requestTarget (segments : List Bytes) : Bytes := joinPath (normalize segments)

/-- The bytes of a request without a body; `headers` are its header lines and the blank
    line. -/
def httpRequest (method target headers : Bytes) : Bytes :=
  method ++ 0x20 :: (target ++ (lit " HTTP/1.1\r\n" ++ headers))

/-- `deleteFragment` -/
def deleteFragment (headers : Bytes) (fragmentId : JsString) : Option Bytes :=
  (encodeURIComponent fragmentId).map fun name =>
    httpRequest (lit "DELETE") (requestTarget [lit "api", lit "fragments", name]) headers

/-- `getMessageFragments` -/
def getMessageFragments (headers : Bytes) (messageId : JsString) : Option Bytes :=
  (encodeURIComponent messageId).map fun name =>
    httpRequest (lit "GET") (requestTarget [lit "api", lit "fragments", name, lit "all"]) headers

/-- The query of `getFragments`, after the question mark. -/
def fragmentsQuery (name : Bytes) (since : Nat) : Bytes :=
  lit "chat_id=" ++ name ++ lit "&since=" ++ Decimal.digits since

/-- A query of the encoded characters, as it is sent. -/
def sentQuery (query : Bytes) : Bytes := percentEncode (· != 0x27) query

/-- `getFragments` -/
def getFragments (headers : Bytes) (chatId : JsString) (since : Nat) : Option Bytes :=
  (encodeURIComponent chatId).map fun name =>
    httpRequest (lit "GET") (requestTarget [lit "api", lit "fragments"] ++
      0x3F :: sentQuery (fragmentsQuery name since)) headers

/-! ## Encoding -/

theorem encodeURIComponent_fromWire (b : Bytes) : encodeURIComponent (fromWire b) =
    some (percentEncode isUnescaped (toWire (fromWire b))) := if_pos (isWellFormed_fromWire b)

private theorem strtol16_hexUpper : ∀ n < 256,
    strtol16 (hexUpper (.ofNat n / 16)) (hexUpper (.ofNat n % 16)) = .ofNat n := by decide +kernel

/-- **The backend decodes what was encoded**, if it was at least percent and plus signs. -/
theorem urlDecode_percentEncode {keep : UInt8 → Bool} (hpercent : keep 0x25 = false)
    (hplus : keep 0x2B = false) (bs t : Bytes) :
    urlDecode (percentEncode keep bs ++ t) = bs ++ urlDecode t := by
  induction bs with
  | nil => rfl
  | cons b bs ih =>
    rw [percentEncode_cons, List.append_assoc]
    split
    · rename_i hkeep
      have hpercent : b ≠ 0x25 := by
        rintro rfl
        exact absurd hkeep (Bool.eq_false_iff.mp hpercent)
      have hplus : b ≠ 0x2B := by
        rintro rfl
        exact absurd hkeep (Bool.eq_false_iff.mp hplus)
      rw [List.singleton_append, urlDecode_cons (fun h => hpercent h.1), if_neg hplus, ih,
        List.cons_append]
    · have hbyte := strtol16_hexUpper b.toNat b.toNat_lt
      rw [UInt8.ofNat_toNat] at hbyte
      rw [percentByte, List.cons_append, List.cons_append, List.cons_append, List.nil_append,
        urlDecode, if_pos rfl, hbyte, ih, List.cons_append]

/-- An encoded name has no space, no line end, no slash and no question mark. -/
theorem notMem_encoded (bs : Bytes) : ∀ c ∈ [0x20, 0x0D, 0x2F, 0x3F],
    c ∉ percentEncode isUnescaped bs := by
  intro c hc
  have hclass : isUnescaped c = false ∧ c ≠ 0x25 ∧ ¬ (0x30 ≤ c ∧ c ≤ 0x39) ∧
      ¬ (0x41 ≤ c ∧ c ≤ 0x46) := by
    simp only [List.mem_cons, List.not_mem_nil, or_false] at hc
    rcases hc with rfl | rfl | rfl | rfl <;> decide
  exact notMem_percentEncode hclass.1 hclass.2.1 hclass.2.2.1 hclass.2.2.2 bs

/-! ## Dot segments -/

/-- The byte whose lower case is given. -/
private theorem lower_eq_cons {s t : Bytes} {d : UInt8} (h : lower s = d :: t) :
    ∃ c s', s = c :: s' ∧ (c = d ∨ (c = 0x45 ∧ d = 0x65)) ∧ lower s' = t := by
  obtain ⟨c, s', rfl, hc, rfl⟩ := List.map_eq_cons_iff.mp h
  refine ⟨c, s', rfl, ?_, rfl⟩
  split at hc
  · rename_i hupper
    exact .inr ⟨hupper, hc.symm⟩
  · exact .inl hc

/-- A dot, escaped or not, is decoded to a dot. -/
private theorem urlDecode_dot {s d t : Bytes} (hd : d = [0x2E] ∨ d = [0x25, 0x32, 0x65])
    (h : lower s = d ++ t) : ∃ s', urlDecode s = 0x2E :: urlDecode s' ∧ lower s' = t := by
  rcases hd with rfl | rfl
  · obtain ⟨c, s', rfl, hc, hrest⟩ := lower_eq_cons h
    rcases hc with rfl | ⟨-, habsurd⟩
    · exact ⟨s', urlDecode_cons fun h => absurd h.1 (by decide), hrest⟩
    · exact absurd habsurd (by decide)
  · obtain ⟨c₁, s₁, rfl, h₁, hrest₁⟩ := lower_eq_cons h
    obtain ⟨c₂, s₂, rfl, h₂, hrest₂⟩ := lower_eq_cons hrest₁
    obtain ⟨c₃, s₃, rfl, h₃, hrest₃⟩ := lower_eq_cons hrest₂
    obtain rfl : c₁ = 0x25 := h₁.elim id fun h => absurd h.2 (by decide)
    obtain rfl : c₂ = 0x32 := h₂.elim id fun h => absurd h.2 (by decide)
    -- The last digit of the escape is written in either case.
    have hvalue : strtol16 0x32 c₃ = 0x2E := by
      rcases h₃ with rfl | ⟨rfl, -⟩ <;> decide
    exact ⟨s₃, by rw [urlDecode, if_pos rfl, hvalue], hrest₃⟩

private theorem urlDecode_of_lower_nil {s : Bytes} (h : lower s = []) : urlDecode s = [] := by
  rw [List.map_eq_nil_iff.mp h, urlDecode]

theorem urlDecode_of_isSingleDot {s : Bytes} (h : isSingleDot s = true) : urlDecode s = [0x2E] := by
  obtain ⟨d, hd, heq⟩ : ∃ d : Bytes, (d = [0x2E] ∨ d = [0x25, 0x32, 0x65]) ∧ lower s = d ++ [] := by
    simpa [isSingleDot] using h
  obtain ⟨s', hdecode, hrest⟩ := urlDecode_dot hd heq
  rw [hdecode, urlDecode_of_lower_nil hrest]

theorem urlDecode_of_isDoubleDot {s : Bytes} (h : isDoubleDot s = true) :
    urlDecode s = [0x2E, 0x2E] := by
  obtain ⟨d, e, hd, he, heq⟩ : ∃ d e : Bytes, (d = [0x2E] ∨ d = [0x25, 0x32, 0x65]) ∧
      (e = [0x2E] ∨ e = [0x25, 0x32, 0x65]) ∧ lower s = d ++ (e ++ []) := by
    simpa [isDoubleDot, or_and_right, exists_or, or_assoc] using h
  obtain ⟨s', hdecode, hrest⟩ := urlDecode_dot hd heq
  obtain ⟨s'', hdecode', hrest'⟩ := urlDecode_dot he hrest
  rw [hdecode, hdecode', urlDecode_of_lower_nil hrest']

/-- Only the names `.` and `..` are dot segments. -/
theorem not_dot_encoded {bs : Bytes} (hsingle : bs ≠ [0x2E]) (hdouble : bs ≠ [0x2E, 0x2E]) :
    isSingleDot (percentEncode isUnescaped bs) = false ∧
      isDoubleDot (percentEncode isUnescaped bs) = false := by
  have hdecode : urlDecode (percentEncode isUnescaped bs) = bs := by
    have h := urlDecode_percentEncode (by decide : isUnescaped 0x25 = false) (by decide) bs []
    rwa [List.append_nil, urlDecode, List.append_nil] at h
  constructor
  · rw [← Bool.not_eq_true]
    intro h
    exact hsingle (hdecode.symm.trans (urlDecode_of_isSingleDot h))
  · rw [← Bool.not_eq_true]
    intro h
    exact hdouble (hdecode.symm.trans (urlDecode_of_isDoubleDot h))

/-- A name that is no dot segment stands in the path as it was encoded. -/
theorem requestTarget_eq {w : Bytes} (hsingle : w ≠ [0x2E]) (hdouble : w ≠ [0x2E, 0x2E])
    {tail : List Bytes} (htail : ∀ s ∈ tail, isSingleDot s = false ∧ isDoubleDot s = false) :
    requestTarget ([lit "api", lit "fragments", percentEncode isUnescaped w] ++ tail) =
      lit "/api/fragments/" ++ (percentEncode isUnescaped w ++ joinPath tail) := by
  have hnormal : ∀ s ∈ [lit "api", lit "fragments", percentEncode isUnescaped w] ++ tail,
      isSingleDot s = false ∧ isDoubleDot s = false := by
    intro s hs
    simp only [List.cons_append, List.nil_append, List.mem_cons] at hs
    rcases hs with rfl | rfl | rfl | hs
    · decide
    · decide
    · exact not_dot_encoded hsingle hdouble
    · exact htail s hs
  rw [requestTarget, normalize_eq_self hnormal]
  simp [joinPath, lit]

end Frag
