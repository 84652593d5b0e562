import Frag.Backend.Server
import Frag.Library.Bounds

/-!
# The Texts of the Backend by Position

The functions of the backend that read texts by position, with each substring, each index
and each difference of positions checked and with what the numeric conversions throw. A
theorem for each of them says that nothing breaks off, and that the result is the one of
the model without checks.
-/

namespace Frag

/-- What the conversions of the C++ library throw. -/
inductive ConversionError where
  | invalidArgument
  | outOfRange
  deriving DecidableEq, Repr

/-- A computation with checked positions. -/
abbrev Checked (α : Type) := Bounds.Run ConversionError α

namespace Checked

open Bounds

/-- `std::string::npos` -/
def npos : Nat := 18446744073709551615

/-! ## Numbers -/

/-- `std::stoll` -/
def stoll (s : Bytes) : Checked Int :=
  let (negative, digits) := readSigned s
  let value : Int := if negative then -Decimal.value digits else Decimal.value digits
  if digits = [] then .error (.thrown .invalidArgument)
  else if -9223372036854775808 ≤ value ∧ value ≤ 9223372036854775807 then .ok value
  else .error (.thrown .outOfRange)

/-- `std::stoull` -/
def stoull (s : Bytes) : Checked Nat :=
  let (negative, digits) := readSigned s
  let value := Decimal.value digits
  if digits = [] then .error (.thrown .invalidArgument)
  else if 18446744073709551615 < value then .error (.thrown .outOfRange)
  else if negative then .ok ((18446744073709551616 - value) % 18446744073709551616)
  else .ok value

theorem catching_stoll (s : Bytes) (d : Int) :
    catching (stoll s) d = .ok ((Frag.stoll s).getD d) := by
  unfold stoll Frag.stoll
  simp only
  -- No digits, a number within the type, and one beyond it.
  split_ifs <;> rfl

theorem catching_stoull (s : Bytes) (d : Nat) :
    catching (stoull s) d = .ok ((Frag.stoull s).getD d) := by
  unfold stoull Frag.stoull
  simp only
  split_ifs <;> rfl

/-! ## utils.hpp -/

/-- `utils::trim` -/
def trim (s : Bytes) : Checked Bytes :=
  let blank := fun c : UInt8 => c == 0x20 || c == 0x09 || c == 0x0D || c == 0x0A
  let «end» := (findLastNot blank s).getD npos
  match findFirstNot blank s with
  | none => .ok []
  | some start => do substr s start ((← sub «end» start) + 1)

theorem trim_eq (s : Bytes) : trim s = .ok (Frag.trim s) := by
  unfold trim Frag.trim
  simp only
  split
  · rename_i hstart
    rw [dropWhile_of_findFirstNot_eq_none hstart]
    rfl
  · rename_i start hstart
    -- Where there is a first character, there is a last one behind it.
    obtain ⟨j, hend, hle, hlt, htrim⟩ := findLastNot_of_findFirstNot hstart
    rw [hend, Option.getD_some, sub_of_le hle, ok_bind, substr_of_le (by omega), htrim]

/-- The loop of `utils::url_decode`; `out` is what was decoded of the text before `i`. -/
def urlDecodeLoop (s : Bytes) (i : Nat) (out : Bytes) : Checked Bytes :=
  if i < s.length then do
    let c ← get s i
    if c = 0x25 ∧ i + 2 < s.length then
      let a ← get s (i + 1)
      let b ← get s (i + 2)
      urlDecodeLoop s (i + 3) (out ++ [strtol16 a b])
    else urlDecodeLoop s (i + 1) (out ++ [if c = 0x2B then 0x20 else c])
  else .ok out
termination_by s.length - i

/-- `utils::url_decode` -/
def urlDecode (s : Bytes) : Checked Bytes := urlDecodeLoop s 0 []

theorem urlDecodeLoop_eq (s : Bytes) (i : Nat) (out : Bytes) :
    urlDecodeLoop s i out = .ok (out ++ Frag.urlDecode (s.drop i)) := by
  rw [urlDecodeLoop]
  split
  · rename_i hlt
    have hdrop : s.drop i = s[i] :: s.drop (i + 1) := List.drop_eq_getElem_cons hlt
    rw [get_of_lt hlt, ok_bind]
    split
    · rename_i hescape
      have hdrop' : s.drop (i + 1) = s[i + 1] :: s[i + 2] :: s.drop (i + 3) := by
        rw [List.drop_eq_getElem_cons (by omega), List.drop_eq_getElem_cons hescape.2]
      rw [get_of_lt (by omega), ok_bind, get_of_lt hescape.2, ok_bind, urlDecodeLoop_eq s (i + 3),
        hdrop, hdrop', Frag.urlDecode, if_pos hescape.1, List.append_assoc, List.singleton_append]
    · rename_i hplain
      have hnot : ¬ (s[i] = 0x25 ∧ 2 ≤ (s.drop (i + 1)).length) := by
        rintro ⟨hc, hlen⟩
        rw [List.length_drop] at hlen
        exact hplain ⟨hc, by omega⟩
      rw [urlDecodeLoop_eq s (i + 1), hdrop, urlDecode_cons hnot, List.append_assoc,
        List.singleton_append]
  · rename_i hend
    rw [List.drop_eq_nil_of_le (Nat.not_lt.mp hend), Frag.urlDecode, List.append_nil]
termination_by s.length - i

theorem urlDecode_eq (s : Bytes) : urlDecode s = .ok (Frag.urlDecode s) := urlDecodeLoop_eq s 0 []

/-! ## auth.hpp -/

/-- `Auth::verify` -/
def verify (auth : Auth) (headerValue : Bytes) : Checked Bool :=
  if headerValue = [] then .ok false
  else do
    let token ←
      if toLower (← substr headerValue 0 7) = lit "bearer " then
        trim (← substrFrom headerValue 7)
      else .ok headerValue
    return auth.tokens.contains token

theorem verify_eq (auth : Auth) (headerValue : Bytes) :
    verify auth headerValue = .ok (auth.verify headerValue) := by
  unfold verify Auth.verify
  split
  · rfl
  · rw [substr_of_le (Nat.zero_le _), ok_bind, List.drop_zero]
    split
    · rename_i hbearer
      -- The prefix has seven characters, so the header has.
      have hlength : 7 ≤ headerValue.length := by
        have hlen := congrArg List.length hbearer
        rw [toLower, List.length_map, List.length_take] at hlen
        have hseven : (lit "bearer ").length = 7 := rfl
        omega
      rw [substrFrom_of_le hlength, ok_bind, trim_eq]
      rfl
    · rfl

/-- `is_authorized` -/
def isAuthorized (req : HttpRequest) (auth : Auth) : Checked Bool :=
  match req.headers.get? (lit "authorization") with
  | none => .ok false
  | some value => verify auth value

theorem isAuthorized_eq (req : HttpRequest) (auth : Auth) :
    isAuthorized req auth = .ok (Frag.isAuthorized req auth) := by
  unfold isAuthorized Frag.isAuthorized
  cases req.headers.get? (lit "authorization") with
  | none => rfl
  | some value => exact verify_eq auth value

/-! ## handlers.cpp -/

/-- The loop of `extract_string`; `val` is what was read before `i`. -/
def extractStringLoop (json : Bytes) (i : Nat) (val : Bytes) : Checked Bytes :=
  if i < json.length then do
    let c ← get json i
    if c = 0x5C ∧ i + 1 < json.length then
      let nc ← get json (i + 1)
      extractStringLoop json (i + 2) (val ++ [unescape nc])
    else if c = 0x22 then .ok val
    else extractStringLoop json (i + 1) (val ++ [c])
  else .ok val
termination_by json.length - i

/-- `json_read::extract_string` -/
def extractString (json key : Bytes) : Checked Bytes :=
  let pattern := Scan.quoted 0x22 key
  match Scan.find json pattern 0 with
  | none => .ok []
  | some kpos =>
    match Scan.find json [0x3A] (kpos + pattern.length) with
    | none => .ok []
    | some colon =>
      match Scan.find json [0x22] (colon + 1) with
      | none => .ok []
      | some vstart => extractStringLoop json (vstart + 1) []

/-- The loop of `extract_int` over the blanks after the colon. -/
def skipBlanks (json : Bytes) (vstart : Nat) : Checked Nat :=
  if vstart < json.length then do
    let c ← get json vstart
    if c == 0x20 || c == 0x09 then skipBlanks json (vstart + 1) else .ok vstart
  else .ok vstart
termination_by json.length - vstart

/-- `json_read::extract_int` -/
def extractInt (json key : Bytes) (defaultVal : Int) : Checked Int :=
  let pattern := Scan.quoted 0x22 key
  match Scan.find json pattern 0 with
  | none => .ok defaultVal
  | some kpos =>
    match Scan.find json [0x3A] (kpos + pattern.length) with
    | none => .ok defaultVal
    | some colon => do
      let vstart ← skipBlanks json (colon + 1)
      catching (do stoll (← substrFrom json vstart)) defaultVal

/-- What is read of a character that neither escapes nor ends the value. -/
private theorem readString_cons {c : UInt8} {s : Bytes} (hescape : ¬ (c = 0x5C ∧ s ≠ []))
    (hquote : c ≠ 0x22) : readString (c :: s) = c :: readString s := by
  cases s with
  | nil => simp [readString, hquote]
  | cons d s =>
    have hc : c ≠ 0x5C := fun hc => hescape ⟨hc, List.cons_ne_nil d s⟩
    rw [readString, if_neg hc, if_neg hquote]

private theorem readString_quote {s : Bytes} : readString (0x22 :: s) = [] := by
  cases s <;> rfl

theorem extractStringLoop_eq (json : Bytes) (i : Nat) (val : Bytes) :
    extractStringLoop json i val = .ok (val ++ readString (json.drop i)) := by
  rw [extractStringLoop]
  split
  · rename_i hlt
    have hdrop : json.drop i = json[i] :: json.drop (i + 1) := List.drop_eq_getElem_cons hlt
    rw [get_of_lt hlt, ok_bind]
    split
    · -- An escape, of whatever follows it.
      rename_i hescape
      have hdrop' : json.drop (i + 1) = json[i + 1] :: json.drop (i + 2) :=
        List.drop_eq_getElem_cons hescape.2
      rw [get_of_lt hescape.2, ok_bind, extractStringLoop_eq json (i + 2), hdrop, hdrop', readString,
        if_pos hescape.1, List.append_assoc, List.singleton_append]
    · rename_i hescape
      split
      · rename_i hquote
        rw [hdrop, hquote, readString_quote, List.append_nil]
      · rename_i hquote
        have hnot : ¬ (json[i] = 0x5C ∧ json.drop (i + 1) ≠ []) := by
          rintro ⟨hc, hne⟩
          exact hescape ⟨hc, Nat.lt_of_not_le fun hle => hne (List.drop_eq_nil_of_le hle)⟩
        rw [extractStringLoop_eq json (i + 1), hdrop, readString_cons hnot hquote,
          List.append_assoc, List.singleton_append]
  · rename_i hend
    rw [List.drop_eq_nil_of_le (Nat.not_lt.mp hend), readString, List.append_nil]
termination_by json.length - i

/-- The colon after a key, by position and as what follows it. -/
theorem afterKey_eq (json key : Bytes) : afterKey json key =
    (Scan.find json (Scan.quoted 0x22 key) 0).bind fun kpos =>
      (Scan.find json [0x3A] (kpos + (Scan.quoted 0x22 key).length)).map fun colon =>
        json.drop (colon + 1) := by
  have hkey := drop_find json (Scan.quoted 0x22 key) 0
  rw [List.drop_zero] at hkey
  rw [afterKey, hkey]
  cases Scan.find json (Scan.quoted 0x22 key) 0 with
  | none => rfl
  | some kpos => exact drop_find json [0x3A] (kpos + (Scan.quoted 0x22 key).length)

theorem extractString_eq (json key : Bytes) :
    extractString json key = .ok (Frag.extractString json key) := by
  rw [extractString, Frag.extractString, afterKey_eq]
  cases Scan.find json (Scan.quoted 0x22 key) 0 with
  | none => rfl
  | some kpos =>
    simp only [Option.bind_some]
    cases Scan.find json [0x3A] (kpos + (Scan.quoted 0x22 key).length) with
    | none => rfl
    | some colon =>
      simp only [Option.map_some, Option.bind_some, drop_find json [0x22] (colon + 1)]
      cases Scan.find json [0x22] (colon + 1) with
      | none => rfl
      | some vstart => exact extractStringLoop_eq json (vstart + 1) []

theorem skipBlanks_eq (json : Bytes) (vstart : Nat) (h : vstart ≤ json.length) :
    ∃ i, skipBlanks json vstart = .ok i ∧ i ≤ json.length ∧
      json.drop i = (json.drop vstart).dropWhile fun c => c == 0x20 || c == 0x09 := by
  rw [skipBlanks]
  split
  · rename_i hlt
    have hdrop : json.drop vstart = json[vstart] :: json.drop (vstart + 1) :=
      List.drop_eq_getElem_cons hlt
    rw [get_of_lt hlt, ok_bind]
    split
    · rename_i hblank
      obtain ⟨i, hi, hle, heq⟩ := skipBlanks_eq json (vstart + 1) hlt
      exact ⟨i, hi, hle, by rw [heq, hdrop, List.dropWhile_cons, if_pos hblank]⟩
    · rename_i hblank
      exact ⟨vstart, rfl, h, by rw [hdrop, List.dropWhile_cons, if_neg hblank]⟩
  · rename_i hend
    refine ⟨vstart, rfl, h, ?_⟩
    rw [List.drop_eq_nil_of_le (Nat.not_lt.mp hend), List.dropWhile_nil]
termination_by json.length - vstart

theorem extractInt_eq (json key : Bytes) (defaultVal : Int) :
    extractInt json key defaultVal = .ok (Frag.extractInt json key defaultVal) := by
  rw [extractInt, Frag.extractInt, afterKey_eq]
  cases Scan.find json (Scan.quoted 0x22 key) 0 with
  | none => rfl
  | some kpos =>
    simp only [Option.bind_some]
    cases hcolon : Scan.find json [0x3A] (kpos + (Scan.quoted 0x22 key).length) with
    | none => rfl
    | some colon =>
      -- The value begins within the text, or at its end.
      have hbounds := (find_bounds (List.cons_ne_nil _ _) hcolon).2
      obtain ⟨i, hi, hle, heq⟩ := skipBlanks_eq json (colon + 1) hbounds
      simp only [Option.map_some]
      rw [hi, ok_bind, substrFrom_of_le hle, ok_bind, catching_stoll, heq]

end Checked

end Frag
