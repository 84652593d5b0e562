import Frag.Basic
import Frag.Library.Decimal
import Frag.Library.Scan
import Mathlib.Data.List.DropRight

/-!
# Texts of the Backend

The string helpers of `utils.hpp`, the conversions of the C++ library that the backend
calls, and the scanner with which it reads a JSON body.

Everything works on bytes, in the "C" locale. The scanner knows no JSON: it looks for the
first occurrence of a name in quotes, whatever it is part of.
-/

namespace Frag

/-- A string literal of the backend. -/
def lit (s : String) : Bytes := s.toList.map fun c => .ofNat c.toNat

/-! ## Characters -/

/-- What holds of the 256 numbers holds of every byte. -/
theorem forall_byte {P : UInt8 → Prop} (h : ∀ n : Fin 256, P (.ofNat n)) (c : UInt8) : P c := by
  simpa using h ⟨c.toNat, c.toNat_lt⟩

/-- `isspace` -/
def isSpace (c : UInt8) : Bool := c == 0x20 || (0x09 ≤ c && c ≤ 0x0D)

/-- The value of a hexadecimal digit. -/
def hexValue (c : UInt8) : Option UInt8 :=
  if 0x30 ≤ c && c ≤ 0x39 then some (c - 0x30)
  else if 0x41 ≤ c && c ≤ 0x46 then some (c - 0x37)
  else if 0x61 ≤ c && c ≤ 0x66 then some (c - 0x57)
  else none

/-- `"0123456789abcdef"[d]` -/
def hexDigit (d : UInt8) : UInt8 := if d < 10 then 0x30 + d else 0x57 + d

/-! ## Numbers -/

/-- What `strtoll` and `strtoull` read: white space, a sign, and the digits after them. -/
def readSigned (s : Bytes) : Bool × Bytes :=
  match s.dropWhile isSpace with
  -- One sign is read; the number ends at the first byte that is no digit.
  | 0x2D :: s => (true, s.takeWhile Decimal.isDigit)
  | 0x2B :: s => (false, s.takeWhile Decimal.isDigit)
  | s => (false, s.takeWhile Decimal.isDigit)

/-- `std::stoll`; `none` where it throws. -/
def stoll (s : Bytes) : Option Int :=
  let (negative, digits) := readSigned s
  let value : Int := if negative then -Decimal.value digits else Decimal.value digits
  if digits = [] then none  -- std::invalid_argument
  else if -9223372036854775808 ≤ value ∧ value ≤ 9223372036854775807 then some value
  else none  -- std::out_of_range

/-- `std::stoull`: a negative number wraps around. -/
def stoull (s : Bytes) : Option Nat :=
  let (negative, digits) := readSigned s
  let value := Decimal.value digits
  if digits = [] then none
  else if 18446744073709551615 < value then none
  else if negative then some ((18446744073709551616 - value) % 18446744073709551616)
  else some value

/-- `std::ostream` writing an integer. -/
def showInt (n : Int) : Bytes :=
  if n < 0 then 0x2D :: Decimal.digits n.natAbs else Decimal.digits n.natAbs

/-- A digit is neither white space nor a sign. -/
private theorem not_blank_of_isDigit {d : UInt8} (h : Decimal.isDigit d = true) :
    isSpace d = false ∧ d ≠ 0x2D ∧ d ≠ 0x2B := by
  have hd := Decimal.isDigit_iff.mp h
  refine ⟨?_, ?_, ?_⟩
  · rw [← Bool.not_eq_true]
    simp only [isSpace, Bool.or_eq_true, beq_iff_eq, Bool.and_eq_true, decide_eq_true_eq,
      UInt8.le_iff_toNat_le]
    rintro (rfl | ⟨-, hle⟩)
    · exact absurd hd (by decide)
    · have htoNat : (0x0D : UInt8).toNat = 13 := rfl
      omega
  · rintro rfl
    exact absurd hd (by decide)
  · rintro rfl
    exact absurd hd (by decide)

/-- Digits are read up to the first byte that is none. -/
theorem readSigned_digits {digits rest : Bytes} (hne : digits ≠ [])
    (hdigits : ∀ c ∈ digits, Decimal.isDigit c = true)
    (hrest : ∀ c ∈ rest.head?, Decimal.isDigit c = false) :
    readSigned (digits ++ rest) = (false, digits) := by
  have htake : (digits ++ rest).takeWhile Decimal.isDigit = digits := by
    rw [List.takeWhile_append_of_pos hdigits]
    cases rest with
    | nil => simp
    | cons c rest => rw [List.takeWhile_cons_of_neg (by simp [hrest c rfl]), List.append_nil]
  obtain ⟨d, ds, rfl⟩ := List.exists_cons_of_ne_nil hne
  obtain ⟨hspace, hminus, hplus⟩ := not_blank_of_isDigit (hdigits d List.mem_cons_self)
  rw [List.cons_append] at htake
  rw [readSigned, List.cons_append, List.dropWhile_cons_of_neg (by simp [hspace])]
  -- The first digit is neither of the signs.
  split
  · rename_i heq
    exact absurd (List.cons.inj heq).1 hminus
  · rename_i heq
    exact absurd (List.cons.inj heq).1 hplus
  · rw [htake]

theorem readSigned_showInt (n : Int) {rest : Bytes}
    (hrest : ∀ c ∈ rest.head?, Decimal.isDigit c = false) :
    readSigned (showInt n ++ rest) = (decide (n < 0), Decimal.digits n.natAbs) := by
  -- The number is a minus sign and digits, or digits.
  by_cases hneg : n < 0
  · have hminus : isSpace 0x2D = false := by decide
    rw [readSigned, showInt, if_pos hneg, List.cons_append,
      List.dropWhile_cons_of_neg (by simp [hminus])]
    simp [Decimal.takeWhile_digits hrest n.natAbs, hneg]
  · rw [showInt, if_neg hneg, decide_eq_false hneg]
    exact readSigned_digits (Decimal.digits_ne_nil _)
      (fun c hc => Decimal.isDigit_of_mem_digits hc) hrest

/-- A number does not begin with white space. -/
theorem exists_showInt_cons (n : Int) : ∃ c s, showInt n = c :: s ∧ isSpace c = false := by
  by_cases hneg : n < 0
  · exact ⟨0x2D, _, if_pos hneg, by decide⟩
  · obtain ⟨d, ds, hds⟩ := List.exists_cons_of_ne_nil (Decimal.digits_ne_nil n.natAbs)
    have hdigit : Decimal.isDigit d = true :=
      Decimal.isDigit_of_mem_digits (hds ▸ List.mem_cons_self)
    exact ⟨d, ds, by rw [showInt, if_neg hneg, hds], (not_blank_of_isDigit hdigit).1⟩

/-- **`std::stoll` reads what `std::ostream` writes.** -/
theorem stoll_showInt {n : Int} (hlow : -9223372036854775808 ≤ n) (hhigh : n ≤ 9223372036854775807)
    {rest : Bytes} (hrest : ∀ c ∈ rest.head?, Decimal.isDigit c = false) :
    stoll (showInt n ++ rest) = some n := by
  have hvalue : (if decide (n < 0) = true then -(n.natAbs : Int) else n.natAbs) = n := by
    by_cases hneg : n < 0
    · rw [if_pos (decide_eq_true hneg)]
      omega
    · rw [if_neg (by simp [hneg])]
      omega
  simp only [stoll, readSigned_showInt n hrest, if_neg (Decimal.digits_ne_nil _),
    Decimal.value_digits, hvalue, if_pos (And.intro hlow hhigh)]

/-! ## utils.hpp -/

/-- `utils::trim` -/
def trim (s : Bytes) : Bytes :=
  let blank := fun c : UInt8 => c == 0x20 || c == 0x09 || c == 0x0D || c == 0x0A
  ((s.dropWhile blank).reverse.dropWhile blank).reverse

/-- `utils::to_lower` -/
def toLower (s : Bytes) : Bytes := s.map fun c => if 0x41 ≤ c && c ≤ 0x5A then c + 0x20 else c

/-- A text without upper case letters stays as it is. -/
theorem toLower_eq_self {s : Bytes} (h : ∀ c ∈ s, ¬ (0x41 ≤ c ∧ c ≤ 0x5A)) : toLower s = s := by
  have hmap : s.map (fun c => if 0x41 ≤ c && c ≤ 0x5A then c + 0x20 else c) = s.map id := by
    apply List.map_congr_left
    intro c hc
    rw [if_neg (by simpa using h c hc), id]
  rw [toLower, hmap, List.map_id]

/-- Only letters come from other bytes. -/
theorem eq_of_lower_eq {c d : UInt8} (h : (if 0x41 ≤ c && c ≤ 0x5A then c + 0x20 else c) = d)
    (hd : ¬ (0x61 ≤ d ∧ d ≤ 0x7A)) : c = d := by
  split at h
  · rename_i hupper
    refine absurd ?_ hd
    rw [Bool.and_eq_true, decide_eq_true_eq, decide_eq_true_eq, UInt8.le_iff_toNat_le,
      UInt8.le_iff_toNat_le] at hupper
    have h20 : (0x20 : UInt8).toNat = 32 := rfl
    have h41 : (0x41 : UInt8).toNat = 65 := rfl
    have h5A : (0x5A : UInt8).toNat = 90 := rfl
    have h61 : (0x61 : UInt8).toNat = 97 := rfl
    have h7A : (0x7A : UInt8).toNat = 122 := rfl
    rw [← h, UInt8.le_iff_toNat_le, UInt8.le_iff_toNat_le, UInt8.toNat_add]
    omega
  · exact h

theorem eq_of_toLower_eq {s t : Bytes} (h : toLower s = t) (ht : ∀ d ∈ t, ¬ (0x61 ≤ d ∧ d ≤ 0x7A)) :
    s = t := by
  subst h
  induction s with
  | nil => rfl
  | cons c s ih =>
    have hc := eq_of_lower_eq rfl (ht _ List.mem_cons_self)
    have hs := ih fun d hd => ht d (List.mem_cons_of_mem _ hd)
    exact List.cons_eq_cons.mpr ⟨hc, hs⟩

/-- Blanks around a text without them. -/
theorem trim_append {left s right : Bytes} (hne : s ≠ [])
    (hblank : ∀ c ∈ left ++ right, c = 0x20 ∨ c = 0x09 ∨ c = 0x0D ∨ c = 0x0A)
    (hs : ∀ c ∈ s, c ≠ 0x20 ∧ c ≠ 0x09 ∧ c ≠ 0x0D ∧ c ≠ 0x0A) : trim (left ++ (s ++ right)) = s := by
  have hdrop : ∀ a b : Bytes, b ≠ [] → (∀ c ∈ a, c = 0x20 ∨ c = 0x09 ∨ c = 0x0D ∨ c = 0x0A) →
      (∀ c ∈ b.head?, c ≠ 0x20 ∧ c ≠ 0x09 ∧ c ≠ 0x0D ∧ c ≠ 0x0A) →
      (a ++ b).dropWhile (fun c => c == 0x20 || c == 0x09 || c == 0x0D || c == 0x0A) = b := by
    intro a b hb ha hhead
    obtain ⟨c, b, rfl⟩ := List.exists_cons_of_ne_nil hb
    rw [List.dropWhile_append_of_pos (by simpa [or_assoc] using ha),
      List.dropWhile_cons_of_neg (by simpa [and_assoc] using hhead c rfl)]
  have hfirst : ∀ t : Bytes, ∀ c ∈ (s ++ t).head?, c ≠ 0x20 ∧ c ≠ 0x09 ∧ c ≠ 0x0D ∧ c ≠ 0x0A := by
    intro t c hc
    obtain ⟨d, ds, rfl⟩ := List.exists_cons_of_ne_nil hne
    obtain rfl : d = c := by simpa using hc
    exact hs d List.mem_cons_self
  have hlast : ∀ c ∈ s.reverse.head?, c ≠ 0x20 ∧ c ≠ 0x09 ∧ c ≠ 0x0D ∧ c ≠ 0x0A := by
    intro c hc
    exact hs c (List.mem_reverse.mp (List.mem_of_mem_head? hc))
  -- Trimmed from the front, and reversed from the back.
  rw [trim, hdrop left (s ++ right) (by simp [hne])
    (fun c hc => hblank c (List.mem_append_left _ hc)) (hfirst right), List.reverse_append,
    hdrop right.reverse s.reverse (by simpa using hne)
      (fun c hc => hblank c (List.mem_append_right _ (List.mem_reverse.mp hc))) hlast,
    List.reverse_reverse]

/-- What is trimmed has no blanks left to trim. -/
theorem trim_trim (s : Bytes) : trim (trim s) = trim s := by
  have htrim : ∀ s, trim s = (s.dropWhile fun c => c == 0x20 || c == 0x09 || c == 0x0D ||
      c == 0x0A).rdropWhile fun c => c == 0x20 || c == 0x09 || c == 0x0D || c == 0x0A :=
    fun _ => rfl
  have hfront : (trim s).dropWhile (fun c => c == 0x20 || c == 0x09 || c == 0x0D || c == 0x0A) =
      trim s := by
    -- What is left begins as the text without its leading blanks does.
    rw [List.dropWhile_eq_self_iff]
    intro hlt
    have hpre : trim s <+: _ := List.rdropWhile_prefix _ _
    rw [hpre.getElem hlt]
    exact List.dropWhile_get_zero_not _ _ (Nat.lt_of_lt_of_le hlt hpre.length_le)
  rw [htrim, hfront, htrim, List.rdropWhile_idempotent]

/-- `std::getline` until it fails; `item` is what was read of the current line, reversed. A
    text that ends with the delimiter has no empty line after it. -/
def getlines (delim : UInt8) (item : Bytes) : Bytes → List Bytes
  | [] => if item = [] then [] else [item.reverse]
  | c :: s => if c = delim then item.reverse :: getlines delim [] s else getlines delim (c :: item) s

/-- `utils::split` -/
def split (s : Bytes) (delim : UInt8) : List Bytes := getlines delim [] s

theorem getlines_append {delim : UInt8} {a : Bytes} (h : delim ∉ a) (item s : Bytes) :
    getlines delim item (a ++ delim :: s) = (item.reverse ++ a) :: split s delim := by
  induction a generalizing item with
  | nil =>
    rw [List.nil_append, getlines, if_pos rfl, List.append_nil]
    rfl
  | cons c a ih =>
    rw [List.mem_cons, not_or] at h
    rw [List.cons_append, getlines, if_neg (Ne.symm h.1), ih h.2, List.reverse_cons,
      List.append_assoc, List.singleton_append]

theorem getlines_of_notMem {delim : UInt8} {a : Bytes} (h : delim ∉ a) (item : Bytes) :
    getlines delim item a = if item.reverse ++ a = [] then [] else [item.reverse ++ a] := by
  induction a generalizing item with
  | nil => simp [getlines]
  | cons c a ih =>
    rw [List.mem_cons, not_or] at h
    rw [getlines, if_neg (Ne.symm h.1), ih h.2, List.reverse_cons, List.append_assoc,
      List.singleton_append]

/-- A text up to the first delimiter is the first part. -/
theorem split_append {delim : UInt8} {a : Bytes} (h : delim ∉ a) (s : Bytes) :
    split (a ++ delim :: s) delim = a :: split s delim := getlines_append h [] s

/-- A text without the delimiter is the only part, if it is not empty. -/
theorem split_of_notMem {delim : UInt8} {a : Bytes} (h : delim ∉ a) (hne : a ≠ []) :
    split a delim = [a] := (getlines_of_notMem h []).trans (if_neg hne)

/-- `(char) strtol(hex, &end, 16)` of two characters. -/
def strtol16 (a b : UInt8) : UInt8 :=
  match hexValue a, hexValue b with
  | some x, some y => 16 * x + y
  -- `strtol` stops before the second character.
  | some x, none => x
  | none, y =>
    -- White space is skipped and a sign is read; the second character is the number.
    if isSpace a || a == 0x2B then y.getD 0
    else if a == 0x2D then -y.getD 0
    else 0

/-- `utils::url_decode` -/
def urlDecode : Bytes → Bytes
  | [] => []
  -- A `%` with fewer than two characters after it is copied.
  | [c] => [if c = 0x2B then 0x20 else c]
  | [c, d] => [if c = 0x2B then 0x20 else c, if d = 0x2B then 0x20 else d]
  | c :: a :: b :: s =>
    if c = 0x25 then strtol16 a b :: urlDecode s
    else (if c = 0x2B then 0x20 else c) :: urlDecode (a :: b :: s)

/-- A character that begins no escape. -/
theorem urlDecode_cons {c : UInt8} {s : Bytes} (h : ¬ (c = 0x25 ∧ 2 ≤ s.length)) :
    urlDecode (c :: s) = (if c = 0x2B then 0x20 else c) :: urlDecode s := by
  match s with
  | [] => rfl
  | [_] => rfl
  | a :: b :: s =>
    have hc : c ≠ 0x25 := fun hc => h ⟨hc, by simp⟩
    rw [urlDecode, if_neg hc]

/-- Text without percent and plus signs is copied. -/
theorem urlDecode_append {a : Bytes} (hpercent : 0x25 ∉ a) (hplus : 0x2B ∉ a) (s : Bytes) :
    urlDecode (a ++ s) = a ++ urlDecode s := by
  induction a with
  | nil => rfl
  | cons c a ih =>
    rw [List.mem_cons, not_or] at hpercent hplus
    rw [List.cons_append, urlDecode_cons (fun h => hpercent.1 h.1.symm), if_neg (Ne.symm hplus.1),
      ih hpercent.2 hplus.2, List.cons_append]

/-- One byte of `utils::json_escape`. -/
def escapeByte (c : UInt8) : Bytes :=
  if c = 0x22 then lit "\\\""
  else if c = 0x5C then lit "\\\\"
  else if c = 0x0A then lit "\\n"
  else if c = 0x0D then lit "\\r"
  else if c = 0x09 then lit "\\t"
  else if c < 0x20 then lit "\\u00" ++ [hexDigit (c / 16), hexDigit (c % 16)]
  else [c]

/-- `utils::json_escape` -/
def jsonEscape (s : Bytes) : Bytes := s.flatMap escapeByte

/-! ## The scanner of the POST handler -/

/-- The character that an escape stands for. -/
def unescape (c : UInt8) : UInt8 :=
  if c = 0x6E then 0x0A else if c = 0x72 then 0x0D else if c = 0x74 then 0x09 else c

/-- The loop of `extract_string`: up to the closing quote, or to the end of the body. -/
def readString : Bytes → Bytes
  | [] => []
  -- A backslash at the very end is copied.
  | [c] => if c = 0x22 then [] else [c]
  | c :: d :: s =>
    if c = 0x5C then unescape d :: readString s
    else if c = 0x22 then []
    else c :: readString (d :: s)

/-- What follows the colon after the first occurrence of the key in quotes. -/
def afterKey (json key : Bytes) : Option Bytes :=
  (Scan.after (Scan.quoted 0x22 key) json).bind (Scan.after [0x3A])

/-- `json_read::extract_string` -/
def extractString (json key : Bytes) : Bytes :=
  match (afterKey json key).bind (Scan.after [0x22]) with
  | none => []
  | some s => readString s

/-- `json_read::extract_int` -/
def extractInt (json key : Bytes) (defaultVal : Int) : Int :=
  match afterKey json key with
  | none => defaultVal
  | some s => (stoll (s.dropWhile fun c => c == 0x20 || c == 0x09)).getD defaultVal

/-- What the POST handler reads of a body. -/
def readFragment (body : Bytes) : FragmentPost Bytes where
  id := extractString body (lit "id")
  messageId := extractString body (lit "message_id")
  chatId := extractString body (lit "chat_id")
  senderHash := extractString body (lit "sender_hash")
  payload := extractString body (lit "payload")
  ttl := extractInt body (lit "ttl") 0

/-! ## json_build -/

/-- `json_build::fragment_to_json` -/
def fragmentToJson (f : Fragment Bytes) : Bytes :=
  lit "\x7b\"id\":\"" ++ jsonEscape f.id ++ lit "\",\"message_id\":\"" ++ jsonEscape f.messageId ++
    lit "\",\"chat_id\":\"" ++ jsonEscape f.chatId ++ lit "\",\"sender_hash\":\"" ++
    jsonEscape f.senderHash ++ lit "\",\"payload\":\"" ++ jsonEscape f.payload ++
    lit "\",\"timestamp\":" ++ showInt f.timestamp ++ lit ",\"ttl\":" ++ showInt f.ttl ++ lit "\x7d"

/-- `json_build::fragments_array` -/
def fragmentsArray (frags : List (Fragment Bytes)) : Bytes :=
  lit "[" ++ (lit ",").intercalate (frags.map fragmentToJson) ++ lit "]"

end Frag
