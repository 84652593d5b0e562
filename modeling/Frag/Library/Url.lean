import Mathlib.Data.List.Basic

/-!
# Paths of URLs

Percent-encoding, and what a URL parser makes of the segments of a path: a segment `.` is
dropped and a segment `..` drops the one before it, also where the dots are escaped.

## Main results

- `notMem_percentEncode`: what an encoded text does not contain;
- `percentEncode_percentEncode`: a text that is encoded twice;
- `normalize_eq_self`: a path without dot segments stays as it is.
-/

namespace Url

/-! ## Percent-encoding -/

/-- `"0123456789ABCDEF"[d]` -/
def hexUpper (d : UInt8) : UInt8 := if d < 10 then 0x30 + d else 0x37 + d

/-- `%XY` -/
def percentByte (b : UInt8) : List UInt8 := [0x25, hexUpper (b / 16), hexUpper (b % 16)]

/-- The bytes that are not kept are escaped. -/
def percentEncode (keep : UInt8 → Bool) (bs : List UInt8) : List UInt8 :=
  bs.flatMap fun b => if keep b then [b] else percentByte b

@[simp] theorem percentEncode_nil (keep : UInt8 → Bool) : percentEncode keep [] = [] := rfl

theorem percentEncode_cons (keep : UInt8 → Bool) (b : UInt8) (bs : List UInt8) :
    percentEncode keep (b :: bs) =
      (if keep b then [b] else percentByte b) ++ percentEncode keep bs := rfl

theorem percentEncode_of_all {keep : UInt8 → Bool} {bs : List UInt8} (h : ∀ b ∈ bs, keep b = true) :
    percentEncode keep bs = bs := by
  induction bs with
  | nil => rfl
  | cons b bs ih =>
    rw [percentEncode_cons, if_pos (h b List.mem_cons_self),
      ih fun c hc => h c (List.mem_cons_of_mem b hc), List.singleton_append]

theorem percentEncode_append (keep : UInt8 → Bool) (bs cs : List UInt8) :
    percentEncode keep (bs ++ cs) = percentEncode keep bs ++ percentEncode keep cs :=
  List.flatMap_append

/-- A digit of an escape. -/
private theorem hexUpper_bounds (b : UInt8) (hb : b < 16) :
    (0x30 ≤ hexUpper b ∧ hexUpper b ≤ 0x39) ∨ (0x41 ≤ hexUpper b ∧ hexUpper b ≤ 0x46) := by
  unfold hexUpper
  split
  · rename_i hlt
    left
    rw [UInt8.lt_iff_toNat_lt] at hlt
    simp only [UInt8.le_iff_toNat_le, UInt8.toNat_add]
    have h30 : (0x30 : UInt8).toNat = 48 := rfl
    have h39 : (0x39 : UInt8).toNat = 57 := rfl
    have h10 : (10 : UInt8).toNat = 10 := rfl
    omega
  · rename_i hge
    right
    rw [UInt8.lt_iff_toNat_lt] at hge hb
    simp only [UInt8.le_iff_toNat_le, UInt8.toNat_add]
    have h37 : (0x37 : UInt8).toNat = 55 := rfl
    have h41 : (0x41 : UInt8).toNat = 65 := rfl
    have h46 : (0x46 : UInt8).toNat = 70 := rfl
    have h10 : (10 : UInt8).toNat = 10 := rfl
    have h16 : (16 : UInt8).toNat = 16 := rfl
    omega

/-- What an escape consists of. -/
theorem mem_percentByte {b c : UInt8} (h : c ∈ percentByte b) :
    c = 0x25 ∨ (0x30 ≤ c ∧ c ≤ 0x39) ∨ (0x41 ≤ c ∧ c ≤ 0x46) := by
  have hhigh : b / 16 < 16 := by
    have h16 : (16 : UInt8).toNat = 16 := rfl
    have hb := b.toNat_lt
    rw [UInt8.lt_iff_toNat_lt, UInt8.toNat_div, h16]
    omega
  have hlow : b % 16 < 16 := by
    have h16 : (16 : UInt8).toNat = 16 := rfl
    rw [UInt8.lt_iff_toNat_lt, UInt8.toNat_mod, h16]
    exact Nat.mod_lt _ (by decide)
  simp only [percentByte, List.mem_cons, List.not_mem_nil, or_false] at h
  rcases h with rfl | rfl | rfl
  · exact .inl rfl
  · exact .inr (hexUpper_bounds _ hhigh)
  · exact .inr (hexUpper_bounds _ hlow)

/-- A byte that is neither kept nor part of an escape does not occur. -/
theorem notMem_percentEncode {keep : UInt8 → Bool} {c : UInt8} (hkeep : keep c = false)
    (hpercent : c ≠ 0x25) (hdigit : ¬ (0x30 ≤ c ∧ c ≤ 0x39)) (hletter : ¬ (0x41 ≤ c ∧ c ≤ 0x46))
    (bs : List UInt8) : c ∉ percentEncode keep bs := by
  intro hmem
  obtain ⟨b, -, hc⟩ := List.mem_flatMap.mp hmem
  split at hc
  · rename_i hb
    rw [List.mem_singleton] at hc
    rw [hc, hb] at hkeep
    cases hkeep
  · rcases mem_percentByte hc with h | h | h
    · exact hpercent h
    · exact hdigit h
    · exact hletter h

/-- Encoding again, where escapes are kept, is encoding once. -/
theorem percentEncode_percentEncode {keep keep' : UInt8 → Bool} (hpercent : keep' 0x25 = true)
    (hdigit : ∀ c, 0x30 ≤ c ∧ c ≤ 0x39 → keep' c = true)
    (hletter : ∀ c, 0x41 ≤ c ∧ c ≤ 0x46 → keep' c = true) (bs : List UInt8) :
    percentEncode keep' (percentEncode keep bs) = percentEncode (fun c => keep c && keep' c) bs := by
  induction bs with
  | nil => rfl
  | cons b bs ih =>
    rw [percentEncode_cons, percentEncode_append, ih, percentEncode_cons]
    congr 1
    cases hb : keep b with
    | true => rw [if_pos rfl, Bool.true_and, percentEncode_cons, percentEncode_nil, List.append_nil]
    | false =>
      -- The escape is kept as it is.
      rw [if_neg (by decide), Bool.false_and, if_neg (by decide)]
      apply percentEncode_of_all
      intro c hc
      rcases mem_percentByte hc with rfl | h | h
      · exact hpercent
      · exact hdigit c h
      · exact hletter c h

/-! ## Dot segments -/

/-- The letters of an escape in lower case. -/
def lower (s : List UInt8) : List UInt8 := s.map fun c => if c = 0x45 then 0x65 else c

/-- `.` -/
def isSingleDot (s : List UInt8) : Bool := lower s ∈ [[0x2E], [0x25, 0x32, 0x65]]

/-- `..` -/
def isDoubleDot (s : List UInt8) : Bool :=
  lower s ∈ [[0x2E, 0x2E], [0x2E, 0x25, 0x32, 0x65], [0x25, 0x32, 0x65, 0x2E],
    [0x25, 0x32, 0x65, 0x25, 0x32, 0x65]]

/-- The path of the segments read so far, the last of them first, and the ones to come. A
    dot segment at the end leaves an empty segment. -/
def normalizeFrom (path : List (List UInt8)) : List (List UInt8) → List (List UInt8)
  | [] => path.reverse
  | s :: rest =>
    if isDoubleDot s then
      if rest = [] then ([] :: path.tail).reverse else normalizeFrom path.tail rest
    else if isSingleDot s then
      if rest = [] then ([] :: path).reverse else normalizeFrom path rest
    else normalizeFrom (s :: path) rest

/-- The segments of a path after parsing. -/
def normalize (segments : List (List UInt8)) : List (List UInt8) := normalizeFrom [] segments

/-- The path with these segments. -/
def joinPath (segments : List (List UInt8)) : List UInt8 := segments.flatMap (0x2F :: ·)

theorem normalizeFrom_eq {path segments : List (List UInt8)}
    (h : ∀ s ∈ segments, isSingleDot s = false ∧ isDoubleDot s = false) :
    normalizeFrom path segments = path.reverse ++ segments := by
  induction segments generalizing path with
  | nil => exact (List.append_nil _).symm
  | cons s rest ih =>
    obtain ⟨hsingle, hdouble⟩ := h s List.mem_cons_self
    rw [normalizeFrom, if_neg (by simp [hdouble]), if_neg (by simp [hsingle]),
      ih fun t ht => h t (List.mem_cons_of_mem s ht), List.reverse_cons, List.append_assoc,
      List.singleton_append]

/-- A path without dot segments stays as it is. -/
theorem normalize_eq_self {segments : List (List UInt8)}
    (h : ∀ s ∈ segments, isSingleDot s = false ∧ isDoubleDot s = false) :
    normalize segments = segments := normalizeFrom_eq h

end Url
