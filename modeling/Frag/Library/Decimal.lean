import Mathlib.Data.List.TakeWhile

/-!
# Decimal Numbers

Natural numbers in ASCII digits. `digits` writes a number without leading zeros and
`value` reads digits.

## Main results

- `value_digits`: a number is read as it was written;
- `takeWhile_digits`, `dropWhile_digits`: a number ends where the digits end.
-/

namespace Decimal

/-- `0` to `9` -/
def isDigit (c : UInt8) : Bool := 0x30 ≤ c && c ≤ 0x39

theorem isDigit_iff {c : UInt8} : isDigit c = true ↔ 0x30 ≤ c.toNat ∧ c.toNat ≤ 0x39 := by
  simp [isDigit, UInt8.le_iff_toNat_le]

/-- The value of a sequence of digits. -/
def value (ds : List UInt8) : Nat := ds.foldl (fun n d => 10 * n + (d - 0x30).toNat) 0

/-- More digits do not make a number smaller. -/
theorem value_le_append (ds es : List UInt8) : value ds ≤ value (ds ++ es) := by
  have hfold : ∀ n : Nat, n ≤ es.foldl (fun n d => 10 * n + (d - 0x30).toNat) n := by
    induction es with
    | nil => exact Nat.le_refl
    | cons e es ih =>
      intro n
      have hle := ih (10 * n + (e - 0x30).toNat)
      rw [List.foldl_cons]
      omega
  rw [value, value, List.foldl_append]
  exact hfold _

/-- The digits of a number. -/
def digits (n : Nat) : List UInt8 := (Nat.toDigits 10 n).map fun c => .ofNat c.toNat

/-- The digit of a number below ten. -/
def digit (d : Nat) : UInt8 := .ofNat (0x30 + d)

theorem digit_spec {d : Nat} (h : d < 10) :
    isDigit (digit d) = true ∧ (digit d - 0x30).toNat = d := by
  revert d
  decide

theorem digit_ne_zero {d : Nat} (h : d < 10) (hd : d ≠ 0) : digit d ≠ 0x30 := by
  revert d
  decide

/-- The last digit is the remainder. -/
theorem digits_eq (n : Nat) :
    digits n = if n < 10 then [digit n] else digits (n / 10) ++ [digit (n % 10)] := by
  -- The library writes characters; below ten they are the digits.
  have hchar : ∀ d < 10, UInt8.ofNat d.digitChar.toNat = digit d := fun d hd => by
    rw [Nat.toNat_digitChar_of_lt_ten hd, digit]
  rw [digits, Nat.toDigits_eq_if (by decide)]
  split
  · rename_i hlt
    rw [List.map_singleton, hchar n hlt]
  · rw [List.map_append, List.map_singleton, hchar _ (Nat.mod_lt n (by decide)), ← digits]

/-- Induction along the digits, from the first to the last. -/
theorem digits_induction {P : Nat → Prop} (one : ∀ d < 10, P d)
    (more : ∀ n, 10 ≤ n → P (n / 10) → P n) (n : Nat) : P n := by
  induction n using Nat.strong_induction_on with
  | _ n ih =>
    -- The digits of `n / 10` come before the last one.
    by_cases h : n < 10
    · exact one n h
    · exact more n (by omega) (ih (n / 10) (by omega))

theorem value_digits (n : Nat) : value (digits n) = n := by
  induction n using digits_induction with
  | one d hd => rw [digits_eq, if_pos hd, value, List.foldl_cons, List.foldl_nil, (digit_spec hd).2,
      Nat.mul_zero, Nat.zero_add]
  | more n hn ih =>
    rw [value] at ih
    rw [digits_eq, if_neg (by omega), value, List.foldl_append, ih, List.foldl_cons, List.foldl_nil,
      (digit_spec (Nat.mod_lt n (by decide))).2, Nat.div_add_mod]

theorem isDigit_of_mem_digits {n : Nat} {c : UInt8} (h : c ∈ digits n) : isDigit c = true := by
  induction n using digits_induction with
  | one d hd =>
    rw [digits_eq, if_pos hd, List.mem_singleton] at h
    rw [h]
    exact (digit_spec hd).1
  | more n hn ih =>
    rw [digits_eq, if_neg (by omega), List.mem_append, List.mem_singleton] at h
    rcases h with h | rfl
    · exact ih h
    · exact (digit_spec (Nat.mod_lt n (by decide))).1

theorem digits_ne_nil (n : Nat) : digits n ≠ [] := by
  simp [digits, Nat.toDigits_ne_nil]

/-- There is no leading zero. -/
theorem exists_digits_cons {n : Nat} (h : n ≠ 0) : ∃ d ds, digits n = d :: ds ∧ d ≠ 0x30 := by
  induction n using digits_induction with
  | one d hd => exact ⟨digit d, [], by rw [digits_eq, if_pos hd], digit_ne_zero hd h⟩
  | more n hn ih =>
    obtain ⟨d, ds, hds, hd⟩ := ih (by omega)
    exact ⟨d, ds ++ [digit (n % 10)], by rw [digits_eq, if_neg (by omega), hds, List.cons_append], hd⟩

section Scan

variable {rest : List UInt8} (hrest : ∀ c ∈ rest.head?, isDigit c = false)
include hrest

/-- A number followed by anything but a digit. -/
theorem takeWhile_digits (n : Nat) : (digits n ++ rest).takeWhile isDigit = digits n := by
  rw [List.takeWhile_append_of_pos fun c hc => isDigit_of_mem_digits hc]
  cases rest with
  | nil => simp
  | cons c rest => simp [hrest c rfl]

theorem dropWhile_digits (n : Nat) : (digits n ++ rest).dropWhile isDigit = rest := by
  rw [List.dropWhile_append_of_pos fun c hc => isDigit_of_mem_digits hc]
  cases rest with
  | nil => rfl
  | cons c rest => simp [hrest c rfl]

end Scan

end Decimal
