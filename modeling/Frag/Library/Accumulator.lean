import Mathlib.Data.Nat.Digits.Lemmas

/-!
# Accumulators

A machine word into which digits are shifted at the low end, and out of which bits are read
by an arithmetic shift to the right. Nothing masks the word, so bits that have been read stay
in it, wander up and fall off at the top.

## Main results

- `toNat_sshiftRight_mod`: bits below the top of the word are read as those of its unsigned
  value, whatever the sign;
- `spell_lt_iff`: which digits spell a number below a bound.
-/

namespace Accumulator

/-! ## Words -/

variable {w : Nat}

/-- `(v << k) + d` on words of `w` bits. -/
def push (k : Nat) (v : BitVec w) (d : Nat) : BitVec w := v <<< k + BitVec.ofNat w d

/-- The word is the shifted number with the digit added, up to what falls off. -/
theorem toNat_push (k : Nat) (v : BitVec w) (d : Nat) :
    (push k v d).toNat = (v.toNat * 2 ^ k + d) % 2 ^ w := by
  rw [push, BitVec.toNat_add, BitVec.toNat_shiftLeft, BitVec.toNat_ofNat, Nat.shiftLeft_eq,
    ← Nat.add_mod]

/-- **The sign is not seen**: the copies of the sign bit come in above the bits that are read. -/
theorem toNat_sshiftRight_mod {v : BitVec w} {p m : Nat} (h : p + m ≤ w) :
    (v.sshiftRight p).toNat % 2 ^ m = v.toNat / 2 ^ p % 2 ^ m := by
  apply Nat.eq_of_testBit_eq
  intro i
  rw [Nat.testBit_mod_two_pow, Nat.testBit_mod_two_pow, Nat.testBit_div_two_pow]
  by_cases hi : i < m
  · have hlow : ¬ w ≤ i := by omega
    have hsign : p + i < w := by omega
    rw [← BitVec.getLsbD, ← BitVec.getLsbD, BitVec.getLsbD_sshiftRight, if_pos hsign]
    simp [hlow, Nat.add_comm]
  · simp [hi]

/-! ## Numbers -/

variable {b : Nat}

/-- The number that digits spell after those of `n`. -/
def spell (b n : Nat) (ds : List Nat) : Nat := ds.foldl (fun n d => n * b + d) n

@[simp] theorem spell_nil (b n : Nat) : spell b n [] = n := rfl

@[simp] theorem spell_cons (b n d : Nat) (ds : List Nat) :
    spell b n (d :: ds) = spell b (n * b + d) ds := rfl

/-- The digits stand below those of `n`. -/
theorem spell_eq (b n : Nat) (ds : List Nat) :
    spell b n ds = n * b ^ ds.length + Nat.ofDigits b ds.reverse := by
  induction ds generalizing n with
  | nil => simp
  | cons d ds ih =>
    rw [spell_cons, ih, List.reverse_cons, Nat.ofDigits_append, List.length_reverse,
      Nat.ofDigits_singleton, List.length_cons, Nat.pow_succ]
    ring

/-- More digits do not make a number smaller. -/
theorem le_spell (hb : 0 < b) (n : Nat) (ds : List Nat) : n ≤ spell b n ds := by
  rw [spell_eq]
  exact Nat.le_add_right_of_le (Nat.le_mul_of_pos_right n (Nat.pow_pos hb))

/-- Zeros before the first digit do not count. -/
theorem spell_dropWhile (b : Nat) (ds : List Nat) :
    spell b 0 (ds.dropWhile (· == 0)) = spell b 0 ds := by
  induction ds with
  | nil => rfl
  | cons d ds ih =>
    by_cases hd : d = 0
    · rw [List.dropWhile_cons_of_pos (by simp [hd]), ih, spell_cons, hd, Nat.zero_mul, Nat.zero_add]
    · rw [List.dropWhile_cons_of_neg (by simp [hd])]

private theorem ofDigits_reverse_lt (hb : 1 < b) {ds : List Nat} (hds : ∀ d ∈ ds, d < b) :
    Nat.ofDigits b ds.reverse < b ^ ds.length := by
  have hlt := Nat.ofDigits_lt_base_pow_length hb fun d hd => hds d (List.mem_reverse.mp hd)
  rwa [List.length_reverse] at hlt

/-- **Which digits spell a number below `q` at the place `n`**: those that reach no further,
    and those that reach just there with a first digit below `q`. -/
theorem spell_lt_iff (hb : 1 < b) {q n : Nat} (hq : 0 < q) (hqb : q ≤ b) {ds : List Nat}
    (hds : ∀ d ∈ ds, d < b) :
    spell b 0 ds < q * b ^ n ↔ (ds.dropWhile (· == 0)).length ≤ n ∨
      ((ds.dropWhile (· == 0)).length = n + 1 ∧ ∀ d ∈ (ds.dropWhile (· == 0)).head?, d < q) := by
  have hes : ∀ d ∈ ds.dropWhile (· == 0), d < b :=
    fun d hd => hds d ((List.dropWhile_suffix _).subset hd)
  have hfirst : ∀ d ∈ (ds.dropWhile (· == 0)).head?, d ≠ 0 := by
    intro d hd
    have hstop := List.head?_dropWhile_not (· == 0) ds
    rw [hd] at hstop
    simpa using hstop
  rw [← spell_dropWhile]
  generalize ds.dropWhile (· == 0) = es at hes hfirst
  cases es with
  | nil => simp [Nat.pow_pos (Nat.lt_trans Nat.zero_lt_one hb), hq]
  | cons d es =>
    have hd : 0 < d := Nat.pos_of_ne_zero (hfirst d rfl)
    have hdb : d < b := hes d List.mem_cons_self
    have hlow := ofDigits_reverse_lt hb fun e he => hes e (List.mem_cons_of_mem _ he)
    have hpos : 0 < b := Nat.lt_trans Nat.zero_lt_one hb
    rw [spell_cons, Nat.zero_mul, Nat.zero_add, spell_eq]
    generalize Nat.ofDigits b es.reverse = low at hlow
    simp only [List.length_cons, List.head?_cons, Option.mem_some_iff, forall_eq']
    -- The first digit stands below the place, at it, or above it.
    rcases Nat.lt_trichotomy es.length n with hlt | heq | hgt
    · have hbound : d * b ^ es.length + low < q * b ^ n := by
        calc d * b ^ es.length + low < d * b ^ es.length + b ^ es.length := by omega
          _ = (d + 1) * b ^ es.length := by ring
          _ ≤ b * b ^ es.length := Nat.mul_le_mul_right _ hdb
          _ = b ^ (es.length + 1) := by ring
          _ ≤ b ^ n := Nat.pow_le_pow_right hpos hlt
          _ ≤ q * b ^ n := Nat.le_mul_of_pos_left _ hq
      exact iff_of_true hbound (.inl hlt)
    · have hplace : d * b ^ n + low < q * b ^ n ↔ d < q := by
        rw [heq] at hlow
        constructor
        · intro h
          exact Nat.lt_of_mul_lt_mul_right (Nat.lt_of_le_of_lt (Nat.le_add_right _ low) h)
        · intro h
          calc d * b ^ n + low < d * b ^ n + b ^ n := by omega
            _ = (d + 1) * b ^ n := by ring
            _ ≤ q * b ^ n := Nat.mul_le_mul_right _ h
      rw [heq, hplace]
      omega
    · have hbound : q * b ^ n ≤ d * b ^ es.length + low := by
        calc q * b ^ n ≤ b * b ^ n := Nat.mul_le_mul_right _ hqb
          _ = b ^ (n + 1) := by ring
          _ ≤ b ^ es.length := Nat.pow_le_pow_right hpos hgt
          _ ≤ d * b ^ es.length := Nat.le_mul_of_pos_left _ hd
          _ ≤ d * b ^ es.length + low := Nat.le_add_right _ _
      exact iff_of_false (Nat.not_lt.mpr hbound) (by omega)

end Accumulator
