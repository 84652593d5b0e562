import Mathlib.Data.Int.Log
import Mathlib.Data.Rat.Floor

/-!
# Double Precision

The double that a real number is rounded to: 53 significant bits, exponents from -1022 to 1023,
ties to even (IEEE 754, binary64). A number is given as a rational.

## Main results

- `round_intCast`: integers below 2^53 are doubles.
-/

namespace Binary64

/-- The nearest integer; of two, the even one. -/
def nearest (x : Rat) : Int :=
  let r := x - ⌊x⌋
  if r < 1 / 2 then ⌊x⌋
  else if 1 / 2 < r then ⌊x⌋ + 1
  else if ⌊x⌋ % 2 = 0 then ⌊x⌋
  else ⌊x⌋ + 1

/-- The distance of two doubles next to `x`, which is not zero. -/
def ulp (x : Rat) : Rat := 2 ^ (max (Int.log 2 |x|) (-1022) - 52)

/-- The double for `x`, if there were no largest one. -/
def round (x : Rat) : Rat := if x = 0 then 0 else nearest (x / ulp x) * ulp x

/-- Every double is smaller in magnitude than this. -/
def limit : Rat := 2 ^ (1024 : Nat)

theorem nearest_intCast (n : Int) : nearest n = n := by
  have hhalf : (0 : Rat) < 1 / 2 := by norm_num
  simp only [nearest, Int.floor_intCast, sub_self, if_pos hhalf]

theorem ulp_pos (x : Rat) : 0 < ulp x := zpow_pos (by norm_num) _

/-- A multiple of its distance to the next double is a double. -/
theorem round_of_multiple {x : Rat} {k : Int} (h : x = k * ulp x) : round x = x := by
  unfold round
  split
  · rename_i hzero
    exact hzero.symm
  · have hdiv : x / ulp x = k := by
      rw [div_eq_iff (ulp_pos x).ne']
      exact h
    rw [hdiv, nearest_intCast, ← h]

/-- **Small integers are doubles.** -/
theorem round_intCast {n : Int} (h : |n| < 2 ^ 53) : round n = n := by
  by_cases hzero : n = 0
  · subst hzero
    rw [round, Int.cast_zero, if_pos rfl]
  · -- The distance is a power of two that is at most one.
    have hpos : 0 < |(n : Rat)| := abs_pos.mpr (Int.cast_ne_zero.mpr hzero)
    have hlog : Int.log 2 |(n : Rat)| < 53 := by
      refine (Int.lt_zpow_iff_log_lt (by norm_num) hpos).mp ?_
      have hcast : (|n| : Rat) < 2 ^ 53 := by exact_mod_cast h
      exact_mod_cast hcast
    obtain ⟨j, hj⟩ : ∃ j : Nat, max (Int.log 2 |(n : Rat)|) (-1022) - 52 = -(j : Int) :=
      ⟨(52 - max (Int.log 2 |(n : Rat)|) (-1022)).toNat, by omega⟩
    apply round_of_multiple (k := n * 2 ^ j)
    rw [ulp, hj, zpow_neg, zpow_natCast, Int.cast_mul, Int.cast_pow, Int.cast_ofNat]
    rw [mul_assoc, mul_inv_cancel₀ (by positivity), mul_one]

example : round (1 / 10) = 3602879701896397 / 36028797018963968 ∧ round (2 ^ 53 + 1) = 2 ^ 53 := by
  decide +kernel

end Binary64
