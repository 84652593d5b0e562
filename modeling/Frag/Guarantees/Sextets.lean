import Frag.Backend.Base64

/-!
# The Accumulator of the Base64 Decoder

`base64_decode` shifts every character of its input into one `int` and never takes anything
out. The bytes that it returns do not depend on what has been shifted out at the top, so the
round trip holds at every length. The sums themselves leave the range of an `int` with the
sixth or seventh significant character, and before C++20 that is undefined behaviour.

## Main results

- `base64Decode_base64Encode`: what is encoded is decoded again;
- `sums_within_int_iff`: the inputs on which the arithmetic is defined.
-/

namespace Frag

/-! ## Round trip -/

/-- The characters of the alphabet at the beginning of an encoding are its sextets. -/
theorem takeWhile_base64Encode (s : Bytes) :
    (base64Encode s).takeWhile isB64 = (Base64.sextets s).map sextetChar := by
  have halphabet : ∀ c ∈ (Base64.sextets s).map sextetChar, isB64 c = true := by
    intro c hc
    obtain ⟨v, -, rfl⟩ := List.mem_map.mp hc
    exact isB64_sextetChar v
  have hpadding : (List.replicate (Base64.padding s.length) 0x3D).takeWhile isB64 = [] := by
    rw [List.takeWhile_replicate, if_neg (by simp [isB64_pad])]
  rw [base64Encode_eq, List.takeWhile_append_of_pos halphabet, hpadding, List.append_nil]

/-- **The base64 helpers of the backend are inverse to each other**, although the accumulator
    of the decoder wraps around. -/
theorem base64Decode_base64Encode (s : Bytes) : base64Decode (base64Encode s) = s := by
  have hsextets : ((Base64.sextets s).map sextetChar).map sextet = Base64.sextets s := by
    rw [List.map_map]
    exact (List.map_congr_left fun v _ => sextet_sextetChar v).trans (List.map_id _)
  rw [base64Decode_eq, takeWhile_base64Encode, hsextets, Base64.bytes_sextets]

/-! ## Range -/

/-- At most five characters of the alphabet come before the first other one, or six of which
    the first is a `B`; the `A`s at the beginning do not count. -/
def FitsInt (input : Bytes) : Prop :=
  let digits := (input.takeWhile isB64).dropWhile (· == 0x41)
  digits.length ≤ 5 ∨ (digits.length = 6 ∧ digits.head? = some 0x42)

instance (input : Bytes) : Decidable (FitsInt input) :=
  inferInstanceAs (Decidable (_ ∨ _))

/-- The numbers of the characters of the alphabet at the beginning of an input. -/
def digits64 (input : Bytes) : List Nat := (input.takeWhile isB64).map fun c => (sextet c).val

theorem digits64_lt (input : Bytes) : ∀ d ∈ digits64 input, d < 64 := by
  intro d hd
  obtain ⟨c, -, rfl⟩ := List.mem_map.mp hd
  exact (sextet c).isLt

/-- `A` is the digit zero, and `B` the digit one. -/
theorem sextet_letter : ∀ c : UInt8, isB64 c = true →
    ((sextet c).val = 0 ↔ c = 0x41) ∧ ((sextet c).val = 1 ↔ c = 0x42) :=
  forall_byte (by decide +kernel)

/-- The digits without leading zeros are the characters without leading `A`s. -/
private theorem dropWhile_map_sextet {l : Bytes} (h : ∀ c ∈ l, isB64 c = true) :
    (l.map fun c => (sextet c).val).dropWhile (· == 0) =
      (l.dropWhile (· == 0x41)).map fun c => (sextet c).val := by
  induction l with
  | nil => rfl
  | cons c l ih =>
    have hzero := (sextet_letter c (h c List.mem_cons_self)).1
    by_cases hc : c = 0x41
    · rw [List.map_cons, List.dropWhile_cons_of_pos (by simpa using hzero.mpr hc),
        List.dropWhile_cons_of_pos (by simpa using hc),
        ih fun d hd => h d (List.mem_cons_of_mem _ hd)]
    · rw [List.map_cons, List.dropWhile_cons_of_neg (by simpa using mt hzero.mp hc),
        List.dropWhile_cons_of_neg (by simpa using hc), List.map_cons]

namespace Decoder

/-- A sum that is in range is the next value of the accumulator. -/
theorem toNat_val_step {s : Decoder} {c : UInt8} (hc : isB64 c = true)
    (h : s.val.toNat * 64 + sextet c < 2147483648) :
    (s.step c).val.toNat = s.val.toNat * 64 + sextet c := by
  have hval : (s.step c).val = Accumulator.push 6 s.val (sextet c) := by
    rw [step_eq s hc, shift]
    split <;> rfl
  rw [hval, Accumulator.toNat_push]
  omega

/-- **The sums stay in range while the number spelled so far does.** -/
theorem sums_within_iff (input : Bytes) {s : Decoder} (hs : s.val.toNat < 2147483648) :
    (∀ x ∈ s.sums input, 0 ≤ x ∧ x ≤ 2147483647) ↔
      Accumulator.spell 64 s.val.toNat (digits64 input) < 2147483648 := by
  induction input generalizing s with
  | nil => exact iff_of_true (fun x hx => absurd hx List.not_mem_nil) hs
  | cons c input ih =>
    by_cases hc : isB64 c = true
    · have hlookup : lookup c ≠ -1 := by simpa [isB64] using hc
      have hdigits : digits64 (c :: input) = (sextet c).val :: digits64 input := by
        rw [digits64, List.takeWhile_cons_of_pos hc, List.map_cons]
        rfl
      have hsum : s.sum c = (s.val.toNat * 64 + sextet c : Nat) := by
        rw [sum, lookup_eq hc, BitVec.toInt_eq_toNat_of_lt (by omega)]
        push_cast
        rfl
      rw [sums, if_neg hlookup, List.forall_mem_cons, hsum, hdigits, Accumulator.spell_cons]
      by_cases hnext : s.val.toNat * 64 + sextet c < 2147483648
      · -- The next value is the exact one, so the rest is the same question for it.
        have hval := toNat_val_step hc hnext
        rw [ih (hval ▸ hnext), hval]
        exact and_iff_right ⟨by omega, by omega⟩
      · -- The first sum out of range is below the number that all characters spell.
        have hle := Accumulator.le_spell (b := 64) (by decide) (s.val.toNat * 64 + sextet c)
          (digits64 input)
        exact iff_of_false (fun h => hnext (by omega)) (by omega)
    · have hlookup : lookup c = -1 := by simpa [isB64] using hc
      rw [sums, if_pos hlookup, digits64, List.takeWhile_cons_of_neg hc]
      exact iff_of_true (fun x hx => absurd hx List.not_mem_nil) hs

end Decoder

/-- **When the arithmetic of the decoder is defined**: for no more characters than an `int`
    holds. -/
theorem sums_within_int_iff (input : Bytes) :
    (∀ x ∈ Decoder.initial.sums input, 0 ≤ x ∧ x ≤ 2147483647) ↔ FitsInt input := by
  have hspell := Accumulator.spell_lt_iff (b := 64) (q := 2) (n := 5) (by decide) (by decide)
    (by decide) (digits64_lt input)
  have hdigits := dropWhile_map_sextet (l := input.takeWhile isB64) fun c hc =>
    List.mem_takeWhile_imp hc
  rw [Decoder.sums_within_iff input (s := Decoder.initial) (by decide)]
  -- `2 * 64 ^ 5` is the first number that an `int` does not hold.
  refine hspell.trans ?_
  rw [digits64, hdigits, List.length_map, List.head?_map, FitsInt]
  refine or_congr Iff.rfl (and_congr_right fun hlen => ?_)
  obtain ⟨c, rest, hcons⟩ := List.exists_cons_of_length_eq_add_one hlen
  have hmem : c ∈ input.takeWhile isB64 :=
    (List.dropWhile_suffix _).subset (hcons ▸ List.mem_cons_self)
  have hfirst : c ≠ 0x41 := by
    have hstop := List.head?_dropWhile_not (· == 0x41) (input.takeWhile isB64)
    rw [hcons] at hstop
    simpa using hstop
  -- The first digit is not zero, so it is below two if it is one.
  obtain ⟨hzero, hone⟩ := sextet_letter c (List.mem_takeWhile_imp hmem)
  have hne : (sextet c).val ≠ 0 := mt hzero.mp hfirst
  rw [hcons]
  simp only [List.head?_cons, Option.map_some, Option.mem_some_iff, forall_eq', Option.some.injEq,
    ← hone]
  omega

/-- Eight characters are enough to leave the range. -/
theorem not_forall_sums_within_int :
    ¬ ∀ input : Bytes, ∀ x ∈ Decoder.initial.sums input, 0 ≤ x ∧ x ≤ 2147483647 := by
  intro h
  exact absurd (h (lit "////////")) (by decide +kernel)

end Frag
