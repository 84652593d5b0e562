import Frag.Backend.Text
import Frag.Library.Accumulator
import Frag.Library.Base64

/-!
# Base64 of the Backend

`base64_encode` and `base64_decode` of `utils.hpp`. No handler calls them; the backend
stores payloads as the client encoded them.

The encoder works on an `unsigned int`, the decoder on an `int` that wraps around. The decoder
reads up to the first character outside the alphabet, padding included, and never masks its
accumulator.

## Main results

- `base64Encode_eq`: the encoder writes the sextets of its input, and padding;
- `base64Decode_eq`: the decoder joins the sextets before the first other character.
-/

namespace Frag

/-! ## Encoder -/

/-- `B64_CHARS` -/
def b64Chars : Bytes := lit "ABCDEFGHIJKLMNOPQRSTUVWXYZabcdefghijklmnopqrstuvwxyz0123456789+/"

/-- `B64_CHARS[i & 0x3F]` -/
def b64Char (i : UInt32) : UInt8 := b64Chars.getD (i &&& 0x3F).toNat 0

/-- One round of `base64_encode`: the bytes from `i` on that there are, at least one. -/
def encodeGroup (x : UInt8) (y z : Option UInt8) : Bytes :=
  let b : UInt32 := x.toUInt32 <<< 16
  let b : UInt32 := match y with
    | some y => b ||| y.toUInt32 <<< 8
    | none => b
  let b : UInt32 := match z with
    | some z => b ||| z.toUInt32
    | none => b
  [b64Char (b >>> 18), b64Char (b >>> 12), if y.isSome then b64Char (b >>> 6) else 0x3D,
    if z.isSome then b64Char b else 0x3D]

/-- `base64_encode` -/
def base64Encode : Bytes → Bytes
  | [] => []
  | [x] => encodeGroup x none none
  | [x, y] => encodeGroup x (some y) none
  | x :: y :: z :: data => encodeGroup x (some y) (some z) ++ base64Encode data

/-! ## Decoder -/

/-- The table of `base64_decode`. -/
def lookupTable : List Int := [
  -1, -1, -1, -1, -1, -1, -1, -1, -1, -1, -1, -1, -1, -1, -1, -1,
  -1, -1, -1, -1, -1, -1, -1, -1, -1, -1, -1, -1, -1, -1, -1, -1,
  -1, -1, -1, -1, -1, -1, -1, -1, -1, -1, -1, 62, -1, -1, -1, 63,
  52, 53, 54, 55, 56, 57, 58, 59, 60, 61, -1, -1, -1, -1, -1, -1,
  -1,  0,  1,  2,  3,  4,  5,  6,  7,  8,  9, 10, 11, 12, 13, 14,
  15, 16, 17, 18, 19, 20, 21, 22, 23, 24, 25, -1, -1, -1, -1, -1,
  -1, 26, 27, 28, 29, 30, 31, 32, 33, 34, 35, 36, 37, 38, 39, 40,
  41, 42, 43, 44, 45, 46, 47, 48, 49, 50, 51, -1, -1, -1, -1, -1,
  -1, -1, -1, -1, -1, -1, -1, -1, -1, -1, -1, -1, -1, -1, -1, -1,
  -1, -1, -1, -1, -1, -1, -1, -1, -1, -1, -1, -1, -1, -1, -1, -1,
  -1, -1, -1, -1, -1, -1, -1, -1, -1, -1, -1, -1, -1, -1, -1, -1,
  -1, -1, -1, -1, -1, -1, -1, -1, -1, -1, -1, -1, -1, -1, -1, -1,
  -1, -1, -1, -1, -1, -1, -1, -1, -1, -1, -1, -1, -1, -1, -1, -1,
  -1, -1, -1, -1, -1, -1, -1, -1, -1, -1, -1, -1, -1, -1, -1, -1,
  -1, -1, -1, -1, -1, -1, -1, -1, -1, -1, -1, -1, -1, -1, -1, -1,
  -1, -1, -1, -1, -1, -1, -1, -1, -1, -1, -1, -1, -1, -1, -1, -1]

/-- `lookup[c]` -/
def lookup (c : UInt8) : Int := lookupTable.getD c.toNat (-1)

/-- The variables of `base64_decode`. -/
structure Decoder where
  val : BitVec 32
  bits : Int
  out : Bytes

namespace Decoder

/-- `int val = 0, bits = -8;` -/
def initial : Decoder := ⟨0, -8, []⟩

/-- The sum `(val << 6) + lookup[c]`, as a number and before it is an `int`. -/
def sum (s : Decoder) (c : UInt8) : Int := s.val.toInt * 64 + lookup c

/-- One round of the loop, for a character of the alphabet. -/
def step (s : Decoder) (c : UInt8) : Decoder :=
  let val := s.val <<< 6 + BitVec.ofInt 32 (lookup c)
  let bits := s.bits + 6
  if 0 ≤ bits then
    -- Eight bits are there; they are appended, and stay in the accumulator.
    { val, bits := bits - 8, out := s.out ++ [.ofNat ((val.sshiftRight bits.toNat) &&& 0xFF).toNat] }
  else { val, bits, out := s.out }

/-- The loop of `base64_decode`. -/
def loop (s : Decoder) : Bytes → Decoder
  | [] => s
  -- The first character outside the alphabet ends the loop.
  | c :: input => if lookup c = -1 then s else loop (s.step c) input

/-- The sums that the loop computes. -/
def sums (s : Decoder) : Bytes → List Int
  | [] => []
  | c :: input => if lookup c = -1 then [] else s.sum c :: sums (s.step c) input

end Decoder

/-- `base64_decode` -/
def base64Decode (input : Bytes) : Bytes := (Decoder.initial.loop input).out

/-! ## The alphabet -/

/-- A character of the alphabet. -/
def isB64 (c : UInt8) : Bool := lookup c != -1

/-- The sextet of a character of the alphabet. -/
def sextet (c : UInt8) : Fin 64 := ⟨(lookup c).toNat % 64, Nat.mod_lt _ (by decide)⟩

/-- The character of a sextet. -/
def sextetChar (v : Fin 64) : UInt8 := b64Chars.getD v 0

theorem lookupTable_range : ∀ x ∈ lookupTable, x = -1 ∨ (0 ≤ x ∧ x < 64) := by decide +kernel

/-- The table has sextets, and `-1` for everything else. -/
theorem lookup_range (c : UInt8) : lookup c = -1 ∨ (0 ≤ lookup c ∧ lookup c < 64) := by
  rw [lookup, List.getD_eq_getElem?_getD]
  cases h : lookupTable[c.toNat]? with
  | none => exact .inl rfl
  | some x => exact lookupTable_range x (List.mem_of_getElem? h)

theorem lookup_eq {c : UInt8} (h : isB64 c = true) : lookup c = (sextet c).val := by
  have hne : lookup c ≠ -1 := by simpa [isB64] using h
  have hrange := (lookup_range c).resolve_left hne
  change lookup c = ((lookup c).toNat % 64 : Nat)
  omega

theorem isB64_sextetChar : ∀ v, isB64 (sextetChar v) = true := by decide +kernel

@[simp] theorem sextet_sextetChar : ∀ v, sextet (sextetChar v) = v := by decide +kernel

theorem isB64_pad : isB64 0x3D = false := by decide +kernel

/-! ## What the encoder writes -/

theorem b64Char_eq (i : UInt32) : b64Char i = sextetChar (.ofNat 64 i.toNat) := by
  have hmask : (i &&& 0x3F).toNat = i.toNat % 64 := by
    rw [UInt32.toNat_and]
    exact Nat.and_two_pow_sub_one_eq_mod i.toNat 6
  rw [b64Char, sextetChar, hmask, Fin.val_ofNat]

/-- Three bytes side by side in a word. -/
theorem toNat_group (x y z : UInt8) :
    (x.toUInt32 <<< 16 ||| y.toUInt32 <<< 8 ||| z.toUInt32).toNat =
      x.toNat * 65536 + y.toNat * 256 + z.toNat := by
  have hx := x.toNat_lt
  have hy := y.toNat_lt
  have hz := z.toNat_lt
  have hshift : ∀ (a : UInt8) (k : UInt32), k.toNat ≤ 16 →
      (a.toUInt32 <<< k).toNat = a.toNat <<< k.toNat := by
    intro a k hk
    have ha := a.toNat_lt
    have hpow : 2 ^ k.toNat ≤ 2 ^ 16 := Nat.pow_le_pow_right (by decide) hk
    have hmul : a.toNat * 2 ^ k.toNat ≤ 255 * 2 ^ 16 := Nat.mul_le_mul (by omega) hpow
    rw [UInt32.toNat_shiftLeft, UInt8.toNat_toUInt32, Nat.mod_eq_of_lt (by omega : k.toNat < 32),
      Nat.mod_eq_of_lt (by rw [Nat.shiftLeft_eq]; omega)]
  have hlow : y.toNat <<< 8 + z.toNat < 2 ^ 16 := by
    rw [Nat.shiftLeft_eq]
    omega
  -- Each byte comes to stand above those after it, so the disjunction is a sum.
  rw [UInt32.toNat_or, UInt32.toNat_or, hshift x 16 (by decide), hshift y 8 (by decide),
    UInt8.toNat_toUInt32, Nat.or_assoc]
  change x.toNat <<< 16 ||| (y.toNat <<< 8 ||| z.toNat) = _
  rw [← Nat.shiftLeft_add_eq_or_of_lt hz, ← Nat.shiftLeft_add_eq_or_of_lt hlow, Nat.shiftLeft_eq,
    Nat.shiftLeft_eq]
  omega

/-- The four sextets of three bytes. -/
private theorem b64Char_group (x y z : UInt8) :
    let b := x.toUInt32 <<< 16 ||| y.toUInt32 <<< 8 ||| z.toUInt32
    b64Char (b >>> 18) = sextetChar (.ofNat 64 (x.toNat / 4)) ∧
    b64Char (b >>> 12) = sextetChar (.ofNat 64 (x.toNat % 4 * 16 + y.toNat / 16)) ∧
    b64Char (b >>> 6) = sextetChar (.ofNat 64 (y.toNat % 16 * 4 + z.toNat / 64)) ∧
    b64Char b = sextetChar (.ofNat 64 (z.toNat % 64)) := by
  intro b
  have hx := x.toNat_lt
  have hy := y.toNat_lt
  have hz := z.toNat_lt
  have hb : b.toNat = x.toNat * 65536 + y.toNat * 256 + z.toNat := toNat_group x y z
  have hshift : ∀ k : UInt32, k.toNat < 32 → (b >>> k).toNat = b.toNat / 2 ^ k.toNat := by
    intro k hk
    rw [UInt32.toNat_shiftRight, Nat.mod_eq_of_lt hk, Nat.shiftRight_eq_div_pow]
  have h18 : (b >>> 18).toNat = b.toNat / 262144 := hshift 18 (by decide)
  have h12 : (b >>> 12).toNat = b.toNat / 4096 := hshift 12 (by decide)
  have h6 : (b >>> 6).toNat = b.toNat / 64 := hshift 6 (by decide)
  have hsextet : ∀ m n : Nat, m % 64 = n % 64 → sextetChar (.ofNat 64 m) = sextetChar (.ofNat 64 n) :=
    fun m n h => congrArg sextetChar (Fin.ext h)
  rw [b64Char_eq, b64Char_eq, b64Char_eq, b64Char_eq, h18, h12, h6, hb]
  refine ⟨hsextet _ _ ?_, hsextet _ _ ?_, hsextet _ _ ?_, hsextet _ _ ?_⟩ <;> omega

/-- **The encoder writes the sextets of its input**, and fills up the last group. -/
theorem base64Encode_eq (data : Bytes) : base64Encode data =
    (Base64.sextets data).map sextetChar ++ List.replicate (Base64.padding data.length) 0x3D := by
  fun_induction base64Encode data with
  | case1 => rfl
  | case2 x =>
    -- The bytes that are missing count as zeros.
    obtain ⟨h18, h12, -⟩ := b64Char_group x 0 0
    have hb : x.toUInt32 <<< 16 ||| (0 : UInt8).toUInt32 <<< 8 ||| (0 : UInt8).toUInt32 =
        x.toUInt32 <<< 16 := by simp
    rw [hb] at h18 h12
    simpa [encodeGroup, Base64.sextets, Base64.padding] using ⟨h18, h12⟩
  | case3 x y =>
    obtain ⟨h18, h12, h6, -⟩ := b64Char_group x y 0
    have hb : x.toUInt32 <<< 16 ||| y.toUInt32 <<< 8 ||| (0 : UInt8).toUInt32 =
        x.toUInt32 <<< 16 ||| y.toUInt32 <<< 8 := by simp
    rw [hb] at h18 h12 h6
    simpa [encodeGroup, Base64.sextets, Base64.padding] using ⟨h18, h12, h6⟩
  | case4 x y z data ih =>
    obtain ⟨h18, h12, h6, h0⟩ := b64Char_group x y z
    have hpadding : Base64.padding (x :: y :: z :: data).length = Base64.padding data.length := by
      simp only [Base64.padding, List.length_cons]
      omega
    rw [ih, hpadding, encodeGroup, h18, h12, h6, h0]
    rfl

/-! ## What the decoder reads -/

namespace Decoder

/-- The loop ends at the first character outside the alphabet. -/
theorem loop_eq (s : Decoder) (input : Bytes) :
    s.loop input = (input.takeWhile isB64).foldl step s := by
  induction input generalizing s with
  | nil => rfl
  | cons c input ih =>
    by_cases hc : lookup c = -1
    · rw [loop, if_pos hc, List.takeWhile_cons_of_neg (by simp [isB64, hc]), List.foldl_nil]
    · rw [loop, if_neg hc, List.takeWhile_cons_of_pos (by simp [isB64, hc]), List.foldl_cons, ih]

/-- A round for a sextet. -/
def shift (s : Decoder) (v : Fin 64) : Decoder :=
  let val := Accumulator.push 6 s.val v
  if 0 ≤ s.bits + 6 then
    { val, bits := s.bits - 2,
      out := s.out ++ [.ofNat (val.sshiftRight (s.bits + 6).toNat &&& 0xFF).toNat] }
  else { val, bits := s.bits + 6, out := s.out }

theorem step_eq (s : Decoder) {c : UInt8} (hc : isB64 c = true) : s.step c = s.shift (sextet c) := by
  have hval : BitVec.ofInt 32 (lookup c) = BitVec.ofNat 32 (sextet c) := by
    rw [lookup_eq hc, BitVec.ofInt_natCast]
  have hbits : s.bits + 6 - 8 = s.bits - 2 := by omega
  simp only [step, shift, Accumulator.push, hval, hbits]

theorem foldl_step (s : Decoder) {input : Bytes} (h : ∀ c ∈ input, isB64 c = true) :
    input.foldl step s = (input.map sextet).foldl shift s := by
  induction input generalizing s with
  | nil => rfl
  | cons c input ih =>
    rw [List.foldl_cons, List.map_cons, List.foldl_cons, step_eq s (h c List.mem_cons_self),
      ih _ fun d hd => h d (List.mem_cons_of_mem _ hd)]

/-- The low bits of the accumulator are the last sextet, whatever stands above them. -/
def Ends (val : BitVec 32) (v : Fin 64) : Prop := val.toNat % 64 = v

theorem ends_push (val : BitVec 32) (v : Fin 64) : Ends (Accumulator.push 6 val v) v := by
  rw [Ends, Accumulator.toNat_push]
  omega

/-- The first sextet of a group is only kept. -/
theorem shift_first (val : BitVec 32) (out : Bytes) (a : Fin 64) :
    ∃ val', shift ⟨val, -8, out⟩ a = ⟨val', -2, out⟩ ∧ Ends val' a :=
  ⟨Accumulator.push 6 val a, rfl, ends_push val a⟩

/-- **A byte comes from the last two sextets**, so stale and wrapped bits do not matter. -/
theorem shift_next {val : BitVec 32} {a : Fin 64} (h : Ends val a) (out : Bytes) (b : Fin 64)
    {p : Nat} (hp : p ≤ 4) :
    ∃ val', shift ⟨val, (p : Int) - 6, out⟩ b =
      ⟨val', (p : Int) - 8, out ++ [.ofNat ((a.val * 64 + b) / 2 ^ p)]⟩ ∧ Ends val' b := by
  refine ⟨Accumulator.push 6 val b, ?_, ends_push val b⟩
  have hbits : (p : Int) - 6 + 6 = p := by omega
  -- Eight bits from `p` on, of the twelve that the two sextets fill.
  have hlow := Accumulator.toNat_sshiftRight_mod (v := Accumulator.push 6 val b)
    (show p + 8 ≤ 32 by omega)
  have htwelve : (Accumulator.push 6 val b).toNat % 4096 = a.val * 64 + b := by
    rw [Ends] at h
    rw [Accumulator.toNat_push]
    omega
  have hbyte : (Accumulator.push 6 val b).toNat / 2 ^ p % 256 = (a.val * 64 + b) / 2 ^ p % 256 := by
    rw [← htwelve]
    obtain rfl | rfl | rfl | rfl | rfl : p = 0 ∨ p = 1 ∨ p = 2 ∨ p = 3 ∨ p = 4 := by omega
    all_goals omega
  have hmask : ((Accumulator.push 6 val b).sshiftRight p &&& 0xFF).toNat =
      (a.val * 64 + b) / 2 ^ p % 256 := by
    rw [BitVec.toNat_and, ← hbyte]
    exact (Nat.and_two_pow_sub_one_eq_mod _ 8).trans hlow
  have hout : UInt8.ofNat ((Accumulator.push 6 val b).sshiftRight p &&& 0xFF).toNat =
      .ofNat ((a.val * 64 + b) / 2 ^ p) := by
    rw [hmask]
    exact UInt8.toNat_inj.mp (by simp)
  simp only [shift, hbits, if_pos (Int.natCast_nonneg p), Int.toNat_natCast, hout]
  congr 1
  omega

theorem shift_second {val : BitVec 32} {a : Fin 64} (h : Ends val a) (out : Bytes) (b : Fin 64) :
    ∃ val', shift ⟨val, -2, out⟩ b = ⟨val', -4, out ++ [.ofNat (a.val * 4 + b.val / 16)]⟩ ∧
      Ends val' b := by
  have hbyte : (a.val * 64 + b) / 2 ^ 4 = a.val * 4 + b.val / 16 := by omega
  rw [← hbyte]
  exact shift_next h out b (p := 4) (by decide)

theorem shift_third {val : BitVec 32} {b : Fin 64} (h : Ends val b) (out : Bytes) (c : Fin 64) :
    ∃ val', shift ⟨val, -4, out⟩ c = ⟨val', -6, out ++ [.ofNat (b.val % 16 * 16 + c.val / 4)]⟩ ∧
      Ends val' c := by
  have hbyte : UInt8.ofNat ((b.val * 64 + c) / 2 ^ 2) = .ofNat (b.val % 16 * 16 + c.val / 4) := by
    apply UInt8.toNat_inj.mp
    rw [UInt8.toNat_ofNat', UInt8.toNat_ofNat']
    omega
  rw [← hbyte]
  exact shift_next h out c (p := 2) (by decide)

theorem shift_fourth {val : BitVec 32} {c : Fin 64} (h : Ends val c) (out : Bytes) (d : Fin 64) :
    ∃ val', shift ⟨val, -6, out⟩ d = ⟨val', -8, out ++ [.ofNat (c.val % 4 * 64 + d)]⟩ ∧
      Ends val' d := by
  have hbyte : UInt8.ofNat ((c.val * 64 + d) / 2 ^ 0) = .ofNat (c.val % 4 * 64 + d) := by
    apply UInt8.toNat_inj.mp
    rw [UInt8.toNat_ofNat', UInt8.toNat_ofNat']
    omega
  rw [← hbyte]
  exact shift_next h out d (p := 0) (by decide)

/-- **Groups of sextets are joined** from any value of the accumulator on. -/
theorem out_foldl_shift (vs : List (Fin 64)) (val : BitVec 32) (out : Bytes) :
    (vs.foldl shift ⟨val, -8, out⟩).out = out ++ Base64.bytes vs := by
  fun_induction Base64.bytes vs generalizing val out with
  | case1 => simp
  | case2 a =>
    obtain ⟨val₁, h₁, -⟩ := shift_first val out a
    simp [h₁]
  | case3 a b =>
    obtain ⟨val₁, h₁, e₁⟩ := shift_first val out a
    obtain ⟨val₂, h₂, -⟩ := shift_second e₁ out b
    simp [h₁, h₂]
  | case4 a b c =>
    obtain ⟨val₁, h₁, e₁⟩ := shift_first val out a
    obtain ⟨val₂, h₂, e₂⟩ := shift_second e₁ out b
    obtain ⟨val₃, h₃, -⟩ := shift_third e₂ (out ++ [.ofNat (a.val * 4 + b.val / 16)]) c
    rw [List.foldl_cons, h₁, List.foldl_cons, h₂, List.foldl_cons, h₃, List.foldl_nil,
      List.append_assoc]
    rfl
  | case5 a b c d rest ih =>
    -- A whole group leaves the decoder where it was, but for the accumulator.
    obtain ⟨val₁, h₁, e₁⟩ := shift_first val out a
    obtain ⟨val₂, h₂, e₂⟩ := shift_second e₁ out b
    obtain ⟨val₃, h₃, e₃⟩ := shift_third e₂ (out ++ [.ofNat (a.val * 4 + b.val / 16)]) c
    obtain ⟨val₄, h₄, -⟩ := shift_fourth e₃ (out ++ [.ofNat (a.val * 4 + b.val / 16)] ++
      [.ofNat (b.val % 16 * 16 + c.val / 4)]) d
    rw [List.foldl_cons, h₁, List.foldl_cons, h₂, List.foldl_cons, h₃, List.foldl_cons, h₄, ih val₄]
    simp

end Decoder

/-- **The decoder joins the sextets of the leading characters of the alphabet.** -/
theorem base64Decode_eq (input : Bytes) :
    base64Decode input = Base64.bytes ((input.takeWhile isB64).map sextet) := by
  rw [base64Decode, Decoder.loop_eq, Decoder.foldl_step _ fun c hc => List.mem_takeWhile_imp hc,
    Decoder.initial, Decoder.out_foldl_shift, List.nil_append]

end Frag
