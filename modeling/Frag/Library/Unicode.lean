import Mathlib.Data.List.Basic

/-!
# Unicode Encodings

Scalar values (`Char`), UTF-16 code units and UTF-8 bytes, with the lossy
conversions of the WHATWG Encoding standard:

- `scalars` reads UTF-16 code units and puts U+FFFD for a lone surrogate;
- `utf8Decode` is the byte-at-a-time UTF-8 decoder; a byte that cannot continue
  the pending sequence closes it with U+FFFD and is read again as a first byte;
- `textEncode` and `textDecode` are `TextEncoder` and `TextDecoder` with their
  default options (a leading byte order mark is not part of the text).
-/

namespace Unicode

/-- U+FFFD REPLACEMENT CHARACTER -/
def replacement : Char := '\uFFFD'

/-- U+FEFF, the byte order mark -/
def byteOrderMark : Char := '\uFEFF'

/-! ## UTF-16 -/

/-- The code units of one scalar value. -/
def utf16Units (c : Char) : List UInt16 :=
  if c.toNat < 0x10000 then [.ofNat c.toNat]
  else [.ofNat (0xD800 + (c.toNat - 0x10000) / 0x400), .ofNat (0xDC00 + (c.toNat - 0x10000) % 0x400)]

/-- The code units of a sequence of scalar values. -/
def utf16 (cs : List Char) : List UInt16 := cs.flatMap utf16Units

theorem utf16_cons (c : Char) (cs : List Char) : utf16 (c :: cs) = utf16Units c ++ utf16 cs := rfl

theorem utf16_append (cs ds : List Char) : utf16 (cs ++ ds) = utf16 cs ++ utf16 ds :=
  List.flatMap_append

def isLeadSurrogate (u : UInt16) : Bool := 0xD800 ≤ u.toNat && u.toNat ≤ 0xDBFF

def isTrailSurrogate (u : UInt16) : Bool := 0xDC00 ≤ u.toNat && u.toNat ≤ 0xDFFF

/-- Read code units, replacing every surrogate that is not part of a pair. -/
def scalars : List UInt16 → List Char
  | [] => []
  | [u] => [if isLeadSurrogate u || isTrailSurrogate u then replacement else .ofNat u.toNat]
  | u :: v :: rest =>
    if isLeadSurrogate u && isTrailSurrogate v then
      .ofNat (0x10000 + (u.toNat - 0xD800) * 0x400 + (v.toNat - 0xDC00)) :: scalars rest
    else
      (if isLeadSurrogate u || isTrailSurrogate u then replacement else .ofNat u.toNat) ::
        scalars (v :: rest)

/-- The two ranges of scalar values. -/
theorem toNat_cases (c : Char) :
    c.toNat < 0xD800 ∨ (0xDFFF < c.toNat ∧ c.toNat < 0x110000) := c.valid

private theorem scalars_cons {u : UInt16} (hl : isLeadSurrogate u = false)
    (ht : isTrailSurrogate u = false) (l : List UInt16) :
    scalars (u :: l) = .ofNat u.toNat :: scalars l := by
  cases l <;> simp [scalars, hl, ht]

/-- Well-formed UTF-16 is read as the scalar values it encodes, whatever follows. -/
theorem scalars_utf16_append (cs : List Char) (s : List UInt16) :
    scalars (utf16 cs ++ s) = cs ++ scalars s := by
  induction cs with
  | nil => rfl
  | cons c cs ih =>
    have hv := toNat_cases c
    rw [utf16_cons, List.append_assoc, utf16Units]
    by_cases hb : c.toNat < 0x10000
    · -- One unit, which is no surrogate.
      have hu : (UInt16.ofNat c.toNat).toNat = c.toNat := by
        rw [UInt16.toNat_ofNat']
        exact Nat.mod_eq_of_lt hb
      rw [if_pos hb, List.singleton_append, scalars_cons, hu, ih, Char.ofNat_toNat, List.cons_append]
      · simp only [isLeadSurrogate, hu, Bool.and_eq_false_iff, decide_eq_false_iff_not]
        omega
      · simp only [isTrailSurrogate, hu, Bool.and_eq_false_iff, decide_eq_false_iff_not]
        omega
    · -- A pair of surrogates, each with ten bits of the offset.
      have hu : (UInt16.ofNat (0xD800 + (c.toNat - 0x10000) / 0x400)).toNat =
          0xD800 + (c.toNat - 0x10000) / 0x400 := by
        rw [UInt16.toNat_ofNat']
        exact Nat.mod_eq_of_lt (by omega)
      have hw : (UInt16.ofNat (0xDC00 + (c.toNat - 0x10000) % 0x400)).toNat =
          0xDC00 + (c.toNat - 0x10000) % 0x400 := by
        rw [UInt16.toNat_ofNat']
        exact Nat.mod_eq_of_lt (by omega)
      have hpair : isLeadSurrogate (.ofNat (0xD800 + (c.toNat - 0x10000) / 0x400)) &&
          isTrailSurrogate (.ofNat (0xDC00 + (c.toNat - 0x10000) % 0x400)) := by
        simp only [isLeadSurrogate, isTrailSurrogate, hu, hw, Bool.and_eq_true, decide_eq_true_eq]
        omega
      rw [if_neg hb]
      simp only [List.cons_append, List.nil_append, scalars, hpair, if_true, hu, hw, ih]
      rw [show 0x10000 + (0xD800 + (c.toNat - 0x10000) / 0x400 - 0xD800) * 0x400 +
        (0xDC00 + (c.toNat - 0x10000) % 0x400 - 0xDC00) = c.toNat by omega, Char.ofNat_toNat]

@[simp] theorem scalars_utf16 (cs : List Char) : scalars (utf16 cs) = cs := by
  have happend := scalars_utf16_append cs []
  rwa [List.append_nil, scalars, List.append_nil] at happend

theorem utf16_injective : Function.Injective utf16 := fun a b h => by
  rw [← scalars_utf16 a, h, scalars_utf16]

/-- The units of one character: a single unit that is no surrogate, or a pair. -/
theorem utf16Units_cases (c : Char) :
    (∃ u, utf16Units c = [u] ∧ u.toNat = c.toNat ∧ isLeadSurrogate u = false ∧
      isTrailSurrogate u = false) ∨
    ∃ u v, utf16Units c = [u, v] ∧ 0x10000 ≤ c.toNat ∧ isLeadSurrogate u = true ∧
      isTrailSurrogate v = true := by
  have hv := toNat_cases c
  have hunit : ∀ n, n < 65536 → (UInt16.ofNat n).toNat = n := fun n hn => by
    rw [UInt16.toNat_ofNat']
    exact Nat.mod_eq_of_lt hn
  -- No character lies in the range of the surrogates.
  by_cases hb : c.toNat < 0x10000
  · refine .inl ⟨.ofNat c.toNat, if_pos hb, hunit _ hb, ?_, ?_⟩
    · simp only [isLeadSurrogate, hunit _ hb, Bool.and_eq_false_iff, decide_eq_false_iff_not]
      omega
    · simp only [isTrailSurrogate, hunit _ hb, Bool.and_eq_false_iff, decide_eq_false_iff_not]
      omega
  · refine .inr ⟨_, _, if_neg hb, by omega, ?_, ?_⟩
    · rw [isLeadSurrogate, hunit _ (by omega), Bool.and_eq_true, decide_eq_true_eq,
        decide_eq_true_eq]
      omega
    · rw [isTrailSurrogate, hunit _ (by omega), Bool.and_eq_true, decide_eq_true_eq,
        decide_eq_true_eq]
      omega

/-- A unit that is no surrogate is a character. -/
theorem exists_utf16Units_single {u : UInt16} (hl : isLeadSurrogate u = false)
    (ht : isTrailSurrogate u = false) : ∃ c, utf16Units c = [u] ∧ c.toNat = u.toNat := by
  have hlt : u.toNat < 65536 := u.toNat_lt
  have hvalid : u.toNat.isValidChar := by
    simp only [isLeadSurrogate, isTrailSurrogate, Bool.and_eq_false_iff, decide_eq_false_iff_not]
      at hl ht
    simp only [Nat.isValidChar]
    omega
  have hc : (Char.ofNat u.toNat).toNat = u.toNat := by
    rw [Char.ofNat, dif_pos hvalid]
    rfl
  refine ⟨.ofNat u.toNat, ?_, hc⟩
  rw [utf16Units, hc, if_pos hlt, UInt16.ofNat_toNat]

/-- A pair of surrogates is a character. -/
theorem exists_utf16Units_pair {u v : UInt16} (hl : isLeadSurrogate u = true)
    (ht : isTrailSurrogate v = true) : ∃ c, utf16Units c = [u, v] ∧ 0x10000 ≤ c.toNat := by
  simp only [isLeadSurrogate, isTrailSurrogate, Bool.and_eq_true, decide_eq_true_eq] at hl ht
  let n := 0x10000 + (u.toNat - 0xD800) * 0x400 + (v.toNat - 0xDC00)
  have hn : n = 0x10000 + (u.toNat - 0xD800) * 0x400 + (v.toNat - 0xDC00) := rfl
  have hvalid : n.isValidChar := by
    simp only [Nat.isValidChar]
    omega
  have hc : (Char.ofNat n).toNat = n := by
    rw [Char.ofNat, dif_pos hvalid]
    rfl
  have hu : 0xD800 + (n - 0x10000) / 0x400 = u.toNat := by omega
  have hv : 0xDC00 + (n - 0x10000) % 0x400 = v.toNat := by omega
  refine ⟨.ofNat n, ?_, by omega⟩
  rw [utf16Units, hc, if_neg (by omega), hu, hv, UInt16.ofNat_toNat, UInt16.ofNat_toNat]

theorem toNat_charOfNat {n : Nat} (h : n < 0x80) : (Char.ofNat n).toNat = n := by
  have hvalid : n.isValidChar := .inl (by omega)
  rw [Char.ofNat, dif_pos hvalid]
  rfl

/-- ASCII text takes one unit a character. -/
theorem utf16_map_ofNat {l : List UInt16} (h : ∀ u ∈ l, u.toNat < 0x80) :
    utf16 (l.map fun u => .ofNat u.toNat) = l := by
  induction l with
  | nil => rfl
  | cons u l ih =>
    have hu : u.toNat < 0x80 := h u (by simp)
    have hc := toNat_charOfNat hu
    have htail := ih fun v hv => h v (by simp [hv])
    simp only [utf16, List.map_cons, List.flatMap_cons, utf16Units, hc] at htail ⊢
    rw [if_pos (by omega), htail, UInt16.ofNat_toNat, List.singleton_append]

/-! ## UTF-8 -/

/-- The bytes of a sequence of scalar values. -/
def utf8 (cs : List Char) : List UInt8 := cs.flatMap String.utf8EncodeChar

theorem utf8_cons (c : Char) (cs : List Char) :
    utf8 (c :: cs) = String.utf8EncodeChar c ++ utf8 cs := rfl

theorem utf8_append (cs ds : List Char) : utf8 (cs ++ ds) = utf8 cs ++ utf8 ds :=
  List.flatMap_append

/-- A UTF-8 decoder between two bytes: the bits read so far, the number of bytes
    the pending sequence still needs and the range of the next one. -/
structure Utf8State where
  codePoint : Nat
  needed : Nat
  lower : Nat
  upper : Nat
  deriving DecidableEq, Repr

/-- No sequence is pending. -/
def Utf8State.idle : Utf8State := ⟨0, 0, 0x80, 0xBF⟩

/-- A byte where a character starts. -/
def firstByte (b : Nat) : List Char × Utf8State :=
  if b ≤ 0x7F then ([.ofNat b], .idle)
  else if 0xC2 ≤ b ∧ b ≤ 0xDF then ([], ⟨b % 0x20, 1, 0x80, 0xBF⟩)
  else if 0xE0 ≤ b ∧ b ≤ 0xEF then
    ([], ⟨b % 0x10, 2, if b = 0xE0 then 0xA0 else 0x80, if b = 0xED then 0x9F else 0xBF⟩)
  else if 0xF0 ≤ b ∧ b ≤ 0xF4 then
    ([], ⟨b % 8, 3, if b = 0xF0 then 0x90 else 0x80, if b = 0xF4 then 0x8F else 0xBF⟩)
  else ([replacement], .idle)

/-- Any byte, with what it emits. -/
def nextByte (s : Utf8State) (b : Nat) : List Char × Utf8State :=
  if s.needed = 0 then firstByte b
  else if b < s.lower ∨ s.upper < b then (replacement :: (firstByte b).1, (firstByte b).2)
  else if s.needed = 1 then ([.ofNat (s.codePoint * 64 + b % 64)], .idle)
  else ([], ⟨s.codePoint * 64 + b % 64, s.needed - 1, 0x80, 0xBF⟩)

/-- Decode from a state of the decoder on. -/
def decodeFrom (s : Utf8State) : List UInt8 → List Char
  | [] => if s.needed = 0 then [] else [replacement]
  | b :: bs => (nextByte s b.toNat).1 ++ decodeFrom (nextByte s b.toNat).2 bs

/-- UTF-8 decode, replacing malformed sequences. -/
def utf8Decode (bs : List UInt8) : List Char := decodeFrom .idle bs

private theorem toNat_ofNat_of_lt {n : Nat} (h : n < 256) : (UInt8.ofNat n).toNat = n := by
  rw [UInt8.toNat_ofNat']
  exact Nat.mod_eq_of_lt h

private theorem nextByte_idle (b : Nat) : nextByte .idle b = firstByte b := rfl

private theorem nextByte_more {s : Utf8State} {b : Nat} (hn : 1 < s.needed)
    (hlo : s.lower ≤ b) (hhi : b ≤ s.upper) :
    nextByte s b = ([], ⟨s.codePoint * 64 + b % 64, s.needed - 1, 0x80, 0xBF⟩) := by
  unfold nextByte
  rw [if_neg (by omega), if_neg (by omega), if_neg (by omega)]

private theorem nextByte_last {s : Utf8State} {b : Nat} (hn : s.needed = 1)
    (hlo : s.lower ≤ b) (hhi : b ≤ s.upper) :
    nextByte s b = ([.ofNat (s.codePoint * 64 + b % 64)], .idle) := by
  unfold nextByte
  rw [if_neg (by omega), if_neg (by omega), if_pos hn]

/-- The first of two bytes carries the bits from the sixth on. -/
private theorem firstByte_two {n : Nat} (hlo : 127 < n) (hhi : n ≤ 2047) :
    firstByte (n / 64 % 32 + 192) = ([], ⟨n / 64, 1, 0x80, 0xBF⟩) := by
  unfold firstByte
  rw [if_neg (by omega), if_pos (by omega)]
  congr 2
  omega

/-- The first of three bytes carries the bits from the twelfth on. -/
private theorem firstByte_three {n : Nat} (hhi : n ≤ 65535) :
    firstByte (n / 4096 % 16 + 224) = ([], ⟨n / 4096, 2,
      if n / 4096 = 0 then 0xA0 else 0x80, if n / 4096 = 13 then 0x9F else 0xBF⟩) := by
  unfold firstByte
  rw [if_neg (by omega), if_neg (by omega), if_pos (by omega)]
  congr 2
  · omega
  · exact if_congr (by omega) rfl rfl
  · exact if_congr (by omega) rfl rfl

/-- The first of four bytes carries the bits from the eighteenth on. -/
private theorem firstByte_four {n : Nat} (hhi : n ≤ 0x10FFFF) :
    firstByte (n / 262144 % 8 + 240) = ([], ⟨n / 262144, 3,
      if n / 262144 = 0 then 0x90 else 0x80, if n / 262144 = 4 then 0x8F else 0xBF⟩) := by
  unfold firstByte
  rw [if_neg (by omega), if_neg (by omega), if_neg (by omega), if_pos (by omega)]
  congr 2
  · omega
  · exact if_congr (by omega) rfl rfl
  · exact if_congr (by omega) rfl rfl

/-- Decoding the bytes of one character emits that character. -/
theorem decodeFrom_utf8EncodeChar (c : Char) (bs : List UInt8) :
    decodeFrom .idle (String.utf8EncodeChar c ++ bs) = c :: decodeFrom .idle bs := by
  have hv := toNat_cases c
  have hval : c.val.toNat = c.toNat := rfl
  unfold String.utf8EncodeChar
  simp only [hval]
  by_cases h1 : c.toNat ≤ 127
  · rw [if_pos h1]
    simp only [List.cons_append, List.nil_append, decodeFrom, nextByte_idle]
    rw [toNat_ofNat_of_lt (by omega), firstByte, if_pos h1, Char.ofNat_toNat]
    rfl
  rw [if_neg h1]
  by_cases h2 : c.toNat ≤ 2047
  · rw [if_pos h2]
    simp only [List.cons_append, List.nil_append, decodeFrom, nextByte_idle]
    rw [toNat_ofNat_of_lt (by omega), toNat_ofNat_of_lt (by omega)]
    rw [firstByte_two (by omega) h2, nextByte_last rfl (by simp only; omega) (by simp only; omega)]
    simp only [List.nil_append, List.cons_append]
    rw [show c.toNat / 64 * 64 + (c.toNat % 64 + 128) % 64 = c.toNat by omega, Char.ofNat_toNat]
  rw [if_neg h2]
  by_cases h3 : c.toNat ≤ 65535
  · rw [if_pos h3]
    simp only [List.cons_append, List.nil_append, decodeFrom, nextByte_idle]
    rw [toNat_ofNat_of_lt (by omega), toNat_ofNat_of_lt (by omega), toNat_ofNat_of_lt (by omega)]
    -- Overlong encodings and surrogates are kept out by the range of the second byte.
    rw [firstByte_three h3, nextByte_more (by simp) (by simp only; split <;> omega)
      (by simp only; split <;> omega), nextByte_last (by simp) (by simp only; omega) (by simp only; omega)]
    simp only [List.nil_append, List.cons_append]
    rw [show (c.toNat / 4096 * 64 + (c.toNat / 64 % 64 + 128) % 64) * 64 +
      (c.toNat % 64 + 128) % 64 = c.toNat by omega, Char.ofNat_toNat]
  · rw [if_neg h3]
    simp only [List.cons_append, List.nil_append, decodeFrom, nextByte_idle]
    rw [toNat_ofNat_of_lt (by omega), toNat_ofNat_of_lt (by omega), toNat_ofNat_of_lt (by omega),
      toNat_ofNat_of_lt (by omega)]
    rw [firstByte_four (by omega), nextByte_more (by simp) (by simp only; split <;> omega)
      (by simp only; split <;> omega), nextByte_more (by simp) (by simp only; omega) (by simp only; omega),
      nextByte_last (by simp) (by simp only; omega) (by simp only; omega)]
    simp only [List.nil_append, List.cons_append]
    rw [show ((c.toNat / 262144 * 64 + (c.toNat / 4096 % 64 + 128) % 64) * 64 +
      (c.toNat / 64 % 64 + 128) % 64) * 64 + (c.toNat % 64 + 128) % 64 = c.toNat by omega,
      Char.ofNat_toNat]

/-- **Round trip**: well-formed UTF-8 decodes to what it encodes. -/
@[simp] theorem utf8Decode_utf8 (cs : List Char) : utf8Decode (utf8 cs) = cs := by
  induction cs with
  | nil => rfl
  | cons c cs ih =>
    simp only [utf8Decode, utf8, List.flatMap_cons] at ih ⊢
    rw [decodeFrom_utf8EncodeChar, ih]

theorem utf8_injective : Function.Injective utf8 := fun a b h => by
  rw [← utf8Decode_utf8 a, h, utf8Decode_utf8]

/-! ## ASCII

A unit below 0x80 stands for one character only, in either encoding. So an ASCII
character can be searched for among the units of a text. -/

theorem toNat_of_mem_utf8 {c : Char} {b : UInt8} (hb : b ∈ String.utf8EncodeChar c)
    (hascii : b.toNat < 0x80) : c.toNat = b.toNat := by
  have hv := toNat_cases c
  have hval : c.val.toNat = c.toNat := rfl
  -- All bytes of a longer sequence are 0x80 or above.
  have hlong : ∀ n, n < 256 → 0x80 ≤ n → b ≠ .ofNat n := by
    rintro n hn hle rfl
    rw [toNat_ofNat_of_lt hn] at hascii
    omega
  unfold String.utf8EncodeChar at hb
  simp only [hval] at hb
  split at hb
  · rename_i hone
    rw [List.mem_singleton.mp hb]
    exact (toNat_ofNat_of_lt (by omega)).symm
  · split at hb
    · simp only [List.mem_cons, List.not_mem_nil, or_false] at hb
      rcases hb with e | e <;> exact absurd e (hlong _ (by omega) (by omega))
    · split at hb
      · simp only [List.mem_cons, List.not_mem_nil, or_false] at hb
        rcases hb with e | e | e <;> exact absurd e (hlong _ (by omega) (by omega))
      · simp only [List.mem_cons, List.not_mem_nil, or_false] at hb
        rcases hb with e | e | e | e <;> exact absurd e (hlong _ (by omega) (by omega))

theorem toNat_of_mem_utf16 {c : Char} {u : UInt16} (hu : u ∈ utf16Units c)
    (hascii : u.toNat < 0x80) : c.toNat = u.toNat := by
  have hv := toNat_cases c
  have hlong : ∀ n, n < 65536 → 0x80 ≤ n → u ≠ .ofNat n := by
    rintro n hn hle rfl
    rw [UInt16.toNat_ofNat', Nat.mod_eq_of_lt hn] at hascii
    omega
  unfold utf16Units at hu
  split at hu
  · rename_i hone
    rw [List.mem_singleton.mp hu, UInt16.toNat_ofNat', Nat.mod_eq_of_lt hone]
  · simp only [List.mem_cons, List.not_mem_nil, or_false] at hu
    rcases hu with e | e <;> exact absurd e (hlong _ (by omega) (by omega))

/-- All characters are ASCII. -/
def Ascii (cs : List Char) : Prop := ∀ c ∈ cs, c.toNat < 0x80

instance (cs : List Char) : Decidable (Ascii cs) :=
  List.decidableBAll (fun c : Char => c.toNat < 0x80) cs

theorem utf8_of_ascii {cs : List Char} (h : Ascii cs) :
    utf8 cs = cs.map fun c => .ofNat c.toNat := by
  rw [List.map_eq_flatMap]
  refine List.flatMap_congr fun c hc => ?_
  have hc := h c hc
  have hval : c.val.toNat = c.toNat := rfl
  unfold String.utf8EncodeChar
  simp only [hval]
  rw [if_pos (by omega)]

theorem utf16_of_ascii {cs : List Char} (h : Ascii cs) :
    utf16 cs = cs.map fun c => .ofNat c.toNat := by
  rw [List.map_eq_flatMap]
  refine List.flatMap_congr fun c hc => ?_
  have hc := h c hc
  exact if_pos (by omega)

/-- Only U+0000 is encoded with a zero byte. -/
theorem zero_notMem_utf8 {cs : List Char} (h : Char.ofNat 0 ∉ cs) : 0 ∉ utf8 cs := by
  simp only [utf8, List.mem_flatMap, not_exists, not_and]
  intro c hc hmem
  have hzero : c.toNat = 0 := toNat_of_mem_utf8 hmem (by decide)
  rw [← Char.ofNat_toNat c, hzero] at hc
  exact h hc

/-! ### Suffixes -/

section Suffix

universe u

variable {β : Type u} {f : Char → List β} {c : Char} {x : β}

/-- A unit that only one character has splits the encoding of a text at that character. -/
theorem flatMap_eq_append_cons (hc : f c = [x]) (hother : ∀ d, x ∈ f d → d = c) {cs : List Char}
    {p t : List β} (h : cs.flatMap f = p ++ x :: t) :
    ∃ a b, cs = a ++ c :: b ∧ b.flatMap f = t := by
  induction cs generalizing p with
  | nil => simp at h
  | cons d cs ih =>
    rw [List.flatMap_cons] at h
    rcases List.append_eq_append_iff.mp h with ⟨p', rfl, hrest⟩ | ⟨t', hd, hrest⟩
    · obtain ⟨a, b, rfl, hb⟩ := ih hrest
      exact ⟨d :: a, b, rfl, hb⟩
    · -- The unit is the next one, or it is in the first character.
      cases t' with
      | nil =>
        obtain ⟨a, b, rfl, hb⟩ := ih (p := []) hrest.symm
        exact ⟨d :: a, b, rfl, hb⟩
      | cons y t' =>
        obtain ⟨rfl, rfl⟩ := List.cons.inj hrest
        obtain rfl : d = c := hother d (by simp [hd])
        rw [hc, List.singleton_eq_append_iff] at hd
        obtain ⟨-, hnil⟩ | ⟨-, hnil⟩ := hd
        · obtain rfl : t' = [] := (List.cons.inj hnil).2
          exact ⟨[], cs, rfl, rfl⟩
        · cases hnil

/-- Suffixes that begin at such a character are the same among characters and units. -/
theorem suffix_flatMap_iff (hc : f c = [x]) (hother : ∀ d, x ∈ f d → d = c)
    (hinj : Function.Injective (List.flatMap f)) {name cs : List Char} :
    x :: name.flatMap f <:+ x :: cs.flatMap f ↔ c :: name <:+ c :: cs := by
  have hcons : ∀ l : List Char, x :: l.flatMap f = (c :: l).flatMap f := fun l => by
    rw [List.flatMap_cons, hc, List.singleton_append]
  constructor
  · rintro ⟨p, hp⟩
    rw [hcons cs] at hp
    obtain ⟨a, b, hab, hb⟩ := flatMap_eq_append_cons hc hother hp.symm
    exact ⟨a, by rw [hab, hinj hb]⟩
  · rintro ⟨a, ha⟩
    refine ⟨a.flatMap f, ?_⟩
    rw [hcons, hcons, ← ha, List.flatMap_append]

end Suffix

/-! ## Around ASCII bytes

An ASCII byte stands for its character wherever it is, in malformed text too, and no other
bytes decode to an ASCII character. -/

/-- Every way to complete the pending sequence gives a scalar value from 0x80 on. -/
def Utf8State.Sound (s : Utf8State) : Prop :=
  0x80 ≤ s.lower ∧ s.upper ≤ 0xBF ∧
    (s.needed = 0 ∨
      s.needed = 1 ∧ 2 ≤ s.codePoint ∧ s.codePoint < 0x4400 ∧
        ¬ (0x360 ≤ s.codePoint ∧ s.codePoint < 0x380) ∨
      s.needed = 2 ∧ s.codePoint < 0x110 ∧ (s.codePoint = 0 → 0xA0 ≤ s.lower) ∧
        (s.codePoint = 13 → s.upper ≤ 0x9F) ∨
      s.needed = 3 ∧ s.codePoint < 5 ∧ (s.codePoint = 0 → 0x90 ≤ s.lower) ∧
        (s.codePoint = 4 → s.upper ≤ 0x8F))

theorem Utf8State.sound_idle : Utf8State.idle.Sound := ⟨Nat.le_refl _, Nat.le_refl _, .inl rfl⟩

/-- A character that is not ASCII, or the byte itself. -/
def OwnAscii (b : Nat) (c : Char) : Prop := c.toNat < 0x80 → c.toNat = b ∧ b < 0x80

theorem ownAscii_replacement (b : Nat) : OwnAscii b replacement := fun h => absurd h (by decide)

theorem sound_firstByte (b : Nat) :
    (firstByte b).2.Sound ∧ ∀ c ∈ (firstByte b).1, OwnAscii b c := by
  unfold firstByte
  -- An ASCII byte, the first bytes of two, three and four, and any other byte.
  split
  · rename_i hascii
    refine ⟨Utf8State.sound_idle, fun c hc _ => ?_⟩
    rw [List.mem_singleton.mp hc, toNat_charOfNat (by omega)]
    exact ⟨rfl, by omega⟩
  split
  · simp only [Utf8State.Sound, List.not_mem_nil, false_implies, implies_true, and_true]
    refine ⟨Nat.le_refl _, Nat.le_refl _, .inr (.inl ⟨trivial, ?_⟩)⟩
    omega
  split
  · simp only [Utf8State.Sound, List.not_mem_nil, false_implies, implies_true, and_true]
    refine ⟨?_, ?_, .inr (.inr (.inl ⟨trivial, ?_, ?_, ?_⟩))⟩ <;> (try split) <;> omega
  split
  · simp only [Utf8State.Sound, List.not_mem_nil, false_implies, implies_true, and_true]
    refine ⟨?_, ?_, .inr (.inr (.inr ⟨trivial, ?_, ?_, ?_⟩))⟩ <;> (try split) <;> omega
  · refine ⟨Utf8State.sound_idle, fun c hc => ?_⟩
    rw [List.mem_singleton.mp hc]
    exact ownAscii_replacement b

theorem Utf8State.Sound.nextByte {s : Utf8State} (h : s.Sound) (b : Nat) :
    (nextByte s b).2.Sound ∧ ∀ c ∈ (nextByte s b).1, OwnAscii b c := by
  obtain ⟨hlow, hhigh, hcases⟩ := h
  unfold Unicode.nextByte
  split
  · exact sound_firstByte b
  split
  · refine ⟨(sound_firstByte b).1, fun c hc => ?_⟩
    rcases List.mem_cons.mp hc with rfl | hc
    · exact ownAscii_replacement b
    · exact (sound_firstByte b).2 c hc
  split
  · -- The last byte of a sequence: the character is no ASCII character.
    rename_i hrange hone
    refine ⟨sound_idle, fun c hc hascii => ?_⟩
    have hvalid : (s.codePoint * 64 + b % 64).isValidChar := by
      simp only [Nat.isValidChar]
      omega
    have hvalue : c.toNat = s.codePoint * 64 + b % 64 := by
      rw [List.mem_singleton.mp hc, Char.ofNat, dif_pos hvalid]
      rfl
    omega
  · refine ⟨?_, fun c hc => by cases hc⟩
    simp only [Sound]
    omega

/-- **An ASCII byte is read as its character**, and closes what is pending. -/
theorem decodeFrom_append_ascii {s : Utf8State} (hs : s.Sound) (bs : List UInt8) {b : UInt8}
    (hb : b.toNat < 0x80) (t : List UInt8) :
    decodeFrom s (bs ++ b :: t) = decodeFrom s bs ++ .ofNat b.toNat :: utf8Decode t := by
  induction bs generalizing s with
  | nil =>
    have hfirst : firstByte b.toNat = ([.ofNat b.toNat], .idle) := if_pos (by omega)
    have hlow := hs.1
    rw [List.nil_append, decodeFrom, decodeFrom, nextByte]
    split
    · rw [hfirst]
      rfl
    · rw [if_pos (.inl (by omega)), hfirst]
      rfl
  | cons c bs ih =>
    rw [List.cons_append, decodeFrom, decodeFrom, ih (hs.nextByte c.toNat).1, List.append_assoc]

theorem utf8Decode_append_ascii (bs : List UInt8) {b : UInt8} (hb : b.toNat < 0x80) (t : List UInt8) :
    utf8Decode (bs ++ b :: t) = utf8Decode bs ++ .ofNat b.toNat :: utf8Decode t :=
  decodeFrom_append_ascii Utf8State.sound_idle bs hb t

/-- An ASCII character was a byte of the text. -/
theorem mem_of_mem_utf8Decode {bs : List UInt8} {c : Char} (hc : c ∈ utf8Decode bs) (h : c.toNat < 0x80) :
    .ofNat c.toNat ∈ bs := by
  suffices hstate : ∀ s : Utf8State, s.Sound → c ∈ decodeFrom s bs → UInt8.ofNat c.toNat ∈ bs from
    hstate _ Utf8State.sound_idle hc
  clear hc
  induction bs with
  | nil =>
    -- What is pending at the end becomes U+FFFD.
    intro s _ hc
    rw [decodeFrom] at hc
    split at hc
    · cases hc
    · rw [List.mem_singleton.mp hc] at h
      exact absurd h (by decide)
  | cons b bs ih =>
    intro s hs hc
    obtain ⟨hsound, hown⟩ := hs.nextByte b.toNat
    rcases List.mem_append.mp hc with hc | hc
    · rw [(hown c hc h).1, UInt8.ofNat_toNat]
      exact List.mem_cons_self
    · exact List.mem_cons_of_mem _ (ih _ hsound hc)

/-! ## `TextEncoder` and `TextDecoder` -/

/-- `new TextEncoder().encode(text)` -/
def textEncode (text : List UInt16) : List UInt8 := utf8 (scalars text)

/-- Drop a leading byte order mark. -/
def dropByteOrderMark : List Char → List Char
  | [] => []
  | c :: cs => if c = byteOrderMark then cs else c :: cs

theorem dropByteOrderMark_eq_self_iff {cs : List Char} :
    dropByteOrderMark cs = cs ↔ cs.head? ≠ some byteOrderMark := by
  cases cs with
  | nil => simp [dropByteOrderMark]
  | cons c cs =>
    rw [dropByteOrderMark, List.head?_cons, ne_eq, Option.some.injEq]
    split
    · rename_i hc
      simp [hc]
    · rename_i hc
      simp [hc]

/-- `new TextDecoder().decode(bytes)` -/
def textDecode (bytes : List UInt8) : List UInt16 := utf16 (dropByteOrderMark (utf8Decode bytes))

/-- Decoding inverts encoding on text that does not start with U+FEFF. -/
theorem textDecode_textEncode {cs : List Char} (h : cs.head? ≠ some byteOrderMark) :
    textDecode (textEncode (utf16 cs)) = utf16 cs := by
  simp only [textDecode, textEncode, scalars_utf16, utf8Decode_utf8]
  cases cs with
  | nil => rfl
  | cons c cs =>
    have hc : c ≠ byteOrderMark := fun e => h (by simp [e])
    simp [dropByteOrderMark, hc]

end Unicode
