import Mathlib.Data.List.Basic

/-!
# Base64

The base64 alphabet over UTF-16 code units and the two directions of the codec:

- `btoa`: three bytes become four sextets, the last group is padded with `'='`;
- `atob`: the *forgiving* decoder of the WHATWG Infra standard. ASCII whitespace
  is dropped, padding is optional but only legal where it completes a group, a
  leftover single sextet is an error and leftover bits are discarded.

Besides the round trip, the section on lengths says how many bytes a number of
alphabet units can spell: one unit less is at least one byte less.
-/

namespace Base64

/-! ## Alphabet -/

/-- `'='` -/
def padUnit : UInt16 := 0x3D

/-- The code unit of a sextet: `A`–`Z`, `a`–`z`, `0`–`9`, `+`, `/`. -/
def digit (v : Fin 64) : UInt16 :=
  if v.val < 26 then .ofNat (0x41 + v.val)
  else if v.val < 52 then .ofNat (0x61 + (v.val - 26))
  else if v.val < 62 then .ofNat (0x30 + (v.val - 52))
  else if v.val = 62 then 0x2B
  else 0x2F

/-- The sextet of a code unit of the alphabet. -/
def sextet? (u : UInt16) : Option (Fin 64) :=
  let n := u.toNat
  if 0x41 ≤ n ∧ n ≤ 0x5A then some (Fin.ofNat 64 (n - 0x41))
  else if 0x61 ≤ n ∧ n ≤ 0x7A then some (Fin.ofNat 64 (n - 0x61 + 26))
  else if 0x30 ≤ n ∧ n ≤ 0x39 then some (Fin.ofNat 64 (n - 0x30 + 52))
  else if n = 0x2B then some 62
  else if n = 0x2F then some 63
  else none

/-- ASCII whitespace: tab, line feed, form feed, carriage return, space. -/
def isWhitespace (u : UInt16) : Bool :=
  u == 0x09 || u == 0x0A || u == 0x0C || u == 0x0D || u == 0x20

@[simp] theorem sextet?_digit (v : Fin 64) : sextet? (digit v) = some v := by
  revert v; decide

theorem digit_ne_padUnit (v : Fin 64) : digit v ≠ padUnit := by
  revert v; decide

theorem isWhitespace_digit (v : Fin 64) : isWhitespace (digit v) = false := by
  revert v; decide

@[simp] theorem sextet?_padUnit : sextet? padUnit = none := by decide

/-- A unit of the codec's output, never white space and never above ASCII. -/
def IsCodeUnit (u : UInt16) : Prop := u = padUnit ∨ ∃ v, u = digit v

theorem digit_toNat (v : Fin 64) : 0x20 ≤ (digit v).toNat ∧ (digit v).toNat < 0x80 := by
  revert v; decide

theorem IsCodeUnit.isWhitespace {u : UInt16} (h : IsCodeUnit u) : isWhitespace u = false := by
  rcases h with rfl | ⟨v, rfl⟩
  · decide
  · exact isWhitespace_digit v

theorem IsCodeUnit.toNat {u : UInt16} (h : IsCodeUnit u) : 0x20 ≤ u.toNat ∧ u.toNat < 0x80 := by
  rcases h with rfl | ⟨v, rfl⟩
  · decide
  · exact digit_toNat v

/-! ## Sextets and bytes -/

/-- Cut bytes into sextets, the last one filled up with zero bits. -/
def sextets : List UInt8 → List (Fin 64)
  | [] => []
  | [x] => [.ofNat 64 (x.toNat / 4), .ofNat 64 (x.toNat % 4 * 16)]
  | [x, y] =>
    [.ofNat 64 (x.toNat / 4), .ofNat 64 (x.toNat % 4 * 16 + y.toNat / 16),
      .ofNat 64 (y.toNat % 16 * 4)]
  | x :: y :: z :: rest =>
    .ofNat 64 (x.toNat / 4) :: .ofNat 64 (x.toNat % 4 * 16 + y.toNat / 16) ::
      .ofNat 64 (y.toNat % 16 * 4 + z.toNat / 64) :: .ofNat 64 (z.toNat % 64) :: sextets rest

/-- Join sextets to bytes and discard the bits left over. -/
def bytes : List (Fin 64) → List UInt8
  | [] => []
  | [_] => []
  | [a, b] => [.ofNat (a.val * 4 + b.val / 16)]
  | [a, b, c] => [.ofNat (a.val * 4 + b.val / 16), .ofNat (b.val % 16 * 16 + c.val / 4)]
  | a :: b :: c :: d :: rest =>
    .ofNat (a.val * 4 + b.val / 16) :: .ofNat (b.val % 16 * 16 + c.val / 4) ::
      .ofNat (c.val % 4 * 64 + d.val) :: bytes rest

private theorem ofNat_toNat_of_eq {x : UInt8} {n : Nat} (h : n = x.toNat) : UInt8.ofNat n = x := by
  rw [h, UInt8.ofNat_toNat]

theorem bytes_sextets (l : List UInt8) : bytes (sextets l) = l := by
  fun_induction sextets l with
  | case1 => rfl
  | case2 x =>
    have hx := x.toNat_lt
    simp only [bytes, Fin.val_ofNat, List.cons.injEq, and_true]
    exact ofNat_toNat_of_eq (by omega)
  | case3 x y =>
    have hx := x.toNat_lt
    have hy := y.toNat_lt
    simp only [bytes, Fin.val_ofNat, List.cons.injEq, and_true]
    exact ⟨ofNat_toNat_of_eq (by omega), ofNat_toNat_of_eq (by omega)⟩
  | case4 x y z rest ih =>
    have hx := x.toNat_lt
    have hy := y.toNat_lt
    have hz := z.toNat_lt
    simp only [bytes, Fin.val_ofNat, List.cons.injEq, ih, and_true]
    exact ⟨ofNat_toNat_of_eq (by omega), ofNat_toNat_of_eq (by omega),
      ofNat_toNat_of_eq (by omega)⟩

/-! ## Lengths -/

/-- `n` bytes take `⌈4n / 3⌉` sextets. -/
theorem length_sextets (l : List UInt8) : (sextets l).length = (4 * l.length + 2) / 3 := by
  fun_induction sextets l with
  | case1 => rfl
  | case2 x => simp
  | case3 x y => simp
  | case4 x y z rest ih =>
    simp only [List.length_cons, ih]
    omega

/-- `n` sextets hold `⌊3n / 4⌋` bytes. -/
theorem length_bytes (l : List (Fin 64)) : (bytes l).length = 3 * l.length / 4 := by
  fun_induction bytes l with
  | case1 => rfl
  | case2 a => simp
  | case3 a b => simp
  | case4 a b c => simp
  | case5 a b c d rest ih =>
    simp only [List.length_cons, ih]
    omega

/-! ## Encoder -/

/-- The number of `'='` that complete the last group of four. -/
def padding (n : Nat) : Nat := (3 - n % 3) % 3

/-- `btoa` on the binary string of a byte sequence. -/
def btoa (l : List UInt8) : List UInt16 :=
  (sextets l).map digit ++ List.replicate (padding l.length) padUnit

theorem length_btoa (l : List UInt8) : (btoa l).length = 4 * ((l.length + 2) / 3) := by
  simp only [btoa, padding, List.length_append, List.length_map, List.length_replicate,
    length_sextets]
  omega

theorem isCodeUnit_of_mem_btoa {l : List UInt8} {u : UInt16} (hu : u ∈ btoa l) : IsCodeUnit u := by
  simp only [btoa, List.mem_append, List.mem_map] at hu
  rcases hu with ⟨v, -, rfl⟩ | hpad
  · exact .inr ⟨v, rfl⟩
  · exact .inl (List.eq_of_mem_replicate hpad)

/-! ## Decoder -/

/-- Drop one or two trailing `'='`. -/
def dropPadding (d : List UInt16) : List UInt16 :=
  match d.reverse with
  | p :: q :: rest =>
    if p = padUnit ∧ q = padUnit then rest.reverse
    else if p = padUnit then (q :: rest).reverse
    else d
  | [p] => if p = padUnit then [] else d
  | [] => d

/-- `atob`: forgiving base64 decoding. -/
def atob (data : List UInt16) : Option (List UInt8) :=
  let d := data.filter fun u => !isWhitespace u
  let d := if d.length % 4 = 0 then dropPadding d else d
  if d.length % 4 = 1 then none
  else (d.mapM sextet?).map bytes

theorem mapM_sextet?_map_digit (vs : List (Fin 64)) : (vs.map digit).mapM sextet? = some vs := by
  induction vs with
  | nil => rfl
  | cons v vs ih => simp [ih]

/-- Whatever decodes consists of sextets, at least one byte for every four of
    them minus one. -/
theorem mapM_sextet?_eq_some {d : List UInt16} {vs : List (Fin 64)}
    (h : d.mapM sextet? = some vs) : vs.length = d.length ∧ padUnit ∉ d := by
  induction d generalizing vs with
  | nil => simp at h; simp [← h]
  | cons u d ih =>
    cases hu : sextet? u with
    | none => simp [hu] at h
    | some v =>
      cases hd : d.mapM sextet? with
      | none => simp [hu, hd] at h
      | some ws =>
        simp only [List.mapM_cons, hu, hd, Option.bind_eq_bind, Option.bind_some, Option.pure_def,
          Option.some.injEq] at h
        obtain ⟨hlen, hnot⟩ := ih hd
        subst h
        refine ⟨by simp [hlen], fun hm => ?_⟩
        rcases List.mem_cons.mp hm with rfl | hm
        · simp at hu
        · exact hnot hm

private theorem filter_whitespace {d : List UInt16} (h : ∀ u ∈ d, IsCodeUnit u) :
    (d.filter fun u => !isWhitespace u) = d :=
  List.filter_eq_self.mpr fun u hu => by simp [(h u hu).isWhitespace]

/-- Without padding, the decoder reads the sextets off, unless one is left over. -/
theorem atob_map_digit (vs : List (Fin 64)) :
    atob (vs.map digit) = if vs.length % 4 = 1 then none else some (bytes vs) := by
  have hunits : ∀ u ∈ vs.map digit, IsCodeUnit u := by
    intro u hu
    obtain ⟨v, -, rfl⟩ := List.mem_map.mp hu
    exact .inr ⟨v, rfl⟩
  have hdrop : dropPadding (vs.map digit) = vs.map digit := by
    unfold dropPadding
    rw [← List.map_reverse]
    rcases vs.reverse with _ | ⟨p, _ | ⟨q, rest⟩⟩ <;> simp [digit_ne_padUnit]
  simp [-List.mapM_map, atob, filter_whitespace hunits, hdrop, mapM_sextet?_map_digit]

/-- With padding, the decoder accepts exactly a complete last group. -/
theorem atob_map_digit_append (vs : List (Fin 64)) {k : Nat} (hk : 0 < k) (hk2 : k ≤ 2) :
    atob (vs.map digit ++ List.replicate k padUnit) =
      if (vs.length + k) % 4 = 0 then some (bytes vs) else none := by
  have hunits : ∀ u ∈ vs.map digit ++ List.replicate k padUnit, IsCodeUnit u := by
    intro u hu
    rcases List.mem_append.mp hu with hu | hu
    · obtain ⟨v, -, rfl⟩ := List.mem_map.mp hu
      exact .inr ⟨v, rfl⟩
    · exact .inl (List.eq_of_mem_replicate hu)
  have hdrop : dropPadding (vs.map digit ++ List.replicate k padUnit) = vs.map digit := by
    unfold dropPadding
    rw [List.reverse_append, List.reverse_replicate, ← List.map_reverse]
    have hvs : vs.map digit = (vs.reverse.map digit).reverse := by simp [← List.map_reverse]
    -- Up to two units are dropped, and no digit is one of them.
    obtain rfl | rfl : k = 1 ∨ k = 2 := by omega
    · rcases hr : vs.reverse with _ | ⟨q, rest⟩
      · simp [List.replicate, hvs, hr]
      · simp [List.replicate, digit_ne_padUnit, hvs, hr]
    · simp [List.replicate]
  -- Padding that is not dropped is no sextet.
  have hnot : (vs.map digit ++ List.replicate k padUnit).mapM sextet? = none := by
    rw [Option.eq_none_iff_forall_ne_some]
    intro ws hws
    exact (mapM_sextet?_eq_some hws).2
      (List.mem_append_right _ (List.mem_replicate.mpr ⟨by omega, rfl⟩))
  simp only [atob, filter_whitespace hunits, List.length_append, List.length_map,
    List.length_replicate]
  by_cases h : (vs.length + k) % 4 = 0
  · have h1 : ¬ vs.length % 4 = 1 := by omega
    simp [-List.mapM_map, h, hdrop, mapM_sextet?_map_digit, h1]
  · simp [h, hnot]

/-- The bytes without their padding decode as well. -/
theorem atob_map_digit_sextets (l : List UInt8) : atob ((sextets l).map digit) = some l := by
  have hlen := length_sextets l
  rw [atob_map_digit, if_neg (by omega), bytes_sextets]

/-- **Round trip**: decoding inverts encoding. -/
@[simp] theorem atob_btoa (l : List UInt8) : atob (btoa l) = some l := by
  have hlen := length_sextets l
  unfold btoa
  by_cases hp : padding l.length = 0
  · rw [hp, List.replicate_zero, List.append_nil, atob_map_digit_sextets]
  · have h2 : padding l.length ≤ 2 := by unfold padding; omega
    rw [atob_map_digit_append _ (by omega) h2, if_pos, bytes_sextets]
    unfold padding at hp ⊢
    rcases (by omega : l.length % 3 = 1 ∨ l.length % 3 = 2) with h | h <;> omega

/-! ## Parts of an encoding -/

/-- A part of an encoding is a part of its sextets and some of its padding. -/
private theorem exists_of_sublist_btoa {l : List UInt8} {s : List UInt16}
    (h : s.Sublist (btoa l)) : ∃ (us : List (Fin 64)) (k : Nat), us.Sublist (sextets l) ∧
      k ≤ padding l.length ∧ s = us.map digit ++ List.replicate k padUnit := by
  obtain ⟨s₁, s₂, rfl, h₁, h₂⟩ := List.sublist_append_iff.mp h
  obtain ⟨us, hus, rfl⟩ := List.sublist_map_iff.mp h₁
  obtain ⟨k, hk, rfl⟩ := List.sublist_replicate_iff.mp h₂
  exact ⟨us, k, hus, hk, rfl⟩

/-- **Nothing but padding is redundant**: the units of an encoding spell its bytes only
    all together, or all but the whole padding. -/
theorem atob_eq_some_iff_of_sublist {l : List UInt8} {s : List UInt16} (h : s.Sublist (btoa l)) :
    atob s = some l ↔ s = btoa l ∨ s = (sextets l).map digit := by
  constructor
  · obtain ⟨us, k, hus, hk, rfl⟩ := exists_of_sublist_btoa h
    intro hsome
    have hlen := length_sextets l
    have hle := hus.length_le
    -- Fewer sextets make fewer bytes.
    have hfull : bytes us = l → us = sextets l := by
      intro hb
      have hcount := congrArg List.length hb
      rw [length_bytes] at hcount
      exact hus.eq_of_length (by omega)
    rcases Nat.eq_zero_or_pos k with rfl | hpos
    · rw [List.replicate_zero, List.append_nil, atob_map_digit] at hsome
      split at hsome
      · cases hsome
      · rw [List.replicate_zero, List.append_nil, hfull (Option.some.inj hsome)]
        exact .inr rfl
    · have htwo : padding l.length ≤ 2 := by unfold padding; omega
      rw [atob_map_digit_append us hpos (by omega)] at hsome
      split at hsome
      · -- All sextets are there, so the last group is complete with the whole padding only.
        rename_i hmod
        obtain rfl := hfull (Option.some.inj hsome)
        left
        have hpad : k = padding l.length := by
          unfold padding at hk ⊢
          rcases (by omega : l.length % 3 = 0 ∨ l.length % 3 = 1 ∨ l.length % 3 = 2) with
            h3 | h3 | h3 <;> rw [h3] at hk ⊢ <;> omega
        rw [btoa, hpad]
      · cases hsome
  · rintro (rfl | rfl)
    · exact atob_btoa l
    · exact atob_map_digit_sextets l

end Base64
