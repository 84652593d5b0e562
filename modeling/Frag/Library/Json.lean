import Frag.Library.Decimal
import Frag.Library.Unicode

/-!
# JSON

A parser for JSON texts (RFC 8259) on bytes. The text of a string is a sequence of bytes
too: bytes from 0x20 on stand for themselves, and an escape `\uxxxx` for the UTF-8 bytes
of its character. Two escapes can make a surrogate pair; a lone surrogate gives U+FFFD.
A number is read exactly.

`value` descends one level for each unit of fuel and `items` reads one element, so the
length of a text is enough fuel for both.

## Main results

- `parse_of_value`: whatever some fuel reads, `parse` reads;
- `items_intercalate`: a list is read element by element.
-/

/-- A JSON value. The number is `mantissa * 10 ^ exponent`. -/
inductive Json where
  | null
  | bool (b : Bool)
  | number (mantissa exponent : Int)
  | string (text : List UInt8)
  | array (elements : List Json)
  | object (members : List (List UInt8 × Json))

namespace Json

open Unicode
open Decimal (isDigit)

universe u

/-- A parser reads a value and leaves the rest. -/
abbrev Parser (α : Type u) := List UInt8 → Option (α × List UInt8)

/-! ## White space -/

/-- Space, tab, line feed, carriage return. -/
def isSpace (c : UInt8) : Bool := c == 0x20 || c == 0x09 || c == 0x0A || c == 0x0D

/-- Drop white space. -/
def skipSpace (s : List UInt8) : List UInt8 := s.dropWhile isSpace

/-! ## Strings -/

/-- The value of a hexadecimal digit. -/
def hexValue (c : UInt8) : Option Nat :=
  if isDigit c then some (c.toNat - 0x30)
  else if 0x41 ≤ c && c ≤ 0x46 then some (c.toNat - 0x37)
  else if 0x61 ≤ c && c ≤ 0x66 then some (c.toNat - 0x57)
  else none

/-- A code unit in four hexadecimal digits. -/
def hexUnit (a b c d : UInt8) : Option UInt16 :=
  (hexValue a).bind fun a => (hexValue b).bind fun b => (hexValue c).bind fun c =>
    (hexValue d).map fun d => .ofNat (4096 * a + 256 * b + 16 * c + d)

/-- The escapes of one letter. -/
def escaped (c : UInt8) : Option UInt8 :=
  if c = 0x22 ∨ c = 0x5C ∨ c = 0x2F then some c
  else if c = 0x62 then some 0x08
  else if c = 0x66 then some 0x0C
  else if c = 0x6E then some 0x0A
  else if c = 0x72 then some 0x0D
  else if c = 0x74 then some 0x09
  else none

/-- What a string is written with: bytes, and code units in `\u` escapes. -/
abbrev Item := UInt8 ⊕ UInt16

/-- Put an item before those that were read. -/
def push (i : Item) (r : List Item × List UInt8) : List Item × List UInt8 := (i :: r.1, r.2)

/-- The items of a string, up to its closing quote. -/
def chars : Parser (List Item)
  | [] => none
  | c :: s =>
    if c = 0x22 then some ([], s)
    else if c < 0x20 then none
    else if c ≠ 0x5C then (chars s).map (push (.inl c))
    else
      match s with
      | [] => none
      | e :: s =>
        if e = 0x75 then
          match s with
          | a :: b :: c :: d :: s => (hexUnit a b c d).bind fun u => (chars s).map (push (.inr u))
          | _ => none
        else (escaped e).bind fun x => (chars s).map (push (.inl x))

/-- The bytes that items stand for. -/
def text : List Item → List UInt8
  | [] => []
  | .inl c :: is => c :: text is
  | .inr u :: .inr v :: is =>
    if isLeadSurrogate u && isTrailSurrogate v then utf8 (scalars [u, v]) ++ text is
    else utf8 (scalars [u]) ++ text (.inr v :: is)
  | .inr u :: is => utf8 (scalars [u]) ++ text is

/-- A string after its opening quote. -/
def string? : Parser (List UInt8) := fun s => (chars s).map fun r => (text r.1, r.2)

/-! ## Numbers -/

/-- `[ frac ]` -/
def fraction : Parser (List UInt8)
  | [] => some ([], [])
  | c :: s =>
    if c = 0x2E then
      if s.takeWhile isDigit = [] then none else some (s.takeWhile isDigit, s.dropWhile isDigit)
    else some ([], c :: s)

/-- The digits of an exponent. -/
def exponentDigits (negative : Bool) (s : List UInt8) : Option (Int × List UInt8) :=
  let e : Int := Decimal.value (s.takeWhile isDigit)
  if s.takeWhile isDigit = [] then none else some (if negative then -e else e, s.dropWhile isDigit)

/-- `[ exp ]` -/
def exponent? : Parser Int
  | [] => some (0, [])
  | c :: s =>
    if c = 0x65 ∨ c = 0x45 then
      match s with
      | [] => none
      | d :: s =>
        if d = 0x2D then exponentDigits true s
        else if d = 0x2B then exponentDigits false s
        else exponentDigits false (d :: s)
    else some (0, c :: s)

/-- A number after its sign. The integer part has no leading zero. -/
def unsigned (negative : Bool) (s : List UInt8) : Option (Json × List UInt8) :=
  let int := s.takeWhile isDigit
  if int = [] ∨ (int.head? = some 0x30 ∧ int ≠ [0x30]) then none
  else
    (fraction (s.dropWhile isDigit)).bind fun (frac, s) =>
      (exponent? s).map fun (e, s) =>
        let m : Int := Decimal.value (int ++ frac)
        (.number (if negative then -m else m) (e - frac.length), s)

/-- `number` -/
def number? : Parser Json
  | [] => none
  | c :: s => if c = 0x2D then unsigned true s else unsigned false (c :: s)

/-! ## Values -/

/-- The rest of a literal name. -/
def literal (name : List UInt8) (v : Json) (s : List UInt8) : Option (Json × List UInt8) :=
  if name <+: s then some (v, s.drop name.length) else none

section Sequence

variable {α : Type u}

/-- One or more items with commas between them, and the closing bracket. -/
def items (item : Parser α) (close : UInt8) : Nat → Parser (List α)
  | 0, _ => none
  | n + 1, s =>
    (item s).bind fun (x, s) =>
      match skipSpace s with
      | [] => none
      | c :: s =>
        if c = 0x2C then (items item close n s).map fun r => (x :: r.1, r.2)
        else if c = close then some ([x], s)
        else none

/-- An array or an object after its opening bracket. -/
def sequence (item : Parser α) (close : UInt8) (s : List UInt8) : Option (List α × List UInt8) :=
  match skipSpace s with
  | [] => none
  | c :: rest => if c = close then some ([], rest) else items item close s.length s

end Sequence

/-- A member of an object. -/
def member (value : Parser Json) (s : List UInt8) : Option ((List UInt8 × Json) × List UInt8) :=
  match skipSpace s with
  | [] => none
  | c :: s =>
    if c = 0x22 then
      (string? s).bind fun (name, s) =>
        match skipSpace s with
        | [] => none
        | c :: s => if c = 0x3A then (value s).map fun (v, s) => ((name, v), s) else none
    else none

/-- A value, with fuel for the depth. -/
def value : Nat → Parser Json
  | 0, _ => none
  | n + 1, s =>
    match skipSpace s with
    | [] => none
    | c :: s =>
      if c = 0x5B then (sequence (value n) 0x5D s).map fun (xs, s) => (.array xs, s)
      else if c = 0x7B then (sequence (member (value n)) 0x7D s).map fun (ms, s) => (.object ms, s)
      else if c = 0x22 then (string? s).map fun (t, s) => (.string t, s)
      else if c = 0x74 then literal [0x72, 0x75, 0x65] (.bool true) s
      else if c = 0x66 then literal [0x61, 0x6C, 0x73, 0x65] (.bool false) s
      else if c = 0x6E then literal [0x75, 0x6C, 0x6C] .null s
      else number? (c :: s)

/-- A JSON text: a value, with white space around it. -/
def parse (s : List UInt8) : Option Json :=
  (value (s.length + 1) s).bind fun (v, rest) => if skipSpace rest = [] then some v else none

/-! ## Every value takes bytes -/

/-- The parser takes at least one byte. -/
def Consumes {α : Type u} (p : Parser α) : Prop :=
  ∀ s x rest, p s = some (x, rest) → rest.length < s.length

theorem length_skipSpace_le (s : List UInt8) : (skipSpace s).length ≤ s.length :=
  (List.dropWhile_suffix _).length_le

theorem length_of_skipSpace_eq_cons {s t : List UInt8} {c : UInt8} (h : skipSpace s = c :: t) :
    t.length < s.length := by
  have hle := length_skipSpace_le s
  rw [h, List.length_cons] at hle
  exact hle

private theorem length_of_push {s rest : List UInt8} {i : Item} {is : List Item}
    (ih : ∀ is rest, chars s = some (is, rest) → rest.length < s.length)
    (h : (chars s).map (push i) = some (is, rest)) : rest.length < s.length := by
  obtain ⟨⟨is', rest'⟩, hr, heq⟩ := Option.map_eq_some_iff.mp h
  cases heq
  exact ih _ _ hr

theorem consumes_chars : Consumes chars := by
  intro s
  fun_induction chars s with
  | case1 =>
    intro is rest h
    cases h
  | case2 s =>
    intro is rest h
    cases h
    simp
  | case3 =>
    intro is rest h
    cases h
  | case4 c s _ _ _ ih =>
    intro is rest h
    exact Nat.lt_succ_of_lt (length_of_push ih h)
  | case5 =>
    intro is rest h
    cases h
  | case6 c _ _ _ a b e d s ih =>
    -- A `\u` escape takes four more.
    intro is rest h
    obtain ⟨u, -, h⟩ := Option.bind_eq_some_iff.mp h
    have hlt := length_of_push ih h
    simp only [List.length_cons]
    omega
  | case7 =>
    intro is rest h
    cases h
  | case8 c _ _ _ e s _ ih =>
    intro is rest h
    obtain ⟨x, -, h⟩ := Option.bind_eq_some_iff.mp h
    have hlt := length_of_push ih h
    simp only [List.length_cons]
    omega

theorem consumes_string? : Consumes string? := by
  intro s x rest h
  obtain ⟨⟨is, rest'⟩, hchars, heq⟩ := Option.map_eq_some_iff.mp h
  cases heq
  exact consumes_chars s is _ hchars

theorem length_fraction_le {s ds rest : List UInt8} (h : fraction s = some (ds, rest)) :
    rest.length ≤ s.length := by
  unfold fraction at h
  split at h
  · cases h
    exact Nat.le_refl _
  · rename_i c s
    split at h
    · split at h
      · cases h
      · cases h
        exact Nat.le_succ_of_le (List.dropWhile_suffix _).length_le
    · cases h
      exact Nat.le_refl _

theorem length_exponentDigits_le {negative : Bool} {s rest : List UInt8} {e : Int}
    (h : exponentDigits negative s = some (e, rest)) : rest.length ≤ s.length := by
  unfold exponentDigits at h
  simp only at h
  split at h
  · cases h
  · cases h
    exact (List.dropWhile_suffix _).length_le

theorem length_exponent_le {s rest : List UInt8} {e : Int} (h : exponent? s = some (e, rest)) :
    rest.length ≤ s.length := by
  unfold exponent? at h
  split at h
  · cases h
    exact Nat.le_refl _
  · rename_i c s
    split at h
    · split at h
      · cases h
      · rename_i d s
        have hle : ∀ negative s', exponentDigits negative s' = some (e, rest) →
            s'.length ≤ s.length + 1 → rest.length ≤ (c :: d :: s).length := fun negative s' h hs => by
          have hrest := length_exponentDigits_le h
          simp only [List.length_cons]
          omega
        split at h
        · exact hle _ _ h (Nat.le_succ _)
        · split at h
          · exact hle _ _ h (Nat.le_succ _)
          · exact hle _ _ h (Nat.le_refl _)
    · cases h
      exact Nat.le_refl _

theorem length_unsigned_lt {negative : Bool} {s rest : List UInt8} {v : Json}
    (h : unsigned negative s = some (v, rest)) : rest.length < s.length := by
  unfold unsigned at h
  simp only at h
  split at h
  · cases h
  · rename_i hint
    rw [not_or] at hint
    obtain ⟨⟨frac, s₁⟩, hfrac, h⟩ := Option.bind_eq_some_iff.mp h
    obtain ⟨⟨e, s₂⟩, hexp, h⟩ := Option.map_eq_some_iff.mp h
    cases h
    have hfracLe := length_fraction_le hfrac
    have hexpLe : s₂.length ≤ s₁.length := length_exponent_le hexp
    -- The integer part is not empty.
    have hpos := List.length_pos_iff.mpr hint.1
    have hsplit := congrArg List.length (List.takeWhile_append_dropWhile (p := isDigit) (l := s))
    rw [List.length_append] at hsplit
    show s₂.length < s.length
    omega

theorem consumes_number? : Consumes number? := by
  intro s v rest h
  cases s with
  | nil => cases h
  | cons c s =>
    rw [number?] at h
    split at h
    · exact Nat.lt_succ_of_lt (length_unsigned_lt h)
    · exact length_unsigned_lt h

theorem length_literal_le {name s rest : List UInt8} {v w : Json}
    (h : literal name v s = some (w, rest)) : rest.length ≤ s.length := by
  unfold literal at h
  split at h
  · cases h
    exact (List.drop_suffix _ _).length_le
  · cases h

section Sequence

variable {α : Type u} {item item' : Parser α} {close : UInt8}

theorem consumes_items (hitem : Consumes item) (close : UInt8) (n : Nat) :
    Consumes (items item close n) := by
  induction n with
  | zero =>
    intro s xs rest h
    cases h
  | succ n ih =>
    intro s xs rest h
    obtain ⟨⟨x, s₁⟩, hx, h⟩ := Option.bind_eq_some_iff.mp h
    have hlt := hitem s x s₁ hx
    simp only at h
    split at h
    · cases h
    · rename_i c s₂ hskip
      have hlt₂ := length_of_skipSpace_eq_cons hskip
      split at h
      · obtain ⟨⟨xs', s₃⟩, hxs, h⟩ := Option.map_eq_some_iff.mp h
        cases h
        have hlt₃ := ih s₂ xs' s₃ hxs
        show s₃.length < s.length
        omega
      · split at h
        · cases h
          omega
        · cases h

theorem consumes_sequence (hitem : Consumes item) : Consumes (sequence item close) := by
  intro s xs rest h
  unfold sequence at h
  split at h
  · cases h
  · rename_i c s₁ hskip
    split at h
    · cases h
      exact length_of_skipSpace_eq_cons hskip
    · exact consumes_items hitem close _ s xs rest h

end Sequence

theorem consumes_member {p : Parser Json} (hp : Consumes p) : Consumes (member p) := by
  intro s m rest h
  unfold member at h
  split at h
  · cases h
  · rename_i c s₁ hskip
    have hlt := length_of_skipSpace_eq_cons hskip
    split at h
    · obtain ⟨⟨name, s₂⟩, hname, h⟩ := Option.bind_eq_some_iff.mp h
      have hlt₂ := consumes_string? s₁ name s₂ hname
      simp only at h
      split at h
      · cases h
      · rename_i d s₃ hskip₃
        have hlt₃ := length_of_skipSpace_eq_cons hskip₃
        split at h
        · obtain ⟨⟨v, s₄⟩, hv, h⟩ := Option.map_eq_some_iff.mp h
          cases h
          have hlt₄ := hp s₃ v s₄ hv
          show s₄.length < s.length
          omega
        · cases h
    · cases h

theorem consumes_value (n : Nat) : Consumes (value n) := by
  -- The fuel bounds the nesting, so the values inside are read with less of it.
  induction n with
  | zero =>
    intro s v rest h
    cases h
  | succ n ih =>
    intro s v rest h
    rw [value] at h
    split at h
    · cases h
    · rename_i c s₁ hskip
      have hlt := length_of_skipSpace_eq_cons hskip
      split at h
      · obtain ⟨⟨xs, s₂⟩, hxs, h⟩ := Option.map_eq_some_iff.mp h
        cases h
        exact Nat.lt_trans (consumes_sequence ih s₁ xs rest hxs) hlt
      split at h
      · obtain ⟨⟨ms, s₂⟩, hms, h⟩ := Option.map_eq_some_iff.mp h
        cases h
        exact Nat.lt_trans (consumes_sequence (consumes_member ih) s₁ ms rest hms) hlt
      split at h
      · obtain ⟨⟨t, s₂⟩, ht, h⟩ := Option.map_eq_some_iff.mp h
        cases h
        exact Nat.lt_trans (consumes_string? s₁ t rest ht) hlt
      split at h
      · exact Nat.lt_of_le_of_lt (length_literal_le h) hlt
      split at h
      · exact Nat.lt_of_le_of_lt (length_literal_le h) hlt
      split at h
      · exact Nat.lt_of_le_of_lt (length_literal_le h) hlt
      · have hnumber := consumes_number? (c :: s₁) v rest h
        rw [List.length_cons] at hnumber
        omega

/-! ## Fuel -/

section Fuel

variable {α : Type u} {item item' : Parser α}

/-- What `p` reads of a text no longer than `k`, `q` reads too. -/
def Within (k : Nat) (p q : Parser α) : Prop :=
  ∀ s, s.length ≤ k → ∀ r, p s = some r → q s = some r

theorem within_items {k : Nat} (hitem : Consumes item) (h : Within k item item') (close : UInt8)
    (n : Nat) : Within k (items item close n) (items item' close n) := by
  induction n with
  | zero =>
    intro s _ r hr
    cases hr
  | succ n ih =>
    intro s hs r hr
    obtain ⟨⟨x, s₁⟩, hx, hr⟩ := Option.bind_eq_some_iff.mp hr
    have hlt := hitem s x s₁ hx
    rw [items, h s hs _ hx, Option.bind_some]
    simp only at hr ⊢
    split at hr
    · cases hr
    · rename_i c s₂ hskip
      have hlt₂ := length_of_skipSpace_eq_cons hskip
      split at hr
      · rename_i hcomma
        obtain ⟨r', hr', hr⟩ := Option.map_eq_some_iff.mp hr
        simp only [if_pos hcomma, ih s₂ (by omega) r' hr', Option.map_some, hr]
      · rename_i hcomma
        simpa only [if_neg hcomma] using hr

theorem within_sequence {k : Nat} (hitem : Consumes item) (h : Within k item item')
    (close : UInt8) : Within k (sequence item close) (sequence item' close) := by
  intro s hs r hr
  unfold sequence at hr ⊢
  split at hr
  · cases hr
  · split at hr
    · rename_i hclose
      simpa only [if_pos hclose] using hr
    · rename_i hclose
      simpa only [if_neg hclose] using within_items hitem h close _ s hs r hr

theorem within_member {k : Nat} {p q : Parser Json} (h : Within k p q) :
    Within k (member p) (member q) := by
  intro s hs r hr
  unfold member at hr ⊢
  split at hr
  · cases hr
  · rename_i c s₁ hskip
    have hlt := length_of_skipSpace_eq_cons hskip
    split at hr
    · rename_i hquote
      obtain ⟨⟨name, s₂⟩, hname, hr⟩ := Option.bind_eq_some_iff.mp hr
      have hlt₂ := consumes_string? s₁ name s₂ hname
      simp only [if_pos hquote, hname, Option.bind_some]
      simp only at hr
      split at hr
      · cases hr
      · rename_i d s₃ hskip₃
        have hlt₃ := length_of_skipSpace_eq_cons hskip₃
        split at hr
        · rename_i hcolon
          obtain ⟨r', hr', hr⟩ := Option.map_eq_some_iff.mp hr
          simp only [if_pos hcolon, h s₃ (by omega) r' hr', Option.map_some, hr]
        · cases hr
    · cases hr

/-- **Fuel**: what some fuel reads, any fuel above the length reads. -/
theorem value_of_length_lt {n m : Nat} {s : List UInt8} {r : Json × List UInt8}
    (h : value n s = some r) (hm : s.length < m) : value m s = some r := by
  induction n generalizing s m r with
  | zero => cases h
  | succ n ih =>
    obtain ⟨m, rfl⟩ : ∃ k, m = k + 1 := ⟨m - 1, by omega⟩
    rw [value] at h ⊢
    split at h
    · cases h
    · rename_i c s₁ hskip
      have hlt := length_of_skipSpace_eq_cons hskip
      have hwithin : Within s₁.length (value n) (value m) := fun t ht r' hr' => ih hr' (by omega)
      split at h
      · rename_i hc
        obtain ⟨r', hr', h⟩ := Option.map_eq_some_iff.mp h
        have hseq := within_sequence (consumes_value n) hwithin 0x5D s₁ (Nat.le_refl _) r' hr'
        simp only [if_pos hc, hseq, Option.map_some, h]
      · rename_i hc
        rw [if_neg hc]
        split at h
        · rename_i hc
          obtain ⟨r', hr', h⟩ := Option.map_eq_some_iff.mp h
          have hseq := within_sequence (consumes_member (consumes_value n)) (within_member hwithin)
            0x7D s₁ (Nat.le_refl _) r' hr'
          simp only [if_pos hc, hseq, Option.map_some, h]
        · -- Nothing else has values in it.
          rename_i hc
          rwa [if_neg hc]

end Fuel

/-- What some fuel reads of a whole text, `parse` reads. -/
theorem parse_of_value {n : Nat} {s rest : List UInt8} {v : Json} (h : value n s = some (v, rest))
    (hrest : skipSpace rest = []) : parse s = some v := by
  rw [parse, value_of_length_lt h (Nat.lt_succ_self _), Option.bind_some]
  exact if_pos hrest

/-! ## Reading what was written -/

theorem skipSpace_cons {c : UInt8} (h : isSpace c = false) (s : List UInt8) :
    skipSpace (c :: s) = c :: s :=
  List.dropWhile_cons_of_neg (by simp [h])

section Strings

variable {c e x : UInt8} {u : UInt16}

theorem chars_quote (s : List UInt8) : chars (0x22 :: s) = some ([], s) := by
  rw [chars.eq_def]
  rfl

theorem chars_byte (hc : ¬ c < 0x20) (hquote : c ≠ 0x22) (hbackslash : c ≠ 0x5C) (s : List UInt8) :
    chars (c :: s) = (chars s).map (push (.inl c)) := by
  rw [chars.eq_def]
  simp only [if_neg hquote, if_neg hc, if_pos hbackslash]

theorem chars_escaped (h : escaped e = some x) (s : List UInt8) :
    chars (0x5C :: e :: s) = (chars s).map (push (.inl x)) := by
  have hu : e ≠ 0x75 := by
    rintro rfl
    cases h
  rw [chars.eq_def]
  simp [hu, h]

theorem chars_unit {a b d : UInt8} (h : hexUnit a b c d = some u) (s : List UInt8) :
    chars (0x5C :: 0x75 :: a :: b :: c :: d :: s) = (chars s).map (push (.inr u)) := by
  rw [chars.eq_def]
  simp [h]

/-- The escape of an ASCII character stands for one byte. -/
theorem text_ascii (hu : u.toNat < 0x80) (is : List Item) :
    text (.inr u :: is) = .ofNat u.toNat :: text is := by
  have hlead : isLeadSurrogate u = false := by
    simp only [isLeadSurrogate, Bool.and_eq_false_iff, decide_eq_false_iff_not]
    omega
  have htrail : isTrailSurrogate u = false := by
    simp only [isTrailSurrogate, Bool.and_eq_false_iff, decide_eq_false_iff_not]
    omega
  have hchar : (Char.ofNat u.toNat).toNat = u.toNat := toNat_charOfNat hu
  have hbytes : utf8 (scalars [u]) = [.ofNat u.toNat] := by
    have hscalars : scalars [u] = [Char.ofNat u.toNat] := by simp [scalars, hlead, htrail]
    rw [hscalars, utf8_of_ascii (by simp [Ascii, hchar, hu]), List.map_singleton, hchar]
  -- `u` is no half of a surrogate pair, whatever follows it.
  cases is with
  | nil => simp [text, hbytes]
  | cons i is =>
    cases i with
    | inl c => simp [text, hbytes]
    | inr v => simp [text, hlead, hbytes]

end Strings

section Numbers

/-- No number goes on with `s`. -/
def EndsNumber (s : List UInt8) : Prop :=
  ∀ c ∈ s.head?, isDigit c = false ∧ c ≠ 0x2E ∧ c ≠ 0x65 ∧ c ≠ 0x45

/-- An integer is read exactly. -/
theorem unsigned_digits (negative : Bool) (n : Nat) {rest : List UInt8} (h : EndsNumber rest) :
    unsigned negative (Decimal.digits n ++ rest) =
      some (.number (if negative then -n else n) 0, rest) := by
  have hdigit : ∀ c ∈ rest.head?, isDigit c = false := fun c hc => (h c hc).1
  have hzero : ¬ ((Decimal.digits n).head? = some 0x30 ∧ Decimal.digits n ≠ [0x30]) := by
    rintro ⟨hhead, hne⟩
    by_cases hn : n = 0
    · subst hn
      exact hne (by decide)
    · obtain ⟨d, ds, hds, hd⟩ := Decimal.exists_digits_cons hn
      rw [hds] at hhead
      exact hd (Option.some.inj hhead)
  have hfraction : fraction rest = some ([], rest) := by
    cases rest with
    | nil => rfl
    | cons c s => exact if_neg (h c rfl).2.1
  have hexponent : exponent? rest = some (0, rest) := by
    cases rest with
    | nil => rfl
    | cons c s => exact if_neg (not_or.mpr (h c rfl).2.2)
  simp only [unsigned, Decimal.takeWhile_digits hdigit, Decimal.dropWhile_digits hdigit,
    if_neg (not_or.mpr ⟨Decimal.digits_ne_nil n, hzero⟩), hfraction, hexponent, Option.bind_some,
    Option.map_some, List.append_nil, Decimal.value_digits]
  simp

end Numbers

section Lists

variable {α β : Type u} {item : Parser α} {close : UInt8} {emit : β → List UInt8} {val : β → α}
  {l : List β}

/-- **A list is read element by element.** The elements are written with commas between
    them, and each is read back when a comma or the closing bracket follows. -/
theorem items_intercalate (hne : l ≠ []) (hcomma : close ≠ 0x2C) (hspace : isSpace close = false)
    (hitem : ∀ b ∈ l, ∀ c s, c = 0x2C ∨ c = close → item (emit b ++ c :: s) = some (val b, c :: s))
    {n : Nat} (hn : l.length ≤ n) (rest : List UInt8) :
    items item close n ([0x2C].intercalate (l.map emit) ++ close :: rest) =
      some (l.map val, rest) := by
  induction l generalizing n with
  | nil => exact absurd rfl hne
  | cons b l ih =>
    obtain ⟨n, rfl⟩ : ∃ k, n = k + 1 := ⟨n - 1, by simp at hn; omega⟩
    have hb := hitem b List.mem_cons_self
    cases l with
    | nil =>
      rw [List.map_singleton, List.intercalate_singleton, items, hb _ _ (.inr rfl), Option.bind_some]
      simp only [skipSpace_cons hspace, if_neg hcomma, List.map_singleton]
      rfl
    | cons b' l =>
      have htail := ih (List.cons_ne_nil _ _) (fun x hx => hitem x (List.mem_cons_of_mem _ hx))
        (n := n) (by simp at hn ⊢; omega)
      rw [List.map_cons] at htail
      rw [List.map_cons, List.map_cons, List.intercalate_cons_cons, List.append_assoc,
        List.append_assoc, List.singleton_append, items, hb _ _ (.inl rfl), Option.bind_some]
      have hskip : isSpace 0x2C = false := by decide
      simp only [skipSpace_cons hskip, if_true, htail, Option.map_some, List.map_cons]

theorem length_le_intercalate (hemit : ∀ b ∈ l, emit b ≠ []) :
    l.length ≤ ([0x2C].intercalate (l.map emit)).length := by
  induction l with
  | nil => exact Nat.zero_le _
  | cons b l ih =>
    have hpos := List.length_pos_iff.mpr (hemit b List.mem_cons_self)
    have htail := ih fun x hx => hemit x (List.mem_cons_of_mem _ hx)
    cases l with
    | nil =>
      rw [List.map_singleton, List.intercalate_singleton, List.length_singleton]
      exact hpos
    | cons b' l =>
      rw [List.map_cons] at htail
      rw [List.map_cons, List.map_cons, List.intercalate_cons_cons, List.length_append,
        List.length_append, List.length_cons]
      omega

/-- The list after an opening bracket. -/
theorem sequence_intercalate (hcomma : close ≠ 0x2C) (hspace : isSpace close = false)
    (hemit : ∀ b ∈ l, ∃ c s, emit b = c :: s ∧ isSpace c = false ∧ c ≠ close)
    (hitem : ∀ b ∈ l, ∀ c s, c = 0x2C ∨ c = close → item (emit b ++ c :: s) = some (val b, c :: s))
    (rest : List UInt8) :
    sequence item close ([0x2C].intercalate (l.map emit) ++ close :: rest) =
      some (l.map val, rest) := by
  cases l with
  | nil =>
    rw [List.map_nil, List.intercalate_nil, List.nil_append, sequence, skipSpace_cons hspace]
    exact if_pos rfl
  | cons b l =>
    have hlen : (b :: l).length ≤ ([0x2C].intercalate ((b :: l).map emit) ++ close :: rest).length := by
      rw [List.length_append]
      refine Nat.le_add_right_of_le (length_le_intercalate fun x hx => ?_)
      obtain ⟨c, s, hc, -⟩ := hemit x hx
      simp [hc]
    have hitems := items_intercalate (List.cons_ne_nil b l) hcomma hspace hitem hlen rest
    -- The first element is not the closing bracket.
    obtain ⟨c, s, hc, hcspace, hcclose⟩ := hemit b List.mem_cons_self
    obtain ⟨t, ht⟩ : ∃ t, [0x2C].intercalate ((b :: l).map emit) ++ close :: rest = c :: t := by
      rw [List.map_cons, hc, List.intercalate_cons_cons_left, List.cons_append]
      exact ⟨_, rfl⟩
    rw [ht] at hitems ⊢
    rw [sequence, skipSpace_cons hcspace]
    simpa only [if_neg hcclose] using hitems

end Lists

section Values

variable {n : Nat} {s rest : List UInt8}

theorem value_array {xs : List Json} (h : sequence (value n) 0x5D s = some (xs, rest)) :
    value (n + 1) (0x5B :: s) = some (.array xs, rest) := by
  rw [value, skipSpace_cons (by decide)]
  simp [h]

theorem value_object {ms : List (List UInt8 × Json)}
    (h : sequence (member (value n)) 0x7D s = some (ms, rest)) :
    value (n + 1) (0x7B :: s) = some (.object ms, rest) := by
  rw [value, skipSpace_cons (by decide)]
  simp [h]

theorem value_string {t : List UInt8} (h : string? s = some (t, rest)) :
    value (n + 1) (0x22 :: s) = some (.string t, rest) := by
  rw [value, skipSpace_cons (by decide)]
  simp [h]

/-- The first byte decides that a value is a number. -/
theorem value_number {c : UInt8} (hc : c = 0x2D ∨ isDigit c = true) :
    value (n + 1) (c :: s) = number? (c :: s) := by
  have hrange : 0x2D ≤ c.toNat ∧ c.toNat ≤ 0x39 := by
    rcases hc with rfl | hc
    · decide
    · have hdigit := Decimal.isDigit_iff.mp hc
      omega
  have hother : ∀ d : UInt8, d.toNat < 0x2D ∨ 0x39 < d.toNat → c ≠ d := by
    rintro d hd rfl
    omega
  have hspace : isSpace c = false := by
    simp only [isSpace, Bool.or_eq_false_iff, beq_eq_false_iff_ne]
    exact ⟨⟨⟨hother _ (by decide), hother _ (by decide)⟩, hother _ (by decide)⟩, hother _ (by decide)⟩
  rw [value, skipSpace_cons hspace]
  simp only
  rw [if_neg (hother _ (by decide)), if_neg (hother _ (by decide)), if_neg (hother _ (by decide)),
    if_neg (hother _ (by decide)), if_neg (hother _ (by decide)), if_neg (hother _ (by decide))]

theorem member_eq {name : List UInt8} {p : Parser Json} {v : Json} {t : List UInt8}
    (hname : string? s = some (name, 0x3A :: t)) (hv : p t = some (v, rest)) :
    member p (0x22 :: s) = some ((name, v), rest) := by
  rw [member, skipSpace_cons (by decide)]
  have hcolon : isSpace 0x3A = false := by decide
  simp [hname, skipSpace_cons hcolon, hv]

end Values

end Json
