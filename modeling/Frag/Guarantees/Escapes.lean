import Frag.Backend.Text
import Frag.Client.Network

/-!
# Escapes

The backend undoes two kinds of escapes by hand: the percent signs of a request target, and
the backslashes of the strings in a JSON body. Both decoders are right about the escapes that
they know. `url_decode` takes any two bytes after a percent sign for digits, and the scanner
knows no escape that is more than one letter.

## Main results

- `scanner_undoes_escapes_iff`: the texts that the scanner reads back;
- `scanned_iff`: the texts that are stored as they are;
- `urlDecode_eq_formDecode_iff`: the texts that `url_decode` decodes as forms are.
-/

namespace Frag

open Unicode

/-! ## Percent signs -/

/-- A percent sign and two hexadecimal digits stand for a byte. -/
def escapedByte (c a b : UInt8) : Option UInt8 :=
  if c = 0x25 then (hexValue a).bind fun x => (hexValue b).map fun y => 16 * x + y else none

/-- A byte that is part of no escape; a plus sign is a space. -/
def formByte (c : UInt8) : UInt8 := if c = 0x2B then 0x20 else c

/-- Decoding of forms: escapes are their bytes, and every other byte stands for itself. -/
def formDecode : Bytes → Bytes
  | c :: a :: b :: s =>
    match escapedByte c a b with
    | some x => x :: formDecode s
    | none => formByte c :: formDecode (a :: b :: s)
  | s => s.map formByte

/-- Every percent sign with two bytes after it has two hexadecimal digits after it. -/
def PercentEscaped (s : Bytes) : Prop :=
  ∀ a b, [0x25, a, b] <:+: s → (hexValue a).isSome ∧ (hexValue b).isSome

/-- A hexadecimal digit is no percent sign, and its value is one of sixteen. -/
theorem hexValue_spec : ∀ c : UInt8, ∀ x ∈ hexValue c, c ≠ 0x25 ∧ x < 16 :=
  forall_byte (by decide +kernel)

/-- What `strtol` makes of anything else is no percent sign. -/
theorem strtol16_ne_percent {a b : UInt8} (h : ¬ ((hexValue a).isSome ∧ (hexValue b).isSome)) :
    strtol16 a b ≠ 0x25 := by
  have hall : ∀ n : Fin 16, UInt8.ofNat n ≠ 0x25 ∧ -UInt8.ofNat n ≠ 0x25 := by decide
  have hsmall : ∀ x : UInt8, x < 16 → x ≠ 0x25 ∧ -x ≠ 0x25 := by
    intro x hx
    simpa using hall ⟨x.toNat, UInt8.lt_iff_toNat_lt.mp hx⟩
  have hvalue : ∀ c, (hexValue c).getD 0 < 16 := by
    intro c
    cases hc : hexValue c with
    | none => decide
    | some x => exact (hexValue_spec c x hc).2
  unfold strtol16
  cases hx : hexValue a with
  | some x =>
    cases hy : hexValue b with
    | some y => exact absurd ⟨by rw [hx]; rfl, by rw [hy]; rfl⟩ h
    | none => exact (hsmall x (hexValue_spec a x hx).2).1
  | none =>
    -- At most one digit is read, and perhaps a sign before it.
    simp only
    split
    · exact (hsmall _ (hvalue b)).1
    split
    · exact (hsmall _ (hvalue b)).2
    · decide

theorem percentEscaped_of_length {s : Bytes} (h : s.length < 3) : PercentEscaped s := by
  intro a b hab
  exact absurd hab.length_le (by simpa using h)

/-- The escapes at the beginning, and those after it. -/
theorem percentEscaped_cons {c a b : UInt8} {s : Bytes} :
    PercentEscaped (c :: a :: b :: s) ↔
      (c = 0x25 → (hexValue a).isSome ∧ (hexValue b).isSome) ∧ PercentEscaped (a :: b :: s) := by
  constructor
  · intro h
    refine ⟨?_, fun x y hxy => h x y (List.infix_cons hxy)⟩
    rintro rfl
    exact h a b ⟨[], s, rfl⟩
  · rintro ⟨hhead, htail⟩ x y hxy
    rcases List.infix_cons_iff.mp hxy with hpre | hin
    · simp only [List.cons_prefix_cons, List.nil_prefix, and_true] at hpre
      obtain ⟨hc, rfl, rfl⟩ := hpre
      exact hhead hc.symm
    · exact htail x y hin

/-- No escape begins at another byte than a percent sign. -/
theorem percentEscaped_cons_of_ne {c : UInt8} (hc : c ≠ 0x25) {s : Bytes} :
    PercentEscaped (c :: s) ↔ PercentEscaped s := by
  rcases s with _ | ⟨a, _ | ⟨b, s⟩⟩
  · exact iff_of_true (percentEscaped_of_length (by simp)) (percentEscaped_of_length (by simp))
  · exact iff_of_true (percentEscaped_of_length (by simp)) (percentEscaped_of_length (by simp))
  · exact percentEscaped_cons.trans (and_iff_right fun h => absurd h hc)

/-- **When `url_decode` is form decoding**: if every percent sign that could begin an escape
    begins one. -/
theorem urlDecode_eq_formDecode_iff (s : Bytes) : urlDecode s = formDecode s ↔ PercentEscaped s := by
  fun_induction urlDecode s with
  | case1 => exact iff_of_true rfl (percentEscaped_of_length (by simp))
  | case2 c => exact iff_of_true rfl (percentEscaped_of_length (by simp))
  | case3 c d => exact iff_of_true rfl (percentEscaped_of_length (by simp))
  | case4 a b s ih =>
    by_cases hdigits : (hexValue a).isSome ∧ (hexValue b).isSome
    · obtain ⟨x, hx⟩ := Option.isSome_iff_exists.mp hdigits.1
      obtain ⟨y, hy⟩ := Option.isSome_iff_exists.mp hdigits.2
      have hbyte : escapedByte 0x25 a b = some (16 * x + y) := by simp [escapedByte, hx, hy]
      -- The digits of an escape begin no other one.
      rw [formDecode, hbyte, strtol16, hx, hy, percentEscaped_cons,
        and_iff_right fun _ => hdigits, percentEscaped_cons_of_ne (hexValue_spec a x hx).1,
        percentEscaped_cons_of_ne (hexValue_spec b y hy).1, List.cons_inj_right, ih]
    · -- `formDecode` keeps the percent sign, and `strtol` returns none.
      have hbyte : escapedByte 0x25 a b = none := by
        rw [← Option.not_isSome_iff_eq_none]
        simpa [escapedByte, Option.isSome_bind, Option.any_eq_true_iff_get] using hdigits
      rw [formDecode, hbyte, percentEscaped_cons]
      refine iff_of_false (fun h => ?_) (fun h => hdigits (h.1 rfl))
      exact strtol16_ne_percent hdigits (List.cons.inj h).1
  | case5 c a b s hc ih =>
    have hbyte : escapedByte c a b = none := if_neg hc
    rw [formDecode, hbyte, percentEscaped_cons_of_ne hc, ← ih]
    exact List.cons_inj_right _

/-- An escape that is none is not kept. -/
theorem not_forall_urlDecode_eq_formDecode : ¬ ∀ s : Bytes, urlDecode s = formDecode s := by
  intro h
  exact absurd (h (lit "%zz")) (by decide +kernel)

/-! ## Backslashes -/

/-- What the loop of `extract_string` makes of a text that does not end it. -/
def scanWhole : Bytes → Option Bytes
  | [] => some []
  | [c] => if c = 0x5C ∨ c = 0x22 then none else some [c]
  | c :: d :: s =>
    if c = 0x5C then (scanWhole s).map (unescape d :: ·)
    else if c = 0x22 then none
    else (scanWhole (d :: s)).map (c :: ·)

/-- **The loop goes on after such a text.** -/
theorem readString_append {s t : Bytes} (h : scanWhole s = some t) (c : UInt8) (rest : Bytes) :
    readString (s ++ c :: rest) = t ++ readString (c :: rest) := by
  -- Along the scan: an escape takes two bytes, another byte itself.
  fun_induction scanWhole s generalizing t with
  | case1 =>
    cases h
    rfl
  | case2 b hb => cases h
  | case3 b hb =>
    cases h
    rw [not_or] at hb
    rw [List.singleton_append, readString, if_neg hb.1, if_neg hb.2, List.singleton_append]
  | case4 d s ih =>
    obtain ⟨u, hu, rfl⟩ := Option.map_eq_some_iff.mp h
    rw [List.cons_append, List.cons_append, readString, if_pos rfl, ih hu, List.cons_append]
  | case5 => cases h
  | case6 b d s hb hq ih =>
    obtain ⟨u, hu, rfl⟩ := Option.map_eq_some_iff.mp h
    rw [List.cons_append, List.cons_append, readString, if_neg hb, if_neg hq, ← List.cons_append,
      ih hu, List.cons_append]

theorem scanWhole_cons {c : UInt8} (hc : ¬ (c = 0x5C ∨ c = 0x22)) (s : Bytes) :
    scanWhole (c :: s) = (scanWhole s).map (c :: ·) := by
  rw [not_or] at hc
  cases s with
  | nil => simp [scanWhole, hc]
  | cons d s => rw [scanWhole, if_neg hc.1, if_neg hc.2]

theorem scanWhole_append {s t s' t' : Bytes} (h : scanWhole s = some t)
    (h' : scanWhole s' = some t') : scanWhole (s ++ s') = some (t ++ t') := by
  fun_induction scanWhole s generalizing t with
  | case1 =>
    cases h
    exact h'
  | case2 c hc => cases h
  | case3 c hc =>
    cases h
    rw [List.singleton_append, scanWhole_cons hc, h']
    rfl
  | case4 d s ih =>
    obtain ⟨u, hu, rfl⟩ := Option.map_eq_some_iff.mp h
    rw [List.cons_append, List.cons_append, scanWhole, if_pos rfl, ih hu]
    rfl
  | case5 => cases h
  | case6 c d s hc hq ih =>
    obtain ⟨u, hu, rfl⟩ := Option.map_eq_some_iff.mp h
    rw [List.cons_append, scanWhole_cons (not_or.mpr ⟨hc, hq⟩), ih hu]
    rfl

/-- `{"key":"text"}` -/
def objectText (key text : Bytes) : Bytes :=
  lit "\x7b\"" ++ key ++ lit "\":\"" ++ text ++ lit "\"\x7d"

/-- The value of the only member is read up to its closing quote. -/
theorem extractString_objectText (key : Bytes) {text t : Bytes} (h : scanWhole text = some t) :
    extractString (objectText key text) key = t := by
  have hopen : lit "\x7b\"" = [0x7B, 0x22] := rfl
  have hcolon : lit "\":\"" = [0x22, 0x3A, 0x22] := rfl
  have hclose : lit "\"\x7d" = [0x22, 0x7D] := rfl
  have htext : objectText key text =
      [0x7B] ++ 0x22 :: (key ++ 0x22 :: ([] ++ 0x3A :: ([] ++ 0x22 :: (text ++ [0x22, 0x7D])))) := by
    simp [objectText, hopen, hcolon, hclose]
  have hafter : afterKey (objectText key text) key = some ([] ++ 0x22 :: (text ++ [0x22, 0x7D])) := by
    rw [afterKey, htext, Scan.after_quoted_start (by decide), Scan.after_quoted, Option.bind_some,
      Scan.after_singleton List.not_mem_nil]
  rw [extractString, hafter, Option.bind_some, Scan.after_singleton List.not_mem_nil]
  simp only
  rw [readString_append h]
  exact List.append_nil t

/-- A byte with an escape that the scanner knows, or with none. -/
def Legible (c : UInt8) : Prop := 0x20 ≤ c ∨ c = 0x0A ∨ c = 0x0D ∨ c = 0x09

instance (c : UInt8) : Decidable (Legible c) :=
  inferInstanceAs (Decidable (0x20 ≤ c ∨ c = 0x0A ∨ c = 0x0D ∨ c = 0x09))

/-- The scanner reads what is written for a byte as the byte, or as a text that begins with
    another one. -/
def readsByte (write : UInt8 → Bytes) (c : UInt8) : Bool :=
  match scanWhole (write c) with
  | some (d :: t) => if Legible c then d = c ∧ t = [] else d ≠ c
  | _ => false

/-- Byte by byte: the first byte that is not legible is read as another one. -/
theorem exists_scanWhole_flatMap {write : UInt8 → Bytes} (h : ∀ c, readsByte write c = true)
    (s : Bytes) :
    ∃ t, scanWhole (s.flatMap write) = some t ∧ (t = s ↔ ∀ c ∈ s, Legible c) := by
  induction s with
  | nil => exact ⟨[], rfl, by simp⟩
  | cons c s ih =>
    obtain ⟨t, ht, hiff⟩ := ih
    have hc := h c
    unfold readsByte at hc
    split at hc
    · -- What is read of this byte, and what is read of the others.
      rename_i d u hwrite
      refine ⟨(d :: u) ++ t, ?_, ?_⟩
      · rw [List.flatMap_cons]
        exact scanWhole_append hwrite ht
      rw [List.forall_mem_cons]
      split at hc
      · rename_i hscan
        obtain ⟨rfl, rfl⟩ := of_decide_eq_true hc
        rw [and_iff_right hscan, ← hiff]
        exact List.cons_inj_right _
      · -- The texts differ here already.
        rename_i hscan
        refine iff_of_false (fun heq => ?_) fun hall => hscan hall.1
        exact of_decide_eq_true hc (List.cons.inj heq).1
    · cases hc

/-- What `JSON.stringify` writes for a byte of a text. -/
def stringifyByte (c : UInt8) : Bytes :=
  if c = 0x08 then lit "\\b"
  else if c = 0x0C then lit "\\f"
  else escapeByte c

theorem readsByte_escapeByte : ∀ c, readsByte escapeByte c = true :=
  forall_byte (by decide +kernel)

theorem readsByte_stringifyByte : ∀ c, readsByte stringifyByte c = true :=
  forall_byte (by decide +kernel)

/-! ### `JSON.stringify` -/

/-- ASCII bytes as code units travel as they are. -/
theorem toWire_ascii_append {bs : Bytes} (h : ∀ b ∈ bs, b.toNat < 0x80) (s : JsString) :
    toWire (bs.map (fun b => .ofNat b.toNat) ++ s) = bs ++ toWire s := by
  have hascii : Ascii (bs.map fun b => Char.ofNat b.toNat) := by
    intro c hc
    obtain ⟨b, hb, rfl⟩ := List.mem_map.mp hc
    rw [toNat_charOfNat (h b hb)]
    exact h b hb
  have hunits : utf16 (bs.map fun b => Char.ofNat b.toNat) = bs.map fun b => .ofNat b.toNat := by
    rw [utf16_of_ascii hascii, List.map_map]
    refine List.map_congr_left fun b hb => ?_
    rw [Function.comp_apply, toNat_charOfNat (h b hb)]
  have hbytes : utf8 (bs.map fun b => Char.ofNat b.toNat) = bs := by
    rw [utf8_of_ascii hascii, List.map_map]
    refine (List.map_congr_left fun b hb => ?_).trans (List.map_id bs)
    rw [Function.comp_apply, toNat_charOfNat (h b hb), UInt8.ofNat_toNat, id]
  rw [← hunits, toWire_utf16_append, hbytes]

/-- Below 0x80 a code unit is its byte, and so is what is written for it. -/
theorem quoteUnit_ascii {u : UInt16} (h : u.toNat < 0x80) :
    quoteUnit u = (stringifyByte (.ofNat u.toNat)).map (fun b => .ofNat b.toNat) ∧
      ∀ b ∈ stringifyByte (.ofNat u.toNat), b.toNat < 0x80 := by
  have hall : ∀ n : Fin 128, quoteUnit (.ofNat n) =
      (stringifyByte (.ofNat n)).map (fun b => .ofNat b.toNat) ∧
        ∀ b ∈ stringifyByte (.ofNat n), b.toNat < 0x80 := by
    decide +kernel
  simpa using hall ⟨u.toNat, h⟩

/-- Characters from 0x80 on are written as they are. -/
theorem flatMap_stringifyByte {c : Char} (h : 0x80 ≤ c.toNat) :
    (String.utf8EncodeChar c).flatMap stringifyByte = String.utf8EncodeChar c := by
  have hhigh : ∀ b : UInt8, 0x80 ≤ b.toNat → stringifyByte b = [b] :=
    forall_byte (by decide +kernel)
  have hbyte : ∀ b ∈ String.utf8EncodeChar c, stringifyByte b = [b] := by
    intro b hb
    apply hhigh
    -- A byte below 0x80 would be the whole character.
    by_contra hlt
    have heq := toNat_of_mem_utf8 hb (by omega)
    omega
  rw [List.flatMap_congr hbyte, List.flatMap_singleton']

/-- **`JSON.stringify` on the wire** writes byte by byte. -/
theorem toWire_quoteUnits (cs : List Char) :
    toWire (quoteUnits (utf16 cs)) = (utf8 cs).flatMap stringifyByte := by
  induction cs with
  | nil => rfl
  | cons c cs ih =>
    have hsingle : utf8 [c] = String.utf8EncodeChar c := by simp [utf8]
    -- A character that is not ASCII is copied, as one unit or as a pair.
    have hcopy : quoteUnits (utf16 (c :: cs)) = utf16 [c] ++ quoteUnits (utf16 cs) →
        0x80 ≤ c.toNat → toWire (quoteUnits (utf16 (c :: cs))) =
          (utf8 (c :: cs)).flatMap stringifyByte := by
      intro hquote hle
      rw [hquote, toWire_utf16_append, ih, hsingle, utf8_cons, List.flatMap_append,
        flatMap_stringifyByte hle]
    rcases utf16Units_cases c with ⟨u, hunits, hu, hl, ht⟩ | ⟨u, v, hunits, hbig, hl, ht⟩
    · have hquote : quoteUnits (utf16 (c :: cs)) = quoteUnit u ++ quoteUnits (utf16 cs) := by
        rw [utf16_cons, hunits, List.singleton_append, quoteUnits_cons hl]
      by_cases hascii : u.toNat < 0x80
      · obtain ⟨hunit, hbytes⟩ := quoteUnit_ascii hascii
        have hchar : utf8 [c] = [.ofNat u.toNat] := by
          rw [hu]
          exact utf8_of_ascii (by simpa [Ascii, ← hu] using hascii)
        rw [hquote, hunit, toWire_ascii_append hbytes, ih, utf8_cons, ← hsingle, hchar,
          List.flatMap_append, List.flatMap_singleton]
      · have hplain : quoteUnit u = [u] := by
          rw [quoteUnit_of_le (by omega) hl ht, if_neg]
          rintro (rfl | rfl) <;> exact absurd (by decide) hascii
        apply hcopy
        · rw [hquote, hplain, utf16_cons, hunits]
          rfl
        · omega
    · apply hcopy
      · rw [utf16_cons, hunits, utf16_cons, hunits]
        simp [quoteUnits, hl, ht, utf16]
      · omega

/-! ### What is scanned of a text -/

theorem scanWhole_of_notMem {s : Bytes} (hbackslash : 0x5C ∉ s) (hquote : 0x22 ∉ s) :
    scanWhole s = some s := by
  induction s with
  | nil => rfl
  | cons c s ih =>
    rw [List.mem_cons, not_or] at hbackslash hquote
    have hc : ¬ (c = 0x5C ∨ c = 0x22) := not_or.mpr ⟨Ne.symm hbackslash.1, Ne.symm hquote.1⟩
    rw [scanWhole_cons hc, ih hbackslash.2 hquote.2, Option.map_some]

/-- Bytes from 0x80 on are read as they are. -/
theorem scanWhole_utf8 {c : Char} (hc : 0x80 ≤ c.toNat) : scanWhole (utf8 [c]) = some (utf8 [c]) := by
  have hsingle : utf8 [c] = String.utf8EncodeChar c := by simp [utf8]
  -- A byte below 0x80 would be the whole character.
  have hnot : ∀ b : UInt8, b.toNat < 0x80 → b ∉ utf8 [c] := by
    intro b hb hmem
    have heq := toNat_of_mem_utf8 (hsingle ▸ hmem) hb
    omega
  exact scanWhole_of_notMem (hnot 0x5C (by decide)) (hnot 0x22 (by decide))

theorem toWire_unit {c : Char} {s : JsString} (h : utf16Units c = s) : toWire s = utf8 [c] := by
  have hunits : s = utf16 [c] := by rw [utf16_cons, h]; exact (List.append_nil s).symm
  rw [hunits, toWire, scalars_utf16]

theorem exists_scanWhole_unicodeEscape (u : UInt16) :
    ∃ t, scanWhole (toWire (unicodeEscape u)) = some t := by
  have hlt : u.toNat < 65536 := u.toNat_lt
  have hdigit : ∀ d < 16, ∃ b : UInt8, hexUnit d = .ofNat b.toNat ∧ b.toNat < 0x80 ∧ b ≠ 0x5C ∧
      b ≠ 0x22 := by
    intro d hd
    have hall : ∀ d < 16, hexUnit d = .ofNat (UInt8.ofNat (hexUnit d).toNat).toNat ∧
        (UInt8.ofNat (hexUnit d).toNat).toNat < 0x80 ∧ UInt8.ofNat (hexUnit d).toNat ≠ 0x5C ∧
          UInt8.ofNat (hexUnit d).toNat ≠ 0x22 := by decide
    exact ⟨_, hall d hd⟩
  obtain ⟨a, ha, hasciiA, ha5, ha2⟩ := hdigit (u.toNat / 4096) (by omega)
  obtain ⟨b, hb, hasciiB, hb5, hb2⟩ := hdigit (u.toNat / 256 % 16) (by omega)
  obtain ⟨c, hc, hasciiC, hc5, hc2⟩ := hdigit (u.toNat / 16 % 16) (by omega)
  obtain ⟨d, hd, hasciiD, hd5, hd2⟩ := hdigit (u.toNat % 16) (by omega)
  have hunits : unicodeEscape u = [0x5C, 0x75, a, b, c, d].map (fun b : UInt8 => .ofNat b.toNat) ++ [] := by
    rw [unicodeEscape, ha, hb, hc, hd]
    rfl
  have hascii : ∀ x ∈ [0x5C, 0x75, a, b, c, d], x.toNat < 0x80 := by
    simp [hasciiA, hasciiB, hasciiC, hasciiD]
  have hdigits : scanWhole [a, b, c, d] = some [a, b, c, d] :=
    scanWhole_of_notMem (by simp [Ne.symm ha5, Ne.symm hb5, Ne.symm hc5, Ne.symm hd5])
      (by simp [Ne.symm ha2, Ne.symm hb2, Ne.symm hc2, Ne.symm hd2])
  have hnil : toWire [] = [] := rfl
  -- The letter after the backslash is read, and then the digits.
  refine ⟨0x75 :: [a, b, c, d], ?_⟩
  rw [hunits, toWire_ascii_append hascii, hnil, List.append_nil, scanWhole, if_pos rfl, hdigits]
  rfl

/-- A unit is ASCII, a lone surrogate, which is escaped, or a character that is copied. -/
theorem quoteUnit_cases (u : UInt16) : u.toNat < 0x80 ∨ quoteUnit u = unicodeEscape u ∨
    ∃ c, utf16Units c = [u] ∧ 0x80 ≤ c.toNat ∧ quoteUnit u = [u] := by
  by_cases hascii : u.toNat < 0x80
  · exact .inl hascii
  · by_cases hsurrogate : isLeadSurrogate u = true ∨ isTrailSurrogate u = true
    · exact .inr (.inl (quoteUnit_surrogate hsurrogate))
    · rw [not_or, Bool.not_eq_true, Bool.not_eq_true] at hsurrogate
      obtain ⟨c, hunits, hc⟩ := exists_utf16Units_single hsurrogate.1 hsurrogate.2
      refine .inr (.inr ⟨c, hunits, by omega, ?_⟩)
      rw [quoteUnit_of_le (by omega) hsurrogate.1 hsurrogate.2, if_neg]
      rintro (rfl | rfl) <;> exact absurd (by decide) hascii

theorem exists_scanWhole_quoteUnit (u : UInt16) : ∃ t, scanWhole (toWire (quoteUnit u)) = some t := by
  rcases quoteUnit_cases u with hascii | hescape | ⟨c, hunits, hc, hcopy⟩
  · obtain ⟨hunit, hbytes⟩ := quoteUnit_ascii hascii
    have hread := readsByte_stringifyByte (.ofNat u.toNat)
    have hwire := toWire_ascii_append hbytes []
    have hnil : toWire [] = [] := rfl
    rw [List.append_nil, ← hunit, hnil, List.append_nil] at hwire
    rw [hwire]
    unfold readsByte at hread
    split at hread
    · rename_i hscan
      exact ⟨_, hscan⟩
    · cases hread
  · rw [hescape]
    exact exists_scanWhole_unicodeEscape u
  · rw [hcopy, toWire_unit hunits]
    exact ⟨_, scanWhole_utf8 hc⟩

/-- The scanner reads every text to its end. -/
theorem exists_scanWhole_quoteUnits (s : JsString) :
    ∃ t, scanWhole (toWire (quoteUnits s)) = some t := by
  fun_induction quoteUnits s with
  | case1 => exact ⟨[], rfl⟩
  | case2 u => exact exists_scanWhole_quoteUnit u
  | case3 u v s hpair ih =>
    -- A pair of surrogates is one character of four bytes.
    rw [Bool.and_eq_true] at hpair
    obtain ⟨c, hunits, hc⟩ := exists_utf16Units_pair hpair.1 hpair.2
    obtain ⟨t, ht⟩ := ih
    have hsplit : toWire (u :: v :: quoteUnits s) = utf8 [c] ++ toWire (quoteUnits s) := by
      rw [← toWire_utf16_append, utf16_cons, hunits]
      rfl
    rw [hsplit]
    exact ⟨_, scanWhole_append (scanWhole_utf8 (by omega)) ht⟩
  | case4 u v s _ ih =>
    obtain ⟨t, ht⟩ := exists_scanWhole_quoteUnit u
    obtain ⟨t', ht'⟩ := ih
    rw [toWire_append (wireSafe_quoteUnit u)]
    exact ⟨_, scanWhole_append ht ht'⟩

/-- What the scanner reads of a text that `JSON.stringify` has written. -/
def scanned (s : JsString) : Bytes := (scanWhole (toWire (quoteUnits s))).getD []

theorem scanWhole_quoteUnits (s : JsString) : scanWhole (toWire (quoteUnits s)) = some (scanned s) := by
  obtain ⟨t, ht⟩ := exists_scanWhole_quoteUnits s
  rw [scanned, ht, Option.getD_some]

theorem scanned_of_wireSafe {s : JsString} (h : WireSafe s) : scanned s = toWire s := by
  obtain ⟨cs, rfl, hcs⟩ := h
  have htext : toWire (utf16 cs) = utf8 cs := by rw [toWire, scalars_utf16]
  have hscan := scanWhole_quoteUnits (utf16 cs)
  obtain ⟨t, ht, hiff⟩ := exists_scanWhole_flatMap readsByte_stringifyByte (utf8 cs)
  rw [toWire_quoteUnits, ht] at hscan
  rw [htext, ← Option.some.inj hscan, hiff]
  -- A byte below 0x20 would be a control character.
  intro b hb
  obtain ⟨c, hc, hbc⟩ := List.mem_flatMap.mp hb
  refine .inl (UInt8.le_iff_toNat_le.mpr ?_)
  have hlow : (0x20 : UInt8).toNat = 0x20 := rfl
  by_contra hlt
  have heq := toNat_of_mem_utf8 hbc (by omega)
  have hchar := hcs c hc
  omega

/-- Nothing is lost, and no NUL is read. -/
theorem exists_scanWhole_stringify (s : Bytes) :
    ∃ t, scanWhole (s.flatMap stringifyByte) = some t ∧ 0 ∉ t ∧ s.length ≤ t.length := by
  have hbyte : ∀ c, (scanWhole (stringifyByte c)).any (fun t => 0 ∉ t ∧ 1 ≤ t.length) = true :=
    forall_byte (by decide +kernel)
  induction s with
  | nil => exact ⟨[], rfl, List.not_mem_nil, Nat.le_refl 0⟩
  | cons c s ih =>
    obtain ⟨t, ht, hnul, hlength⟩ := ih
    have hc := hbyte c
    cases hu : scanWhole (stringifyByte c) with
    | none =>
      rw [hu] at hc
      cases hc
    | some u =>
      rw [hu] at hc
      obtain ⟨hnul', hlength'⟩ := of_decide_eq_true hc
      refine ⟨u ++ t, scanWhole_append hu ht, ?_, ?_⟩
      · rw [List.mem_append, not_or]
        exact ⟨hnul', hnul⟩
      · rw [List.length_append, List.length_cons]
        omega

/-- **Which texts are stored as they are**: those without control characters other than the
    three that the scanner has letters for. -/
theorem scanned_iff {s : JsString} (hs : isWellFormed s = true) :
    (scanned s = toWire s ↔ ∀ c ∈ toWire s, Legible c) ∧
      (cStr (scanned s) = cStr (toWire s) ↔ ∀ c ∈ toWire s, Legible c) := by
  have hback : s = utf16 (scalars s) := (of_decide_eq_true hs).symm
  have hscan : scanWhole ((toWire s).flatMap stringifyByte) = some (scanned s) := by
    have hwire := toWire_quoteUnits (scalars s)
    rw [← hback] at hwire
    rw [← scanWhole_quoteUnits, hwire]
    rfl
  obtain ⟨t, ht, hiff⟩ := exists_scanWhole_flatMap readsByte_stringifyByte (toWire s)
  obtain ⟨u, hu, hnul, hlength⟩ := exists_scanWhole_stringify (toWire s)
  obtain rfl : scanned s = t := Option.some.inj (hscan.symm.trans ht)
  obtain rfl : scanned s = u := Option.some.inj (hscan.symm.trans hu)
  refine ⟨hiff, fun h => hiff.mp ?_, fun h => by rw [hiff.mpr h]⟩
  -- What is bound of the text is no longer than the text, so the text has no NUL.
  have hbytes : scanned s = (toWire s).takeWhile (· != 0) := by
    have hb := congrArg CString.bytes h
    rwa [cStr_of_noNul hnul] at hb
  have hprefix : (toWire s).takeWhile (· != 0) <+: toWire s := List.takeWhile_prefix _
  rw [hbytes] at hlength ⊢
  exact hprefix.eq_of_length_le hlength

/-! ### Result -/

/-- **Which texts the scanner reads back**: those without control characters other than the
    three that it has letters for, from `json_escape` as from `JSON.stringify`. -/
theorem scanner_undoes_escapes_iff (key : Bytes) :
    (∀ s : Bytes, extractString (objectText key (jsonEscape s)) key = s ↔
      ∀ c ∈ s, Legible c) ∧
    ∀ cs : List Char, extractString (objectText key (toWire (quoteUnits (utf16 cs)))) key = utf8 cs ↔
      ∀ c ∈ utf8 cs, Legible c := by
  constructor
  · intro s
    obtain ⟨t, ht, hiff⟩ := exists_scanWhole_flatMap readsByte_escapeByte s
    rwa [jsonEscape, extractString_objectText key ht]
  · intro cs
    obtain ⟨t, ht, hiff⟩ := exists_scanWhole_flatMap readsByte_stringifyByte (utf8 cs)
    rwa [toWire_quoteUnits, extractString_objectText key ht]

/-- A `\u` escape is read as the letter and its digits. -/
theorem not_forall_extractString_jsonEscape :
    ¬ ∀ key s : Bytes, (∀ c ∈ key, c = 0x5F ∨ (0x61 ≤ c ∧ c ≤ 0x7A) ∨ (0x41 ≤ c ∧ c ≤ 0x5A)) →
      extractString (objectText key (jsonEscape s)) key = s := by
  intro h
  exact absurd (h (lit "payload") [0x01] (by decide +kernel)) (by decide +kernel)

end Frag
