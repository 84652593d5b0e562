import Frag.Basic
import Frag.Library.Decimal
import Frag.Library.Scan

/-!
# Request Bodies

What `network.js` sends for a fragment: `JSON.stringify` of the object that
`sendMessage` builds, as UTF-8. The members are in the order of the object literal and
no white space stands between them.

`JSON.stringify` escapes quotes, backslashes and control characters. It also writes a
lone surrogate as an escape, so its result is always well-formed.

## Main results

- `wireSafe_quoteUnits`: a text in quotes is written without control characters.
-/

namespace Frag

open Unicode Scan

/-! ## `JSON.stringify` -/

/-- A hexadecimal digit. -/
def hexUnit (n : Nat) : UInt16 := .ofNat (if n < 10 then 0x30 + n else 0x57 + n)

/-- `UnicodeEscape`: a code unit as `\uxxxx`. -/
def unicodeEscape (u : UInt16) : JsString :=
  let n := u.toNat
  js "\\u" ++ [hexUnit (n / 4096), hexUnit (n / 256 % 16), hexUnit (n / 16 % 16), hexUnit (n % 16)]

/-- A code unit that is not part of a surrogate pair, in quotes. -/
def quoteUnit (u : UInt16) : JsString :=
  if u = 0x08 then js "\\b"
  else if u = 0x09 then js "\\t"
  else if u = 0x0A then js "\\n"
  else if u = 0x0C then js "\\f"
  else if u = 0x0D then js "\\r"
  else if u = 0x22 then js "\\\""
  else if u = 0x5C then js "\\\\"
  else if u.toNat < 0x20 || isLeadSurrogate u || isTrailSurrogate u then unicodeEscape u
  else [u]

/-- The code units of a text, in quotes. -/
def quoteUnits : JsString → JsString
  | [] => []
  | [u] => quoteUnit u
  | u :: v :: s =>
    if isLeadSurrogate u && isTrailSurrogate v then u :: v :: quoteUnits s
    else quoteUnit u ++ quoteUnits (v :: s)

/-- `QuoteJSONString` -/
def quoteJson (s : JsString) : JsString := js "\"" ++ (quoteUnits s ++ js "\"")

/-- A number that is an integer of magnitude below 2^53: all its digits are written. -/
def numberText (n : Int) : JsString :=
  if n < 0 then js "-" ++ decimal n.natAbs else decimal n.natAbs

/-- `JSON.stringify(fragment)` -/
def stringify (p : FragmentPost JsString) : JsString :=
  js "\x7b\"id\":" ++ (quoteJson p.id ++ (js ",\"message_id\":" ++ (quoteJson p.messageId ++
    (js ",\"chat_id\":" ++ (quoteJson p.chatId ++ (js ",\"sender_hash\":" ++
      (quoteJson p.senderHash ++ (js ",\"payload\":" ++ (quoteJson p.payload ++
        (js ",\"ttl\":" ++ (numberText p.ttl ++ js "\x7d")))))))))))

/-- The bytes that `fetch` sends as the body of the POST. -/
def requestBody (p : FragmentPost JsString) : Bytes := toWire (stringify p)

/-! ## Texts without control characters -/

/-- No code unit is a control character that JSON must escape. -/
def NoControl (s : JsString) : Prop := ∀ u ∈ s, 0x20 ≤ u.toNat

instance (s : JsString) : Decidable (NoControl s) :=
  List.decidableBAll (fun u : UInt16 => 0x20 ≤ u.toNat) s

theorem wireSafe_iff {s : JsString} : WireSafe s ↔ isWellFormed s = true ∧ NoControl s := by
  constructor
  · intro h
    refine ⟨isWellFormed_of_wireSafe h, fun u hu => ?_⟩
    obtain ⟨cs, rfl, hcs⟩ := h
    obtain ⟨c, hc, huc⟩ := List.mem_flatMap.mp hu
    -- A unit below 0x20 can only be that of a control character.
    by_contra hlow
    have hcu := toNat_of_mem_utf16 huc (by omega)
    have hcontrol := hcs c hc
    omega
  · rintro ⟨hwf, hs⟩
    have hback : s = utf16 (scalars s) := (of_decide_eq_true hwf).symm
    refine ⟨scalars s, hback, fun c hc => ?_⟩
    -- A control character would be a unit of the text.
    by_contra hlow
    have hunit : utf16Units c = [.ofNat c.toNat] := if_pos (by omega)
    have hmem : UInt16.ofNat c.toNat ∈ s := by
      rw [hback]
      exact List.mem_flatMap.mpr ⟨c, hc, by simp [hunit]⟩
    have hle := hs _ hmem
    rw [UInt16.toNat_ofNat', Nat.mod_eq_of_lt (by omega)] at hle
    omega

theorem toWire_utf16_append (cs : List Char) (s : JsString) :
    toWire (utf16 cs ++ s) = utf8 cs ++ toWire s := by
  rw [toWire, scalars_utf16_append, utf8_append]
  rfl

theorem quoteUnits_cons {u : UInt16} (hu : isLeadSurrogate u = false) (s : JsString) :
    quoteUnits (u :: s) = quoteUnit u ++ quoteUnits s := by
  cases s with
  | nil => simp [quoteUnits]
  | cons v s => simp [quoteUnits, hu]

/-- Of the units that are written, quotes and backslashes get a backslash. -/
theorem quoteUnit_of_le {u : UInt16} (hlow : 0x20 ≤ u.toNat)
    (hl : isLeadSurrogate u = false) (ht : isTrailSurrogate u = false) :
    quoteUnit u = if u = 0x22 ∨ u = 0x5C then [0x5C, u] else [u] := by
  -- None of the five control characters with an escape of their own.
  have hcontrol : ∀ c : UInt16, c.toNat < 0x20 → u ≠ c := by
    rintro c hc rfl
    omega
  unfold quoteUnit
  rw [if_neg (hcontrol _ (by decide)), if_neg (hcontrol _ (by decide)),
    if_neg (hcontrol _ (by decide)), if_neg (hcontrol _ (by decide)), if_neg (hcontrol _ (by decide))]
  by_cases hquote : u = 0x22
  · subst hquote
    decide
  by_cases hback : u = 0x5C
  · subst hback
    decide
  simp [hquote, hback, hl, ht, Nat.not_lt.mpr hlow]

/-! ## What is written -/

theorem WireSafe.append {s t : JsString} (hs : WireSafe s) (ht : WireSafe t) : WireSafe (s ++ t) := by
  obtain ⟨cs, rfl, hcs⟩ := hs
  obtain ⟨ds, rfl, hds⟩ := ht
  refine ⟨cs ++ ds, (utf16_append cs ds).symm, fun c hc => ?_⟩
  exact (List.mem_append.mp hc).elim (hcs c) (hds c)

theorem wireSafe_unicodeEscape (u : UInt16) : WireSafe (unicodeEscape u) := by
  have hdigit : ∀ d < 16, 0x20 ≤ (hexUnit d).toNat ∧ (hexUnit d).toNat < 0x80 := by decide
  have hlt : u.toNat < 65536 := u.toNat_lt
  apply wireSafe_of_ascii
  intro v hv
  have hhead : (js "\\u").all (fun v => 0x20 ≤ v.toNat && v.toNat < 0x80) = true := by decide
  rcases List.mem_append.mp hv with hv | hv
  · simpa using List.all_eq_true.mp hhead v hv
  · simp only [List.mem_cons, List.not_mem_nil, or_false] at hv
    rcases hv with rfl | rfl | rfl | rfl
    · exact hdigit _ (by omega)
    · exact hdigit _ (by omega)
    · exact hdigit _ (by omega)
    · exact hdigit _ (by omega)

/-- A surrogate without the other half is escaped. -/
theorem quoteUnit_surrogate {u : UInt16} (h : isLeadSurrogate u = true ∨ isTrailSurrogate u = true) :
    quoteUnit u = unicodeEscape u := by
  have hne : ∀ c : UInt16, isLeadSurrogate c = false ∧ isTrailSurrogate c = false → u ≠ c := by
    rintro c ⟨hl, ht⟩ rfl
    simp [hl, ht] at h
  unfold quoteUnit
  rw [if_neg (hne _ (by decide)), if_neg (hne _ (by decide)), if_neg (hne _ (by decide)),
    if_neg (hne _ (by decide)), if_neg (hne _ (by decide)), if_neg (hne _ (by decide)),
    if_neg (hne _ (by decide)), if_pos]
  rcases h with h | h <;> simp [h]

/-- What is written for a unit is text without control characters. -/
theorem wireSafe_quoteUnit (u : UInt16) : WireSafe (quoteUnit u) := by
  by_cases hlow : u.toNat < 0x20
  · -- A control character is escaped, by its number or by a letter.
    have hall : ∀ n : Fin 32, quoteUnit (.ofNat n) = unicodeEscape (.ofNat n) ∨
        WireSafe (quoteUnit (.ofNat n)) := by decide +kernel
    have hu := hall ⟨u.toNat, hlow⟩
    rw [UInt16.ofNat_toNat] at hu
    rcases hu with hu | hu
    · rw [hu]
      exact wireSafe_unicodeEscape u
    · exact hu
  · by_cases hsurrogate : isLeadSurrogate u = true ∨ isTrailSurrogate u = true
    · rw [quoteUnit_surrogate hsurrogate]
      exact wireSafe_unicodeEscape u
    · rw [not_or, Bool.not_eq_true, Bool.not_eq_true] at hsurrogate
      obtain ⟨c, hunits, hc⟩ := exists_utf16Units_single hsurrogate.1 hsurrogate.2
      have hself : WireSafe [u] := by
        refine ⟨[c], by rw [utf16_cons, hunits]; rfl, fun d hd => ?_⟩
        rw [List.mem_singleton.mp hd]
        omega
      rw [quoteUnit_of_le (by omega) hsurrogate.1 hsurrogate.2]
      split
      · have hback : WireSafe [0x5C] := by decide
        exact hback.append hself
      · exact hself

/-- **What `JSON.stringify` writes** is well-formed text without control characters. -/
theorem wireSafe_quoteUnits (s : JsString) : WireSafe (quoteUnits s) := by
  fun_induction quoteUnits s with
  | case1 => exact ⟨[], rfl, nofun⟩
  | case2 u => exact wireSafe_quoteUnit u
  | case3 u v s hpair ih =>
    rw [Bool.and_eq_true] at hpair
    obtain ⟨c, hunits, hc⟩ := exists_utf16Units_pair hpair.1 hpair.2
    have hself : WireSafe [u, v] := by
      refine ⟨[c], by rw [utf16_cons, hunits]; rfl, fun d hd => ?_⟩
      rw [List.mem_singleton.mp hd]
      omega
    exact hself.append ih
  | case4 u v s _ ih => exact (wireSafe_quoteUnit u).append ih

theorem toWire_append {s : JsString} (h : WireSafe s) (t : JsString) :
    toWire (s ++ t) = toWire s ++ toWire t := by
  obtain ⟨cs, rfl, -⟩ := h
  have htext : toWire (utf16 cs) = utf8 cs := by rw [toWire, scalars_utf16]
  rw [toWire_utf16_append, htext]

theorem toWire_decimal (n : Nat) (t : JsString) :
    toWire (decimal n ++ t) = Decimal.digits n ++ toWire t := by
  have hascii : Ascii (Nat.toDigits 10 n) := fun c hc => by
    have hdigit := ascii_toDigits n c hc
    omega
  have hunits : decimal n = utf16 (Nat.toDigits 10 n) := (utf16_of_ascii hascii).symm
  rw [hunits, toWire_utf16_append, utf8_of_ascii hascii]
  rfl

theorem decimal_injective : Function.Injective decimal := by
  intro n m h
  have hdigits : ∀ k, Decimal.digits k = toWire (decimal k) := fun k => by
    have hwire := toWire_decimal k []
    have hempty : toWire [] = [] := rfl
    rw [List.append_nil, hempty, List.append_nil] at hwire
    exact hwire.symm
  rw [← Decimal.value_digits n, ← Decimal.value_digits m, hdigits, hdigits, h]

/-- The number in a fragment id is its position. -/
theorem fragmentId_inj {messageId : JsString} {i j : Nat} :
    fragmentId messageId i = fragmentId messageId j ↔ i = j := by
  constructor
  · intro h
    exact decimal_injective (List.append_cancel_left h)
  · rintro rfl
    rfl

end Frag
