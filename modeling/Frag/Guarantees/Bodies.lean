import Frag.Backend.Server
import Frag.Client.Request

/-!
# Bodies

What the client reads of the texts that `json_escape` and `json_build` write. The backend escapes
bytes, and the client decodes the bytes before it parses the text. The two steps commute: an
ASCII byte is decoded on its own, and only ASCII bytes are escaped.

## Main results

- `fromWire_jsonEscape`: the escaped text, decoded;
- `textDecode_fragmentsArray`: the answer to a GET, decoded;
- `jsonParse_escaped`: what `JSON.parse` makes of such a text.
-/

namespace Frag

open Unicode
open JsonText (Data Writes Builder widen)

/-! ## Decoding around ASCII bytes -/

def isAscii (l : Bytes) : Bool := l.all fun b => b.toNat < 0x80

theorem isAscii_cons {b : UInt8} {l : Bytes} : isAscii (b :: l) = true ↔ b.toNat < 0x80 ∧ isAscii l = true := by
  rw [isAscii, List.all_cons, Bool.and_eq_true, decide_eq_true_eq, isAscii]

theorem fromWire_append_ascii (a : Bytes) {b : UInt8} (hb : b.toNat < 0x80) (t : Bytes) :
    fromWire (a ++ b :: t) = fromWire a ++ .ofNat b.toNat :: fromWire t := by
  have hunits : utf16Units (.ofNat b.toNat) = [.ofNat b.toNat] := by
    rw [utf16Units, toNat_charOfNat hb, if_pos (by omega)]
  rw [fromWire, utf8Decode_append_ascii a hb, utf16_append, utf16_cons, hunits]
  rfl

theorem fromWire_ascii_append {l : Bytes} (hl : isAscii l = true) (t : Bytes) :
    fromWire (l ++ t) = widen l ++ fromWire t := by
  induction l with
  | nil => rfl
  | cons b l ih =>
    obtain ⟨hb, hl⟩ := isAscii_cons.mp hl
    have htail := ih hl
    have hhead := fromWire_append_ascii [] hb (l ++ t)
    rw [List.cons_append, ← List.nil_append (b :: (l ++ t)), hhead, htail]
    rfl

/-- ASCII text in the middle ends what stands before it. -/
theorem fromWire_append_append {l : Bytes} (hne : l ≠ []) (hl : isAscii l = true) (a t : Bytes) :
    fromWire (a ++ (l ++ t)) = fromWire a ++ (widen l ++ fromWire t) := by
  obtain ⟨b, l, rfl⟩ := List.exists_cons_of_ne_nil hne
  obtain ⟨hb, hl⟩ := isAscii_cons.mp hl
  rw [List.cons_append, fromWire_append_ascii a hb, fromWire_ascii_append hl]
  rfl

theorem fromWire_ascii {l : Bytes} (hl : isAscii l = true) : fromWire l = widen l := by
  have h := fromWire_ascii_append hl []
  have hnil : fromWire [] = [] := rfl
  rwa [List.append_nil, hnil, List.append_nil] at h

/-- No byte order mark is removed from a text that starts with ASCII. -/
theorem textDecode_eq_fromWire {b : UInt8} (hb : b.toNat < 0x80) (t : Bytes) :
    textDecode (b :: t) = fromWire (b :: t) := by
  have hdecode : utf8Decode (b :: t) = .ofNat b.toNat :: utf8Decode t :=
    utf8Decode_append_ascii [] hb t
  have hmark : Char.ofNat b.toNat ≠ byteOrderMark := by
    intro heq
    have hcode := congrArg Char.toNat heq
    rw [toNat_charOfNat hb] at hcode
    exact absurd (hcode ▸ hb) (by decide)
  rw [textDecode, hdecode, dropByteOrderMark, if_neg hmark, fromWire, hdecode]

theorem textDecode_append {l : Bytes} (hne : l ≠ []) (hl : isAscii l = true) (t : Bytes) :
    textDecode (l ++ t) = widen l ++ fromWire t := by
  obtain ⟨b, l, rfl⟩ := List.exists_cons_of_ne_nil hne
  rw [← fromWire_ascii_append hl, List.cons_append, textDecode_eq_fromWire (isAscii_cons.mp hl).1]

/-! ## Escapes -/

/-- What `json_escape` makes of a unit. -/
def escapeUnit (u : UInt16) : JsString :=
  if u.toNat < 0x80 then widen (escapeByte (.ofNat u.toNat)) else [u]

/-- What `json_escape` makes of a text, decoded. -/
def escapeUnits (s : JsString) : JsString := s.flatMap escapeUnit

/-- Only ASCII bytes are escaped, and by ASCII bytes. -/
theorem escapeByte_ascii : ∀ c : UInt8, if c.toNat < 0x80 then
    escapeByte c ≠ [] ∧ isAscii (escapeByte c) = true else escapeByte c = [c] :=
  forall_byte (by decide +kernel)

theorem escapeUnit_ofNat {c : UInt8} (hc : c.toNat < 0x80) :
    escapeUnit (.ofNat c.toNat) = widen (escapeByte c) := by
  have hunit : (UInt16.ofNat c.toNat).toNat = c.toNat := by
    rw [UInt16.toNat_ofNat', Nat.mod_eq_of_lt (by omega)]
  rw [escapeUnit, hunit, if_pos hc, UInt8.ofNat_toNat]

/-- Bytes from 0x80 on are decoded to units that are not escaped. -/
theorem escapeUnits_fromWire_of_high {bs : Bytes} (h : ∀ b ∈ bs, 0x80 ≤ b.toNat) :
    escapeUnits (fromWire bs) = fromWire bs := by
  have hsingle : ∀ u ∈ fromWire bs, escapeUnit u = [u] := by
    intro u hu
    apply if_neg
    intro hlow
    obtain ⟨c, hc, huc⟩ := List.mem_flatMap.mp hu
    have hcu := toNat_of_mem_utf16 huc hlow
    have hbyte := h _ (mem_of_mem_utf8Decode hc (hcu ▸ hlow))
    rw [UInt8.toNat_ofNat', Nat.mod_eq_of_lt (by omega)] at hbyte
    omega
  rw [escapeUnits, List.flatMap_congr hsingle, List.flatMap_singleton']

/-- **Escaping and decoding commute.** -/
theorem fromWire_jsonEscape (s : Bytes) : fromWire (jsonEscape s) = escapeUnits (fromWire s) := by
  -- Bytes from 0x80 on are decoded together with those before them.
  suffices h : ∀ high : Bytes, (∀ b ∈ high, 0x80 ≤ b.toNat) →
      fromWire (high ++ jsonEscape s) = escapeUnits (fromWire (high ++ s)) from
    h [] fun b hb => by cases hb
  induction s with
  | nil =>
    intro high hhigh
    rw [jsonEscape, List.flatMap_nil, List.append_nil, escapeUnits_fromWire_of_high hhigh]
  | cons c s ih =>
    intro high hhigh
    have hc := escapeByte_ascii c
    rw [jsonEscape, List.flatMap_cons, ← jsonEscape]
    split at hc
    · rename_i hascii
      have htail := ih [] fun b hb => by cases hb
      rw [List.nil_append, List.nil_append] at htail
      rw [fromWire_append_append hc.1 hc.2, fromWire_append_ascii high hascii, escapeUnits,
        List.flatMap_append, List.flatMap_cons, escapeUnit_ofNat hascii, ← escapeUnits, ← escapeUnits,
        escapeUnits_fromWire_of_high hhigh, htail]
    · rename_i hhighByte
      have hmore := ih (high ++ [c]) fun b hb => by
        rcases List.mem_append.mp hb with hb | hb
        · exact hhigh b hb
        · rw [List.mem_singleton.mp hb]
          omega
      rw [hc, ← List.append_assoc, hmore, List.append_assoc, List.singleton_append]

private theorem hexValue_hexDigit : ∀ n : Fin 32,
    JsonText.hexValue (.ofNat (hexDigit (.ofNat n / 16)).toNat) = some (n.val / 16) ∧
      JsonText.hexValue (.ofNat (hexDigit (.ofNat n % 16)).toNat) = some (n.val % 16) := by decide

/-- An escaped byte is read as its unit. -/
theorem writes_escapeByte (B : Builder JsValue) {c : UInt8} (hc : c.toNat < 0x80) :
    Writes B (widen (escapeByte c)) [.ofNat c.toNat] := by
  -- The escapes of `json_escape` in its order.
  by_cases hquote : c = 0x22
  · subst hquote
    exact Writes.escaped (by decide)
  by_cases hbackslash : c = 0x5C
  · subst hbackslash
    exact Writes.escaped (by decide)
  by_cases hline : c = 0x0A
  · subst hline
    exact Writes.escaped (by decide)
  by_cases hreturn : c = 0x0D
  · subst hreturn
    exact Writes.escaped (by decide)
  by_cases htab : c = 0x09
  · subst htab
    exact Writes.escaped (by decide)
  by_cases hcontrol : c < 0x20
  · have hlt : c.toNat < 32 := UInt8.lt_iff_toNat_lt.mp hcontrol
    obtain ⟨hhigh, hlow⟩ := hexValue_hexDigit ⟨c.toNat, hlt⟩
    rw [UInt8.ofNat_toNat] at hhigh hlow
    have hwrites := Writes.unicode (B := B) (show JsonText.hexValue 0x30 = some 0 by decide)
      (show JsonText.hexValue 0x30 = some 0 by decide) hhigh hlow
    have hvalue : 16 * (16 * (16 * (16 * 0 + 0) + 0) + c.toNat / 16) + c.toNat % 16 = c.toNat := by omega
    rw [hvalue] at hwrites
    rw [escapeByte, if_neg hquote, if_neg hbackslash, if_neg hline, if_neg hreturn, if_neg htab,
      if_pos hcontrol]
    exact hwrites
  · have hunit : (UInt16.ofNat c.toNat).toNat = c.toNat := by
      rw [UInt16.toNat_ofNat', Nat.mod_eq_of_lt (by omega)]
    have hother : ∀ b : UInt8, c ≠ b → UInt16.ofNat c.toNat ≠ .ofNat b.toNat := by
      intro b hne heq
      have htoNat := congrArg UInt16.toNat heq
      rw [hunit, UInt16.toNat_ofNat', Nat.mod_eq_of_lt (Nat.lt_of_lt_of_le b.toNat_lt (by decide))] at htoNat
      exact hne (UInt8.toNat_inj.mp htoNat)
    rw [escapeByte, if_neg hquote, if_neg hbackslash, if_neg hline, if_neg hreturn, if_neg htab,
      if_neg hcontrol]
    refine Writes.unit ?_ (hother 0x22 hquote) (hother 0x5C hbackslash)
    rw [hunit]
    exact Nat.not_lt.mp fun h => hcontrol (UInt8.lt_iff_toNat_lt.mpr h)

/-- **What `json_escape` writes is read back**, decoded. -/
theorem writes_escapeUnits (B : Builder JsValue) (s : JsString) : Writes B (escapeUnits s) s := by
  have hunit : ∀ u : UInt16, Writes B (escapeUnit u) [u] := by
    intro u
    unfold escapeUnit
    split
    · rename_i hascii
      have hbyte : (UInt8.ofNat u.toNat).toNat = u.toNat := by
        rw [UInt8.toNat_ofNat', Nat.mod_eq_of_lt (by omega)]
      have hwrites := writes_escapeByte B (c := .ofNat u.toNat) (by omega)
      rwa [hbyte, UInt16.ofNat_toNat] at hwrites
    · rename_i hhigh
      refine Writes.unit (by omega) ?_ ?_ <;> rintro rfl <;> exact hhigh (by decide)
  induction s with
  | nil => exact Writes.nil
  | cons u s ih => exact (hunit u).append ih

/-- **`JSON.parse` of a text of the backend.** -/
theorem jsonParse_escaped (d : Data) : jsonParse (d.text escapeUnits) = some (d.value jsBuilder) :=
  d.parse_text (writes_escapeUnits jsBuilder)

/-! ## Fragments -/

/-- The object that `fragment_to_json` writes. -/
def Fragment.toData (f : Fragment JsString) : Data :=
  .object [(js "id", .string f.id), (js "message_id", .string f.messageId),
    (js "chat_id", .string f.chatId), (js "sender_hash", .string f.senderHash),
    (js "payload", .string f.payload), (js "timestamp", .integer f.timestamp), (js "ttl", .integer f.ttl)]

theorem fromWire_showInt (n : Int) : fromWire (showInt n) = widen (JsonText.integer n) := by
  have hsame : showInt n = JsonText.integer n := rfl
  rw [hsame]
  apply fromWire_ascii
  refine List.all_eq_true.mpr fun b hb => decide_eq_true ?_
  rcases JsonText.mem_integer hb with rfl | hdigit
  · decide
  · have hb := Decimal.isDigit_iff.mp hdigit
    omega

theorem fromWire_fragmentToJson (f : Fragment Bytes) (t : Bytes) :
    fromWire (fragmentToJson f ++ t) = (f.map fromWire).toData.text escapeUnits ++ fromWire t := by
  have hname : ∀ n ∈ ["id", "message_id", "chat_id", "sender_hash", "payload", "timestamp", "ttl"].map js,
      escapeUnits n = n := by decide
  simp only [List.map_cons, List.map_nil, List.forall_mem_cons] at hname
  obtain ⟨hid, hmessageId, hchatId, hsenderHash, hpayload, htimestamp, httl, -⟩ := hname
  simp (disch := decide) only [fragmentToJson, List.append_assoc, fromWire_append_append,
    fromWire_ascii_append, fromWire_jsonEscape, fromWire_showInt]
  simp only [Fragment.toData, Fragment.map, Data.text, Data.memberTexts, hid, hmessageId, hchatId,
    hsenderHash, hpayload, htimestamp, httl, List.intercalate_cons_cons, List.intercalate_singleton,
    List.append_assoc, List.cons_append, List.nil_append]
  rfl

/-- The elements of `fragments_array`, separated by commas. -/
theorem fromWire_intercalate (l : List (Fragment Bytes)) (t : Bytes) :
    fromWire ((lit ",").intercalate (l.map fragmentToJson) ++ t) =
      [0x2C].intercalate (Data.itemTexts escapeUnits (l.map fun f => (f.map fromWire).toData)) ++
        fromWire t := by
  induction l with
  | nil => rfl
  | cons f l ih =>
    cases l with
    | nil =>
      rw [List.map_singleton, List.map_singleton, List.intercalate_singleton, Data.itemTexts,
        Data.itemTexts, List.intercalate_singleton, fromWire_fragmentToJson]
    | cons f' l =>
      have hcomma : lit "," = [0x2C] := by decide
      rw [List.map_cons] at ih
      rw [List.map_cons, List.map_cons, List.intercalate_cons_cons, List.append_assoc,
        List.append_assoc, fromWire_fragmentToJson, fromWire_ascii_append (by decide), ih]
      simp only [List.map_cons, Data.itemTexts, List.intercalate_cons_cons, List.append_assoc, hcomma]
      rfl

/-- **The answer to a GET, decoded.** -/
theorem textDecode_fragmentsArray (l : List (Fragment Bytes)) : textDecode (fragmentsArray l) =
    (Data.array (l.map fun f => (f.map fromWire).toData)).text escapeUnits := by
  rw [fragmentsArray, List.append_assoc, textDecode_append (by decide) (by decide), fromWire_intercalate,
    Data.text]
  rfl

/-- The values of the fragments; their numbers are doubles. -/
theorem value_fragments {l : List (Fragment JsString)}
    (h : ∀ f ∈ l, |f.timestamp| < 2 ^ 53 ∧ |f.ttl| < 2 ^ 53) :
    (Data.array (l.map Fragment.toData)).value jsBuilder = .array (l.map Fragment.toJs) := by
  have hitems : Data.itemValues jsBuilder (l.map Fragment.toData) = l.map Fragment.toJs := by
    induction l with
    | nil => rfl
    | cons f l ih =>
      obtain ⟨htimestamp, httl⟩ := h f List.mem_cons_self
      have hf : f.toData.value jsBuilder = f.toJs := by
        simp only [Fragment.toData, Data.value, Data.memberValues, jsBuilder,
          JsNumber.ofDecimal_of_lt htimestamp, JsNumber.ofDecimal_of_lt httl, Fragment.toJs]
      rw [List.map_cons, List.map_cons, Data.itemValues, hf,
        ih fun f' hf' => h f' (List.mem_cons_of_mem _ hf')]
  rw [Data.value, hitems]
  rfl

end Frag
