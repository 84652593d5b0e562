import Frag.Backend.Text
import Frag.Library.Json

/-!
# Emitted JSON

The list of fragments that a GET returns is a JSON text, and it decodes to the fragments:
every byte of a text passes through `json_escape` and the escapes of JSON unchanged, and
the numbers are read exactly.

## Main results

- `string?_jsonEscape`: any text is read back up to its closing quote;
- `parse_fragmentsArray`: any list of fragments is read back.
-/

namespace Frag

open Json (value member string? chars text push)

/-! ## Texts -/

/-- How a byte is written in a string. -/
def itemOf (c : UInt8) : Json.Item :=
  if c < 0x20 ∧ c ≠ 0x0A ∧ c ≠ 0x0D ∧ c ≠ 0x09 then .inr (.ofNat c.toNat) else .inl c

/-- The digits of a control character. -/
private theorem hexUnit_hexDigit {c : UInt8} (h : c < 0x20) :
    Json.hexUnit 0x30 0x30 (hexDigit (c / 16)) (hexDigit (c % 16)) = some (.ofNat c.toNat) := by
  have hall : ∀ n : Fin 32, Json.hexUnit 0x30 0x30 (hexDigit (.ofNat n / 16))
      (hexDigit (.ofNat n % 16)) = some (.ofNat n) := by decide
  have hlt : c.toNat < 32 := UInt8.lt_iff_toNat_lt.mp h
  -- The bytes below 0x20 are checked one by one.
  simpa using hall ⟨c.toNat, hlt⟩

theorem chars_escapeByte (c : UInt8) (s : Bytes) :
    chars (escapeByte c ++ s) = (chars s).map (push (itemOf c)) := by
  -- The cases of `json_escape` in its order.
  by_cases hquote : c = 0x22
  · subst hquote
    exact Json.chars_escaped (by decide) s
  by_cases hbackslash : c = 0x5C
  · subst hbackslash
    exact Json.chars_escaped (by decide) s
  by_cases hline : c = 0x0A
  · subst hline
    exact Json.chars_escaped (by decide) s
  by_cases hreturn : c = 0x0D
  · subst hreturn
    exact Json.chars_escaped (by decide) s
  by_cases htab : c = 0x09
  · subst htab
    exact Json.chars_escaped (by decide) s
  by_cases hcontrol : c < 0x20
  · have hprefix : lit "\\u00" = [0x5C, 0x75, 0x30, 0x30] := by decide
    simp only [escapeByte, if_neg hquote, if_neg hbackslash, if_neg hline, if_neg hreturn,
      if_neg htab, if_pos hcontrol, hprefix, itemOf]
    rw [if_pos ⟨hcontrol, hline, hreturn, htab⟩]
    exact Json.chars_unit (hexUnit_hexDigit hcontrol) s
  · simp only [escapeByte, if_neg hquote, if_neg hbackslash, if_neg hline, if_neg hreturn,
      if_neg htab, if_neg hcontrol, itemOf]
    rw [if_neg fun h => hcontrol h.1]
    exact Json.chars_byte hcontrol hquote hbackslash s

theorem chars_jsonEscape (s rest : Bytes) :
    chars (jsonEscape s ++ 0x22 :: rest) = some (s.map itemOf, rest) := by
  induction s with
  | nil => exact Json.chars_quote rest
  | cons c s ih =>
    rw [jsonEscape] at ih
    rw [jsonEscape, List.flatMap_cons, List.append_assoc, chars_escapeByte, ih]
    rfl

theorem text_map_itemOf (s : Bytes) : text (s.map itemOf) = s := by
  induction s with
  | nil => rfl
  | cons c s ih =>
    rw [List.map_cons, itemOf]
    split
    · rename_i hcontrol
      have hlt : c.toNat < 0x20 := UInt8.lt_iff_toNat_lt.mp hcontrol.1
      have hunit : (UInt16.ofNat c.toNat).toNat = c.toNat := by
        rw [UInt16.toNat_ofNat', Nat.mod_eq_of_lt (by omega)]
      -- The escape of a control character stands for its one byte.
      rw [Json.text_ascii (by omega), hunit, ih, UInt8.ofNat_toNat]
    · rw [text, ih]

/-- **Any text is read back**, whatever bytes it has. -/
theorem string?_jsonEscape (s rest : Bytes) : string? (jsonEscape s ++ 0x22 :: rest) = some (s, rest) := by
  rw [string?, chars_jsonEscape, Option.map_some, text_map_itemOf]

/-! ## Numbers -/

theorem value_showInt (n : Nat) (k : Int) {rest : Bytes} (h : Json.EndsNumber rest) :
    value (n + 1) (showInt k ++ rest) = some (.number k 0, rest) := by
  by_cases hneg : k < 0
  · have hvalue : -(k.natAbs : Int) = k := by omega
    have hdigits := Json.unsigned_digits true k.natAbs h
    rw [if_pos rfl, hvalue] at hdigits
    rw [showInt, if_pos hneg, List.cons_append, Json.value_number (.inl rfl), Json.number?,
      if_pos rfl, hdigits]
  · have hvalue : (k.natAbs : Int) = k := by omega
    have hdigits := Json.unsigned_digits false k.natAbs h
    rw [if_neg Bool.false_ne_true, hvalue] at hdigits
    -- Without a sign the number starts with a digit.
    obtain ⟨d, ds, hds⟩ := List.exists_cons_of_ne_nil (Decimal.digits_ne_nil k.natAbs)
    have hdigit : Decimal.isDigit d = true :=
      Decimal.isDigit_of_mem_digits (hds ▸ List.mem_cons_self)
    have hminus : d ≠ 0x2D := by
      rintro rfl
      exact absurd hdigit (by decide)
    rw [hds, List.cons_append] at hdigits
    rw [showInt, if_neg hneg, hds, List.cons_append, Json.value_number (.inr hdigit), Json.number?,
      if_neg hminus, hdigits]

/-! ## Fragments -/

/-- A member as it is written, and what it says. -/
structure Written where
  name : Bytes
  emitted : Bytes
  value : Json

/-- The text of a member. -/
def Written.emit (m : Written) : Bytes := 0x22 :: (m.name ++ 0x22 :: 0x3A :: m.emitted)

def writtenText (name : String) (s : Bytes) : Written :=
  ⟨lit name, 0x22 :: (jsonEscape s ++ [0x22]), .string s⟩

def writtenInt (name : String) (n : Int) : Written := ⟨lit name, showInt n, .number n 0⟩

/-- The seven members of a fragment. -/
def written (f : Fragment Bytes) : List Written :=
  [writtenText "id" f.id, writtenText "message_id" f.messageId, writtenText "chat_id" f.chatId,
    writtenText "sender_hash" f.senderHash, writtenText "payload" f.payload,
    writtenInt "timestamp" f.timestamp, writtenInt "ttl" f.ttl]

/-- A fragment as a JSON value. -/
def decoded (f : Fragment Bytes) : Json :=
  .object [(lit "id", .string f.id), (lit "message_id", .string f.messageId),
    (lit "chat_id", .string f.chatId), (lit "sender_hash", .string f.senderHash),
    (lit "payload", .string f.payload), (lit "timestamp", .number f.timestamp 0),
    (lit "ttl", .number f.ttl 0)]

theorem fragmentToJson_eq (f : Fragment Bytes) :
    fragmentToJson f = 0x7B :: ([0x2C].intercalate ((written f).map Written.emit) ++ [0x7D]) := by
  simp only [fragmentToJson, written, Written.emit, writtenText, writtenInt, List.map_cons,
    List.map_nil, List.intercalate_cons_cons, List.intercalate_singleton, List.append_assoc,
    List.cons_append, List.nil_append]
  rfl

/-- What follows a member. -/
private theorem endsNumber_of_separator {c : UInt8} (hc : c = 0x2C ∨ c = 0x7D) (s : Bytes) :
    Json.EndsNumber (c :: s) := by
  intro d hd
  obtain rfl := Option.some.inj hd
  rcases hc with rfl | rfl <;> decide

theorem member_writtenText {name : String} (hname : jsonEscape (lit name) = lit name) (n : Nat)
    (t s : Bytes) :
    member (value (n + 1)) ((writtenText name t).emit ++ s) = some ((lit name, .string t), s) := by
  have hemit : (writtenText name t).emit ++ s =
      0x22 :: (jsonEscape (lit name) ++ 0x22 :: 0x3A :: 0x22 :: (jsonEscape t ++ 0x22 :: s)) := by
    simp [Written.emit, writtenText, hname]
  rw [hemit]
  exact Json.member_eq (string?_jsonEscape _ _) (Json.value_string (string?_jsonEscape t s))

theorem member_writtenInt {name : String} (hname : jsonEscape (lit name) = lit name) (n : Nat)
    (k : Int) {s : Bytes} (hs : Json.EndsNumber s) :
    member (value (n + 1)) ((writtenInt name k).emit ++ s) = some ((lit name, .number k 0), s) := by
  have hemit : (writtenInt name k).emit ++ s =
      0x22 :: (jsonEscape (lit name) ++ 0x22 :: 0x3A :: (showInt k ++ s)) := by
    simp [Written.emit, writtenInt, hname]
  rw [hemit]
  exact Json.member_eq (string?_jsonEscape _ _) (value_showInt n k hs)

/-- A member is read back when a comma or a brace follows. -/
theorem member_written (n : Nat) (f : Fragment Bytes) : ∀ m ∈ written f, ∀ c s,
    c = 0x2C ∨ c = 0x7D →
      member (value (n + 1)) (m.emit ++ c :: s) = some ((m.name, m.value), c :: s) := by
  intro m hm c s hc
  have hs := endsNumber_of_separator hc s
  simp only [written, List.mem_cons, List.not_mem_nil, or_false] at hm
  -- Five texts and two numbers.
  rcases hm with rfl | rfl | rfl | rfl | rfl | rfl | rfl
  · exact member_writtenText (by decide) n _ _
  · exact member_writtenText (by decide) n _ _
  · exact member_writtenText (by decide) n _ _
  · exact member_writtenText (by decide) n _ _
  · exact member_writtenText (by decide) n _ _
  · exact member_writtenInt (by decide) n _ hs
  · exact member_writtenInt (by decide) n _ hs

theorem value_fragmentToJson (n : Nat) (f : Fragment Bytes) (s : Bytes) :
    value (n + 2) (fragmentToJson f ++ s) = some (decoded f, s) := by
  -- No member starts with the closing brace, and each is read up to its separator.
  have hmembers : Json.sequence (member (value (n + 1))) 0x7D
      ([0x2C].intercalate ((written f).map Written.emit) ++ 0x7D :: s) =
        some ((written f).map fun m => (m.name, m.value), s) :=
    Json.sequence_intercalate (by decide) (by decide)
      (fun m _ => ⟨0x22, _, rfl, by decide, by decide⟩) (member_written n f) s
  rw [fragmentToJson_eq, List.cons_append, List.append_assoc, List.singleton_append]
  exact Json.value_object hmembers

/-- **The emitted JSON decodes to the fragments**: an array of the same length, in the same
    order, whose objects have the seven members with the original values. -/
theorem parse_fragmentsArray (l : List (Fragment Bytes)) :
    Json.parse (fragmentsArray l) = some (.array (l.map decoded)) := by
  -- Fuel 3 is enough: an array of objects of texts and numbers.
  have helements : Json.sequence (value 2) 0x5D
      ([0x2C].intercalate (l.map fragmentToJson) ++ 0x5D :: []) = some (l.map decoded, []) :=
    Json.sequence_intercalate (by decide) (by decide)
      (fun f _ => ⟨0x7B, _, fragmentToJson_eq f, by decide, by decide⟩)
      (fun f _ c s _ => value_fragmentToJson 0 f (c :: s)) []
  exact Json.parse_of_value (Json.value_array helements) rfl

end Frag
