import Frag.Library.Scan
import Frag.Library.Unicode
import Mathlib.Data.List.TakeWhile

/-!
# Texts and Fragments

The data both halves of the program exchange. The frontend handles JavaScript
strings (UTF-16 code units), the backend `std::string`s (bytes); a fragment has
the same seven members on either side, so it is one structure over its text type.

## Wire

A fragment travels as UTF-8 JSON. What JSON, HTTP and the query string do to the
*framing* of a text is not part of this module: `toWire` and `fromWire` are the
change of text type alone. `WireSafe` texts survive both, the truncation at the
first NUL byte by the backend's `c_str()` included.
-/

namespace Frag

open Unicode

/-! ## Texts -/

/-- `std::string` -/
abbrev Bytes := List UInt8

/-- A JavaScript string. -/
abbrev JsString := List UInt16

instance : LawfulBEq JsString := inferInstance

/-- A string literal of the frontend. -/
def js (s : String) : JsString := utf16 s.toList

/-- A number in a template literal. -/
def decimal (n : Nat) : JsString := (Nat.toDigits 10 n).map fun c => .ofNat c.toNat

/-! ## Fragments -/

/-- One message fragment, as `struct Fragment` and as the objects of the API.
    No member says which position the fragment has or how many there are. -/
structure Fragment (T : Type) where
  id : T
  messageId : T
  chatId : T
  senderHash : T
  payload : T
  timestamp : Int
  ttl : Int
  deriving DecidableEq, Repr

namespace Fragment

variable {T U V : Type}

/-- Change the text type. -/
def map (f : T → U) (x : Fragment T) : Fragment U :=
  { id := f x.id, messageId := f x.messageId, chatId := f x.chatId, senderHash := f x.senderHash,
    payload := f x.payload, timestamp := x.timestamp, ttl := x.ttl }

@[simp] theorem map_map (f : T → U) (g : U → V) (x : Fragment T) :
    (x.map f).map g = x.map (g ∘ f) := rfl

@[simp] theorem id_map (f : T → U) (x : Fragment T) : (x.map f).id = f x.id := rfl

@[simp] theorem messageId_map (f : T → U) (x : Fragment T) :
    (x.map f).messageId = f x.messageId := rfl

@[simp] theorem chatId_map (f : T → U) (x : Fragment T) : (x.map f).chatId = f x.chatId := rfl

@[simp] theorem senderHash_map (f : T → U) (x : Fragment T) :
    (x.map f).senderHash = f x.senderHash := rfl

@[simp] theorem payload_map (f : T → U) (x : Fragment T) : (x.map f).payload = f x.payload := rfl

@[simp] theorem timestamp_map (f : T → U) (x : Fragment T) :
    (x.map f).timestamp = x.timestamp := rfl

@[simp] theorem ttl_map (f : T → U) (x : Fragment T) : (x.map f).ttl = x.ttl := rfl

end Fragment

/-- The object `sendMessage` posts, and what the backend reads of it. `fragment_index`
    and `total_fragments` are intentionally omitted; the timestamp is set by the server. -/
structure FragmentPost (T : Type) where
  id : T
  messageId : T
  chatId : T
  senderHash : T
  payload : T
  ttl : Int
  deriving DecidableEq, Repr

namespace FragmentPost

variable {T U : Type}

/-- Change the text type. -/
def map (f : T → U) (x : FragmentPost T) : FragmentPost U :=
  { id := f x.id, messageId := f x.messageId, chatId := f x.chatId, senderHash := f x.senderHash,
    payload := f x.payload, ttl := x.ttl }

/-- The fragment with the timestamp set. -/
def stamped (x : FragmentPost T) (now : Int) : Fragment T :=
  { id := x.id, messageId := x.messageId, chatId := x.chatId, senderHash := x.senderHash,
    payload := x.payload, timestamp := now, ttl := x.ttl }

end FragmentPost

/-! ## Wire -/

/-- A text of the frontend as the backend receives it. -/
def toWire (s : JsString) : Bytes := utf8 (scalars s)

/-- A text of the backend as the frontend reads it back. -/
def fromWire (b : Bytes) : JsString := utf16 (utf8Decode b)

/-- `encodeURIComponent` accepts the text: it has no lone surrogate. -/
def isWellFormed (s : JsString) : Bool := utf16 (scalars s) = s

theorem fromWire_toWire {s : JsString} (h : isWellFormed s = true) : fromWire (toWire s) = s := by
  rw [fromWire, toWire, utf8Decode_utf8]
  exact of_decide_eq_true h

theorem isWellFormed_fromWire (b : Bytes) : isWellFormed (fromWire b) = true :=
  decide_eq_true (by rw [fromWire, scalars_utf16])

/-- A C string: the bytes before the terminating NUL. -/
structure CString where
  bytes : Bytes
  noNul : 0 ∉ bytes

instance : DecidableEq CString := fun a b =>
  decidable_of_iff (a.bytes = b.bytes) (by cases a; cases b; simp)

/-- `s.c_str()`, read by SQLite up to the first NUL. -/
def cStr (b : Bytes) : CString where
  bytes := b.takeWhile (· != 0)
  noNul h := by simpa using List.mem_takeWhile_imp h

theorem cStr_of_noNul {b : Bytes} (h : 0 ∉ b) : (cStr b).bytes = b := by
  refine List.takeWhile_eq_self_iff.mpr fun x hx => ?_
  have hne : x ≠ 0 := fun e => h (e ▸ hx)
  simpa using hne

@[simp] theorem cStr_bytes (s : CString) : cStr s.bytes = s := by
  obtain ⟨b, hb⟩ := s
  simp only [cStr, CString.mk.injEq]
  exact cStr_of_noNul hb

theorem eq_cStr_iff {s : CString} {b : Bytes} (hb : 0 ∉ b) : s = cStr b ↔ s.bytes = b := by
  constructor
  · rintro rfl
    exact cStr_of_noNul hb
  · rintro rfl
    exact (cStr_bytes s).symm

theorem cStr_inj {a b : Bytes} (ha : 0 ∉ a) (hb : 0 ∉ b) : cStr a = cStr b ↔ a = b := by
  rw [eq_cStr_iff hb, cStr_of_noNul ha]

/-- Well-formed Unicode text without control characters, which JSON writes as it is. -/
def WireSafe (s : JsString) : Prop := ∃ cs : List Char, s = utf16 cs ∧ ∀ c ∈ cs, 0x20 ≤ c.toNat

instance (s : JsString) : Decidable (WireSafe s) :=
  decidable_of_iff (utf16 (scalars s) = s ∧ (scalars s).all fun c => 0x20 ≤ c.toNat)
    ⟨fun h => ⟨scalars s, h.1.symm, fun c hc => by simpa using List.all_eq_true.mp h.2 c hc⟩,
      fun ⟨cs, hs, hcs⟩ => by
        rw [hs, scalars_utf16]
        exact ⟨rfl, List.all_eq_true.mpr fun c hc => by simpa using hcs c hc⟩⟩

/-- What the backend stores of a wire-safe text is read back unchanged. -/
theorem fromWire_cStr_toWire {s : JsString} (h : WireSafe s) :
    fromWire (cStr (toWire s)).bytes = s := by
  obtain ⟨cs, rfl, hcs⟩ := h
  have hnul : Char.ofNat 0 ∉ cs := fun hmem => absurd (hcs _ hmem) (by decide)
  rw [toWire, scalars_utf16, cStr_of_noNul (zero_notMem_utf8 hnul), fromWire, utf8Decode_utf8]

theorem isWellFormed_of_wireSafe {s : JsString} (h : WireSafe s) : isWellFormed s = true := by
  obtain ⟨cs, rfl, -⟩ := h
  simp [isWellFormed, scalars_utf16]

theorem cStr_toWire_inj {s t : JsString} (hs : WireSafe s) (ht : WireSafe t)
    (h : cStr (toWire s) = cStr (toWire t)) : s = t := by
  rw [← fromWire_cStr_toWire hs, ← fromWire_cStr_toWire ht, h]

/-- Printable ASCII is wire safe. -/
theorem wireSafe_of_ascii {s : JsString} (h : ∀ u ∈ s, 0x20 ≤ u.toNat ∧ u.toNat < 0x80) :
    WireSafe s := by
  refine ⟨s.map fun u => .ofNat u.toNat, (utf16_map_ofNat fun u hu => (h u hu).2).symm, ?_⟩
  intro c hc
  obtain ⟨u, hu, rfl⟩ := List.mem_map.mp hc
  rw [toNat_charOfNat (h u hu).2]
  exact (h u hu).1

/-- The member names of a posted fragment. -/
def memberNames : List JsString :=
  ["id", "message_id", "chat_id", "sender_hash", "payload", "ttl"].map js

/-- In quotes, the text ends in the name in quotes: it is the name, or ends in a quote and
    the name. -/
def QuotedSuffix (name s : JsString) : Prop := 0x22 :: name <:+ 0x22 :: s

instance (name s : JsString) : Decidable (QuotedSuffix name s) :=
  inferInstanceAs (Decidable (0x22 :: name <:+ 0x22 :: s))

/-- A wire-safe text that does not end in a member name after a quote. The backend finds a
    member by the first occurrence of its quoted name, and such a value has one. -/
def Transparent (s : JsString) : Prop := WireSafe s ∧ ∀ name ∈ memberNames, ¬ QuotedSuffix name s

instance (s : JsString) : Decidable (Transparent s) :=
  inferInstanceAs (Decidable (WireSafe s ∧ ∀ name ∈ memberNames, ¬ QuotedSuffix name s))

/-! ## Identifiers -/

/-- `[0-9a-f]` -/
def isHexUnit (u : UInt16) : Bool :=
  (0x30 ≤ u.toNat && u.toNat ≤ 0x39) || (0x61 ≤ u.toNat && u.toNat ≤ 0x66)

/-- The shape `xxxxxxxx-xxxx-xxxx-xxxx-xxxxxxxxxxxx` of `crypto.randomUUID()` and
    of the fallback of `generateId`. -/
def isUuid (s : JsString) : Bool :=
  s.length == 36 && s.zipIdx.all fun p =>
    if p.2 ∈ [8, 13, 18, 23] then p.1 == 0x2D else isHexUnit p.1

/-- A value of `generateId()`. -/
@[ext] structure Uuid where
  val : JsString
  shape : isUuid val = true
  deriving DecidableEq

theorem length_of_isUuid {s : JsString} (h : isUuid s = true) : s.length = 36 := by
  simp only [isUuid, Bool.and_eq_true, beq_iff_eq] at h
  exact h.1

theorem units_of_isUuid {s : JsString} (h : isUuid s = true) :
    ∀ u ∈ s, u = 0x2D ∨ isHexUnit u = true := by
  intro u hu
  obtain ⟨i, hi, rfl⟩ := List.getElem_of_mem hu
  simp only [isUuid, Bool.and_eq_true, List.all_eq_true] at h
  have hmem : (s[i], i) ∈ s.zipIdx := by
    rw [List.mem_zipIdx_iff_getElem?]
    simp
  have hunit := h.2 _ hmem
  simp only at hunit
  split at hunit
  · exact .inl (eq_of_beq hunit)
  · exact .inr hunit

theorem ascii_of_isUuid {s : JsString} (h : isUuid s = true) :
    ∀ u ∈ s, 0x20 ≤ u.toNat ∧ u.toNat < 0x80 := by
  intro u hu
  rcases units_of_isUuid h u hu with rfl | hhex
  · decide
  · simp only [isHexUnit, Bool.or_eq_true, Bool.and_eq_true, decide_eq_true_eq] at hhex
    omega

theorem Uuid.ne_nil (u : Uuid) : u.val ≠ [] := by
  have hlength := length_of_isUuid u.shape
  intro h
  rw [h] at hlength
  cases hlength

theorem Uuid.wireSafe (m : Uuid) : WireSafe m.val :=
  wireSafe_of_ascii (ascii_of_isUuid m.shape)

theorem Uuid.transparent (m : Uuid) : Transparent m.val := by
  have hshort : ∀ name ∈ memberNames, name.length ≠ 36 := by decide
  have hquote : (0x22 : UInt16) ∉ m.val := fun hmem => by
    rcases units_of_isUuid m.shape _ hmem with h | h <;> exact absurd h (by decide)
  refine ⟨m.wireSafe, fun name hname hsuffix => hshort name hname ?_⟩
  rw [← (Scan.suffix_segment_iff hquote).mp hsuffix]
  exact length_of_isUuid m.shape

/-- The id `${messageId}-${i}` of the `i`-th fragment of a message. -/
def fragmentId (messageId : JsString) (i : Nat) : JsString :=
  messageId ++ js "-" ++ decimal i

/-- A fragment id determines the message id. -/
theorem eq_of_fragmentId_eq {m m' : Uuid} {i j : Nat}
    (h : fragmentId m.val i = fragmentId m'.val j) : m = m' := by
  have hlen : m.val.length = m'.val.length := by
    rw [length_of_isUuid m.shape, length_of_isUuid m'.shape]
  have hval : m.val = m'.val := by
    simp only [fragmentId, List.append_assoc] at h
    exact (List.append_inj h hlen).1
  exact Uuid.ext hval

theorem ascii_toDigits (n : Nat) : ∀ c ∈ Nat.toDigits 10 n, 0x30 ≤ c.toNat ∧ c.toNat ≤ 0x39 := by
  intro c hc
  have hdigit := Nat.isDigit_of_mem_toDigits (by decide) (by decide) hc
  simp only [Char.isDigit, Bool.and_eq_true, decide_eq_true_eq, ge_iff_le,
    UInt32.le_iff_toNat_le] at hdigit
  have hlow : '0'.val.toNat = 48 := by decide
  have hhigh : '9'.val.toNat = 57 := by decide
  have hval : c.toNat = c.val.toNat := rfl
  omega

theorem ascii_decimal (n : Nat) : ∀ u ∈ decimal n, 0x30 ≤ u.toNat ∧ u.toNat ≤ 0x39 := by
  intro u hu
  obtain ⟨c, hc, rfl⟩ := List.mem_map.mp hu
  have hdigit := ascii_toDigits n c hc
  rwa [UInt16.toNat_ofNat', Nat.mod_eq_of_lt (by omega)]

theorem Uuid.wireSafe_fragmentId (m : Uuid) (i : Nat) : WireSafe (fragmentId m.val i) := by
  refine wireSafe_of_ascii fun u hu => ?_
  simp only [fragmentId, List.mem_append] at hu
  rcases hu with (hu | hu) | hu
  · exact ascii_of_isUuid m.shape u hu
  · have hdash : js "-" = [0x2D] := by decide
    rw [hdash, List.mem_singleton] at hu
    rw [hu]
    decide
  · have hdigit := ascii_decimal i u hu
    omega

end Frag
