import Frag.Client.Import
import Frag.Client.Network
import Frag.Client.Poll
import Frag.Library.Binary64
import Frag.Library.JsonText

/-!
# Serialised Values

`JSON.stringify` and `JSON.parse` of the frontend: exported chats, the values of `localStorage`
and the bodies of requests are texts that one of them writes. The numbers that the program
writes are small integers; numbers of imported texts are other ones, which are written back only
if a client exports them again.

## Main results

- `jsonParse_jsonStringify`: what was written is read back, lone surrogates included;
- `stringify_eq`: the body of a POST is such a text.
-/

namespace Frag

open JsonText (Builder Data Writes)

/-! ## `JSON.parse` -/

/-- The double for `mantissa * 10 ^ exponent`. -/
def JsNumber.ofDecimal (mantissa exponent : Int) : JsNumber :=
  let q := Binary64.round (mantissa * 10 ^ exponent)
  if |q| < Binary64.limit then .finite q else .infinite (q < 0)

/-- The values of JavaScript. -/
def jsBuilder : Builder JsValue where
  null := .null
  bool := .bool
  number m e := .number (.ofDecimal m e)
  string := .string
  array := .array
  object := .object

/-- `JSON.parse`; `none` where it throws. -/
def jsonParse (s : JsString) : Option JsValue := JsonText.parse jsBuilder s

/-- An integer that is a double. -/
theorem JsNumber.ofDecimal_of_lt {n : Int} (h : |n| < 2 ^ 53) : ofDecimal n 0 = .finite n := by
  have hround : Binary64.round (n * 10 ^ (0 : Int)) = n := by
    rw [zpow_zero, mul_one, Binary64.round_intCast h]
  have hlimit : |(n : Rat)| < Binary64.limit := by
    have hcast : |(n : Rat)| < 2 ^ 53 := by exact_mod_cast h
    exact hcast.trans (pow_lt_pow_right₀ (by norm_num) (by norm_num))
  simp only [ofDecimal, hround, if_pos hlimit]

/-! ## `JSON.stringify` -/

/-- The members are written in their order, each once: the names differ, and none is an array
    index. -/
def Ordered (names : List JsString) : Prop := names.Nodup ∧ ∀ n ∈ names, arrayIndex? n = none

instance (names : List JsString) : Decidable (Ordered names) :=
  inferInstanceAs (Decidable (names.Nodup ∧ ∀ n ∈ names, arrayIndex? n = none))

namespace JsValue

mutual

/-- What is written for a value. There is no text for infinite numbers. `none` stands for values
    whose texts are not looked at: those with a number that is no integer, or one from 2^53 on,
    of which not all digits are written, and those with members that are not `Ordered`. -/
def data? : JsValue → Option Data
  | null => some .null
  | bool b => some (.bool b)
  | number (.finite q) => if q.den = 1 ∧ |q.num| < 2 ^ 53 then some (.integer q.num) else none
  | number (.infinite _) => some .null
  | string s => some (.string s)
  | array items => (items? items).map .array
  | object members =>
    if Ordered (members.map Prod.fst) then (members? members).map .object else none

def items? : List JsValue → Option (List Data)
  | [] => some []
  | v :: items => v.data?.bind fun d => (items? items).map (d :: ·)

def members? : List (JsString × JsValue) → Option (List (JsString × Data))
  | [] => some []
  | (name, v) :: members => v.data?.bind fun d => (members? members).map ((name, d) :: ·)

end

mutual

/-- The value with `null` for infinite numbers. -/
def saved : JsValue → JsValue
  | number (.infinite _) => null
  | array items => array (savedItems items)
  | object members => object (savedMembers members)
  | v => v

def savedItems : List JsValue → List JsValue
  | [] => []
  | v :: items => v.saved :: savedItems items

def savedMembers : List (JsString × JsValue) → List (JsString × JsValue)
  | [] => []
  | (name, v) :: members => (name, v.saved) :: savedMembers members

end

mutual

/-- **What is written for a value** stands for the value, but for infinite numbers. -/
theorem value_of_data? : ∀ (v : JsValue) {d : Data}, v.data? = some d → d.value jsBuilder = v.saved
  | null, _, h => by cases h; rfl
  | bool b, _, h => by cases h; rfl
  | number (.finite q), _, h => by
    rw [data?] at h
    split at h
    · rename_i hq
      cases h
      -- Below 2^53 the number that is read is the one that was written.
      have hcast : (q.num : Rat) = q := Rat.den_eq_one_iff q |>.mp hq.1
      rw [Data.value, saved]
      · show JsValue.number (.ofDecimal q.num 0) = _
        rw [JsNumber.ofDecimal_of_lt hq.2, hcast]
      all_goals nofun
    · cases h
  | number (.infinite _), _, h => by cases h; rfl
  | string s, _, h => by cases h; rfl
  | array items, _, h => by
    rw [data?] at h
    obtain ⟨ds, hds, rfl⟩ := Option.map_eq_some_iff.mp h
    rw [Data.value, saved, values_of_items? items hds]
    rfl
  | object members, _, h => by
    rw [data?] at h
    split at h
    · obtain ⟨ds, hds, rfl⟩ := Option.map_eq_some_iff.mp h
      rw [Data.value, saved, values_of_members? members hds]
      rfl
    · cases h

theorem values_of_items? : ∀ (items : List JsValue) {ds : List Data}, items? items = some ds →
    Data.itemValues jsBuilder ds = savedItems items
  | [], _, h => by cases h; rfl
  | v :: items, _, h => by
    rw [items?] at h
    obtain ⟨d, hd, h⟩ := Option.bind_eq_some_iff.mp h
    obtain ⟨ds, hds, rfl⟩ := Option.map_eq_some_iff.mp h
    rw [Data.itemValues, savedItems, value_of_data? v hd, values_of_items? items hds]

theorem values_of_members? : ∀ (members : List (JsString × JsValue))
    {ds : List (JsString × Data)}, members? members = some ds →
    Data.memberValues jsBuilder ds = savedMembers members
  | [], _, h => by cases h; rfl
  | (name, v) :: members, _, h => by
    rw [members?] at h
    obtain ⟨d, hd, h⟩ := Option.bind_eq_some_iff.mp h
    obtain ⟨ds, hds, rfl⟩ := Option.map_eq_some_iff.mp h
    rw [Data.memberValues, savedMembers, value_of_data? v hd, values_of_members? members hds]

end

end JsValue

/-- `JSON.stringify`; `none` where `JsValue.data?` is. -/
def jsonStringify (v : JsValue) : Option JsString := v.data?.map fun d => d.text quoteUnits

private theorem hexValue_hexUnit : ∀ d < 16, JsonText.hexValue (hexUnit d) = some d := by decide

/-- An escaped unit is read as the unit. -/
theorem writes_unicodeEscape (B : Builder JsValue) (u : UInt16) : Writes B (unicodeEscape u) [u] := by
  have hu := u.toNat_lt
  have hescape : unicodeEscape u = [0x5C, 0x75, hexUnit (u.toNat / 4096), hexUnit (u.toNat / 256 % 16),
      hexUnit (u.toNat / 16 % 16), hexUnit (u.toNat % 16)] := rfl
  have hvalue : 16 * (16 * (16 * (16 * 0 + u.toNat / 4096) + u.toNat / 256 % 16) + u.toNat / 16 % 16) +
      u.toNat % 16 = u.toNat := by omega
  have hwrites := Writes.unicode (B := B) (hexValue_hexUnit (u.toNat / 4096) (by omega))
    (hexValue_hexUnit (u.toNat / 256 % 16) (by omega))
    (hexValue_hexUnit (u.toNat / 16 % 16) (by omega)) (hexValue_hexUnit (u.toNat % 16) (by omega))
  rwa [hvalue, UInt16.ofNat_toNat, ← hescape] at hwrites

theorem writes_quoteUnit (B : Builder JsValue) (u : UInt16) : Writes B (quoteUnit u) [u] := by
  unfold quoteUnit
  -- The escapes of `JSON.stringify` in its order.
  split
  · rename_i h
    exact h ▸ Writes.escaped (by decide)
  split
  · rename_i h
    exact h ▸ Writes.escaped (by decide)
  split
  · rename_i h
    exact h ▸ Writes.escaped (by decide)
  split
  · rename_i h
    exact h ▸ Writes.escaped (by decide)
  split
  · rename_i h
    exact h ▸ Writes.escaped (by decide)
  split
  · rename_i h
    exact h ▸ Writes.escaped (by decide)
  split
  · rename_i h
    exact h ▸ Writes.escaped (by decide)
  split
  · exact writes_unicodeEscape B u
  · rename_i hquote hbackslash hplain
    simp only [Bool.or_eq_true, decide_eq_true_eq, not_or] at hplain
    exact Writes.unit (Nat.not_lt.mp hplain.1.1) hquote hbackslash

/-- **Any string is read back**, whatever units it has. -/
theorem writes_quoteUnits (B : Builder JsValue) (s : JsString) : Writes B (quoteUnits s) s := by
  have hsurrogate : ∀ u : UInt16, 0xD800 ≤ u.toNat → Writes B [u] [u] := by
    intro u hu
    refine Writes.unit (by omega) ?_ ?_ <;> rintro rfl <;> exact absurd hu (by decide)
  fun_induction quoteUnits s with
  | case1 => exact Writes.nil
  | case2 u => exact writes_quoteUnit B u
  | case3 u v s hpair ih =>
    -- A pair is copied.
    simp only [Bool.and_eq_true, Unicode.isLeadSurrogate, Unicode.isTrailSurrogate,
      decide_eq_true_eq] at hpair
    exact (hsurrogate u hpair.1.1).append ((hsurrogate v (by omega)).append ih)
  | case4 u v s _ ih => exact (writes_quoteUnit B u).append ih

/-- **Parsing inverts serialising**: every string is read back unit by unit, every integer as the
    same number, and arrays and objects element by element, at any depth. -/
theorem jsonParse_jsonStringify {v : JsValue} {text : JsString} (h : jsonStringify v = some text) :
    jsonParse text = some v.saved := by
  obtain ⟨d, hd, rfl⟩ := Option.map_eq_some_iff.mp h
  rw [jsonParse, d.parse_text (writes_quoteUnits jsBuilder), v.value_of_data? hd]

/-- An object with an array, a quote, a lone surrogate and a nested object. -/
theorem nested_value_is_read_back :
    jsonParse (js "\x7b\"a\\\"\":[\"\\ud800\",-5,null,\x7b\"b\":true\x7d]\x7d") =
      some (.object [(js "a\"", .array [.string [0xD800], .number (.finite (-5)), .null,
        .object [(js "b", .bool true)]])]) :=
  jsonParse_jsonStringify (v := .object [(js "a\"", .array [.string [0xD800],
    .number (.finite (-5)), .null, .object [(js "b", .bool true)]])]) (by decide +kernel)

/-! ## Exported chats -/

namespace JsValue

theorem exists_items? {items : List JsValue} (h : ∀ v ∈ items, ∃ d, v.data? = some d) :
    ∃ ds, items? items = some ds := by
  induction items with
  | nil => exact ⟨[], rfl⟩
  | cons v items ih =>
    rw [List.forall_mem_cons] at h
    obtain ⟨d, hd⟩ := h.1
    obtain ⟨ds, hds⟩ := ih h.2
    exact ⟨d :: ds, by rw [items?, hd, Option.bind_some, hds, Option.map_some]⟩

theorem savedItems_eq_self {items : List JsValue} (h : ∀ v ∈ items, v.saved = v) :
    savedItems items = items := by
  induction items with
  | nil => rfl
  | cons v items ih =>
    rw [List.forall_mem_cons] at h
    rw [savedItems, h.1, ih h.2]

end JsValue

theorem data?_exportedServer (s : App.ExportedServer) :
    (∃ d, s.toJs.data? = some d) ∧ s.toJs.saved = s.toJs := by
  have hordered : Ordered [js "url", js "token", js "label"] := by decide
  refine ⟨⟨.object [(js "url", .string s.url), (js "token", .string s.token),
    (js "label", .string s.label)], ?_⟩, rfl⟩
  rw [App.ExportedServer.toJs, JsValue.data?]
  exact if_pos hordered

/-- **Exported data has a text**, and the text is read back as the data. -/
theorem exists_jsonStringify_exported (data : App.ExportedChat) :
    ∃ text, jsonStringify data.toJs = some text ∧ jsonParse text = some data.toJs := by
  have hordered : Ordered [js "name", js "chatId", js "keyB64", js "servers"] := by decide
  have hservers : ∀ v ∈ data.servers.map App.ExportedServer.toJs,
      (∃ d, v.data? = some d) ∧ v.saved = v := by
    intro v hv
    obtain ⟨s, -, rfl⟩ := List.mem_map.mp hv
    exact data?_exportedServer s
  obtain ⟨ds, hds⟩ := JsValue.exists_items? fun v hv => (hservers v hv).1
  -- What is written of the four members.
  have hdata : data.toJs.data? = some (.object [(js "name", .string data.name),
      (js "chatId", .string data.chatId), (js "keyB64", .string data.keyB64),
      (js "servers", .array ds)]) := by
    have hstring : ∀ s, (JsValue.string s).data? = some (.string s) := fun _ => rfl
    have harray : (JsValue.array (data.servers.map App.ExportedServer.toJs)).data? =
        some (.array ds) := by rw [JsValue.data?, hds, Option.map_some]
    rw [App.ExportedChat.toJs, JsValue.data?]
    simp only [List.map_cons, List.map_nil, if_pos hordered, JsValue.members?, hstring, harray,
      Option.bind_some, Option.map_some]
  -- There is no number in it that could be infinite.
  have hsaved : data.toJs.saved = data.toJs := by
    rw [App.ExportedChat.toJs]
    simp only [JsValue.saved, JsValue.savedMembers,
      JsValue.savedItems_eq_self fun v hv => (hservers v hv).2]
  refine ⟨_, by rw [jsonStringify, hdata, Option.map_some], ?_⟩
  rw [jsonParse, Data.parse_text (writes_quoteUnits jsBuilder), JsValue.value_of_data? _ hdata, hsaved]

/-! ## Request bodies -/

/-- The object that `sendMessage` posts. -/
def FragmentPost.toJs (p : FragmentPost JsString) : JsValue :=
  .object [(js "id", .string p.id), (js "message_id", .string p.messageId),
    (js "chat_id", .string p.chatId), (js "sender_hash", .string p.senderHash),
    (js "payload", .string p.payload), (js "ttl", .number (.finite p.ttl))]

theorem numberText_eq (n : Int) : numberText n = JsonText.widen (JsonText.integer n) := by
  have hdigits : ∀ k, decimal k = JsonText.widen (Decimal.digits k) := by
    intro k
    rw [decimal, JsonText.widen, Decimal.digits, List.map_map]
    refine List.map_congr_left fun c hc => ?_
    have hdigit := ascii_toDigits k c hc
    rw [Function.comp_apply, UInt8.toNat_ofNat', Nat.mod_eq_of_lt (by omega)]
  rw [numberText, JsonText.integer]
  split
  · rw [hdigits]
    rfl
  · exact hdigits _

/-- The body of a POST is `JSON.stringify` of the fragment. -/
theorem stringify_eq {p : FragmentPost JsString} (httl : |p.ttl| < 2 ^ 53) :
    jsonStringify p.toJs = some (stringify p) := by
  have hname : ∀ n ∈ memberNames, quoteUnits n = n := by decide
  simp only [memberNames, List.map_cons, List.map_nil, List.forall_mem_cons] at hname
  obtain ⟨hid, hmessageId, hchatId, hsenderHash, hpayload, httlName, -⟩ := hname
  have hordered : Ordered [js "id", js "message_id", js "chat_id", js "sender_hash", js "payload",
      js "ttl"] := by decide
  have hnumber : (JsValue.number (.finite p.ttl)).data? = some (.integer p.ttl) :=
    if_pos ⟨Rat.den_intCast p.ttl, by rwa [Rat.num_intCast]⟩
  have hstring : ∀ s, (JsValue.string s).data? = some (.string s) := fun _ => rfl
  -- The names are written as they are, in the order of the object.
  have hdata : p.toJs.data? = some (.object [(js "id", .string p.id),
      (js "message_id", .string p.messageId), (js "chat_id", .string p.chatId),
      (js "sender_hash", .string p.senderHash), (js "payload", .string p.payload),
      (js "ttl", .integer p.ttl)]) := by
    rw [FragmentPost.toJs, JsValue.data?]
    simp only [List.map_cons, List.map_nil, if_pos hordered, JsValue.members?, hnumber, hstring,
      Option.bind_some, Option.map_some]
  rw [jsonStringify, hdata, Option.map_some, Option.some.injEq]
  simp only [Data.text, Data.memberTexts, hid, hmessageId, hchatId, hsenderHash, hpayload, httlName,
    List.intercalate_cons_cons, List.intercalate_singleton, stringify, quoteJson, numberText_eq,
    List.append_assoc, List.cons_append, List.nil_append]
  rfl

end Frag
