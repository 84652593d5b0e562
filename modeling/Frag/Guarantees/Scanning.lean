import Frag.Backend.Text
import Frag.Guarantees.Escapes
import Frag.System.World

/-!
# Scanning Request Bodies

The POST handler finds a member by the first occurrence of its quoted name, and reads the
value after the next colon. Quotes inside a value have a backslash before them, so a name
occurs in a value only at its end. The chat id and the sender hash are imported as they
are and can end that way; the scanner then reads the value of the member after them.

## Main results

- `readFragment_texts`: what is read of a request body, whatever its texts are;
- `readFragment_requestBody`: what is read of well-formed texts without control characters;
- `World.Honest.readFragment_post`: the POSTs of an honest world are read as they are;
- `scanner_reads_iff`: the fragments that are read as they were written.
-/

namespace Frag

open Unicode Scan

/-! ## Bodies as bytes -/

/-- A string member, as it is written, and what follows it. -/
def memberText (name value rest : Bytes) : Bytes :=
  0x22 :: (name ++ 0x22 :: 0x3A :: 0x22 :: (value ++ 0x22 :: rest))

/-- String members, and a last one with anything as its value. -/
def memberTexts (last tail : Bytes) : List (Bytes × Bytes) → Bytes
  | [] => 0x22 :: (last ++ 0x22 :: 0x3A :: tail)
  | (name, value) :: ms => memberText name value (0x2C :: memberTexts last tail ms)

theorem head?_memberTexts (last tail : Bytes) (ms : List (Bytes × Bytes)) :
    (memberTexts last tail ms).head? = some 0x22 := by
  cases ms <;> rfl

/-- A text as `JSON.stringify` writes it between the quotes. -/
def quotedBytes (s : JsString) : Bytes := toWire (quoteUnits s)

/-- The string members of a fragment. -/
def stringMembers (p : FragmentPost JsString) : List (Bytes × Bytes) :=
  [(lit "id", quotedBytes p.id), (lit "message_id", quotedBytes p.messageId), (lit "chat_id", quotedBytes p.chatId),
    (lit "sender_hash", quotedBytes p.senderHash), (lit "payload", quotedBytes p.payload)]

theorem toWire_js {s : String} (h : Ascii s.toList) (t : JsString) :
    toWire (js s ++ t) = lit s ++ toWire t := by
  rw [js, toWire_utf16_append, utf8_of_ascii h]
  rfl

/-- A member of the body, with the separator before it. -/
theorem toWire_member {head : String} {separator : UInt8} {name : Bytes}
    (hascii : Ascii head.toList)
    (hhead : lit head = separator :: 0x22 :: (name ++ [0x22, 0x3A])) (s t : JsString) :
    toWire (js head ++ (quoteJson s ++ t)) = separator :: memberText name (quotedBytes s) (toWire t) := by
  have hquote : lit "\"" = [0x22] := rfl
  have hjson : quoteJson s ++ t = js "\"" ++ (quoteUnits s ++ (js "\"" ++ t)) := by
    rw [quoteJson, List.append_assoc, List.append_assoc]
  rw [hjson, toWire_js hascii, hhead, toWire_js (by decide), toWire_append (wireSafe_quoteUnits s),
    toWire_js (by decide), hquote, ← quotedBytes]
  simp [memberText]

/-- The bytes of a request body. -/
theorem requestBody_eq (p : FragmentPost JsString) : requestBody p =
    0x7B :: memberTexts (lit "ttl") (toWire (numberText p.ttl ++ js "\x7d")) (stringMembers p) := by
  rw [requestBody, stringify,
    toWire_member (by decide) (by decide : lit _ = 0x7B :: 0x22 :: (lit "id" ++ [0x22, 0x3A])),
    toWire_member (by decide) (by decide : lit _ = 0x2C :: 0x22 :: (lit "message_id" ++ [0x22, 0x3A])),
    toWire_member (by decide) (by decide : lit _ = 0x2C :: 0x22 :: (lit "chat_id" ++ [0x22, 0x3A])),
    toWire_member (by decide) (by decide : lit _ = 0x2C :: 0x22 :: (lit "sender_hash" ++ [0x22, 0x3A])),
    toWire_member (by decide) (by decide : lit _ = 0x2C :: 0x22 :: (lit "payload" ++ [0x22, 0x3A])),
    toWire_js (by decide)]
  rfl

/-! ## Which member is read -/

/-- A name that is neither escaped nor a separator. -/
def PlainName (name : Bytes) : Prop :=
  0x22 ∉ name ∧ 0x5C ∉ name ∧ 0x3A ∉ name ∧ 0x2C ∉ name

instance (name : Bytes) : Decidable (PlainName name) :=
  inferInstanceAs (Decidable (0x22 ∉ name ∧ 0x5C ∉ name ∧ 0x3A ∉ name ∧ 0x2C ∉ name))

/-- The members from the one on whose value is read for a key. That is the member of that
    name, or the one after a value that ends in the name; none of them means the last one. -/
def reading (key : Bytes) : List (Bytes × Bytes) → List (Bytes × Bytes)
  | [] => []
  | (name, value) :: ms =>
    if name = key then (name, value) :: ms
    else if 0x22 :: key <:+ 0x22 :: value then ms
    else reading key ms

/-- The text from the value of the first member on. -/
def fromValue (last tail : Bytes) : List (Bytes × Bytes) → Bytes
  | [] => tail
  | (_, value) :: ms => 0x22 :: (value ++ 0x22 :: 0x2C :: memberTexts last tail ms)

/-- A member with a plain name, and a value with a backslash before each of its quotes. -/
def PlainMember (m : Bytes × Bytes) : Prop := PlainName m.1 ∧ Guarded 0x22 0x5C m.2

variable {key name value rest json last tail : Bytes} {ms : List (Bytes × Bytes)}

theorem reading_cons_self : reading key ((key, value) :: ms) = (key, value) :: ms := if_pos rfl

theorem reading_cons_of_ne (hne : name ≠ key) : reading key ((name, value) :: ms) =
    if 0x22 :: key <:+ 0x22 :: value then ms else reading key ms := if_neg hne

/-- Searching past a member: the key is found in its value, or later. -/
theorem after_member (hkey : PlainName key) (hmember : PlainMember (name, value))
    (hne : name ≠ key) (hrest : rest.head? = some 0x22) :
    after (quoted 0x22 key) (memberText name value (0x2C :: rest)) =
      if 0x22 :: key <:+ 0x22 :: value then some (0x2C :: rest)
      else after (quoted 0x22 key) rest := by
  obtain ⟨hquote, hbackslash, hcolon, hcomma⟩ := hkey
  obtain ⟨u, rfl⟩ := List.head?_eq_some_iff.mp hrest
  have hcolonSeg : [0x3A] ≠ key := by
    rintro rfl
    simp at hcolon
  have hcommaSeg : [0x2C] ≠ key := by
    rintro rfl
    simp at hcomma
  -- The segments between the quotes: the name, the colon, those of the value, the comma.
  have hskipColon := after_quoted_skip (t := value ++ 0x22 :: 0x2C :: 0x22 :: u)
    hquote (by decide) hcolonSeg
  have hskipComma := after_quoted_skip (t := u) hquote (by decide) hcommaSeg
  rw [List.singleton_append] at hskipColon hskipComma
  rw [memberText, after_quoted_skip hquote hmember.1.1 hne, hskipColon,
    after_quoted_guarded (by decide) hquote hbackslash hmember.2, hskipComma]

/-- The next colon is the one before the value of the member. -/
theorem after_colon (hlast : PlainName last) (hms : ∀ m ∈ ms, PlainMember m) :
    after [0x3A] (0x2C :: memberTexts last tail ms) = some (fromValue last tail ms) := by
  have hcolon : ∀ n : Bytes, PlainName n → (0x3A : UInt8) ∉ 0x2C :: 0x22 :: (n ++ [0x22]) :=
    fun n hn => by simp [hn.2.2.1]
  cases ms with
  | nil =>
    have hfound := after_singleton (t := tail) (hcolon last hlast)
    simpa [memberTexts, fromValue] using hfound
  | cons m ms =>
    have hfound := after_singleton (t := fromValue last tail (m :: ms))
      (hcolon m.1 (hms m List.mem_cons_self).1)
    simpa [memberTexts, memberText, fromValue] using hfound

/-- **The scanner reads the value of `reading`.** -/
theorem afterKey_members (tail : Bytes) (hkey : PlainName key) (hlast : PlainName last)
    (hms : ∀ m ∈ ms, PlainMember m) (hin : key ∈ ms.map Prod.fst ∨ key = last) :
    afterKey (memberTexts last tail ms) key = some (fromValue last tail (reading key ms)) := by
  induction ms with
  | nil =>
    obtain rfl : key = last := by simpa using hin
    rw [afterKey, memberTexts, after_quoted, Option.bind_some]
    exact after_singleton List.not_mem_nil
  | cons m ms ih =>
    obtain ⟨name, value⟩ := m
    have htail : ∀ m ∈ ms, PlainMember m := fun m hm => hms m (List.mem_cons_of_mem _ hm)
    by_cases heq : name = key
    · subst heq
      rw [reading, if_pos rfl, afterKey, memberTexts, memberText, after_quoted, Option.bind_some]
      exact after_singleton List.not_mem_nil
    · have hfound := after_member hkey (hms _ List.mem_cons_self) heq (head?_memberTexts last tail ms)
      rw [reading, if_neg heq]
      split
      · -- The name at the end of the value: the next member is read.
        rename_i hsuffix
        rw [afterKey, memberTexts, hfound, if_pos hsuffix, Option.bind_some, after_colon hlast htail]
      · rename_i hsuffix
        rw [if_neg hsuffix] at hfound
        have hin' : key ∈ ms.map Prod.fst ∨ key = last := by
          simpa [Ne.symm heq] using hin
        rw [← ih htail hin', afterKey, memberTexts, hfound, afterKey]

/-- The brace at the start of a body is passed over. -/
theorem afterKey_brace : afterKey (0x7B :: json) key = afterKey json key := by
  have hstart : after (quoted 0x22 key) ([0x7B] ++ json) = after (quoted 0x22 key) json :=
    after_quoted_start (by decide)
  rw [List.singleton_append] at hstart
  rw [afterKey, hstart, afterKey]

theorem extractString_members {text : Bytes} (hkey : PlainName key) (hlast : PlainName last)
    (hms : ∀ m ∈ ms, PlainMember m) (hin : key ∈ ms.map Prod.fst ∨ key = last)
    (hread : (reading key ms).head?.map Prod.snd = some value) (htext : scanWhole value = some text) :
    extractString (0x7B :: memberTexts last tail ms) key = text := by
  obtain ⟨m, hhead, rfl⟩ := Option.map_eq_some_iff.mp hread
  obtain ⟨ms', hms'⟩ := List.head?_eq_some_iff.mp hhead
  have hkeyed := afterKey_members tail hkey hlast hms hin
  rw [hms', fromValue] at hkeyed
  have hquote : ∀ s : Bytes, after [0x22] (0x22 :: s) = some s := fun s =>
    after_singleton List.not_mem_nil
  have hend : ∀ s : Bytes, readString (0x22 :: s) = [] := fun s => by cases s <;> rfl
  simp only [extractString, afterKey_brace, hkeyed, Option.bind_some, hquote]
  rw [readString_append htext, hend, List.append_nil]

/-- A value in quotes is not a number. -/
theorem extractInt_members (hkey : PlainName key) (hlast : PlainName last)
    (hms : ∀ m ∈ ms, PlainMember m) (hin : key ∈ ms.map Prod.fst ∨ key = last) {defaultVal : Int}
    (hread : reading key ms ≠ []) :
    extractInt (0x7B :: memberTexts last tail ms) key defaultVal = defaultVal := by
  obtain ⟨m, ms', hms'⟩ := List.exists_cons_of_ne_nil hread
  have hkeyed := afterKey_members tail hkey hlast hms hin
  rw [hms', fromValue] at hkeyed
  rw [extractInt, afterKey_brace, hkeyed]
  rfl

/-- The last value is read as a number. -/
theorem extractInt_last (hkey : PlainName key) (hlast : PlainName last)
    (hms : ∀ m ∈ ms, PlainMember m) (hin : key ∈ ms.map Prod.fst ∨ key = last) {n defaultVal : Int}
    (hlow : 0 ≤ n) (hhigh : n ≤ 9007199254740991) (hread : reading key ms = []) :
    extractInt (0x7B :: memberTexts last (showInt n ++ [0x7D]) ms) key defaultVal = n := by
  have hkeyed := afterKey_members (showInt n ++ [0x7D]) hkey hlast hms hin
  rw [hread, fromValue] at hkeyed
  have hdrop : (showInt n ++ [0x7D]).dropWhile (fun c => c == 0x20 || c == 0x09) =
      showInt n ++ [0x7D] := by
    obtain ⟨c, s, hs, hspace⟩ := exists_showInt_cons n
    have hblank : ¬ (c == 0x20 || c == 0x09) = true := by
      rw [Bool.or_eq_true, beq_iff_eq, beq_iff_eq]
      rintro (rfl | rfl) <;> exact absurd hspace (by decide)
    rw [hs, List.cons_append]
    exact List.dropWhile_cons_of_neg hblank
  -- The number ends at the brace.
  have hbrace : ∀ c ∈ [0x7D].head?, Decimal.isDigit c = false := by
    simp only [List.head?_cons, Option.mem_def, Option.some.injEq, forall_eq']
    decide
  have hstoll : stoll (showInt n ++ [0x7D]) = some n :=
    stoll_showInt (by omega) (by omega) hbrace
  simp only [extractInt, afterKey_brace, hkeyed, hdrop, hstoll, Option.getD_some]

/-! ## The fragments that are posted -/

/-- A hexadecimal digit or a hyphen. -/
def isIdUnit (u : UInt16) : Bool := u == 0x2D || isHexUnit u || (0x41 ≤ u.toNat && u.toNat ≤ 0x46)

/-- A message id or a fragment id. -/
def IdText (s : JsString) : Prop := ∀ u ∈ s, isIdUnit u = true

instance (s : JsString) : Decidable (IdText s) :=
  List.decidableBAll (fun u : UInt16 => isIdUnit u = true) s

/-- A fragment as `sendMessage` builds it, for a chat id and an identity without control
    characters and a safe integer. -/
structure Posted (p : FragmentPost JsString) : Prop where
  id : IdText p.id
  messageId : IdText p.messageId
  chatId : NoControl p.chatId
  senderHash : NoControl p.senderHash
  payload : ∀ u ∈ p.payload, Base64.IsCodeUnit u
  ttl : 0 ≤ p.ttl ∧ p.ttl ≤ 9007199254740991

theorem toNat_of_isIdUnit {u : UInt16} (h : isIdUnit u = true) : 0x2D ≤ u.toNat ∧ u.toNat ≤ 0x66 := by
  simp only [isIdUnit, isHexUnit, Bool.or_eq_true, Bool.and_eq_true, decide_eq_true_eq,
    beq_iff_eq] at h
  rcases h with (rfl | h) | h
  · decide
  · omega
  · omega

theorem isIdUnit_of_mem_uuid {m : Uuid} {u : UInt16} (h : u ∈ m.val) : isIdUnit u = true := by
  rcases units_of_isUuid m.shape u h with rfl | hhex
  · decide
  · simp [isIdUnit, hhex]

theorem isIdUnit_of_mem_fragmentId {m : Uuid} {i : Nat} {u : UInt16} (h : u ∈ fragmentId m.val i) :
    isIdUnit u = true := by
  simp only [fragmentId, List.mem_append] at h
  rcases h with (h | h) | h
  · exact isIdUnit_of_mem_uuid h
  · have hdash : js "-" = [0x2D] := by decide
    rw [hdash, List.mem_singleton] at h
    rw [h]
    decide
  · have hdigit := ascii_decimal i u h
    simp [isIdUnit, isHexUnit, hdigit]

/-- **What `sendMessage` posts.** -/
theorem posted_of_genuine {ι : Type} {W : WebCrypto} {s : Sent ι} (h : s.Genuine W)
    (hchatId : NoControl s.outgoing.chat.chatId) (hsenderHash : NoControl s.senderHash)
    {p : Server × FragmentPost JsString} (hp : p ∈ s.posts)
    (httl : 0 ≤ p.2.ttl ∧ p.2.ttl ≤ 9007199254740991) : Posted p.2 := by
  obtain ⟨j, hj⟩ := List.mem_iff_getElem?.mp hp
  obtain ⟨hid, hmessageId, hchat, hsender⟩ := h.post j p hj
  obtain ⟨key, iv, -, hpayloads⟩ := h.encrypted
  -- The payload is a chunk of base64 text.
  have hchunk : p.2.payload ∈ s.outgoing.payloads := List.mem_map_of_mem hp
  rw [hpayloads] at hchunk
  refine ⟨?_, ?_, hchat ▸ hchatId, hsender ▸ hsenderHash, ?_, httl⟩
  · rw [hid]
    exact fun u hu => isIdUnit_of_mem_fragmentId hu
  · rw [hmessageId]
    exact fun u hu => isIdUnit_of_mem_uuid hu
  · exact fun u hu => isCodeUnit_of_mem_encrypt (mem_of_mem_splitPayload hchunk hu)

theorem wireSafe_of_isIdUnit {s : JsString} (h : IdText s) : WireSafe s :=
  wireSafe_of_ascii fun u hu => by
    have hu := toNat_of_isIdUnit (h u hu)
    omega

theorem wireSafe_of_isCodeUnit {s : JsString} (h : ∀ u ∈ s, Base64.IsCodeUnit u) : WireSafe s :=
  wireSafe_of_ascii fun u hu => (h u hu).toNat

/-- A text ends in a quoted name on the wire exactly if it does in the frontend. -/
theorem suffix_toWire_iff {name : String} (hname : Ascii name.toList) {s : JsString}
    (hs : isWellFormed s = true) :
    0x22 :: lit name <:+ 0x22 :: toWire s ↔ QuotedSuffix (js name) s := by
  have hback : s = utf16 (scalars s) := (of_decide_eq_true hs).symm
  have hlit : lit name = utf8 name.toList := (utf8_of_ascii hname).symm
  have hbytes : 0x22 :: utf8 name.toList <:+ 0x22 :: utf8 (scalars s) ↔
      '"' :: name.toList <:+ '"' :: scalars s :=
    suffix_flatMap_iff (by decide)
      (fun d hd => by rw [← Char.toNat_inj, toNat_of_mem_utf8 hd (by decide)]; rfl) utf8_injective
  have hunits : 0x22 :: utf16 name.toList <:+ 0x22 :: utf16 (scalars s) ↔
      '"' :: name.toList <:+ '"' :: scalars s :=
    suffix_flatMap_iff (by decide)
      (fun d hd => by rw [← Char.toNat_inj, toNat_of_mem_utf16 hd (by decide)]; rfl) utf16_injective
  rw [QuotedSuffix, hback, toWire, scalars_utf16, hlit]
  exact hbytes.trans hunits.symm

/-! ## What is written of a text -/

/-- Every quote that is written has a backslash before it. -/
theorem guarded_of_scanWhole {s t : Bytes} (h : scanWhole s = some t) : Guarded 0x22 0x5C s := by
  fun_induction scanWhole s generalizing t with
  | case1 => exact fun seg u hu => by simp at hu
  | case2 c hc => cases h
  | case3 c hc =>
    intro seg u hu
    cases seg with
    | nil => exact absurd (.inr (List.cons.inj hu).1) hc
    | cons x seg => simp at hu
  | case4 d s ih =>
    -- An escape: the quote is the escaped character, or it comes later.
    obtain ⟨t', ht', -⟩ := Option.map_eq_some_iff.mp h
    intro seg u hu
    rcases seg with _ | ⟨x, _ | ⟨y, seg⟩⟩
    · exact absurd (List.cons.inj hu).1 (by decide)
    · rw [← (List.cons.inj hu).1]
      rfl
    · have hlast := ih ht' seg u (List.cons.inj (List.cons.inj hu).2).2
      rw [List.getLast?_cons_cons, List.getLast?_cons, hlast, Option.getD_some]
  | case5 => cases h
  | case6 c d s hc hq ih =>
    obtain ⟨t', ht', -⟩ := Option.map_eq_some_iff.mp h
    intro seg u hu
    cases seg with
    | nil => exact absurd (List.cons.inj hu).1 hq
    | cons x seg =>
      have hlast := ih ht' seg u (List.cons.inj hu).2
      rw [List.getLast?_cons, hlast, Option.getD_some]

theorem guarded_quotedBytes (s : JsString) : Guarded 0x22 0x5C (quotedBytes s) :=
  guarded_of_scanWhole (scanWhole_quoteUnits s)

theorem quoteUnits_append_quote (seg s : JsString) :
    quoteUnits (seg ++ 0x22 :: s) = quoteUnits seg ++ 0x5C :: 0x22 :: quoteUnits s := by
  have hquote : quoteUnits (0x22 :: s) = 0x5C :: 0x22 :: quoteUnits s := by
    rw [quoteUnits_cons (by decide)]
    rfl
  fun_induction quoteUnits seg with
  | case1 => exact hquote
  | case2 u =>
    have htrail : isTrailSurrogate 0x22 = false := by decide
    rw [List.singleton_append, quoteUnits, htrail, Bool.and_false, if_neg Bool.false_ne_true, hquote]
  | case3 u v seg hpair ih =>
    rw [List.cons_append, List.cons_append, quoteUnits, if_pos hpair, ih, List.cons_append,
      List.cons_append]
  | case4 u v seg hpair ih =>
    rw [List.cons_append, List.cons_append, quoteUnits, if_neg hpair, ← List.cons_append, ih,
      List.append_assoc]

/-- Only a quote is written with a quote. -/
theorem eq_of_quote_mem_quoteUnit {u : UInt16} (h : 0x22 ∈ quoteUnit u) : u = 0x22 := by
  -- A unit of ASCII, one that is written by its number, or one that is copied.
  rcases quoteUnit_cases u with hascii | hescape | ⟨c, -, -, hcopy⟩
  · have hall : ∀ n : Fin 128, 0x22 ∈ quoteUnit (.ofNat n) → UInt16.ofNat n = 0x22 := by decide +kernel
    have hu := hall ⟨u.toNat, hascii⟩
    rw [UInt16.ofNat_toNat] at hu
    exact hu h
  · have hdigit : ∀ d < 16, hexUnit d ≠ 0x22 := by decide
    have hlt : u.toNat < 65536 := u.toNat_lt
    have hhead : (0x22 : UInt16) ∉ js "\\u" := by decide
    rw [hescape, unicodeEscape, List.mem_append] at h
    simp only [List.mem_cons, List.not_mem_nil, or_false] at h
    rcases h with h | h | h | h | h
    · exact absurd h hhead
    · exact absurd h.symm (hdigit _ (by omega))
    · exact absurd h.symm (hdigit _ (by omega))
    · exact absurd h.symm (hdigit _ (by omega))
    · exact absurd h.symm (hdigit _ (by omega))
  · rw [hcopy] at h
    exact (List.mem_singleton.mp h).symm

/-- Without a backslash a unit is copied. -/
theorem quoteUnit_eq_self {u : UInt16} (h : 0x5C ∉ quoteUnit u) : quoteUnit u = [u] := by
  rcases quoteUnit_cases u with hascii | hescape | ⟨c, -, -, hcopy⟩
  · have hall : ∀ n : Fin 128, 0x5C ∈ quoteUnit (.ofNat n) ∨ quoteUnit (.ofNat n) = [.ofNat n] := by
      decide +kernel
    have hu := hall ⟨u.toNat, hascii⟩
    rw [UInt16.ofNat_toNat] at hu
    exact hu.resolve_left h
  · rw [hescape, unicodeEscape] at h
    exact absurd (List.mem_append_left _ (by decide)) h
  · exact hcopy

theorem notMem_quoteUnits {s : JsString} (h : 0x22 ∉ s) : 0x22 ∉ quoteUnits s := by
  fun_induction quoteUnits s with
  | case1 => exact List.not_mem_nil
  | case2 u => exact fun hmem => h (by rw [eq_of_quote_mem_quoteUnit hmem]; exact List.mem_singleton_self _)
  | case3 u v s hpair ih =>
    simp only [List.mem_cons, not_or] at h ⊢
    exact ⟨h.1, h.2.1, ih h.2.2⟩
  | case4 u v s hpair ih =>
    rw [List.mem_cons, not_or] at h
    rw [List.mem_append, not_or]
    exact ⟨fun hmem => h.1 (eq_of_quote_mem_quoteUnit hmem).symm, ih h.2⟩

theorem quoteUnits_eq_self {s : JsString} (h : 0x5C ∉ quoteUnits s) : quoteUnits s = s := by
  fun_induction quoteUnits s with
  | case1 => rfl
  | case2 u => exact quoteUnit_eq_self h
  | case3 u v s hpair ih =>
    simp only [List.mem_cons, not_or] at h
    rw [ih h.2.2]
  | case4 u v s hpair ih =>
    rw [List.mem_append, not_or] at h
    rw [quoteUnit_eq_self h.1, ih h.2, List.singleton_append]

/-- A name that `JSON.stringify` writes as it is. -/
def WrittenAsIs (name : String) : Prop :=
  Ascii name.toList ∧ 0x22 ∉ js name ∧ 0x5C ∉ js name ∧ quoteUnits (js name) = js name

instance (name : String) : Decidable (WrittenAsIs name) :=
  inferInstanceAs (Decidable (Ascii name.toList ∧ 0x22 ∉ js name ∧ 0x5C ∉ js name ∧
    quoteUnits (js name) = js name))

/-- Such a name is at the end of what is written exactly if it is at the end of the text. -/
theorem suffix_quotedBytes_iff {name : String} (hname : WrittenAsIs name) (s : JsString) :
    0x22 :: lit name <:+ 0x22 :: quotedBytes s ↔ QuotedSuffix (js name) s := by
  obtain ⟨hascii, hquote, hbackslash, hsame⟩ := hname
  rw [quotedBytes, suffix_toWire_iff hascii (isWellFormed_of_wireSafe (wireSafe_quoteUnits s)),
    QuotedSuffix, QuotedSuffix]
  induction s using segment_induction (0x22 : UInt16) with
  | last seg hseg =>
    rw [suffix_segment_iff (notMem_quoteUnits hseg), suffix_segment_iff hseg]
    constructor
    · intro h
      rw [← h, quoteUnits_eq_self (h ▸ hbackslash)]
    · rintro rfl
      exact hsame
  | more seg s _ ih =>
    have hsplit : quoteUnits (seg ++ 0x22 :: s) = (quoteUnits seg ++ [0x5C]) ++ 0x22 :: quoteUnits s := by
      rw [quoteUnits_append_quote, List.append_assoc, List.singleton_append]
    rw [hsplit, suffix_append_quote hquote, suffix_append_quote hquote, ih]

/-- No key is found in an id. -/
theorem not_suffix_of_isIdUnit {name : String} (hname : WrittenAsIs name)
    (hother : ¬ IdText (js name)) {s : JsString} (h : IdText s) :
    ¬ 0x22 :: lit name <:+ 0x22 :: quotedBytes s := by
  rw [suffix_quotedBytes_iff hname, QuotedSuffix,
    suffix_segment_iff fun hmem => absurd (h _ hmem) (by decide)]
  rintro rfl
  exact hother h

/-! ## What is read of a request body -/

section Read

variable {p : FragmentPost JsString}

private theorem plainName_ttl : PlainName (lit "ttl") := by decide

private theorem plainMember_stringMembers (p : FragmentPost JsString) :
    ∀ m ∈ stringMembers p, PlainMember m := by
  have hnames : ∀ n ∈ (stringMembers p).map Prod.fst, PlainName n := by
    simp only [stringMembers, List.map_cons, List.map_nil]
    decide
  have hvalues : ∀ v ∈ (stringMembers p).map Prod.snd, Guarded 0x22 0x5C v := by
    simp only [stringMembers, List.map_cons, List.map_nil, List.forall_mem_cons, guarded_quotedBytes,
      List.not_mem_nil, false_imp_iff, implies_true, and_true]
  exact fun m hm => ⟨hnames m.1 (List.mem_map_of_mem hm), hvalues m.2 (List.mem_map_of_mem hm)⟩

private theorem extractString_stringMembers {key tail : Bytes} {s : JsString}
    (hin : key ∈ (stringMembers p).map Prod.fst)
    (hread : (reading key (stringMembers p)).head?.map Prod.snd = some (quotedBytes s)) :
    extractString (0x7B :: memberTexts (lit "ttl") tail (stringMembers p)) key = scanned s := by
  obtain ⟨m, hm, rfl⟩ := List.mem_map.mp hin
  exact extractString_members (plainMember_stringMembers p m hm).1 plainName_ttl
    (plainMember_stringMembers p) (.inl hin) hread (scanWhole_quoteUnits s)

/-- A key that can be part of no id is not found in the ids. -/
private theorem reading_ids (hpid : IdText p.id) (hpmessageId : IdText p.messageId) {key : String}
    (hkey : WrittenAsIs key) (hother : ¬ IdText (js key)) (hid : lit "id" ≠ lit key)
    (hmessageId : lit "message_id" ≠ lit key) :
    reading (lit key) (stringMembers p) = reading (lit key) [(lit "chat_id", quotedBytes p.chatId),
      (lit "sender_hash", quotedBytes p.senderHash), (lit "payload", quotedBytes p.payload)] := by
  rw [stringMembers, reading_cons_of_ne hid, reading_cons_of_ne hmessageId,
    if_neg (not_suffix_of_isIdUnit hkey hother hpid),
    if_neg (not_suffix_of_isIdUnit hkey hother hpmessageId)]

/-- **What the scanner reads of a request body.** The texts are read without their escapes. The
    payload is looked for in the chat id before it, and then it is the sender hash. -/
theorem readFragment_texts (hid : IdText p.id) (hmessageId : IdText p.messageId) :
    readFragment (requestBody p) =
      { id := toWire p.id, messageId := toWire p.messageId, chatId := scanned p.chatId
        senderHash := scanned p.senderHash
        payload :=
          if QuotedSuffix (js "payload") p.chatId then scanned p.senderHash else scanned p.payload
        ttl := (readFragment (requestBody p)).ttl } := by
  have hids : ∀ s, IdText s → scanned s = toWire s := fun s hs =>
    scanned_of_wireSafe (wireSafe_of_isIdUnit hs)
  rw [← hids _ hid, ← hids _ hmessageId]
  simp only [readFragment, requestBody_eq, FragmentPost.mk.injEq, and_true]
  refine ⟨?id, ?messageId, ?chatId, ?senderHash, ?payload⟩
  case id =>
    refine extractString_stringMembers (by simp [stringMembers]) ?_
    rw [stringMembers, reading_cons_self]
    rfl
  case messageId =>
    refine extractString_stringMembers (by simp [stringMembers]) ?_
    rw [stringMembers, reading_cons_of_ne (by decide),
      if_neg (not_suffix_of_isIdUnit (by decide) (by decide) hid), reading_cons_self]
    rfl
  case chatId =>
    refine extractString_stringMembers (by simp [stringMembers]) ?_
    rw [reading_ids hid hmessageId (by decide) (by decide) (by decide) (by decide),
      reading_cons_self]
    rfl
  case senderHash =>
    -- The member after the chat id is the right one anyway.
    refine extractString_stringMembers (by simp [stringMembers]) ?_
    rw [reading_ids hid hmessageId (by decide) (by decide) (by decide) (by decide),
      reading_cons_of_ne (by decide), reading_cons_self, ite_self]
    rfl
  case payload =>
    have hchat : 0x22 :: lit "payload" <:+ 0x22 :: quotedBytes p.chatId ↔
        QuotedSuffix (js "payload") p.chatId := suffix_quotedBytes_iff (by decide) p.chatId
    rw [← apply_ite scanned]
    refine extractString_stringMembers (by simp [stringMembers]) ?_
    rw [reading_ids hid hmessageId (by decide) (by decide) (by decide) (by decide),
      reading_cons_of_ne (by decide), reading_cons_of_ne (by decide), reading_cons_self, ite_self]
    simp only [hchat]
    split <;> rfl

/-- The time to live is looked for in the values before it, and then there is none. -/
theorem ttl_readFragment (hid : IdText p.id) (hmessageId : IdText p.messageId)
    (httl : 0 ≤ p.ttl ∧ p.ttl ≤ 9007199254740991) :
    (readFragment (requestBody p)).ttl =
      if QuotedSuffix (js "ttl") p.chatId ∨ QuotedSuffix (js "ttl") p.senderHash then 0
      else p.ttl := by
  have hsuffix : ∀ s, 0x22 :: lit "ttl" <:+ 0x22 :: quotedBytes s ↔ QuotedSuffix (js "ttl") s :=
    suffix_quotedBytes_iff (by decide)
  have hnumber : toWire (numberText p.ttl ++ js "\x7d") = showInt p.ttl ++ [0x7D] := by
    rw [numberText, showInt, if_neg (by omega), if_neg (by omega), toWire_decimal]
    rfl
  -- The members that are read on from the first occurrence of the name.
  have hread : reading (lit "ttl") (stringMembers p) =
      if QuotedSuffix (js "ttl") p.chatId then
        [(lit "sender_hash", quotedBytes p.senderHash), (lit "payload", quotedBytes p.payload)]
      else if QuotedSuffix (js "ttl") p.senderHash then [(lit "payload", quotedBytes p.payload)]
      else [] := by
    rw [reading_ids hid hmessageId (by decide) (by decide) (by decide) (by decide),
      reading_cons_of_ne (by decide), reading_cons_of_ne (by decide),
      reading_cons_of_ne (by decide), reading, ite_self]
    simp only [hsuffix]
  simp only [readFragment, requestBody_eq]
  split
  · rename_i hname
    refine extractInt_members plainName_ttl plainName_ttl (plainMember_stringMembers p) (.inr rfl) ?_
    rw [hread]
    split
    · simp
    · rename_i hnot
      rw [if_pos (hname.resolve_left hnot)]
      simp
  · rename_i hnone
    rw [not_or] at hnone
    rw [hnumber]
    refine extractInt_last plainName_ttl plainName_ttl (plainMember_stringMembers p) (.inr rfl)
      httl.1 httl.2 ?_
    rw [hread, if_neg hnone.1, if_neg hnone.2]

/-- Well-formed texts without control characters are read as they are. -/
theorem readFragment_requestBody (hp : Posted p) (hchatId : isWellFormed p.chatId = true)
    (hsenderHash : isWellFormed p.senderHash = true) :
    readFragment (requestBody p) =
      { id := toWire p.id, messageId := toWire p.messageId, chatId := toWire p.chatId
        senderHash := toWire p.senderHash
        payload :=
          if QuotedSuffix (js "payload") p.chatId then toWire p.senderHash else toWire p.payload
        ttl :=
          if QuotedSuffix (js "ttl") p.chatId ∨ QuotedSuffix (js "ttl") p.senderHash then 0
          else p.ttl } := by
  rw [readFragment_texts hp.id hp.messageId, ttl_readFragment hp.id hp.messageId hp.ttl,
    scanned_of_wireSafe (wireSafe_iff.mpr ⟨hchatId, hp.chatId⟩),
    scanned_of_wireSafe (wireSafe_iff.mpr ⟨hsenderHash, hp.senderHash⟩),
    scanned_of_wireSafe (wireSafe_of_isCodeUnit hp.payload)]

/-- Transparent texts travel unchanged. -/
theorem readFragment_transparent (hp : Posted p) (hchatId : Transparent p.chatId)
    (hsenderHash : Transparent p.senderHash) :
    readFragment (requestBody p) = p.map toWire := by
  have hpayload : js "payload" ∈ memberNames := by decide
  have httl : js "ttl" ∈ memberNames := by decide
  rw [readFragment_requestBody hp (isWellFormed_of_wireSafe hchatId.1)
    (isWellFormed_of_wireSafe hsenderHash.1), if_neg (hchatId.2 _ hpayload),
    if_neg (not_or.mpr ⟨hchatId.2 _ httl, hsenderHash.2 _ httl⟩)]
  rfl

/-- **The members that a backend stores are those it reads.** In an honest world, the handler
    finds the members of a POST as the world hands them over. -/
theorem World.Honest.readFragment_post {B ι : Type} {E : Env B} {w : World B ι} (h : w.Honest E)
    {s : Sent ι} (hs : s ∈ w.sent) {q : Server × FragmentPost JsString} (hq : q ∈ s.posts)
    (httl : 0 ≤ q.2.ttl ∧ q.2.ttl ≤ 9007199254740991) :
    readFragment (requestBody q.2) = q.2.map toWire := by
  obtain ⟨hsenderHash, hchatId⟩ := h.transparent s hs
  have hposted := posted_of_genuine (h.genuine s hs) (wireSafe_iff.mp hchatId.1).2
    (wireSafe_iff.mp hsenderHash.1).2 hq httl
  obtain ⟨j, hj⟩ := List.mem_iff_getElem?.mp hq
  obtain ⟨-, -, hchat, hsender⟩ := (h.genuine s hs).post j q hj
  exact readFragment_transparent hposted (hchat ▸ hchatId) (hsender ▸ hsenderHash)

/-- **The fragments that the scanner reads as they were written.** The chat id and the sender
    hash have no lone surrogate. A chat id that ends in the name `payload` is followed by a
    sender hash equal to the payload, and a chat id or sender hash that ends in the name
    `ttl` is part of a fragment that never expires. -/
theorem scanner_reads_iff (hp : Posted p) :
    (readFragment (requestBody p)).map fromWire = p ↔
      isWellFormed p.chatId = true ∧ isWellFormed p.senderHash = true ∧
      (QuotedSuffix (js "payload") p.chatId → p.senderHash = p.payload) ∧
      (QuotedSuffix (js "ttl") p.chatId ∨ QuotedSuffix (js "ttl") p.senderHash → p.ttl = 0) := by
  by_cases hwf : isWellFormed p.chatId = true ∧ isWellFormed p.senderHash = true
  · obtain ⟨hchatId, hsenderHash⟩ := hwf
    have hback : ∀ s, WireSafe s → fromWire (toWire s) = s := fun s hs =>
      fromWire_toWire (isWellFormed_of_wireSafe hs)
    have hsender := hback _ (wireSafe_iff.mpr ⟨hsenderHash, hp.senderHash⟩)
    have hpayload := hback _ (wireSafe_of_isCodeUnit hp.payload)
    rw [readFragment_requestBody hp hchatId hsenderHash, FragmentPost.map]
    constructor
    · intro h
      have hpayloadRead := congrArg FragmentPost.payload h
      have httlRead := congrArg FragmentPost.ttl h
      refine ⟨hchatId, hsenderHash, fun hsuffix => ?_, fun hsuffix => ?_⟩
      · simpa only [if_pos hsuffix, hsender] using hpayloadRead
      · simpa only [if_pos hsuffix] using httlRead.symm
    · rintro ⟨-, -, hpayloadIf, httlIf⟩
      have hpayloadRead : fromWire (if QuotedSuffix (js "payload") p.chatId then
          toWire p.senderHash else toWire p.payload) = p.payload := by
        split
        · rename_i hsuffix
          rw [hsender, hpayloadIf hsuffix]
        · exact hpayload
      have httlRead : (if QuotedSuffix (js "ttl") p.chatId ∨ QuotedSuffix (js "ttl") p.senderHash
          then 0 else p.ttl) = p.ttl := by
        split
        · rename_i hsuffix
          exact (httlIf hsuffix).symm
        · rfl
      rw [hpayloadRead, httlRead, hback _ (wireSafe_of_isIdUnit hp.id),
        hback _ (wireSafe_of_isIdUnit hp.messageId),
        hback _ (wireSafe_iff.mpr ⟨hchatId, hp.chatId⟩), hsender]
  · -- What is read back is always well-formed.
    refine iff_of_false (fun h => hwf ?_) fun h => hwf ⟨h.1, h.2.1⟩
    have hchat := congrArg FragmentPost.chatId h
    have hsender := congrArg FragmentPost.senderHash h
    exact ⟨hchat ▸ isWellFormed_fromWire _, hsender ▸ isWellFormed_fromWire _⟩

end Read

/-! ## Fragments to look at -/

namespace Sample

def uuid : JsString := js "0f8fad5b-d9cb-469f-a165-70867728950e"

/-- The first fragment of a message with the payload `QUJD`. -/
def fragment (chatId senderHash : JsString) (ttl : Int) : FragmentPost JsString where
  id := fragmentId uuid 0
  messageId := uuid
  chatId := chatId
  senderHash := senderHash
  payload := js "QUJD"
  ttl := ttl

theorem posted_fragment {chatId senderHash : JsString} {ttl : Int} (hchatId : NoControl chatId)
    (hsenderHash : NoControl senderHash) (httl : 0 ≤ ttl ∧ ttl ≤ 9007199254740991) :
    Posted (fragment chatId senderHash ttl) where
  id := (by decide : IdText (fragmentId uuid 0))
  messageId := (by decide : IdText uuid)
  chatId := hchatId
  senderHash := hsenderHash
  payload := by
    have hbase64 : js "QUJD" = Base64.btoa [0x41, 0x42, 0x43] := by decide
    intro u hu
    rw [fragment, hbase64] at hu
    exact Base64.isCodeUnit_of_mem_btoa hu
  ttl := httl

end Sample

/-- A chat id with quotes and a backslash in it. -/
theorem quotes_are_read :
    (readFragment (requestBody (Sample.fragment (js "a\"ttl\"\\") (js "payload") 60))).map fromWire =
      Sample.fragment (js "a\"ttl\"\\") (js "payload") 60 :=
  (scanner_reads_iff (Sample.posted_fragment (by decide) (by decide) (by decide))).mpr (by decide)

/-- The fragment is posted, and something else is read. -/
def Misread (p : FragmentPost JsString) : Prop :=
  Posted p ∧ (readFragment (requestBody p)).map fromWire ≠ p

/-- A chat id that is a member name, a sender hash that ends in one, and a lone surrogate. -/
theorem names_are_misread :
    Misread (Sample.fragment (js "payload") (js "hash") 0) ∧
      Misread (Sample.fragment (js "c") (js "\"ttl") 60) ∧
      Misread (Sample.fragment [0xD800] (js "hash") 0) := by
  refine ⟨⟨?_, by decide +kernel⟩, ⟨?_, by decide +kernel⟩, ?_, by decide +kernel⟩ <;>
    exact Sample.posted_fragment (by decide) (by decide) (by decide)

end Frag
