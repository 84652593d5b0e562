import Frag.Backend.Config
import Frag.Library.JsonPlaces

/-!
# Reading the Configuration

Where `load_config` reads the settings of a JSON object. A setting is read as JSON if its search
ends at the member itself and the value is plain there: a text without a backslash, tokens
without backslashes and closing brackets, a number that is its integer part.

## Main results

- `numberAt_iff`, `textAt_iff`, `tokensAt_iff`: what is read at a member;
- `located_config_is_json_iff`, `loadConfig_of_located`: configurations whose members are found;
- `config_is_json_iff`: the configurations that are read as JSON.
-/

namespace Frag

open Scan

/-! ## Numbers -/

/-- White space of JSON is white space of the conversions. -/
theorem dropWhile_skipSpace (s : Bytes) : (Json.skipSpace s).dropWhile isSpace = s.dropWhile isSpace := by
  induction s with
  | nil => rfl
  | cons c s ih =>
    by_cases hc : Json.isSpace c = true
    · have hspace : isSpace c = true := by
        simp only [Json.isSpace, Bool.or_eq_true, beq_iff_eq] at hc
        rcases hc with ((rfl | rfl) | rfl) | rfl <;> rfl
      rw [Json.skipSpace, List.dropWhile_cons_of_pos hc, ← Json.skipSpace, ih,
        List.dropWhile_cons_of_pos hspace]
    · rw [Json.skipSpace, List.dropWhile_cons_of_neg hc]

/-- The conversions read the integer part of a JSON number. -/
theorem readSigned_of_number {s rest : Bytes} {m e : Int}
    (h : Json.number? (Json.skipSpace s) = some (.number m e, rest)) :
    readSigned s = Json.integerDigits (Json.skipSpace s) := by
  obtain ⟨hne, -⟩ := Json.integerDigits_of_number h
  rw [readSigned, ← dropWhile_skipSpace]
  cases hskip : Json.skipSpace s with
  | nil =>
    rw [hskip] at hne
    exact absurd rfl hne
  | cons c t =>
    rw [hskip, Json.integerDigits] at hne
    rw [Json.integerDigits]
    split at hne
    · rename_i hc
      subst hc
      rw [if_pos rfl, List.dropWhile_cons_of_neg (by decide)]
      rfl
    · rename_i hc
      rw [if_neg hc]
      -- The number begins with a digit.
      have hdigit : Decimal.isDigit c = true := by
        by_contra hdigit
        exact hne (List.takeWhile_cons_of_neg hdigit)
      have hrest : ∀ d ∈ ((c :: t).dropWhile Decimal.isDigit).head?, Decimal.isDigit d = false := by
        intro d hd
        have hhead := List.head?_dropWhile_not Decimal.isDigit (c :: t)
        rw [Option.mem_def.mp hd] at hhead
        simpa using hhead
      have hread := readSigned_digits hne (fun d hd => List.mem_takeWhile_imp hd) hrest
      rwa [List.takeWhile_append_dropWhile, readSigned] at hread

section Convert

variable {s rest : Bytes} {m e : Int}

theorem stoi_of_number (h : Json.number? (Json.skipSpace s) = some (.number m e, rest)) :
    stoi s = if inInt (Json.integerPart s) then some (Json.integerPart s) else none := by
  have hne := (Json.integerDigits_of_number h).1
  have hstoll : stoll s = if -9223372036854775808 ≤ Json.integerPart s ∧
      Json.integerPart s ≤ 9223372036854775807 then some (Json.integerPart s) else none := by
    simp only [stoll, readSigned_of_number h, if_neg hne]
    rfl
  rw [stoi, hstoll]
  split
  · rw [Option.filter_some]
  · rename_i hrange
    have hout : inInt (Json.integerPart s) = false := by
      rw [← Bool.not_eq_true]
      simp only [inInt, Bool.and_eq_true, decide_eq_true_eq]
      omega
    rw [hout]
    rfl

/-- Of the negative numbers only -0 is a `size_t`. -/
theorem stoull_of_number {n : Int} (h : Json.number? (Json.skipSpace s) = some (.number m e, rest))
    (hn : (Json.number m e).int? = some n) (hsize : inSize n = true) :
    stoull s = if inSize (Json.integerPart s) then some (Json.integerPart s).toNat else none := by
  obtain ⟨hne, k, hk, hm⟩ := Json.integerDigits_of_number h
  rw [inSize, Bool.and_eq_true, decide_eq_true_eq, decide_eq_true_eq] at hsize
  have hsign := Json.mantissa_nonneg hn hsize.1
  rw [stoull, readSigned_of_number h, Json.integerPart]
  rcases hdigits : Json.integerDigits (Json.skipSpace s) with ⟨negative, digits⟩
  simp only [hdigits] at hne hk hm ⊢
  rw [if_neg hne]
  cases negative with
  | true =>
    -- The number is not negative, so no digit before the fraction counts.
    have hzero : Decimal.value digits = 0 := by
      rw [if_pos rfl] at hm
      omega
    rw [hzero]
    rfl
  | false =>
    simp only [Bool.false_eq_true, if_false, inSize, Int.natCast_nonneg, decide_true, Bool.true_and,
      decide_eq_true_eq]
    by_cases hle : Decimal.value digits ≤ 18446744073709551615
    · rw [if_neg (by omega), if_pos (by omega)]
      rfl
    · rw [if_pos (by omega), if_neg (by omega)]

end Convert

/-! ## Tokens -/

section Tokens

variable {raw : Bytes}

/-- Nothing is read between the strings. -/
theorem tokensFrom_append {a : Bytes} (h : 0x22 ∉ a) (s : Bytes) :
    tokensFrom none (a ++ s) = tokensFrom none s := by
  induction a with
  | nil => rfl
  | cons c a ih =>
    rw [List.mem_cons, not_or] at h
    rw [List.cons_append, tokensFrom, if_neg (Ne.symm h.1), ih h.2]

/-- A string is read up to its closing quote, as it stands. -/
theorem tokensFrom_quotable (h : Json.Quotable raw) (tok s : Bytes) :
    tokensFrom (some tok) (raw ++ 0x22 :: s) = (tok ++ raw) :: tokensFrom none s := by
  induction h generalizing tok with
  | nil => rw [List.nil_append, List.append_nil, tokensFrom_quote]
  | byte hquote hbackslash _ ih =>
    rw [List.cons_append, tokensFrom_byte hquote hbackslash, ih, List.append_assoc]
    rfl
  | pair _ ih =>
    rw [List.cons_append, List.cons_append, tokensFrom_pair, ih, List.append_assoc]
    rfl

/-- A string that is cut off is read up to there. -/
theorem tokensFrom_cut (h : Json.Quotable raw) (tok : Bytes) {s : Bytes} (hs : s <+: raw) :
    tokensFrom (some tok) s = [tok ++ s] := by
  induction h generalizing tok s with
  | nil =>
    rw [List.prefix_nil.mp hs, List.append_nil]
    rfl
  | byte hquote hbackslash _ ih =>
    cases s with
    | nil =>
      rw [List.append_nil]
      rfl
    | cons c s =>
      obtain ⟨rfl, htail⟩ := List.cons_prefix_cons.mp hs
      rw [tokensFrom_byte hquote hbackslash, ih _ htail, List.append_assoc]
      rfl
  | pair _ ih =>
    match s with
    | [] =>
      rw [List.append_nil]
      rfl
    | [c] =>
      -- The backslash is kept, although what it escapes is cut off.
      obtain ⟨rfl, -⟩ := List.cons_prefix_cons.mp hs
      rfl
    | c :: e :: s =>
      obtain ⟨rfl, htail⟩ := List.cons_prefix_cons.mp hs
      obtain ⟨rfl, htail'⟩ := List.cons_prefix_cons.mp htail
      rw [tokensFrom_pair, ih _ htail', List.append_assoc]
      rfl

/-- The text before the closing bracket. -/
abbrev bracketed (s : Bytes) : Bytes := s.takeWhile (· ≠ 0x5D)

/-- From `s` on the tokens are read iff they are plain. -/
def ReadsTokens (s : Bytes) (ts : List Bytes) : Prop :=
  0x5D ∈ s ∧ (tokensFrom none (bracketed s) = ts ↔
    0x5C ∉ bracketed s ∧ ∀ t ∈ ts, 0x5D ∉ t)

theorem readsTokens_close (s : Bytes) : ReadsTokens (0x5D :: s) [] := by
  refine ⟨List.mem_cons_self, ?_⟩
  rw [bracketed, List.takeWhile_cons_of_neg (by decide)]
  exact iff_of_true rfl ⟨List.not_mem_nil, nofun⟩

section ReadsTokens

variable {s : Bytes} {ts : List Bytes}

/-- White space and a comma change nothing. -/
theorem ReadsTokens.skip {a : Bytes} (h : ReadsTokens s ts) (hquote : 0x22 ∉ a)
    (hbackslash : 0x5C ∉ a) (hbracket : 0x5D ∉ a) : ReadsTokens (a ++ s) ts := by
  refine ⟨List.mem_append_right _ h.1, ?_⟩
  rw [bracketed, takeWhile_append_of_notMem hbracket, tokensFrom_append hquote, h.2,
    List.mem_append, not_or]
  simp only [hbackslash, not_false_eq_true, true_and]

theorem ReadsTokens.skipSpace (h : ReadsTokens (Json.skipSpace s) ts) : ReadsTokens s ts := by
  obtain ⟨blank, hs, hblank⟩ := Json.exists_skipSpace s
  rw [hs]
  refine h.skip (fun hmem => ?_) (fun hmem => ?_) (fun hmem => ?_)
  · exact absurd (hblank _ hmem) (by decide)
  · exact absurd (hblank _ hmem) (by decide)
  · exact absurd (hblank _ hmem) (by decide)

/-- A string before them. -/
theorem ReadsTokens.string {is : List Json.Item} (hbody : Json.Body raw is) (h : ReadsTokens s ts) :
    ReadsTokens (0x22 :: (raw ++ 0x22 :: s)) (Json.text is :: ts) := by
  refine ⟨by simp [h.1], ?_⟩
  have hopen : ∀ t : Bytes, tokensFrom none (0x22 :: t) = tokensFrom (some []) t := fun t => by
    rw [tokensFrom, if_pos rfl]
  rw [bracketed, List.takeWhile_cons_of_pos (by decide), hopen]
  by_cases hbracket : 0x5D ∈ raw
  · -- The string is cut at the bracket that it has.
    have hcut : (raw ++ 0x22 :: s).takeWhile (· ≠ 0x5D) <+: raw := by
      rw [takeWhile_append_of_mem hbracket]
      exact List.takeWhile_prefix _
    have hmem := hbody.bracket_mem hbracket
    rw [tokensFrom_cut hbody.quotable [] hcut, List.nil_append]
    refine iff_of_false (fun heq => ?_) (fun hplain => hplain.2 _ List.mem_cons_self hmem)
    rw [← (List.cons.inj heq).1] at hmem
    exact absurd (List.mem_takeWhile_imp hmem) (by decide)
  · -- The string is read as it stands, and the others after it.
    rw [takeWhile_append_of_notMem hbracket, List.takeWhile_cons_of_pos (by decide),
      tokensFrom_quotable hbody.quotable, List.nil_append, List.cons.injEq, eq_comm,
      hbody.text_eq_iff, h.2, List.forall_mem_cons]
    simp only [List.mem_cons, List.mem_append, not_or]
    constructor
    · rintro ⟨hbackslash, hrest, hts⟩
      refine ⟨⟨by decide, hbackslash, by decide, hrest⟩, ?_, hts⟩
      rwa [hbody.text_eq_iff.mpr hbackslash]
    · rintro ⟨⟨-, hbackslash, -, hrest⟩, -, hts⟩
      exact ⟨hbackslash, hrest, hts⟩

/-- The elements of an array of strings. -/
theorem readsTokens_items {n k : Nat} {rest : Bytes}
    (h : Json.items (Json.value n) 0x5D k s = some (ts.map .string, rest)) : ReadsTokens s ts := by
  induction k generalizing s ts with
  | zero => cases h
  | succ k ih =>
    obtain ⟨⟨v, s₁⟩, hv, h⟩ := Option.bind_eq_some_iff.mp h
    obtain ⟨n, rfl⟩ : ∃ m, n = m + 1 := by
      cases n with
      | zero => cases hv
      | succ n => exact ⟨n, rfl⟩
    have hstands := Json.stands_of_value hv
    -- The first element is a string, and the others follow a comma.
    have hhead : ∀ {t ts'}, v = .string t → ReadsTokens s₁ ts' → ReadsTokens s (t :: ts') := by
      rintro t ts' rfl hrest
      obtain ⟨u, hskip, hstring⟩ := hstands
      obtain ⟨raw, is, hbody, rfl, rfl⟩ := Json.exists_body_of_string? hstring
      apply ReadsTokens.skipSpace
      rw [hskip]
      exact hrest.string hbody
    simp only at h
    split at h
    · cases h
    · rename_i c s₂ hskip
      split at h
      · rename_i hc
        obtain ⟨⟨vs, s₃⟩, hvs, heq⟩ := Option.map_eq_some_iff.mp h
        cases ts with
        | nil => cases heq
        | cons t ts =>
          rw [Prod.mk.injEq, List.map_cons, List.cons.injEq] at heq
          obtain ⟨⟨hvt, rfl⟩, rfl⟩ := heq
          apply hhead hvt
          apply ReadsTokens.skipSpace
          rw [hskip, hc]
          exact (ih hvs).skip (a := [0x2C]) (by decide) (by decide) (by decide)
      · split at h
        · rename_i hc
          cases ts with
          | nil => cases h
          | cons t ts =>
            rw [Option.some.injEq, Prod.mk.injEq, List.map_cons, List.cons.injEq] at h
            obtain ⟨⟨hvt, hnil⟩, rfl⟩ := h
            rw [List.map_eq_nil_iff.mp hnil.symm]
            apply hhead hvt
            apply ReadsTokens.skipSpace
            rw [hskip, hc]
            exact readsTokens_close s₂
        · cases h

/-- **An array of strings** after its opening bracket. -/
theorem readsTokens_sequence {n : Nat} {rest : Bytes}
    (h : Json.sequence (Json.value n) 0x5D s = some (ts.map .string, rest)) : ReadsTokens s ts := by
  unfold Json.sequence at h
  split at h
  · cases h
  · rename_i c t hskip
    split at h
    · rename_i hc
      rw [Option.some.injEq, Prod.mk.injEq] at h
      rw [List.map_eq_nil_iff.mp h.1.symm]
      apply ReadsTokens.skipSpace
      rw [hskip, hc]
      exact readsTokens_close t
    · exact readsTokens_items h

end ReadsTokens

end Tokens

/-! ## What is read at a member -/

/-- The text of a value after its quote or bracket. -/
def afterOpening (f : Json × Bytes) : Bytes := (Json.skipSpace f.2).tail

/-- The number is its integer part, or the integer part is out of range and the number is the
    default. -/
@[reducible] def IsIntegerPart (range : Int → Bool) (default : Int) (f : Json × Bytes) : Prop :=
  f.1.int? = some (Json.integerPart f.2) ∨
    range (Json.integerPart f.2) = false ∧ f.1.int? = some default

/-- No backslash stands before the first quote. -/
@[reducible] def IsPlainText (f : Json × Bytes) : Prop := 0x5C ∉ (afterOpening f).takeWhile (· ≠ 0x22)

/-- No backslash stands before the first closing bracket, and no token has such a bracket. -/
@[reducible] def ArePlainTokens (f : Json × Bytes) : Prop :=
  0x5C ∉ bracketed (afterOpening f) ∧ ∀ ts ∈ f.1.texts?, ∀ t ∈ ts, 0x5D ∉ t

/-- The integer of a member. -/
def intOf (ms : List (Bytes × Json)) (key : Bytes) (default : Int) : Int :=
  ((Json.lookup ms key).bind Json.int?).getD default

/-- The text of a member. -/
def textOf (ms : List (Bytes × Json)) (key default : Bytes) : Bytes :=
  ((Json.lookup ms key).bind Json.text?).getD default

/-- The texts of a member. -/
def textsOf (ms : List (Bytes × Json)) (key : Bytes) : List Bytes :=
  ((Json.lookup ms key).bind Json.texts?).getD []

section Members

variable {text key : Bytes} {ms : List (Bytes × Json)}

/-- The member that counts is the one with the text. -/
theorem lookup_of_field? (hparse : Json.parse text = some (.object ms)) :
    Json.lookup ms key = (Json.field? text key).map Prod.fst :=
  (Json.map_field? hparse).symm

/-- A number is read at its member iff it is its integer part. -/
theorem numberAt_iff {α : Type} {convert : Bytes → Option α} {ofInt : Int → α} {range : Int → Bool}
    {default : Int} (hparse : Json.parse text = some (.object ms))
    (htype : ∀ v ∈ Json.lookup ms key, ∃ n ∈ v.int?, range n = true)
    (hdefault : range default = true)
    (hinj : ∀ m n, range m = true → range n = true → ofInt m = ofInt n → m = n)
    (hconvert : ∀ {s rest m e n}, Json.number? (Json.skipSpace s) = some (.number m e, rest) →
      (Json.number m e).int? = some n → range n = true →
      convert s = if range (Json.integerPart s) then some (ofInt (Json.integerPart s)) else none) :
    (((Json.field? text key).map Prod.snd).bind convert).getD (ofInt default) =
        ofInt (intOf ms key default) ↔
      ∀ f ∈ Json.field? text key, IsIntegerPart range default f := by
  rw [intOf, lookup_of_field? hparse] at *
  cases hfield : Json.field? text key with
  | none => exact iff_of_true rfl nofun
  | some f =>
    obtain ⟨v, s⟩ := f
    obtain ⟨n, hn, hrange⟩ := htype v (by rw [hfield]; rfl)
    rw [Option.mem_def] at hn
    obtain ⟨k, rest, hstands⟩ := Json.stands_of_field? hparse hfield
    cases v with
    | number m e =>
      simp only [Option.map_some, Option.bind_some, hconvert hstands hn hrange, hn, Option.getD_some,
        Option.mem_def, Option.some.injEq, forall_eq', IsIntegerPart]
      cases hpart : range (Json.integerPart s) with
      | true =>
        -- The integer part is converted.
        simp only [if_true, Option.getD_some, Bool.true_eq_false, false_and, or_false]
        constructor
        · intro heq
          exact (hinj _ _ hpart hrange heq).symm
        · rintro rfl
          rfl
      | false =>
        -- The conversion throws, and the default stays.
        simp only [Bool.false_eq_true, if_false, Option.getD_none, true_and]
        constructor
        · intro heq
          exact .inr (hinj _ _ hdefault hrange heq).symm
        · rintro (rfl | rfl)
          · rw [hpart] at hrange
            cases hrange
          · rfl
    | _ => cases hn

/-- A text is read at its member iff it is written without a backslash. -/
theorem textAt_iff (hparse : Json.parse text = some (.object ms))
    (htype : ∀ v ∈ Json.lookup ms key, v.text?.isSome = true) (default : Bytes) :
    (((Json.field? text key).map afterOpening).bind (upTo 0x22)).getD default =
        textOf ms key default ↔
      ∀ f ∈ Json.field? text key, IsPlainText f := by
  rw [textOf, lookup_of_field? hparse] at *
  cases hfield : Json.field? text key with
  | none => exact iff_of_true rfl nofun
  | some f =>
    obtain ⟨v, s⟩ := f
    obtain ⟨t, ht⟩ := Option.isSome_iff_exists.mp (htype v (by rw [hfield]; rfl))
    obtain ⟨k, rest, hstands⟩ := Json.stands_of_field? hparse hfield
    cases v with
    | string t' =>
      obtain rfl : t' = t := Option.some.inj ht
      obtain ⟨u, hskip, hstring⟩ := hstands
      obtain ⟨raw, is, hbody, rfl, rfl⟩ := Json.exists_body_of_string? hstring
      have hplace : afterOpening (.string (Json.text is), s) = raw ++ 0x22 :: rest := by
        rw [afterOpening, hskip, List.tail_cons]
      simp only [Option.map_some, Option.bind_some, hplace, Json.text?, Option.getD_some,
        Option.mem_def, Option.some.injEq, forall_eq', IsPlainText]
      have hclosed : 0x22 ∈ raw ++ 0x22 :: rest := List.mem_append_right _ List.mem_cons_self
      rw [upTo, if_pos hclosed, Option.getD_some]
      by_cases hquote : 0x22 ∈ raw
      · -- The text is cut at its first quote, and the string has that quote.
        rw [takeWhile_append_of_mem hquote]
        refine iff_of_false (fun heq => ?_) (fun hplain => hplain (hbody.quotable.backslash_mem hquote))
        have hmem := hbody.quote_mem hquote
        rw [← heq] at hmem
        exact absurd (List.mem_takeWhile_imp hmem) (by decide)
      · rw [takeWhile_append_of_notMem hquote, List.takeWhile_cons_of_neg (by decide), List.append_nil,
          eq_comm, hbody.text_eq_iff]
    | _ => cases ht

/-- Tokens are read at their member iff they are plain. -/
theorem tokensAt_iff (hparse : Json.parse text = some (.object ms))
    (htype : ∀ v ∈ Json.lookup ms key, v.texts?.isSome = true) :
    ((((Json.field? text key).map afterOpening).bind (upTo 0x5D)).map (tokensFrom none)).getD [] =
        textsOf ms key ↔
      ∀ f ∈ Json.field? text key, ArePlainTokens f := by
  rw [textsOf, lookup_of_field? hparse] at *
  cases hfield : Json.field? text key with
  | none => exact iff_of_true rfl nofun
  | some f =>
    obtain ⟨v, s⟩ := f
    obtain ⟨ts, hts⟩ := Option.isSome_iff_exists.mp (htype v (by rw [hfield]; rfl))
    obtain ⟨k, rest, hstands⟩ := Json.stands_of_field? hparse hfield
    cases v with
    | array vs =>
      obtain rfl := Json.eq_of_mapM_text? hts
      -- The array ends at the first closing bracket, or the tokens are cut.
      obtain ⟨u, hskip, hsequence⟩ := hstands
      obtain ⟨hclosed, hread⟩ := readsTokens_sequence hsequence
      have hplace : afterOpening (.array (ts.map .string), s) = u := by
        rw [afterOpening, hskip, List.tail_cons]
      simp only [Option.map_some, Option.bind_some, hplace, hts, upTo, if_pos hclosed,
        Option.getD_some, Option.mem_def, Option.some.injEq, forall_eq', ArePlainTokens]
      exact hread
    | _ => cases hts

end Members

/-! ## The whole configuration -/

/-- The settings that the members give, with the defaults for those that are absent. -/
def Config.ofMembers (ms : List (Bytes × Json)) : Config :=
  let cfg : Config := {}
  { port := intOf ms (lit "port") cfg.port
    tokens := textsOf ms (lit "tokens")
    dbPath := textOf ms (lit "db_path") cfg.dbPath
    corsOrigin := textOf ms (lit "cors_origin") cfg.corsOrigin
    cleanupIntervalSec := intOf ms (lit "cleanup_interval_sec") cfg.cleanupIntervalSec
    maxPayloadBytes := (intOf ms (lit "max_payload_bytes") cfg.maxPayloadBytes).toNat
    rateLimitPerIp := intOf ms (lit "rate_limit_per_ip") cfg.rateLimitPerIp }

/-- The settings that are present have their types. -/
@[mk_iff] structure WellTyped (ms : List (Bytes × Json)) : Prop where
  port : ∀ v ∈ Json.lookup ms (lit "port"), ∃ n ∈ v.int?, inInt n = true
  tokens : ∀ v ∈ Json.lookup ms (lit "tokens"), v.texts?.isSome = true
  dbPath : ∀ v ∈ Json.lookup ms (lit "db_path"), v.text?.isSome = true
  corsOrigin : ∀ v ∈ Json.lookup ms (lit "cors_origin"), v.text?.isSome = true
  cleanupIntervalSec : ∀ v ∈ Json.lookup ms (lit "cleanup_interval_sec"),
    ∃ n ∈ v.int?, inInt n = true
  maxPayloadBytes : ∀ v ∈ Json.lookup ms (lit "max_payload_bytes"), ∃ n ∈ v.int?, inSize n = true
  rateLimitPerIp : ∀ v ∈ Json.lookup ms (lit "rate_limit_per_ip"), ∃ n ∈ v.int?, inInt n = true

instance (ms : List (Bytes × Json)) : Decidable (WellTyped ms) :=
  decidable_of_iff' _ (wellTyped_iff ms)

/-- The search for a setting ends at its member, and the value there is plain; or it ends
    elsewhere, and what stands there happens to give the same. -/
def Hits (own reached : Option Bytes) (plain same : Prop) : Prop :=
  reached = own ∧ plain ∨ reached ≠ own ∧ same

instance {own reached : Option Bytes} {plain same : Prop} [Decidable plain] [Decidable same] :
    Decidable (Hits own reached plain same) :=
  inferInstanceAs (Decidable (reached = own ∧ plain ∨ reached ≠ own ∧ same))

theorem hits_iff_of_eq {own reached : Option Bytes} {plain same : Prop} (h : reached = own) :
    Hits own reached plain same ↔ plain := by
  simp [Hits, h]

theorem hits_iff {α : Type} {own reached : Option Bytes} {plain : Prop} {f : Option Bytes → α}
    {value : α} (h : f own = value ↔ plain) :
    f reached = value ↔ Hits own reached plain (f reached = value) := by
  by_cases heq : reached = own
  · rw [heq, h]
    simp [Hits]
  · simp [Hits, heq]

section Hits

variable (text : Bytes) (ms : List (Bytes × Json)) (key : Bytes)

@[reducible] def NumberHits {α : Type} (convert : Bytes → Option α) (ofInt : Int → α) (range : Int → Bool)
    (default : Int) : Prop :=
  Hits ((Json.field? text key).map Prod.snd) (numberPlace text key)
    (∀ f ∈ Json.field? text key, IsIntegerPart range default f)
    (((numberPlace text key).bind convert).getD (ofInt default) = ofInt (intOf ms key default))

@[reducible] def TextHits (default : Bytes) : Prop :=
  Hits ((Json.field? text key).map afterOpening) (textPlace text key)
    (∀ f ∈ Json.field? text key, IsPlainText f)
    (((textPlace text key).bind (upTo 0x22)).getD default = textOf ms key default)

@[reducible] def TokensHit : Prop :=
  Hits ((Json.field? text key).map afterOpening) (tokensPlace text key)
    (∀ f ∈ Json.field? text key, ArePlainTokens f)
    ((((tokensPlace text key).bind (upTo 0x5D)).map (tokensFrom none)).getD [] = textsOf ms key)

/-- Every search ends where it should. -/
@[mk_iff] structure SearchesHit : Prop where
  port : NumberHits text ms (lit "port") stoi id inInt 8080
  tokens : TokensHit text ms (lit "tokens")
  dbPath : TextHits text ms (lit "db_path") (lit "frag.db")
  corsOrigin : TextHits text ms (lit "cors_origin") (lit "*")
  cleanupIntervalSec : NumberHits text ms (lit "cleanup_interval_sec") stoi id inInt 3600
  maxPayloadBytes : NumberHits text ms (lit "max_payload_bytes") stoull Int.toNat inSize 65536
  rateLimitPerIp : NumberHits text ms (lit "rate_limit_per_ip") stoi id inInt 60

instance : Decidable (SearchesHit text ms) := decidable_of_iff' _ (searchesHit_iff text ms)

end Hits

section Whole

variable {text key : Bytes} {ms : List (Bytes × Json)}

theorem readInt_iff (hparse : Json.parse text = some (.object ms))
    (htype : ∀ v ∈ Json.lookup ms key, ∃ n ∈ v.int?, inInt n = true) (default : Int)
    (hdefault : inInt default = true) :
    readNumber text key stoi default = intOf ms key default ↔
      NumberHits text ms key stoi id inInt default := by
  rw [readNumber_eq]
  exact hits_iff (f := fun place => (place.bind stoi).getD default)
    (numberAt_iff hparse htype hdefault (fun _ _ _ _ h => h) fun h _ _ => stoi_of_number h)

theorem readSize_iff (hparse : Json.parse text = some (.object ms))
    (htype : ∀ v ∈ Json.lookup ms key, ∃ n ∈ v.int?, inSize n = true) (default : Nat)
    (hdefault : inSize default = true) :
    readNumber text key stoull default = (intOf ms key default).toNat ↔
      NumberHits text ms key stoull Int.toNat inSize default := by
  have hinj : ∀ m n, inSize m = true → inSize n = true → m.toNat = n.toNat → m = n := by
    intro m n hm hn h
    rw [inSize, Bool.and_eq_true, decide_eq_true_eq] at hm hn
    omega
  rw [readNumber_eq]
  exact hits_iff (f := fun place => (place.bind stoull).getD default)
    (numberAt_iff hparse htype hdefault hinj stoull_of_number)

theorem readText_iff (hparse : Json.parse text = some (.object ms))
    (htype : ∀ v ∈ Json.lookup ms key, v.text?.isSome = true) (default : Bytes) :
    readText text key default = textOf ms key default ↔ TextHits text ms key default := by
  rw [readText_eq]
  exact hits_iff (f := fun place => (place.bind (upTo 0x22)).getD default)
    (textAt_iff hparse htype default)

theorem readTokens_iff (hparse : Json.parse text = some (.object ms))
    (htype : ∀ v ∈ Json.lookup ms key, v.texts?.isSome = true) :
    readTokens text key = textsOf ms key ↔ TokensHit text ms key := by
  rw [readTokens_eq]
  exact hits_iff (f := fun place => ((place.bind (upTo 0x5D)).map (tokensFrom none)).getD [])
    (tokensAt_iff hparse htype)

/-- Setting by setting. -/
theorem loadConfig_eq_iff : loadConfig (some text) = Config.ofMembers ms ↔
    readNumber text (lit "port") stoi 8080 = intOf ms (lit "port") 8080 ∧
      readTokens text (lit "tokens") = textsOf ms (lit "tokens") ∧
      readText text (lit "db_path") (lit "frag.db") = textOf ms (lit "db_path") (lit "frag.db") ∧
      readText text (lit "cors_origin") (lit "*") = textOf ms (lit "cors_origin") (lit "*") ∧
      readNumber text (lit "cleanup_interval_sec") stoi 3600 =
        intOf ms (lit "cleanup_interval_sec") 3600 ∧
      readNumber text (lit "max_payload_bytes") stoull 65536 =
        (intOf ms (lit "max_payload_bytes") (65536 : Nat)).toNat ∧
      readNumber text (lit "rate_limit_per_ip") stoi 60 = intOf ms (lit "rate_limit_per_ip") 60 := by
  simp only [loadConfig, Config.ofMembers, Config.mk.injEq]

/-- The searches of the settings end at their members, and nowhere for those that are absent. -/
structure Located (text : Bytes) : Prop where
  port : numberPlace text (lit "port") = (Json.field? text (lit "port")).map Prod.snd
  tokens : tokensPlace text (lit "tokens") = (Json.field? text (lit "tokens")).map afterOpening
  dbPath : textPlace text (lit "db_path") = (Json.field? text (lit "db_path")).map afterOpening
  corsOrigin : textPlace text (lit "cors_origin") =
    (Json.field? text (lit "cors_origin")).map afterOpening
  cleanupIntervalSec : numberPlace text (lit "cleanup_interval_sec") =
    (Json.field? text (lit "cleanup_interval_sec")).map Prod.snd
  maxPayloadBytes : numberPlace text (lit "max_payload_bytes") =
    (Json.field? text (lit "max_payload_bytes")).map Prod.snd
  rateLimitPerIp : numberPlace text (lit "rate_limit_per_ip") =
    (Json.field? text (lit "rate_limit_per_ip")).map Prod.snd

/-- The values of the settings are written the way they are read. -/
structure PlainValues (text : Bytes) : Prop where
  port : ∀ f ∈ Json.field? text (lit "port"), IsIntegerPart inInt 8080 f
  tokens : ∀ f ∈ Json.field? text (lit "tokens"), ArePlainTokens f
  dbPath : ∀ f ∈ Json.field? text (lit "db_path"), IsPlainText f
  corsOrigin : ∀ f ∈ Json.field? text (lit "cors_origin"), IsPlainText f
  cleanupIntervalSec : ∀ f ∈ Json.field? text (lit "cleanup_interval_sec"), IsIntegerPart inInt 3600 f
  maxPayloadBytes : ∀ f ∈ Json.field? text (lit "max_payload_bytes"), IsIntegerPart inSize 65536 f
  rateLimitPerIp : ∀ f ∈ Json.field? text (lit "rate_limit_per_ip"), IsIntegerPart inInt 60 f

/-- **Where the searches end at the members**, the configuration is read as JSON iff its values are
    plain. -/
theorem located_config_is_json_iff (hparse : Json.parse text = some (.object ms)) (htypes : WellTyped ms)
    (hlocated : Located text) : loadConfig (some text) = Config.ofMembers ms ↔ PlainValues text := by
  rw [loadConfig_eq_iff, (readInt_iff hparse htypes.port 8080 rfl).trans (hits_iff_of_eq hlocated.port),
    (readTokens_iff hparse htypes.tokens).trans (hits_iff_of_eq hlocated.tokens),
    (readText_iff hparse htypes.dbPath _).trans (hits_iff_of_eq hlocated.dbPath),
    (readText_iff hparse htypes.corsOrigin _).trans (hits_iff_of_eq hlocated.corsOrigin),
    (readInt_iff hparse htypes.cleanupIntervalSec 3600 rfl).trans
      (hits_iff_of_eq hlocated.cleanupIntervalSec),
    (readSize_iff hparse htypes.maxPayloadBytes 65536 rfl).trans (hits_iff_of_eq hlocated.maxPayloadBytes),
    (readInt_iff hparse htypes.rateLimitPerIp 60 rfl).trans (hits_iff_of_eq hlocated.rateLimitPerIp)]
  constructor
  · rintro ⟨hport, htokens, hdb, hcors, hcleanup, hpayload, hrate⟩
    exact ⟨hport, htokens, hdb, hcors, hcleanup, hpayload, hrate⟩
  · rintro ⟨hport, htokens, hdb, hcors, hcleanup, hpayload, hrate⟩
    exact ⟨hport, htokens, hdb, hcors, hcleanup, hpayload, hrate⟩

/-- Members that are found, with plain values, are read as JSON. -/
theorem loadConfig_of_located (hparse : Json.parse text = some (.object ms)) (htypes : WellTyped ms)
    (hlocated : Located text) (hplain : PlainValues text) :
    loadConfig (some text) = Config.ofMembers ms :=
  (located_config_is_json_iff hparse htypes hlocated).mpr hplain

/-- **The configurations that are read as JSON** are those in which every search ends at the
    member itself, and its value is plain. By coincidence a search that ends elsewhere can also find
    the value of the setting there. -/
theorem config_is_json_iff (hparse : Json.parse text = some (.object ms)) (htypes : WellTyped ms) :
    loadConfig (some text) = Config.ofMembers ms ↔ SearchesHit text ms := by
  rw [loadConfig_eq_iff, readInt_iff hparse htypes.port 8080 rfl, readTokens_iff hparse htypes.tokens,
    readText_iff hparse htypes.dbPath, readText_iff hparse htypes.corsOrigin,
    readInt_iff hparse htypes.cleanupIntervalSec 3600 rfl,
    readSize_iff hparse htypes.maxPayloadBytes 65536 rfl,
    readInt_iff hparse htypes.rateLimitPerIp 60 rfl]
  constructor
  · rintro ⟨hport, htokens, hdb, hcors, hcleanup, hpayload, hrate⟩
    exact ⟨hport, htokens, hdb, hcors, hcleanup, hpayload, hrate⟩
  · rintro ⟨hport, htokens, hdb, hcors, hcleanup, hpayload, hrate⟩
    exact ⟨hport, htokens, hdb, hcors, hcleanup, hpayload, hrate⟩

end Whole

/-! ## Configurations to look at -/

namespace Sample

/-- A text with some of the settings. -/
def configText : Bytes :=
  lit "\x7b\"tokens\": [\"a\", \"b\"], \"port\": 9000, \"db_path\": \"x\"\x7d"

/-- A text in which a token has a closing bracket. -/
def bracketText : Bytes := lit "\x7b\"tokens\": [\"a]b\", \"c\"]\x7d"

end Sample

open Sample

theorem config_text_is_json : ∃ ms, Json.parse configText = some (.object ms) ∧
    loadConfig (some configText) = Config.ofMembers ms := by
  have hchecked : ∃ ms ∈ (Json.parse configText).bind Json.members?,
      WellTyped ms ∧ SearchesHit configText ms := by
    decide +kernel
  obtain ⟨ms, hms, htypes, hhits⟩ := hchecked
  have hparse := Json.parse_of_mem_members? hms
  exact ⟨ms, hparse, (config_is_json_iff hparse htypes).mpr hhits⟩

/-- The list of tokens ends inside the first token, and the second one is lost. -/
theorem bracket_cuts_tokens : ∃ ms, Json.parse bracketText = some (.object ms) ∧ WellTyped ms ∧
    (Config.ofMembers ms).tokens = [lit "a]b", lit "c"] ∧
      (loadConfig (some bracketText)).tokens = [lit "a"] := by
  have hchecked : ∃ ms ∈ (Json.parse bracketText).bind Json.members?, WellTyped ms ∧
      (Config.ofMembers ms).tokens = [lit "a]b", lit "c"] ∧
        (loadConfig (some bracketText)).tokens = [lit "a"] := by
    decide +kernel
  obtain ⟨ms, hms, h⟩ := hchecked
  exact ⟨ms, Json.parse_of_mem_members? hms, h⟩

end Frag
