import Frag.Backend.Server

/-!
# Documented Access

A request is authorised if its `Authorization` header is a configured token, alone or after
`Bearer ` in any case; without configured tokens the server is open to anyone. `Auth::verify`
looks for the prefix first and trims what follows it, and it knows no open server.

## Main results

- `authorized_as_documented_iff`: the token lists and headers that are read as documented;
- `verify_bearer`: a configured token is accepted after the prefix.
-/

namespace Frag

/-- The value of the `Authorization` header. -/
def HttpRequest.authorization (req : HttpRequest) : Option Bytes :=
  req.headers.get? (lit "authorization")

/-! ## What is documented -/

/-- No token is configured, or the trimmed value is a token, alone or after the prefix. -/
def Granted (tokens : List Bytes) (value : Option Bytes) : Prop :=
  tokens = [] ∨ ∃ v ∈ value, trim v ∈ tokens ∨
    ∃ p t, trim v = p ++ t ∧ toLower p = lit "bearer " ∧ t ∈ tokens

/-- The blanks of HTTP fields and of lines. -/
def IsBlank (c : UInt8) : Prop := c = 0x20 ∨ c = 0x09 ∨ c = 0x0D ∨ c = 0x0A

instance : DecidablePred IsBlank := fun c =>
  inferInstanceAs (Decidable (c = 0x20 ∨ c = 0x09 ∨ c = 0x0D ∨ c = 0x0A))

/-- `Bearer ` in any case. -/
def IsScheme (p : Bytes) : Prop := toLower p = lit "bearer "

/-- The lists of tokens and the values that the server reads as documented: there is a token, an
    empty value is none, a token that begins as a prefixed one is also one without the prefix, and
    further blanks after the prefix stand before a token only if they are also part of one. -/
structure ReadAsDocumented (tokens : List Bytes) (value : Option Bytes) : Prop where
  configured : tokens ≠ []
  nonempty : value = some [] → [] ∉ tokens
  plain : ∀ p t, value = some (p ++ t) → IsScheme p → (∀ c ∈ t.head?, ¬ IsBlank c) →
    p ++ t ∈ tokens → t ∈ tokens
  blanks : ∀ p b t, value = some (p ++ (b ++ t)) → IsScheme p → b ≠ [] → (∀ c ∈ b, IsBlank c) →
    (∀ c ∈ t.head?, ¬ IsBlank c) →
    (t ∈ tokens ∧ (b ++ t ∈ tokens ∨ p ++ (b ++ t) ∈ tokens)) ∨
      (t ∉ tokens ∧ b ++ t ∉ tokens ∧ p ++ (b ++ t) ∉ tokens)

/-! ## Headers -/

/-- The values of the headers are trimmed. -/
theorem trim_header {segs : List Segment} {key v : Bytes}
    (h : (readAndParse segs).headers.get? key = some v) : trim v = v := by
  -- Every line of the headers is trimmed before it is stored.
  have hfold : ∀ (lines : List Bytes) (headers : Params),
      (∀ key v, headers.get? key = some v → trim v = v) →
      ∀ key v, (lines.foldl addHeader headers).get? key = some v → trim v = v := by
    intro lines
    induction lines with
    | nil => exact fun headers hheaders => hheaders
    | cons line lines ih =>
      intro headers hheaders
      refine ih _ fun key v hv => ?_
      unfold addHeader at hv
      split at hv
      · exact hheaders key v hv
      · rw [OrderedMap.get?_set] at hv
        split at hv
        · cases hv
          exact trim_trim _
        · exact hheaders key v hv
  have hblank : ∀ key v, HttpRequest.blank.headers.get? key = some v → trim v = v := by
    intro key v hv
    cases hv
  unfold readAndParse ReadState.parse at h
  split at h
  · exact hblank key v h
  · simp only at h
    split at h
    · exact hblank key v h
    · exact hfold _ _ hblank key v h

/-! ## Reading a value -/

variable {tokens : List Bytes} {v : Bytes}

/-- The prefix is found in the first seven bytes. -/
theorem exists_bearer_iff {P : Bytes → Prop} :
    (∃ p t, v = p ++ t ∧ toLower p = lit "bearer " ∧ P t) ↔
      toLower (v.take 7) = lit "bearer " ∧ P (v.drop 7) := by
  constructor
  · rintro ⟨p, t, rfl, hp, ht⟩
    have hlength : p.length = 7 := by
      have hlower := congrArg List.length hp
      rwa [toLower, List.length_map] at hlower
    rw [← hlength, List.take_left, List.drop_left]
    exact ⟨hp, ht⟩
  · rintro ⟨hp, ht⟩
    exact ⟨v.take 7, v.drop 7, (List.take_append_drop 7 v).symm, hp, ht⟩

/-- What `Auth::verify` accepts. -/
theorem verify_iff : Auth.verify ⟨tokens⟩ v = true ↔ v ≠ [] ∧
    ((toLower (v.take 7) = lit "bearer " ∧ trim (v.drop 7) ∈ tokens) ∨
      (toLower (v.take 7) ≠ lit "bearer " ∧ v ∈ tokens)) := by
  unfold Auth.verify
  by_cases hempty : v = []
  · simp [hempty]
  · by_cases hp : toLower (v.take 7) = lit "bearer " <;> simp [hempty, hp]

/-- A configured token without surrounding blanks is accepted after the prefix. -/
theorem verify_bearer {p t : Bytes} (ht : t ∈ tokens) (htrim : trim t = t)
    (hp : toLower p = lit "bearer ") : Auth.verify ⟨tokens⟩ (p ++ t) = true := by
  rw [verify_iff]
  obtain ⟨hscheme, htoken⟩ := (exists_bearer_iff (P := fun t => trim t ∈ tokens)).mp
    ⟨p, t, rfl, hp, htrim.symm ▸ ht⟩
  refine ⟨fun h => ?_, .inl ⟨hscheme, htoken⟩⟩
  rw [List.append_eq_nil_iff] at h
  rw [h.1] at hp
  cases hp

/-- What is granted to a trimmed value, if there are tokens. -/
theorem granted_some (hne : tokens ≠ []) (htrim : trim v = v) :
    Granted tokens (some v) ↔
      v ∈ tokens ∨ toLower (v.take 7) = lit "bearer " ∧ v.drop 7 ∈ tokens := by
  unfold Granted
  rw [or_iff_right hne]
  constructor
  · rintro ⟨w, hw, h⟩
    cases hw
    rw [htrim] at h
    rcases h with h | h
    · exact .inl h
    · exact .inr (exists_bearer_iff.mp h)
  · intro h
    refine ⟨v, rfl, ?_⟩
    rw [htrim]
    rcases h with h | h
    · exact .inl h
    · exact .inr (exists_bearer_iff.mpr h)

/-- `utils::trim` removes the blanks on both sides. -/
theorem trim_eq (s : Bytes) : trim s =
    (s.dropWhile fun c => decide (IsBlank c)).rdropWhile fun c => decide (IsBlank c) := by
  have hblank : (fun c : UInt8 => decide (IsBlank c)) =
      fun c => c == 0x20 || c == 0x09 || c == 0x0D || c == 0x0A := by
    funext c
    rw [Bool.eq_iff_iff, decide_eq_true_iff]
    simp [IsBlank, or_assoc]
  rw [hblank]
  rfl

/-- Every text is blanks and what does not begin with one. -/
theorem exists_blanks (t : Bytes) :
    ∃ b u, t = b ++ u ∧ (∀ c ∈ b, IsBlank c) ∧ ∀ c ∈ u.head?, ¬ IsBlank c := by
  refine ⟨t.takeWhile fun c => decide (IsBlank c), t.dropWhile fun c => decide (IsBlank c),
    List.takeWhile_append_dropWhile.symm, fun c hc => ?_, fun c hc hfirst => ?_⟩
  · have hblank := List.mem_takeWhile_imp hc
    exact of_decide_eq_true hblank
  · have hnot := List.head?_dropWhile_not (fun c => decide (IsBlank c)) t
    rw [Option.mem_def.mp hc] at hnot
    exact of_decide_eq_false hnot hfirst

/-- At the end of a trimmed value only the blanks in front of a text are trimmed. -/
theorem trim_suffix {p b t : Bytes} (htrim : trim (p ++ (b ++ t)) = p ++ (b ++ t))
    (hb : ∀ c ∈ b, IsBlank c) (ht : ∀ c ∈ t.head?, ¬ IsBlank c) : trim (b ++ t) = t := by
  have hfront : (b ++ t).dropWhile (fun c => decide (IsBlank c)) = t := by
    rw [List.dropWhile_append_of_pos fun c hc => decide_eq_true (hb c hc)]
    cases t with
    | nil => rfl
    | cons c t => exact List.dropWhile_cons_of_neg fun h => ht c rfl (of_decide_eq_true h)
  -- The value ends in no blank, hence neither does its end.
  have hvalue : (p ++ (b ++ t)).rdropWhile (fun c => decide (IsBlank c)) = p ++ (b ++ t) := by
    rw [← htrim, trim_eq, List.rdropWhile_idempotent]
  have hend : t.rdropWhile (fun c => decide (IsBlank c)) = t := by
    rw [List.rdropWhile_eq_self_iff] at hvalue ⊢
    intro hne
    have hlast := hvalue (by simp [hne])
    rwa [List.getLast_append_of_ne_nil _ (by simp [hne]), List.getLast_append_of_ne_nil _ hne]
      at hlast
  rw [trim_eq, hfront, hend]

theorem readAsDocumented_some (htrim : trim v = v) : ReadAsDocumented tokens (some v) ↔
    tokens ≠ [] ∧ (v = [] → [] ∉ tokens) ∧ (toLower (v.take 7) = lit "bearer " →
      (trim (v.drop 7) ∈ tokens ↔ v ∈ tokens ∨ v.drop 7 ∈ tokens)) := by
  constructor
  · intro h
    refine ⟨h.configured, fun hv => h.nonempty (congrArg some hv), fun hp => ?_⟩
    obtain ⟨b, t, hdrop, hb, ht⟩ := exists_blanks (v.drop 7)
    have hv : v = v.take 7 ++ (b ++ t) := by rw [← hdrop, List.take_append_drop]
    have hrest : trim (b ++ t) = t := trim_suffix (hv ▸ htrim) hb ht
    rw [hdrop, hrest]
    by_cases hnil : b = []
    · -- What follows the prefix is looked up as it is.
      subst hnil
      rw [List.nil_append] at hv ⊢
      have hplain := h.plain (v.take 7) t (congrArg some hv) hp ht
      rw [← hv] at hplain
      exact ⟨.inr, fun hgranted => hgranted.elim hplain id⟩
    · have hblanks := h.blanks (v.take 7) b t (congrArg some hv) hp hnil hb ht
      rw [← hv] at hblanks
      rcases hblanks with ⟨htoken, hgranted⟩ | ⟨hno, hspaced, hraw⟩
      · exact ⟨fun _ => hgranted.symm, fun _ => htoken⟩
      · exact ⟨fun htoken => absurd htoken hno,
          fun hgranted => hgranted.elim (absurd · hraw) (absurd · hspaced)⟩
  · rintro ⟨hne, hempty, hbearer⟩
    -- Without blanks the whole value is looked up beside what follows, with blanks both of them.
    refine ⟨hne, fun hv => hempty (Option.some.inj hv), fun p t hv hp ht hraw => ?_,
      fun p b t hv hp hnil hb ht => ?_⟩
    · have hv := Option.some.inj hv
      obtain ⟨hscheme, hdrop⟩ := exists_bearer_iff.mp ⟨p, t, hv, hp, Eq.refl t⟩
      have hrest : trim t = t := trim_suffix (b := []) (hv ▸ htrim) (by simp) ht
      have hiff := hbearer hscheme
      rw [← hdrop, hrest, hv] at hiff
      exact hiff.mpr (.inl hraw)
    · have hv := Option.some.inj hv
      obtain ⟨hscheme, hdrop⟩ := exists_bearer_iff.mp ⟨p, b ++ t, hv, hp, Eq.refl (b ++ t)⟩
      have hiff := hbearer hscheme
      rw [← hdrop, trim_suffix (hv ▸ htrim) hb ht, hv] at hiff
      by_cases htoken : t ∈ tokens
      · exact .inl ⟨htoken, (hiff.mp htoken).symm⟩
      · rw [iff_false_left htoken, not_or] at hiff
        exact .inr ⟨htoken, hiff.2, hiff.1⟩

/-- **Which requests are authorised as documented**: those whose `Authorization` header the
    server reads as documented, and no others. -/
theorem authorized_as_documented_iff (tokens : List Bytes) (segs : List Segment) :
    (isAuthorized (readAndParse segs) ⟨tokens⟩ = true ↔
        Granted tokens (readAndParse segs).authorization) ↔
      ReadAsDocumented tokens (readAndParse segs).authorization := by
  unfold isAuthorized
  cases hvalue : (readAndParse segs).authorization with
  | none =>
    -- Without the header, only an open server would authorise the request.
    have hget : (readAndParse segs).headers.get? (lit "authorization") = none := hvalue
    rw [hget]
    constructor
    · intro h
      refine ⟨fun hempty => ?_, (by simp), (by simp), (by simp)⟩
      exact Bool.false_ne_true (h.mpr (.inl hempty))
    · intro h
      refine ⟨fun hfalse => absurd hfalse Bool.false_ne_true, fun hgranted => ?_⟩
      rcases hgranted with hempty | ⟨v, hv, -⟩
      · exact absurd hempty h.configured
      · cases hv
  | some v =>
    have hget : (readAndParse segs).headers.get? (lit "authorization") = some v := hvalue
    rw [hget, readAsDocumented_some (trim_header hget)]
    by_cases hne : tokens = []
    · -- No token is found in an empty list.
      have hdenied : ¬ Auth.verify ⟨tokens⟩ v = true := by
        rw [verify_iff]
        simp [hne]
      exact ⟨fun h => absurd (h.mpr (.inl hne)) hdenied, fun h => absurd hne h.1⟩
    · simp only
      rw [granted_some hne (trim_header hget), verify_iff]
      by_cases hempty : v = []
      · -- The empty value is denied, whatever the tokens are.
        subst hempty
        have hscheme : toLower [] ≠ lit "bearer " := by decide
        simp [hne, hscheme]
      · by_cases hp : toLower (v.take 7) = lit "bearer "
        · simp [hne, hempty, hp]
        · simp [hne, hempty, hp]

/-! ## Where the server departs from the documentation -/

/-- A request with the header, in one segment. -/
def tokenRequest (value : String) (h : (lit value).length ≤ 64) : List Segment :=
  [{ bytes := lit "GET / HTTP/1.1\r\nAuthorization:" ++ lit value ++ lit "\r\n\r\n"
     nonempty := by simp [lit]
     fits := by
       simp only [List.length_append]
       have hhead : (lit "GET / HTTP/1.1\r\nAuthorization:").length = 30 := by decide
       have htail : (lit "\r\n\r\n").length = 4 := by decide
       omega }]

/-- A server without tokens denies every request; a token that begins like a prefixed one is not
    accepted alone; blanks between prefix and token are skipped. -/
theorem documentation_is_not_followed :
    ¬ (isAuthorized (readAndParse (tokenRequest "Bearer secret" (by decide))) ⟨[]⟩ = true ↔
      Granted [] (readAndParse (tokenRequest "Bearer secret" (by decide))).authorization) ∧
    ¬ (isAuthorized (readAndParse (tokenRequest "Bearer x" (by decide))) ⟨[lit "Bearer x"]⟩ = true ↔
      Granted [lit "Bearer x"] (readAndParse (tokenRequest "Bearer x" (by decide))).authorization) ∧
    ¬ (isAuthorized (readAndParse (tokenRequest "Bearer  secret" (by decide))) ⟨[lit "secret"]⟩ = true ↔
      Granted [lit "secret"] (readAndParse (tokenRequest "Bearer  secret" (by decide))).authorization) := by
  have hopen : (readAndParse (tokenRequest "Bearer secret" (by decide))).authorization =
      some (lit "Bearer secret") := by decide +kernel
  have hraw : (readAndParse (tokenRequest "Bearer x" (by decide))).authorization =
      some (lit "Bearer x") := by decide +kernel
  have hblanks : (readAndParse (tokenRequest "Bearer  secret" (by decide))).authorization =
      some (lit "Bearer  secret") := by decide +kernel
  refine ⟨fun h => ?_, fun h => ?_, fun h => ?_⟩
  · have hgranted := h.mpr (.inl rfl)
    revert hgranted
    decide +kernel
  · have hgranted := h.mpr (.inr ⟨lit "Bearer x", hraw, .inl (by decide +kernel)⟩)
    revert hgranted
    decide +kernel
  · have hauthorized : isAuthorized (readAndParse (tokenRequest "Bearer  secret" (by decide)))
        ⟨[lit "secret"]⟩ = true := by decide +kernel
    have hgranted := h.mp hauthorized
    rw [hblanks, granted_some (by simp) (by decide +kernel)] at hgranted
    revert hgranted
    decide +kernel

end Frag
