import Frag.Guarantees.Addressing
import Frag.Guarantees.Framing
import Frag.Guarantees.Rejection

/-!
# Requests Cut Short

The server parses whatever has arrived when the read loop ends. Nothing checks that the
headers are complete or that the body has the declared length, and the scanner of the
POST handler accepts a text without its closing quote. A request that is cut short is
therefore handled like a complete one, if what arrived is enough to be one.

## Main results

- `stores_iff`, `removes_iff`: the bytes that make a request which changes the table;
- `cut_short_changes_nothing_iff`: the cut requests that do.
-/

namespace Frag

/-! ## What should have been read -/

/-- The bytes that arrive before the stream ends: with the last segment, or with the one that
    reaches the cap. -/
def delivered (raw : Bytes) : List Segment → Bytes
  | [] => raw
  | seg :: segs => if raw.length < maxRequestBytes then delivered (raw ++ seg.bytes) segs else raw

/-- A `Content-Length` field of the header section declares this length, a decimal number of
    any size. -/
def Declares (headers : Bytes) (n : Nat) : Prop :=
  ∃ value, LengthField headers value ∧ DecimalText value n

/-- The stream ended before the blank line after the headers, or before the body bytes that
    are declared after it. Of several fields each one declares a length. -/
def CutShort (segs : List Segment) : Prop :=
  ∀ pos, Scan.indexOf (lit "\r\n\r\n") (delivered [] segs) = some pos →
    ∃ n, Declares ((delivered [] segs).take (pos + 4)) n ∧ (delivered [] segs).length < pos + 4 + n

/-! ## What was read of a request -/

/-- The bytes begin with a complete first line and complete header lines. The rest begins with
    the blank line, or no line of it is complete. -/
structure Opens (bytes line : Bytes) (headers : List Bytes) (rest : Bytes) : Prop where
  split : bytes = line ++ (lit "\r\n" ++ (headers.flatMap (· ++ lit "\r\n") ++ rest))
  line : ¬ lit "\r\n" <:+: line
  fields : ∀ l ∈ headers, l ≠ [] ∧ ¬ lit "\r\n" <:+: l
  ends : lit "\r\n" <+: rest ∨ ¬ lit "\r\n" <:+: rest

/-- The request line has this method and this path: what stands between the first blank and
    the next one, or a question mark before that, decoded. -/
def Asks (line method path : Bytes) : Prop :=
  ∃ rest, line = method ++ 0x20 :: rest ∧ 0x20 ∉ method ∧
    urlDecode ((rest.takeWhile (· ≠ 0x20)).takeWhile (· ≠ 0x3F)) = path

/-- A header line with this name, in lower case. -/
def FieldLine (l name value : Bytes) : Prop :=
  ∃ key v, l = key ++ 0x3A :: v ∧ 0x3A ∉ key ∧ toLower (trim key) = name ∧ trim v = value

/-- The last of the header lines with this name has this value. -/
def LastField (headers : List Bytes) (name value : Bytes) : Prop :=
  ∃ before l after, headers = before ++ l :: after ∧ FieldLine l name value ∧
    ∀ l' ∈ after, ∀ v, ¬ FieldLine l' name v

/-- The complete header lines authorise the request. -/
def Authorises (auth : Auth) (headers : List Bytes) : Prop :=
  ∃ value, LastField headers (lit "authorization") value ∧ auth.verify value = true

/-- The bytes begin an authorised POST to the collection, and a body within the limit, in which
    every required text has begun and the id is free. -/
structure BeginsPost (ctx : AppContext) (db : Database) (bytes line : Bytes) (headers : List Bytes)
    (body : Bytes) : Prop where
  opens : Opens bytes line headers (lit "\r\n" ++ body)
  asks : Asks line (lit "POST") (lit "/api/fragments") ∨ Asks line (lit "POST") (lit "/api/fragments/")
  authorises : Authorises ctx.auth headers
  within : body.length ≤ ctx.maxPayloadBytes
  begun : ∀ name ∈ requiredNames, Scannable body name
  free : cStr (extractString body (lit "id")) ∉ db.rows.map Fragment.id

/-- The bytes begin an authorised DELETE of a stored id. -/
structure BeginsDelete (ctx : AppContext) (db : Database) (bytes line : Bytes) (headers : List Bytes)
    (rest id : Bytes) : Prop where
  opens : Opens bytes line headers rest
  asks : Asks line (lit "DELETE") (lit "/api/fragments/" ++ id) ∨
    Asks line (lit "DELETE") (lit "/api/fragments/" ++ (id ++ [0x2F]))
  authorises : Authorises ctx.auth headers
  nonempty : id ≠ []
  noSlash : 0x2F ∉ id
  stored : cStr id ∈ db.rows.map Fragment.id

/-- The bytes begin a request that changes the table. -/
def BeginsChange (ctx : AppContext) (db : Database) (bytes : Bytes) : Prop :=
  (∃ line headers body, BeginsPost ctx db bytes line headers body) ∨
    ∃ line headers rest id, BeginsDelete ctx db bytes line headers rest id

/-! ## Lines -/

section Lines

variable {bytes line rest s : Bytes} {headers : List Bytes}

/-- Before the first CRLF there is none. -/
theorem not_crlf_take {i : Nat} (h : Scan.indexOf (lit "\r\n") s = some i) :
    ¬ lit "\r\n" <:+: s.take i := by
  intro hin
  obtain ⟨-, -, hfirst⟩ := Scan.indexOf_eq_some.mp h
  obtain ⟨j, hj⟩ := Option.ne_none_iff_exists'.mp (Scan.indexOf_eq_none.not_left.mpr hin)
  obtain ⟨hle, hat, -⟩ := Scan.indexOf_eq_some.mp hj
  have hlt : j < i := by
    have hpair := hat.length_le
    have hcrlf : (lit "\r\n").length = 2 := by decide
    rw [List.length_take] at hle
    rw [List.length_drop, List.length_take, hcrlf] at hpair
    omega
  apply hfirst j hlt
  rw [List.drop_take] at hat
  exact hat.trans (List.take_prefix _ _)

/-- Every text is some lines, and a rest that begins with the blank line or has no complete
    line. -/
theorem exists_lines (s : Bytes) : ∃ (headers : List Bytes) (rest : Bytes), s = headers.flatMap (· ++ lit "\r\n") ++ rest ∧
    (∀ l ∈ headers, l ≠ [] ∧ ¬ lit "\r\n" <:+: l) ∧ (lit "\r\n" <+: rest ∨ ¬ lit "\r\n" <:+: rest) := by
  induction hn : s.length using Nat.strong_induction_on generalizing s with
  | _ n ih =>
    subst hn
    cases hfound : Scan.indexOf (lit "\r\n") s with
    | none => exact ⟨[], s, rfl, nofun, .inr (Scan.indexOf_eq_none.mp hfound)⟩
    | some i =>
      obtain ⟨hle, ⟨t, ht⟩, -⟩ := Scan.indexOf_eq_some.mp hfound
      have hs : s = s.take i ++ (lit "\r\n" ++ t) := by rw [ht, List.take_append_drop]
      by_cases hzero : i = 0
      · subst hzero
        exact ⟨[], s, rfl, nofun, .inl ⟨t, ht⟩⟩
      · have hcrlf : (lit "\r\n").length = 2 := by decide
        have hlength := congrArg List.length hs
        rw [List.length_append, List.length_append, hcrlf] at hlength
        -- The first line, and the lines of what follows it.
        obtain ⟨headers, rest, rfl, hfields, hends⟩ := ih t.length (by omega) t rfl
        refine ⟨s.take i :: headers, rest, ?_, ?_, hends⟩
        · rw [List.flatMap_cons, List.append_assoc, List.append_assoc]
          exact hs
        · intro l hl
          rcases List.mem_cons.mp hl with rfl | hl
          · exact ⟨List.ne_nil_of_length_pos (by rw [List.length_take]; omega), not_crlf_take hfound⟩
          · exact hfields l hl

/-- A header line is followed by no CRLF. -/
theorem no_crlf_at_line {l : Bytes} (hne : l ≠ []) (hl : ¬ lit "\r\n" <:+: l) (s : Bytes) :
    ¬ lit "\r\n" <+: l ++ (lit "\r\n" ++ s) := by
  intro hpre
  have hzero := Scan.indexOf_of_prefix hpre
  rw [indexOf_line hl] at hzero
  exact hne (List.length_eq_zero_iff.mp (Option.some.inj hzero))

/-- The blank line stands after the first line, or further on. -/
theorem after_blankLine {l : Bytes} (hl : ¬ lit "\r\n" <:+: l) (s : Bytes) :
    Scan.after (lit "\r\n\r\n") (l ++ (lit "\r\n" ++ s)) =
      if lit "\r\n" <+: s then some (s.drop 2) else Scan.after (lit "\r\n\r\n") s := by
  have hlit : lit "\r\n\r\n" = lit "\r\n" ++ lit "\r\n" := by decide
  have hcrlf : lit "\r\n" = [0x0D, 0x0A] := by decide
  induction l with
  | nil =>
    split
    · rename_i hpre
      obtain ⟨t, rfl⟩ := hpre
      rw [Scan.after_of_prefix ⟨t, by rw [hlit, List.append_assoc, List.nil_append]⟩]
      rfl
    · rename_i hpre
      -- The blank line begins at neither of the two bytes.
      rw [List.nil_append, hcrlf, List.cons_append, List.cons_append, List.nil_append,
        Scan.after_cons_skip, Scan.after_cons_skip]
      · intro h
        exact absurd (List.cons_prefix_cons.mp h).1 (by decide)
      · intro h
        exact hpre (List.cons_prefix_cons.mp (List.cons_prefix_cons.mp h).2).2
  | cons c l ih =>
    have hskip : ¬ lit "\r\n\r\n" <+: c :: l ++ (lit "\r\n" ++ s) := by
      intro h
      rw [hlit] at h
      exact no_crlf_at_line (List.cons_ne_nil c l) hl s ((List.prefix_append _ _).trans h)
    rw [List.cons_append] at hskip ⊢
    rw [Scan.after_cons_skip hskip]
    exact ih fun hin => hl (hin.trans (List.suffix_cons c l).isInfix)

/-- The code finds the header lines. -/
theorem takeWhile_lines (hfields : ∀ l ∈ headers, l ≠ [] ∧ ¬ lit "\r\n" <:+: l)
    (hends : lit "\r\n" <+: rest ∨ ¬ lit "\r\n" <:+: rest) :
    (crlfLines [] (headers.flatMap (· ++ lit "\r\n") ++ rest)).takeWhile (· ≠ []) = headers := by
  induction headers with
  | nil =>
    -- The rest begins with the empty line, or has no line at all.
    rw [List.flatMap_nil, List.nil_append, crlfLines_eq]
    rcases hends with hpre | hnone
    · rw [Scan.indexOf_of_prefix hpre]
      exact List.takeWhile_cons_of_neg (by simp)
    · rw [Scan.indexOf_eq_none.mpr hnone]
      rfl
  | cons l headers ih =>
    obtain ⟨hne, hl⟩ := hfields l List.mem_cons_self
    have hcrlf : (lit "\r\n").length = 2 := by decide
    rw [List.flatMap_cons, List.append_assoc, List.append_assoc, crlfLines_eq, indexOf_line hl]
    simp only [List.take_left, List.reverse_nil, List.nil_append]
    rw [List.takeWhile_cons_of_pos (by simpa using hne), ← hcrlf, ← List.drop_drop, List.drop_left,
      List.drop_left, ih fun l' hl' => hfields l' (List.mem_cons_of_mem l hl')]

/-- The code finds the body. -/
theorem after_lines (hline : ¬ lit "\r\n" <:+: line)
    (hfields : ∀ l ∈ headers, l ≠ [] ∧ ¬ lit "\r\n" <:+: l)
    (hends : lit "\r\n" <+: rest ∨ ¬ lit "\r\n" <:+: rest) :
    Scan.after (lit "\r\n\r\n") (line ++ (lit "\r\n" ++ (headers.flatMap (· ++ lit "\r\n") ++ rest))) =
      if lit "\r\n" <+: rest then some (rest.drop 2) else none := by
  induction headers generalizing line with
  | nil =>
    rw [List.flatMap_nil, List.nil_append, after_blankLine hline]
    split
    · rfl
    · rename_i hpre
      -- Without a complete line there is no blank line in the rest.
      have hnone : ¬ lit "\r\n\r\n" <:+: rest := by
        intro hin
        have hlit : lit "\r\n\r\n" = lit "\r\n" ++ lit "\r\n" := by decide
        exact hends.resolve_left hpre ((hlit ▸ List.prefix_append _ _ :
          lit "\r\n" <+: lit "\r\n\r\n").isInfix.trans hin)
      rw [Scan.after, Scan.indexOf_eq_none.mpr hnone]
      rfl
  | cons l headers ih =>
    obtain ⟨hne, hl⟩ := hfields l List.mem_cons_self
    rw [List.flatMap_cons, List.append_assoc, List.append_assoc, after_blankLine hline,
      if_neg (no_crlf_at_line hne hl _)]
    exact ih hl fun l' hl' => hfields l' (List.mem_cons_of_mem l hl')

end Lines

/-! ## Header lines -/

section Fields

variable {l name value : Bytes}

/-- A line with the name sets its value. -/
theorem FieldLine.get?_addHeader (h : FieldLine l name value) (headers : Params) :
    (addHeader headers l).get? name = some value := by
  obtain ⟨key, v, rfl, hkey, rfl, rfl⟩ := h
  have hcolon : Scan.indexOf [0x3A] (key ++ 0x3A :: v) = some key.length :=
    Scan.indexOf_append_of_prefix hkey ⟨v, rfl⟩
  have hvalue : (key ++ 0x3A :: v).drop (key.length + 1) = v := by simp
  rw [addHeader, hcolon]
  simp only [List.take_left, hvalue, OrderedMap.get?_set_self]

/-- Other lines leave it. -/
theorem get?_addHeader_of_not (h : ∀ v, ¬ FieldLine l name v) (headers : Params) :
    (addHeader headers l).get? name = headers.get? name := by
  by_cases hmem : 0x3A ∈ l
  · obtain ⟨key, v, rfl, hkey⟩ := List.eq_append_cons_of_mem hmem
    have hcolon : Scan.indexOf [0x3A] (key ++ 0x3A :: v) = some key.length :=
      Scan.indexOf_append_of_prefix hkey ⟨v, rfl⟩
    have hother : ¬ name = toLower (trim key) := fun hname =>
      h _ ⟨key, v, rfl, hkey, hname.symm, rfl⟩
    rw [addHeader, hcolon]
    simp only [List.take_left, OrderedMap.get?_set, if_neg hother]
  · rw [addHeader, Scan.indexOf_of_notMem hmem]

theorem lastField_concat {headers : List Bytes} : LastField (headers ++ [l]) name value ↔
    FieldLine l name value ∨ (∀ v, ¬ FieldLine l name v) ∧ LastField headers name value := by
  constructor
  · rintro ⟨before, l', after, hsplit, hl', hafter⟩
    -- The last line of the name is the very last one, or `l` comes after it.
    rcases List.eq_nil_or_concat' after with rfl | ⟨after, last, rfl⟩
    · obtain ⟨-, hlast⟩ := List.append_inj' hsplit rfl
      cases hlast
      exact .inl hl'
    · rw [← List.cons_append, ← List.append_assoc] at hsplit
      obtain ⟨rfl, hlast⟩ := List.append_inj' hsplit rfl
      cases hlast
      exact .inr ⟨hafter l (by simp), before, l', after, rfl, hl', fun l'' hl'' => hafter l'' (by simp [hl''])⟩
  · rintro (hl | ⟨hl, before, l', after, rfl, hl', hafter⟩)
    · exact ⟨headers, l, [], rfl, hl, nofun⟩
    · refine ⟨before, l', after ++ [l], by simp, hl', fun l'' hl'' => ?_⟩
      rcases List.mem_append.mp hl'' with hmem | hmem
      · exact hafter l'' hmem
      · rw [List.mem_singleton.mp hmem]
        exact hl

/-- The last line with a name gives its value. -/
theorem get?_foldl_addHeader_iff {headers : List Bytes} :
    (headers.foldl addHeader .empty).get? name = some value ↔ LastField headers name value := by
  -- From the end, since later lines overwrite earlier ones.
  induction headers using List.reverseRecOn with
  | nil =>
    refine iff_of_false nofun ?_
    rintro ⟨before, l, after, h, -⟩
    simp at h
  | append_singleton headers l ih =>
    rw [List.foldl_append, List.foldl_cons, List.foldl_nil, lastField_concat, ← ih]
    by_cases hline : ∃ v, FieldLine l name v
    · obtain ⟨v, hv⟩ := hline
      rw [hv.get?_addHeader]
      constructor
      · rintro h
        cases h
        exact .inl hv
      · rintro (hvalue | ⟨hnone, -⟩)
        · rw [← hv.get?_addHeader .empty, hvalue.get?_addHeader]
        · exact absurd hv (hnone v)
    · rw [not_exists] at hline
      rw [get?_addHeader_of_not hline, or_iff_right (hline value), and_iff_right hline]

theorem authorises_iff {auth : Auth} {headers : List Bytes} {req : HttpRequest}
    (h : req.headers = headers.foldl addHeader .empty) :
    isAuthorized req auth = true ↔ Authorises auth headers := by
  rw [isAuthorized, h]
  simp only [Authorises, ← get?_foldl_addHeader_iff]
  cases (headers.foldl addHeader .empty).get? (lit "authorization") with
  | none => simp
  | some value => simp

end Fields

/-! ## Requests -/

section Requests

variable {bytes line rest method path : Bytes} {headers : List Bytes}

/-- The text up to a byte, or all of it. -/
theorem elim_take (c : UInt8) (s : Bytes) :
    (Scan.indexOf [c] s).elim s s.take = s.takeWhile (· ≠ c) := by
  by_cases hmem : c ∈ s
  · obtain ⟨a, t, rfl, ha⟩ := List.eq_append_cons_of_mem hmem
    have hall : ∀ d ∈ a, decide (d ≠ c) = true := fun d hd => decide_eq_true fun e => ha (e ▸ hd)
    have hfirst : Scan.indexOf [c] (a ++ c :: t) = some a.length :=
      Scan.indexOf_append_of_prefix ha ⟨t, rfl⟩
    rw [hfirst, Option.elim_some, List.take_left,
      List.takeWhile_append_of_pos hall, List.takeWhile_cons_of_neg (by simp), List.append_nil]
  · have hall : ∀ d ∈ s, decide (d ≠ c) = true := fun d hd => decide_eq_true fun e => hmem (e ▸ hd)
    rw [Scan.indexOf_of_notMem hmem, Option.elim_none, List.takeWhile_eq_self_iff.mpr hall]

theorem parseTarget_fst (target : Bytes) :
    (parseTarget target).1 = urlDecode (target.takeWhile (· ≠ 0x3F)) := by
  rw [← elim_take, parseTarget]
  cases Scan.indexOf [0x3F] target with
  | none => rfl
  | some i => rfl

/-- What is parsed of bytes with a request line. -/
theorem requestOf_opens (h : Opens bytes line headers rest) (hasks : Asks line method path) :
    (requestOf bytes).method = method ∧ (requestOf bytes).path = path ∧
      (requestOf bytes).headers = headers.foldl addHeader .empty ∧
      (requestOf bytes).body = if lit "\r\n" <+: rest then rest.drop 2 else [] := by
  obtain ⟨r, hline, hmethod, rfl⟩ := hasks
  have hcrlf : (lit "\r\n").length = 2 := by decide
  have hindex : Scan.indexOf (lit "\r\n") bytes = some line.length := by
    rw [h.split]
    exact indexOf_line h.line _
  have htake : bytes.take line.length = line := by rw [h.split, List.take_left]
  have hlines : (crlfLines [] (bytes.drop (line.length + 2))).takeWhile (· ≠ []) = headers := by
    rw [h.split, ← hcrlf, ← List.drop_drop, List.drop_left, List.drop_left]
    exact takeWhile_lines h.fields h.ends
  have hspace : Scan.indexOf [0x20] line = some method.length := by
    rw [hline]
    exact Scan.indexOf_append_of_prefix hmethod ⟨r, rfl⟩
  have hname : line.take method.length = method := by rw [hline, List.take_left]
  have hrest : line.drop (method.length + 1) = r := by
    rw [hline, ← List.drop_drop, List.drop_left]
    rfl
  have hafter := after_lines h.line h.fields h.ends
  rw [← h.split] at hafter
  -- The body stands after the blank line, if that has arrived.
  have hbody : (requestOf bytes).body = (Scan.after (lit "\r\n\r\n") bytes).getD [] := by
    have hfour : (lit "\r\n\r\n").length = 4 := by decide
    rw [Scan.after, hfour]
    cases hblank : Scan.indexOf (lit "\r\n\r\n") bytes with
    | none =>
      simp only [requestOf, ReadState.parse, ReadState.ofRaw, hindex, htake, hspace, hblank,
        Option.elim_none, Nat.lt_irrefl, if_false, Option.map_none, Option.getD_none]
    | some pos =>
      simp only [requestOf, ReadState.parse, ReadState.ofRaw, hindex, htake, hspace, hblank,
        Option.elim_some, Nat.succ_pos, if_true, Option.map_some, Option.getD_some]
  refine ⟨?_, ?_, ?_, ?_⟩
  · simp only [requestOf, ReadState.parse, ReadState.ofRaw, hindex, htake, hspace, hname]
  · simp only [requestOf, ReadState.parse, ReadState.ofRaw, hindex, htake, hspace, hrest, elim_take,
      parseTarget_fst]
  · simp only [requestOf, ReadState.parse, ReadState.ofRaw, hindex, htake, hspace, hlines]
  · rw [hbody, hafter]
    split <;> rfl

/-- Bytes that make a request with a method have a request line. -/
theorem exists_opens (h : (requestOf bytes).method ≠ []) : ∃ line headers rest,
    Opens bytes line headers rest ∧ Asks line (requestOf bytes).method (requestOf bytes).path := by
  cases hindex : Scan.indexOf (lit "\r\n") bytes with
  | none =>
    simp only [requestOf, ReadState.parse, ReadState.ofRaw, hindex] at h
    exact absurd rfl h
  | some i =>
    obtain ⟨-, ⟨t, ht⟩, -⟩ := Scan.indexOf_eq_some.mp hindex
    obtain ⟨headers, rest, rfl, hfields, hends⟩ := exists_lines t
    have hopens : Opens bytes (bytes.take i) headers rest :=
      ⟨by rw [ht, List.take_append_drop], not_crlf_take hindex, hfields, hends⟩
    -- Without a blank in the first line, the code keeps the empty method.
    by_cases hspace : 0x20 ∈ bytes.take i
    · obtain ⟨method, r, hline, hmethod⟩ := List.eq_append_cons_of_mem hspace
      have hasks : Asks (bytes.take i) method _ := ⟨r, hline, hmethod, rfl⟩
      obtain ⟨hm, hp, -, -⟩ := requestOf_opens hopens hasks
      rw [hm, hp]
      exact ⟨bytes.take i, headers, rest, hopens, hasks⟩
    · simp only [requestOf, ReadState.parse, ReadState.ofRaw, hindex,
        Scan.indexOf_of_notMem hspace] at h
      exact absurd rfl h

/-- One step of the loop over the parts of pattern and path. -/
def matchPart (params : Params) (p : Bytes × Bytes) : Option Params :=
  match p.1 with
  | 0x3A :: name => some (params.set name p.2)
  | _ => if p.1 = p.2 then some params else none

/-- A path that matches has the parts of the pattern that are no parameters. -/
theorem eq_of_foldlM_matchPart {l : List (Bytes × Bytes)} {params params' : Params}
    (h : l.foldlM matchPart params = some params') (a : Bytes) (b : Bytes) :
    (a, b) ∈ l → a.head? ≠ some 0x3A → a = b := by
  induction l generalizing params with
  | nil => exact nofun
  | cons p l ih =>
    rw [List.foldlM_cons] at h
    obtain ⟨params₁, hstep, hrest⟩ := Option.bind_eq_some_iff.mp h
    intro hmem hparam
    rcases List.mem_cons.mp hmem with rfl | hmem
    · unfold matchPart at hstep
      split at hstep
      · rename_i hname
        exact absurd (congrArg List.head? hname) hparam
      · split at hstep
        · rename_i heq
          exact heq
        · cases hstep
    · exact ih hrest hmem hparam

theorem of_matchPattern {pattern path : Bytes} {params : Params}
    (h : matchPattern pattern path = some params) :
    (split pattern 0x2F).length = (split path 0x2F).length ∧
      ((split pattern 0x2F).zip (split path 0x2F)).foldlM matchPart .empty = some params := by
  unfold matchPattern at h
  simp only at h
  split at h
  · cases h
  · rename_i hlength
    exact ⟨not_not.mp hlength, h⟩

/-- The path of the collection. -/
theorem matchPattern_collection {path : Bytes} :
    (matchPattern (lit "/api/fragments") path).isSome = true ↔
      path = lit "/api/fragments" ∨ path = lit "/api/fragments/" := by
  constructor
  · intro h
    obtain ⟨params, hparams⟩ := Option.isSome_iff_exists.mp h
    obtain ⟨hlength, hfold⟩ := of_matchPattern hparams
    have hpattern : split (lit "/api/fragments") 0x2F = [[], lit "api", lit "fragments"] := by decide
    rw [hpattern] at hlength hfold
    obtain ⟨x, y, z, hparts⟩ := List.length_eq_three.mp hlength.symm
    rw [hparts] at hfold
    -- The parts of the path are those of the pattern; `split` drops an empty last one.
    have hsame := eq_of_foldlM_matchPart hfold
    obtain rfl : [] = x := hsame [] x (by simp) (by decide)
    obtain rfl : lit "api" = y := hsame (lit "api") y (by simp) (by decide)
    obtain rfl : lit "fragments" = z := hsame (lit "fragments") z (by simp) (by decide)
    obtain ⟨t, rfl, ht⟩ := of_split_eq_cons hparts
    obtain ⟨u, rfl, hu⟩ := of_split_eq_cons ht
    obtain ⟨-, rfl | rfl⟩ := of_split_eq_singleton hu
    · exact .inl rfl
    · exact .inr rfl
  · rintro (rfl | rfl)
    · decide
    · decide

/-- The paths below the collection. -/
theorem of_matchPattern_id {path : Bytes} {params : Params}
    (h : matchPattern (lit "/api/fragments/:id") path = some params) : ∃ id,
      params.get? (lit "id") = some id ∧ 0x2F ∉ id ∧
      (path = lit "/api/fragments/" ++ id ∨ path = lit "/api/fragments/" ++ (id ++ [0x2F])) := by
  obtain ⟨hlength, hfold⟩ := of_matchPattern h
  have hpattern : split (lit "/api/fragments/:id") 0x2F =
    [[], lit "api", lit "fragments", lit ":id"] := by decide
  rw [hpattern] at hlength hfold
  obtain ⟨x, l, hparts⟩ := List.exists_cons_of_length_eq_add_one hlength.symm
  have hthree : l.length = 3 := by
    rw [hparts] at hlength
    exact Nat.succ.inj hlength.symm
  obtain ⟨y, z, id, rfl⟩ := List.length_eq_three.mp hthree
  rw [hparts] at hfold
  have hsame := eq_of_foldlM_matchPart hfold
  obtain rfl : [] = x := hsame [] x (by simp) (by decide)
  obtain rfl : lit "api" = y := hsame (lit "api") y (by simp) (by decide)
  obtain rfl : lit "fragments" = z := hsame (lit "fragments") z (by simp) (by decide)
  obtain ⟨t, rfl, ht⟩ := of_split_eq_cons hparts
  obtain ⟨u, rfl, hu⟩ := of_split_eq_cons ht
  obtain ⟨v, rfl, hv⟩ := of_split_eq_cons hu
  obtain ⟨hslash, hid⟩ := of_split_eq_singleton hv
  -- The parameter is the only thing that the loop sets.
  have hparams : params = OrderedMap.empty.set (lit "id") id := (Option.some.inj hfold).symm
  refine ⟨id, by rw [hparams, OrderedMap.get?_set_self], hslash, ?_⟩
  rcases hid with rfl | rfl
  · exact .inl rfl
  · exact .inr rfl

/-- Two paths name an id. -/
theorem matchPattern_of_id {id : Bytes} (hslash : 0x2F ∉ id) (hne : id ≠ []) {path : Bytes}
    (hpath : path = lit "/api/fragments/" ++ id ∨ path = lit "/api/fragments/" ++ (id ++ [0x2F])) :
    matchPattern (lit "/api/fragments/:id") path = some (OrderedMap.empty.set (lit "id") id) := by
  rcases hpath with rfl | rfl
  · rw [matchPattern_id, split_of_notMem hslash hne]
  · rw [matchPattern_id, split_append hslash]
    rfl

end Requests

/-! ## Requests that change the table -/

section Changes

variable {ctx : AppContext} {db : Database} {bytes : Bytes}

/-- **The bytes that make a POST which is stored.** -/
theorem stores_iff : ctx.Stores db (requestOf bytes) ↔
    ∃ line headers body, BeginsPost ctx db bytes line headers body := by
  constructor
  · intro h
    have hmethod : (requestOf bytes).method ≠ [] := by
      rw [h.method]
      decide
    obtain ⟨line, headers, rest, hopens, hasks⟩ := exists_opens hmethod
    obtain ⟨-, -, hheaders, hbody⟩ := requestOf_opens hopens hasks
    have hbegun := missingMember_readFragment_iff.mp h.complete
    rw [h.method] at hasks
    have hauth := (authorises_iff hheaders).mp h.authorized
    rcases hopens.ends with ⟨body, rfl⟩ | hnone
    · have hread : (requestOf bytes).body = body := by
        rw [hbody, if_pos (List.prefix_append _ _)]
        rfl
      have hwithin := h.within
      have hfree := h.free
      rw [hread] at hbegun hwithin hfree
      refine ⟨line, headers, body, hopens, ?_, hauth, hwithin, hbegun, hfree⟩
      rcases matchPattern_collection.mp h.path with hpath | hpath
      · rw [hpath] at hasks
        exact .inl hasks
      · rw [hpath] at hasks
        exact .inr hasks
    · -- Without the blank line there is no body, and nothing has begun in it.
      have hread : (requestOf bytes).body = [] := by
        rw [hbody, if_neg fun hpre => hnone hpre.isInfix]
      have hid := hbegun (lit "id") (by decide)
      rw [hread, ← extractString_ne_nil_iff] at hid
      exact absurd rfl hid
  · rintro ⟨line, headers, body, h⟩
    obtain ⟨path, hasks, hpath⟩ : ∃ path, Asks line (lit "POST") path ∧
        (path = lit "/api/fragments" ∨ path = lit "/api/fragments/") := by
      rcases h.asks with hasks | hasks
      · exact ⟨_, hasks, .inl rfl⟩
      · exact ⟨_, hasks, .inr rfl⟩
    obtain ⟨hmethod, hp, hheaders, hbody⟩ := requestOf_opens h.opens hasks
    have hread : (requestOf bytes).body = body := by
      rw [hbody, if_pos (List.prefix_append _ _)]
      rfl
    refine ⟨hmethod, ?_, (authorises_iff hheaders).mpr h.authorises, ?_, ?_, ?_⟩
    · rw [hp]
      exact matchPattern_collection.mpr hpath
    · rw [hread]
      exact h.within
    · rw [hread]
      exact missingMember_readFragment_iff.mpr h.begun
    · rw [hread]
      exact h.free

/-- **The bytes that make a DELETE of a stored id.** -/
theorem removes_iff : ctx.Removes db (requestOf bytes) ↔
    ∃ line headers rest id, BeginsDelete ctx db bytes line headers rest id := by
  constructor
  · intro h
    have hmethod : (requestOf bytes).method ≠ [] := by
      rw [h.method]
      decide
    obtain ⟨line, headers, rest, hopens, hasks⟩ := exists_opens hmethod
    obtain ⟨-, -, hheaders, -⟩ := requestOf_opens hopens hasks
    rw [h.method] at hasks
    -- The id of the parameter is the one in the path.
    obtain ⟨params, id, hmatch, hid, hne, hstored⟩ := h.stored
    obtain ⟨id', hid', hslash, hpath⟩ := of_matchPattern_id hmatch
    obtain rfl := Option.some.inj (hid.symm.trans hid')
    refine ⟨line, headers, rest, id, hopens, ?_, (authorises_iff hheaders).mp h.authorized, hne,
      hslash, hstored⟩
    rcases hpath with hpath | hpath
    · rw [hpath] at hasks
      exact .inl hasks
    · rw [hpath] at hasks
      exact .inr hasks
  · rintro ⟨line, headers, rest, id, h⟩
    obtain ⟨path, hasks, hpath⟩ : ∃ path, Asks line (lit "DELETE") path ∧
        (path = lit "/api/fragments/" ++ id ∨ path = lit "/api/fragments/" ++ (id ++ [0x2F])) := by
      rcases h.asks with hasks | hasks
      · exact ⟨_, hasks, .inl rfl⟩
      · exact ⟨_, hasks, .inr rfl⟩
    obtain ⟨hmethod, hp, hheaders, -⟩ := requestOf_opens h.opens hasks
    refine ⟨hmethod, (authorises_iff hheaders).mpr h.authorises, _, id, ?_,
      OrderedMap.get?_set_self .empty _ _, h.nonempty, h.stored⟩
    rw [hp]
    exact matchPattern_of_id h.noSlash h.nonempty hpath

/-- **When a request cut short changes nothing.** It leaves the table as it is, unless the
    client may connect and the bytes with which the server stops reading begin an authorised
    POST in whose body every text has begun and the id is free, or an authorised DELETE of a
    stored id. -/
theorem cut_short_changes_nothing_iff (ctx : AppContext) (corsOrigin : Bytes) (allowed : Bool)
    (now : Int) (db : Database) (segs : List Segment) :
    (CutShort segs → ((ctx.server corsOrigin).handleConnection allowed now db segs).2 = db) ↔
      ¬ CutShort segs ∨ allowed = false ∨
        ∀ m, ReadsFirst segs m → ¬ BeginsChange ctx db (arrived segs m) := by
  -- Whether cut short or not, the table changes by what the bytes make of the request.
  have hiff : ((ctx.server corsOrigin).handleConnection allowed now db segs).2 = db ↔
      allowed = false ∨ ∀ m, ReadsFirst segs m → ¬ BeginsChange ctx db (arrived segs m) := by
    cases allowed with
    | false => exact iff_of_true rfl (.inl rfl)
    | true =>
      obtain ⟨m, hm, hread⟩ := exists_readsFirst segs
      have hreads : (∀ n, ReadsFirst segs n → ¬ BeginsChange ctx db (arrived segs n)) ↔
          ¬ BeginsChange ctx db (received segs) := by
        rw [hread]
        exact ⟨fun h => h m hm, fun h n hn => hn.unique hm ▸ h⟩
      rw [HttpServer.handleConnection, if_pos rfl, readAndParse_eq, hreads, BeginsChange, not_or,
        ← stores_iff, ← removes_iff, or_iff_right (by simp)]
      exact AppContext.respond_snd_eq_iff
  rw [hiff, imp_iff_not_or]

end Changes

/-! ## Cut requests -/

/-- The header lines of a POST with this `Content-Length`. -/
def postOf (length : String) : Bytes :=
  lit "POST /api/fragments HTTP/1.1\r\nAuthorization: Bearer secret\r\nContent-Length:" ++
    lit length ++ lit "\r\n\r\n"

/-- A body that breaks off in the payload. -/
def brokenBody : Bytes :=
  lit "\x7b\"id\":\"1\",\"message_id\":\"m\",\"chat_id\":\"c\"," ++
    lit "\"sender_hash\":\"s\",\"payload\":\"AAA"

/-- A POST whose body breaks off; 200 bytes were declared. -/
def cutPost : List Segment :=
  [⟨postOf "200", by decide, by decide⟩, ⟨brokenBody, by decide, by decide⟩]

/-- The same with a length that no counter of 64 bits holds. -/
def cutLongPost : List Segment :=
  [⟨postOf "18446744073709551616" ++ brokenBody, by decide, by decide +kernel⟩]

/-- A DELETE that breaks off before the end of its headers. -/
def cutDelete : List Segment :=
  [⟨lit "DELETE /api/fragments/1 HTTP/1.1\r\nAuthorization: Bearer secret\r\nHost: a",
    by decide, by decide⟩]

/-- A POST is cut short by its declared length. -/
theorem cutShort_of_length {segs : List Segment} (length : String) (n pos : Nat)
    (hsegs : delivered [] segs = postOf length ++ brokenBody)
    (hpos : Scan.indexOf (lit "\r\n\r\n") (postOf length) = some pos)
    (hend : (postOf length).length = pos + 4) (hline : ¬ lit "\r\n" <:+: lit length)
    (hne : lit length ≠ []) (hdigits : (lit length).all Decimal.isDigit = true)
    (hvalue : Decimal.value (lit length) = n) (hn : brokenBody.length < n) : CutShort segs := by
  intro pos' hpos'
  rw [hsegs] at hpos' ⊢
  obtain rfl : pos = pos' := Option.some.inj ((Scan.indexOf_append hpos).symm.trans hpos')
  have hdecimal : DecimalText (lit length) n :=
    ⟨[], lit length, [], by simp, by simp, hne, List.all_eq_true.mp hdigits, hvalue⟩
  refine ⟨n, ⟨lit length, ?_, hdecimal⟩, ?_⟩
  · rw [← hend, List.take_left]
    exact ⟨lit "POST /api/fragments HTTP/1.1\r\nAuthorization: Bearer secret", lit "Content-Length",
      lit "\r\n", by simp [postOf, lit], by decide, hline⟩
  · rw [List.length_append, hend]
    omega

/-- The cut POSTs are stored, and the cut DELETE removes a fragment. -/
theorem cut_requests_change_the_table :
    (CutShort cutPost ∧ ((Sample.context.server (lit "*")).handleConnection true 100 .empty
      cutPost).2.rows ≠ []) ∧
    (CutShort cutLongPost ∧ ((Sample.context.server (lit "*")).handleConnection true 100 .empty
      cutLongPost).2.rows ≠ []) ∧
    CutShort cutDelete ∧ ((Sample.context.server (lit "*")).handleConnection true 200
      ((Sample.context.server (lit "*")).handleConnection true 100 .empty cutPost).2
      cutDelete).2.rows = [] := by
  refine ⟨⟨?_, by decide +kernel⟩, ⟨?_, by decide +kernel⟩, ?_, by decide +kernel⟩
  · exact cutShort_of_length "200" 200 78 (by decide +kernel) (by decide +kernel) (by decide +kernel)
      (by decide) (by decide) (by decide) (by decide) (by decide +kernel)
  · exact cutShort_of_length "18446744073709551616" 18446744073709551616 95 (by decide +kernel)
      (by decide +kernel) (by decide +kernel) (by decide) (by decide) (by decide) (by decide)
      (by decide +kernel)
  · intro pos hpos
    have hnone : Scan.indexOf (lit "\r\n\r\n") (delivered [] cutDelete) = none := by decide +kernel
    rw [hnone] at hpos
    cases hpos

end Frag
