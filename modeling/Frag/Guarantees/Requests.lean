import Frag.Guarantees.Framing
import Frag.Client.Addresses
import Frag.Library.Http

/-!
# Requests

What `read_and_parse` makes of a well-formed request: a request line, header fields, and a body
of the length that they announce. However the bytes are cut into results of `recv`, nothing is
lost and nothing is added: the method, the decoded target, the fields by their names in lower
case, and the body are those of the request.

## Main results

- `received_eq`: a request is read to its end;
- `requestOf_fields`: what is parsed;
- `request_round_trip`: the two together.
-/

namespace Frag

open Http (Field IsValue headerSection)

/-! ## Header sections -/

/-- The `headers` of a request with these fields; of fields with one name the last one counts. -/
def headersOf (fields : List Field) : Params :=
  fields.foldl (fun headers f => headers.set (toLower f.name) f.value) .empty

/-- Of the fields with a name the last one counts. -/
theorem get?_headersOf (fields : List Field) (name : Bytes) :
    (headersOf fields).get? name = (fields.reverse.find? fun f => toLower f.name = name).map Field.value := by
  induction fields using List.reverseRecOn with
  | nil => rfl
  | append_singleton fields f ih =>
    have hlast : headersOf (fields ++ [f]) = (headersOf fields).set (toLower f.name) f.value :=
      List.foldl_concat _ _ _ _
    rw [hlast, OrderedMap.get?_set, List.reverse_append, List.reverse_singleton, List.singleton_append,
      List.find?_cons]
    by_cases hname : toLower f.name = name
    · rw [if_pos hname.symm, decide_eq_true hname]
      rfl
    · rw [if_neg fun h => hname h.symm, decide_eq_false hname, ih]

/-- The body has the length that the fields announce; without the field there is none. -/
def Announces (fields : List Field) (body : Bytes) : Prop :=
  match Http.fieldValue (lit "content-length") (fields.map Field.pair) with
  | none => body = []
  | some value => value = Decimal.digits body.length

instance (fields : List Field) (body : Bytes) : Decidable (Announces fields body) := by
  unfold Announces
  split <;> infer_instance

theorem crlf_eq : lit "\r\n" = Http.crlf := by decide

theorem blankLine_eq : lit "\r\n\r\n" = 0x0D :: 0x0A :: Http.crlf := by decide

/-- The line breaks of a header section: after a line, the next one or the empty line. -/
theorem indexOf_blankLine {l : Bytes} (hl : 0x0D ∉ l) (fields : List Field) (rest : Bytes) :
    Scan.indexOf (lit "\r\n\r\n") (l ++ Http.crlf ++ headerSection fields ++ rest) =
      some (l.length + (headerSection fields).length - 2) := by
  rw [blankLine_eq]
  induction fields generalizing l with
  | nil =>
    rw [List.append_assoc, List.append_assoc]
    refine (Scan.indexOf_append_of_prefix hl ⟨rest, rfl⟩).trans ?_
    rfl
  | cons f fields ih =>
    have hsplit : l ++ Http.crlf ++ headerSection (f :: fields) ++ rest =
        l ++ 0x0D :: ([0x0A] ++ (f.text ++ Http.crlf ++ headerSection fields ++ rest)) := by
      simp only [headerSection, Http.crlf, List.flatMap_cons, List.append_assoc, List.cons_append,
        List.nil_append]
    -- The line break is followed by a line that is not empty.
    have hnot : ¬ 0x0D :: 0x0A :: Http.crlf <+:
        0x0D :: ([0x0A] ++ (f.text ++ Http.crlf ++ headerSection fields ++ rest)) := by
      obtain ⟨c, t, ht⟩ := List.exists_cons_of_ne_nil f.text_ne_nil
      have hc : c ≠ 0x0D := by
        rintro rfl
        exact f.notMem_text (ht ▸ List.mem_cons_self)
      rw [ht, List.cons_prefix_cons]
      rintro ⟨-, hprefix⟩
      rw [List.singleton_append, List.cons_append, List.cons_append, List.cons_append,
        List.cons_prefix_cons, Http.crlf, List.cons_prefix_cons] at hprefix
      exact hc hprefix.2.1.symm
    have hline := ih f.notMem_text
    rw [hsplit, Scan.indexOf_append_of_notMem hl, Scan.indexOf, if_neg hnot,
      Scan.indexOf_append_of_notMem (by decide), hline]
    have hlength : (headerSection (f :: fields)).length =
        f.text.length + 2 + (headerSection fields).length := by
      simp only [headerSection, Http.crlf, List.flatMap_cons, List.length_append, List.length_cons,
        List.length_nil]
      omega
    have htwo : 2 ≤ (headerSection fields).length := by
      rw [headerSection, List.length_append]
      exact Nat.le_add_left _ _
    simp only [Option.map_some, hlength, List.length_singleton, Option.some.injEq]
    omega

/-- The lines of a header section, up to the empty one. -/
theorem takeWhile_crlfLines (fields : List Field) (rest : Bytes) :
    (crlfLines [] (headerSection fields ++ rest)).takeWhile (· ≠ []) = fields.map Field.text := by
  -- A line without a carriage return ends at the first line break.
  have hline : ∀ (l s : Bytes), 0x0D ∉ l → crlfLines [] (l ++ Http.crlf ++ s) = l :: crlfLines [] s := by
    intro l s hl
    have hindex : Scan.indexOf (lit "\r\n") (l ++ Http.crlf ++ s) = some l.length := by
      rw [crlf_eq, List.append_assoc]
      exact Scan.indexOf_append_of_prefix hl ⟨s, rfl⟩
    rw [crlfLines_eq, hindex]
    simp only [List.reverse_nil, List.nil_append, List.append_assoc, List.take_left]
    rw [← List.drop_drop, List.drop_left]
    rfl
  induction fields with
  | nil =>
    have hblank := hline [] rest List.not_mem_nil
    rw [List.nil_append] at hblank
    rw [headerSection, List.flatMap_nil, List.nil_append, hblank]
    rfl
  | cons f fields ih =>
    have hsplit : headerSection (f :: fields) ++ rest =
        f.text ++ Http.crlf ++ (headerSection fields ++ rest) := by
      simp only [headerSection, List.flatMap_cons, List.append_assoc]
    rw [hsplit, hline _ _ f.notMem_text, List.takeWhile_cons_of_pos (by simpa using f.text_ne_nil), ih,
      List.map_cons]

/-- A text that blanks and line ends do not surround. -/
theorem trim_of_bounds {s : Bytes}
    (hhead : ∀ c ∈ s.head?, c ≠ 0x20 ∧ c ≠ 0x09 ∧ c ≠ 0x0D ∧ c ≠ 0x0A)
    (hlast : ∀ c ∈ s.getLast?, c ≠ 0x20 ∧ c ≠ 0x09 ∧ c ≠ 0x0D ∧ c ≠ 0x0A) : trim s = s := by
  have hkeep : ∀ w : Bytes, (∀ c ∈ w.head?, c ≠ 0x20 ∧ c ≠ 0x09 ∧ c ≠ 0x0D ∧ c ≠ 0x0A) →
      w.dropWhile (fun c => c == 0x20 || c == 0x09 || c == 0x0D || c == 0x0A) = w := by
    intro w hw
    cases w with
    | nil => rfl
    | cons c w => exact List.dropWhile_cons_of_neg (by simpa [and_assoc] using hw c rfl)
  rw [trim, hkeep s hhead, hkeep s.reverse, List.reverse_reverse]
  rw [List.head?_reverse]
  exact hlast

theorem ne_of_isBlank {c : UInt8} {v : Bytes} (hv : IsValue v) (hc : c ∈ v)
    (hblank : Http.isBlank c = false) : c ≠ 0x20 ∧ c ≠ 0x09 ∧ c ≠ 0x0D ∧ c ≠ 0x0A := by
  simp only [Http.isBlank, Bool.or_eq_false_iff, beq_eq_false_iff_ne] at hblank
  refine ⟨hblank.1, hblank.2, ?_, ?_⟩ <;> rintro rfl
  · exact hv.noReturn hc
  · exact hv.noLineFeed hc

theorem trim_value {v : Bytes} (hv : IsValue v) : trim (0x20 :: v) = v := by
  have hdrop : trim (0x20 :: v) = trim v := rfl
  rw [hdrop]
  exact trim_of_bounds (fun c hc => ne_of_isBlank hv (List.mem_of_mem_head? hc) (hv.head c hc))
    fun c hc => ne_of_isBlank hv (List.mem_of_getLast? hc) (hv.last c hc)

/-- A field line sets the field. -/
theorem addHeader_text (headers : Params) (f : Field) :
    addHeader headers f.text = headers.set (toLower f.name) f.value := by
  have hcolon : Scan.indexOf [0x3A] f.text = some f.name.length :=
    Scan.indexOf_append_of_prefix (Http.notMem_name f (by decide)) ⟨_, rfl⟩
  have hname : trim f.name = f.name := by
    have htoken : ∀ c ∈ f.name, c ≠ 0x20 ∧ c ≠ 0x09 ∧ c ≠ 0x0D ∧ c ≠ 0x0A := by
      intro c hc
      refine ⟨?_, ?_, ?_, ?_⟩ <;> rintro rfl <;> exact absurd (List.all_eq_true.mp f.token _ hc) (by decide)
    exact trim_of_bounds (fun c hc => htoken c (List.mem_of_mem_head? hc))
      fun c hc => htoken c (List.mem_of_getLast? hc)
  have hvalue : f.text.drop (f.name.length + 1) = 0x20 :: f.value := by
    rw [Field.text, ← List.drop_drop, List.drop_left]
    rfl
  have htake : f.text.take f.name.length = f.name := by rw [Field.text, List.take_left]
  simp only [addHeader, hcolon, htake, hvalue, hname, trim_value f.isValue]

theorem foldl_addHeader (fields : List Field) :
    (fields.map Field.text).foldl addHeader .empty = headersOf fields := by
  rw [List.foldl_map, headersOf]
  simp only [addHeader_text]

/-! ## The announced length -/

theorem notMem_toLower {s : Bytes} {c : UInt8} (hc : ¬ (0x61 ≤ c ∧ c ≤ 0x7A)) (h : c ∉ s) :
    c ∉ toLower s := by
  intro hmem
  obtain ⟨d, hd, hlower⟩ := List.mem_map.mp hmem
  rw [eq_of_lower_eq hlower hc] at hd
  exact h hd

/-- The search for the length begins at a line break. -/
theorem lengthName_prefix_field (f : Field) (t : Bytes) :
    lit "\r\ncontent-length:" <+: toLower (Http.crlf ++ (f.text ++ t)) ↔
      toLower f.name = lit "content-length" := by
  rw [lengthName_prefix_iff]
  have htext : f.text ++ t = f.name ++ 0x3A :: (0x20 :: f.value ++ t) := by
    simp only [Field.text, List.append_assoc, List.cons_append]
  constructor
  · rintro ⟨name, value, heq, hname⟩
    rw [crlf_eq, List.append_cancel_left_eq, htext] at heq
    -- The name that is found ends at the first colon of the field.
    have hcolon : 0x3A ∉ name := by
      intro hmem
      have hlower : (0x3A : UInt8) ∈ toLower name := List.mem_map.mpr ⟨0x3A, hmem, by decide⟩
      rw [hname] at hlower
      exact absurd hlower (by decide)
    rw [(Scan.segment_inj (Http.notMem_name f (by decide)) hcolon heq).1]
    exact hname
  · intro hname
    exact ⟨f.name, 0x20 :: f.value ++ t, by rw [crlf_eq, htext], hname⟩

/-- The search for the length goes through the lines. -/
theorem after_lengthName {l : Bytes} (hl : 0x0D ∉ l) (fields : List Field) :
    (Http.fieldValue (lit "content-length") (fields.map Field.pair) = none →
      Scan.after (lit "\r\ncontent-length:") (toLower (l ++ Http.crlf ++ headerSection fields)) = none) ∧
    ∀ value, Http.fieldValue (lit "content-length") (fields.map Field.pair) = some value →
      ∃ rest, Scan.after (lit "\r\ncontent-length:") (toLower (l ++ Http.crlf ++ headerSection fields)) =
        some (toLower (0x20 :: value) ++ Http.crlf ++ rest) := by
  have hpattern : lit "\r\ncontent-length:" = 0x0D :: (0x0A :: lit "content-length:") := by decide
  have hcrlf : toLower Http.crlf = Http.crlf := by decide
  induction fields generalizing l with
  | nil =>
    refine ⟨fun _ => ?_, nofun⟩
    rw [headerSection, List.flatMap_nil, List.nil_append, toLower_append, toLower_append, hcrlf,
      List.append_assoc, hpattern, Scan.after_append_of_notMem (notMem_toLower (by decide) hl)]
    decide
  | cons f fields ih =>
    have hsplit : l ++ Http.crlf ++ headerSection (f :: fields) =
        l ++ (Http.crlf ++ (f.text ++ (Http.crlf ++ headerSection fields))) := by
      simp only [headerSection, List.flatMap_cons, List.append_assoc]
    have hskip : Scan.after (lit "\r\ncontent-length:")
        (toLower (l ++ Http.crlf ++ headerSection (f :: fields))) =
          Scan.after (lit "\r\ncontent-length:")
            (toLower (Http.crlf ++ (f.text ++ (Http.crlf ++ headerSection fields)))) := by
      rw [hsplit, toLower_append, hpattern]
      exact Scan.after_append_of_notMem (notMem_toLower (by decide) hl)
    rw [hskip]
    by_cases hname : toLower f.name = lit "content-length"
    · -- The field is found.
      have hfound : Http.fieldValue (lit "content-length") ((f :: fields).map Field.pair) = some f.value := by
        rw [List.map_cons, Http.fieldValue_cons]
        exact if_pos hname
      have hsame : toLower (Http.crlf ++ (f.text ++ (Http.crlf ++ headerSection fields))) =
          lit "\r\ncontent-length:" ++
            (toLower (0x20 :: f.value) ++ Http.crlf ++ toLower (headerSection fields)) := by
        have hcolon : toLower (0x3A :: 0x20 :: f.value) = 0x3A :: toLower (0x20 :: f.value) := rfl
        have hname' : lit "content-length:" = lit "content-length" ++ [0x3A] := by decide
        rw [toLower_append, Field.text, toLower_append, toLower_append, toLower_append, hname, hcrlf,
          hcolon, hpattern, hname']
        simp only [Http.crlf, List.append_assoc, List.cons_append, List.nil_append]
      rw [hfound, hsame, Scan.after_of_prefix (List.prefix_append _ _), List.drop_left]
      constructor
      · intro h
        cases h
      · rintro value ⟨⟩
        exact ⟨_, rfl⟩
    · -- The search goes on with the next line.
      have hfound : Http.fieldValue (lit "content-length") ((f :: fields).map Field.pair) =
          Http.fieldValue (lit "content-length") (fields.map Field.pair) := by
        rw [List.map_cons, Http.fieldValue_cons]
        exact if_neg hname
      have hnot := mt (lengthName_prefix_field f (Http.crlf ++ headerSection fields)).mp hname
      have hhead : toLower (Http.crlf ++ (f.text ++ (Http.crlf ++ headerSection fields))) =
          0x0D :: ([0x0A] ++ toLower (f.text ++ Http.crlf ++ headerSection fields)) := by
        rw [List.append_assoc]
        rfl
      rw [hhead] at hnot
      have hfeed : 0x0D ∉ [(0x0A : UInt8)] := by decide
      have htail := ih f.notMem_text
      rw [hfound, hhead, Scan.after_cons_skip hnot, hpattern, Scan.after_append_of_notMem hfeed, ← hpattern]
      exact htail

/-- The length is that of the first field of the name. -/
theorem contentLengthOf_fields {l : Bytes} (hl : 0x0D ∉ l) {fields : List Field} {body : Bytes}
    (h : Announces fields body) (hbody : body.length ≤ 18446744073709551615) :
    contentLengthOf (l ++ Http.crlf ++ headerSection fields) = body.length := by
  obtain ⟨hnone, hsome⟩ := after_lengthName hl fields
  unfold Announces at h
  split at h
  · rename_i hvalue
    rw [contentLengthOf, hnone hvalue, h]
    rfl
  · rename_i value hvalue
    obtain ⟨rest, hafter⟩ := hsome value hvalue
    -- The value is a blank and digits, which no other search stops at.
    have hdigits : toLower (0x20 :: value) = 0x20 :: value := by
      apply toLower_eq_self
      rintro c hc ⟨hlow, -⟩
      rw [h] at hc
      rcases List.mem_cons.mp hc with rfl | hc
      · exact absurd hlow (by decide)
      · have hdigit := Decimal.isDigit_iff.mp (Decimal.isDigit_of_mem_digits hc)
        rw [UInt8.le_iff_toNat_le] at hlow
        have h41 : (0x41 : UInt8).toNat = 65 := rfl
        omega
    have hreturn : 0x0D ∉ 0x20 :: value := by
      intro hmem
      rw [h] at hmem
      rcases List.mem_cons.mp hmem with habsurd | hmem
      · exact absurd habsurd (by decide)
      · exact absurd (Decimal.isDigit_of_mem_digits hmem) (by decide)
    have hline : Scan.indexOf (lit "\r\n") (0x20 :: value ++ Http.crlf ++ rest) =
        some (0x20 :: value).length := by
      rw [crlf_eq, List.append_assoc]
      exact Scan.indexOf_append_of_prefix hreturn ⟨rest, rfl⟩
    have hread : stoull (trim (toLower (0x20 :: value))) = some body.length :=
      stoull_trim ⟨[0x20], value, [], by simp, by simp, h ▸ Decimal.digits_ne_nil _,
        h ▸ fun c hc => Decimal.isDigit_of_mem_digits hc, h ▸ Decimal.value_digits _⟩ hbody
    rw [contentLengthOf, hafter, hdigits]
    simp only [hline, Option.elim_some]
    rw [List.append_assoc, List.take_left, ← hdigits, hread, Option.getD_some]

/-! ## What is read -/

variable {stream : Bytes} {segs : List Segment}

/-- **A request is read to its end**, however it is cut, if it is as long as the server awaits. -/
theorem received_eq (h : awaited stream = some stream.length) (hcap : stream.length ≤ maxRequestBytes)
    (hcut : Cuts segs stream) : received segs = stream := by
  -- Before its end a request is not complete.
  have hincomplete : ∀ raw, raw <+: stream → raw ≠ stream → (ReadState.ofRaw raw).complete = false := by
    rintro raw ⟨more, rfl⟩ hne
    have hshort : raw.length < (raw ++ more).length := by
      have hpos := List.length_pos_iff.mpr fun hnil : more = [] => hne (by rw [hnil, List.append_nil])
      rw [List.length_append]
      omega
    cases hindex : Scan.indexOf (lit "\r\n\r\n") raw with
    | none => simp [ReadState.complete, ReadState.ofRaw, hindex]
    | some pos =>
      have hlength : pos + 4 + contentLengthOf (raw.take (pos + 4)) = (raw ++ more).length := by
        have hsame : awaited raw = some (pos + 4 + contentLengthOf (raw.take (pos + 4))) := by
          rw [awaited, hindex, Option.map_some]
        have hboth : awaited (raw ++ more) = _ := awaited_append hsame
        rw [h] at hboth
        exact (Option.some.inj hboth).symm
      have hmod : (pos + 4 + contentLengthOf (raw.take (pos + 4))) % 18446744073709551616 =
          (raw ++ more).length := by
        rw [hlength, Nat.mod_eq_of_lt]
        rw [maxRequestBytes] at hcap
        omega
      simp only [ReadState.complete, ReadState.ofRaw, hindex, Option.isSome_some, Option.elim_some, hmod,
        Bool.true_and, decide_eq_false_iff_not]
      omega
  -- The induction over the segments needs the bytes read before them.
  suffices hloop : ∀ raw, raw ++ segs.flatMap Segment.bytes = stream → raw ≠ stream ∨ segs = [] →
      ((ReadState.ofRaw raw).loop segs).raw = stream by
    by_cases hnil : stream = []
    · rw [hnil] at hcut
      have hsegs : segs = [] := by
        cases segs with
        | nil => rfl
        | cons seg segs =>
          rw [Cuts, List.flatMap_cons, List.append_eq_nil_iff] at hcut
          exact absurd hcut.1 seg.nonempty
      exact hloop [] (by rw [hsegs, hnil]; rfl) (.inr hsegs)
    · exact hloop [] hcut (.inl fun h => hnil h.symm)
  clear hcut
  induction segs with
  | nil =>
    intro raw hraw _
    rw [List.flatMap_nil, List.append_nil] at hraw
    exact hraw
  | cons seg segs ih =>
    intro raw hraw hne
    have hne := hne.resolve_right (List.cons_ne_nil _ _)
    rw [List.flatMap_cons, ← List.append_assoc] at hraw
    have hprefix : raw ++ seg.bytes <+: stream := ⟨_, hraw⟩
    have hroom : (ReadState.ofRaw raw).raw.length < maxRequestBytes := by
      have hlength := hprefix.length_le
      have hpos := List.length_pos_iff.mpr seg.nonempty
      rw [List.length_append] at hlength
      exact Nat.lt_of_lt_of_le (Nat.lt_of_lt_of_le (Nat.lt_add_of_pos_right hpos) hlength) hcap
    rw [ReadState.loop, if_pos hroom, ReadState.receive_ofRaw]
    simp only
    by_cases hend : raw ++ seg.bytes = stream
    · have hrest : segs = [] := by
        cases segs with
        | nil => rfl
        | cons seg' segs =>
          -- Another segment would bring more.
          have hmore : (seg' :: segs).flatMap Segment.bytes = [] := by
            rw [← hend] at hraw
            exact List.append_right_eq_self.mp hraw
          rw [List.flatMap_cons, List.append_eq_nil_iff] at hmore
          exact absurd hmore.1 seg'.nonempty
      split
      · exact hend
      · exact ih _ hraw (.inr hrest)
    · rw [hincomplete _ hprefix hend]
      exact ih _ hraw (.inl hend)

/-! ## What is parsed -/

section Parse

variable {method target body : Bytes} {fields : List Field}
  (hmethod : 0x20 ∉ method ∧ 0x0D ∉ method) (htarget : 0x20 ∉ target ∧ 0x0D ∉ target)

include hmethod htarget

/-- The request line. -/
theorem httpRequest_eq (headers : Bytes) : httpRequest method target headers =
      (method ++ 0x20 :: (target ++ lit " HTTP/1.1")) ++ Http.crlf ++ headers ∧
    0x0D ∉ method ++ 0x20 :: (target ++ lit " HTTP/1.1") := by
  have hlit : lit " HTTP/1.1\r\n" = lit " HTTP/1.1" ++ Http.crlf := by decide
  have hversion : 0x0D ∉ lit " HTTP/1.1" := by decide
  refine ⟨?_, by simp [hmethod.2, htarget.2, hversion]⟩
  rw [httpRequest, hlit]
  simp only [List.append_assoc, List.cons_append]

/-- A request is as long as the server awaits. -/
theorem awaited_httpRequest (h : Announces fields body) (hbody : body.length ≤ 18446744073709551615) :
    awaited (httpRequest method target (headerSection fields ++ body)) =
      some (httpRequest method target (headerSection fields ++ body)).length := by
  obtain ⟨hline, hreturn⟩ := httpRequest_eq hmethod htarget (headerSection fields ++ body)
  have hindex := indexOf_blankLine hreturn fields body
  have htwo : 2 ≤ (headerSection fields).length := by
    rw [headerSection, List.length_append]
    exact Nat.le_add_left _ _
  rw [← List.append_assoc] at hline
  rw [hline, awaited, hindex, Option.map_some, Option.some.injEq]
  generalize method ++ 0x20 :: (target ++ lit " HTTP/1.1") = l at hreturn ⊢
  have hend : l.length + (headerSection fields).length - 2 + 4 =
      (l ++ Http.crlf ++ headerSection fields).length := by
    simp only [Http.crlf, List.length_append, List.length_cons, List.length_nil]
    omega
  rw [hend, List.take_left, contentLengthOf_fields hreturn h hbody]
  exact List.length_append.symm

/-- The request that is made of the bytes. -/
theorem requestOf_fields :
    requestOf (httpRequest method target (headerSection fields ++ body)) =
      { method
        path := (parseTarget target).1
        headers := headersOf fields
        queryParams := (parseTarget target).2
        pathParams := .empty
        body } := by
  obtain ⟨hline, hreturn⟩ := httpRequest_eq hmethod htarget (headerSection fields ++ body)
  have hindex := indexOf_blankLine hreturn fields body
  rw [List.append_assoc, ← hline] at hindex
  have hcrlf : Scan.indexOf (lit "\r\n") (httpRequest method target (headerSection fields ++ body)) =
      some (method ++ 0x20 :: (target ++ lit " HTTP/1.1")).length := by
    rw [hline, crlf_eq, List.append_assoc]
    exact Scan.indexOf_append_of_prefix hreturn (List.prefix_append _ _)
  have htake : (httpRequest method target (headerSection fields ++ body)).take
      (method ++ 0x20 :: (target ++ lit " HTTP/1.1")).length =
        method ++ 0x20 :: (target ++ lit " HTTP/1.1") := by
    rw [hline, List.append_assoc, List.take_left]
  -- The first space ends the method, and the next one the target.
  have hspace : Scan.indexOf [0x20] (method ++ 0x20 :: (target ++ lit " HTTP/1.1")) =
      some method.length := Scan.indexOf_append_of_prefix hmethod.1 ⟨_, rfl⟩
  have hspace' : Scan.indexOf [0x20] (target ++ lit " HTTP/1.1") = some target.length :=
    Scan.indexOf_append_of_prefix htarget.1 ⟨lit "HTTP/1.1", rfl⟩
  have hrest : (method ++ 0x20 :: (target ++ lit " HTTP/1.1")).drop (method.length + 1) =
      target ++ lit " HTTP/1.1" := by simp
  -- The lines, and what stands behind them.
  have hlines : (httpRequest method target (headerSection fields ++ body)).drop
      ((method ++ 0x20 :: (target ++ lit " HTTP/1.1")).length + 2) = headerSection fields ++ body := by
    rw [hline, List.append_assoc, ← List.drop_drop, List.drop_left]
    rfl
  have hbody : (httpRequest method target (headerSection fields ++ body)).drop
      ((method ++ 0x20 :: (target ++ lit " HTTP/1.1")).length + (headerSection fields).length - 2 + 4) =
        body := by
    have htwo : 2 ≤ (headerSection fields).length := by
      rw [headerSection, List.length_append]
      exact Nat.le_add_left _ _
    have hend : (method ++ 0x20 :: (target ++ lit " HTTP/1.1")).length +
        (headerSection fields).length - 2 + 4 =
          (method ++ 0x20 :: (target ++ lit " HTTP/1.1")).length + 2 + (headerSection fields).length := by
      omega
    rw [hend, ← List.drop_drop, hlines, List.drop_left]
  simp only [requestOf, ReadState.parse, ReadState.ofRaw, hindex, hcrlf, htake, hspace, hrest, hspace',
    hlines, hbody, takeWhile_crlfLines, foldl_addHeader, Option.elim_some, List.take_left,
    Nat.succ_pos, if_true]

/-- What is read of the segments is the request. -/
theorem readAndParse_httpRequest (h : Announces fields body)
    (hcap : (httpRequest method target (headerSection fields ++ body)).length ≤ maxRequestBytes)
    (hcut : Cuts segs (httpRequest method target (headerSection fields ++ body))) :
    readAndParse segs = requestOf (httpRequest method target (headerSection fields ++ body)) := by
  have hbody : body.length ≤ 18446744073709551615 := by
    obtain ⟨hline, -⟩ := httpRequest_eq hmethod htarget (headerSection fields ++ body)
    rw [hline, maxRequestBytes] at hcap
    simp only [List.length_append] at hcap
    omega
  rw [readAndParse_eq, received_eq (awaited_httpRequest hmethod htarget h hbody) hcap hcut]

/-- **A request is parsed back**: its method, its target as it is decoded, its body, and for every
    name the last of its fields, whatever the fields are and however the bytes are cut. -/
theorem request_round_trip (h : Announces fields body)
    (hcap : (httpRequest method target (headerSection fields ++ body)).length ≤ maxRequestBytes)
    (hcut : Cuts segs (httpRequest method target (headerSection fields ++ body))) :
    let req := readAndParse segs
    req.method = method ∧ (req.path, req.queryParams) = parseTarget target ∧ req.body = body ∧
      ∀ name, req.headers.get? name =
        (fields.reverse.find? fun f => toLower f.name = name).map Field.value := by
  intro req
  have hreq : req = _ :=
    (readAndParse_httpRequest hmethod htarget h hcap hcut).trans (requestOf_fields hmethod htarget)
  rw [hreq]
  exact ⟨rfl, rfl, rfl, get?_headersOf fields⟩

end Parse

/-- A POST of two bytes, with a field twice and the bytes of the body apart. -/
theorem sample_request_round_trip :
    let fields : List Field :=
      [⟨lit "Host", lit "a", by decide, by decide, by decide⟩,
        ⟨lit "Content-Length", lit "2", by decide, by decide, by decide⟩,
        ⟨lit "X-A", lit "1", by decide, by decide, by decide⟩,
        ⟨lit "x-a", lit "2 3", by decide, by decide, by decide⟩]
    let req := readAndParse
      [⟨lit "POST /a%20b?c=d HTTP/1.1\r\nHost: a\r\nContent-Len", by decide, by decide⟩,
        ⟨lit "gth: 2\r\nX-A: 1\r\nx-a: 2 3\r\n\r\no", by decide, by decide⟩,
        ⟨lit "k", by decide, by decide⟩]
    req.method = lit "POST" ∧ (req.path, req.queryParams) = parseTarget (lit "/a%20b?c=d") ∧
      req.body = lit "ok" ∧ ∀ name, req.headers.get? name =
        (fields.reverse.find? fun f => toLower f.name = name).map Field.value :=
  request_round_trip (by decide) (by decide) (by decide) (by decide +kernel) (by decide +kernel)

end Frag
