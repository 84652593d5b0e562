import Frag.Guarantees.Reading

/-!
# Bodies and Packets

The read loop stops at the first `recv` after which the headers and the announced number of
body bytes have arrived. What that `recv` brought beyond them is not cut off: the body is
everything after the blank line that has been read.

## Main results

- `contentLengthOf_framed`: a valid `Content-Length` is read, wherever it stands;
- `received_framed`: how much of the stream is read;
- `framed_by_length_iff`: when the body is the announced one.
-/

namespace Frag

/-! ## Streams -/

/-- A decimal number with blanks around it. -/
def DecimalText (value : Bytes) (n : Nat) : Prop :=
  ∃ left digits right, value = left ++ (digits ++ right) ∧
    (∀ c ∈ left ++ right, c = 0x20 ∨ c = 0x09) ∧
    digits ≠ [] ∧ (∀ c ∈ digits, Decimal.isDigit c = true) ∧ Decimal.value digits = n

/-- The header section has a `Content-Length` field with this value. -/
def LengthField (headers value : Bytes) : Prop :=
  ∃ before name rest,
    headers = before ++ (lit "\r\n" ++ (name ++ 0x3A :: (value ++ (lit "\r\n" ++ rest)))) ∧
    toLower name = lit "content-length" ∧ ¬ lit "\r\n" <:+: value

/-- A stream within the cap with a complete header section, which ends at `pos + 4`, the length
    `n` in each of its `Content-Length` fields, and at least that many bytes after it. -/
structure Framed (stream : Bytes) (pos n : Nat) : Prop where
  blankLine : Scan.indexOf (lit "\r\n\r\n") stream = some pos
  given : ∃ value, LengthField (stream.take (pos + 4)) value
  valid : ∀ value, LengthField (stream.take (pos + 4)) value → DecimalText value n
  complete : pos + 4 + n ≤ stream.length
  withinCap : stream.length ≤ maxRequestBytes

/-- The stream is cut into these results of `recv`. -/
def Cuts (segs : List Segment) (stream : Bytes) : Prop := segs.flatMap Segment.bytes = stream

instance (segs : List Segment) (stream : Bytes) : Decidable (Cuts segs stream) :=
  inferInstanceAs (Decidable (_ = stream))

/-- Some `recv` ends after this many bytes. -/
def EndsAt (segs : List Segment) (k : Nat) : Prop :=
  ∃ m, ((segs.take m).flatMap Segment.bytes).length = k

/-! ## The announced length -/

/-- A valid length is read. -/
theorem stoull_trim {value : Bytes} {n : Nat} (h : DecimalText value n)
    (hn : n ≤ 18446744073709551615) : stoull (trim (toLower value)) = some n := by
  obtain ⟨left, digits, right, rfl, hblank, hne, hdigits, rfl⟩ := h
  -- Blanks and digits are below the letters.
  have hbelow : ∀ c ∈ left ++ (digits ++ right), c.toNat ≤ 57 := by
    intro c hc
    rw [List.mem_append, List.mem_append] at hc
    have hcase : (c = 0x20 ∨ c = 0x09) ∨ Decimal.isDigit c = true := by
      rcases hc with hc | hc | hc
      · exact .inl (hblank c (List.mem_append_left _ hc))
      · exact .inr (hdigits c hc)
      · exact .inl (hblank c (List.mem_append_right _ hc))
    rcases hcase with (rfl | rfl) | hc
    · decide
    · decide
    · exact (Decimal.isDigit_iff.mp hc).2
  have hlower : toLower (left ++ (digits ++ right)) = left ++ (digits ++ right) := by
    apply toLower_eq_self
    intro c hc hupper
    have hle := UInt8.le_iff_toNat_le.mp hupper.1
    have h41 : (0x41 : UInt8).toNat = 65 := rfl
    have hlt := hbelow c hc
    omega
  have htrim : trim (left ++ (digits ++ right)) = digits := by
    apply trim_append hne
    · intro c hc
      rcases hblank c hc with rfl | rfl
      · exact .inl rfl
      · exact .inr (.inl rfl)
    · intro c hc
      have hdigit := hdigits c hc
      refine ⟨?_, ?_, ?_, ?_⟩ <;> rintro rfl <;> exact absurd hdigit (by decide)
  have hread : readSigned (digits ++ []) = (false, digits) := readSigned_digits hne hdigits nofun
  rw [List.append_nil] at hread
  rw [hlower, htrim, stoull, hread]
  simp only [if_neg hne, if_neg (Nat.not_lt.mpr hn), Bool.false_eq_true, if_false]

theorem toLower_append (s t : Bytes) : toLower (s ++ t) = toLower s ++ toLower t := List.map_append

theorem crlf_prefix_toLower (s : Bytes) : lit "\r\n" <+: toLower s ↔ lit "\r\n" <+: s := by
  have hlit : lit "\r\n" = [0x0D, 0x0A] := by decide
  constructor
  · rintro ⟨t, ht⟩
    obtain ⟨a, b, rfl, ha, -⟩ := List.map_eq_append_iff.mp ht.symm
    rw [eq_of_toLower_eq ha (by decide +kernel)]
    exact List.prefix_append _ b
  · rintro ⟨t, rfl⟩
    rw [toLower_append, hlit]
    exact List.prefix_append _ _

/-- What the code searches for is a line break, a name and a colon. -/
theorem lengthName_prefix_iff {s : Bytes} : lit "\r\ncontent-length:" <+: toLower s ↔
    ∃ name value, s = lit "\r\n" ++ (name ++ 0x3A :: value) ∧ toLower name = lit "content-length" := by
  have hlit : lit "\r\ncontent-length:" = lit "\r\n" ++ (lit "content-length" ++ [0x3A]) := by decide
  rw [hlit]
  constructor
  · rintro ⟨t, ht⟩
    -- Line break and colon have no other case.
    obtain ⟨x, value, rfl, hx, -⟩ := List.map_eq_append_iff.mp ht.symm
    obtain ⟨crlf, x', rfl, hcrlf, hx'⟩ := List.map_eq_append_iff.mp hx
    obtain ⟨name, colon, rfl, hname, hcolon⟩ := List.map_eq_append_iff.mp hx'
    obtain rfl := eq_of_toLower_eq hcrlf (by decide +kernel)
    obtain rfl := eq_of_toLower_eq hcolon (by decide +kernel)
    exact ⟨name, value, by simp only [List.append_assoc, List.singleton_append], hname⟩
  · rintro ⟨name, value, rfl, hname⟩
    have hcrlf : toLower (lit "\r\n") = lit "\r\n" := by decide
    have hcolon : toLower [0x3A] = [0x3A] := by decide
    have hvalue : toLower (0x3A :: value) = [0x3A] ++ toLower value := by
      rw [← List.singleton_append, toLower_append, hcolon]
    rw [toLower_append, toLower_append, hcrlf, hname, hvalue]
    exact ⟨toLower value, by simp only [List.append_assoc]⟩

section Field

variable {headers name y : Bytes} {i j : Nat} (hname : toLower name = lit "content-length")
  (hfield : headers.drop i = lit "\r\n" ++ (name ++ 0x3A :: y))

include hname hfield

/-- The text after the colon. -/
theorem drop_of_lengthName : headers.drop (i + 17) = y := by
  have hlength : (lit "\r\n" ++ (name ++ [0x3A])).length = 17 := by
    have heq := congrArg List.length hname
    rw [toLower, List.length_map] at heq
    rw [List.length_append, List.length_append, heq]
    decide
  have hsplit : headers.drop i = (lit "\r\n" ++ (name ++ [0x3A])) ++ y := by
    rw [hfield]
    simp only [List.append_assoc, List.singleton_append]
  rw [← List.drop_drop, hsplit, ← hlength, List.drop_left]

/-- The value of a field ends where its line does. -/
theorem lengthField_take (hline : Scan.indexOf (lit "\r\n") y = some j) :
    LengthField headers (y.take j) := by
  obtain ⟨hle, ⟨rest, hrest⟩, hfirst⟩ := Scan.indexOf_eq_some.mp hline
  refine ⟨headers.take i, name, rest, ?_, hname, ?_⟩
  · rw [hrest, List.take_append_drop, ← hfield, List.take_append_drop]
  · rintro ⟨u, v, huv⟩
    have hlt : u.length < j := by
      have hlength := congrArg List.length huv
      have htwo : (lit "\r\n").length = 2 := by decide
      rw [List.length_append, List.length_append, List.length_take] at hlength
      omega
    apply hfirst u.length hlt
    rw [← List.take_append_drop j y, ← huv, List.append_assoc, List.append_assoc, List.drop_left]
    exact List.prefix_append _ _

/-- That value is converted if it is the first one. -/
theorem contentLengthOf_eq
    (hfirst : Scan.indexOf (lit "\r\ncontent-length:") (toLower headers) = some i)
    (hline : Scan.indexOf (lit "\r\n") y = some j) :
    contentLengthOf headers = (stoull (trim (toLower (y.take j)))).getD 0 := by
  have hlength : (lit "\r\ncontent-length:").length = 17 := by decide
  have hafter : Scan.after (lit "\r\ncontent-length:") (toLower headers) = some (toLower y) := by
    rw [Scan.after, hfirst, Option.map_some, hlength, toLower, ← List.map_drop,
      drop_of_lengthName hname hfield, toLower]
  have hcut : Scan.indexOf (lit "\r\n") (toLower y) = some j :=
    (Scan.indexOf_map crlf_prefix_toLower y).trans hline
  have htake : (toLower y).take j = toLower (y.take j) := List.map_take.symm
  rw [contentLengthOf, hafter]
  simp only [hcut, Option.elim_some, htake]

/-- The line of a field ends if a line ends after it. -/
theorem exists_line {k : Nat} (hk : i + 17 ≤ k) (hend : lit "\r\n" <+: headers.drop k) :
    ∃ j, Scan.indexOf (lit "\r\n") y = some j := by
  have hlater : lit "\r\n" <+: y.drop (k - (i + 17)) := by
    rw [← drop_of_lengthName hname hfield, List.drop_drop, Nat.add_sub_cancel' hk]
    exact hend
  obtain ⟨j, -, hj⟩ := Scan.exists_indexOf_of_prefix hlater
  exact ⟨j, hj⟩

end Field

/-- **A valid `Content-Length` is read**, wherever it stands in the header section. -/
theorem contentLengthOf_framed {headers : Bytes} {n : Nat} (hn : n ≤ 18446744073709551615)
    (hgiven : ∃ value, LengthField headers value)
    (hvalid : ∀ value, LengthField headers value → DecimalText value n) :
    contentLengthOf headers = n := by
  obtain ⟨value₀, before₀, name₀, rest₀, hheaders, hname₀, -⟩ := hgiven
  have hdrop : ∀ k, (toLower headers).drop k = toLower (headers.drop k) := fun k => List.map_drop.symm
  -- The code finds a first field, which may be an earlier one.
  have hoccurs : lit "\r\ncontent-length:" <+: (toLower headers).drop before₀.length := by
    rw [hdrop, hheaders, List.drop_left]
    exact lengthName_prefix_iff.mpr ⟨name₀, _, rfl, hname₀⟩
  obtain ⟨i, hi, hfirst⟩ := Scan.exists_indexOf_of_prefix hoccurs
  have hat := (Scan.indexOf_eq_some.mp hfirst).2.1
  rw [hdrop] at hat
  obtain ⟨name, y, hfield, hname⟩ := lengthName_prefix_iff.mp hat
  -- The line of the given field ends after the name of the first one.
  have hend : lit "\r\n" <+: headers.drop (before₀.length + 17 + value₀.length) := by
    have hgiven : headers.drop before₀.length =
        lit "\r\n" ++ (name₀ ++ 0x3A :: (value₀ ++ (lit "\r\n" ++ rest₀))) := by
      rw [hheaders, List.drop_left]
    rw [← List.drop_drop, drop_of_lengthName hname₀ hgiven, List.drop_left]
    exact List.prefix_append _ _
  obtain ⟨j, hline⟩ := exists_line hname hfield (by omega) hend
  rw [contentLengthOf_eq hname hfield hfirst hline,
    stoull_trim (hvalid _ (lengthField_take hname hfield hline)) hn, Option.getD_some]

/-! ## What is read -/

variable {stream raw : Bytes} {pos n : Nat} {segs segs' : List Segment}

/-- The request is complete when everything that was announced has arrived. -/
theorem complete_ofRaw_iff (h : Framed stream pos n) (hraw : raw <+: stream) :
    (ReadState.ofRaw raw).complete = true ↔ pos + 4 + n ≤ raw.length := by
  have hsum : pos + 4 + n < 18446744073709551616 := by
    have hcap := Nat.le_trans h.complete h.withinCap
    rw [maxRequestBytes] at hcap
    omega
  cases hindex : Scan.indexOf (lit "\r\n\r\n") raw with
  | none =>
    -- The blank line has not arrived yet.
    have hshort : raw.length < pos + 4 := by
      by_contra hlong
      have hfound := Scan.indexOf_take h.blankLine (Nat.not_lt.mp hlong)
      rw [← List.prefix_iff_eq_take.mp hraw, hindex] at hfound
      cases hfound
    simp only [ReadState.complete, ReadState.ofRaw, hindex]
    simp only [Option.isSome_none, Bool.false_and, Bool.false_eq_true, false_iff]
    omega
  | some i =>
    obtain ⟨t, rfl⟩ := hraw
    obtain rfl : i = pos := by
      have hsame := Scan.indexOf_append (t := t) hindex
      rw [h.blankLine] at hsame
      exact (Option.some.inj hsame).symm
    have hheaders : contentLengthOf (raw.take (i + 4)) = n := by
      have htake : raw.take (i + 4) = (raw ++ t).take (i + 4) :=
        (List.take_append_of_le_length (ReadState.headers_le hindex)).symm
      rw [htake]
      exact contentLengthOf_framed (by omega) h.given h.valid
    simp only [ReadState.complete, ReadState.ofRaw, hindex, Option.elim_some, hheaders,
      Nat.mod_eq_of_lt hsum]
    simp

/-- **How much is read**: up to the end of the first `recv` with which everything has arrived. -/
theorem received_framed (h : Framed stream pos n) (hcut : Cuts segs stream) :
    ∃ m, received segs = (segs.take m).flatMap Segment.bytes ∧ pos + 4 + n ≤ (received segs).length ∧
      ∀ k < m, ((segs.take k).flatMap Segment.bytes).length < pos + 4 + n := by
  -- The induction over the segments needs the bytes read before them.
  suffices hloop : ∀ raw, raw ++ segs.flatMap Segment.bytes = stream → raw.length < pos + 4 + n →
      ∃ m, ((ReadState.ofRaw raw).loop segs).raw = raw ++ (segs.take m).flatMap Segment.bytes ∧
        pos + 4 + n ≤ ((ReadState.ofRaw raw).loop segs).raw.length ∧
        ∀ k < m, (raw ++ (segs.take k).flatMap Segment.bytes).length < pos + 4 + n by
    obtain ⟨m, hread, hlong, hbefore⟩ := hloop [] hcut (by rw [List.length_nil]; omega)
    exact ⟨m, hread, hlong, hbefore⟩
  clear hcut
  induction segs with
  | nil =>
    intro raw hraw hshort
    rw [List.flatMap_nil, List.append_nil] at hraw
    have hall := h.complete
    rw [← hraw] at hall
    omega
  | cons seg segs ih =>
    intro raw hraw hshort
    rw [List.flatMap_cons, ← List.append_assoc] at hraw
    have hprefix : raw ++ seg.bytes <+: stream := ⟨_, hraw⟩
    have hroom : (ReadState.ofRaw raw).raw.length < maxRequestBytes :=
      Nat.lt_of_lt_of_le hshort (Nat.le_trans h.complete h.withinCap)
    have hcomplete := complete_ofRaw_iff h hprefix
    rw [ReadState.loop, if_pos hroom, ReadState.receive_ofRaw]
    simp only
    by_cases hlong : pos + 4 + n ≤ (raw ++ seg.bytes).length
    · -- Everything has arrived with this one.
      rw [if_pos (hcomplete.mpr hlong)]
      refine ⟨1, ?_, hlong, ?_⟩
      · simp [ReadState.ofRaw]
      · intro k hk
        obtain rfl : k = 0 := by omega
        simpa using hshort
    · rw [if_neg (mt hcomplete.mp hlong)]
      obtain ⟨m, hread, hlong', hbefore⟩ := ih _ hraw (Nat.not_le.mp hlong)
      refine ⟨m + 1, ?_, hlong', ?_⟩
      · rw [hread, List.take_succ_cons, List.flatMap_cons, List.append_assoc]
      · intro k hk
        cases k with
        | zero => simpa using hshort
        | succ k =>
          rw [List.take_succ_cons, List.flatMap_cons, ← List.append_assoc]
          exact hbefore k (by omega)

theorem received_prefix_stream (h : Framed stream pos n) (hcut : Cuts segs stream) :
    received segs <+: stream := by
  obtain ⟨m, hread, -, -⟩ := received_framed h hcut
  rw [hread, ← hcut]
  exact ⟨(segs.drop m).flatMap Segment.bytes, by rw [← List.flatMap_append, List.take_append_drop]⟩

theorem length_take_le (segs : List Segment) {k m : Nat} (h : k ≤ m) :
    ((segs.take k).flatMap Segment.bytes).length ≤ ((segs.take m).flatMap Segment.bytes).length := by
  obtain ⟨t, ht⟩ := List.take_prefix_take_left (l := segs) h
  rw [← ht, List.flatMap_append, List.length_append]
  exact Nat.le_add_right _ _

/-- Exactly what was announced is read iff some `recv` ends with it. -/
theorem length_received_iff (h : Framed stream pos n) (hcut : Cuts segs stream) :
    (received segs).length = pos + 4 + n ↔ EndsAt segs (pos + 4 + n) := by
  obtain ⟨m, hread, hlong, hbefore⟩ := received_framed h hcut
  constructor
  · intro hlength
    exact ⟨m, hread ▸ hlength⟩
  · rintro ⟨k, hk⟩
    -- The loop has stopped by then.
    have hle : m ≤ k := by
      by_contra hlt
      have hless := hbefore k (Nat.not_le.mp hlt)
      omega
    have hlength := length_take_le segs hle
    rw [← hread] at hlength
    omega

/-! ## What is parsed -/

/-- The request line, up to the first CRLF. -/
def requestLine (bytes : Bytes) : Bytes := bytes.take ((Scan.indexOf (lit "\r\n") bytes).getD 0)

/-- A blank line ends the headers. -/
theorem nil_mem_crlfLines {s : Bytes} {k : Nat} (line : Bytes) (h : lit "\r\n\r\n" <+: s.drop k) :
    [] ∈ crlfLines line s := by
  have hlit : lit "\r\n\r\n" = [0x0D, 0x0A, 0x0D, 0x0A] := by decide
  fun_induction crlfLines line s generalizing k with
  | case1 =>
    have hlength := h.length_le
    simp [hlit] at hlength
  | case2 =>
    have hlength := h.length_le
    rw [hlit, List.length_drop] at hlength
    simp only [List.length_cons, List.length_nil] at hlength
    omega
  | case3 line c d s hcrlf ih =>
    obtain ⟨rfl, rfl⟩ := hcrlf
    cases k with
    | zero =>
      -- The first CRLF ends the line before the blank one, and the second the blank one.
      obtain ⟨t, ht⟩ := h
      rw [hlit, List.drop_zero] at ht
      obtain rfl : 0x0D :: 0x0A :: t = s := (List.cons.inj (List.cons.inj ht).2).2
      rw [crlfLines, if_pos ⟨rfl, rfl⟩]
      exact List.mem_cons_of_mem _ List.mem_cons_self
    | succ k =>
      cases k with
      | zero =>
        rw [hlit] at h
        exact absurd (List.cons_prefix_cons.mp h).1 (by decide)
      | succ k => exact List.mem_cons_of_mem _ (ih h)
  | case4 line c d s hcrlf ih =>
    cases k with
    | zero =>
      rw [hlit, List.drop_zero, List.cons_prefix_cons, List.cons_prefix_cons] at h
      exact absurd ⟨h.1.symm, h.2.1.symm⟩ hcrlf
    | succ k => exact ih h

/-- What follows the header section is the body, if the request line has a space in it. -/
theorem requestOf_append {headers : Bytes} (hindex : Scan.indexOf (lit "\r\n\r\n") headers = some pos)
    (hlength : headers.length = pos + 4) (body : Bytes) :
    requestOf (headers ++ body) =
      if 0x20 ∈ requestLine headers then { requestOf headers with body } else .blank := by
  have hblank := (Scan.indexOf_eq_some.mp hindex).2.1
  have hcrlf : lit "\r\n" <+: headers.drop pos := by
    have hlit : lit "\r\n\r\n" = lit "\r\n" ++ lit "\r\n" := by decide
    rw [hlit] at hblank
    exact (List.prefix_append _ _).trans hblank
  obtain ⟨lineEnd, hle, hline⟩ := Scan.exists_indexOf_of_prefix hcrlf
  have hline' := Scan.indexOf_append (t := body) hline
  have hindex' := Scan.indexOf_append (t := body) hindex
  have htake : (headers ++ body).take lineEnd = headers.take lineEnd :=
    List.take_append_of_le_length (by omega)
  have hrequest : requestLine headers = headers.take lineEnd := by
    rw [requestLine, hline, Option.getD_some]
  rw [hrequest]
  split
  · rename_i hspace
    -- The blank line is not the request line, so it ends the headers.
    have hend : [] ∈ crlfLines [] (headers.drop (lineEnd + 2)) := by
      have hmem := nil_mem_crlfLines [] hblank
      rw [crlfLines_eq, hline] at hmem
      rcases List.mem_cons.mp hmem with hnil | hmem
      · rw [List.reverse_nil, List.nil_append] at hnil
        rw [← hnil] at hspace
        exact absurd hspace List.not_mem_nil
      · exact hmem
    have hlines : (crlfLines [] ((headers ++ body).drop (lineEnd + 2))).takeWhile (· ≠ []) =
        (crlfLines [] (headers.drop (lineEnd + 2))).takeWhile (· ≠ []) := by
      rw [List.drop_append_of_le_length (by omega)]
      obtain ⟨more, hmore⟩ := crlfLines_prefix [] (headers.drop (lineEnd + 2)) body
      rw [← hmore, List.takeWhile_append, if_neg]
      intro hall
      have hself := List.takeWhile_eq_self_iff.mp
        ((List.takeWhile_prefix _).eq_of_length hall) [] hend
      simp at hself
    obtain ⟨method, rest, hsplit, hmethod⟩ := List.eq_append_cons_of_mem hspace
    have hfirst : Scan.indexOf [0x20] (headers.take lineEnd) = some method.length := by
      rw [hsplit]
      exact Scan.indexOf_append_of_prefix hmethod ⟨rest, rfl⟩
    have hbody : (headers ++ body).drop (pos + 4) = body := by rw [← hlength, List.drop_left]
    simp only [requestOf, ReadState.parse, ReadState.ofRaw, hindex, hindex', hline, hline', htake,
      hfirst, hlines, hbody, Option.elim_some, Nat.succ_pos, if_true]
  · rename_i hspace
    simp only [requestOf, ReadState.parse, ReadState.ofRaw, hline', htake,
      Scan.indexOf_of_notMem hspace]

/-! ## Bodies -/

/-- The body that was announced. -/
def announcedBody (stream : Bytes) (pos n : Nat) : Bytes := (stream.drop (pos + 4)).take n

/-- Some `recv` ends with the announced body; without a space in the request line no body is
    parsed. -/
def BodyEnds (stream : Bytes) (pos n : Nat) (segs : List Segment) : Prop :=
  if 0x20 ∈ requestLine stream then EndsAt segs (pos + 4 + n) else n = 0

/-- The request is that of the header section, with the bytes that were read after it. -/
theorem readAndParse_framed (h : Framed stream pos n) (hcut : Cuts segs stream) :
    readAndParse segs = if 0x20 ∈ requestLine stream then
      { requestOf (stream.take (pos + 4)) with body := (received segs).drop (pos + 4) }
      else .blank := by
  have hheaders := Scan.indexOf_take h.blankLine (Nat.le_refl (pos + 4))
  have hcomplete := h.complete
  have hlength : (stream.take (pos + 4)).length = pos + 4 := by
    rw [List.length_take]
    omega
  obtain ⟨m, -, hlong, -⟩ := received_framed h hcut
  have hread : received segs = stream.take (pos + 4) ++ (received segs).drop (pos + 4) := by
    obtain ⟨t, ht⟩ := received_prefix_stream h hcut
    rw [← ht, List.take_append_of_le_length (by omega), List.take_append_drop]
  -- The request line ends in the header section, whatever follows it.
  have hline : requestLine stream = requestLine (stream.take (pos + 4)) := by
    have hcrlf : ∃ e, Scan.indexOf (lit "\r\n") (stream.take (pos + 4)) = some e := by
      have hlit : lit "\r\n\r\n" = lit "\r\n" ++ lit "\r\n" := by decide
      have hat := (Scan.indexOf_eq_some.mp hheaders).2.1
      rw [hlit] at hat
      obtain ⟨e, -, he⟩ := Scan.exists_indexOf_of_prefix ((List.prefix_append _ _).trans hat)
      exact ⟨e, he⟩
    obtain ⟨e, he⟩ := hcrlf
    have hle := (Scan.indexOf_eq_some.mp he).1
    have hall := Scan.indexOf_append (t := stream.drop (pos + 4)) he
    rw [List.take_append_drop] at hall
    rw [requestLine, requestLine, he, hall, Option.getD_some, List.take_take, Nat.min_eq_left]
    omega
  rw [readAndParse_eq, hread, requestOf_append hheaders hlength, ← hline, ← hread]

/-- **The body is the announced one** iff some `recv` ends with it. -/
theorem body_eq_iff (h : Framed stream pos n) (hcut : Cuts segs stream) :
    (readAndParse segs).body = announcedBody stream pos n ↔ BodyEnds stream pos n segs := by
  have hcomplete := h.complete
  have hannounced : (announcedBody stream pos n).length = n := by
    rw [announcedBody, List.length_take, List.length_drop]
    omega
  rw [readAndParse_framed h hcut, BodyEnds]
  split
  · rw [← length_received_iff h hcut]
    -- What was read is a prefix of the stream, and so its length decides.
    constructor
    · intro hbody
      have hlength := congrArg List.length hbody
      rw [hannounced, List.length_drop] at hlength
      obtain ⟨m, -, hlong, -⟩ := received_framed h hcut
      omega
    · intro hlength
      have hread := List.prefix_iff_eq_take.mp (received_prefix_stream h hcut)
      rw [hlength] at hread
      simp only
      rw [hread, List.drop_take, announcedBody, Nat.add_sub_cancel_left]
  · constructor
    · intro hbody
      rw [← hannounced, ← hbody]
      rfl
    · rintro rfl
      rfl

/-! ## All cuts -/

/-- A `recv` of one byte. -/
def single (b : UInt8) : Segment := ⟨[b], by simp, by simp⟩

theorem flatMap_single (bytes : Bytes) : (bytes.map single).flatMap Segment.bytes = bytes := by
  induction bytes with
  | nil => rfl
  | cons b bytes ih => rw [List.map_cons, List.flatMap_cons, ih, single, List.singleton_append]

/-- Where bytes follow, a stream can be cut so that no `recv` ends there. -/
theorem exists_cut_not_endsAt {k : Nat} (hk : 0 < k) (hlt : k < stream.length) :
    ∃ segs, Cuts segs stream ∧ ¬ EndsAt segs k := by
  obtain ⟨j, rfl⟩ : ∃ j, k = j + 1 := ⟨k - 1, by omega⟩
  obtain ⟨a, x, y, b, rfl, rfl⟩ : ∃ a x y b, stream = a ++ x :: y :: b ∧ a.length = j := by
    refine ⟨stream.take j, stream[j], stream[j + 1], stream.drop (j + 2), ?_, ?_⟩
    · rw [List.getElem_cons_drop, List.getElem_cons_drop, List.take_append_drop]
    · rw [List.length_take]
      omega
  refine ⟨a.map single ++ ⟨[x, y], by simp, by simp⟩ :: b.map single, ?_, ?_⟩
  · rw [Cuts, List.flatMap_append, List.flatMap_cons, flatMap_single, flatMap_single]
    rfl
  · rintro ⟨m, hm⟩
    rcases Nat.lt_or_ge a.length m with hlong | hshort
    · -- The bytes on both sides of the end have come together.
      have hle := length_take_le (a.map single ++ ⟨[x, y], by simp, by simp⟩ :: b.map single) hlong
      have hboth : ((a.map single ++ ⟨[x, y], by simp, by simp⟩ :: b.map single).take
          (a.length + 1)).flatMap Segment.bytes = a ++ [x, y] := by
        have htake : (a.map single ++ ⟨[x, y], by simp, by simp⟩ :: b.map single).take (a.length + 1) =
            a.map single ++ [⟨[x, y], by simp, by simp⟩] := by
          rw [← List.length_map single, List.take_length_add_append]
          rfl
        rw [htake, List.flatMap_append, flatMap_single, List.flatMap_singleton]
      rw [hboth, hm, List.length_append] at hle
      simp only [List.length_cons, List.length_nil] at hle
      omega
    · rw [List.take_append_of_le_length (by rwa [List.length_map]), ← List.map_take, flatMap_single,
        List.length_take] at hm
      omega

/-- **Bodies are framed by their length** iff nothing follows them. For each cut of a stream,
    the body is the announced one iff some `recv` ends with it, and all such cuts give the same
    request; and all cuts do so iff the stream ends there. A request line without a space
    leaves the request empty, and then there is to be no body. -/
theorem framed_by_length_iff (h : Framed stream pos n) :
    (∀ segs, Cuts segs stream →
      ((readAndParse segs).body = announcedBody stream pos n ↔ BodyEnds stream pos n segs)) ∧
    (∀ segs segs', Cuts segs stream → Cuts segs' stream → BodyEnds stream pos n segs →
      BodyEnds stream pos n segs' → readAndParse segs = readAndParse segs') ∧
    ((∀ segs segs', Cuts segs stream → Cuts segs' stream → readAndParse segs = readAndParse segs' ∧
      (readAndParse segs).body = announcedBody stream pos n) ↔
        if 0x20 ∈ requestLine stream then stream.length = pos + 4 + n else n = 0) := by
  have hbody : ∀ segs, Cuts segs stream →
      ((readAndParse segs).body = announcedBody stream pos n ↔ BodyEnds stream pos n segs) :=
    fun _ hcut => body_eq_iff h hcut
  have hsame : ∀ segs segs', Cuts segs stream → Cuts segs' stream → BodyEnds stream pos n segs →
      BodyEnds stream pos n segs' → readAndParse segs = readAndParse segs' := by
    intro segs segs' hcut hcut' hends hends'
    have hbodies := ((hbody segs hcut).mpr hends).trans ((hbody segs' hcut').mpr hends').symm
    rw [readAndParse_framed h hcut, readAndParse_framed h hcut'] at hbodies ⊢
    split
    · rename_i hspace
      rw [if_pos hspace, if_pos hspace] at hbodies
      simp only at hbodies
      rw [hbodies]
    · rfl
  refine ⟨hbody, hsame, ?_⟩
  have hcomplete := h.complete
  constructor
  · intro hall
    split
    · -- If more followed, some cut would not stop at the end of the body.
      rename_i hspace
      by_contra hmore
      obtain ⟨segs, hcut, hnot⟩ := exists_cut_not_endsAt (k := pos + 4 + n) (by omega)
        (Nat.lt_of_le_of_ne hcomplete (Ne.symm hmore))
      have hends := (hbody segs hcut).mp (hall segs segs hcut hcut).2
      rw [BodyEnds, if_pos hspace] at hends
      exact hnot hends
    · rename_i hspace
      have hcut : Cuts (stream.map single) stream := flatMap_single stream
      have hends := (hbody _ hcut).mp (hall _ _ hcut hcut).2
      rwa [BodyEnds, if_neg hspace] at hends
  · -- The last `recv` ends where the stream does.
    intro hcond segs segs' hcut hcut'
    have hends : ∀ segs, Cuts segs stream → BodyEnds stream pos n segs := by
      intro segs hcut
      rw [BodyEnds]
      split at hcond
      · rename_i hspace
        rw [if_pos hspace]
        exact ⟨segs.length, by rw [List.take_length, hcut, hcond]⟩
      · rename_i hspace
        rwa [if_neg hspace]
    exact ⟨hsame segs segs' hcut hcut' (hends segs hcut) (hends segs' hcut'),
      (hbody segs hcut).mpr (hends segs hcut)⟩

/-! ## A stream to look at -/

/-- The field stands after some CRLF, and its value is what the next CRLF ends. -/
theorem LengthField.exists_at {headers value : Bytes} (h : LengthField headers value) :
    ∃ k < headers.length, lit "\r\ncontent-length:" <+: (toLower headers).drop k ∧
      Scan.indexOf (lit "\r\n") (headers.drop (k + 17)) = some value.length ∧
      (headers.drop (k + 17)).take value.length = value := by
  obtain ⟨before, name, rest, rfl, hname, hvalue⟩ := h
  have hcrlf : lit "\r\n" = [0x0D, 0x0A] := by decide
  have hlength : name.length = 14 := by
    rw [← List.length_map, ← toLower, hname]
    decide
  -- The CRLF, the name and the colon are seventeen bytes.
  have hat : (before ++ (lit "\r\n" ++ (name ++ 0x3A :: (value ++ (lit "\r\n" ++ rest))))).drop
      (before.length + 17) = value ++ (lit "\r\n" ++ rest) := by
    have hsum : before.length + 17 = before.length + ((lit "\r\n").length + (name.length + 1)) := by
      rw [hlength, hcrlf]
      rfl
    rw [hsum, ← List.drop_drop, ← List.drop_drop, ← List.drop_drop, List.drop_left, List.drop_left,
      List.drop_left, List.drop_one, List.tail_cons]
  refine ⟨before.length, ?_, ?_, ?_, ?_⟩
  · rw [List.length_append, List.length_append, hcrlf]
    simp only [List.length_cons]
    omega
  · have hpat : lit "\r\ncontent-length:" = toLower (lit "\r\n") ++ (toLower name ++ toLower [0x3A]) := by
      rw [hname]
      decide
    rw [toLower, ← List.map_drop, List.drop_left, hpat]
    refine ⟨toLower (value ++ (lit "\r\n" ++ rest)), ?_⟩
    simp only [toLower, ← List.map_append, List.append_assoc, List.singleton_append]
  · rw [hat]
    exact indexOf_line hvalue rest
  · rw [hat, List.take_left]

namespace Sample

/-- A header section that announces two bytes. -/
def twoBytes : Bytes := lit "POST / HTTP/1.1\r\nContent-length: 2\r\n\r\n"

/-- The announced bytes, with others after them. -/
def twoBytesThen (more : String) : Bytes := twoBytes ++ (lit "ab" ++ lit more)

theorem length_twoBytes : twoBytes.length = 38 := by decide

theorem framed_twoBytes {more : String} (hmore : (lit more).length ≤ 100) :
    Framed (twoBytesThen more) 34 2 := by
  have hheaders : (twoBytesThen more).take (34 + 4) = twoBytes := List.take_left' length_twoBytes
  have hlength : (twoBytesThen more).length = 40 + (lit more).length := by
    have htwo : (lit "ab").length = 2 := by decide
    rw [twoBytesThen, List.length_append, List.length_append, length_twoBytes]
    omega
  refine ⟨Scan.indexOf_append (by decide +kernel), ?_, ?_, ?_, ?_⟩
  · rw [hheaders]
    exact ⟨lit " 2", lit "POST / HTTP/1.1", lit "Content-length", lit "\r\n", by decide, by decide,
      by decide⟩
  · rw [hheaders]
    intro value hvalue
    -- The field name is found at one place only.
    obtain ⟨k, hk, hat, hend, htake⟩ := hvalue.exists_at
    have honly : ∀ k < 38, lit "\r\ncontent-length:" <+: (toLower twoBytes).drop k → k = 15 := by
      decide +kernel
    obtain rfl := honly k (length_twoBytes ▸ hk) hat
    have hindex : Scan.indexOf (lit "\r\n") (twoBytes.drop (15 + 17)) = some 2 := by decide
    have htwo : value.length = 2 := (Option.some.inj (hindex.symm.trans hend)).symm
    rw [htwo] at htake
    rw [← htake]
    exact ⟨lit " ", lit "2", [], by decide, by decide +kernel, by decide, by decide +kernel, by decide⟩
  · omega
  · rw [maxRequestBytes]
    omega

theorem twoBytes_fits : twoBytes ≠ [] ∧ twoBytes.length ≤ 8192 := by decide

theorem ab_fits : lit "ab" ≠ [] ∧ (lit "ab").length ≤ 8192 := by decide

theorem more_fits {more : String} (hmore : (lit more).length ≤ 100) :
    (lit more).length ≤ 8192 ∧ lit "ab" ++ lit more ≠ [] ∧ (lit "ab" ++ lit more).length ≤ 8192 := by
  have htwo : (lit "ab").length = 2 := by decide
  refine ⟨by omega, List.append_ne_nil_of_left_ne_nil ab_fits.1 _, ?_⟩
  rw [List.length_append]
  omega

/-- The headers, and then the bytes after them. -/
def inTwo (more : String) (hmore : (lit more).length ≤ 100) : List Segment :=
  [⟨twoBytes, twoBytes_fits.1, twoBytes_fits.2⟩,
    ⟨lit "ab" ++ lit more, (more_fits hmore).2.1, (more_fits hmore).2.2⟩]

/-- The bytes that were announced come in a `recv` of their own. -/
def inThree (more : String) (hmore : (lit more).length ≤ 100) (hne : lit more ≠ []) : List Segment :=
  [⟨twoBytes, twoBytes_fits.1, twoBytes_fits.2⟩, ⟨lit "ab", ab_fits.1, ab_fits.2⟩,
    ⟨lit more, hne, (more_fits hmore).1⟩]

end Sample

open Sample in
theorem exact_stream_is_framed :
    readAndParse (inTwo "" (by decide)) = readAndParse ((twoBytesThen "").map single) ∧
      (readAndParse (inTwo "" (by decide))).body = announcedBody (twoBytesThen "") 34 2 :=
  (framed_by_length_iff (framed_twoBytes (by decide))).2.2.mpr (by decide) _ _ (by decide)
    (flatMap_single _)

open Sample in
/-- Two more bytes follow: one cut has them in the body, and the other one has not. -/
theorem following_bytes_are_body :
    Cuts (inTwo "cd" (by decide)) (twoBytesThen "cd") ∧
      Cuts (inThree "cd" (by decide) (by decide)) (twoBytesThen "cd") ∧
      (readAndParse (inTwo "cd" (by decide))).body = lit "abcd" ∧
      (readAndParse (inThree "cd" (by decide) (by decide))).body = lit "ab" := by
  refine ⟨by decide, by decide, by decide +kernel, by decide +kernel⟩

end Frag
