import Frag.Backend.Server

/-!
# Reading Requests

The read loop keeps no more of a connection than the bytes it has read; how they were cut into
results of `recv` makes no difference, except for where the loop stops. It stops at its cap, or
with the blank line and as many bytes after it as it awaits, and otherwise when nothing more
arrives.

## Main results

- `readAndParse_eq`: a request depends on the bytes read, not on how they were segmented;
- `received_of_readsFirst`: which bytes are read.
-/

namespace Frag

/-! ## Lines -/

/-- A line ends with the first CRLF. -/
theorem indexOf_line {l : Bytes} (hl : ¬ lit "\r\n" <:+: l) (s : Bytes) :
    Scan.indexOf (lit "\r\n") (l ++ (lit "\r\n" ++ s)) = some l.length := by
  have hlit : lit "\r\n" = [0x0D, 0x0A] := by decide
  induction l with
  | nil => exact Scan.indexOf_of_prefix (List.prefix_append _ s)
  | cons c l ih =>
    have hrest := ih fun hin => hl (hin.trans (List.suffix_cons c l).isInfix)
    cases l with
    | nil =>
      have hreturn : ¬ (c = 0x0D ∧ (0x0D : UInt8) = 0x0A) := fun h => absurd h.2 (by decide)
      rw [hlit] at hrest ⊢
      simp only [List.cons_append, List.nil_append] at hrest ⊢
      rw [← hlit, indexOf_crlf, if_neg hreturn, hlit, hrest]
      rfl
    | cons d l =>
      -- A CRLF at the front would stand in the line.
      have hfront : ¬ (c = 0x0D ∧ d = 0x0A) := by
        rintro ⟨rfl, rfl⟩
        exact hl ⟨[], l, hlit ▸ rfl⟩
      rw [List.cons_append, List.cons_append, indexOf_crlf, if_neg hfront, ← List.cons_append, hrest]
      rfl

/-! ## What was read -/

namespace ReadState

/-- The variables of the read loop, as the bytes read so far determine them. -/
def ofRaw (raw : Bytes) : ReadState where
  raw := raw
  headersDone := (Scan.indexOf (lit "\r\n\r\n") raw).isSome
  contentLength := (Scan.indexOf (lit "\r\n\r\n") raw).elim 0 fun pos =>
    contentLengthOf (raw.take (pos + 4))
  headersEnd := (Scan.indexOf (lit "\r\n\r\n") raw).elim 0 (· + 4)

theorem headers_le {raw : Bytes} {pos : Nat} (h : Scan.indexOf (lit "\r\n\r\n") raw = some pos) :
    pos + 4 ≤ raw.length := by
  obtain ⟨hle, hat, -⟩ := Scan.indexOf_eq_some.mp h
  have hlen := hat.length_le
  rw [List.length_drop] at hlen
  have hblank : (lit "\r\n\r\n").length = 4 := by decide
  omega

theorem receive_ofRaw (raw bytes : Bytes) : (ofRaw raw).receive bytes = ofRaw (raw ++ bytes) := by
  cases hold : Scan.indexOf (lit "\r\n\r\n") raw with
  | none =>
    cases hnew : Scan.indexOf (lit "\r\n\r\n") (raw ++ bytes) with
    | none => simp [receive, ofRaw, hold, hnew]
    | some pos => simp [receive, ofRaw, hold, hnew]
  | some pos =>
    -- The headers were complete, and later bytes do not change them.
    have hnew := Scan.indexOf_append (t := bytes) hold
    simp [receive, ofRaw, hold, hnew, List.take_append_of_le_length (headers_le hold)]

/-- The read loop knows no more than the bytes it has read. -/
theorem loop_ofRaw (raw : Bytes) (segs : List Segment) :
    (ofRaw raw).loop segs = ofRaw ((ofRaw raw).loop segs).raw := by
  induction segs generalizing raw with
  | nil => rfl
  | cons seg segs ih =>
    rw [loop]
    split
    · rw [receive_ofRaw]
      simp only
      split
      · rfl
      · exact ih _
    · rfl

end ReadState

/-- The bytes that the server has read when it stops reading. -/
def received (segs : List Segment) : Bytes := (ReadState.start.loop segs).raw

/-- The request that some bytes make. -/
def requestOf (bytes : Bytes) : HttpRequest := (ReadState.ofRaw bytes).parse

/-- A request depends on the bytes read, not on how they were segmented. -/
theorem readAndParse_eq (segs : List Segment) : readAndParse segs = requestOf (received segs) :=
  congrArg ReadState.parse (ReadState.loop_ofRaw [] segs)

/-! ## Where the loop stops -/

/-- How long a request is for the read loop, as its first bytes tell: headers and body. -/
def awaited (bytes : Bytes) : Option Nat :=
  (Scan.indexOf (lit "\r\n\r\n") bytes).map fun pos =>
    pos + 4 + contentLengthOf (bytes.take (pos + 4))

theorem awaited_append {bytes more : Bytes} {n : Nat} (h : awaited bytes = some n) :
    awaited (bytes ++ more) = some n := by
  obtain ⟨pos, hpos, rfl⟩ := Option.map_eq_some_iff.mp h
  rw [awaited, Scan.indexOf_append hpos, Option.map_some,
    List.take_append_of_le_length (ReadState.headers_le hpos)]

/-- Nothing is read after these bytes: they reach the cap, or everything awaited has arrived.
    The sum of the lengths is one of 64 bits. -/
def Stops (bytes : Bytes) : Prop :=
  maxRequestBytes ≤ bytes.length ∨ ∃ n, awaited bytes = some n ∧ n % 18446744073709551616 ≤ bytes.length

/-- The bytes of the first results of `recv`. -/
def arrived (segs : List Segment) (m : Nat) : Bytes := (segs.take m).flatMap Segment.bytes

/-- The server reads so many results of `recv`: after none of them before it could stop, and
    with the last one it stops, or nothing more arrives. -/
structure ReadsFirst (segs : List Segment) (m : Nat) : Prop where
  within : m ≤ segs.length
  before : ∀ k < m, ¬ Stops (arrived segs k)
  last : m = segs.length ∨ Stops (arrived segs m)

theorem arrived_cons (seg : Segment) (segs : List Segment) (m : Nat) :
    arrived (seg :: segs) (m + 1) = seg.bytes ++ arrived segs m := by
  rw [arrived, List.take_succ_cons, List.flatMap_cons, arrived]

theorem ReadState.complete_ofRaw (raw : Bytes) : (ofRaw raw).complete = true ↔
    ∃ n, awaited raw = some n ∧ n % 18446744073709551616 ≤ raw.length := by
  cases hindex : Scan.indexOf (lit "\r\n\r\n") raw with
  | none => simp [complete, ofRaw, awaited, hindex]
  | some pos => simp [complete, ofRaw, awaited, hindex]

/-- Only one number of results is read. -/
theorem ReadsFirst.unique {segs : List Segment} {m n : Nat} (hm : ReadsFirst segs m)
    (hn : ReadsFirst segs n) : m = n := by
  rcases Nat.lt_trichotomy m n with hlt | heq | hlt
  · rcases hm.last with hall | hstop
    · have hle := hn.within
      omega
    · exact absurd hstop (hn.before m hlt)
  · exact heq
  · rcases hn.last with hall | hstop
    · have hle := hm.within
      omega
    · exact absurd hstop (hm.before n hlt)

/-- The loop stops where it is said to. -/
theorem exists_readsFirst (segs : List Segment) :
    ∃ m, ReadsFirst segs m ∧ received segs = arrived segs m := by
  -- The induction over the segments needs the bytes read before them.
  suffices hloop : ∀ raw, (ReadState.ofRaw raw).complete = false → ∃ m ≤ segs.length,
      (∀ k < m, ¬ Stops (raw ++ arrived segs k)) ∧
      (m = segs.length ∨ Stops (raw ++ arrived segs m)) ∧
      ((ReadState.ofRaw raw).loop segs).raw = raw ++ arrived segs m by
    obtain ⟨m, hle, hbefore, hlast, hraw⟩ := hloop [] rfl
    exact ⟨m, ⟨hle, hbefore, hlast⟩, hraw⟩
  induction segs with
  | nil =>
    intro raw _
    exact ⟨0, Nat.le_refl 0, nofun, .inl rfl, (List.append_nil raw).symm⟩
  | cons seg segs ih =>
    intro raw hraw
    have hzero : raw ++ arrived (seg :: segs) 0 = raw := List.append_nil raw
    rw [ReadState.loop]
    by_cases hcap : (ReadState.ofRaw raw).raw.length < maxRequestBytes
    · rw [if_pos hcap, ReadState.receive_ofRaw]
      have hgoes : ¬ Stops raw := by
        rintro (hfull | hall)
        · exact absurd hcap (Nat.not_lt.mpr hfull)
        · rw [← ReadState.complete_ofRaw, hraw] at hall
          cases hall
      simp only
      by_cases hcomplete : (ReadState.ofRaw (raw ++ seg.bytes)).complete = true
      · rw [if_pos hcomplete]
        have hone : arrived (seg :: segs) 1 = seg.bytes := by
          rw [arrived_cons, arrived, List.take_zero, List.flatMap_nil, List.append_nil]
        refine ⟨1, Nat.succ_le_succ (Nat.zero_le _), ?_, .inr ?_, ?_⟩
        · intro k hk
          obtain rfl : k = 0 := Nat.lt_one_iff.mp hk
          rw [hzero]
          exact hgoes
        · rw [hone]
          exact .inr ((ReadState.complete_ofRaw _).mp hcomplete)
        · rw [hone]
          rfl
      · rw [if_neg hcomplete]
        obtain ⟨m, hle, hbefore, hlast, heq⟩ := ih (raw ++ seg.bytes) (Bool.not_eq_true _ ▸ hcomplete)
        have hstep : ∀ k, raw ++ arrived (seg :: segs) (k + 1) = raw ++ seg.bytes ++ arrived segs k := by
          intro k
          rw [arrived_cons, List.append_assoc]
        refine ⟨m + 1, Nat.succ_le_succ hle, ?_, ?_, ?_⟩
        · intro k hk
          cases k with
          | zero =>
            rw [hzero]
            exact hgoes
          | succ k =>
            rw [hstep]
            exact hbefore k (Nat.lt_of_succ_lt_succ hk)
        · rw [hstep]
          exact hlast.imp (congrArg (· + 1)) id
        · rw [hstep]
          exact heq
    · rw [if_neg hcap]
      exact ⟨0, Nat.zero_le _, nofun, .inr (.inl (hzero.symm ▸ Nat.not_lt.mp hcap)), hzero.symm⟩

/-- **Which bytes are read**: those of the results of `recv` up to the one with which the server
    stops. -/
theorem received_of_readsFirst {segs : List Segment} {m : Nat} (h : ReadsFirst segs m) :
    received segs = arrived segs m := by
  obtain ⟨n, hn, heq⟩ := exists_readsFirst segs
  rw [heq, hn.unique h]

end Frag
