import Mathlib.Data.List.Infix
import Mathlib.Data.List.TakeWhile

/-!
# Searching in Lists

Substring search as strings offer it: `indexOf` and `find` give the position of the
first occurrence of a pattern, `after` what follows it, and `upTo` what precedes a symbol.

Names in quotes are the patterns that matter most. The quotes of a text cut it into
segments, and a quoted name occurs where a segment between two quotes is the name; so
a search for it can be followed segment by segment.

## Main results

- `indexOf_append`: later text does not change where a pattern occurs first;
- `after_quoted`, `after_quoted_skip`: a quoted name is found at the first segment
  that is the name;
- `after_quoted_guarded`: searching past a value in quotes.
-/

namespace Scan

universe u

variable {α : Type u} [DecidableEq α]

/-! ## First occurrences -/

/-- The position of the first occurrence of `pat`. -/
def indexOf (pat : List α) : List α → Option Nat
  | [] => if pat = [] then some 0 else none
  | x :: s => if pat <+: x :: s then some 0 else (indexOf pat s).map (· + 1)

/-- The position of the first occurrence of `pat` that begins at `start` or later. -/
def find (s pat : List α) (start : Nat) : Option Nat :=
  (indexOf pat (s.drop start)).map (· + start)

/-- What follows the first occurrence of `pat`. -/
def after (pat s : List α) : Option (List α) :=
  (indexOf pat s).map fun i => s.drop (i + pat.length)

theorem indexOf_eq_some {pat s : List α} {i : Nat} :
    indexOf pat s = some i ↔ i ≤ s.length ∧ pat <+: s.drop i ∧ ∀ j < i, ¬ pat <+: s.drop j := by
  induction s generalizing i with
  | nil =>
    by_cases hpat : pat = []
    · simp only [indexOf, hpat, if_true, Option.some.injEq, List.length_nil, Nat.le_zero,
        List.nil_prefix, not_true, true_and]
      constructor
      · rintro rfl
        exact ⟨rfl, fun j hj => Nat.not_lt_zero j hj⟩
      · rintro ⟨rfl, -⟩
        rfl
    · simp [indexOf, hpat]
  | cons x s ih =>
    -- The first occurrence is at the head, or one position after that in the tail.
    by_cases hpre : pat <+: x :: s
    · rw [indexOf, if_pos hpre]
      constructor
      · rintro ⟨⟩
        exact ⟨Nat.zero_le _, hpre, fun j hj => absurd hj (Nat.not_lt_zero j)⟩
      · rintro ⟨-, -, hfirst⟩
        cases i with
        | zero => rfl
        | succ i => exact absurd hpre (hfirst 0 (Nat.succ_pos i))
    · rw [indexOf, if_neg hpre, Option.map_eq_some_iff]
      constructor
      · rintro ⟨k, hk, rfl⟩
        obtain ⟨hle, hat, hfirst⟩ := ih.mp hk
        refine ⟨Nat.succ_le_succ hle, hat, fun j hj => ?_⟩
        cases j with
        | zero => exact hpre
        | succ j => exact hfirst j (Nat.lt_of_succ_lt_succ hj)
      · rintro ⟨hle, hat, hfirst⟩
        cases i with
        | zero => exact absurd hat hpre
        | succ i =>
          exact ⟨i, ih.mpr ⟨Nat.le_of_succ_le_succ hle, hat, fun j hj =>
            hfirst (j + 1) (Nat.succ_lt_succ hj)⟩, rfl⟩

/-- What follows later does not change where a pattern occurs first. -/
theorem indexOf_append {pat s t : List α} {i : Nat} (h : indexOf pat s = some i) :
    indexOf pat (s ++ t) = some i := by
  obtain ⟨hle, hat, hfirst⟩ := indexOf_eq_some.mp h
  refine indexOf_eq_some.mpr ⟨?_, ?_, fun j hj hpre => hfirst j hj ?_⟩
  · rw [List.length_append]
    exact Nat.le_add_right_of_le hle
  · rw [List.drop_append_of_le_length hle]
    exact hat.trans (List.prefix_append _ t)
  · -- An earlier occurrence would end before the one at `i` does, so within `s`.
    rw [List.drop_append_of_le_length (Nat.le_of_lt (Nat.lt_of_lt_of_le hj hle))] at hpre
    refine List.prefix_of_prefix_length_le hpre (List.prefix_append _ t) ?_
    have hlen := hat.length_le
    rw [List.length_drop] at hlen ⊢
    omega

/-- Neither does what is cut off later. -/
theorem indexOf_take {pat s : List α} {i k : Nat} (h : indexOf pat s = some i)
    (hk : i + pat.length ≤ k) : indexOf pat (s.take k) = some i := by
  obtain ⟨hle, hat, hfirst⟩ := indexOf_eq_some.mp h
  refine indexOf_eq_some.mpr ⟨?_, ?_, fun j hj hpre => hfirst j hj ?_⟩
  · rw [List.length_take]
    omega
  · rw [List.drop_take]
    refine List.prefix_of_prefix_length_le hat (List.take_prefix _ _) ?_
    have hlength := hat.length_le
    rw [List.length_take]
    omega
  · rw [List.drop_take] at hpre
    exact hpre.trans (List.take_prefix _ _)

/-- A pattern that occurs somewhere has a first occurrence, there or before. -/
theorem exists_indexOf_of_prefix {pat s : List α} {k : Nat} (h : pat <+: s.drop k) :
    ∃ i ≤ k, indexOf pat s = some i := by
  induction k generalizing s with
  | zero => exact ⟨0, Nat.le_refl 0, indexOf_eq_some.mpr ⟨Nat.zero_le _, h, nofun⟩⟩
  | succ k ih =>
    cases s with
    | nil =>
      have hnil : pat = [] := List.prefix_nil.mp h
      exact ⟨0, Nat.zero_le _, if_pos hnil⟩
    | cons x s =>
      by_cases hpre : pat <+: x :: s
      · exact ⟨0, Nat.zero_le _, if_pos hpre⟩
      · obtain ⟨i, hle, hi⟩ := ih h
        refine ⟨i + 1, Nat.succ_le_succ hle, ?_⟩
        rw [indexOf, if_neg hpre, hi, Option.map_some]

/-- A pattern is not found if it does not occur. -/
theorem indexOf_eq_none {pat s : List α} : indexOf pat s = none ↔ ¬ pat <:+: s := by
  constructor
  · rintro hnone ⟨a, b, rfl⟩
    have hat : pat <+: (a ++ pat ++ b).drop a.length := by
      rw [List.append_assoc, List.drop_left]
      exact List.prefix_append pat b
    obtain ⟨i, -, hi⟩ := exists_indexOf_of_prefix hat
    rw [hnone] at hi
    cases hi
  · intro hnot
    cases hfound : indexOf pat s with
    | none => rfl
    | some i =>
      obtain ⟨-, hat, -⟩ := indexOf_eq_some.mp hfound
      exact absurd (hat.isInfix.trans (List.drop_suffix i s).isInfix) hnot

/-- A map that neither adds nor removes occurrences. -/
theorem indexOf_map {pat : List α} {f : α → α} (h : ∀ s, pat <+: s.map f ↔ pat <+: s) (s : List α) :
    indexOf pat (s.map f) = indexOf pat s := by
  induction s with
  | nil => rfl
  | cons x s ih =>
    have hhead := h (x :: s)
    rw [List.map_cons] at hhead ⊢
    simp only [indexOf, hhead, ih]

/-! ## One symbol -/

section Symbol

variable {c : α} {s : List α} {start i : Nat}

/-- What stands before the first `c`, if there is one. -/
def upTo (c : α) (s : List α) : Option (List α) :=
  if c ∈ s then some (s.takeWhile (· ≠ c)) else none

/-- A symbol is found where what precedes it ends. -/
theorem indexOf_singleton (c : α) (s : List α) : indexOf [c] s = (upTo c s).map List.length := by
  induction s with
  | nil => rfl
  | cons x s ih =>
    by_cases hx : x = c
    · subst hx
      have hpre : [x] <+: x :: s := ⟨s, rfl⟩
      rw [indexOf, if_pos hpre, upTo, if_pos List.mem_cons_self, List.takeWhile_cons_of_neg (by simp)]
      rfl
    · have hpre : ¬ [c] <+: x :: s := by
        rintro ⟨t, ht⟩
        exact hx (List.cons.inj ht).1.symm
      have hmem : c ∈ x :: s ↔ c ∈ s := by simp [Ne.symm hx]
      rw [indexOf, if_neg hpre, ih, upTo, upTo, List.takeWhile_cons_of_pos (by simpa using hx)]
      simp only [hmem]
      split
      · rfl
      · rfl

theorem take_length_upTo {before : List α} (h : upTo c s = some before) :
    s.take before.length = before := by
  unfold upTo at h
  split at h
  · obtain rfl := Option.some.inj h
    exact (List.prefix_iff_eq_take.mp (List.takeWhile_prefix _)).symm
  · cases h

/-- What stands between a position and the next `c`. -/
theorem take_find (s : List α) (c : α) (start : Nat) :
    (find s [c] start).map (fun i => (s.drop start).take (i - start)) = upTo c (s.drop start) := by
  rw [find, indexOf_singleton, Option.map_map, Option.map_map]
  cases hbefore : upTo c (s.drop start) with
  | none => rfl
  | some before =>
    simp only [Option.map_some, Function.comp_apply, Nat.add_sub_cancel]
    rw [take_length_upTo hbefore]

/-- A symbol that is found is there. -/
theorem drop_of_find (h : find s [c] start = some i) : s.drop i = c :: s.drop (i + 1) := by
  obtain ⟨j, hj, rfl⟩ := Option.map_eq_some_iff.mp h
  obtain ⟨-, ⟨t, ht⟩, -⟩ := indexOf_eq_some.mp hj
  rw [List.drop_drop, Nat.add_comm start j] at ht
  have hnext := congrArg (List.drop 1) ht
  rw [List.drop_drop] at hnext
  rw [← ht, ← hnext]
  rfl

/-- A text with a `c` in it is cut there. -/
theorem takeWhile_append_of_mem {a : List α} (h : c ∈ a) (t : List α) :
    (a ++ t).takeWhile (· ≠ c) = a.takeWhile (· ≠ c) := by
  rw [List.takeWhile_append, if_neg]
  intro hlength
  rw [← (List.takeWhile_prefix _).eq_of_length hlength] at h
  exact absurd (List.mem_takeWhile_imp h) (by simp)

theorem takeWhile_append_of_notMem {a : List α} (h : c ∉ a) (t : List α) :
    (a ++ t).takeWhile (· ≠ c) = a ++ t.takeWhile (· ≠ c) := by
  refine List.takeWhile_append_of_pos fun x hx => ?_
  rw [decide_eq_true_eq]
  rintro rfl
  exact h hx

end Symbol

/-! ## Skipping -/

section Skip

variable {p : α} {pat s t : List α}

@[simp] theorem after_nil : after (p :: pat) ([] : List α) = none := rfl

theorem indexOf_of_prefix (h : pat <+: s) : indexOf pat s = some 0 :=
  indexOf_eq_some.mpr ⟨Nat.zero_le _, h, fun j hj => absurd hj (Nat.not_lt_zero j)⟩

theorem after_of_prefix (h : pat <+: s) : after pat s = some (s.drop pat.length) := by
  rw [after, indexOf_of_prefix h, Option.map_some, Nat.zero_add]

/-- A part without the first element of the pattern moves its first occurrence. -/
theorem indexOf_append_of_notMem {a : List α} (h : p ∉ a) :
    indexOf (p :: pat) (a ++ s) = (indexOf (p :: pat) s).map (· + a.length) := by
  induction a with
  | nil => exact Option.map_id'.symm
  | cons x a ih =>
    rw [List.mem_cons, not_or] at h
    have hnot : ¬ p :: pat <+: x :: (a ++ s) := by
      rintro ⟨u, hu⟩
      exact h.1 (List.cons.inj hu).1
    rw [List.cons_append, indexOf, if_neg hnot, ih h.2, Option.map_map]
    rfl

/-- A pattern that follows such a part is found right after it. -/
theorem indexOf_append_of_prefix {a : List α} (h : p ∉ a) (hpre : p :: pat <+: s) :
    indexOf (p :: pat) (a ++ s) = some a.length := by
  rw [indexOf_append_of_notMem h, indexOf_of_prefix hpre, Option.map_some, Nat.zero_add]

theorem indexOf_of_notMem (h : p ∉ s) : indexOf (p :: pat) s = none := by
  have hnone : indexOf (p :: pat) (s ++ []) = none := indexOf_append_of_notMem h
  rwa [List.append_nil] at hnone

theorem after_cons_skip {x : α} (h : ¬ pat <+: x :: s) :
    after pat (x :: s) = after pat s := by
  rw [after, indexOf, if_neg h, after, Option.map_map]
  refine congrArg (Option.map · (indexOf pat s)) (funext fun i => ?_)
  rw [Function.comp_apply, Nat.add_right_comm, List.drop_succ_cons]

/-- A part without the first element of the pattern is skipped. -/
theorem after_append_of_notMem {a : List α} (h : p ∉ a) :
    after (p :: pat) (a ++ s) = after (p :: pat) s := by
  induction a with
  | nil => rfl
  | cons x a ih =>
    rw [List.mem_cons, not_or] at h
    rw [List.cons_append, after_cons_skip, ih h.2]
    rintro ⟨u, hu⟩
    exact h.1 (List.cons.inj hu).1

/-- The first occurrence of an element. -/
theorem after_singleton {a : List α} (h : p ∉ a) : after [p] (a ++ p :: t) = some t := by
  have hpre : [p] <+: p :: t := ⟨t, rfl⟩
  rw [after_append_of_notMem h, after_of_prefix hpre]
  rfl

end Skip

/-! ## Names in quotes -/

section Quoted

variable {q : α} {name seg t : List α}

/-- Segments that end at their first quote are equal when the texts are. -/
theorem segment_inj {u : List α} (hseg : q ∉ seg) (hname : q ∉ name)
    (h : seg ++ q :: t = name ++ q :: u) : seg = name ∧ t = u := by
  -- Either length is the position of the first quote.
  have hlen : seg.length = name.length := by
    have hidx := congrArg (List.idxOf q) h
    rwa [List.idxOf_append_of_notMem hseg, List.idxOf_append_of_notMem hname,
      List.idxOf_cons_self, List.idxOf_cons_self, Nat.add_zero, Nat.add_zero] at hidx
  obtain ⟨hsegs, htails⟩ := List.append_inj h hlen
  exact ⟨hsegs, (List.cons.inj htails).2⟩

/-- The name between two quotes. -/
def quoted (q : α) (name : List α) : List α := q :: (name ++ [q])

/-- The segment at a quote is the name. -/
theorem after_quoted : after (quoted q name) (q :: (name ++ q :: t)) = some t := by
  have hsplit : q :: (name ++ q :: t) = quoted q name ++ t := by simp [quoted]
  rw [hsplit, after_of_prefix (List.prefix_append _ t), List.drop_left]

/-- The segment at a quote is not the name: the search goes on at its closing quote. -/
theorem after_quoted_skip (hname : q ∉ name) (hseg : q ∉ seg) (hne : seg ≠ name) :
    after (quoted q name) (q :: (seg ++ q :: t)) = after (quoted q name) (q :: t) := by
  rw [after_cons_skip, quoted, after_append_of_notMem hseg]
  -- A pattern at this quote would make the segment the name.
  rintro ⟨u, hu⟩
  have hinner : name ++ q :: u = seg ++ q :: t := by
    simpa [quoted] using hu
  exact hne (segment_inj hseg hname hinner.symm).1

/-- Text before the first quote is skipped. -/
theorem after_quoted_start (hseg : q ∉ seg) :
    after (quoted q name) (seg ++ t) = after (quoted q name) t :=
  after_append_of_notMem hseg

end Quoted

/-! ## Guarded texts

A value between quotes has an escape before each of its own quotes, so its segments end
with the escape, except the last one. Only that one can be taken for a name. -/

section Guarded

variable {q e : α} {name t : List α}

/-- Every `q` in the text has an `e` right before it. -/
def Guarded (q e : α) (s : List α) : Prop := ∀ seg u, s = seg ++ q :: u → seg.getLast? = some e

omit [DecidableEq α] in
/-- What follows a quote is guarded, too. -/
theorem Guarded.of_append {seg s : List α} (hqe : q ≠ e) (h : Guarded q e (seg ++ q :: s)) :
    Guarded q e s := by
  intro seg' u hu
  have hlast := h (seg ++ q :: seg') u (by rw [hu, List.append_assoc, List.cons_append])
  rw [List.getLast?_append_cons, List.getLast?_cons] at hlast
  cases hseg : seg'.getLast? with
  | none =>
    -- A quote right after the quote would have the quote before it.
    rw [hseg, Option.getD_none] at hlast
    exact absurd (Option.some.inj hlast) hqe
  | some x =>
    rw [hseg, Option.getD_some] at hlast
    exact hlast

/-- Induction over the segments of a text. -/
theorem segment_induction {P : List α → Prop} (q : α) (last : ∀ seg, q ∉ seg → P seg)
    (more : ∀ seg s, q ∉ seg → P s → P (seg ++ q :: s)) : ∀ s, P s := by
  intro s
  induction hn : s.length using Nat.strong_induction_on generalizing s with
  | _ n ih =>
    by_cases hq : q ∈ s
    · obtain ⟨seg, u, rfl, hseg⟩ := List.eq_append_cons_of_mem hq
      refine more seg u hseg (ih u.length ?_ u rfl)
      rw [← hn, List.length_append, List.length_cons]
      omega
    · exact last s hq

omit [DecidableEq α] in
/-- A text without quotes ends in a name after a quote only if it is the name. -/
theorem suffix_segment_iff {seg : List α} (hseg : q ∉ seg) :
    q :: name <:+ q :: seg ↔ seg = name := by
  constructor
  · rintro ⟨p, hp⟩
    -- A shorter suffix would begin at a quote within the segment.
    cases p with
    | nil => exact (List.cons.inj hp).2.symm
    | cons y p =>
      refine absurd ?_ hseg
      rw [← (List.cons.inj hp).2]
      simp
  · rintro rfl
    exact List.suffix_rfl

omit [DecidableEq α] in
/-- A name without quotes at the end of a text is at the end of its last segment. -/
theorem suffix_append_quote {seg s : List α} (hname : q ∉ name) :
    q :: name <:+ q :: (seg ++ q :: s) ↔ q :: name <:+ q :: s := by
  constructor
  · rintro ⟨p, hp⟩
    rcases List.append_eq_append_iff.mp (hp.trans (List.cons_append).symm) with
      ⟨p', -, htail⟩ | ⟨u, -, htail⟩
    · -- The name would contain the quote.
      cases p' with
      | nil => exact ⟨[], htail⟩
      | cons y p' =>
        have hin : q ∈ name := by
          rw [(List.cons.inj htail).2]
          simp
        exact absurd hin hname
    · exact ⟨u, htail.symm⟩
  · rintro ⟨p, hp⟩
    exact ⟨q :: (seg ++ p), by simp [hp]⟩

/-- **Searching past a value.** A quoted name is found in a guarded value in quotes, if the
    value ends in the name after a quote, its opening quote included; else the search goes on
    at the closing quote. -/
theorem after_quoted_guarded (hqe : q ≠ e) (hname : q ∉ name) (hescape : e ∉ name) {s : List α}
    (h : Guarded q e s) :
    after (quoted q name) (q :: (s ++ q :: t)) =
      if q :: name <:+ q :: s then some t else after (quoted q name) (q :: t) := by
  -- Segment by segment: all but the last end with the escape of a quote.
  induction s using segment_induction q with
  | last seg hseg =>
    have hsuffix : q :: name <:+ q :: seg ↔ seg = name := suffix_segment_iff hseg
    by_cases heq : seg = name
    · subst heq
      rw [if_pos (hsuffix.mpr rfl), after_quoted]
    · rw [if_neg (mt hsuffix.mp heq), after_quoted_skip hname hseg heq]
  | more seg s hseg ih =>
    -- The name has no escape, so the search does not stop here.
    have hne : seg ≠ name := by
      rintro rfl
      exact hescape (List.mem_of_getLast? (h seg s rfl))
    rw [List.append_assoc, List.cons_append, after_quoted_skip hname hseg hne,
      ih (h.of_append hqe)]
    simp only [suffix_append_quote hname]

end Guarded

end Scan
