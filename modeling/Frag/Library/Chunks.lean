import Mathlib.Data.List.Basic
import Mathlib.Data.List.Count
import Mathlib.Data.List.Nodup
import Mathlib.Data.List.TakeDrop

/-!
# Cutting a List into Consecutive Chunks

`chunks c n l` cuts `l` into `n` consecutive pieces of (at most) `c` elements.
The pieces may run out of elements: late chunks of a short list are empty.

A *selection* keeps some of the pieces and drops the others. What a selection
can still spell is bounded by what the dropped pieces held (`select_sublist`),
and this is the form in which secrecy of a split secret is decided.
-/

namespace Chunks

universe u

variable {α : Type u}

/-- The `i`-th piece of length `c`. -/
def chunk (c : Nat) (l : List α) (i : Nat) : List α :=
  (l.drop (i * c)).take c

/-- The first `n` pieces of length `c`. -/
def chunks (c n : Nat) (l : List α) : List (List α) :=
  (List.range n).map (chunk c l)

/-- The pieces at the kept positions, joined in order. -/
def select (keep : Nat → Bool) (c n : Nat) (l : List α) : List α :=
  ((List.range n).filter keep).flatMap (chunk c l)

@[simp] theorem length_chunks (c n : Nat) (l : List α) : (chunks c n l).length = n := by
  simp [chunks]

theorem length_chunk (c i : Nat) (l : List α) : (chunk c l i).length = min c (l.length - i * c) := by
  simp [chunk]

/-! ## Joining all pieces -/

theorem flatten_chunks (c n : Nat) (l : List α) : (chunks c n l).flatten = l.take (n * c) := by
  induction n with
  | zero => simp [chunks]
  | succ n ih =>
    simp only [chunks, List.range_succ, List.map_append, List.map_cons, List.map_nil,
      List.flatten_append, List.flatten_cons, List.flatten_nil, List.append_nil] at ih ⊢
    rw [ih, Nat.succ_mul, List.take_add, chunk]

/-- Enough pieces hold the whole list. -/
theorem flatten_chunks_of_le {c n : Nat} {l : List α} (h : l.length ≤ n * c) :
    (chunks c n l).flatten = l := by
  rw [flatten_chunks, List.take_of_length_le h]

/-- Cut into `n` pieces of length `⌈|l| / n⌉`, no element is lost. -/
theorem length_le_mul_ceil {n : Nat} (hn : 0 < n) (m : Nat) : m ≤ n * ((m + n - 1) / n) := by
  have h := Nat.div_add_mod (m + n - 1) n
  have hlt := Nat.mod_lt (m + n - 1) hn
  omega

/-! ## Lengths -/

theorem mem_chunks {c n : Nat} {l x : List α} : x ∈ chunks c n l ↔ ∃ i < n, chunk c l i = x := by
  simp only [chunks, List.mem_map, List.mem_range]

theorem length_le_of_mem_chunks {c n : Nat} {l x : List α} (h : x ∈ chunks c n l) :
    x.length ≤ c := by
  obtain ⟨i, -, rfl⟩ := mem_chunks.mp h
  rw [length_chunk]
  exact Nat.min_le_left _ _

/-- A later piece is no longer than an earlier one. -/
theorem length_chunk_le {i j : Nat} (h : i ≤ j) (c : Nat) (l : List α) :
    (chunk c l j).length ≤ (chunk c l i).length := by
  have hstart : i * c ≤ j * c := Nat.mul_le_mul_right c h
  rw [length_chunk, length_chunk]
  omega

theorem pairwise_length_chunks (c n : Nat) (l : List α) :
    ((chunks c n l).map List.length).Pairwise (· ≥ ·) := by
  rw [chunks, List.map_map, List.pairwise_map]
  exact List.pairwise_lt_range.imp fun h => length_chunk_le (Nat.le_of_lt h) c l

/-- A piece that is neither full nor empty is where the list ends. -/
theorem eq_div_of_incomplete {c i : Nat} {l : List α} (hfull : (chunk c l i).length ≠ c)
    (hempty : chunk c l i ≠ []) : i = l.length / c := by
  have hpos := List.length_pos_iff.mpr hempty
  have hnext : (i + 1) * c = i * c + c := Nat.succ_mul i c
  rw [length_chunk] at hfull hpos
  apply Eq.symm
  apply Nat.div_eq_of_lt_le
  · omega
  · omega

/-- **At most one piece is neither full nor empty.** -/
theorem countP_partial_le_one (c n : Nat) (l : List α) :
    (chunks c n l).countP (fun x => x.length ≠ c ∧ x ≠ []) ≤ 1 := by
  have himp : ∀ i ∈ List.range n,
      decide ((chunk c l i).length ≠ c ∧ chunk c l i ≠ []) = true → (i == l.length / c) = true := by
    intro i _ hi
    obtain ⟨hfull, hempty⟩ := of_decide_eq_true hi
    exact beq_iff_eq.mpr (eq_div_of_incomplete hfull hempty)
  rw [chunks, List.countP_map]
  calc (List.range n).countP _ ≤ (List.range n).countP (· == l.length / c) :=
        List.countP_mono_left himp
    _ ≤ 1 := List.nodup_iff_count_le_one.mp List.nodup_range _

/-- No piece is empty iff the last one is not. -/
theorem forall_chunks_ne_nil_iff {c n : Nat} {l : List α} (hn : 0 < n) (hc : 0 < c) :
    (∀ x ∈ chunks c n l, x ≠ []) ↔ (n - 1) * c < l.length := by
  have hchunk : ∀ i, chunk c l i ≠ [] ↔ i * c < l.length := by
    intro i
    rw [← List.length_pos_iff, length_chunk]
    omega
  constructor
  · intro h
    exact (hchunk (n - 1)).mp (h _ (mem_chunks.mpr ⟨n - 1, by omega, rfl⟩))
  · intro h x hx
    obtain ⟨i, hi, rfl⟩ := mem_chunks.mp hx
    have hle : i * c ≤ (n - 1) * c := Nat.mul_le_mul_right c (by omega)
    exact (hchunk i).mpr (Nat.lt_of_le_of_lt hle h)

/-! ## Selections -/

private theorem flatMap_filter_sublist (keep : Nat → Bool) (f : Nat → List α) (is : List Nat) :
    ((is.filter keep).flatMap f).Sublist (is.flatMap f) := by
  induction is with
  | nil => simp
  | cons i is ih =>
    by_cases h : keep i = true
    · simpa [List.filter_cons, h] using (List.Sublist.refl (f i)).append ih
    · simpa [List.filter_cons, h] using ih.trans (List.sublist_append_right (f i) _)

/-- A selection that drops piece `i` spells no more than the elements around it. -/
theorem select_sublist {keep : Nat → Bool} {c n i : Nat} {l : List α} (hi : i < n)
    (hk : keep i = false) :
    (select keep c n l).Sublist (l.take (i * c) ++ l.drop ((i + 1) * c)) := by
  have hsplit : List.range n = List.range i ++ i :: (List.range (n - (i + 1))).map (i + 1 + ·) := by
    rw [show n = i + 1 + (n - (i + 1)) by omega, List.range_add, List.range_succ]
    simp
  have hleft : ((List.range i).flatMap (chunk c l)) = l.take (i * c) := by
    rw [← flatten_chunks, chunks, List.flatMap]
  have hright : ((List.range (n - (i + 1))).map (i + 1 + ·)).flatMap (chunk c l) =
      (l.drop ((i + 1) * c)).take ((n - (i + 1)) * c) := by
    rw [← flatten_chunks, chunks, List.flatMap, List.map_map]
    congr 2
    funext j
    simp [chunk, List.drop_drop, Nat.add_mul]
  rw [select, hsplit, List.filter_append, List.flatMap_append, List.filter_cons, hk]
  simp only [Bool.false_eq_true, if_false]
  have h1 := flatMap_filter_sublist keep (chunk c l) (List.range i)
  have h2 := flatMap_filter_sublist keep (chunk c l) ((List.range (n - (i + 1))).map (i + 1 + ·))
  rw [hleft] at h1
  rw [hright] at h2
  exact h1.append (h2.trans (List.take_sublist _ _))

/-- What a dropped piece held is missing from every selection that drops it. -/
theorem countP_select_add_le {keep : Nat → Bool} {c n i : Nat} {l : List α} (p : α → Bool)
    (hi : i < n) (hk : keep i = false) :
    (select keep c n l).countP p + (chunk c l i).countP p ≤ l.countP p := by
  have hsub := (select_sublist (l := l) (c := c) hi hk).countP_le (p := p)
  have hl : l = l.take (i * c) ++ (chunk c l i ++ l.drop ((i + 1) * c)) := by
    rw [chunk, Nat.succ_mul, ← List.drop_drop, List.take_append_drop, List.take_append_drop]
  have hcount : l.countP p =
      (l.take (i * c)).countP p + ((chunk c l i).countP p + (l.drop ((i + 1) * c)).countP p) := by
    conv_lhs => rw [hl]
    simp only [List.countP_append]
  rw [List.countP_append] at hsub
  omega

/-- A selection is a sublist of the whole. -/
theorem select_sublist_self (keep : Nat → Bool) (c n : Nat) (l : List α) :
    (select keep c n l).Sublist l := by
  have h := flatMap_filter_sublist keep (chunk c l) (List.range n)
  have hflat : (List.range n).flatMap (chunk c l) = l.take (n * c) := by
    rw [← flatten_chunks, chunks, List.flatMap]
  rw [hflat] at h
  exact h.trans (List.take_sublist _ _)

/-- Keeping exactly the first `m` pieces spells a prefix. -/
theorem select_lt {m n : Nat} (h : m ≤ n) (c : Nat) (l : List α) :
    select (fun i => decide (i < m)) c n l = l.take (m * c) := by
  have hfilter : (List.range n).filter (fun i => decide (i < m)) = List.range m := by
    rw [show n = m + (n - m) by omega, List.range_add, List.filter_append]
    simp [List.filter_eq_self.mpr]
  rw [select, hfilter, ← flatten_chunks, chunks, List.flatMap]

theorem mem_select {keep : Nat → Bool} {c n : Nat} {l : List α} {x : α} :
    x ∈ select keep c n l ↔ ∃ i < n, keep i = true ∧ x ∈ chunk c l i := by
  simp only [select, List.mem_flatMap, List.mem_filter, List.mem_range, and_assoc]

/-- **What a strict selection can spell**: everything, iff the last piece is empty. -/
theorem exists_select_eq_self {c n : Nat} {l : List α} (hn : 0 < n) (h : l.length ≤ n * c) :
    (∃ keep, (∃ i < n, keep i = false) ∧ select keep c n l = l) ↔ l.length ≤ (n - 1) * c := by
  constructor
  · rintro ⟨keep, ⟨i, hi, hk⟩, hsel⟩
    have hcount := countP_select_add_le (c := c) (l := l) (fun _ => true) hi hk
    rw [hsel, List.countP_true, length_chunk] at hcount
    have hle : i * c ≤ (n - 1) * c := Nat.mul_le_mul_right c (by omega)
    rcases Nat.eq_zero_or_pos c with rfl | hc
    · simpa using h
    · omega
  · intro hlast
    refine ⟨fun i => decide (i < n - 1), ⟨n - 1, by omega, by simp⟩, ?_⟩
    rw [select_lt (by omega), List.take_of_length_le hlast]

/-- A strict selection spells a proper prefix that has no element of the rest iff the
    prefix ends between two pieces. -/
theorem exists_select_eq_take {c n d : Nat} {l : List α} (hc : 0 < c) (h : l.length ≤ n * c)
    (hd : d < l.length) (hdisj : ∀ x ∈ l.take d, x ∉ l.drop d) :
    (∃ keep, (∃ i < n, keep i = false) ∧ select keep c n l = l.take d) ↔ c ∣ d := by
  constructor
  · rintro ⟨keep, -, hsel⟩
    by_contra hndvd
    -- Piece `d / c` holds the last element of the prefix and the first one after it.
    have hdiv := Nat.div_add_mod d c
    have hmod : 0 < d % c := Nat.pos_of_ne_zero fun h0 => hndvd (Nat.dvd_of_mod_eq_zero h0)
    have hlt := Nat.mod_lt d hc
    have hcomm : c * (d / c) = d / c * c := Nat.mul_comm _ _
    have hq : d / c < n := by
      by_contra hge
      have hle : n * c ≤ d / c * c := Nat.mul_le_mul_right c (Nat.not_lt.mp hge)
      omega
    have hsucc : (d / c + 1) * c = d / c * c + c := Nat.succ_mul _ _
    cases hk : keep (d / c) with
    | true =>
      have hrest : l[d] ∈ l.drop d := List.mem_drop_iff_getElem.mpr ⟨0, by omega, by simp⟩
      have hpiece : l[d] ∈ chunk c l (d / c) := by
        rw [chunk, List.mem_take_iff_getElem]
        refine ⟨d - d / c * c, ?_, ?_⟩
        · rw [List.length_drop]
          omega
        · rw [List.getElem_drop]
          congr 1
          omega
      have hmem : l[d] ∈ select keep c n l := mem_select.mpr ⟨d / c, hq, hk, hpiece⟩
      exact hdisj _ (hsel ▸ hmem) hrest
    | false =>
      have hsub := select_sublist (c := c) (l := l) hq hk
      rw [hsel] at hsub
      obtain ⟨s, t, hst, hs, ht⟩ := List.sublist_append_iff.mp hsub
      have hnil : t = [] := by
        refine List.eq_nil_iff_forall_not_mem.mpr fun x hx => ?_
        have htake : x ∈ l.take d := hst ▸ List.mem_append_right s hx
        have hdrop : x ∈ l.drop d := by
          refine List.mem_of_mem_drop (i := (d / c + 1) * c - d) ?_
          rw [List.drop_drop, show d + ((d / c + 1) * c - d) = (d / c + 1) * c by omega]
          exact ht.subset hx
        exact hdisj x htake hdrop
      rw [hnil, List.append_nil] at hst
      have hlen := hs.length_le
      rw [← hst, List.length_take, List.length_take] at hlen
      omega
  · rintro ⟨q, rfl⟩
    have hq : q < n := by
      by_contra hge
      have hle : n * c ≤ q * c := Nat.mul_le_mul_right c (Nat.not_lt.mp hge)
      rw [Nat.mul_comm] at hd
      omega
    exact ⟨fun i => decide (i < q), ⟨q, hq, by simp⟩, by
      rw [select_lt (Nat.le_of_lt hq), Nat.mul_comm]⟩

end Chunks
