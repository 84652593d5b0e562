import Mathlib.Algebra.Order.Monoid.Defs
import Mathlib.Data.List.Basic
import Mathlib.Data.List.Chain
import Mathlib.Data.List.Induction

/-!
# Events in Windows of Time

How many events of a list of times fall into a half-open window, wherever it lies, and the
windows that are opened one after the other by the first event after the end of the last one.

## Main results

- `Bounded.append`: bursts that are a window apart do not add up;
- `flatten_windows`, `isChain_windows`: times grouped into windows, one after the other.
-/

namespace Windows

universe u

variable {α : Type u} [AddCommMonoid α] [LinearOrder α] [IsOrderedCancelAddMonoid α]

/-- The events from `x` on, up to `x + width`. -/
def countIn (width x : α) (times : List α) : Nat := times.countP fun t => x ≤ t ∧ t < x + width

/-- No window of the width has more than `n` events. -/
def Bounded (width : α) (n : Nat) (times : List α) : Prop := ∀ x, countIn width x times ≤ n

variable {width x : α} {n : Nat} {times later : List α}

omit [IsOrderedCancelAddMonoid α] in
theorem countIn_append : countIn width x (times ++ later) =
    countIn width x times + countIn width x later := List.countP_append

omit [IsOrderedCancelAddMonoid α] in
theorem countIn_le_length : countIn width x times ≤ times.length := List.countP_le_length

omit [IsOrderedCancelAddMonoid α] in
theorem countIn_eq_length (h : ∀ t ∈ times, x ≤ t ∧ t < x + width) :
    countIn width x times = times.length := by
  refine List.countP_eq_length.mpr fun t ht => ?_
  exact decide_eq_true (h t ht)

omit [IsOrderedCancelAddMonoid α] in
theorem Bounded.nil : Bounded width n ([] : List α) := fun _ => Nat.zero_le n

/-- **Bursts that are a window apart do not add up.** -/
theorem Bounded.append (h : Bounded width n times) (hlater : later.length ≤ n)
    (hapart : ∀ t ∈ times, ∀ u ∈ later, t + width ≤ u) : Bounded width n (times ++ later) := by
  intro x
  rw [countIn_append]
  by_cases hmeets : ∃ u ∈ later, x ≤ u ∧ u < x + width
  · -- A window that meets the later burst begins after the earlier one.
    obtain ⟨u, hu, -, hend⟩ := hmeets
    have hnone : countIn width x times = 0 := by
      refine List.countP_eq_zero.mpr fun t ht hin => ?_
      have hle := hapart t ht u hu
      have hlt : t < x := lt_of_add_lt_add_right (lt_of_le_of_lt hle hend)
      exact absurd (of_decide_eq_true hin).1 (not_le.mpr hlt)
    rw [hnone, Nat.zero_add]
    exact le_trans countIn_le_length hlater
  · have hnone : countIn width x later = 0 := by
      refine List.countP_eq_zero.mpr fun u hu hin => ?_
      exact hmeets ⟨u, hu, of_decide_eq_true hin⟩
    rw [hnone, Nat.add_zero]
    exact h x

/-! ## Windows one after the other -/

section Groups

variable {β : Type u} [Add β] [LE β] [DecidableLE β] {width : β} {n : Nat} {times : List β}

/-- Times grouped into windows: the closed ones, each with its start, and the current one. -/
structure Grouping (β : Type u) where
  closed : List (β × List β)
  start : β
  current : List β

namespace Grouping

/-- All windows. -/
def windows (g : Grouping β) : List (β × List β) := g.closed ++ [(g.start, g.current)]

/-- A time at the end of the current window or later opens a new one. -/
def add (width : β) (g : Grouping β) (t : β) : Grouping β :=
  if g.start + width ≤ t then ⟨g.windows, t, [t]⟩ else { g with current := g.current ++ [t] }

/-- The grouping of no times, with an empty window at the start. -/
def empty (start : β) : Grouping β := ⟨[], start, []⟩

variable {g : Grouping β} {t : β}

theorem add_of_le (h : g.start + width ≤ t) : g.add width t = ⟨g.windows, t, [t]⟩ := if_pos h

theorem add_of_not_le (h : ¬ g.start + width ≤ t) :
    g.add width t = { g with current := g.current ++ [t] } := if_neg h

theorem flatten_add : (g.add width t).windows.flatMap Prod.snd = g.windows.flatMap Prod.snd ++ [t] := by
  unfold add
  split
  · simp [windows]
  · simp [windows]

theorem isChain_add (h : (g.windows.map Prod.fst).IsChain (· + width ≤ ·)) :
    ((g.add width t).windows.map Prod.fst).IsChain (· + width ≤ ·) := by
  unfold add
  split
  · rename_i hopens
    -- The new window follows the one that was current.
    rw [windows, List.map_append]
    refine List.isChain_append.mpr ⟨h, List.isChain_singleton _, ?_⟩
    intro x hx y hy
    have hlast : g.start = x := by simpa [windows] using hx
    have hnew : t = y := by simpa using hy
    rwa [← hlast, ← hnew]
  · simpa [windows] using h

/-- No window gets smaller. -/
theorem length_lt_of_add (h : ∀ w ∈ (g.add width t).windows, w.2.length < n) :
    ∀ w ∈ g.windows, w.2.length < n := by
  unfold add at h
  split at h
  · exact fun w hw => h w (List.mem_append_left _ hw)
  · intro w hw
    rcases List.mem_append.mp hw with hw | hw
    · exact h w (List.mem_append_left _ hw)
    · obtain rfl := List.mem_singleton.mp hw
      have hlt := h (g.start, g.current ++ [t]) (List.mem_append_right _ List.mem_cons_self)
      rw [List.length_append] at hlt
      exact Nat.lt_of_le_of_lt (Nat.le_add_right _ _) hlt

end Grouping

/-- The grouping of times in their order. -/
def groups (width start : β) (times : List β) : Grouping β :=
  times.foldl (Grouping.add width) (.empty start)

theorem groups_concat {start t : β} :
    groups width start (times ++ [t]) = (groups width start times).add width t := by
  rw [groups, List.foldl_append, List.foldl_cons, List.foldl_nil, groups]

/-- **No time is lost**, and their order is kept. -/
theorem flatten_windows (width start : β) (times : List β) :
    (groups width start times).windows.flatMap Prod.snd = times := by
  induction times using List.reverseRecOn with
  | nil => rfl
  | append_singleton times t ih => rw [groups_concat, Grouping.flatten_add, ih]

/-- **Windows start a width apart.** -/
theorem isChain_windows (width start : β) (times : List β) :
    ((groups width start times).windows.map Prod.fst).IsChain (· + width ≤ ·) := by
  induction times using List.reverseRecOn with
  | nil => exact List.isChain_singleton _
  | append_singleton times t ih =>
    rw [groups_concat]
    exact Grouping.isChain_add ih

end Groups

end Windows
