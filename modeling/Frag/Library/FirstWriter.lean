import Frag.Library.Runs
import Mathlib.Data.List.Induction
import Mathlib.Data.List.Nodup

/-!
# First Writer Wins

A store of elements with keys. An element is put unless its key is taken, and it
stays, as it was put, until an operation drops it. `live` is what is stored after a
history of such operations, in the order of arrival.

`Lasting` is the same seen from outside, by a log of what took effect: an element is
there if it was put at some point and not dropped since.

## Main results

- `mem_apply`, `lasting_concat`: what one operation does to an element, and what one
  event of a log says about it;
- `filter_live_puts`: when putting elements is invisible among those with a property.
-/

namespace FirstWriter

open Runs

universe u v w

variable {α : Type u} {κ : Type v} [DecidableEq κ] {key : α → κ}

/-- An operation of the history. -/
inductive Op (α : Type u) where
  /-- Store the element, if its key is free. -/
  | put (a : α)
  /-- Remove the elements with the property. -/
  | drop (p : α → Bool)

/-- The operation removes the element. -/
def Op.Drops : Op α → α → Prop
  | .put _, _ => False
  | .drop p, a => p a = true

instance : (op : Op α) → (a : α) → Decidable (op.Drops a)
  | .put _, _ => inferInstanceAs (Decidable False)
  | .drop p, a => inferInstanceAs (Decidable (p a = true))

/-- The elements stored after an operation. -/
def apply (key : α → κ) (stored : List α) : Op α → List α
  | .put a => if key a ∈ stored.map key then stored else stored ++ [a]
  | .drop p => stored.filter fun a => !p a

/-- The elements stored after a history. -/
def live (key : α → κ) (history : List (Op α)) : List α := run (apply key) [] history

/-! ## One operation -/

/-- What one operation does to an element. -/
theorem mem_apply {stored : List α} {op : Op α} {a : α} :
    a ∈ apply key stored op ↔
      (a ∈ stored ∧ ¬ op.Drops a) ∨ (op = .put a ∧ key a ∉ stored.map key) := by
  cases op with
  | put b =>
    simp only [Op.Drops, not_false_eq_true, and_true, Op.put.injEq]
    -- A put under a taken key does nothing, and one under a free key adds the element.
    by_cases hk : key b ∈ stored.map key
    · rw [apply, if_pos hk]
      constructor
      · exact .inl
      · rintro (h | ⟨rfl, hfree⟩)
        · exact h
        · exact absurd hk hfree
    · rw [apply, if_neg hk, List.mem_append, List.mem_singleton]
      constructor
      · rintro (h | rfl)
        · exact .inl h
        · exact .inr ⟨rfl, hk⟩
      · rintro (h | ⟨rfl, -⟩)
        · exact .inl h
        · exact .inr rfl
  | drop p => simp [apply, Op.Drops]

/-! ## Histories -/

/-- An element that is stored stays until it is dropped. -/
theorem mem_run_of_mem {stored : List α} {history : List (Op α)} {a : α} (h : a ∈ stored)
    (hkeep : ∀ op ∈ history, ¬ op.Drops a) : a ∈ run (apply key) stored history := by
  induction history generalizing stored with
  | nil => exact h
  | cons op history ih =>
    have hop := hkeep op List.mem_cons_self
    exact ih (mem_apply.mpr (.inl ⟨h, hop⟩)) fun o ho => hkeep o (List.mem_cons_of_mem _ ho)

/-! ## Logs -/

section Log

variable {ε : Type w} {put drop : ε → α → Prop} {log : List ε} {a : α}

/-- The last event of the log that put the element has not been undone by a drop. -/
def Lasting (put drop : ε → α → Prop) (log : List ε) (a : α) : Prop :=
  ∃ before e after, log = before ++ e :: after ∧ put e a ∧ ∀ o ∈ after, ¬ drop o a

theorem not_lasting_nil : ¬ Lasting put drop [] a := by
  rintro ⟨before, e, after, hsplit, -, -⟩
  simp at hsplit

/-- The last event decides, if it put or dropped the element. -/
theorem lasting_concat {e : ε} :
    Lasting put drop (log ++ [e]) a ↔ (Lasting put drop log a ∧ ¬ drop e a) ∨ put e a := by
  constructor
  · rintro ⟨before, e', after, hsplit, hput, hkeep⟩
    -- The put is the last event, or an event follows it.
    cases after using List.reverseRecOn with
    | nil =>
      obtain ⟨-, he⟩ := List.append_inj' hsplit rfl
      obtain rfl := (List.cons.inj he).1
      exact .inr hput
    | append_singleton after last =>
      have hsplit' : log ++ [e] = (before ++ e' :: after) ++ [last] := by
        simpa using hsplit
      obtain ⟨rfl, he⟩ := List.append_inj' hsplit' rfl
      obtain rfl := (List.cons.inj he).1
      exact .inl ⟨⟨before, e', after, rfl, hput,
        fun o ho => hkeep o (List.mem_append_left _ ho)⟩,
        hkeep e (List.mem_append_right _ List.mem_cons_self)⟩
  · rintro (⟨⟨before, e', after, rfl, hput, hkeep⟩, he⟩ | hput)
    · refine ⟨before, e', after ++ [e], by simp, hput, fun o ho => ?_⟩
      rcases List.mem_append.mp ho with ho | ho
      · exact hkeep o ho
      · rwa [List.mem_singleton.mp ho]
    · exact ⟨log, e, [], rfl, hput, by simp⟩

end Log

/-! ## Histories of puts -/

/-- Put the elements one after the other. -/
def puts (as : List α) : List (Op α) := as.map .put

theorem live_puts_append (as : List α) (a : α) :
    live key (puts (as ++ [a])) = apply key (live key (puts as)) (.put a) := by
  rw [puts, List.map_append, List.map_singleton, live, run_concat]
  rfl

/-- The keys that are taken are those that were put. -/
theorem mem_keys_live_puts {as : List α} {k : κ} :
    k ∈ (live key (puts as)).map key ↔ k ∈ as.map key := by
  induction as using List.reverseRecOn with
  | nil => exact .rfl
  | append_singleton as a ih =>
    rw [live_puts_append, apply]
    split
    · rename_i hk
      rw [ih, List.map_append, List.mem_append, List.map_singleton, List.mem_singleton]
      constructor
      · exact .inl
      · rintro (h | rfl)
        · exact h
        · exact ih.mp hk
    · rw [List.map_append, List.map_append, List.mem_append, List.mem_append, ih]

theorem live_puts_concat (as : List α) (a : α) :
    live key (puts (as ++ [a])) =
      if key a ∈ as.map key then live key (puts as) else live key (puts as) ++ [a] := by
  rw [live_puts_append, apply]
  exact if_congr mem_keys_live_puts rfl rfl

/-- The element that is stored under a key is the first one put. -/
theorem mem_live_puts {as : List α} {a : α} :
    a ∈ live key (puts as) ↔ as.find? (fun b => key b = key a) = some a := by
  induction as using List.reverseRecOn with
  | nil => simp [puts, live]
  | append_singleton as b ih =>
    rw [live_puts_concat, List.find?_append]
    by_cases hk : key b ∈ as.map key
    · rw [if_pos hk, ih]
      cases hfind : as.find? fun c => key c = key a with
      | some c => rfl
      | none =>
        -- The new element does not have the key either: that key is not among the old ones.
        have hne : key b ≠ key a := by
          intro heq
          obtain ⟨c, hc, hck⟩ := List.mem_map.mp hk
          exact absurd (hck.trans heq) (by simpa using List.find?_eq_none.mp hfind c hc)
        simp [hne]
    · rw [if_neg hk, List.mem_append, List.mem_singleton, ih]
      cases hfind : as.find? fun c => key c = key a with
      | some c =>
        have hc : c ∈ as := List.mem_of_find?_eq_some hfind
        have hck : key c = key a := by simpa using List.find?_some hfind
        have hne : a ≠ b := by
          rintro rfl
          exact hk (hck ▸ List.mem_map_of_mem hc)
        simp [hne]
      | none =>
        simp only [reduceCtorEq, false_or, Option.none_or, List.find?_singleton]
        constructor
        · rintro rfl
          simp
        · intro h
          split at h
          · exact (Option.some.inj h).symm
          · exact absurd h (by simp)

/-- The first element put under each key of an element with the property has it too. -/
def OwnKeys (key : α → κ) (p : α → Bool) (as : List α) : Prop :=
  ∀ a ∈ as, p a → ∃ b, as.find? (fun b => key b = key a) = some b ∧ p b

/-- The elements with the property own their keys if they are all stored that would be
    stored without the others. -/
theorem ownKeys_of_subset {as : List α} {p : α → Bool}
    (h : live key (puts (as.filter p)) ⊆ live key (puts as)) : OwnKeys key p as := by
  intro a ha hpa
  -- The first element with the property under the key is live, so it is the first of all.
  have hsome : ((as.filter p).find? fun b => key b = key a).isSome :=
    List.find?_isSome.mpr ⟨a, List.mem_filter.mpr ⟨ha, hpa⟩, by simp⟩
  obtain ⟨b, hb⟩ := Option.isSome_iff_exists.mp hsome
  have hbk : key b = key a := by simpa using List.find?_some hb
  have hlive : b ∈ live key (puts (as.filter p)) := mem_live_puts.mpr (by rwa [hbk])
  have hfirst := mem_live_puts.mp (h hlive)
  rw [hbk] at hfirst
  exact ⟨b, hfirst, (List.mem_filter.mp (List.mem_of_find?_eq_some hb)).2⟩

private theorem find?_concat {as : List α} {a : α} {k : κ} (h : k ∈ as.map key) :
    (as ++ [a]).find? (fun b => key b = k) = as.find? fun b => key b = k := by
  obtain ⟨b, hb, hbk⟩ := List.mem_map.mp h
  have hsome : (as.find? fun b => key b = k).isSome :=
    List.find?_isSome.mpr ⟨b, hb, by simpa using hbk⟩
  rw [List.find?_append, Option.or_of_isSome hsome]

/-- **Two runs**: among the elements with the property, which own their keys, it makes no
    difference whether the others are put. -/
theorem filter_live_puts {as : List α} {p : α → Bool} (h : OwnKeys key p as) :
    (live key (puts as)).filter p = live key (puts (as.filter p)) := by
  induction as using List.reverseRecOn with
  | nil => rfl
  | append_singleton as b ih =>
    -- Without the last element the others still own their keys.
    have hold : OwnKeys key p as := by
      intro a ha hpa
      obtain ⟨c, hc, hpc⟩ := h a (List.mem_append_left _ ha) hpa
      rw [find?_concat (List.mem_map_of_mem ha)] at hc
      exact ⟨c, hc, hpc⟩
    rw [live_puts_concat, List.filter_append]
    -- An element without the property is put in the first run only, where it is filtered out.
    by_cases hpb : p b
    · have hkeep : [b].filter p = [b] := List.filter_cons_of_pos hpb
      rw [hkeep, live_puts_concat, ← ih hold]
      by_cases hk : key b ∈ as.map key
      · -- The key was taken by an element with the property.
        obtain ⟨c, hc, hpc⟩ := h b (List.mem_append_right _ List.mem_cons_self) hpb
        rw [find?_concat hk] at hc
        have hck : key c = key b := by simpa using List.find?_some hc
        have hmem : key b ∈ (as.filter p).map key :=
          List.mem_map.mpr ⟨c, List.mem_filter.mpr ⟨List.mem_of_find?_eq_some hc, hpc⟩, hck⟩
        rw [if_pos hk, if_pos hmem]
      · have hmem : key b ∉ (as.filter p).map key := fun hmem =>
          hk ((List.filter_sublist.map key).subset hmem)
        rw [if_neg hk, if_neg hmem, List.filter_append, hkeep]
    · have hdrop : [b].filter p = [] := List.filter_cons_of_neg hpb
      rw [hdrop, List.append_nil, ← ih hold]
      split
      · rfl
      · rw [List.filter_append, hdrop, List.append_nil]

end FirstWriter
