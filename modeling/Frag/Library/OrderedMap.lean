import Mathlib.Data.List.Nodup

/-!
# Insertion-Ordered Maps

A finite map that remembers the order in which its keys first appeared: setting
a present key overwrites its value in place, setting an absent key appends it.
The absence of repeated keys is a field, so an ill-formed map cannot be built.

`collect` is the keyed fold: it runs through a list once and folds the elements
that share a key into one value. `get?_collect` reads the value of a key off the
sublist of the elements with that key, whatever else the list contains.
-/

universe u v w

/-- A finite map in insertion order, without repeated keys. -/
structure OrderedMap (κ : Type u) (β : Type v) where
  entries : List (κ × β)
  keysNodup : (entries.map Prod.fst).Nodup

namespace OrderedMap

variable {κ : Type u} {β : Type v} {α : Type w} [DecidableEq κ]

/-! ## Association lists -/

/-- Overwrite the value of `k` where `k` occurs, or append it. -/
def setEntry (k : κ) (v : β) : List (κ × β) → List (κ × β)
  | [] => [(k, v)]
  | p :: rest => if p.1 = k then (k, v) :: rest else p :: setEntry k v rest

/-- The value of the first entry with key `k`. -/
def getEntry (k : κ) : List (κ × β) → Option β
  | [] => none
  | p :: rest => if p.1 = k then some p.2 else getEntry k rest

theorem getEntry_setEntry (k k' : κ) (v : β) (l : List (κ × β)) :
    getEntry k' (setEntry k v l) = if k' = k then some v else getEntry k' l := by
  induction l with
  | nil => simp [setEntry, getEntry, eq_comm]
  | cons p rest ih =>
    by_cases hp : p.1 = k
    · by_cases h : k' = k
      · simp [setEntry, getEntry, hp, h]
      · have hne : ¬ k = k' := fun e => h e.symm
        simp [setEntry, getEntry, hp, h, hne]
    · by_cases h : p.1 = k'
      · have hk : ¬ k' = k := fun e => hp (h.trans e)
        simp [setEntry, getEntry, h, hk]
      · simp [setEntry, getEntry, hp, h, ih]

theorem map_fst_setEntry (k : κ) (v : β) (l : List (κ × β)) :
    (setEntry k v l).map Prod.fst =
      if k ∈ l.map Prod.fst then l.map Prod.fst else l.map Prod.fst ++ [k] := by
  induction l with
  | nil => simp [setEntry]
  | cons p rest ih =>
    by_cases hp : p.1 = k
    · simp [setEntry, hp]
    · have hk : ¬ k = p.1 := fun e => hp e.symm
      simp only [setEntry, hp, if_false, List.map_cons, ih, List.mem_cons, hk, false_or]
      split <;> simp

theorem getEntry_eq_none {k : κ} {l : List (κ × β)} :
    getEntry k l = none ↔ k ∉ l.map Prod.fst := by
  induction l with
  | nil => simp [getEntry]
  | cons p rest ih =>
    by_cases hp : p.1 = k
    · simp [getEntry, hp]
    · have hk : ¬ k = p.1 := fun e => hp e.symm
      simp only [getEntry, hp, if_false, List.map_cons, List.mem_cons, hk, false_or, ih]

theorem getEntry_eq_some {k : κ} {v : β} {l : List (κ × β)} (hl : (l.map Prod.fst).Nodup) :
    getEntry k l = some v ↔ (k, v) ∈ l := by
  induction l with
  | nil => simp [getEntry]
  | cons p rest ih =>
    obtain ⟨k', v'⟩ := p
    simp only [List.map_cons, List.nodup_cons] at hl
    by_cases hp : k' = k
    · subst hp
      have hnot : (k', v) ∉ rest := fun hm => hl.1 (List.mem_map_of_mem (f := Prod.fst) hm)
      simp [getEntry, hnot, eq_comm]
    · have hk : ¬ k = k' := fun e => hp e.symm
      simp [getEntry, hp, hk, ih hl.2]

/-! ## Maps -/

/-- The map without entries. -/
def empty : OrderedMap κ β := ⟨[], List.nodup_nil⟩

/-- The value of a key, if it has one. -/
def get? (m : OrderedMap κ β) (k : κ) : Option β := getEntry k m.entries

/-- The keys in insertion order. -/
def keys (m : OrderedMap κ β) : List κ := m.entries.map Prod.fst

/-- The number of keys. -/
def size (m : OrderedMap κ β) : Nat := m.entries.length

/-- Set the value of a key, keeping the position of a key that is present. -/
def set (m : OrderedMap κ β) (k : κ) (v : β) : OrderedMap κ β where
  entries := setEntry k v m.entries
  keysNodup := by
    rw [map_fst_setEntry]
    split
    · exact m.keysNodup
    · rename_i hk
      refine List.nodup_append.mpr ⟨m.keysNodup, by simp, ?_⟩
      rintro a ha b hb rfl
      rw [List.mem_singleton] at hb
      exact hk (hb ▸ ha)

/-- Remove a key. -/
def delete (m : OrderedMap κ β) (k : κ) : OrderedMap κ β where
  entries := m.entries.filter fun p => p.1 ≠ k
  keysNodup := m.keysNodup.sublist (List.filter_sublist.map Prod.fst)

@[simp] theorem get?_empty (k : κ) : (empty : OrderedMap κ β).get? k = none := rfl

omit [DecidableEq κ] in
@[simp] theorem keys_empty : (empty : OrderedMap κ β).keys = [] := rfl

@[grind =] theorem get?_set (m : OrderedMap κ β) (k k' : κ) (v : β) :
    (m.set k v).get? k' = if k' = k then some v else m.get? k' :=
  getEntry_setEntry k k' v m.entries

@[simp] theorem get?_set_self (m : OrderedMap κ β) (k : κ) (v : β) :
    (m.set k v).get? k = some v := by
  simp [get?_set]

@[simp] theorem mem_keys_set {m : OrderedMap κ β} {k k' : κ} {v : β} :
    k' ∈ (m.set k v).keys ↔ k' = k ∨ k' ∈ m.keys := by
  simp only [keys, set, map_fst_setEntry]
  split
  · rename_i hk
    exact ⟨Or.inr, fun h => h.elim (fun e => e ▸ hk) id⟩
  · simp [or_comm]

theorem get?_eq_none {m : OrderedMap κ β} {k : κ} : m.get? k = none ↔ k ∉ m.keys :=
  getEntry_eq_none

theorem get?_eq_some {m : OrderedMap κ β} {k : κ} {v : β} :
    m.get? k = some v ↔ (k, v) ∈ m.entries :=
  getEntry_eq_some m.keysNodup

omit [DecidableEq κ] in
theorem length_keys (m : OrderedMap κ β) : m.keys.length = m.size := by
  simp [keys, size]

@[simp] theorem get?_delete (m : OrderedMap κ β) (k k' : κ) :
    (m.delete k).get? k' = if k' = k then none else m.get? k' := by
  have hiff : ∀ v, (m.delete k).get? k' = some v ↔ k' ≠ k ∧ m.get? k' = some v := by
    intro v
    rw [get?_eq_some, get?_eq_some]
    simp [delete, and_comm]
  by_cases h : k' = k
  · rw [if_pos h]
    exact Option.eq_none_iff_forall_ne_some.mpr (fun v hv => ((hiff v).mp hv).1 h)
  · rw [if_neg h]
    exact Option.ext fun v => by simp [hiff v, h]

/-! ## The keyed fold -/

/-- Fold the elements of a list that share a key: the first one starts the value,
    and every element (the first included) is added to it. -/
def collect (key : α → κ) (start : α → β) (add : β → α → β) (l : List α) : OrderedMap κ β :=
  l.foldl (fun m a => m.set (key a) (add ((m.get? (key a)).getD (start a)) a)) empty

private theorem get?_foldl_collect (key : α → κ) (start : α → β) (add : β → α → β)
    (l : List α) (m : OrderedMap κ β) (k : κ) :
    (l.foldl (fun m a => m.set (key a) (add ((m.get? (key a)).getD (start a)) a)) m).get? k =
      match m.get? k, l.filter (fun a => key a = k) with
      | none, [] => none
      | none, a :: as => some ((a :: as).foldl add (start a))
      | some b, as => some (as.foldl add b) := by
  induction l generalizing m with
  | nil => cases h : m.get? k <;> simp [h]
  | cons a l ih =>
    rw [List.foldl_cons, ih]
    by_cases hk : key a = k
    · subst hk
      cases h : m.get? (key a) <;> simp
    · have hk' : ¬ k = key a := fun e => hk e.symm
      simp [get?_set, hk', hk]

/-- The value of a key depends on the elements with that key only. -/
theorem get?_collect (key : α → κ) (start : α → β) (add : β → α → β) (l : List α) (k : κ) :
    (collect key start add l).get? k =
      match l.filter (fun a => key a = k) with
      | [] => none
      | a :: as => some ((a :: as).foldl add (start a)) := by
  rw [collect, get?_foldl_collect, get?_empty]
  cases l.filter (fun a => key a = k) <;> rfl

/-- Repeated `set`: the last element with a key decides its value. -/
theorem get?_foldl_set (key : α → κ) (val : α → β) (l : List α) (m : OrderedMap κ β) (k : κ) :
    (l.foldl (fun m a => m.set (key a) (val a)) m).get? k =
      ((l.filter fun a => key a = k).getLast?.map val).or (m.get? k) := by
  induction l generalizing m with
  | nil => simp
  | cons a l ih =>
    rw [List.foldl_cons, ih, get?_set]
    by_cases hk : key a = k
    · subst hk
      cases h : l.filter (fun b => key b = key a) with
      | nil => simp [h]
      | cons b bs =>
        obtain ⟨c, hc⟩ : ∃ c, (b :: bs).getLast? = some c :=
          ⟨_, List.getLast?_eq_some_getLast (by simp)⟩
        simp [h, List.getLast?_cons_cons, hc]
    · have hk' : ¬ k = key a := fun e => hk e.symm
      simp [hk, hk']

/-- The entries set one after the other make the map again. -/
theorem get?_foldl_set_entries (m : OrderedMap κ β) (k : κ) :
    (m.entries.foldl (fun n e => n.set e.1 e.2) empty).get? k = m.get? k := by
  rw [get?_foldl_set Prod.fst Prod.snd, get?_empty, Option.or_none]
  cases hlast : (m.entries.filter fun e => e.1 = k).getLast? with
  | none =>
    have hnone : k ∉ m.keys := by
      intro hk
      obtain ⟨e, he, rfl⟩ := List.mem_map.mp hk
      rw [List.getLast?_eq_none_iff] at hlast
      exact absurd (List.filter_eq_nil_iff.mp hlast e he) (by simp)
    rw [get?_eq_none.mpr hnone]
    rfl
  | some e =>
    obtain ⟨he, hk⟩ := List.mem_filter.mp (List.mem_of_getLast? hlast)
    have hvalue : m.get? k = some e.2 := get?_eq_some.mpr (of_decide_eq_true hk ▸ he)
    rw [hvalue]
    rfl

end OrderedMap
