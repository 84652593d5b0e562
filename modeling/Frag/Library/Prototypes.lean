import Frag.Library.OrderedMap
import Mathlib.Data.List.Induction

/-!
# Objects with a Prototype

An object as a table: its own properties, over a prototype with members of its own. A key that
the object does not have is looked up in the prototype. Assigning to a key makes an own
property, unless the prototype has an accessor under the key: then its setter is called, and
the accessors here take no such value.

## Main results

- `get?_assign`: what an assignment or a deletion does to the own properties.
-/

namespace Prototypes

universe u v w

variable {κ : Type u} {β : Type v} {γ : Type w} [DecidableEq κ]

/-- A member of the prototype: a value that an own property hides, or an accessor. -/
inductive Member (γ : Type w) where
  | data (v : γ)
  | accessor (v : γ)

namespace Member

/-- What the member reads as. -/
def value : Member γ → γ
  | .data v => v
  | .accessor v => v

def isAccessor : Member γ → Bool
  | .data _ => false
  | .accessor _ => true

end Member

/-- The prototype has an accessor under the key. -/
def Guarded (proto : κ → Option (Member γ)) (k : κ) : Prop := (proto k).any Member.isAccessor = true

instance (proto : κ → Option (Member γ)) (k : κ) : Decidable (Guarded proto k) :=
  inferInstanceAs (Decidable (_ = true))

/-- `o[k]`; `none` is `undefined`. -/
def get (proto : κ → Option (Member γ)) (o : OrderedMap κ β) (k : κ) : Option (β ⊕ γ) :=
  match o.get? k with
  | some v => some (.inl v)
  | none => (proto k).map fun m => .inr m.value

/-- `o[k] = v` -/
def set (proto : κ → Option (Member γ)) (o : OrderedMap κ β) (k : κ) (v : β) : OrderedMap κ β :=
  match o.get? k with
  | some _ => o.set k v
  | none => if Guarded proto k then o else o.set k v

/-- `o[k] = v`, or `delete o[k]`. -/
def assign (proto : κ → Option (Member γ)) (o : OrderedMap κ β) : κ × Option β → OrderedMap κ β
  | (k, some v) => set proto o k v
  | (k, none) => o.delete k

/-- The value last assigned to the key, unless it has been deleted since. -/
def lasting (k : κ) (h : List (κ × Option β)) : Option β :=
  h.foldl (fun v e => if e.1 = k then e.2 else v) none

@[simp] theorem lasting_nil (k : κ) : lasting (β := β) k [] = none := rfl

theorem lasting_concat (k : κ) (h : List (κ × Option β)) (e : κ × Option β) :
    lasting k (h ++ [e]) = if e.1 = k then e.2 else lasting k h := by
  rw [lasting, List.foldl_append, List.foldl_cons, List.foldl_nil, lasting]

/-- What lasts has been assigned. -/
theorem mem_of_lasting {k : κ} {v : β} {h : List (κ × Option β)} (hv : lasting k h = some v) :
    (k, some v) ∈ h := by
  induction h using List.reverseRecOn with
  | nil => cases hv
  | append_singleton h e ih =>
    rw [lasting_concat] at hv
    split at hv
    · rename_i hk
      exact List.mem_append_right _ (List.mem_singleton.mpr (Prod.ext hk.symm hv.symm))
    · exact List.mem_append_left _ (ih hv)

section Reading

variable {proto : κ → Option (Member γ)} {o : OrderedMap κ β} {k : κ}

theorem get_of_own {v : β} (h : o.get? k = some v) : get proto o k = some (.inl v) := by
  rw [get, h]

theorem get_of_none (h : o.get? k = none) :
    get proto o k = (proto k).map fun m => .inr m.value := by
  rw [get, h]

/-- **An assignment is one to its own key**, and lost where the prototype guards the key. -/
theorem get?_assign (hk : Guarded proto k → o.get? k = none) (e : κ × Option β) :
    (assign proto o e).get? k =
      if Guarded proto k then none else if e.1 = k then e.2 else o.get? k := by
  obtain ⟨k', v | v⟩ := e
  · -- A deletion is not guarded.
    rw [assign, OrderedMap.get?_delete]
    by_cases hguard : Guarded proto k
    · rw [hk hguard, if_pos hguard, ite_self]
    · rw [if_neg hguard]
      exact if_congr eq_comm rfl rfl
  · have hset : (o.set k' v).get? k = if k' = k then some v else o.get? k := by
      rw [OrderedMap.get?_set]
      exact if_congr eq_comm rfl rfl
    rw [assign, set]
    by_cases hkey : k' = k
    · subst hkey
      -- Whether the key has an own property only matters where it is guarded.
      by_cases hguard : Guarded proto k'
      · rw [hk hguard]
        simp [hguard, hk hguard]
      · cases o.get? k' <;> simp [hguard]
    · have hother : (if Guarded proto k then none else if k' = k then some v else o.get? k) =
          o.get? k := by
        rw [if_neg hkey]
        exact ite_eq_right_iff.mpr fun hguard => (hk hguard).symm
      rw [hother]
      cases o.get? k' with
      | some _ => simp only [hset, if_neg hkey]
      | none =>
        simp only
        split
        · rfl
        · rw [hset, if_neg hkey]

end Reading

end Prototypes
