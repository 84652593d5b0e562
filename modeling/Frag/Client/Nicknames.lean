import Frag.Basic
import Frag.Library.Prototypes
import Frag.Library.Runs

/-!
# Nicknames

`state.nicknames` of `app.js` and what `Store` keeps of it. It is a plain object, so a sender
hash that nobody has named is looked up in `Object.prototype`.

`JSON.stringify` writes the own properties, whose values are texts, and `JSON.parse` makes every
member an own property of a new object. The order of the members, which nothing reads, is not
part of the model.
-/

namespace Frag

open Prototypes Runs

/-! ## `Object.prototype` -/

/-- The methods of `Object.prototype`, and `constructor`. -/
def objectMethods : List JsString :=
  ["constructor", "hasOwnProperty", "isPrototypeOf", "propertyIsEnumerable", "toLocaleString",
    "toString", "valueOf", "__defineGetter__", "__defineSetter__", "__lookupGetter__",
    "__lookupSetter__"].map js

/-- The members of `Object.prototype`, by their names. `__proto__` is an accessor: it reads as the
    prototype, and its setter ignores what is no object. -/
def objectPrototype (k : JsString) : Option (Member JsString) :=
  if k = js "__proto__" then some (.accessor k)
  else if k ∈ objectMethods then some (.data k)
  else none

/-- What a lookup evaluates to: a text, or a member of `Object.prototype`. -/
abbrev NameValue := JsString ⊕ JsString

/-- `Boolean(v)`: functions and objects are truthy. -/
def NameValue.truthy : NameValue → Bool
  | .inl s => s ≠ []
  | .inr _ => true

/-! ## State -/

/-- The own properties of `state.nicknames`, and the members of the JSON text that is stored. -/
structure Nicknames where
  nicknames : OrderedMap JsString JsString
  stored : Option (List (JsString × JsString))

namespace Nicknames

/-- Nothing is stored yet. -/
def initial : Nicknames := ⟨.empty, none⟩

/-- `loadNicknames`, on what `Store.get('nicknames', {})` returns -/
def loadNicknames (s : Nicknames) : Nicknames :=
  { s with nicknames := s.stored.elim .empty fun ms => ms.foldl (fun o m => o.set m.1 m.2) .empty }

/-- `setNickname` -/
def setNickname (s : Nicknames) (hash name : JsString) : Nicknames :=
  let nicknames :=
    -- An empty name is falsy.
    if name ≠ [] then Prototypes.set objectPrototype s.nicknames hash name
    else s.nicknames.delete hash
  { nicknames, stored := some nicknames.entries }

/-- `state.nicknames[hash]` -/
def lookup (s : Nicknames) (hash : JsString) : Option NameValue :=
  Prototypes.get objectPrototype s.nicknames hash

/-- `getNickname`; `none` is `null`. -/
def getNickname (s : Nicknames) (hash : JsString) : Option NameValue :=
  (s.lookup hash).filter NameValue.truthy

/-- `hash.slice(0, 8) + '…'` -/
def shortHash (hash : JsString) : JsString := hash.take 8 ++ js "…"

/-- `displayName` -/
def displayName (s : Nicknames) (hash : JsString) : NameValue :=
  ((s.lookup hash).filter NameValue.truthy).getD (.inl (shortHash hash))

end Nicknames

/-! ## Histories -/

/-- A call of `setNickname`, or a reload of the page. -/
inductive NicknameEvent where
  | setNickname (hash name : JsString)
  | reload

namespace NicknameEvent

/-- The nicknames after an event. -/
def apply (s : Nicknames) : NicknameEvent → Nicknames
  | .setNickname hash name => s.setNickname hash name
  | .reload => s.loadNicknames

/-- What a call assigns to a hash; an empty name clears it. -/
def assignment : NicknameEvent → Option (JsString × Option JsString)
  | .setNickname hash name => some (hash, if name ≠ [] then some name else none)
  | .reload => none

end NicknameEvent

/-- The name last set for a hash, unless it was cleared afterwards. -/
def lastName (hash : JsString) (events : List NicknameEvent) : Option JsString :=
  lasting hash (events.filterMap NicknameEvent.assignment)

/-- The nicknames after some events. -/
def nicknamesAfter (events : List NicknameEvent) : Nicknames :=
  run NicknameEvent.apply .initial events

theorem lastName_ne_nil {hash name : JsString} {events : List NicknameEvent}
    (h : lastName hash events = some name) : name ≠ [] := by
  obtain ⟨e, -, he⟩ := List.mem_filterMap.mp (mem_of_lasting h)
  cases e with
  | reload => cases he
  | setNickname hash' name' =>
    -- Only a name that is not empty is assigned.
    simp only [NicknameEvent.assignment, Option.some.injEq, Prod.mk.injEq] at he
    obtain ⟨-, hname⟩ := he
    split at hname
    · rename_i hne
      cases hname
      exact hne
    · cases hname

/-- What is stored is read back as what is in memory. -/
def Nicknames.Saved (s : Nicknames) : Prop :=
  ∀ k, s.loadNicknames.nicknames.get? k = s.nicknames.get? k

/-- Every event leaves memory and storage alike. -/
theorem saved_apply (s : Nicknames) (e : NicknameEvent) : (NicknameEvent.apply s e).Saved := by
  cases e with
  | reload => exact fun k => rfl
  | setNickname hash name => exact fun k => OrderedMap.get?_foldl_set_entries _ k

theorem saved_nicknamesAfter (events : List NicknameEvent) : (nicknamesAfter events).Saved := by
  rcases List.eq_nil_or_concat events with rfl | ⟨before, e, rfl⟩
  · exact fun k => rfl
  · rw [nicknamesAfter, List.concat_eq_append, run_concat]
    exact saved_apply _ e

/-- A call is an assignment or a deletion. -/
theorem nicknames_setNickname (s : Nicknames) (hash name : JsString) :
    (s.setNickname hash name).nicknames =
      assign objectPrototype s.nicknames (hash, if name ≠ [] then some name else none) := by
  rw [Nicknames.setNickname]
  split <;> rfl

/-- **The own properties after a history** are the last names, but for `__proto__`. -/
theorem get?_nicknamesAfter (events : List NicknameEvent) (hash : JsString) :
    (nicknamesAfter events).nicknames.get? hash =
      if Guarded objectPrototype hash then none else lastName hash events := by
  induction events using List.reverseRecOn with
  | nil => simp [nicknamesAfter, Nicknames.initial, lastName]
  | append_singleton events e ih =>
    have hguard : Guarded objectPrototype hash →
        (nicknamesAfter events).nicknames.get? hash = none := by
      intro h
      rw [ih, if_pos h]
    rw [nicknamesAfter, run_concat, ← nicknamesAfter, lastName, List.filterMap_append]
    cases e with
    | reload =>
      -- Nothing is assigned, and the stored members are those in memory.
      have hnone : [NicknameEvent.reload].filterMap NicknameEvent.assignment = [] := rfl
      rw [hnone, List.append_nil]
      exact (saved_nicknamesAfter events hash).trans ih
    | setNickname hash' name =>
      have hone : [NicknameEvent.setNickname hash' name].filterMap NicknameEvent.assignment =
          [(hash', if name ≠ [] then some name else none)] := rfl
      rw [hone, lasting_concat, NicknameEvent.apply, nicknames_setNickname, get?_assign hguard, ih,
        lastName]
      by_cases hg : Guarded objectPrototype hash
      · rw [if_pos hg, if_pos hg]
      · rw [if_neg hg, if_neg hg, if_neg hg]

end Frag
