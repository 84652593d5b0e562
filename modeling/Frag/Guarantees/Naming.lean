import Frag.Client.Nicknames

/-!
# Names of Senders

A sender hash comes from the servers and can be any text. The nicknames are a map over the
hashes that `Object.prototype` has no member for. Under the others a lookup finds the inherited
member as long as no nickname hides it, and under `__proto__` none ever does.

## Main results

- `nicknames_are_a_map_iff`: the hashes and histories for which the nicknames are a map.
-/

namespace Frag

open Prototypes Runs

namespace Nicknames

/-- The hash is shown under the name, or in short if it has none. -/
structure NamedBy (s : Nicknames) (name : Option JsString) (hash : JsString) : Prop where
  nickname : s.getNickname hash = name.map .inl
  display : s.displayName hash = .inl (name.getD (shortHash hash))

/-- A text that is looked up is shown. -/
theorem namedBy_of_own {s : Nicknames} {hash name : JsString} (hne : name ≠ [])
    (h : s.lookup hash = some (.inl name)) : s.NamedBy (some name) hash := by
  have htruthy : (s.lookup hash).filter NameValue.truthy = some (.inl name) := by
    rw [h]
    simp [NameValue.truthy, hne]
  constructor
  · exact htruthy
  · rw [displayName, htruthy]
    rfl

theorem namedBy_of_undefined {s : Nicknames} {hash : JsString} (h : s.lookup hash = none) :
    s.NamedBy none hash := by
  constructor
  · rw [getNickname, h]
    rfl
  · rw [displayName, h]
    rfl

/-- An inherited member is no name. -/
theorem not_namedBy_of_inherited {s : Nicknames} {hash member : JsString} {name : Option JsString}
    (h : s.lookup hash = some (.inr member)) : ¬ s.NamedBy name hash := by
  intro hnamed
  have hnickname := hnamed.nickname
  rw [getNickname, h] at hnickname
  cases name with
  | none => cases hnickname
  | some name => cases hnickname

/-- With the last names as own properties, a hash is named right if it is no member of
    `Object.prototype`, or has a name that hides the member. -/
theorem namedBy_iff {s : Nicknames} {events : List NicknameEvent} {hash : JsString}
    (h : s.nicknames.get? hash =
      if Guarded objectPrototype hash then none else lastName hash events) :
    s.NamedBy (lastName hash events) hash ↔
      objectPrototype hash = none ∨ (hash ≠ js "__proto__" ∧ lastName hash events ≠ none) := by
  by_cases hproto : hash = js "__proto__"
  · -- The accessor is found, whatever has been set.
    have hmember : objectPrototype hash = some (.accessor hash) := if_pos hproto
    have hguard : Guarded objectPrototype hash := by rw [Guarded, hmember]; rfl
    rw [if_pos hguard] at h
    have hlookup : s.lookup hash = some (.inr hash) := by
      rw [lookup, get_of_none h, hmember]
      rfl
    refine iff_of_false (not_namedBy_of_inherited hlookup) ?_
    rintro (hnone | ⟨hne, -⟩)
    · rw [hmember] at hnone
      cases hnone
    · exact hne hproto
  · have hguard : ¬ Guarded objectPrototype hash := by
      rw [Guarded, objectPrototype, if_neg hproto]
      split <;> simp [Member.isAccessor]
    rw [if_neg hguard] at h
    cases hname : lastName hash events with
    | some name =>
      rw [hname] at h
      exact iff_of_true (namedBy_of_own (lastName_ne_nil hname) (get_of_own h))
        (.inr ⟨hproto, Option.some_ne_none name⟩)
    | none =>
      rw [hname] at h
      -- Only the members of the prototype can be found.
      cases hmember : objectPrototype hash with
      | none =>
        have hlookup : s.lookup hash = none := by
          rw [lookup, get_of_none h, hmember]
          rfl
        exact iff_of_true (namedBy_of_undefined hlookup) (.inl rfl)
      | some m =>
        have hlookup : s.lookup hash = some (.inr m.value) := by
          rw [lookup, get_of_none h, hmember]
          rfl
        refine iff_of_false (not_namedBy_of_inherited hlookup) ?_
        rintro (hnone | ⟨-, hne⟩)
        · cases hnone
        · exact hne rfl

end Nicknames

/-- **When the nicknames are a map**: after any calls of `setNickname` and reloads a hash is shown
    under its last name, or in short, and still is after a reload, if `Object.prototype` has no
    member of that name, or if the hash has a nickname and is not `__proto__`. -/
theorem nicknames_are_a_map_iff (events : List NicknameEvent) (hash : JsString) :
    ((nicknamesAfter events).NamedBy (lastName hash events) hash ∧
      (nicknamesAfter events).loadNicknames.NamedBy (lastName hash events) hash) ↔
        objectPrototype hash = none ∨ (hash ≠ js "__proto__" ∧ lastName hash events ≠ none) := by
  have hown := get?_nicknamesAfter events hash
  have hstored := (saved_nicknamesAfter events hash).trans hown
  rw [Nicknames.namedBy_iff hown, Nicknames.namedBy_iff hstored, and_self]

/-- Without any nickname, the sender `constructor` has one that is no text. -/
theorem not_forall_namedBy : ¬ ∀ (events : List NicknameEvent) (hash : JsString),
    (nicknamesAfter events).NamedBy (lastName hash events) hash := by
  intro h
  have hnickname := (h [] (js "constructor")).nickname
  have hinherited : (nicknamesAfter []).getNickname (js "constructor") ≠ none := by decide +kernel
  exact hinherited hnickname

end Frag
