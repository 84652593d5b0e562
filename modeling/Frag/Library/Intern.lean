import Mathlib.Data.List.Basic
import Mathlib.Data.List.Nodup
import Mathlib.Data.List.Infix

/-!
# Finding or Adding Records

Entries are resolved against a list of records, one after the other: the first record that
answers an entry, or else one that is made from it and added at the end. An entry from which
no record can be made ends the resolution; what was added before stays.

Nothing says that a record answers the entry it was made from.

## Main results

- `resolveAll_fst_eq_iff`: when a resolution that fails has added nothing;
- `resolveAll_again_iff`: when resolving the entries again gives the same records.
-/

namespace Intern

universe u v w

variable {R : Type u} {E : Type v} {I : Type w} (answers : R → E → Bool) (make : I → E → Option R)

/-- The records after resolving some entries, and the record of each, unless one failed. The
    `k`-th entry is given the `k`-th of the fresh names. -/
def resolveAll (fresh : Nat → I) (rs : List R) : List E → List R × Option (List R)
  | [] => (rs, some [])
  | e :: es =>
    match rs.find? (answers · e) with
    | some r =>
      let (rs', out) := resolveAll (fun k => fresh (k + 1)) rs es
      (rs', out.map (r :: ·))
    | none =>
      match make (fresh 0) e with
      | none => (rs, none)
      | some r =>
        let (rs', out) := resolveAll (fun k => fresh (k + 1)) (rs ++ [r]) es
        (rs', out.map (r :: ·))

/-- Some record answers the entry. -/
def known (rs : List R) (e : E) : Bool := rs.any (answers · e)

variable {answers make} {fresh fresh' : Nat → I} {rs rs' out : List R} {e : E} {es : List E} {r : R}

theorem answers_of_find? (h : rs.find? (answers · e) = some r) : answers r e = true := by
  have hanswers := List.find?_some h
  exact hanswers

theorem find?_of_known (h : known answers rs e = true) :
    ∃ r ∈ rs, rs.find? (answers · e) = some r ∧ answers r e = true := by
  have hsome : (rs.find? (answers · e)).isSome := by
    rw [List.find?_isSome]
    exact List.any_eq_true.mp h
  obtain ⟨r, hr⟩ := Option.isSome_iff_exists.mp hsome
  exact ⟨r, List.mem_of_find?_eq_some hr, hr, answers_of_find? hr⟩

theorem find?_of_not_known (h : known answers rs e = false) : rs.find? (answers · e) = none := by
  rw [List.find?_eq_none]
  intro r hr hanswers
  exact Bool.eq_false_iff.mp h (List.any_eq_true.mpr ⟨r, hr, hanswers⟩)

/-! ## One entry -/

theorem resolveAll_found (h : rs.find? (answers · e) = some r) :
    resolveAll answers make fresh rs (e :: es) =
      ((resolveAll answers make (fun k => fresh (k + 1)) rs es).1,
        (resolveAll answers make (fun k => fresh (k + 1)) rs es).2.map (r :: ·)) := by
  rw [resolveAll, h]

theorem resolveAll_made (h : rs.find? (answers · e) = none) (hmake : make (fresh 0) e = some r) :
    resolveAll answers make fresh rs (e :: es) =
      ((resolveAll answers make (fun k => fresh (k + 1)) (rs ++ [r]) es).1,
        (resolveAll answers make (fun k => fresh (k + 1)) (rs ++ [r]) es).2.map (r :: ·)) := by
  rw [resolveAll, h]
  simp only [hmake]

theorem resolveAll_failed (h : rs.find? (answers · e) = none) (hmake : make (fresh 0) e = none) :
    resolveAll answers make fresh rs (e :: es) = (rs, none) := by
  rw [resolveAll, h]
  simp only [hmake]

/-- How the first entry of a resolution that succeeds got its record. -/
theorem resolveAll_cons_eq_some (h : resolveAll answers make fresh rs (e :: es) = (rs', some out)) :
    ∃ r out', out = r :: out' ∧
      (rs.find? (answers · e) = some r ∧
          resolveAll answers make (fun k => fresh (k + 1)) rs es = (rs', some out') ∨
        rs.find? (answers · e) = none ∧ make (fresh 0) e = some r ∧
          resolveAll answers make (fun k => fresh (k + 1)) (rs ++ [r]) es = (rs', some out')) := by
  cases hfind : rs.find? (answers · e) with
  | some r =>
    rw [resolveAll_found hfind, Prod.mk.injEq, Option.map_eq_some_iff] at h
    obtain ⟨hfst, out', hout, rfl⟩ := h
    exact ⟨r, out', rfl, .inl ⟨rfl, Prod.ext hfst hout⟩⟩
  | none =>
    cases hmade : make (fresh 0) e with
    | none =>
      rw [resolveAll_failed hfind hmade] at h
      cases h
    | some r =>
      rw [resolveAll_made hfind hmade, Prod.mk.injEq, Option.map_eq_some_iff] at h
      obtain ⟨hfst, out', hout, rfl⟩ := h
      exact ⟨r, out', rfl, .inr ⟨rfl, rfl, Prod.ext hfst hout⟩⟩

/-! ## All entries -/

/-- Records are added at the end. -/
theorem prefix_resolveAll (answers : R → E → Bool) (make : I → E → Option R) (fresh : Nat → I)
    (rs : List R) (es : List E) :
    rs <+: (resolveAll answers make fresh rs es).1 := by
  induction es generalizing fresh rs with
  | nil => exact List.prefix_rfl
  | cons e es ih =>
    cases hfind : rs.find? (answers · e) with
    | some r =>
      rw [resolveAll_found hfind]
      exact ih _ rs
    | none =>
      cases hmake : make (fresh 0) e with
      | none =>
        rw [resolveAll_failed hfind hmake]
      | some r =>
        rw [resolveAll_made hfind hmake]
        exact (List.prefix_append rs [r]).trans (ih _ (rs ++ [r]))

/-- **A resolution that fails has added nothing** iff it is the first unknown entry that
    fails. Which entries fail does not depend on the names. -/
theorem resolveAll_fst_eq_iff (hmake : ∀ i j e, make i e = none → make j e = none)
    (hfails : (resolveAll answers make fresh rs es).2 = none) :
    (resolveAll answers make fresh rs es).1 = rs ↔
      ∀ e ∈ (es.dropWhile (known answers rs)).head?, make (fresh 0) e = none := by
  induction es generalizing fresh with
  | nil => cases hfails
  | cons e es ih =>
    cases hknown : known answers rs e with
    | true =>
      obtain ⟨r, -, hfind, -⟩ := find?_of_known hknown
      rw [resolveAll_found hfind] at hfails ⊢
      rw [ih (Option.map_eq_none_iff.mp hfails), List.dropWhile_cons_of_pos hknown]
      constructor
      · intro h e he
        exact hmake _ _ e (h e he)
      · intro h e he
        exact hmake _ _ e (h e he)
    | false =>
      have hfind := find?_of_not_known hknown
      rw [List.dropWhile_cons_of_neg (by simp [hknown])]
      cases hmade : make (fresh 0) e with
      | none =>
        rw [resolveAll_failed hfind hmade]
        simp [hmade]
      | some r =>
        -- The record that is made stays, although a later entry fails.
        rw [resolveAll_made hfind hmade]
        have hlonger := (prefix_resolveAll answers make
          (fun k => fresh (k + 1)) (rs ++ [r]) es).length_le
        constructor
        · intro heq
          rw [heq, List.length_append, List.length_singleton] at hlonger
          omega
        · intro h
          rw [h e rfl] at hmade
          cases hmade

/-- The record of an entry is the first one in the end that answers it, if it does. -/
theorem find?_resolveAll (h : resolveAll answers make fresh rs es = (rs', some out)) :
    out.length = es.length ∧ ∀ p ∈ es.zip out, p.2 ∈ rs' ∧
      (rs'.find? (answers · p.1) = some p.2 ↔ answers p.2 p.1 = true) := by
  induction es generalizing fresh rs out with
  | nil =>
    cases h
    exact ⟨rfl, nofun⟩
  | cons e es ih =>
    obtain ⟨r, out, rfl, ⟨hfind, hrest⟩ | ⟨hfind, -, hrest⟩⟩ := resolveAll_cons_eq_some h
    · obtain ⟨hlength, hrecords⟩ := ih hrest
      refine ⟨congrArg (· + 1) hlength, ?_⟩
      rw [List.zip_cons_cons, List.forall_mem_cons]
      refine ⟨?_, hrecords⟩
      -- What was found stays the first one.
      have hgrown := prefix_resolveAll answers make (fun k => fresh (k + 1)) rs es
      rw [hrest] at hgrown
      obtain ⟨more, rfl⟩ := hgrown
      have hlater : (rs ++ more).find? (answers · e) = some r := by
        rw [List.find?_append, hfind, Option.some_or]
      exact ⟨List.mem_append_left _ (List.mem_of_find?_eq_some hfind),
        ⟨fun _ => answers_of_find? hfind, fun _ => hlater⟩⟩
    · obtain ⟨hlength, hrecords⟩ := ih hrest
      refine ⟨congrArg (· + 1) hlength, ?_⟩
      rw [List.zip_cons_cons, List.forall_mem_cons]
      refine ⟨?_, hrecords⟩
      -- No earlier record answers the entry; the one made from it may, or may not.
      have hgrown := prefix_resolveAll answers make (fun k => fresh (k + 1)) (rs ++ [r]) es
      rw [hrest] at hgrown
      obtain ⟨more, rfl⟩ := hgrown
      refine ⟨by simp, answers_of_find?, fun hanswers => ?_⟩
      rw [List.find?_append, List.find?_append, hfind, Option.none_or]
      simp [hanswers]

theorem mem_of_resolveAll (h : resolveAll answers make fresh rs es = (rs', some out)) :
    ∀ r ∈ out, r ∈ rs' := by
  obtain ⟨hlength, hrecords⟩ := find?_resolveAll h
  intro r hr
  obtain ⟨k, hk, rfl⟩ := List.mem_iff_getElem.mp hr
  have hk' : k < (es.zip out).length := by
    rw [List.length_zip]
    omega
  have hmem := (hrecords _ (List.getElem_mem hk')).1
  rwa [List.getElem_zip] at hmem

/-- Every entry has its record. -/
theorem exists_mem_zip (h : resolveAll answers make fresh rs es = (rs', some out)) (he : e ∈ es) :
    ∃ r, (e, r) ∈ es.zip out := by
  obtain ⟨k, hk, rfl⟩ := List.mem_iff_getElem.mp he
  have hlength := (find?_resolveAll h).1
  have hk' : k < (es.zip out).length := by
    rw [List.length_zip]
    omega
  refine ⟨out[k], ?_⟩
  rw [← List.getElem_zip (h := hk')]
  exact List.getElem_mem _

/-- **Resolving again gives the same records and adds none** iff each record answers the entry
    it was given for. -/
theorem resolveAll_again_iff (h : resolveAll answers make fresh rs es = (rs', some out)) :
    resolveAll answers make fresh' rs' es = (rs', some out) ↔
      ∀ p ∈ es.zip out, answers p.2 p.1 = true := by
  obtain ⟨hlength, hrecords⟩ := find?_resolveAll h
  have hfinds : (∀ p ∈ es.zip out, answers p.2 p.1 = true) ↔
      ∀ p ∈ es.zip out, rs'.find? (answers · p.1) = some p.2 :=
    forall₂_congr fun p hp => (hrecords p hp).2.symm
  rw [hfinds]
  clear h hrecords hfinds
  -- The records do not change any more, so the entries can be looked at one by one.
  induction es generalizing fresh' out with
  | nil =>
    obtain rfl := List.length_eq_zero_iff.mp hlength
    exact ⟨fun _ => nofun, fun _ => rfl⟩
  | cons e es ih =>
    obtain ⟨r, out, rfl⟩ := List.exists_cons_of_length_eq_add_one hlength
    rw [List.zip_cons_cons, List.forall_mem_cons]
    cases hfind : rs'.find? (answers · e) with
    | some r' =>
      rw [resolveAll_found hfind, Prod.mk.injEq, Option.map_eq_some_iff, Option.some.injEq]
      constructor
      · rintro ⟨hfst, out', hout, heq⟩
        obtain ⟨rfl, rfl⟩ := List.cons.inj heq
        exact ⟨rfl, (ih (Nat.succ.inj hlength)).mp (Prod.ext hfst hout)⟩
      · rintro ⟨rfl, hrest⟩
        rw [(ih (Nat.succ.inj hlength)).mpr hrest]
        exact ⟨rfl, out, rfl, rfl⟩
    | none =>
      constructor
      · intro hagain
        cases hmade : make (fresh' 0) e with
        | none =>
          rw [resolveAll_failed hfind hmade] at hagain
          cases hagain
        | some r' =>
          -- A record would be added.
          have hlonger := (prefix_resolveAll answers make
            (fun k => fresh' (k + 1)) (rs' ++ [r']) es).length_le
          rw [resolveAll_made hfind hmade, Prod.mk.injEq] at hagain
          rw [hagain.1, List.length_append, List.length_singleton] at hlonger
          omega
      · rintro ⟨hnone, -⟩
        cases hnone

/-! ## Records made from entries -/

theorem known_append (h : known answers rs e = true) (more : List R) :
    known answers (rs ++ more) e = true := by
  rw [known, List.any_append, ← known, h, Bool.true_or]

/-- Where the record of an entry comes from: it answers the entry, or it was made from it when
    no record did; and it was there before, or was made from an entry. -/
theorem origin_of_resolveAll (h : resolveAll answers make fresh rs es = (rs', some out)) :
    ∀ p ∈ es.zip out,
      (answers p.2 p.1 = true ∨ known answers rs p.1 = false ∧ ∃ i, make i p.1 = some p.2) ∧
      (p.2 ∈ rs ∨ ∃ e, (e, p.2) ∈ es.zip out ∧ ∃ i, make i e = some p.2) := by
  induction es generalizing fresh rs out with
  | nil => exact nofun
  | cons e es ih =>
    obtain ⟨r, out, rfl, ⟨hfind, hrest⟩ | ⟨hfind, hmade, hrest⟩⟩ := resolveAll_cons_eq_some h
    · rw [List.zip_cons_cons, List.forall_mem_cons]
      refine ⟨⟨.inl (answers_of_find? hfind), .inl (List.mem_of_find?_eq_some hfind)⟩, ?_⟩
      intro p hp
      obtain ⟨hleft, hright⟩ := ih hrest p hp
      exact ⟨hleft, hright.imp_right fun ⟨e', he', hmade⟩ => ⟨e', List.mem_cons_of_mem _ he', hmade⟩⟩
    · -- A record is made only if none is found.
      have hunknown : known answers rs e = false := by
        rw [← Bool.not_eq_true]
        intro hknown
        obtain ⟨r', -, hfind', -⟩ := find?_of_known hknown
        rw [hfind] at hfind'
        cases hfind'
      rw [List.zip_cons_cons, List.forall_mem_cons]
      refine ⟨⟨.inr ⟨hunknown, fresh 0, hmade⟩, .inr ⟨e, List.mem_cons_self, fresh 0, hmade⟩⟩, ?_⟩
      intro p hp
      obtain ⟨hleft, hright⟩ := ih hrest p hp
      constructor
      · -- What was unknown with one record more was unknown before.
        refine hleft.imp_right fun ⟨hnot, hmade'⟩ => ⟨?_, hmade'⟩
        rw [← Bool.not_eq_true] at hnot ⊢
        exact fun hknown => hnot (known_append hknown [r])
      · rcases hright with hmem | ⟨e', he', hmade'⟩
        · rcases List.mem_append.mp hmem with hmem | hmem
          · exact .inl hmem
          · -- The record that was just made.
            rw [List.mem_singleton] at hmem
            exact .inr ⟨e, hmem ▸ List.mem_cons_self, fresh 0, hmem ▸ hmade⟩
        · exact .inr ⟨e', List.mem_cons_of_mem _ he', hmade'⟩

/-- Each record answers its entry iff each entry was known at the start or is plain. What is
    made from a plain entry answers it, and an entry is plain if it is answered by a record
    that was made from an entry which it answers. -/
theorem forall_answers_iff {plain : E → Prop}
    (hself : ∀ e, plain e → ∀ i r, make i e = some r → answers r e = true)
    (hplain : ∀ i e e' r, make i e' = some r → answers r e' = true → answers r e = true → plain e)
    (h : resolveAll answers make fresh rs es = (rs', some out)) :
    (∀ p ∈ es.zip out, answers p.2 p.1 = true) ↔
      ∀ e ∈ es, known answers rs e = true ∨ plain e := by
  have horigin := origin_of_resolveAll h
  constructor
  · intro hall e he
    obtain ⟨r, hr⟩ := exists_mem_zip h he
    have hanswers := hall _ hr
    rcases (horigin _ hr).2 with hmem | ⟨e', he', i, hmade⟩
    · exact .inl (List.any_eq_true.mpr ⟨r, hmem, hanswers⟩)
    · exact .inr (hplain i e e' r hmade (hall _ he') hanswers)
  · intro hall p hp
    rcases (horigin p hp).1 with hanswers | ⟨hunknown, i, hmade⟩
    · exact hanswers
    · rcases hall p.1 (List.of_mem_zip hp).1 with hknown | hp'
      · rw [hunknown] at hknown
        cases hknown
      · exact hself p.1 hp' i p.2 hmade

/-! ## Names -/

universe k

/-- Fresh names keep the names of the records apart. -/
theorem nodup_resolveAll {K : Type k} {name : R → K} {fresh : Nat → K} {make : K → E → Option R}
    (hname : ∀ i e r, make i e = some r → name r = i) (hrs : (rs.map name).Nodup)
    (hfresh : Function.Injective fresh) (hnew : ∀ i, fresh i ∉ rs.map name) :
    (((resolveAll answers make fresh rs es).1).map name).Nodup := by
  induction es generalizing fresh rs with
  | nil => exact hrs
  | cons e es ih =>
    have hshift : Function.Injective fun i => fresh (i + 1) := fun i j h =>
      Nat.succ.inj (hfresh h)
    cases hfind : rs.find? (answers · e) with
    | some r =>
      rw [resolveAll_found hfind]
      exact ih hrs hshift fun i => hnew (i + 1)
    | none =>
      cases hmade : make (fresh 0) e with
      | none =>
        rw [resolveAll_failed hfind hmade]
        exact hrs
      | some r =>
        -- The name of the new record is the first fresh one, and the next ones are others.
        rw [resolveAll_made hfind hmade]
        have hr := hname _ _ _ hmade
        apply ih
        · rw [List.map_append, List.map_singleton, hr]
          exact List.Nodup.append hrs (List.nodup_singleton _)
            (List.disjoint_singleton.mpr (hnew 0))
        · exact hshift
        · intro i hmem
          rw [List.map_append, List.map_singleton, hr, List.mem_append, List.mem_singleton] at hmem
          rcases hmem with hmem | heq
          · exact hnew (i + 1) hmem
          · exact absurd (hfresh heq) (Nat.succ_ne_zero i)

/-- Names that are apart tell the records that were given. -/
theorem eq_of_map_name_eq {K : Type k} {name : R → K} {out' : List R} (hrs : (rs.map name).Nodup)
    (hout : ∀ r ∈ out, r ∈ rs) (hout' : ∀ r ∈ out', r ∈ rs) (h : out.map name = out'.map name) :
    out = out' := by
  have hlength : out.length = out'.length := by
    have heq := congrArg List.length h
    rwa [List.length_map, List.length_map] at heq
  refine List.ext_getElem hlength fun k hk hk' => ?_
  apply List.inj_on_of_nodup_map hrs (hout _ (List.getElem_mem hk)) (hout' _ (List.getElem_mem hk'))
  have hget := List.getElem_of_eq h (by rwa [List.length_map])
  rwa [List.getElem_map, List.getElem_map] at hget

end Intern
