import Mathlib.Data.Set.Basic
import Mathlib.Order.Basic

/-!
# Polling Below a High-Water Mark

A reader follows items that are listed by several sources. Every source stamps an
item when it lists it, and answers a fetch with the items stamped above a cursor
that the reader sends. The reader shows an item once a single fetch found it at every
source, and keeps one cursor for all sources, which it moves to stamps of items it
has shown.

`CaughtUp` is the invariant that decides whether such a reader misses anything: an
item that every source lists is shown or still above the cursor everywhere. A fetch
answered by all sources shows every complete item exactly when it holds.

## Main results

- `Fetch.shows_complete_iff`: a fetch shows all complete items iff the board is caught up;
- `CaughtUp.listing`, `CaughtUp.quiet`, `Fetch.caughtUp`: what keeps a board caught up;
- `Ahead.listing`, `Ahead.quiet`, `Ahead.fetch`: the stronger invariant for items that
  are not listed piecemeal around a fetch;
- `Anchored.fetch`, `Anchored.keep`: the cursor is at its origin or at a stamp;
- `Lost.not_fetchable`: an item with a stamp at or below the cursor cannot be fetched.
-/

namespace HighWater

universe u v w

variable {M : Type u} {S : Type v} {T : Type w} [LinearOrder T]

/-- What the sources list and what the reader knows. -/
structure Board (M : Type u) (S : Type v) (T : Type w) where
  stamp : M → S → Option T
  cursor : T
  shown : Set M

variable {sources : Set S} {β β' : Board M S T} {m : M} {s : S} {t : T}

/-- Every source lists the item. -/
def Complete (sources : Set S) (β : Board M S T) (m : M) : Prop :=
  ∀ s ∈ sources, ∃ t, β.stamp m s = some t

/-- Every source lists the item above the cursor. -/
def Fetchable (sources : Set S) (β : Board M S T) (m : M) : Prop :=
  ∀ s ∈ sources, ∃ t, β.stamp m s = some t ∧ β.cursor < t

/-- Every complete item is shown or can still be fetched. -/
def CaughtUp (sources : Set S) (β : Board M S T) : Prop :=
  ∀ m, Complete sources β m → m ∈ β.shown ∨ Fetchable sources β m

/-- Whatever is listed of an item that is not shown is above the cursor. -/
def Ahead (sources : Set S) (β : Board M S T) : Prop :=
  ∀ m ∉ β.shown, ∀ s ∈ sources, ∀ t, β.stamp m s = some t → β.cursor < t

/-- The item is not shown, and one source lists it at or below the cursor. -/
def Lost (sources : Set S) (β : Board M S T) (m : M) : Prop :=
  m ∉ β.shown ∧ ∃ s ∈ sources, ∃ t, β.stamp m s = some t ∧ t ≤ β.cursor

theorem Ahead.caughtUp (h : Ahead sources β) : CaughtUp sources β := by
  intro m hm
  by_cases hshown : m ∈ β.shown
  · exact .inl hshown
  · refine .inr fun s hs => ?_
    obtain ⟨t, ht⟩ := hm s hs
    exact ⟨t, ht, h m hshown s hs t ht⟩

/-! ## Steps -/

/-- A fetch that every source answers. -/
structure Fetch (sources : Set S) (β β' : Board M S T) : Prop where
  stamp : β'.stamp = β.stamp
  shown : ∀ m, m ∈ β'.shown ↔ m ∈ β.shown ∨ Fetchable sources β m
  le_cursor : β.cursor ≤ β'.cursor
  cursor : β'.cursor = β.cursor ∨ ∃ m, ∃ s ∈ sources, β.stamp m s = some β'.cursor

/-- A step that lists nothing: items may be withdrawn or shown by other means. -/
structure Quiet (β β' : Board M S T) : Prop where
  stamp : ∀ m s t, β'.stamp m s = some t → β.stamp m s = some t
  shown : β.shown ⊆ β'.shown
  cursor : β'.cursor = β.cursor

/-- A step in which the source `s` lists the item `m` with stamp `t`. -/
structure Listing (m : M) (s : S) (t : T) (β β' : Board M S T) : Prop where
  stamp : ∀ m' s' t', β'.stamp m' s' = some t' →
    β.stamp m' s' = some t' ∨ (m' = m ∧ s' = s ∧ t' = t)
  shown : β.shown ⊆ β'.shown
  cursor : β'.cursor = β.cursor

/-! ## Fetches -/

theorem Fetch.complete_iff (h : Fetch sources β β') :
    Complete sources β' m ↔ Complete sources β m := by
  simp only [Complete, h.stamp]

/-- **Exactness**: a fetch shows every complete item iff the board was caught up. -/
theorem Fetch.shows_complete_iff (h : Fetch sources β β') :
    (∀ m, Complete sources β' m → m ∈ β'.shown) ↔ CaughtUp sources β := by
  simp only [h.complete_iff, h.shown, CaughtUp]

/-- After a fetch of a caught-up board nothing complete is missing. -/
theorem Fetch.caughtUp (h : Fetch sources β β') (hup : CaughtUp sources β) :
    CaughtUp sources β' :=
  fun m hm => .inl (h.shows_complete_iff.mpr hup m hm)

/-- A fetch that finds no item listed in part leaves nothing under the cursor. -/
theorem Ahead.fetch (hahead : Ahead sources β) (h : Fetch sources β β')
    (hwhole : ∀ m, Complete sources β m ∨ ∀ s ∈ sources, β.stamp m s = none) :
    Ahead sources β' := by
  intro m hm s hs t ht
  rcases hwhole m with hcomplete | hnone
  · exact absurd (h.shows_complete_iff.mpr hahead.caughtUp m (h.complete_iff.mpr hcomplete)) hm
  · rw [h.stamp, hnone s hs] at ht
    cases ht

/-- A lost item cannot be fetched. -/
theorem Lost.not_fetchable (hlost : Lost sources β m) : ¬ Fetchable sources β m := by
  obtain ⟨-, s, hs, t, ht, hle⟩ := hlost
  intro hfetch
  obtain ⟨t', ht', hlt⟩ := hfetch s hs
  obtain rfl : t = t' := Option.some.inj (ht.symm.trans ht')
  exact absurd hlt (not_lt.mpr hle)

/-! ## Listings and quiet steps -/

omit [LinearOrder T] in
theorem Quiet.refl (β : Board M S T) : Quiet β β :=
  ⟨fun _ _ _ h => h, fun _ h => h, rfl⟩

theorem CaughtUp.quiet (hup : CaughtUp sources β) (h : Quiet β β') : CaughtUp sources β' := by
  intro m hm
  have hold : Complete sources β m := fun s hs =>
    let ⟨t, ht⟩ := hm s hs
    ⟨t, h.stamp m s t ht⟩
  rcases hup m hold with hshown | hfetch
  · exact .inl (h.shown hshown)
  · refine .inr fun s hs => ?_
    obtain ⟨t, ht⟩ := hm s hs
    obtain ⟨t', ht', hlt⟩ := hfetch s hs
    obtain rfl : t = t' := Option.some.inj ((h.stamp m s t ht).symm.trans ht')
    exact ⟨t, ht, h.cursor ▸ hlt⟩

theorem Ahead.quiet (hahead : Ahead sources β) (h : Quiet β β') : Ahead sources β' := by
  intro m hm s hs t ht
  rw [h.cursor]
  exact hahead m (fun hold => hm (h.shown hold)) s hs t (h.stamp m s t ht)

/-- A listing keeps the board caught up if the item, should it become complete, can
    be fetched. -/
theorem CaughtUp.listing (hup : CaughtUp sources β) (h : Listing m s t β β')
    (hm : Complete sources β' m → m ∈ β'.shown ∨ Fetchable sources β' m) :
    CaughtUp sources β' := by
  intro m' hm'
  by_cases heq : m' = m
  · exact heq ▸ hm (heq ▸ hm')
  have hstamp : ∀ s' t', β'.stamp m' s' = some t' → β.stamp m' s' = some t' := by
    intro s' t' ht'
    rcases h.stamp m' s' t' ht' with hold | ⟨hmm, -, -⟩
    · exact hold
    · exact absurd hmm heq
  have hold : Complete sources β m' := fun s' hs' =>
    let ⟨t', ht'⟩ := hm' s' hs'
    ⟨t', hstamp s' t' ht'⟩
  rcases hup m' hold with hshown | hfetch
  · exact .inl (h.shown hshown)
  · refine .inr fun s' hs' => ?_
    obtain ⟨t', ht'⟩ := hm' s' hs'
    obtain ⟨t'', ht'', hlt⟩ := hfetch s' hs'
    obtain rfl : t' = t'' := Option.some.inj ((hstamp s' t' ht').symm.trans ht'')
    exact ⟨t', ht', h.cursor ▸ hlt⟩

/-- A listing above the cursor leaves nothing under it. -/
theorem Ahead.listing (hahead : Ahead sources β) (h : Listing m s t β β') (hlt : β.cursor < t) :
    Ahead sources β' := by
  intro m' hm' s' hs' t' ht'
  rw [h.cursor]
  rcases h.stamp m' s' t' ht' with hold | ⟨-, -, rfl⟩
  · exact hahead m' (fun hshown => hm' (h.shown hshown)) s' hs' t' hold
  · exact hlt

/-! ## Where the cursor is -/

/-- The cursor is where it started or at a stamp that is still listed. -/
def Anchored (sources : Set S) (origin : T) (β : Board M S T) : Prop :=
  β.cursor = origin ∨ ∃ m, ∃ s ∈ sources, β.stamp m s = some β.cursor

theorem Anchored.fetch {origin : T} (hanchor : Anchored sources origin β)
    (h : Fetch sources β β') : Anchored sources origin β' := by
  rcases h.cursor with heq | ⟨m, s, hs, ht⟩
  · rwa [Anchored, heq, h.stamp]
  · exact .inr ⟨m, s, hs, by rw [h.stamp, ht]⟩

omit [LinearOrder T] in
/-- Nothing is withdrawn, and the cursor stays. -/
theorem Anchored.keep {origin : T} (hanchor : Anchored sources origin β)
    (hstamp : ∀ m, ∀ s ∈ sources, ∀ t, β.stamp m s = some t → β'.stamp m s = some t)
    (hcursor : β'.cursor = β.cursor) : Anchored sources origin β' := by
  rcases hanchor with heq | ⟨m, s, hs, ht⟩
  · exact .inl (hcursor.trans heq)
  · exact .inr ⟨m, s, hs, hcursor ▸ hstamp m s hs _ ht⟩

end HighWater
