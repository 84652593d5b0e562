import Frag.Backend.Handlers
import Frag.Backend.Calls

/-!
# Expiry

The ttl of a fragment is enforced by the cleanup thread alone: the queries do not look
at the clock. A fragment whose ttl is over is therefore served until the next purge, and
never after it.

A run of the backend is a list of what reads the clock or changes the table, each at its
clock reading; the queries can be asked in any state.

## Main results

- `served_until_purge`: nothing is served that had expired at the last purge.
-/

namespace Frag

open Runs

/-! ## Runs with a clock -/

/-- A change of the table, with the clock reading at which it is made. -/
inductive Change where
  | post (body : FragmentPost Bytes) (now : Int)
  | delete (id : Bytes) (now : Int)
  | purge (now : Int)
  deriving DecidableEq

/-- The clock reading of a change. -/
def Change.now : Change → Int
  | .post _ now => now
  | .delete _ now => now
  | .purge now => now

/-- The table of a backend, its clock and the time of the last purge. -/
structure Backend where
  db : Database
  clock : Int
  purgedAt : Option Int

/-- One change. -/
def Backend.step (s : Backend) : Change → Backend
  | .post body now => { s with db := (makePostFragmentHandler s.db body now).2, clock := now }
  | .delete id now => { s with db := (s.db.deleteFragment id).2, clock := now }
  | .purge now => { db := (s.db.purgeExpired now).2, clock := now, purgedAt := some now }

/-- The clock does not go back. -/
def Backend.Forward (s : Backend) (c : Change) : Prop := s.clock ≤ c.now

instance (s : Backend) (c : Change) : Decidable (s.Forward c) :=
  inferInstanceAs (Decidable (s.clock ≤ c.now))

/-! ## The last purge -/

/-- No stored row had expired at the last purge, which is not in the future. -/
def Backend.Purged (s : Backend) : Prop :=
  ∀ p, s.purgedAt = some p → p ≤ s.clock ∧ ∀ r ∈ s.db.rows, ¬ r.Expired p

/-- A fragment stored after a clock reading had not expired at it. -/
theorem not_expired_stamped {body : FragmentPost Bytes} {now p : Int} (h : p ≤ now) :
    ¬ ((body.stamped now).map cStr).Expired p := by
  rintro ⟨hpos, hle⟩
  simp only [Fragment.ttl_map, Fragment.timestamp_map, FragmentPost.stamped] at hpos hle
  omega

theorem Backend.Purged.step {s : Backend} {c : Change} (h : s.Purged) (hc : s.Forward c) :
    (s.step c).Purged := by
  cases c with
  | post body now =>
    intro p hp
    obtain ⟨hle, hrows⟩ := h p hp
    refine ⟨le_trans hle hc, fun r hr => ?_⟩
    -- An old row, or one that is stamped with a clock not before the purge.
    rcases mem_rows_makePostFragmentHandler.mp hr with hold | ⟨-, -, rfl⟩
    · exact hrows r hold
    · exact not_expired_stamped (le_trans hle hc)
  | delete id now =>
    intro p hp
    obtain ⟨hle, hrows⟩ := h p hp
    exact ⟨le_trans hle hc, fun r hr => hrows r (List.mem_of_mem_filter hr)⟩
  | purge now =>
    -- What the purge leaves had not expired at its own clock reading.
    rintro p ⟨⟩
    exact ⟨le_refl _, fun r hr => (Database.mem_rows_purgeExpired.mp hr).2⟩

/-- **Expired fragments are served until the next purge.** In every run with a clock that
    does not go back, no query returns a fragment whose ttl was over at the last purge. -/
theorem served_until_purge {s : Backend} (hs : s.purgedAt = none) {changes : List Change}
    (h : Along Backend.step Backend.Forward s changes) {p : Int}
    (hp : (run Backend.step s changes).purgedAt = some p) :
    (∀ chatId since, ∀ x ∈ (run Backend.step s changes).db.getFragments chatId since,
      ¬ x.Expired p) ∧
    ∀ messageId, ∀ x ∈ (run Backend.step s changes).db.getMessageFragments messageId,
      ¬ x.Expired p := by
  have h0 : s.Purged := by
    intro p hp
    rw [hs] at hp
    cases hp
  have hrows := (h.invariant Backend.Purged h0 (fun s c hc hi => hi.step hc) p hp).2
  constructor
  · intro chatId since x hx
    obtain ⟨r, hr, -, -, rfl⟩ := Database.mem_getFragments.mp hx
    exact hrows r hr
  · intro messageId x hx
    obtain ⟨r, hr, -, rfl⟩ := Database.mem_getMessageFragments.mp hx
    exact hrows r hr

/-- A POST of the chat `c` with a ttl of ten seconds. -/
def shortLived (id : Bytes) : FragmentPost Bytes :=
  { id, messageId := [0x6D], chatId := [0x63], senderHash := [0x73], payload := [0x70], ttl := 10 }

/-- A backend that was just started. -/
def startedBackend : Backend := ⟨.empty, 0, none⟩

/-- A POST at second 100, one at 145, and a purge at 150. -/
def purgedBackend : Backend :=
  run Backend.step startedBackend
    [.post (shortLived [0x31]) 100, .post (shortLived [0x32]) 145, .purge 150]

/-- The fragment of second 100 is gone, and that of 145 is served. -/
theorem served_after_purge :
    (purgedBackend.db.getFragments [0x63] 0).map Fragment.id = [[0x32]] ∧
      ∀ x ∈ purgedBackend.db.getFragments [0x63] 0, ¬ x.Expired 150 :=
  ⟨by decide, (served_until_purge (s := startedBackend) rfl (by decide) rfl).1 [0x63] 0⟩

/-- A fragment of second 100 with a ttl of ten seconds is served at second 200, by both
    queries, as long as no purge has run. -/
theorem expired_is_served :
    Along Backend.step Backend.Forward startedBackend [.post (shortLived [0x31]) 100] ∧
    (∃ x ∈ (run Backend.step startedBackend [.post (shortLived [0x31]) 100]).db.getFragments
      [0x63] 0, x.Expired 200) ∧
    ∃ x ∈ (run Backend.step startedBackend [.post (shortLived [0x31]) 100]).db.getMessageFragments
      [0x6D], x.Expired 200 := by
  decide

end Frag
