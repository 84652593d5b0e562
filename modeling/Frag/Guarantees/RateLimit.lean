import Frag.Backend.RateLimiter

/-!
# Requests in Any Minute

The limiter promises at most `max_per_minute` requests of an address within any 60 seconds.
It counts within windows of its own, one after the other: when it opens a new window, it
forgets the requests it has just allowed.

## Main results

- `promise_kept`: the promise, in runs in which no window that is opened forgets a request of
  the last minute;
- `promise_broken`: once one is forgotten, calls at the same time break the promise.
-/

namespace Frag

open Runs Windows RateLimiter

namespace RateLimiter.Session

/-- A minute in nanoseconds. -/
def minute : Int := 60000000000

/-! ## Conditions on a call -/

/-- The clock does not go back. -/
def NonDecreasing (s : Session) (c : Attempt) : Prop := ∀ g ∈ s.log, g.1.now ≤ c.now

/-- A call that opens a window finds no request of its client that was allowed in the last
    minute. -/
def ForgetsNothing (s : Session) (c : Attempt) : Prop :=
  s.Opens c → ∀ t ∈ s.grants c.ip, t + minute ≤ c.now

/-- The counter of the client does not overflow. -/
def CounterFits (s : Session) (c : Attempt) : Prop := ¬ s.Opens c → (s.entry c.ip).count < 2147483647

instance (s : Session) (c : Attempt) : Decidable (s.NonDecreasing c) :=
  inferInstanceAs (Decidable (∀ g ∈ s.log, _))

instance (s : Session) (c : Attempt) : Decidable (s.ForgetsNothing c) :=
  inferInstanceAs (Decidable (_ → ∀ t ∈ s.grants c.ip, _))

instance (s : Session) (c : Attempt) : Decidable (s.CounterFits c) :=
  inferInstanceAs (Decidable (_ → _))

/-! ## The windows of a client -/

variable {s : Session} {c : Attempt} {ip : Bytes} {max : Int}

/-- The requests of a client that were allowed: those before the current window, all of them
    a minute before its start, and those of the window, which the counter has counted. -/
structure Windowed (s : Session) (ip : Bytes) (max : Int) (old cur : List Int) : Prop where
  limit : s.limiter.max = max
  grants : s.grants ip = old ++ cur
  bounded : Bounded minute max.toNat old
  counted : (cur.length : Int) ≤ (s.entry ip).count
  within : cur.length ≤ max.toNat
  before : ∀ t ∈ old, t + minute ≤ (s.entry ip).windowStart
  since : old ≠ [] → ∀ u ∈ cur, (s.entry ip).windowStart ≤ u
  opened : old ≠ [] → ∃ g ∈ s.log, (s.entry ip).windowStart ≤ g.1.now

theorem Windowed.start (max : Int) (ip : Bytes) : Windowed (start max) ip max [] [] where
  limit := rfl
  grants := rfl
  bounded := .nil
  counted := Int.le_refl 0
  within := Nat.zero_le _
  before _ ht := absurd ht List.not_mem_nil
  since h := absurd rfl h
  opened h := absurd rfl h

/-- The promise holds while the requests are windowed. -/
theorem Windowed.promise {old cur : List Int} (h : Windowed s ip max old cur) :
    Bounded minute max.toNat (s.grants ip) := by
  rw [h.grants]
  refine h.bounded.append h.within fun t ht u hu => ?_
  exact Int.le_trans (h.before t ht) (h.since (List.ne_nil_of_mem ht) u hu)

theorem mem_log_step {g : Attempt × Bool} (h : g ∈ s.log) : g ∈ (s.step c).log :=
  List.mem_append_left _ h

/-- What one call preserves. -/
theorem Windowed.step {old cur : List Int} (h : Windowed s ip max old cur) (hmax : 1 ≤ max)
    (hclock : s.NonDecreasing c) (hforgets : s.ForgetsNothing c) (hfits : s.CounterFits c) :
    ∃ old' cur', Windowed (s.step c) ip max old' cur' := by
  have hlimit : 0 < s.limiter.max := h.limit ▸ Int.lt_of_lt_of_le (by decide) hmax
  by_cases hip : c.ip = ip
  · subst hip
    by_cases hopens : s.Opens c
    · -- Everything allowed so far is a minute old; the call is the first of the new window.
      obtain ⟨hgrants, hentry⟩ := step_of_opens hlimit hopens
      refine ⟨s.grants c.ip, [c.now], max_step.trans h.limit, hgrants, h.promise, ?_, ?_, ?_, ?_, ?_⟩
      · rw [hentry]
        exact Int.le_refl 1
      · rw [List.length_singleton]
        omega
      · rw [hentry]
        exact hforgets hopens
      · intro _ u hu
        rw [hentry, List.mem_singleton.mp hu]
      · intro _
        rw [hentry]
        exact ⟨(c, _), List.mem_append_right _ List.mem_cons_self, Int.le_refl _⟩
    · obtain ⟨hgrants, hentry⟩ := step_of_not_opens hlimit hopens
      have hcounted := h.counted
      have hroom := hfits hopens
      rw [wrapInt_of_fits (by omega) (by omega)] at hgrants hentry
      rw [h.limit] at hgrants
      -- The call belongs to the current window, if it is allowed.
      refine ⟨old, cur ++ (if (s.entry c.ip).count + 1 ≤ max then [c.now] else []),
        max_step.trans h.limit, ?_, h.bounded, ?_, ?_, ?_, ?_, ?_⟩
      · rw [hgrants, h.grants, List.append_assoc]
      · rw [hentry]
        change _ ≤ (s.entry c.ip).count + 1
        split
        · rw [List.length_append, List.length_singleton]
          omega
        · rw [List.append_nil]
          omega
      · split
        · rw [List.length_append, List.length_singleton]
          omega
        · rw [List.append_nil]
          exact h.within
      · rw [hentry]
        exact h.before
      · intro hold u hu
        rw [hentry]
        rcases List.mem_append.mp hu with hu | hu
        · exact h.since hold u hu
        · split at hu
          · rw [List.mem_singleton.mp hu]
            obtain ⟨g, hg, hstart⟩ := h.opened hold
            exact Int.le_trans hstart (hclock g hg)
          · cases hu
      · intro hold
        rw [hentry]
        obtain ⟨g, hg, hstart⟩ := h.opened hold
        exact ⟨g, mem_log_step hg, hstart⟩
  · -- The call of another client leaves the entry as it is.
    have hentry := entry_step_of_ne (s := s) hip
    refine ⟨old, cur, max_step.trans h.limit, (grants_step_of_ne hip).trans h.grants, h.bounded,
      ?_, h.within, ?_, ?_, ?_⟩
    · rw [hentry]
      exact h.counted
    · rw [hentry]
      exact h.before
    · rw [hentry]
      exact h.since
    · intro hold
      rw [hentry]
      obtain ⟨g, hg, hstart⟩ := h.opened hold
      exact ⟨g, mem_log_step hg, hstart⟩

/-- **The limiter keeps its promise**: for every limit, every run of calls of any clients in
    the order of a clock and every client, no 60 seconds have more than `max` calls that were
    allowed, if no window that is opened forgets a request of the last minute. -/
theorem promise_kept {max : Int} (hmax : 1 ≤ max) {calls : List Attempt}
    (h : Along step (fun s c => s.NonDecreasing c ∧ s.ForgetsNothing c ∧ s.CounterFits c)
      (start max) calls) (ip : Bytes) :
    Bounded minute max.toNat ((run step (start max) calls).grants ip) := by
  obtain ⟨old, cur, hwindowed⟩ := h.invariant (fun s => ∃ old cur, Windowed s ip max old cur)
    ⟨[], [], .start max ip⟩ fun s c hok ⟨old, cur, hs⟩ => hs.step hmax hok.1 hok.2.1 hok.2.2
  exact hwindowed.promise

/-- A client that calls at spread out times. -/
def calmCalls : List Attempt := [100, 110, 120, 200].map fun t : Int => ⟨[], t * 1000000000⟩

/-- The third call is denied, and the last one opens a window. -/
theorem calm_calls_keep_promise :
    let s := run step (start 2) calmCalls
    s.log.map Prod.snd = [true, true, false, true] ∧ Bounded minute (2 : Int).toNat (s.grants []) :=
  ⟨by decide, promise_kept (by decide) (by decide) []⟩

/-- A client that calls at the end of a window and at the start of the next one. -/
def burstCalls : List Attempt := [100, 159, 160, 161].map fun t : Int => ⟨[], t * 1000000000⟩

/-- Three requests are allowed within two seconds. -/
theorem burst_exceeds_promise :
    Along step NonDecreasing (start 2) burstCalls ∧
      ¬ Bounded minute (2 : Int).toNat ((run step (start 2) burstCalls).grants []) := by
  refine ⟨by decide, fun h => ?_⟩
  have hcount : countIn minute 159000000000 ((run step (start 2) burstCalls).grants []) = 3 := by
    decide
  have hle := h 159000000000
  rw [hcount] at hle
  exact absurd hle (by decide)

/-! ## A request that is forgotten -/

/-- Calls at the time at which a window was opened. -/
theorem run_replicate {max : Int} (hint : max ≤ 2147483647) (hlimit : s.limiter.max = max)
    (hopens : s.Opens c) {k : Nat} (hk : (k : Int) + 1 ≤ max) :
    let s' := run step (s.step c) (List.replicate k c)
    s'.limiter.max = max ∧ s'.entry c.ip = ⟨c.now, k + 1⟩ ∧
      s'.grants c.ip = s.grants c.ip ++ List.replicate (k + 1) c.now := by
  induction k with
  | zero =>
    obtain ⟨hgrants, hentry⟩ := step_of_opens (by omega) hopens
    exact ⟨max_step.trans hlimit, hentry, hgrants⟩
  | succ k ih =>
    obtain ⟨hmax, hentry, hgrants⟩ := ih (by omega)
    simp only
    rw [List.replicate_succ', run_concat]
    generalize run step (s.step c) (List.replicate k c) = s' at hmax hentry hgrants ⊢
    -- No time has passed, so the window stays and its count goes up.
    have hsame : ¬ s'.Opens c := by
      rw [Opens, elapsed_iff, hentry]
      simp only
      omega
    obtain ⟨hgrants', hentry'⟩ := step_of_not_opens (by omega) hsame
    rw [hentry] at hgrants' hentry'
    simp only at hgrants' hentry'
    rw [wrapInt_of_fits (by omega) (by omega)] at hgrants' hentry'
    rw [if_pos (by omega)] at hgrants'
    refine ⟨max_step.trans hmax, hentry', ?_⟩
    rw [hgrants', hgrants, List.append_assoc, ← List.replicate_succ']

/-- **A forgotten request breaks the promise**: where a window is opened within a minute of a
    request that was allowed, `max` calls at that time are one too many. -/
theorem promise_broken {max : Int} (hmax : 1 ≤ max) (hint : max ≤ 2147483647)
    (hlimit : s.limiter.max = max) (hclock : s.NonDecreasing c) (hforgets : ¬ s.ForgetsNothing c) :
    ¬ Bounded minute max.toNat ((run step s (List.replicate max.toNat c)).grants c.ip) := by
  rw [ForgetsNothing, Classical.not_imp] at hforgets
  obtain ⟨hopens, hforgets⟩ := hforgets
  push Not at hforgets
  obtain ⟨t, ht, hrecent⟩ := hforgets
  have hle : t ≤ c.now := by
    obtain ⟨g, hg, rfl⟩ := List.mem_map.mp ht
    exact hclock g (List.mem_filter.mp hg).1
  obtain ⟨k, hk⟩ : ∃ k, max.toNat = k + 1 := ⟨max.toNat - 1, by omega⟩
  obtain ⟨-, -, hgrants⟩ := run_replicate hint hlimit hopens (k := k) (by omega)
  rw [hk, List.replicate_succ, run_cons, hgrants]
  intro hbounded
  have hcount := hbounded t
  -- The minute from the forgotten request on has that request and all the calls.
  have hburst : countIn minute t (List.replicate (k + 1) c.now) = k + 1 := by
    rw [countIn_eq_length, List.length_replicate]
    intro u hu
    rw [List.eq_of_mem_replicate hu]
    exact ⟨hle, hrecent⟩
  have hfirst : 0 < countIn minute t (s.grants c.ip) := by
    refine List.countP_pos_iff.mpr ⟨t, ht, decide_eq_true ⟨Int.le_refl t, ?_⟩⟩
    have hminute : (0 : Int) < minute := by decide
    omega
  rw [countIn_append, hburst] at hcount
  omega

end RateLimiter.Session

end Frag
