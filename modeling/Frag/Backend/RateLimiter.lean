import Frag.Basic
import Frag.Library.Runs
import Frag.Library.Windows
import Mathlib.Algebra.Order.Ring.Int

/-!
# The Rate Limiter

`RateLimiter` of `rate_limiter.hpp`: an entry for each address, with the start of its window
and the number of its calls since. A call that comes 60 seconds after the start or later
opens a new window.

The clock is read in nanoseconds. The counter is a 32-bit `int`, and denied calls count too.
-/

namespace Frag

open Runs

structure Entry where
  windowStart : Int
  count : Int
  deriving DecidableEq, Repr

/-- The entry that `table_[ip]` creates. -/
def Entry.blank : Entry := ⟨0, 0⟩

/-- The whole seconds since the start of the window, rounded towards zero. -/
def Entry.elapsed (e : Entry) (now : Int) : Int := (now - e.windowStart).tdiv 1000000000

/-- The value of an `int` after an operation. -/
def wrapInt (n : Int) : Int := (n + 2147483648) % 4294967296 - 2147483648

structure RateLimiter where
  max : Int
  table : Bytes → Entry

namespace RateLimiter

/-- `RateLimiter(max_per_minute)` -/
def start (max : Int) : RateLimiter := ⟨max, fun _ => .blank⟩

/-- `RateLimiter::allow` at a clock reading. -/
def allow (l : RateLimiter) (ip : Bytes) (now : Int) : Bool × RateLimiter :=
  if l.max ≤ 0 then (true, l)  -- disabled
  else
    let entry := l.table ip
    if 60 ≤ entry.elapsed now then
      (true, { l with table := Function.update l.table ip ⟨now, 1⟩ })
    else
      let count := wrapInt (entry.count + 1)
      (count ≤ l.max, { l with table := Function.update l.table ip { entry with count } })

/-! ## Sessions -/

/-- A call of `allow`. -/
structure Attempt where
  ip : Bytes
  now : Int
  deriving DecidableEq, Repr

/-- A limiter with the calls made so far and what they returned. -/
structure Session where
  limiter : RateLimiter
  log : List (Attempt × Bool)

namespace Session

def start (max : Int) : Session := ⟨.start max, []⟩

def step (s : Session) (c : Attempt) : Session where
  limiter := (s.limiter.allow c.ip c.now).2
  log := s.log ++ [(c, (s.limiter.allow c.ip c.now).1)]

/-- The entry of a client. -/
def entry (s : Session) (ip : Bytes) : Entry := s.limiter.table ip

/-- When a client was allowed to proceed. -/
def grants (s : Session) (ip : Bytes) : List Int :=
  (s.log.filter fun g => g.1.ip = ip ∧ g.2 = true).map fun g => g.1.now

/-- The call comes 60 seconds after the start of the client's window, or later. -/
def Opens (s : Session) (c : Attempt) : Prop := 60 ≤ (s.entry c.ip).elapsed c.now

instance (s : Session) (c : Attempt) : Decidable (s.Opens c) :=
  inferInstanceAs (Decidable (60 ≤ _))

end Session

/-! ## One call -/

theorem elapsed_iff {e : Entry} {now : Int} :
    60 ≤ e.elapsed now ↔ e.windowStart + 60000000000 ≤ now := by
  unfold Entry.elapsed
  by_cases hneg : now - e.windowStart < 0
  · -- Rounded towards zero, a clock before the start gives no more than 0.
    have hround : (now - e.windowStart).tdiv 1000000000 ≤ (0 : Int).tdiv 1000000000 :=
      Int.tdiv_le_tdiv (by decide) (Int.le_of_lt hneg)
    rw [Int.zero_tdiv] at hround
    omega
  · rw [Int.tdiv_eq_ediv_of_nonneg (Int.not_lt.mp hneg)]
    omega

theorem wrapInt_of_fits {n : Int} (hlow : -2147483648 ≤ n) (hhigh : n ≤ 2147483647) :
    wrapInt n = n := by
  unfold wrapInt
  omega

namespace Session

variable {s : Session} {c : Attempt} {ip : Bytes}

theorem max_step : (s.step c).limiter.max = s.limiter.max := by
  unfold step RateLimiter.allow
  simp only
  split
  · rfl
  · split <;> rfl

/-- A call is logged for its own client. -/
theorem grants_step_of_ne (h : c.ip ≠ ip) : (s.step c).grants ip = s.grants ip := by
  simp [grants, step, List.filter_append, h]

theorem entry_step_of_ne (h : c.ip ≠ ip) : (s.step c).entry ip = s.entry ip := by
  unfold entry step RateLimiter.allow
  simp only
  split
  · rfl
  · split <;> exact Function.update_of_ne (Ne.symm h) _ _

theorem allow_of_opens (hmax : 0 < s.limiter.max) (h : s.Opens c) :
    s.limiter.allow c.ip c.now =
      (true, { s.limiter with table := Function.update s.limiter.table c.ip ⟨c.now, 1⟩ }) := by
  rw [RateLimiter.allow, if_neg (Int.not_le.mpr hmax)]
  exact if_pos h

theorem allow_of_not_opens (hmax : 0 < s.limiter.max) (h : ¬ s.Opens c) :
    let count := wrapInt ((s.entry c.ip).count + 1)
    s.limiter.allow c.ip c.now = (decide (count ≤ s.limiter.max), { s.limiter with
      table := Function.update s.limiter.table c.ip ⟨(s.entry c.ip).windowStart, count⟩ }) := by
  rw [RateLimiter.allow, if_neg (Int.not_le.mpr hmax)]
  exact if_neg h

/-- A call that opens a window is allowed and counts as the first of it. -/
theorem step_of_opens (hmax : 0 < s.limiter.max) (h : s.Opens c) :
    (s.step c).grants c.ip = s.grants c.ip ++ [c.now] ∧ (s.step c).entry c.ip = ⟨c.now, 1⟩ := by
  have hallow := allow_of_opens hmax h
  simp [grants, entry, step, hallow, List.filter_append]

/-- Every other call is allowed while the counter is within the limit. -/
theorem step_of_not_opens (hmax : 0 < s.limiter.max) (h : ¬ s.Opens c) :
    let count := wrapInt ((s.entry c.ip).count + 1)
    (s.step c).grants c.ip =
        s.grants c.ip ++ (if count ≤ s.limiter.max then [c.now] else []) ∧
      (s.step c).entry c.ip = ⟨(s.entry c.ip).windowStart, count⟩ := by
  intro count
  have hallow : s.limiter.allow c.ip c.now = (decide (count ≤ s.limiter.max), { s.limiter with
      table := Function.update s.limiter.table c.ip ⟨(s.entry c.ip).windowStart, count⟩ }) :=
    allow_of_not_opens hmax h
  by_cases hcount : count ≤ s.limiter.max
  · simp [grants, entry, step, hallow, List.filter_append, hcount]
  · simp [grants, entry, step, hallow, List.filter_append, hcount]

end Session

end RateLimiter

end Frag
