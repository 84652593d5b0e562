import Frag.Guarantees.RateLimit

/-!
# The Windows of the Rate Limiter

The calls of an address fall into windows: a call 60 whole seconds after the start of the
current window, or later, opens the next one. The first window starts at the epoch of the
clock. The counter of the limiter counts the calls of the current window, denied ones too, so
the first `max` calls of a window are the ones that are allowed.

## Main results

- `windows_exact`: the answers to an address, whatever calls the others make.
-/

namespace Frag

open Runs Windows RateLimiter

namespace RateLimiter.Session

/-- What a client was answered. -/
def answers (s : Session) (ip : Bytes) : List Bool := (s.log.filter fun g => g.1.ip = ip).map Prod.snd

/-- When a client called. -/
def callsOf (calls : List Attempt) (ip : Bytes) : List Int :=
  (calls.filter fun c => c.ip = ip).map Attempt.now

/-- The calls of a client in windows. -/
def windowsOf (calls : List Attempt) (ip : Bytes) : List (Int × List Int) :=
  (groups minute 0 (callsOf calls ip)).windows

/-- `true` for the first `max` calls of a window. -/
def firsts (max : Int) (window : List Int) : List Bool :=
  window.zipIdx.map fun call => (call.2 : Int) < max

theorem firsts_concat (max : Int) (window : List Int) (now : Int) :
    firsts max (window ++ [now]) = firsts max window ++ [decide ((window.length : Int) < max)] := by
  simp [firsts, List.zipIdx_append]

variable {s : Session} {c : Attempt} {ip : Bytes} {max : Int} {g : Grouping Int}

theorem answers_step : (s.step c).answers ip =
    s.answers ip ++ if c.ip = ip then [(s.limiter.allow c.ip c.now).1] else [] := by
  by_cases hip : c.ip = ip
  · simp [answers, step, List.filter_append, hip]
  · simp [answers, step, List.filter_append, hip]

/-! ## One call -/

/-- The entry of a client is its current window, and the first calls of each window were
    allowed. -/
structure Grouped (s : Session) (ip : Bytes) (max : Int) (g : Grouping Int) : Prop where
  limit : s.limiter.max = max
  entry : s.entry ip = ⟨g.start, g.current.length⟩
  answers : s.answers ip = g.windows.flatMap fun w => firsts max w.2

theorem Grouped.start (max : Int) (ip : Bytes) : Grouped (start max) ip max (.empty 0) where
  limit := rfl
  entry := rfl
  answers := rfl

/-- A call of another client changes neither the entry nor the answers. -/
theorem Grouped.step_of_ne (h : Grouped s ip max g) (hip : c.ip ≠ ip) :
    Grouped (s.step c) ip max g where
  limit := max_step.trans h.limit
  entry := (entry_step_of_ne hip).trans h.entry
  answers := by rw [answers_step, if_neg hip, List.append_nil, h.answers]

/-- A call of the client is added to its windows. -/
theorem Grouped.step_self (h : Grouped s c.ip max g) (hmax : 1 ≤ max)
    (hfits : ∀ w ∈ (g.add minute c.now).windows, w.2.length < 2147483648) :
    Grouped (s.step c) c.ip max (g.add minute c.now) := by
  have hlimit : 0 < s.limiter.max := h.limit ▸ Int.lt_of_lt_of_le (by decide) hmax
  have hopens : s.Opens c ↔ g.start + minute ≤ c.now := by
    rw [Opens, elapsed_iff, h.entry, minute]
  by_cases hle : g.start + minute ≤ c.now
  · -- The call opens a window, and is the first one of it.
    rw [Grouping.add_of_le hle]
    refine ⟨max_step.trans h.limit, (step_of_opens hlimit (hopens.mpr hle)).2, ?_⟩
    have hfirst : firsts max [c.now] = [true] := by
      rw [firsts, List.zipIdx_singleton, List.map_singleton]
      simpa using Int.lt_of_lt_of_le (by decide) hmax
    have hwindows : Grouping.windows ⟨g.windows, c.now, [c.now]⟩ = g.windows ++ [(c.now, [c.now])] := rfl
    rw [answers_step, if_pos rfl, allow_of_opens hlimit (hopens.mpr hle), h.answers, hwindows,
      List.flatMap_append, List.flatMap_singleton, hfirst]
  · -- The counter is the number of calls of the window before this one.
    rw [Grouping.add_of_not_le hle] at hfits ⊢
    have hroom := hfits (g.start, g.current ++ [c.now]) (List.mem_append_right _ List.mem_cons_self)
    rw [List.length_append, List.length_singleton] at hroom
    have hcount : wrapInt ((s.entry c.ip).count + 1) = g.current.length + 1 := by
      rw [h.entry]
      apply wrapInt_of_fits
      · change _ ≤ (g.current.length : Int) + 1
        omega
      · change (g.current.length : Int) + 1 ≤ _
        omega
    have hallow := allow_of_not_opens hlimit (mt hopens.mp hle)
    have hentry := (step_of_not_opens hlimit (mt hopens.mp hle)).2
    rw [hcount] at hallow hentry
    refine ⟨max_step.trans h.limit, ?_, ?_⟩
    · rw [hentry, h.entry, List.length_append, List.length_singleton, Nat.cast_add, Nat.cast_one]
    · have hwithin : decide ((g.current.length : Int) + 1 ≤ s.limiter.max) =
          decide ((g.current.length : Int) < max) := by
        rw [h.limit]
        exact decide_eq_decide.mpr Int.add_one_le_iff
      rw [answers_step, if_pos rfl, hallow, h.answers, Grouping.windows, Grouping.windows,
        List.flatMap_append, List.flatMap_append, List.flatMap_singleton, List.flatMap_singleton,
        firsts_concat, hwithin, List.append_assoc]

/-! ## All calls -/

theorem callsOf_concat (calls : List Attempt) (c : Attempt) (ip : Bytes) :
    callsOf (calls ++ [c]) ip = callsOf calls ip ++ if c.ip = ip then [c.now] else [] := by
  by_cases hip : c.ip = ip
  · simp [callsOf, List.filter_append, hip]
  · simp [callsOf, List.filter_append, hip]

/-- What calls preserve, by induction from the last one. -/
theorem grouped_run (hmax : 1 ≤ max) {calls : List Attempt}
    (hfits : ∀ w ∈ windowsOf calls ip, w.2.length < 2147483648) :
    Grouped (run step (start max) calls) ip max (groups minute 0 (callsOf calls ip)) := by
  induction calls using List.reverseRecOn with
  | nil => exact .start max ip
  | append_singleton calls c ih =>
    rw [windowsOf, callsOf_concat] at hfits
    rw [run_concat, callsOf_concat]
    by_cases hip : c.ip = ip
    · subst hip
      rw [if_pos rfl, groups_concat] at hfits
      rw [if_pos rfl, groups_concat]
      exact (ih (Grouping.length_lt_of_add hfits)).step_self hmax hfits
    · rw [if_neg hip, List.append_nil] at hfits
      rw [if_neg hip, List.append_nil]
      exact (ih hfits).step_of_ne hip

/-- The answers to a client depend on its own calls. -/
theorem answers_filter (max : Int) (calls : List Attempt) (ip : Bytes) :
    (run step (start max) (calls.filter fun c => c.ip = ip)).answers ip =
      (run step (start max) calls).answers ip := by
  -- The entry and the limit decide the next answer.
  suffices hsame : ∀ s s' : Session, s.limiter.max = s'.limiter.max → s.entry ip = s'.entry ip →
      s.answers ip = s'.answers ip →
      (run step s (calls.filter fun c => c.ip = ip)).answers ip = (run step s' calls).answers ip from
    hsame _ _ rfl rfl rfl
  induction calls with
  | nil => exact fun s s' _ _ hanswers => hanswers
  | cons c calls ih =>
    intro s s' hmax hentry hanswers
    by_cases hip : c.ip = ip
    · subst hip
      rw [List.filter_cons_of_pos (by simp), run_cons, run_cons]
      have hallow : (s.limiter.allow c.ip c.now).1 = (s'.limiter.allow c.ip c.now).1 ∧
          (s.step c).entry c.ip = (s'.step c).entry c.ip := by
        rw [Session.entry, Session.entry] at hentry
        simp only [RateLimiter.allow, Session.entry, Session.step, hmax, hentry]
        split
        · exact ⟨rfl, hentry⟩
        · split
          · simp
          · simp
      apply ih
      · rw [max_step, max_step, hmax]
      · exact hallow.2
      · rw [answers_step, answers_step, hanswers, hallow.1]
    · rw [List.filter_cons_of_neg (by simpa using hip), run_cons]
      apply ih
      · rw [max_step, hmax]
      · rw [entry_step_of_ne hip, hentry]
      · rw [answers_step, if_neg hip, List.append_nil, hanswers]

/-- **The windows are exact and for each address**: in every run of calls of any clients, a
    client is answered with the first `max` calls of each of its windows; its windows hold its
    calls in their order and start 60 seconds apart; and the calls of the others change no
    answer. -/
theorem windows_exact {max : Int} (hmax : 1 ≤ max) (calls : List Attempt) (ip : Bytes)
    (hfits : ∀ w ∈ windowsOf calls ip, w.2.length < 2147483648) :
    (run step (start max) calls).answers ip = (windowsOf calls ip).flatMap (fun w => firsts max w.2) ∧
      (windowsOf calls ip).flatMap Prod.snd = callsOf calls ip ∧
      ((windowsOf calls ip).map Prod.fst).IsChain (· + minute ≤ ·) ∧
      (run step (start max) (calls.filter fun c => c.ip = ip)).answers ip =
        (run step (start max) calls).answers ip :=
  ⟨(grouped_run hmax hfits).answers, flatten_windows _ _ _, isChain_windows _ _ _,
    answers_filter max calls ip⟩

/-- Calls of two clients; two readings are not in the order of the calls. -/
def mixedCalls : List Attempt :=
  [([], 100), ([1], 101), ([], 95), ([], 120), ([], 200)].map fun (ip, t) => ⟨ip, t * 1000000000⟩

theorem mixed_calls_in_windows :
    windowsOf mixedCalls [] = [(0, []), (100000000000, [100000000000, 95000000000, 120000000000]),
        (200000000000, [200000000000])] ∧
      (run step (start 2) mixedCalls).answers [] =
        (windowsOf mixedCalls []).flatMap (fun w => firsts 2 w.2) :=
  ⟨by decide, (windows_exact (by decide) mixedCalls [] (by decide)).1⟩

end RateLimiter.Session

end Frag
