import Mathlib.Data.List.Basic

/-!
# Runs of a Transition Function

A system is given by a total step function `step : σ → ε → σ` over events that
carry every choice of the environment (who acts, what is delivered, what a
clock reads). A run is a list of events; `Along step ok s es` says that every
event of the run satisfies `ok` in the state in which it is taken.

## Main results

- `Along.invariant`: what one admissible step preserves, a whole run preserves;
- `along_iff_prefixes`: where the first inadmissible step breaks a property, the runs in which
  the property holds throughout are those whose steps are all admissible.
-/

namespace Runs

universe u v

variable {σ : Type u} {ε : Type v} {step : σ → ε → σ}

/-- The state after the events of a run, taken in order. -/
def run (step : σ → ε → σ) (s : σ) (es : List ε) : σ :=
  es.foldl step s

/-- Every event of the run satisfies `ok` in the state it is taken in. -/
def Along (step : σ → ε → σ) (ok : σ → ε → Prop) : σ → List ε → Prop
  | _, [] => True
  | s, e :: es => ok s e ∧ Along step ok (step s e) es

instance Along.decidable (step : σ → ε → σ) (ok : σ → ε → Prop)
    [hd : ∀ s e, Decidable (ok s e)] : ∀ s es, Decidable (Along step ok s es)
  | _, [] => .isTrue trivial
  | s, e :: es =>
    have := Along.decidable step ok (step s e) es
    inferInstanceAs (Decidable (ok s e ∧ Along step ok (step s e) es))

/-! ## Runs -/

@[simp] theorem run_nil (s : σ) : run step s [] = s := rfl

@[simp] theorem run_cons (s : σ) (e : ε) (es : List ε) :
    run step s (e :: es) = run step (step s e) es := rfl

@[simp] theorem run_append (s : σ) (es fs : List ε) :
    run step s (es ++ fs) = run step (run step s es) fs := by
  simp [run]

theorem run_concat (s : σ) (es : List ε) (e : ε) :
    run step s (es ++ [e]) = step (run step s es) e := by
  simp

/-! ## Conditions along a run -/

variable {ok : σ → ε → Prop} {s : σ} {es fs : List ε}

theorem along_append :
    Along step ok s (es ++ fs) ↔ Along step ok s es ∧ Along step ok (run step s es) fs := by
  induction es generalizing s with
  | nil => simp [Along]
  | cons e es ih => simp only [List.cons_append, Along, ih, run_cons, and_assoc]

theorem along_concat {e : ε} :
    Along step ok s (es ++ [e]) ↔ Along step ok s es ∧ ok (run step s es) e := by
  simp [along_append, Along]

theorem along_of_forall {P : ε → Prop} (h : ∀ e ∈ es, P e) : Along step (fun _ e => P e) s es := by
  induction es generalizing s with
  | nil => trivial
  | cons e es ih =>
    exact ⟨h e List.mem_cons_self, ih fun e' he' => h e' (List.mem_cons_of_mem _ he')⟩

theorem Along.and {ok' : σ → ε → Prop} (h : Along step ok s es) (h' : Along step ok' s es) :
    Along step (fun s e => ok s e ∧ ok' s e) s es := by
  induction es generalizing s with
  | nil => trivial
  | cons e es ih => exact ⟨⟨h.1, h'.1⟩, ih h.2 h'.2⟩

theorem Along.initial (h : Along step ok s es) (hfs : fs <+: es) : Along step ok s fs := by
  obtain ⟨gs, rfl⟩ := hfs
  exact (along_append.mp h).1

/-- **Invariant rule**: what every admissible step preserves holds after every
    admissible run. -/
theorem Along.invariant (h : Along step ok s es) (Inv : σ → Prop) (h0 : Inv s)
    (hstep : ∀ s e, ok s e → Inv s → Inv (step s e)) : Inv (run step s es) := by
  induction es generalizing s with
  | nil => exact h0
  | cons e es ih => exact ih h.2 (hstep s e h.1 h0)

/-! ## Projections

A system whose states hold those of another one beside something that is only recorded. -/

section Projection

universe w

variable {τ : Type w} {step' : τ → ε → τ} {π : τ → σ}

theorem along_project (hπ : ∀ t e, π (step' t e) = step (π t) e) {t : τ} :
    Along step' (fun t e => ok (π t) e) t es ↔ Along step ok (π t) es := by
  induction es generalizing t with
  | nil => exact Iff.rfl
  | cons e es ih => simp only [Along, ih, hπ]

end Projection

/-! ## Properties of every state reached -/

theorem forall_prefix_cons {P : σ → Prop} {e : ε} :
    (∀ fs, fs <+: e :: es → P (run step s fs)) ↔
      P s ∧ ∀ fs, fs <+: es → P (run step (step s e) fs) := by
  constructor
  · intro h
    refine ⟨h [] List.nil_prefix, fun fs hfs => ?_⟩
    exact h (e :: fs) (List.cons_prefix_cons.mpr ⟨rfl, hfs⟩)
  · rintro ⟨hs, h⟩ fs hfs
    rcases List.prefix_cons_iff.mp hfs with rfl | ⟨gs, rfl, hgs⟩
    · exact hs
    · exact h gs hgs

/-- **Exactness rule**: `ok` is the weakest condition under which `Good` holds in every state
    reached, if an invariant implies `Good`, admissible steps keep the invariant, and a step
    that is not admissible leads to a state that is not `Good`. The events are restricted to
    those that can occur at all, `dom`. -/
theorem along_iff_prefixes (Good Inv : σ → Prop) {dom : σ → ε → Prop}
    (hdom : Along step dom s es) (hgood : ∀ s, Inv s → Good s)
    (hstep : ∀ s e, dom s e → ok s e → Inv s → Inv (step s e))
    (hbreak : ∀ s e, dom s e → ¬ ok s e → Inv s → ¬ Good (step s e)) (h0 : Inv s) :
    (∀ fs, fs <+: es → Good (run step s fs)) ↔ Along step ok s es := by
  induction es generalizing s with
  | nil =>
    constructor
    · intro _
      trivial
    · intro _ fs hfs
      rw [List.prefix_nil.mp hfs]
      exact hgood s h0
  | cons e es ih =>
    obtain ⟨he, hes⟩ := hdom
    rw [forall_prefix_cons]
    by_cases hok : ok s e
    · rw [ih hes (hstep s e he hok h0)]
      exact ⟨fun h => ⟨hok, h.2⟩, fun h => ⟨hgood s h0, h.2⟩⟩
    · -- The state after this event is reached, and is not good.
      constructor
      · intro h
        exact absurd (h.2 [] List.nil_prefix) (hbreak s e he hok h0)
      · intro h
        exact absurd h.1 hok

end Runs
