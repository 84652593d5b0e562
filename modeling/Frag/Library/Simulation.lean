import Frag.Library.Runs

/-!
# Stuttering Simulations

A concrete system whose events each come to one event of an abstract system, or to none. What
an event comes to may depend on the state. `trace` lists the abstract events of a run.

Two systems side by side are one system (`both`), so that a relation between them is an
invariant of it.

## Main results

- `run_trace`: the run of the concrete system, seen by the abstract one;
- `along_trace`: conditions along the abstract run;
- `run_both`: two runs as one;
- `Along.run_eq`: systems that take the same steps where it matters.
-/

namespace Runs

universe u v w x

variable {σ : Type u} {τ : Type v} {ε : Type w} {φ : Type x} (step' : τ → φ → τ) (abs : τ → φ → Option ε)

/-- The abstract events of a run. -/
def trace : τ → List φ → List ε
  | _, [] => []
  | t, e :: es => (abs t e).toList ++ trace (step' t e) es

variable {step' abs} {step : σ → ε → σ} {π : τ → σ} {Inv : τ → Prop} {ok' : τ → φ → Prop} {t : τ}
  {es : List φ}

/-- **Simulation rule**: under an invariant, the concrete run is the run of its abstract events. -/
theorem run_trace (h : Along step' ok' t es) (h0 : Inv t)
    (hinv : ∀ t e, Inv t → ok' t e → Inv (step' t e))
    (hsim : ∀ t e, Inv t → ok' t e → π (step' t e) = (abs t e).elim (π t) (step (π t))) :
    π (run step' t es) = run step (π t) (trace step' abs t es) := by
  induction es generalizing t with
  | nil => rfl
  | cons e es ih =>
    rw [run_cons, ih h.2 (hinv t e h0 h.1), hsim t e h0 h.1, trace, run_append]
    cases abs t e with
    | none => rfl
    | some e' => rfl

/-- What each abstract event satisfies where it is taken holds along the abstract run. -/
theorem along_trace {ok : σ → ε → Prop} (h : Along step' ok' t es) (h0 : Inv t)
    (hinv : ∀ t e, Inv t → ok' t e → Inv (step' t e))
    (hsim : ∀ t e, Inv t → ok' t e → π (step' t e) = (abs t e).elim (π t) (step (π t)))
    (hok : ∀ t e e', Inv t → ok' t e → abs t e = some e' → ok (π t) e') :
    Along step ok (π t) (trace step' abs t es) := by
  induction es generalizing t with
  | nil => trivial
  | cons e es ih =>
    have htail := ih h.2 (hinv t e h0 h.1)
    rw [hsim t e h0 h.1] at htail
    rw [trace]
    cases he : abs t e with
    | none =>
      rw [he] at htail
      exact htail
    | some e' =>
      rw [he] at htail
      exact ⟨hok t e e' h0 h.1 he, htail⟩

/-! ## Side by side -/

/-- Two systems, each with its own events. -/
def both (step : σ → ε → σ) (step' : τ → φ → τ) (p : σ × τ) (e : ε × φ) : σ × τ :=
  (step p.1 e.1, step' p.2 e.2)

/-- The run of both is a run of each. -/
theorem run_both (s : σ) (t : τ) (es : List (ε × φ)) : run (both step step') (s, t) es =
    (run step s (es.map Prod.fst), run step' t (es.map Prod.snd)) := by
  induction es generalizing s t with
  | nil => rfl
  | cons e es ih => exact ih _ _

/-! ## The same steps -/

/-- **Agreement rule**: systems whose steps agree under an invariant have the same run. -/
theorem Along.run_eq {step₁ step₂ : σ → ε → σ} {ok : σ → ε → Prop} {s : σ} {es : List ε}
    (h : Along step₁ ok s es) (Inv : σ → Prop) (h0 : Inv s)
    (hinv : ∀ s e, ok s e → Inv s → Inv (step₁ s e))
    (hstep : ∀ s e, ok s e → Inv s → step₂ s e = step₁ s e) : run step₂ s es = run step₁ s es := by
  induction es generalizing s with
  | nil => rfl
  | cons e es ih =>
    rw [run_cons, run_cons, hstep s e h.1 h0]
    exact ih h.2 (hinv s e h.1 h0)

end Runs
