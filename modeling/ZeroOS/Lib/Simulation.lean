import ZeroOS.Lib.Runs

/-!
# Simulation

A system `step : σ → ε → Option σ` gives an answer to every event.  A specification `does` says
which answers to an event are right, and which states may come next.

* `dialogue step answer s es`   the events `es` with the answers of the run from `s`;
* `Performs does m l m'`        the specification goes from `m` to `m'` with the dialogue `l`;
* `performs_of_run`             **simulation**: what every step does is allowed, so every run is.
-/

namespace Simulation
open Runs

variable {σ ε ρ μ : Type*}

def dialogue (step : σ → ε → Option σ) (answer : σ → ε → ρ) : σ → List ε → List (ε × ρ)
  | _, [] => []
  | s, e :: es => (e, answer s e) ::
    match step s e with
    | none => []
    | some s' => dialogue step answer s' es

inductive Performs (does : μ → ε → ρ → μ → Prop) : μ → List (ε × ρ) → μ → Prop where
  | nil (m : μ) : Performs does m [] m
  | cons {m m' m'' : μ} {e : ε} {r : ρ} {l : List (ε × ρ)} : does m e r m' →
      Performs does m' l m'' → Performs does m ((e, r) :: l) m''

variable {step : σ → ε → Option σ} {answer : σ → ε → ρ} {does : μ → ε → ρ → μ → Prop}

theorem dialogue_cons {s s' : σ} {e : ε} (h : step s e = some s') (es : List ε) :
    dialogue step answer s (e :: es) = (e, answer s e) :: dialogue step answer s' es := by
  simp only [dialogue, h]

/-- **Simulation.** -/
theorem performs_of_run {R : σ → μ → Prop}
    (hs : ∀ s m e s', R s m → step s e = some s' → ∃ m', does m e (answer s e) m' ∧ R s' m')
    {s s' : σ} {m : μ} {es : List ε} (h0 : R s m) (h : run step s es = some s') :
    ∃ m', Performs does m (dialogue step answer s es) m' ∧ R s' m' := by
  induction es generalizing s m with
  | nil =>
    cases h
    exact ⟨m, .nil m, h0⟩
  | cons e es ih =>
    rw [run_cons, Option.bind_eq_some_iff] at h
    obtain ⟨s₁, he, hrest⟩ := h
    obtain ⟨m₁, hd, h1⟩ := hs s m e s₁ h0 he
    obtain ⟨m₂, hp, h2⟩ := ih h1 hrest
    refine ⟨m₂, ?_, h2⟩
    rw [dialogue_cons he]
    exact .cons hd hp

end Simulation
