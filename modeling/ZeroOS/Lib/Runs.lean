import Mathlib.Logic.Function.Basic
import Mathlib.Tactic.Common

/-!
# Runs of a transition system

A system is a partial step function `step : σ → ε → Option σ`: `step s e` is the state after the
event `e`, if `e` can happen in `s`.

* `Reachable step s₀ s`     `s` is the last state of some run from `s₀`;
* `run step s₀ es`          the state after the events `es`;
* `Always step P s₀ es`     `P` holds in every state of the run of `es` from `s₀`;
* `Guarded step ok s₀ es`   every step of that run is taken where `ok` allows it.

`Reachable.invariant` is the induction over runs, and `always_iff_guarded_of` turns a condition that
is exact for one step into one that is exact for runs.  `tagged` runs a history variable beside the
system; `Reachable.tagged` is the induction there.
-/

namespace Runs
variable {σ ε τ : Type*}

inductive Reachable (step : σ → ε → Option σ) (s₀ : σ) : σ → Prop where
  | init : Reachable step s₀ s₀
  | step {s s' : σ} {e : ε} : Reachable step s₀ s → step s e = some s' → Reachable step s₀ s'

def run (step : σ → ε → Option σ) : σ → List ε → Option σ
  | s, [] => some s
  | s, e :: es => (step s e).bind fun s' => run step s' es

def Always (step : σ → ε → Option σ) (P : σ → Prop) : σ → List ε → Prop
  | s, [] => P s
  | s, e :: es => P s ∧ ∀ s', step s e = some s' → Always step P s' es

def Guarded (step : σ → ε → Option σ) (ok : σ → ε → Prop) : σ → List ε → Prop
  | _, [] => True
  | s, e :: es => ∀ s', step s e = some s' → ok s e ∧ Guarded step ok s' es

variable {step : σ → ε → Option σ}

theorem run_cons (s : σ) (e : ε) (es : List ε) :
    run step s (e :: es) = (step s e).bind fun s' => run step s' es := rfl

theorem run_append (s : σ) (a b : List ε) :
    run step s (a ++ b) = (run step s a).bind fun s' => run step s' b := by
  induction a generalizing s with
  | nil => rfl
  | cons e a ih =>
    rw [List.cons_append, run_cons, run_cons, Option.bind_assoc]
    exact congrArg _ (funext fun s' => ih s')

/-- **The induction over runs**: what holds at the start and is kept by every step holds in every
reachable state. -/
theorem Reachable.invariant {I : σ → Prop} {s₀ s : σ} (h : Reachable step s₀ s) (h0 : I s₀)
    (hs : ∀ s e s', I s → step s e = some s' → I s') : I s := by
  induction h with
  | init => exact h0
  | step _ he ih => exact hs _ _ _ ih he

theorem always_head {P : σ → Prop} {s : σ} {es : List ε} (h : Always step P s es) : P s := by
  cases es with
  | nil => exact h
  | cons e es => exact h.1

theorem guarded_of_mem {ok : σ → ε → Prop} {es : List ε} (h : ∀ e ∈ es, ∀ s, ok s e) (s : σ) :
    Guarded step ok s es := by
  induction es generalizing s with
  | nil => trivial
  | cons e es ih =>
    exact fun s₁ _ => ⟨h e List.mem_cons_self s, ih (fun e' he' => h e' (List.mem_cons_of_mem e he')) s₁⟩

theorem guarded_of_forall {ok : σ → ε → Prop} (h : ∀ s e, ok s e) (s : σ) (es : List ε) :
    Guarded step ok s es := guarded_of_mem (fun e _ s => h s e) s

/-- what follows from an invariant holds throughout a run whose steps all meet `A`, where such
steps keep the invariant -/
theorem always_of_guarded {I P : σ → Prop} {A : σ → ε → Prop} {s₀ : σ} (hI : I s₀)
    (hP : ∀ s, I s → P s) (hs : ∀ s e s', I s → A s e → step s e = some s' → I s') {es : List ε}
    (ha : Guarded step A s₀ es) : Always step P s₀ es := by
  induction es generalizing s₀ with
  | nil => exact hP s₀ hI
  | cons e es ih =>
    refine ⟨hP s₀ hI, fun s₁ h1 => ?_⟩
    obtain ⟨hA, ha1⟩ := ha s₁ h1
    exact ih (hs s₀ e s₁ hI hA h1) ha1

/-- the last state of such a run -/
theorem run_of_guarded {I : σ → Prop} {A : σ → ε → Prop} {s₀ s : σ} (hI : I s₀)
    (hs : ∀ s e s', I s → A s e → step s e = some s' → I s') {es : List ε}
    (ha : Guarded step A s₀ es) (h : run step s₀ es = some s) : I s := by
  induction es generalizing s₀ with
  | nil =>
    cases h
    exact hI
  | cons e es ih =>
    rw [run_cons, Option.bind_eq_some_iff] at h
    obtain ⟨s₁, he, hrest⟩ := h
    obtain ⟨hA, ha1⟩ := ha s₁ he
    exact ih (hs s₀ e s₁ hI hA he) ha1 hrest

/-- **The bound of a run**: every step lowers `μ`. -/
theorem run_length_le {I : σ → Prop} {μ : σ → Nat} {s₀ s : σ} (hI : I s₀)
    (hs : ∀ s e s', I s → step s e = some s' → I s' ∧ μ s' < μ s) {es : List ε}
    (h : run step s₀ es = some s) : es.length + μ s ≤ μ s₀ := by
  induction es generalizing s₀ with
  | nil =>
    cases h
    exact Nat.le_of_eq (Nat.zero_add _)
  | cons e es ih =>
    rw [run_cons, Option.bind_eq_some_iff] at h
    obtain ⟨s₁, he, hrest⟩ := h
    obtain ⟨hI1, hlt⟩ := hs s₀ e s₁ hI he
    have := ih hI1 hrest
    rw [List.length_cons]
    omega

/-- the case without an assumption -/
theorem always_of_invariant {I P : σ → Prop} {s₀ : σ} (hI : I s₀) (hP : ∀ s, I s → P s)
    (hs : ∀ s e s', I s → step s e = some s' → I s') (es : List ε) : Always step P s₀ es :=
  always_of_guarded (A := fun _ _ => True) hI hP (fun s e s' h _ => hs s e s' h)
    (guarded_of_forall (fun _ _ => trivial) s₀ es)

/-- **A condition that is exact for one step is exact for runs.**  `I` holds as long as `P` does;
from a state with both, a step that meets the assumption `A` keeps `P` if and only if it meets
`ok`. -/
theorem always_iff_guarded_of {I P : σ → Prop} {A ok : σ → ε → Prop} {s₀ : σ}
    (hI : I s₀) (hP : P s₀)
    (hIs : ∀ s e s', I s → P s → A s e → step s e = some s' → I s')
    (hs : ∀ s e s', I s → P s → A s e → step s e = some s' → (P s' ↔ ok s e)) {es : List ε}
    (ha : Guarded step A s₀ es) : Always step P s₀ es ↔ Guarded step ok s₀ es := by
  induction es generalizing s₀ with
  | nil => exact ⟨fun _ => trivial, fun _ => hP⟩
  | cons e es ih =>
    refine ⟨fun hal s₁ h1 => ?_, fun hg => ⟨hP, fun s₁ h1 => ?_⟩⟩
    · obtain ⟨hasm, ha1⟩ := ha s₁ h1
      have hP1 : P s₁ := always_head (hal.2 s₁ h1)
      have hI1 := hIs _ _ _ hI hP hasm h1
      exact ⟨(hs _ _ _ hI hP hasm h1).mp hP1, (ih hI1 hP1 ha1).mp (hal.2 s₁ h1)⟩
    · obtain ⟨hasm, ha1⟩ := ha s₁ h1
      obtain ⟨hok, hg1⟩ := hg s₁ h1
      have hI1 := hIs _ _ _ hI hP hasm h1
      exact (ih hI1 ((hs _ _ _ hI hP hasm h1).mpr hok) ha1).mpr hg1

/-- the case without an assumption -/
theorem always_iff_guarded {I P : σ → Prop} {ok : σ → ε → Prop} {s₀ : σ}
    (hI : I s₀) (hP : P s₀) (hIs : ∀ s e s', I s → P s → step s e = some s' → I s')
    (hs : ∀ s e s', I s → P s → step s e = some s' → (P s' ↔ ok s e)) (es : List ε) :
    Always step P s₀ es ↔ Guarded step ok s₀ es :=
  always_iff_guarded_of (A := fun _ _ => True) hI hP (fun s e s' h1 h2 _ => hIs s e s' h1 h2)
    (fun s e s' h1 h2 _ => hs s e s' h1 h2) (guarded_of_forall (fun _ _ => trivial) s₀ es)

/-- the system with a history variable: `upd s e s' h` is its value after the step -/
def tagged (step : σ → ε → Option σ) (upd : σ → ε → σ → τ → τ) : σ × τ → ε → Option (σ × τ)
  | (s, h), e => (step s e).map fun s' => (s', upd s e s' h)

theorem tagged_eq_some {upd : σ → ε → σ → τ → τ} {s s' : σ} {h h' : τ} {e : ε} :
    tagged step upd (s, h) e = some (s', h') ↔ step s e = some s' ∧ upd s e s' h = h' := by
  unfold tagged
  rw [Option.map_eq_some_iff]
  refine ⟨fun h1 => ?_, fun h1 => ?_⟩
  · obtain ⟨a, ha, heq⟩ := h1
    obtain ⟨rfl, rfl⟩ := Prod.mk.inj heq
    exact ⟨ha, rfl⟩
  · obtain ⟨hs, rfl⟩ := h1
    exact ⟨s', hs, rfl⟩

/-- what holds of the system and its history at the start, and is kept by every step -/
theorem Reachable.tagged {upd : σ → ε → σ → τ → τ} {I : σ → τ → Prop} {s₀ s : σ} {h₀ h : τ}
    (hr : Reachable (tagged step upd) (s₀, h₀) (s, h)) (h0 : I s₀ h₀)
    (hs : ∀ s h e s', I s h → step s e = some s' → I s' (upd s e s' h)) : I s h := by
  apply hr.invariant (I := fun x : σ × τ => I x.1 x.2) h0
  intro x e x' hx he
  obtain ⟨h1, h2⟩ := tagged_eq_some.mp he
  rw [← h2]
  exact hs x.1 x.2 e x'.1 hx h1

end Runs
