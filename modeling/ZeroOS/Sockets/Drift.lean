import ZeroOS.Sockets.Server

/-!
# Sockets: the drift of the connection count

`func_sigchild` runs once for a signal, and the parent has one signal pending at most, so that
two children can exit for one decrement.

* `run_drift`          after a run without a merged signal the counter is exact;
* `admits_of_exact`    an exact counter admits `MAX_CLIENTS` children at once;
* `crowd_lt`           a counter that has drifted never does again;
* `connections_exact`  **when the count is exact**: no child exits while a `SIGCHLD` is pending.
-/

set_option linter.unusedVariables false

namespace Sockets
open Runs

variable {maxClients : Int} {s s' : Server} {e : Event} {es : List Event}

/-! ## runs -/

/-- Every service child has exited, every signal is handled, and every child is counted. -/
structure Quiet (s : Server) : Prop where
  running : s.running = 0
  pending : s.pending = false
  handling : s.handling = false
  place : s.place ≠ .forked

/-- some way to go on comes to `MAX_CLIENTS` children at once -/
def Admits (maxClients : Int) (s : Server) : Prop :=
  ∃ es s', run (step maxClients) s es = some s' ∧ s'.running = maxClients

theorem Quiet.counter (h : Quiet s) : s.numConections = drift s := by
  have heq := counter_eq s
  rw [h.running, h.pending, h.handling, if_neg h.place] at heq
  simpa using heq

/-- The drift never decreases, and a run keeps it if and only if no signal is merged. -/
theorem run_drift (h : run (step maxClients) s es = some s') :
    drift s ≤ drift s' ∧
      (drift s' = drift s ↔ Guarded (step maxClients) (fun s e => ¬ Merges s e) s es) := by
  induction es generalizing s with
  | nil =>
    cases h
    exact ⟨Int.le_refl _, iff_of_true rfl trivial⟩
  | cons e es ih =>
    rw [run_cons] at h
    obtain ⟨s₁, he, h1⟩ := Option.bind_eq_some_iff.mp h
    obtain ⟨hle, hiff⟩ := ih h1
    have hd := step_drift he
    refine ⟨Int.le_trans (drift_le he) hle, fun heq s₂ h2 => ?_, fun hg => ?_⟩
    · cases he.symm.trans h2
      have hm : ¬ Merges s e := by
        intro hm
        rw [if_pos hm] at hd
        omega
      rw [if_neg hm] at hd
      exact ⟨hm, hiff.mp (by omega)⟩
    · obtain ⟨hm, hg1⟩ := hg s₁ he
      rw [if_neg hm] at hd
      rw [hiff.mpr hg1, hd, Int.add_zero]

/-! ## an exact counter -/

theorem Admits.of_run {es : List Event} (h : Admits maxClients s')
    (hr : run (step maxClients) s es = some s') : Admits maxClients s := by
  obtain ⟨es', t, ht, hn⟩ := h
  refine ⟨es ++ es', t, ?_, hn⟩
  rw [run_append, hr]
  exact ht

theorem Admits.of_step (he : step maxClients s e = some s') (h : Admits maxClients s') :
    Admits maxClients s := by
  have hr : run (step maxClients) s [e] = some s' := by
    rw [run_cons, he]
    rfl
  exact h.of_run hr

section
variable (hh : s.handling = false)
include hh

theorem step_parent (r : Int) :
    step maxClients s (.parent r) = boundedServerLoop maxClients s r := by
  unfold step
  rw [hh]
  rfl

theorem run_accept (hp : s.place = .accept) :
    run (step maxClients) s [.parent 0, .parent 1, .parent 0] =
      some { s with
        numConections := s.numConections + 1, running := s.running + 1, place := .check } := by
  rw [run_cons, step_parent hh]
  simp only [boundedServerLoop, hp]
  rw [Option.bind_some, run_cons, step_parent (s := acceptNewConnections s 0) hh]
  show run (step maxClients) { s with running := s.running + 1, place := .forked } [.parent 0] = _
  rw [run_cons, step_parent (s := { s with running := s.running + 1, place := .forked }) hh]
  rfl

theorem run_check (hp : s.place = .check) (hlt : s.numConections < maxClients) :
    run (step maxClients) s [.parent 0, .parent 0, .parent 1, .parent 0] =
      some { s with
        numConections := s.numConections + 1, running := s.running + 1, place := .check } := by
  have hno : ¬ s.numConections ≥ maxClients := Int.not_le.mpr hlt
  rw [run_cons, step_parent hh]
  simp only [boundedServerLoop, hp, hno, if_false]
  exact run_accept hh rfl

/-- one child after the other, as long as the counter is exact -/
theorem admits_check (hp : s.place = .check) (hn : s.numConections = s.running) (n : Nat)
    (hmax : s.running + n = maxClients) : Admits maxClients s := by
  induction n generalizing s with
  | zero => exact ⟨[], s, rfl, by omega⟩
  | succ n ih =>
    refine (ih (s := { s with numConections := _, running := _, place := _ }) ?_ ?_ ?_ ?_).of_run
      (run_check hh hp (by omega))
    · exact hh
    · rfl
    · show s.numConections + 1 = ((s.running + 1 : Nat) : Int)
      omega
    · show ((s.running + 1 : Nat) : Int) + n = maxClients
      omega

/-- the first child after the wait-for-all loop -/
theorem admits_accept (hp : s.place = .accept) (hr : s.running = 0) (hmax : 1 ≤ maxClients)
    (h : maxClients = 1 ∨ s.numConections = 0) : Admits maxClients s := by
  apply Admits.of_run _ (run_accept hh hp)
  rcases h with h | hn
  · refine ⟨[], _, rfl, ?_⟩
    show ((s.running + 1 : Nat) : Int) = maxClients
    omega
  · apply admits_check (n := (maxClients - 1).toNat)
    · exact hh
    · rfl
    · show s.numConections + 1 = ((s.running + 1 : Nat) : Int)
      omega
    · show ((s.running + 1 : Nat) : Int) + ((maxClients - 1).toNat : Nat) = maxClients
      omega

end

section
variable (hp : s.place = .accept) (hr : s.running = 0) (hmax : 1 ≤ maxClients)
  (hd : maxClients = 1 ∨ drift s = 0)
include hp hr hmax hd

/-- A signal that is being handled, or is pending, is handled before the first child. -/
theorem admits_handled (hpend : s.pending = false) : Admits maxClients s := by
  have heq := counter_eq s
  rw [hr, hp, hpend] at heq
  by_cases hh : s.handling = true
  · rw [hh] at heq
    refine Admits.of_step (e := .handler) (if_pos hh) (admits_accept rfl hp hr hmax ?_)
    refine hd.imp_right fun h0 => ?_
    show s.numConections - 1 = 0
    simp [h0] at heq
    omega
  · rw [Bool.eq_false_iff.mpr hh] at heq
    refine admits_accept (Bool.eq_false_iff.mpr hh) hp hr hmax (hd.imp_right fun h0 => ?_)
    simpa [h0] using heq

theorem admits_delivered (hpend : s.pending = true) (hh : s.handling = false) :
    Admits maxClients s := by
  have he : step maxClients s .deliver = some { s with pending := false, handling := true } :=
    if_pos ⟨hpend, by simp [hh], by simp [hp]⟩
  refine Admits.of_step he (admits_handled hp hr hmax (hd.imp_right fun h0 => ?_) rfl)
  rw [step_drift he, if_neg (fun hm => nomatch hm.1), h0, Int.add_zero]

theorem admits_of_exact : Admits maxClients s := by
  by_cases hpend : s.pending = true
  · by_cases hh : s.handling = true
    · have he : step maxClients s .handler = some { funcSigchild s with handling := false } :=
        if_pos hh
      refine Admits.of_step he (admits_delivered hp hr hmax (hd.imp_right fun h0 => ?_) hpend rfl)
      rw [step_drift he, if_neg (fun hm => nomatch hm.1), h0, Int.add_zero]
    · exact admits_delivered hp hr hmax hd hpend (Bool.eq_false_iff.mpr hh)
  · exact admits_handled hp hr hmax hd (Bool.eq_false_iff.mpr hpend)

end

/-! ## a counter that has drifted -/

structure Crowd (maxClients : Int) (s : Server) : Prop where
  drift : 1 ≤ drift s
  running : s.running < maxClients
  admitting : Admitting s → s.running + 1 < maxClients ∨ s.running = 0

theorem Parent.crowd (hmax : 1 < maxClients) (hI : Crowd maxClients s)
    (h : Parent maxClients s s') : Crowd maxClients s' := by
  have hd := hI.drift
  have hb := hI.running
  refine ⟨h.drift ▸ hd, ?_, fun ha => ?_⟩
  · obtain hr | ⟨ha, hr⟩ := h.running
    · omega
    · have hlt := hI.admitting ha
      omega
  · obtain ⟨hr, -, hcase⟩ := h.admitting ha
    rw [hr]
    obtain ha | ⟨hp, hlt⟩ | h0 := hcase
    · exact hI.admitting ha
    · -- the counter is above the children by the drift
      have heq := counter_eq s
      simp only [hp, reduceCtorEq, if_false] at heq
      left
      split at heq <;> split at heq <;> omega
    · exact .inr h0

theorem step_crowd (hmax : 1 < maxClients) (hI : Crowd maxClients s)
    (h : step maxClients s e = some s') : Crowd maxClients s' := by
  have hd : 1 ≤ drift s' := Int.le_trans hI.drift (drift_le h)
  have hlt := hI.running
  cases step_cases h with
  | parent r _ hp => exact hp.crowd hmax hI
  | exit hr =>
    refine ⟨hd, ?_, fun ha => ?_⟩
    · show ((s.running - 1 : Nat) : Int) < maxClients
      omega
    · left
      show ((s.running - 1 : Nat) : Int) + 1 < maxClients
      omega
  | deliver hp hh => exact ⟨hd, hlt, hI.admitting⟩
  | handler hh => exact ⟨hd, hlt, hI.admitting⟩

theorem not_admits (hmax : 1 < maxClients) (hI : Crowd maxClients s) : ¬ Admits maxClients s := by
  rintro ⟨es, s', hr, hn⟩
  have hI' : Crowd maxClients s' := by
    induction es generalizing s with
    | nil =>
      cases hr
      exact hI
    | cons e es ih =>
      rw [run_cons] at hr
      obtain ⟨s₁, he, h1⟩ := Option.bind_eq_some_iff.mp hr
      exact ih (step_crowd hmax hI he) h1
  have hlt := hI'.running
  omega

/-! ## the count -/

/-- **When the connection count is exact.**  With every child gone and every signal handled it is 0
if and only if no child exited while a `SIGCHLD` was pending.  After the wait-for-all loop the
server then admits up to `MAX_CLIENTS` children again, and otherwise only where that is one. -/
theorem connections_exact (hmax : 1 ≤ maxClients) (hrun : run (step maxClients) start es = some s) :
    (Quiet s →
      (s.numConections = 0 ↔ Guarded (step maxClients) (fun s e => ¬ Merges s e) start es)) ∧
    (s.place = .accept → s.running = 0 → (Admits maxClients s ↔
      maxClients = 1 ∨ Guarded (step maxClients) (fun s e => ¬ Merges s e) start es)) := by
  obtain ⟨hle, hiff⟩ := run_drift hrun
  have h0 : drift start = 0 := by decide
  rw [h0] at hle hiff
  rw [← hiff]
  refine ⟨fun hq => by rw [hq.counter], fun hp hr => ⟨fun ha => ?_, admits_of_exact hp hr hmax⟩⟩
  by_contra hno
  obtain ⟨hne, hd⟩ := not_or.mp hno
  refine not_admits (by omega) ⟨by omega, ?_, fun _ => .inr hr⟩ ha
  rw [hr]
  show (0 : Int) < maxClients
  omega

/-- Two children are admitted; the second exits after the signal of the first is handled. -/
theorem connections_exact_two :
    1 ≤ (2 : Int) ∧ ∃ s, run (step 2) start
      [.parent 0, .parent 4, .parent 7, .parent 0, .parent 0, .parent 5, .parent 8, .parent 0,
        .exit, .deliver, .handler, .exit, .deliver, .handler] = some s ∧
      (Quiet s → (s.numConections = 0 ↔ Guarded (step 2) (fun s e => ¬ Merges s e) start
        [.parent 0, .parent 4, .parent 7, .parent 0, .parent 0, .parent 5, .parent 8, .parent 0,
          .exit, .deliver, .handler, .exit, .deliver, .handler])) := by
  refine ⟨by decide, ⟨0, .check, 0, 2, false, false⟩, by decide, ?_⟩
  exact (connections_exact (by decide) (by decide)).1

/-- Two children exit before the handler of the first runs. -/
theorem connection_lost :
    ∃ s, run (step 2) start [.parent 0, .parent 4, .parent 7, .parent 0, .parent 0, .parent 5,
      .parent 8, .parent 0, .exit, .exit, .deliver, .handler] = some s ∧
      Quiet s ∧ s.numConections ≠ 0 := by
  refine ⟨⟨1, .check, 0, 2, false, false⟩, by decide, ⟨rfl, rfl, rfl, ?_⟩, by decide⟩
  decide

end Sockets
