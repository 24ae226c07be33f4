import ZeroOS.Lib.Runs

/-!
# Sockets: the bounded server

`boundedServerLoop` and `doServiceFork` of the parent, one system call or one statement with
`NUM_CONECTIONS` at a time, beside the children that it forks and the `SIGCHLD` that their exits
raise.  `NUM_CONECTIONS++` is one step: no signal comes between its load and its store.

* `Server`          the counter, the place of the parent, the children, and the signal;
* `step`            a step of the parent, of a child, or of `func_sigchild`;
* `drift`           how far the counter is from what it counts;
* `step_drift`      the counter drifts when a child exits while a `SIGCHLD` is pending, and then only;
* `server_bounded`  **the server respects its bound**;
* `counter_range`   a parent that handles its signals first keeps the counter in `-1 .. MAX_CLIENTS`.
-/

set_option linter.unusedVariables false

namespace Sockets
open Runs

/-! ## the system -/

/-- the place of the parent in `main`'s loop: what it does next -/
inductive Place where
  /-- `if (NUM_CONECTIONS >= MAX_CLIENTS)` -/
  | check
  /-- `while (waitpid(-1, NULL, 0) > 0);` -/
  | waitpid
  /-- `connectionFD = acceptNewConnections(socketFD);` -/
  | accept
  /-- `pid = fork();` -/
  | fork
  /-- `NUM_CONECTIONS++;` -/
  | forked
  /-- after `exit(1)` -/
  | exited
  deriving DecidableEq

structure Server where
  numConections : Int
  place : Place
  /-- the service children that have not exited -/
  running : Nat
  /-- the children that have exited, and that the parent has not waited for -/
  zombies : Nat
  /-- a `SIGCHLD` waits for its handler -/
  pending : Bool
  /-- `func_sigchild` is entered, and has not returned: `SIGCHLD` is blocked -/
  handling : Bool
  deriving DecidableEq

inductive Event where
  /-- the next step of the parent; `r` is what `accept` or `fork` returns -/
  | parent (r : Int)
  /-- a child exits -/
  | exit
  | deliver
  /-- `func_sigchild` runs and returns -/
  | handler
  deriving DecidableEq

def funcSigchild (s : Server) : Server := { s with numConections := s.numConections - 1 }

/-- `waitpid(-1, NULL, 0)` as the condition of its loop.  It blocks while there are children and
none has exited; without children it returns -1, and the loop ends. -/
def waitpid (s : Server) : Option Server :=
  if 0 < s.zombies then some { s with zombies := s.zombies - 1 }
  else if 0 < s.running then none
  else some { s with place := .accept }

/-- `acceptNewConnections` itself exits when `accept` fails. -/
def acceptNewConnections (s : Server) (connectionFD : Int) : Server :=
  { s with place := if connectionFD < 0 then .exited else .fork }

/-- The parent never gets 0 from `fork`. -/
def doServiceFork (s : Server) (pid : Int) : Option Server :=
  if pid < 0 then some { s with place := .exited }
  else if pid = 0 then none
  else some { s with running := s.running + 1, place := .forked }

def boundedServerLoop (maxClients : Int) (s : Server) (r : Int) : Option Server :=
  match s.place with
  | .check => some { s with place := if s.numConections ≥ maxClients then .waitpid else .accept }
  | .waitpid => waitpid s
  | .accept => some (acceptNewConnections s r)
  | .fork => doServiceFork s r
  | .forked => some { s with numConections := s.numConections + 1, place := .check }
  | .exited => none

def step (maxClients : Int) (s : Server) : Event → Option Server
  | .parent r => if s.handling then none else boundedServerLoop maxClients s r
  | .exit =>
    if 0 < s.running then
      some { s with running := s.running - 1, zombies := s.zombies + 1, pending := true }
    else none
  | .deliver =>
    if s.pending ∧ ¬ s.handling ∧ s.place ≠ .exited then
      some { s with pending := false, handling := true }
    else none
  | .handler => if s.handling then some { funcSigchild s with handling := false } else none

/-- `main` has set `NUM_CONECTIONS` to 0 and installed the handler. -/
def start : Server := ⟨0, .check, 0, 0, false, false⟩

variable {maxClients : Int} {s s' : Server} {e : Event} {r : Int}

/-! ## one step -/

/-- what the parent does in one step -/
inductive Parent (maxClients : Int) (s : Server) : Server → Prop where
  | full : s.place = .check → maxClients ≤ s.numConections →
      Parent maxClients s { s with place := .waitpid }
  | room : s.place = .check → s.numConections < maxClients →
      Parent maxClients s { s with place := .accept }
  | reap : s.place = .waitpid → 0 < s.zombies →
      Parent maxClients s { s with zombies := s.zombies - 1 }
  | reaped : s.place = .waitpid → s.zombies = 0 → s.running = 0 →
      Parent maxClients s { s with place := .accept }
  | accepted : s.place = .accept → Parent maxClients s { s with place := .fork }
  | failed : s.place = .accept ∨ s.place = .fork → Parent maxClients s { s with place := .exited }
  | forked : s.place = .fork →
      Parent maxClients s { s with running := s.running + 1, place := .forked }
  | counted : s.place = .forked →
      Parent maxClients s { s with numConections := s.numConections + 1, place := .check }

theorem parent_cases (h : boundedServerLoop maxClients s r = some s') :
    Parent maxClients s s' := by
  cases hp : s.place with
  | check =>
    simp only [boundedServerLoop, hp, Option.some.injEq] at h
    subst h
    by_cases hc : s.numConections ≥ maxClients
    · rw [if_pos hc]
      exact .full hp hc
    · rw [if_neg hc]
      exact .room hp (by omega)
  | waitpid =>
    simp only [boundedServerLoop, hp] at h
    unfold waitpid at h
    by_cases hz : 0 < s.zombies
    · rw [if_pos hz] at h
      cases h
      exact .reap hp hz
    · rw [if_neg hz] at h
      by_cases hr : 0 < s.running
      · rw [if_pos hr] at h
        cases h
      · rw [if_neg hr] at h
        cases h
        exact .reaped hp (by omega) (by omega)
  | accept =>
    simp only [boundedServerLoop, hp, acceptNewConnections, Option.some.injEq] at h
    subst h
    by_cases hc : r < 0
    · rw [if_pos hc]
      exact .failed (.inl hp)
    · rw [if_neg hc]
      exact .accepted hp
  | fork =>
    simp only [boundedServerLoop, hp] at h
    unfold doServiceFork at h
    by_cases hc : r < 0
    · rw [if_pos hc] at h
      cases h
      exact .failed (.inr hp)
    · rw [if_neg hc] at h
      by_cases h0 : r = 0
      · rw [if_pos h0] at h
        cases h
      · rw [if_neg h0] at h
        cases h
        exact .forked hp
  | forked =>
    simp only [boundedServerLoop, hp] at h
    cases h
    exact .counted hp
  | exited =>
    simp only [boundedServerLoop, hp] at h
    cases h

/-- what one step does -/
inductive Step (maxClients : Int) (s : Server) : Event → Server → Prop where
  | parent (r : Int) {s' : Server} : s.handling = false → Parent maxClients s s' →
      Step maxClients s (.parent r) s'
  | exit : 0 < s.running → Step maxClients s .exit
      { s with running := s.running - 1, zombies := s.zombies + 1, pending := true }
  | deliver : s.pending = true → s.handling = false →
      Step maxClients s .deliver { s with pending := false, handling := true }
  | handler : s.handling = true → Step maxClients s .handler { funcSigchild s with handling := false }

theorem step_cases (h : step maxClients s e = some s') : Step maxClients s e s' := by
  cases e with
  | parent r =>
    simp only [step, Option.ite_none_left_eq_some] at h
    exact .parent r (Bool.eq_false_iff.mpr h.1) (parent_cases h.2)
  | exit =>
    simp only [step, Option.ite_none_right_eq_some] at h
    obtain ⟨hr, h⟩ := h
    cases h
    exact .exit hr
  | deliver =>
    simp only [step, Option.ite_none_right_eq_some] at h
    obtain ⟨⟨hp, hh, -⟩, h⟩ := h
    cases h
    exact .deliver hp (Bool.eq_false_iff.mpr hh)
  | handler =>
    simp only [step, Option.ite_none_right_eq_some] at h
    obtain ⟨hh, h⟩ := h
    cases h
    exact .handler hh

/-! ## the drift -/

/-- how much `NUM_CONECTIONS` will be too high, once every signal is handled and the last child is
counted -/
def drift (s : Server) : Int :=
  s.numConections + (if s.place = .forked then 1 else 0) -
    (s.running + (if s.pending then 1 else 0) + (if s.handling then 1 else 0))

theorem counter_eq (s : Server) :
    s.numConections + (if s.place = .forked then 1 else 0) =
      drift s + s.running + (if s.pending then 1 else 0) + (if s.handling then 1 else 0) := by
  unfold drift
  omega

/-- a `SIGCHLD` that is lost in the pending one -/
def Merges (s : Server) (e : Event) : Prop := e = .exit ∧ s.pending = true

instance : Decidable (Merges s e) := inferInstanceAs (Decidable (_ ∧ _))

theorem Parent.drift (h : Parent maxClients s s') : drift s' = drift s := by
  unfold Sockets.drift
  cases h with
  | full hp _ | room hp _ | reaped hp _ _ | accepted hp => simp [hp]
  | reap hp _ => rfl
  | failed hp =>
    have hne : s.place ≠ .forked := by
      intro h
      simp [h] at hp
    simp [hne]
  | forked hp =>
    simp [hp]
    omega
  | counted hp => simp [hp]

/-- **Only a merged signal makes the counter drift.** -/
theorem step_drift (h : step maxClients s e = some s') :
    drift s' = drift s + if Merges s e then 1 else 0 := by
  cases step_cases h with
  | parent r _ hp =>
    have hm : ¬ Merges s (.parent r) := by simp [Merges]
    rw [hp.drift, if_neg hm, Int.add_zero]
  | exit hr =>
    cases hp : s.pending with
    | true =>
      rw [if_pos ⟨rfl, hp⟩]
      simp [drift, hp]
      omega
    | false =>
      have hm : ¬ Merges s .exit := by simp [Merges, hp]
      rw [if_neg hm]
      simp [drift, hp]
      omega
  | deliver hp hh =>
    simp [drift, Merges, hp, hh]
  | handler hh =>
    simp [drift, Merges, hh, funcSigchild]
    omega

theorem drift_le (h : step maxClients s e = some s') : drift s ≤ drift s' := by
  rw [step_drift h]
  split <;> omega

/-! ## the bound -/

/-- the parent has passed its check, and has not forked -/
def Admitting (s : Server) : Prop := s.place = .accept ∨ s.place = .fork

/-- a new child is forked behind the check only -/
theorem Parent.running (h : Parent maxClients s s') :
    s'.running = s.running ∨ (Admitting s ∧ s'.running = s.running + 1) := by
  cases h with
  | forked hp => exact .inr ⟨.inr hp, rfl⟩
  | full | room | reap | reaped | accepted | failed | counted => exact .inl rfl

/-- The parent comes to the `fork` through its check, where it finds room, or through the
wait-for-all loop, which leaves no child. -/
theorem Parent.admitting (h : Parent maxClients s s') (ha : Admitting s') :
    s'.running = s.running ∧ s'.numConections = s.numConections ∧
      (Admitting s ∨ (s.place = .check ∧ s.numConections < maxClients) ∨ s.running = 0) := by
  cases h with
  | room hp hlt => exact ⟨rfl, rfl, .inr (.inl ⟨hp, hlt⟩)⟩
  | reaped hp _ h0 => exact ⟨rfl, rfl, .inr (.inr h0)⟩
  | accepted hp => exact ⟨rfl, rfl, .inl (.inl hp)⟩
  | reap hp _ => exact ⟨rfl, rfl, .inl ha⟩
  | full | failed | forked | counted => simp [Admitting] at ha

structure Bounded (maxClients : Int) (s : Server) : Prop where
  drift : 0 ≤ drift s
  running : s.running ≤ maxClients
  admitting : Admitting s → s.running < maxClients

/-- the counter is an upper bound of what it counts -/
theorem running_le (h : 0 ≤ drift s) (hp : s.place ≠ .forked) : s.running ≤ s.numConections := by
  unfold drift at h
  rw [if_neg hp] at h
  split at h <;> split at h <;> omega

theorem Parent.bounded (hmax : 1 ≤ maxClients) (hI : Bounded maxClients s)
    (h : Parent maxClients s s') : Bounded maxClients s' := by
  have hb := hI.running
  refine ⟨h.drift ▸ hI.drift, ?_, fun ha => ?_⟩
  · obtain hr | ⟨ha, hr⟩ := h.running
    · omega
    · have hlt := hI.admitting ha
      omega
  · obtain ⟨hr, -, ha | ⟨hp, hlt⟩ | h0⟩ := h.admitting ha
    · have hlt := hI.admitting ha
      omega
    · have hle := running_le hI.drift (by simp [hp])
      omega
    · omega

theorem step_bounded (hmax : 1 ≤ maxClients) (hI : Bounded maxClients s)
    (h : step maxClients s e = some s') : Bounded maxClients s' := by
  have hd : 0 ≤ drift s' := Int.le_trans hI.drift (drift_le h)
  cases step_cases h with
  | parent r _ hp => exact hp.bounded hmax hI
  | exit hr =>
    have hb := hI.running
    refine ⟨hd, ?_, fun ha => ?_⟩
    · show ((s.running - 1 : Nat) : Int) ≤ maxClients
      omega
    · have hlt := hI.admitting ha
      show ((s.running - 1 : Nat) : Int) < maxClients
      omega
  | deliver hp hh => exact ⟨hd, hI.running, hI.admitting⟩
  | handler hh => exact ⟨hd, hI.running, hI.admitting⟩

theorem start_bounded (hmax : 1 ≤ maxClients) : Bounded maxClients start := by
  refine ⟨by decide, ?_, fun ha => ?_⟩
  · show ((0 : Nat) : Int) ≤ maxClients
    omega
  · simp [Admitting, start] at ha

/-- **The server respects its bound**: in every run there are never more than `MAX_CLIENTS` service
children that have not exited, and the parent never checks a counter that is below their number. -/
theorem server_bounded (hmax : 1 ≤ maxClients) (es : List Event) :
    Always (step maxClients) (fun s => s.running ≤ maxClients ∧
      (s.place = .check → s.running ≤ s.numConections)) start es := by
  apply always_of_invariant (I := Bounded maxClients) (start_bounded hmax)
  · intro s hI
    exact ⟨hI.running, fun hp => running_le hI.drift (by simp [hp])⟩
  · intro s e s' hI he
    exact step_bounded hmax hI he

theorem server_bounded_two : 1 ≤ (2 : Int) ∧ Always (step 2) (fun s => s.running ≤ (2 : Int) ∧
    (s.place = .check → s.running ≤ s.numConections)) start
    [.parent 0, .parent 4, .parent 7, .parent 0, .parent 0, .parent 4, .exit, .parent 8] :=
  ⟨by decide, server_bounded (by decide) _⟩

/-! ## the range of the counter -/

/-- A signal is handled before the parent goes on.  Only `waitpid` returns with the signal of the
child that it has waited for. -/
def Prompt (s : Server) : Event → Prop
  | .parent _ => s.place ≠ .waitpid → s.pending = false
  | .exit | .deliver | .handler => True

structure InRange (maxClients : Int) (s : Server) : Prop where
  low : 0 ≤ drift s
  /-- one child more than the drift has been running -/
  drift : drift s < maxClients
  high : s.numConections + (if s.place = .forked then 1 else 0) ≤ maxClients
  admitting : Admitting s → s.numConections < maxClients ∨ s.running = 0

theorem Parent.inRange (hI : InRange maxClients s) (hh : s.handling = false)
    (hpr : s.place ≠ .waitpid → s.pending = false) (h : Parent maxClients s s') :
    InRange maxClients s' := by
  have hhigh := hI.high
  refine ⟨h.drift ▸ hI.low, h.drift ▸ hI.drift, ?_, ?_⟩
  · cases h with
    | forked hp =>
      have hd := hI.drift
      have hlt := hI.admitting (.inr hp)
      have hpend := hpr (by simp [hp])
      have heq := counter_eq s
      simp only [hp, hh, hpend, reduceCtorEq, Bool.false_eq_true, if_false] at heq
      show s.numConections + 1 ≤ maxClients
      omega
    | counted hp =>
      rw [if_pos hp] at hhigh
      show s.numConections + 1 + 0 ≤ maxClients
      omega
    | full hp | room hp | reap hp | reaped hp | accepted hp =>
      simp [hp] at hhigh ⊢
      exact hhigh
    | failed hp =>
      have hne : s.place ≠ .forked := by
        intro h
        simp [h] at hp
      simp [hne] at hhigh ⊢
      exact hhigh
  · intro ha
    obtain ⟨hr, hn, hcase⟩ := h.admitting ha
    rw [hr, hn]
    obtain ha | ⟨-, hlt⟩ | h0 := hcase
    · exact hI.admitting ha
    · exact .inl hlt
    · exact .inr h0

theorem step_inRange (hI : InRange maxClients s) (hpr : Prompt s e)
    (h : step maxClients s e = some s') : InRange maxClients s' := by
  have hlow := Int.le_trans hI.low (drift_le h)
  have hd := step_drift h
  have hhigh := hI.high
  cases step_cases h with
  | parent r hh hp => exact hp.inRange hI hh hpr
  | exit hr =>
    refine ⟨hlow, ?_, hhigh, fun ha => (hI.admitting ha).imp_right fun h0 => ?_⟩
    · have hlt := hI.drift
      rw [hd]
      by_cases hm : Merges s .exit
      · -- the child that exits and the pending signal are both in the counter
        have heq := counter_eq s
        rw [if_pos hm.2] at heq
        rw [if_pos hm]
        have h0 : 0 ≤ if s.handling then (1 : Int) else 0 := by split <;> decide
        omega
      · rw [if_neg hm]
        omega
    · show s.running - 1 = 0
      omega
  | deliver hp hh => exact ⟨hlow, by simpa [hd, Merges] using hI.drift, hhigh, hI.admitting⟩
  | handler hh =>
    refine ⟨hlow, by simpa [hd, Merges] using hI.drift, ?_, fun ha => ?_⟩
    · show s.numConections - 1 + (if s.place = .forked then 1 else 0) ≤ maxClients
      omega
    · refine (hI.admitting ha).imp_left fun hlt => ?_
      show s.numConections - 1 < maxClients
      omega

/-- The counter never leaves the range of an `int`. -/
theorem counter_range (hmax : 1 ≤ maxClients) (es : List Event)
    (hpr : Guarded (step maxClients) Prompt start es) :
    Always (step maxClients) (fun s => -1 ≤ s.numConections ∧ s.numConections ≤ maxClients)
      start es := by
  have hstart : InRange maxClients start := by
    refine ⟨by decide, ?_, ?_, fun ha => ?_⟩
    · show (0 : Int) < maxClients
      omega
    · show (0 : Int) ≤ maxClients
      omega
    · simp [Admitting, start] at ha
  refine always_of_guarded hstart (fun s hI => ⟨?_, ?_⟩)
    (fun _ _ _ hI hA he => step_inRange hI hA he) hpr
  · have heq := counter_eq s
    have hlow := hI.low
    split at heq <;> split at heq <;> split at heq <;> omega
  · have hhigh := hI.high
    split at hhigh <;> omega

end Sockets
