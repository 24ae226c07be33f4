import Mathlib.Data.List.Range
import ZeroOS.Lib.Runs

/-!
# Sockets: the launcher of the clients

`main` of `launchClient.c`, one system call or one access to a counter at a time, beside the clients
that it forks and `trat_sigchld`, which may interrupt it anywhere.  `current_concurrent++` is a load
and a store, with a register between them; what the handler does to the counter meanwhile is lost.

* `Launcher`           the counters, the place of `main`, the clients, and the signal;
* `step`               a step of `main`, of a client, or of `trat_sigchld`;
* `launcher_counts`    **every client is counted**, and the launcher waits for all of them; the
  counter is too high by the decrements that are lost;
* `launcher_reports`   **what the maximum means**: the lines count up to it, and it misses one client
  at most, unless the handler comes between the test and the assignment.
-/

set_option linter.unusedVariables false

namespace Sockets.Launch
open Runs

/-! ## the system -/

/-- the place of `main`: what it does next -/
inductive Place where
  /-- `i < nclients`, and `pidh = fork()` -/
  | fork
  /-- the load of `current_concurrent++` -/
  | count
  /-- its store -/
  | store
  /-- `if (current_concurrent > max_concurrent)` -/
  | test
  /-- `max_concurrent = current_concurrent`, and the line with it -/
  | max
  /-- `while (waitpid(-1, NULL, 0) > 0);` -/
  | wait
  /-- the last line, with `max_concurrent` -/
  | last
  /-- after the last line, or after `exit(1)` -/
  | ended
  deriving DecidableEq

structure Launcher where
  i : Nat
  place : Place
  currentConcurrent : Int
  /-- what `current_concurrent++` has loaded -/
  loaded : Int
  maxConcurrent : Int
  /-- the clients that have not exited -/
  running : Nat
  /-- the clients that have exited, and that nobody has waited for -/
  zombies : Nat
  /-- the clients that the last loop has waited for -/
  waited : Nat
  /-- a `SIGCHLD` waits for its handler -/
  pending : Bool
  /-- `trat_sigchld` is entered, and has not returned: `SIGCHLD` is blocked -/
  handling : Bool
  /-- the numbers in the lines `CURRENT MAX CONCURRENT CLIENTS` -/
  lines : List Int
  /-- the decrements that a store has written over: a history, which nothing reads -/
  lost : Nat
  deriving DecidableEq

inductive Event where
  /-- the next step of `main`; `pidh` is what `fork` returns -/
  | main (pidh : Int)
  /-- a client exits -/
  | exit
  | deliver
  /-- the next round of the loop in `trat_sigchld`, or its end -/
  | handler
  deriving DecidableEq

/-- `waitpid(-1, NULL, 0)` as the condition of its loop -/
def waitpid (s : Launcher) : Option Launcher :=
  if 0 < s.zombies then some { s with zombies := s.zombies - 1, waited := s.waited + 1 }
  else if 0 < s.running then none
  else some { s with place := .last }

/-- `main` forks no more clients after an `exit(1)`, and never gets 0 from `fork`. -/
def main (nclients : Int) (s : Launcher) (pidh : Int) : Option Launcher :=
  match s.place with
  | .fork =>
    if s.i < nclients then
      if pidh < 0 then some { s with place := .ended }
      else if pidh = 0 then none
      else some { s with running := s.running + 1, place := .count }
    else some { s with place := .wait }
  | .count => some { s with loaded := s.currentConcurrent, place := .store }
  | .store => some { s with
      currentConcurrent := s.loaded + 1
      lost := s.lost + (s.loaded - s.currentConcurrent).toNat
      place := .test }
  | .test =>
    if s.currentConcurrent > s.maxConcurrent then some { s with place := .max }
    else some { s with i := s.i + 1, place := .fork }
  | .max => some { s with
      maxConcurrent := s.currentConcurrent
      lines := s.lines ++ [s.currentConcurrent]
      i := s.i + 1
      place := .fork }
  | .wait => waitpid s
  | .last => some { s with place := .ended }
  | .ended => none

/-- `while (waitpid(-1, NULL, WNOHANG) > 0) current_concurrent--;` -/
def tratSigchld (s : Launcher) : Launcher :=
  if 0 < s.zombies then
    { s with zombies := s.zombies - 1, currentConcurrent := s.currentConcurrent - 1 }
  else { s with handling := false }

def step (nclients : Int) (s : Launcher) : Event → Option Launcher
  | .main pidh => if s.handling then none else main nclients s pidh
  | .exit =>
    if 0 < s.running then
      some { s with running := s.running - 1, zombies := s.zombies + 1, pending := true }
    else none
  | .deliver =>
    if s.pending ∧ ¬ s.handling ∧ s.place ≠ .ended then
      some { s with pending := false, handling := true }
    else none
  | .handler => if s.handling then some (tratSigchld s) else none

def start : Launcher := ⟨0, .fork, 0, 0, 0, 0, 0, 0, false, false, [], 0⟩

variable {nclients : Int} {s s' : Launcher} {e : Event} {es : List Event} {pidh : Int}

/-! ## one step -/

/-- what `main` does in one step -/
inductive Main (nclients : Int) (s : Launcher) : Launcher → Prop where
  | forked : s.place = .fork → s.i < nclients →
      Main nclients s { s with running := s.running + 1, place := .count }
  | failed : s.place = .fork → Main nclients s { s with place := .ended }
  | launched : s.place = .fork → nclients ≤ s.i → Main nclients s { s with place := .wait }
  | loads : s.place = .count →
      Main nclients s { s with loaded := s.currentConcurrent, place := .store }
  | counted : s.place = .store → Main nclients s { s with
      currentConcurrent := s.loaded + 1
      lost := s.lost + (s.loaded - s.currentConcurrent).toNat
      place := .test }
  | more : s.place = .test → s.maxConcurrent < s.currentConcurrent →
      Main nclients s { s with place := .max }
  | less : s.place = .test → s.currentConcurrent ≤ s.maxConcurrent →
      Main nclients s { s with i := s.i + 1, place := .fork }
  | line : s.place = .max → Main nclients s { s with
      maxConcurrent := s.currentConcurrent
      lines := s.lines ++ [s.currentConcurrent]
      i := s.i + 1
      place := .fork }
  | waited : s.place = .wait → 0 < s.zombies →
      Main nclients s { s with zombies := s.zombies - 1, waited := s.waited + 1 }
  | alone : s.place = .wait → s.zombies = 0 → s.running = 0 →
      Main nclients s { s with place := .last }
  | ended : s.place = .last → Main nclients s { s with place := .ended }

theorem main_cases (h : main nclients s pidh = some s') : Main nclients s s' := by
  cases hp : s.place with
  | fork =>
    simp only [main, hp] at h
    by_cases hi : s.i < nclients
    · rw [if_pos hi] at h
      by_cases hlt : pidh < 0
      · rw [if_pos hlt] at h
        cases h
        exact .failed hp
      · rw [if_neg hlt, Option.ite_none_left_eq_some] at h
        obtain ⟨-, h⟩ := h
        cases h
        exact .forked hp hi
    · rw [if_neg hi] at h
      cases h
      exact .launched hp (by omega)
  | count =>
    simp only [main, hp] at h
    cases h
    exact .loads hp
  | store =>
    simp only [main, hp] at h
    cases h
    exact .counted hp
  | test =>
    simp only [main, hp] at h
    by_cases hgt : s.currentConcurrent > s.maxConcurrent
    · rw [if_pos hgt] at h
      cases h
      exact .more hp hgt
    · rw [if_neg hgt] at h
      cases h
      exact .less hp (by omega)
  | max =>
    simp only [main, hp] at h
    cases h
    exact .line hp
  | wait =>
    simp only [main, hp] at h
    unfold waitpid at h
    by_cases hz : 0 < s.zombies
    · rw [if_pos hz] at h
      cases h
      exact .waited hp hz
    · rw [if_neg hz, Option.ite_none_left_eq_some] at h
      obtain ⟨hr, h⟩ := h
      cases h
      exact .alone hp (by omega) (by omega)
  | last =>
    simp only [main, hp] at h
    cases h
    exact .ended hp
  | ended =>
    simp only [main, hp] at h
    cases h

/-- what one step does -/
inductive Step (nclients : Int) (s : Launcher) : Event → Launcher → Prop where
  | main (pidh : Int) {s' : Launcher} : Main nclients s s' → Step nclients s (.main pidh) s'
  | exit : 0 < s.running → Step nclients s .exit
      { s with running := s.running - 1, zombies := s.zombies + 1, pending := true }
  | deliver : s.place ≠ .ended → Step nclients s .deliver { s with pending := false, handling := true }
  | reap : 0 < s.zombies → Step nclients s .handler
      { s with zombies := s.zombies - 1, currentConcurrent := s.currentConcurrent - 1 }
  | back : s.zombies = 0 → Step nclients s .handler { s with handling := false }

theorem step_cases (h : step nclients s e = some s') : Step nclients s e s' := by
  cases e with
  | main pidh =>
    simp only [step, Option.ite_none_left_eq_some] at h
    exact .main pidh (main_cases h.2)
  | exit =>
    simp only [step, Option.ite_none_right_eq_some] at h
    obtain ⟨hr, h⟩ := h
    cases h
    exact .exit hr
  | deliver =>
    simp only [step, Option.ite_none_right_eq_some] at h
    obtain ⟨⟨-, -, hp⟩, h⟩ := h
    cases h
    exact .deliver hp
  | handler =>
    simp only [step, Option.ite_none_right_eq_some] at h
    obtain ⟨-, h⟩ := h
    cases h
    unfold tratSigchld
    by_cases hz : 0 < s.zombies
    · rw [if_pos hz]
      exact .reap hz
    · rw [if_neg hz]
      exact .back (by omega)

/-! ## the counter -/

/-- the clients that are forked, and not counted yet -/
def uncounted (s : Launcher) : Int := if s.place = .count ∨ s.place = .store then 1 else 0

/-- the decrements that the next store will write over -/
def fading (s : Launcher) : Nat :=
  if s.place = .store then (s.loaded - s.currentConcurrent).toNat else 0

/-- the client of this round is forked -/
def Place.inRound : Place → Bool
  | .count | .store | .test | .max => true
  | _ => false

/-- the loop is over -/
def Place.behind : Place → Bool
  | .wait | .last | .ended => true
  | _ => false

structure Counts (nclients : Int) (s : Launcher) : Prop where
  /-- the counter is the number of clients that the handler has not waited for, and of the
  decrements that are lost -/
  counter : s.currentConcurrent + uncounted s = s.running + s.zombies + s.waited + s.lost
  waited : 0 < s.waited → s.place.behind = true
  rounds : s.i + (if s.place.inRound then 1 else 0) ≤ nclients.toNat
  clients : s.running + s.zombies + s.waited + s.lost + fading s ≤
    s.i + if s.place.inRound then 1 else 0
  loaded : s.place = .store → s.currentConcurrent ≤ s.loaded
  last : s.place = .last → s.i = nclients.toNat ∧ s.running = 0 ∧ s.zombies = 0
  wait : s.place = .wait → s.i = nclients.toNat
  max : s.maxConcurrent ≤ s.i

theorem Counts.unwaited (hI : Counts nclients s) (hp : s.place.behind = false) : ¬ 0 < s.waited := by
  intro h
  rw [hI.waited h] at hp
  cases hp

theorem Main.counts (hI : Counts nclients s) (h : Main nclients s s') : Counts nclients s' := by
  have hw : s.place.behind = false → ¬ 0 < s.waited := hI.unwaited
  obtain ⟨hc, -, hr, hcl, hld, hl, hwt, hm⟩ := hI
  cases h with
  | forked hp hi =>
    rw [hp] at hw
    simp only [uncounted, fading, hp, Place.inRound, reduceCtorEq, or_self, Bool.false_eq_true,
      if_false] at hc hr hcl
    refine ⟨?_, fun h => absurd h (hw rfl), ?_, ?_, fun h => (by cases h), fun h => (by cases h),
      fun h => (by cases h), hm⟩
    · show s.currentConcurrent + 1 = ((s.running + 1 : Nat) : Int) + s.zombies + s.waited + s.lost
      omega
    · show s.i + 1 ≤ nclients.toNat
      omega
    · show s.running + 1 + s.zombies + s.waited + s.lost + 0 ≤ s.i + 1
      omega
  | failed hp =>
    simp only [uncounted, fading, hp, Place.inRound, reduceCtorEq, or_self, Bool.false_eq_true,
      if_false] at hc hr hcl
    exact ⟨hc, fun _ => rfl, hr, hcl, fun h => (by cases h), fun h => (by cases h),
      fun h => (by cases h), hm⟩
  | launched hp hi =>
    simp only [uncounted, fading, hp, Place.inRound, reduceCtorEq, or_self, Bool.false_eq_true,
      if_false] at hc hr hcl
    refine ⟨hc, fun _ => rfl, hr, hcl, fun h => (by cases h), fun h => (by cases h), fun _ => ?_, hm⟩
    show s.i = nclients.toNat
    omega
  | loads hp =>
    rw [hp] at hw
    simp only [uncounted, fading, hp, Place.inRound, reduceCtorEq, true_or, if_true, if_false]
      at hc hr hcl
    refine ⟨hc, fun h => absurd h (hw rfl), hr, ?_, fun _ => Int.le_refl _, fun h => (by cases h),
      fun h => (by cases h), hm⟩
    show s.running + s.zombies + s.waited + s.lost +
      (s.currentConcurrent - s.currentConcurrent).toNat ≤ s.i + 1
    omega
  | counted hp =>
    rw [hp] at hw
    have hle := hld hp
    simp only [uncounted, fading, hp, Place.inRound, reduceCtorEq, or_true, if_true] at hc hr hcl
    refine ⟨?_, fun h => absurd h (hw rfl), hr, ?_, fun h => (by cases h), fun h => (by cases h),
      fun h => (by cases h), hm⟩
    · show s.loaded + 1 + 0 = (s.running : Int) + s.zombies + s.waited +
        (s.lost + (s.loaded - s.currentConcurrent).toNat : Nat)
      omega
    · show s.running + s.zombies + s.waited + (s.lost + (s.loaded - s.currentConcurrent).toNat) + 0 ≤
        s.i + 1
      omega
  | more hp _ =>
    rw [hp] at hw
    simp only [uncounted, fading, hp, Place.inRound, reduceCtorEq, or_self, if_true, if_false]
      at hc hr hcl
    exact ⟨hc, fun h => absurd h (hw rfl), hr, hcl, fun h => (by cases h), fun h => (by cases h),
      fun h => (by cases h), hm⟩
  | less hp _ =>
    rw [hp] at hw
    simp only [uncounted, fading, hp, Place.inRound, reduceCtorEq, or_self, if_true, if_false]
      at hc hr hcl
    refine ⟨hc, fun h => absurd h (hw rfl), hr, hcl, fun h => (by cases h), fun h => (by cases h),
      fun h => (by cases h), ?_⟩
    show s.maxConcurrent ≤ ((s.i + 1 : Nat) : Int)
    omega
  | line hp =>
    rw [hp] at hw
    simp only [uncounted, fading, hp, Place.inRound, reduceCtorEq, or_self, if_true, if_false]
      at hc hr hcl
    refine ⟨hc, fun h => absurd h (hw rfl), hr, hcl, fun h => (by cases h), fun h => (by cases h),
      fun h => (by cases h), ?_⟩
    show s.currentConcurrent ≤ ((s.i + 1 : Nat) : Int)
    omega
  | waited hp hz =>
    have hwt' := hwt hp
    simp only [uncounted, fading, hp, Place.inRound, reduceCtorEq, or_self, Bool.false_eq_true,
      if_false] at hc hr hcl
    refine ⟨?_, fun _ => ?_, ?_, ?_, fun h => ?_, fun h => ?_, fun _ => hwt', hm⟩
    · show s.currentConcurrent + uncounted s =
        (s.running : Int) + (s.zombies - 1 : Nat) + (s.waited + 1 : Nat) + s.lost
      simp only [uncounted, hp, reduceCtorEq, or_self, if_false]
      omega
    · show s.place.behind = true
      rw [hp]
      rfl
    · show s.i + (if s.place.inRound = true then 1 else 0) ≤ nclients.toNat
      simp only [hp, Place.inRound, Bool.false_eq_true, if_false]
      omega
    · show s.running + (s.zombies - 1) + (s.waited + 1) + s.lost + fading s ≤
        s.i + if s.place.inRound = true then 1 else 0
      simp only [fading, hp, Place.inRound, reduceCtorEq, Bool.false_eq_true, if_false]
      omega
    · cases hp.symm.trans h
    · cases hp.symm.trans h
  | alone hp hz h0 =>
    simp only [uncounted, fading, hp, Place.inRound, reduceCtorEq, or_self, Bool.false_eq_true,
      if_false] at hc hr hcl
    exact ⟨hc, fun _ => rfl, hr, hcl, fun h => (by cases h), fun _ => ⟨hwt hp, h0, hz⟩,
      fun h => (by cases h), hm⟩
  | ended hp =>
    simp only [uncounted, fading, hp, Place.inRound, reduceCtorEq, or_self, Bool.false_eq_true,
      if_false] at hc hr hcl
    exact ⟨hc, fun _ => rfl, hr, hcl, fun h => (by cases h), fun h => (by cases h),
      fun h => (by cases h), hm⟩

theorem step_counts (hI : Counts nclients s) (h : Step nclients s e s') : Counts nclients s' := by
  cases h with
  | main _ hm => exact hm.counts hI
  | deliver _ | back _ =>
    exact ⟨hI.counter, hI.waited, hI.rounds, hI.clients, hI.loaded, hI.last, hI.wait, hI.max⟩
  | exit hr =>
    obtain ⟨hc, hw, hrd, hcl, hld, hl, hwt, hm⟩ := hI
    refine ⟨?_, hw, hrd, ?_, hld, fun h => ?_, hwt, hm⟩
    · show s.currentConcurrent + uncounted s =
        ((s.running - 1 : Nat) : Int) + (s.zombies + 1 : Nat) + s.waited + s.lost
      omega
    · show s.running - 1 + (s.zombies + 1) + s.waited + s.lost + fading s ≤
        s.i + if s.place.inRound then 1 else 0
      omega
    · exact absurd (hl h).2.1 (by omega)
  | reap hz =>
    obtain ⟨hc, hw, hrd, hcl, hld, hl, hwt, hm⟩ := hI
    refine ⟨?_, hw, hrd, ?_, fun hp => ?_, fun h => ?_, hwt, hm⟩
    · show s.currentConcurrent - 1 + uncounted s =
        (s.running : Int) + (s.zombies - 1 : Nat) + s.waited + s.lost
      omega
    · -- behind the load the decrement is one that fades
      show s.running + (s.zombies - 1) + s.waited + s.lost +
        (if s.place = .store then (s.loaded - (s.currentConcurrent - 1)).toNat else 0) ≤
          s.i + if s.place.inRound then 1 else 0
      unfold fading at hcl
      by_cases hp : s.place = .store
      · have hle := hld hp
        rw [if_pos hp] at hcl ⊢
        omega
      · rw [if_neg hp] at hcl ⊢
        omega
    · have hle := hld hp
      show s.currentConcurrent - 1 ≤ s.loaded
      omega
    · exact absurd (hl h).2.2 (by omega)

theorem start_counts : Counts nclients start :=
  ⟨rfl, fun h => absurd h (Nat.lt_irrefl 0), Nat.zero_le _, Nat.le_refl 0, fun h => (by cases h),
    fun h => (by cases h), fun h => (by cases h), Int.le_refl 0⟩

theorem run_counts (h : run (step nclients) start es = some s) : Counts nclients s :=
  run_of_guarded (A := fun _ _ => True) start_counts
    (fun s e s' hI _ he => step_counts hI (step_cases he))
    (guarded_of_forall (fun _ _ => trivial) start es) h

/-- The handler waits for no client between the load and the store of `current_concurrent++`. -/
def Undisturbed (s : Launcher) (e : Event) : Prop := e = .handler → s.place = .store → s.zombies = 0

/-- nothing is lost, and what is loaded is up to date -/
structure Kept (s : Launcher) : Prop where
  lost : s.lost = 0
  loaded : s.place = .store → s.loaded = s.currentConcurrent

theorem step_kept (hI : Kept s) (hu : Undisturbed s e) (h : Step nclients s e s') : Kept s' := by
  obtain ⟨h0, hld⟩ := hI
  cases h with
  | exit _ | deliver _ | back _ => exact ⟨h0, hld⟩
  | reap hz => exact ⟨h0, fun hp => absurd (hu rfl hp) (by omega)⟩
  | main _ hm =>
    cases hm with
    | loads hp => exact ⟨h0, fun _ => rfl⟩
    | counted hp =>
      refine ⟨?_, fun h => (by cases h)⟩
      show s.lost + (s.loaded - s.currentConcurrent).toNat = 0
      rw [h0, hld hp, Int.sub_self]
      rfl
    | waited hp _ => exact ⟨h0, hld⟩
    | _ => exact ⟨h0, fun h => (by cases h)⟩

/-- **Every client is counted.**  Wherever the handler comes between: the counter is the number of
clients that are forked and that it has not waited for, one less before the store of
`current_concurrent++`, and more by the decrements that such a store has written over.  When the
launcher writes its last line all its clients have exited, and the counter has the number of those
that the last loop has waited for, and of the lost decrements.  Nothing is lost if the handler waits
for nobody between a load and its store. -/
theorem launcher_counts (h : run (step nclients) start es = some s) :
    Counts nclients s ∧ -1 ≤ s.currentConcurrent ∧
      (s.place ≠ .count ∧ s.place ≠ .store → 0 ≤ s.currentConcurrent) ∧
      s.currentConcurrent ≤ nclients.toNat ∧ s.maxConcurrent ≤ nclients.toNat ∧
      (s.place = .last → s.i = nclients.toNat ∧ s.running = 0 ∧
        s.currentConcurrent = s.waited + s.lost) ∧
      (Guarded (step nclients) Undisturbed start es → s.lost = 0) := by
  have hI := run_counts h
  have hc := hI.counter
  have hr := hI.rounds
  have hcl := hI.clients
  have hm := hI.max
  unfold uncounted at hc
  refine ⟨hI, ?_, fun hp => ?_, ?_, ?_, fun hp => ?_, fun hu => ?_⟩
  · split at hc <;> omega
  · rw [if_neg (by simp [hp])] at hc
    omega
  · split at hc <;> omega
  · omega
  · obtain ⟨hn, h0, hz⟩ := hI.last hp
    rw [if_neg (by simp [hp])] at hc
    exact ⟨hn, h0, by omega⟩
  · have hk : Kept s := run_of_guarded ⟨rfl, fun h => (by cases h)⟩
      (fun s e s' hI hA he => step_kept hI hA (step_cases he)) hu h
    exact hk.lost

/-- two clients; the first exits between the load and the store for the second -/
theorem launcher_counts_two :
    run (step 2) start [.main 7, .main 0, .main 0, .main 0, .main 0, .main 8, .main 0, .exit,
        .deliver, .handler, .handler, .main 0] =
      some ⟨1, .test, 2, 1, 1, 1, 0, 0, false, false, [1], 1⟩ ∧
    Counts 2 ⟨1, .test, 2, 1, 1, 1, 0, 0, false, false, [1], 1⟩ ∧ (-1 : Int) ≤ 2 ∧
      (Place.test ≠ .count ∧ Place.test ≠ .store → (0 : Int) ≤ 2) ∧ (2 : Int) ≤ (2 : Int).toNat ∧
      (1 : Int) ≤ (2 : Int).toNat ∧
      (Place.test = .last → 1 = (2 : Int).toNat ∧ 1 = 0 ∧ (2 : Int) = (0 : Nat) + (1 : Nat)) ∧
      (Guarded (step 2) Undisturbed start [.main 7, .main 0, .main 0, .main 0, .main 0, .main 8,
        .main 0, .exit, .deliver, .handler, .handler, .main 0] → 1 = 0) := by
  have h : run (step 2) start [.main 7, .main 0, .main 0, .main 0, .main 0, .main 8, .main 0,
      .exit, .deliver, .handler, .handler, .main 0] =
        some ⟨1, .test, 2, 1, 1, 1, 0, 0, false, false, [1], 1⟩ := rfl
  exact ⟨h, launcher_counts h⟩

/-! ## the maximum -/

/-- The handler waits for no client between the test and the assignment. -/
def Apart (s : Launcher) (e : Event) : Prop := e = .handler → s.place = .max → s.zombies = 0

/-- the numbers 1, 2, .. up to `m` -/
def upTo (m : Int) : List Int := (List.range m.toNat).map fun k : Nat => (k : Int) + 1

theorem upTo_succ {m : Int} (h : 0 ≤ m) : upTo (m + 1) = upTo m ++ [m + 1] := by
  have h1 : (m + 1).toNat = m.toNat + 1 := by omega
  have h2 : (m.toNat : Int) = m := Int.toNat_of_nonneg h
  unfold upTo
  rw [h1, List.range_succ, List.map_append, List.map_singleton, h2]

structure Reports (s : Launcher) : Prop where
  nonneg : 0 ≤ s.maxConcurrent
  lines : s.lines = upTo s.maxConcurrent
  le : s.currentConcurrent ≤ s.maxConcurrent + if s.place = .test ∨ s.place = .max then 1 else 0
  loaded : s.place = .store → s.loaded ≤ s.maxConcurrent
  max : s.place = .max → s.maxConcurrent < s.currentConcurrent

theorem Main.reports (hI : Reports s) (h : Main nclients s s') : Reports s' := by
  obtain ⟨h0, hl, hle, hld, hmax⟩ := hI
  cases h with
  | forked hp _ | failed hp | launched hp _ | alone hp _ _ | ended hp =>
    simp only [hp, reduceCtorEq, or_false, if_false] at hle
    refine ⟨h0, hl, ?_, fun h => (by cases h), fun h => (by cases h)⟩
    simp only [reduceCtorEq, or_false, if_false]
    exact hle
  | waited hp _ => exact ⟨h0, hl, hle, hld, hmax⟩
  | loads hp =>
    simp only [hp, reduceCtorEq, or_false, if_false] at hle
    refine ⟨h0, hl, ?_, fun _ => ?_, fun h => (by cases h)⟩
    · simp only [reduceCtorEq, or_false, if_false]
      exact hle
    · show s.currentConcurrent ≤ s.maxConcurrent
      omega
  | counted hp =>
    have hload := hld hp
    refine ⟨h0, hl, ?_, fun h => (by cases h), fun h => (by cases h)⟩
    simp only [reduceCtorEq, or_false, if_true]
    omega
  | more hp hlt =>
    simp only [hp, reduceCtorEq, or_false, if_true] at hle
    refine ⟨h0, hl, ?_, fun h => (by cases h), fun _ => hlt⟩
    simp only [reduceCtorEq, or_true, if_true]
    exact hle
  | less hp hge =>
    refine ⟨h0, hl, ?_, fun h => (by cases h), fun h => (by cases h)⟩
    simp only [reduceCtorEq, or_false, if_false]
    omega
  | line hp =>
    have hgt := hmax hp
    simp only [hp, reduceCtorEq, or_true, if_true] at hle
    have heq : s.currentConcurrent = s.maxConcurrent + 1 := by omega
    refine ⟨?_, ?_, ?_, fun h => (by cases h), fun h => (by cases h)⟩
    · show 0 ≤ s.currentConcurrent
      omega
    · show s.lines ++ [s.currentConcurrent] = upTo s.currentConcurrent
      rw [heq, upTo_succ h0, hl]
    · simp only [reduceCtorEq, or_false, if_false]
      omega

theorem step_reports (hI : Reports s) (ha : Apart s e) (h : Step nclients s e s') :
    Reports s' := by
  cases h with
  | main _ hm => exact hm.reports hI
  | exit _ | deliver _ | back _ => exact ⟨hI.nonneg, hI.lines, hI.le, hI.loaded, hI.max⟩
  | reap hz =>
    have hle := hI.le
    refine ⟨hI.nonneg, hI.lines, ?_, hI.loaded, fun hp => ?_⟩
    · show s.currentConcurrent - 1 ≤ s.maxConcurrent + if s.place = .test ∨ s.place = .max then 1 else 0
      omega
    · exact absurd (ha rfl hp) (by omega)

theorem start_reports : Reports start :=
  ⟨Int.le_refl 0, rfl, Int.le_refl 0, fun h => (by cases h), fun h => (by cases h)⟩

/-- **What the maximum means.**  If the handler never comes between the test and the assignment, the
lines count from 1 up to the maximum, and never was there more than one client above it: a lost
decrement only makes the counter higher. -/
theorem launcher_reports (h : run (step nclients) start es = some s)
    (ha : Guarded (step nclients) Apart start es) :
    s.lines = upTo s.maxConcurrent ∧ (s.running : Int) + s.zombies ≤ s.maxConcurrent + 1 ∧
      (s.place = .fork ∨ s.place = .wait → (s.running : Int) + s.zombies ≤ s.maxConcurrent) := by
  have hc := (run_counts h).counter
  have hR : Reports s := run_of_guarded start_reports
    (fun s e s' hI hA he => step_reports hI hA (step_cases he)) ha h
  have hle := hR.le
  unfold uncounted at hc
  refine ⟨hR.lines, ?_, fun hp => ?_⟩
  · by_cases hcount : s.place = .count ∨ s.place = .store
    · rw [if_neg (by obtain hp | hp := hcount <;> simp [hp])] at hle
      rw [if_pos hcount] at hc
      omega
    · rw [if_neg hcount] at hc
      split at hle <;> omega
  · rw [if_neg (by obtain hp | hp := hp <;> simp [hp])] at hle hc
    omega

theorem launcher_reports_one :
    run (step 2) start [.main 7, .main 0, .main 0, .main 0, .main 0] =
      some ⟨1, .fork, 1, 0, 1, 1, 0, 0, false, false, [1], 0⟩ ∧
    Guarded (step 2) Apart start [.main 7, .main 0, .main 0, .main 0, .main 0] ∧
    [1] = upTo 1 ∧ ((1 : Nat) : Int) + (0 : Nat) ≤ 1 + 1 ∧
      (Place.fork = .fork ∨ Place.fork = .wait → ((1 : Nat) : Int) + (0 : Nat) ≤ 1) := by
  have hrun : run (step 2) start [.main 7, .main 0, .main 0, .main 0, .main 0] =
      some ⟨1, .fork, 1, 0, 1, 1, 0, 0, false, false, [1], 0⟩ := rfl
  have ha : Guarded (step 2) Apart start [.main 7, .main 0, .main 0, .main 0, .main 0] :=
    guarded_of_mem (fun e he s h => absurd (h ▸ he) (by decide)) start
  exact ⟨hrun, ha, launcher_reports hrun ha⟩

/-- a handler between the test and the assignment makes the maximum smaller -/
example : (run (step 3) start [.main 7, .main 0, .main 0, .main 0, .main 0, .main 8, .main 0, .main 0,
    .main 0, .exit, .exit, .deliver, .handler, .handler, .handler, .main 0]).map (·.lines) =
      some [1, 0] := rfl

end Sockets.Launch
