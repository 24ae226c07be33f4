import Mathlib.Data.List.Range
import ZeroOS.Sockets.Server

/-!
# Sockets: the four schemes of the server

`setScheme` and the loops of `serverSocket.c`, with the descriptors of the server process.  Neither
the loops nor `doService` close a connection, and `deleteSocket` is called before `exit` only.

* `lowest`                what `socket` and `accept` return: the lowest free descriptor;
* `serverLoop`            one step of the loop of the scheme;
* `Leaks`                 the server holds the descriptor of every connection;
* `connections_limited`   **every scheme ends with the descriptors of its process**;
* `bounded_is_scheme`     what the bounded server does is done by the scheme 3 of this module.
-/

set_option linter.unusedVariables false

namespace Sockets.Schemes
open Runs

/-! ## descriptors -/

/-- `openMax` is the limit of the process; `none` for `EMFILE` -/
def lowest (openMax : Nat) (fds : List Nat) : Option Nat :=
  (List.range openMax).find? fun fd => decide (fd ∉ fds)

theorem find_range {n m : Nat} : (List.range m).find? (fun fd => decide (fd ∉ List.range n)) =
    if n < m then some n else none := by
  induction m with
  | zero => rfl
  | succ m ih =>
    rw [List.range_succ, List.find?_append, ih]
    by_cases h : n < m
    · rw [if_pos h, if_pos (by omega)]
      rfl
    · rw [if_neg h, Option.none_or, List.find?_singleton]
      by_cases hm : n < m + 1
      · rw [if_pos hm, if_pos (by simp; omega), show n = m by omega]
      · rw [if_neg hm, if_neg (by simp; omega)]

/-! ## the server -/

inductive Scheme where
  | sequential
  | unbounded
  | bounded
  | threaded
  deriving DecidableEq

/-- For another number `ServerLoop` stays a null pointer. -/
def setScheme (s : Int) : Option Scheme :=
  if s = 1 then some .sequential
  else if s = 2 then some .unbounded
  else if s = 3 then some .bounded
  else if s = 4 then some .threaded
  else none

theorem setScheme_three : setScheme 3 = some .bounded :=
  rfl

inductive Place where
  /-- what a loop does before its `accept`: the test and the wait-for-all loop of the bounded one -/
  | check
  /-- `acceptNewConnections(socketFD)` -/
  | accept
  /-- `doService(connectionFD)`, `fork()` or `pthread_create(..)` -/
  | serve (connectionFD : Nat)
  /-- the process has ended -/
  | exited
  deriving DecidableEq

structure Process where
  place : Place
  /-- the open descriptors -/
  fds : List Nat
  /-- history: the connections that `accept` has returned -/
  accepted : Nat
  numConections : Int
  deriving DecidableEq

/-- `ret` is what the system call, or the service, returns.  `accept` can fail for other reasons than
the limit; `acceptNewConnections` then ends the process, so that the loops do not see it. -/
def acceptNewConnections (openMax : Nat) (p : Process) (ret : Int) : Process :=
  match lowest openMax p.fds with
  | none => { p with place := .exited }
  | some fd =>
    if ret < 0 then { p with place := .exited }
    else { p with place := .serve fd, fds := p.fds ++ [fd], accepted := p.accepted + 1 }

/-- `fork` in the parent -/
def doServiceFork (p : Process) (pid : Int) : Process :=
  if pid < 0 then { p with place := .exited }
  else { p with place := .check, numConections := p.numConections + 1 }

/-- The service ends the whole process when a `write` to the connection fails. -/
def serve (scheme : Scheme) (p : Process) (ret : Int) : Process :=
  match scheme with
  | .sequential => if ret < 0 then { p with place := .exited } else { p with place := .check }
  | .unbounded | .bounded => doServiceFork p ret
  | .threaded => if ret ≠ 0 then { p with place := .exited } else { p with place := .check }

inductive Event where
  /-- the next step of the loop -/
  | loop (ret : Int)
  /-- `func_sigchild`: a child has ended -/
  | sigchild
  /-- `exit(1)` in a service thread -/
  | threadExit
  deriving DecidableEq

/-- The call of a null pointer ends the process. -/
def serverLoop (loop : Option Scheme) (openMax : Nat) (p : Process) (ret : Int) : Option Process :=
  match p.place, loop with
  | .exited, _ => none
  | _, none => some { p with place := .exited }
  | .check, some _ => some { p with place := .accept }
  | .accept, some _ => some (acceptNewConnections openMax p ret)
  | .serve _, some scheme => some (serve scheme p ret)

/-- `schem` is the argument of the server -/
def step (schem : Int) (openMax : Nat) (p : Process) : Event → Option Process
  | .loop ret => serverLoop (setScheme schem) openMax p ret
  | .sigchild =>
    if p.place ≠ .exited then some { p with numConections := p.numConections - 1 } else none
  | .threadExit =>
    if setScheme schem = some .threaded ∧ p.place ≠ .exited then some { p with place := .exited } else none

/-- `createServerSocket` has returned 3 -/
def start : Process := ⟨.check, [0, 1, 2, 3], 0, 0⟩

variable {schem : Int} {openMax : Nat} {p p' : Process} {e : Event} {es : List Event} {ret : Int}

/-! ## the descriptors of a run -/

structure Leaks (openMax : Nat) (p : Process) : Prop where
  fds : p.fds = List.range (4 + p.accepted)
  limit : 4 + p.accepted ≤ max 4 openMax
  serve : ∀ fd, p.place = .serve fd → fd + 1 = 4 + p.accepted

/-- a step that leaves the descriptors alone, and does not serve a new connection -/
theorem Leaks.same (hI : Leaks openMax p) (hf : p'.fds = p.fds) (ha : p'.accepted = p.accepted)
    (hp : ∀ fd, p'.place = .serve fd → p.place = .serve fd) : Leaks openMax p' := by
  obtain ⟨hfds, hlim, hs⟩ := hI
  refine ⟨?_, ?_, fun fd h => ?_⟩
  · rw [hf, ha, hfds]
  · rw [ha]
    exact hlim
  · rw [ha]
    exact hs fd (hp fd h)

theorem Leaks.lowest (hI : Leaks openMax p) :
    lowest openMax p.fds = if 4 + p.accepted < openMax then some (4 + p.accepted) else none := by
  rw [hI.fds]
  exact find_range

theorem Leaks.accept (hI : Leaks openMax p) (ret : Int) :
    Leaks openMax (acceptNewConnections openMax p ret) := by
  unfold acceptNewConnections
  rw [hI.lowest]
  by_cases h : 4 + p.accepted < openMax
  · rw [if_pos h]
    dsimp only
    by_cases hr : ret < 0
    · rw [if_pos hr]
      exact hI.same rfl rfl fun fd h => by cases h
    · rw [if_neg hr]
      refine ⟨?_, ?_, fun fd h => ?_⟩
      · show p.fds ++ [4 + p.accepted] = List.range (4 + p.accepted + 1)
        rw [List.range_succ, hI.fds]
      · show 4 + (p.accepted + 1) ≤ max 4 openMax
        omega
      · cases h
        rfl
  · rw [if_neg h]
    exact hI.same rfl rfl fun fd h => by cases h

theorem Leaks.serve_step (hI : Leaks openMax p) (scheme : Scheme) (ret : Int) :
    Leaks openMax (Schemes.serve scheme p ret) := by
  unfold Schemes.serve doServiceFork
  cases scheme with
  | _ =>
    dsimp only
    split <;> exact hI.same rfl rfl fun fd h => by cases h

theorem step_leaks (hI : Leaks openMax p) (h : step schem openMax p e = some p') :
    Leaks openMax p' := by
  cases e with
  | loop ret =>
    simp only [step] at h
    unfold serverLoop at h
    cases hp : p.place with
    | exited =>
      rw [hp] at h
      cases h
    | check =>
      rw [hp] at h
      cases hl : setScheme schem <;> rw [hl] at h <;> cases h <;>
        exact hI.same rfl rfl fun fd h => by cases h
    | accept =>
      rw [hp] at h
      cases hl : setScheme schem with
      | none =>
        rw [hl] at h
        cases h
        exact hI.same rfl rfl fun fd h => by cases h
      | some scheme =>
        rw [hl] at h
        cases h
        exact hI.accept ret
    | serve fd =>
      rw [hp] at h
      cases hl : setScheme schem with
      | none =>
        rw [hl] at h
        cases h
        exact hI.same rfl rfl fun fd h => by cases h
      | some scheme =>
        rw [hl] at h
        cases h
        exact hI.serve_step scheme ret
  | sigchild =>
    simp only [step, Option.ite_none_right_eq_some] at h
    obtain ⟨-, h⟩ := h
    cases h
    exact hI.same rfl rfl fun fd h => h
  | threadExit =>
    simp only [step, Option.ite_none_right_eq_some] at h
    obtain ⟨-, h⟩ := h
    cases h
    exact hI.same rfl rfl fun fd h => by cases h

theorem start_leaks : Leaks openMax start :=
  ⟨rfl, Nat.le_max_left .., fun fd h => by cases h⟩

theorem run_leaks {p₀ : Process} (hI : Leaks openMax p₀) (h : run (step schem openMax) p₀ es = some p) :
    Leaks openMax p :=
  run_of_guarded (A := fun _ _ => True) hI (fun s e s' hI _ he => step_leaks hI he)
    (guarded_of_forall (fun _ _ => trivial) p₀ es) h

/-- **Every scheme ends with the descriptors of its process.**  Whatever the clients do: the server
keeps the descriptor of each connection that it has ever accepted, serves at most
`openMax - 4` of them, and the `accept` behind the last one ends it. -/
theorem connections_limited (h : run (step schem openMax) start es = some p) :
    p.fds = List.range (4 + p.accepted) ∧ p.accepted ≤ openMax - 4 ∧
      (p.place = .accept → p.accepted = openMax - 4 → ∀ ret p',
        step schem openMax p (.loop ret) = some p' → p'.place = .exited) := by
  have hI : Leaks openMax p := run_leaks start_leaks h
  have hlim := hI.limit
  refine ⟨hI.fds, by omega, fun hp hn ret p' hst => ?_⟩
  simp only [step] at hst
  unfold serverLoop at hst
  rw [hp] at hst
  cases hl : setScheme schem with
  | none =>
    rw [hl] at hst
    cases hst
    rfl
  | some scheme =>
    rw [hl] at hst
    cases hst
    unfold acceptNewConnections
    rw [hI.lowest, if_neg (by omega)]

/-- a limit of 6 descriptors -/
theorem connections_limited_two :
    run (step 2 6) start [.loop 0, .loop 0, .loop 7, .loop 0, .loop 0, .loop 8, .loop 0] =
      some ⟨.accept, [0, 1, 2, 3, 4, 5], 2, 2⟩ ∧
    [0, 1, 2, 3, 4, 5] = List.range (4 + 2) ∧ 2 ≤ 6 - 4 ∧
      (Place.accept = .accept → 2 = 6 - 4 → ∀ ret p',
        step 2 6 ⟨.accept, [0, 1, 2, 3, 4, 5], 2, 2⟩ (.loop ret) = some p' →
          p'.place = .exited) := by
  have h : run (step 2 6) start
      [.loop 0, .loop 0, .loop 7, .loop 0, .loop 0, .loop 8, .loop 0] =
        some ⟨.accept, [0, 1, 2, 3, 4, 5], 2, 2⟩ := rfl
  exact ⟨h, connections_limited h⟩

/-! ## the bounded server -/

/-- the place in `boundedServerLoop`, and the place of the process -/
def At : Sockets.Place → Place → Prop
  | .check, q | .waitpid, q | .forked, q => q = .check
  | .accept, q => q = .accept
  | .fork, q => ∃ fd, q = .serve fd
  | .exited, q => q = .exited

/-- The bounded server and the process of its descriptors are at the same place and have the same
counter, and every child has a connection of its own. -/
structure Matches (s : Server) (p : Process) : Prop where
  place : At s.place p.place
  counter : s.numConections + (if s.place = .forked then 1 else 0) = p.numConections
  children : s.running + s.zombies + (if s.place = .fork then 1 else 0) ≤ p.accepted
  handling : s.handling = true → s.place ≠ .exited

theorem At.exited {v : Sockets.Place} (h : At v .exited) : v = .exited := by
  cases v with
  | fork =>
    obtain ⟨fd, h⟩ := h
    cases h
  | exited => rfl
  | _ => cases h

section loop

variable {scheme : Scheme} (hl : setScheme schem = some scheme)
include hl

theorem loop_check (hp : p.place = .check) :
    step schem openMax p (.loop ret) = some { p with place := .accept } := by
  simp only [step, serverLoop, hp, hl]

theorem loop_accept (hp : p.place = .accept) :
    step schem openMax p (.loop ret) = some (acceptNewConnections openMax p ret) := by
  simp only [step, serverLoop, hp, hl]

theorem loop_serve {fd : Nat} (hp : p.place = .serve fd) :
    step schem openMax p (.loop ret) = some (serve scheme p ret) := by
  simp only [step, serverLoop, hp, hl]

end loop

theorem run_one {q : Process} (h : step schem openMax p e = some q) :
    run (step schem openMax) p [e] = some q := by
  rw [run_cons, h]
  rfl

/-- one step of the parent, with a descriptor left for it -/
theorem Matches.parent {maxClients : Int} {s s' : Server} (hm : Matches s p)
    (hI : Leaks openMax p) (hfd : 4 + p.accepted < openMax) (hh : s.handling = false)
    (h : Parent maxClients s s') : ∃ es' p', run (step 3 openMax) p es' = some p' ∧
      Matches s' p' ∧ p'.accepted ≤ p.accepted + 1 := by
  obtain ⟨hpl, hcnt, hch, -⟩ := hm
  have hlow := hI.lowest
  rw [if_pos hfd] at hlow
  have hidle : ∀ {s' : Server}, s'.handling = s.handling → s'.handling = true → s'.place ≠ .exited :=
    fun h1 h2 => by rw [h1, hh] at h2; cases h2
  cases h with
  | full hp _ =>
    rw [hp] at hpl
    simp only [hp, reduceCtorEq, if_false] at hcnt hch
    exact ⟨[], p, rfl, ⟨hpl, hcnt, hch, hidle rfl⟩, by omega⟩
  | room hp _ =>
    rw [hp] at hpl
    simp only [hp, reduceCtorEq, if_false] at hcnt hch
    have he : step 3 openMax p (.loop 0) = some { p with place := .accept } :=
      loop_check setScheme_three hpl
    exact ⟨_, _, run_one he, ⟨rfl, hcnt, hch, hidle rfl⟩, Nat.le_succ _⟩
  | reap hp _ =>
    rw [hp] at hpl
    simp only [hp, reduceCtorEq, if_false] at hcnt hch
    refine ⟨[], p, rfl, ⟨?_, ?_, ?_, hidle rfl⟩, by omega⟩
    · show At s.place p.place
      rw [hp]
      exact hpl
    · show s.numConections + (if s.place = .forked then 1 else 0) = p.numConections
      rw [hp]
      exact hcnt
    · show s.running + (s.zombies - 1) + (if s.place = .fork then 1 else 0) ≤ p.accepted
      rw [hp]
      show s.running + (s.zombies - 1) + 0 ≤ p.accepted
      omega
  | reaped hp _ _ =>
    rw [hp] at hpl
    simp only [hp, reduceCtorEq, if_false] at hcnt hch
    have he : step 3 openMax p (.loop 0) = some { p with place := .accept } :=
      loop_check setScheme_three hpl
    exact ⟨_, _, run_one he, ⟨rfl, hcnt, hch, hidle rfl⟩, Nat.le_succ _⟩
  | accepted hp =>
    rw [hp] at hpl
    simp only [hp, reduceCtorEq, if_false] at hcnt hch
    have he : step 3 openMax p (.loop 0) = some { p with
        place := .serve (4 + p.accepted)
        fds := p.fds ++ [4 + p.accepted]
        accepted := p.accepted + 1 } := by
      rw [loop_accept setScheme_three hpl]
      unfold acceptNewConnections
      rw [hlow]
      rfl
    refine ⟨_, _, run_one he, ⟨⟨_, rfl⟩, hcnt, ?_, hidle rfl⟩, Nat.le_refl _⟩
    show s.running + s.zombies + 1 ≤ p.accepted + 1
    omega
  | failed hp =>
    have he : ∃ q, step 3 openMax p (.loop (-1)) = some q ∧ q = { p with place := .exited } := by
      obtain hp | hp := hp
      · rw [hp] at hpl
        refine ⟨_, ?_, rfl⟩
        rw [loop_accept setScheme_three hpl]
        unfold acceptNewConnections
        rw [hlow]
        rfl
      · rw [hp] at hpl
        obtain ⟨fd, hpl⟩ := hpl
        refine ⟨_, ?_, rfl⟩
        exact loop_serve setScheme_three hpl
    obtain ⟨q, he, rfl⟩ := he
    have hne : s.place ≠ .forked := by
      obtain hp | hp := hp <;> simp [hp]
    rw [if_neg hne] at hcnt
    refine ⟨_, _, run_one he, ⟨rfl, hcnt, ?_, hidle rfl⟩, Nat.le_succ _⟩
    show s.running + s.zombies + 0 ≤ p.accepted
    omega
  | forked hp =>
    rw [hp] at hpl
    obtain ⟨fd, hpl⟩ := hpl
    simp only [hp, reduceCtorEq, if_false, if_true] at hcnt hch
    have he : step 3 openMax p (.loop 1) = some { p with
        place := .check
        numConections := p.numConections + 1 } :=
      loop_serve setScheme_three hpl
    refine ⟨_, _, run_one he, ⟨rfl, ?_, ?_, hidle rfl⟩, Nat.le_succ _⟩
    · show s.numConections + 1 = p.numConections + 1
      omega
    · show s.running + 1 + s.zombies + 0 ≤ p.accepted
      omega
  | counted hp =>
    rw [hp] at hpl
    simp only [hp, reduceCtorEq, if_false, if_true] at hcnt hch
    refine ⟨[], p, rfl, ⟨hpl, ?_, hch, hidle rfl⟩, by omega⟩
    show s.numConections + 1 + 0 = p.numConections
    omega

theorem Matches.step {maxClients : Int} {s s' : Server} {e : Sockets.Event} (hm : Matches s p)
    (hI : Leaks openMax p) (hfd : 4 + p.accepted < openMax)
    (h : Sockets.step maxClients s e = some s') :
    ∃ es' p', run (Schemes.step 3 openMax) p es' = some p' ∧ Matches s' p' ∧
      p'.accepted ≤ p.accepted + 1 := by
  cases Sockets.step_cases h with
  | parent r hh hp => exact hm.parent hI hfd hh hp
  | exit hr =>
    refine ⟨[], p, rfl, ⟨hm.place, hm.counter, ?_, hm.handling⟩, by omega⟩
    have hch := hm.children
    show s.running - 1 + (s.zombies + 1) + (if s.place = .fork then 1 else 0) ≤ p.accepted
    omega
  | deliver hp hh =>
    have hne : s.place ≠ .exited := by
      simp only [Sockets.step, Option.ite_none_right_eq_some] at h
      exact h.1.2.2
    exact ⟨[], p, rfl, ⟨hm.place, hm.counter, hm.children, fun _ => hne⟩, by omega⟩
  | handler hh =>
    have hne := hm.handling hh
    have hpne : p.place ≠ .exited := fun hp => hne (hp ▸ hm.place).exited
    have he : Schemes.step 3 openMax p .sigchild =
        some { p with numConections := p.numConections - 1 } := if_pos hpne
    refine ⟨_, _, run_one he, ⟨hm.place, ?_, hm.children, fun h => (by cases h)⟩, Nat.le_succ _⟩
    have hcnt := hm.counter
    show s.numConections - 1 + (if s.place = .forked then 1 else 0) = p.numConections - 1
    omega

theorem Matches.run {maxClients : Int} {s₀ s : Server} {es : List Sockets.Event} (hm : Matches s₀ p)
    (hI : Leaks openMax p) (hfd : 4 + p.accepted + es.length ≤ openMax)
    (h : Runs.run (Sockets.step maxClients) s₀ es = some s) :
    ∃ es' p', Runs.run (Schemes.step 3 openMax) p es' = some p' ∧ Matches s p' := by
  induction es generalizing s₀ p with
  | nil =>
    cases h
    exact ⟨[], p, rfl, hm⟩
  | cons e es ih =>
    rw [run_cons, Option.bind_eq_some_iff] at h
    obtain ⟨s₁, he, hrest⟩ := h
    rw [List.length_cons] at hfd
    obtain ⟨es₁, p₁, hr₁, hm₁, hle⟩ := hm.step hI (by omega) he
    obtain ⟨es₂, p₂, hr₂, hm₂⟩ := ih hm₁ (run_leaks hI hr₁) (by omega) hrest
    refine ⟨es₁ ++ es₂, p₂, ?_, hm₂⟩
    rw [run_append, hr₁]
    exact hr₂

/-- **The bounded server is the scheme 3**, as long as its process has descriptors: every run of it
is one of this module, in which each child has been accepted on a descriptor of its own. -/
theorem bounded_is_scheme {maxClients : Int} {s : Server} {es : List Sockets.Event}
    (h : run (Sockets.step maxClients) Sockets.start es = some s)
    (hfd : 4 + es.length ≤ openMax) :
    ∃ es' p, run (step 3 openMax) start es' = some p ∧ Matches s p := by
  have hm : Matches Sockets.start start := ⟨rfl, rfl, Nat.le_refl 0, fun h => (by cases h)⟩
  exact hm.run start_leaks hfd h

end Sockets.Schemes
