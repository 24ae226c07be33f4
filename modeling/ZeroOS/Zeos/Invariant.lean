import ZeroOS.Zeos.Copy
import ZeroOS.Zeos.Steps

/-!
# Zeos: one step of the kernel

* `Coherent`     the queues are rings with every task in at most one place, and the page tables
                 share the frames as `Mapped` says;
* `Inv`          moreover no other frame is taken: this holds in every reachable state;
* `moves`        the moves of the desk that an event makes;
* `step_moves`   **the kernel refines the desk**: a step is these moves, and they are legal;
* `Spawned`, `Exited`, `step_kept`   what a fork, an exit and any other step do to the rest;
* `Evolves`      what a step does to the processes, in one of these three ways.
-/

set_option linter.unusedVariables false

namespace Zeos
open Programs Rings Desks Runs

/-- a PCB that is neither idle nor in freequeue -/
def live (s : State) (t : Task) : Prop := t ≠ s.idleTask ∧ t ∉ queue s .freequeue

structure Placed (s : State) : Prop where
  rep : Rep s (desk s)
  apart : (desk s).Apart s.idleTask .readyqueue

/-- the directory of the current task is the one in use -/
def Rooted (s : State) : Prop := s.cr3 = getDIR s s.current

structure Coherent (s : State) : Prop where
  placed : Placed s
  mapped : Mapped s.mm (live s)
  base : ∀ t, t ∉ queue s .freequeue → (s.task t).dirPagesBaseAddr = t
  cr3 : Rooted s

/-- what holds in every reachable state -/
structure Inv (s : State) : Prop extends Coherent s where
  exact : Exact s.mm (live s)
  idlePid : (s.task s.idleTask).pid = 0

section
variable {s s' : State}

theorem Placed.of_rep {d : Desk Task Queue} (h : Rep s d) (hd : d.Apart s.idleTask .readyqueue) :
    Placed s :=
  ⟨h.of_desk, h.desk_eq ▸ hd⟩

theorem Placed.running (h : Placed s) (q : Queue) : s.current ∉ queue s q := h.apart.running q

theorem Placed.ne_current {t : Task} {q : Queue} (h : Placed s) (ht : t ∈ queue s q) :
    t ≠ s.current := fun e => h.running q (e ▸ ht)

theorem Placed.live_current (h : Placed s) (hne : s.current ≠ s.idleTask) : live s s.current :=
  ⟨hne, h.running .freequeue⟩

theorem Coherent.cr3_eq (h : Coherent s) : s.cr3 = s.current :=
  h.cr3.trans (h.base _ (h.placed.running .freequeue))

theorem Coherent.getPT_eq (h : Coherent s) : getPT s s.current = s.current := by
  unfold getPT
  rw [h.mapped.dirs]
  exact h.base _ (h.placed.running .freequeue)

theorem Coherent.live_current (h : Coherent s) (hu : inUser s) : live s s.current :=
  h.placed.live_current hu.2

theorem Rep.queue_eq {d : Desk Task Queue} (h : Rep s d) (q : Queue) : queue s q = d.queue q := by
  rw [h.linked.queue_eq]

theorem queue_congr (h : s'.links = s.links) (q : Queue) : queue s' q = queue s q := by
  unfold queue
  rw [h]

/-! ## fork -/

/-- what a successful fork does -/
structure Spawned (s s' : State) (child : Task) (fs : List Nat) : Prop where
  rep : Rep s' ((desk s).after s.idleTask .readyqueue (.move .freequeue .readyqueue child))
  mm : s'.mm = forkMm s.current child fs s.mm
  idleTask : s'.idleTask = s.idleTask
  control : s'.control = s.control
  cr3 : s'.cr3 = s.current
  cpuQuantum : s'.cpuQuantum = s.cpuQuantum
  pidMax : s'.pidMax = int32 (s.pidMax + 1)
  task : ∀ u, s'.task u =
    if u = child then
      TaskStruct.iniStats (s.tsc (s.reads + 1))
        { (s.task s.current).tick .user (getTicks s) with
          dirPagesBaseAddr := child
          pid := int32 (s.pidMax + 1)
          kernelEsp := .retFromFork }
    else if u = s.current then
      ((s.task s.current).tick .user (getTicks s)).tick .system (s.tsc (s.reads + 2))
    else s.task u
  copied : ∀ k (hk : k < fs.length) o, o < 4096 →
    s'.mem (fs[k] * 4096 + o) = s.mem (s.mm.frame s.current (264 + k) * 4096 + o)
  kept : ∀ x, x / 4096 ∉ fs → s'.mem x = s.mem x

/-- the state in which `sys_fork` has copied the data pages -/
theorem Coherent.spawned (h : Coherent s) (hu : inUser s) {child : Task} {rest : List Task} {fs : List Nat}
    (hq : queue s .freequeue = child :: rest) (hg : Grabbed s.mm fs) (hlen : fs.length = 20) :
    ∃ m, copyData kernelBus dirIni dirDest (numPagData * pageSize) (forkWindow child fs s) =
        .ok ((forkWindow child fs s).setMem m) ∧
      Spawned s (forkDone s.current child s.current ((forkWindow child fs s).setMem m)).2 child fs := by
  have hchild : child ∈ queue s .freequeue := hq ▸ List.mem_cons_self
  have hne : s.current ≠ child := (h.placed.ne_current hchild).symm
  have hL : live s s.current := h.live_current hu
  have hW : (forkWindow child fs s).mm = mapData s.current child (fs.map fun f : Nat => (f : Int))
      (grab (mapCode s.current child s.mm) fs) := by
    rw [forkWindow, State.setMm_mm, forkCode, h.getPT_eq, h.mapped.dirs]
  have hc : (forkWindow child fs s).cr3 = s.current := by
    rw [forkWindow, State.setMm_cr3, forkChild_cr3, h.cr3_eq]
  obtain ⟨m, hr, hcopy, hkept⟩ := forkWindow_copy h.mapped hL hne hg hlen hW hc
  have hmem : (forkWindow child fs s).mem = s.mem := by
    rw [forkWindow, State.setMm_mem, forkChild_mem]
  rw [hmem] at hcopy hkept
  refine ⟨m, hr, ?_⟩
  constructor
  · have h1 := forkChild_rep h.placed.rep h.placed.apart.tidy hchild
    have h2 : Rep ((forkWindow child fs s).setMem m) ((desk s).take .freequeue child) := by
      refine h1.congr ?_ ?_
      · rw [State.setMem_links, forkWindow, State.setMm_links]
      · rw [State.setMem_current, forkWindow, State.setMm_current]
    exact forkDone_rep h2 (fun q hq' => ((h.placed.apart.tidy.mem_take hchild).mp hq').2 rfl) _
  · rw [forkDone_mm, State.setMem_mm, hW]
    rfl
  · rw [forkDone_idleTask, State.setMem_idleTask, forkWindow, State.setMm_idleTask,
      forkChild_idleTask]
  · rw [forkDone_control, State.setMem_control, forkWindow, State.setMm_control,
      forkChild_control]
  · rw [forkDone_cr3, getDIR, State.setMem_task, forkWindow, State.setMm_task, forkChild_task,
      if_neg hne]
    exact ((actTicks_kept ..).dir _).trans (h.base _ (h.placed.running .freequeue))
  · rw [forkDone_cpuQuantum, State.setMem_cpuQuantum, forkWindow, State.setMm_cpuQuantum,
      forkChild_cpuQuantum]
  · rw [forkDone_pidMax, State.setMem_pidMax, forkWindow, State.setMm_pidMax, forkChild_pidMax]
  · intro u
    have e : ((forkWindow child fs s).setMem m).task = (forkChild child s).task := by
      rw [State.setMem_task, forkWindow, State.setMm_task]
    have ec : ((forkWindow child fs s).setMem m).current = s.current := by
      rw [State.setMem_current, forkWindow, State.setMm_current, forkChild_current]
    have et : ((forkWindow child fs s).setMem m).tsc = s.tsc := by
      rw [State.setMem_tsc, forkWindow, State.setMm_tsc, forkChild_tsc]
    have er : ((forkWindow child fs s).setMem m).reads = s.reads + 1 := by
      rw [State.setMem_reads, forkWindow, State.setMm_reads, forkChild_reads]
    have ep : ((forkWindow child fs s).setMem m).pidMax = s.pidMax := by
      rw [State.setMem_pidMax, forkWindow, State.setMm_pidMax, forkChild_pidMax]
    rw [forkDone_task (by rw [ec]; exact hne.symm), e, ec, et, er, ep, getTicks, et, er,
      forkChild_task, forkChild_task, forkChild_task, if_pos rfl, if_neg hne]
    unfold actTicksUser2kernel actTicks
    rw [account_task, account_task, if_pos rfl]
    by_cases h1 : u = child
    · rw [if_pos h1, if_pos h1]
    · rw [if_neg h1, if_neg h1, if_neg h1]
      by_cases h2 : u = s.current
      · rw [if_pos h2, if_pos h2]
      · rw [if_neg h2, if_neg h2, if_neg h2]
  · rw [forkDone_mem, State.setMem_mem]
    exact hcopy
  · rw [forkDone_mem, State.setMem_mem]
    exact hkept

/-- **The three ends of `sys_fork`** in a coherent state. -/
theorem Coherent.fork_cases (h : Coherent s) (hu : inUser s) :
    (queue s .freequeue = [] ∧
        sysFork s = .ok (-eagain, actTicksKernel2user (actTicksUser2kernel s))) ∨
      ∃ child rest, queue s .freequeue = child :: rest ∧
        (((freeEven s.mm.physMem).card < numPagData ∧
            sysFork s = .ok (-enomem, forkFailed child s)) ∨
          (numPagData ≤ (freeEven s.mm.physMem).card ∧
            ∃ fs s', fs.length = 20 ∧ Grabbed s.mm fs ∧ Spawned s s' child fs ∧
              sysFork s = .ok (int32 (s.pidMax + 1), s'))) := by
  have hT : ∀ t, t ≠ s.current → getPT s s.current ≠ s.mm.dirPages t := by
    intro t ht
    rw [h.getPT_eq, h.mapped.dirs]
    exact ht.symm
  rcases sysFork_cases h.placed.rep h.placed.running hT h.mapped.used_256 with
    hempty | ⟨child, rest, hq, hne, hfail | ⟨hcard, fs, hlen, hg, hr⟩⟩
  · exact Or.inl hempty
  · exact Or.inr ⟨child, rest, hq, Or.inl hfail⟩
  · obtain ⟨m, hcopy, hsp⟩ := h.spawned hu hq hg hlen
    refine Or.inr ⟨child, rest, hq, Or.inr ⟨hcard, fs, _, hlen, hg, hsp, ?_⟩⟩
    rw [hr, hcopy, h.getPT_eq]
    show Except.ok (forkDone s.current child s.current ((forkWindow child fs s).setMem m)) = _
    refine congrArg Except.ok (Prod.ext ?_ rfl)
    rw [forkDone_fst, State.setMem_pidMax, forkWindow, State.setMm_pidMax, forkChild_pidMax]

theorem Inv.child_ne_idle (h : Inv s) {child : Task} (hc : child ∈ queue s .freequeue) :
    child ≠ s.idleTask := fun e =>
  h.placed.apart.tidy.idle .freequeue (by decide) (e ▸ hc)

/-- with a PCB to spare there are always frames enough -/
theorem Inv.enough (h : Inv s) {child : Task} (hc : child ∈ queue s .freequeue) :
    numPagData ≤ (freeEven s.mm.physMem).card := by
  have hne := h.child_ne_idle hc
  have h1 := h.exact.card_le ((Finset.univ.erase s.idleTask).erase child) fun t ht => by
    rw [Finset.mem_erase, Finset.mem_erase]
    exact ⟨fun e => ht.2 (e ▸ hc), ht.1, Finset.mem_univ t⟩
  have h2 : ((Finset.univ.erase s.idleTask).erase child).card = 8 := by
    rw [Finset.card_erase_of_mem (Finset.mem_erase.mpr ⟨hne, Finset.mem_univ child⟩),
      Finset.card_erase_of_mem (Finset.mem_univ _)]
    rfl
  simp only [numPagData]
  omega

/-- a fork in a reachable state finds no PCB, or makes a child -/
theorem Inv.fork_cases (h : Inv s) (hu : inUser s) :
    (queue s .freequeue = [] ∧
        sysFork s = .ok (-eagain, actTicksKernel2user (actTicksUser2kernel s))) ∨
      ∃ child rest fs s', queue s .freequeue = child :: rest ∧ fs.length = 20 ∧ Grabbed s.mm fs ∧
        Spawned s s' child fs ∧ sysFork s = .ok (int32 (s.pidMax + 1), s') := by
  rcases h.toCoherent.fork_cases hu with he | ⟨child, rest, hq, ⟨hcard, -⟩ | ⟨-, fs, s', h1⟩⟩
  · exact Or.inl he
  · exact absurd (h.enough (hq ▸ List.mem_cons_self)) (Nat.not_le.mpr hcard)
  · exact Or.inr ⟨child, rest, fs, s', hq, h1⟩

/-- a fork that has returned: without a PCB it is a service like any other -/
theorem Inv.forked (h : Inv s) (hu : inUser s) {pid : Int} (hf : sysFork s = .ok (pid, s')) :
    (queue s .freequeue = [] ∧ pid = -eagain ∧ Serviced s s') ∨
      ∃ child rest fs, queue s .freequeue = child :: rest ∧ fs.length = 20 ∧ Grabbed s.mm fs ∧
        Spawned s s' child fs ∧ pid = int32 (s.pidMax + 1) := by
  rcases h.fork_cases hu with ⟨hq, hr⟩ | ⟨child, rest, fs, s₁, hq, hlen, hg, hsp, hr⟩
  · cases hr.symm.trans hf
    exact Or.inl ⟨hq, rfl, .tick .system (.tick .user .refl)⟩
  · cases hr.symm.trans hf
    exact Or.inr ⟨child, rest, fs, hq, hlen, hg, hsp, rfl⟩

theorem Spawned.user {child : Task} {fs : List Nat} (hsp : Spawned s s' child fs)
    (hu : inUser s) : inUser s' := by
  refine ⟨hsp.control.trans hu.1, ?_⟩
  rw [hsp.rep.current, hsp.idleTask]
  exact hu.2

/-- a fork that finds a PCB -/
theorem Inv.fork_spawned (h : Inv s) (hu : inUser s) {child : Task} {rest : List Task}
    (hq : queue s .freequeue = child :: rest) :
    ∃ fs s', Spawned s s' child fs ∧ step s .fork = some s' := by
  obtain ⟨hnil, -⟩ | ⟨t, l, fs, s', htl, -, -, hsp, hr⟩ := h.fork_cases hu
  · rw [hq] at hnil
    cases hnil
  · obtain rfl : child = t := (List.cons.inj (hq.symm.trans htl)).1
    exact ⟨fs, s', hsp, (if_pos hu).trans (congrArg returned hr)⟩

theorem Inv.fork_step (h : Inv s) (hu : inUser s) {child : Task} {rest : List Task}
    (hq : queue s .freequeue = child :: rest) : ∃ s', step s .fork = some s' ∧ inUser s' := by
  obtain ⟨fs, s', hsp, hs⟩ := h.fork_spawned hu hq
  exact ⟨s', hs, hsp.user hu⟩

/-! ## the refinement -/

def moves (s : State) : Event → List (Move Task Queue)
  | .fork =>
    match queue s .freequeue with
    | [] => []
    | child :: _ => [.move .freequeue .readyqueue child]
  | .exit => [.leave .freequeue]
  | .block i => [.leave (.blocked i)]
  | .unblock i t =>
    .move (.blocked i) .readyqueue t :: if s.cpuQuantum ≤ 0 then [.leave .readyqueue] else []
  | .ret =>
    match s.control with
    | .console .clockRoutine =>
      if int32 (s.cpuQuantum - 1) ≤ 0 then
        if (s.task s.current).pid ≠ 0 then [.leave .readyqueue] else [.drop]
      else []
    | _ => []
  | _ => []

/-- the end of `clock_routine` -/
theorem clockReturn_eq (s : State) :
    clockReturn s =
      if int32 (s.cpuQuantum - 1) ≤ 0 then
        if (s.task s.current).pid ≠ 0 then
          schedNextRr .clockRoutine (updateCurrentStateRr .readyqueue (updateSchedDataRr s))
        else schedNextRr .clockRoutine (actStatsSurtIdle (updateSchedDataRr s))
      else clockExit (updateSchedDataRr s) := by
  unfold clockReturn
  dsimp only
  by_cases hq : int32 (s.cpuQuantum - 1) ≤ 0
  · have hn : needsSchedRr (updateSchedDataRr s) = true := decide_eq_true hq
    rw [if_pos hn, if_pos hq]
    by_cases hp : (s.task s.current).pid ≠ 0
    · have hp' : ((updateSchedDataRr s).task (updateSchedDataRr s).current).pid ≠ 0 := hp
      rw [if_pos hp', if_pos hp]
    · have hp' : ¬ ((updateSchedDataRr s).task (updateSchedDataRr s).current).pid ≠ 0 := hp
      rw [if_neg hp', if_neg hp]
  · have hn : ¬ needsSchedRr (updateSchedDataRr s) = true := by
      unfold needsSchedRr
      rw [decide_eq_true_iff]
      exact hq
    rw [if_neg hn, if_neg hq]

/-- the code after a switch back moves nothing -/
structure Resumed (s s' : State) : Prop where
  kept : Kept s s'
  links : s'.links = s.links
  current : s'.current = s.current
  cr3 : s'.cr3 = s.cr3
  cpuQuantum : s'.cpuQuantum = s.cpuQuantum

theorem resume_resumed (s : State) : Resumed s (resume s) := by
  have hr : ∀ c, Kept s { actTicksReady2kernel s with control := c } := fun c =>
    (actTicksReady2kernel_kept s).trans ⟨rfl, rfl, rfl, fun _ => rfl⟩
  have hc : ∀ c, Kept s { s with control := c } := fun c => ⟨rfl, rfl, rfl, fun _ => rfl⟩
  unfold resume
  split
  · exact ⟨hc _, rfl, rfl, rfl, rfl⟩
  · exact ⟨hc _, rfl, rfl, rfl, rfl⟩
  · exact ⟨(actTicks_kept .system s.current s).trans ⟨rfl, rfl, rfl, fun _ => rfl⟩,
      rfl, rfl, rfl, rfl⟩
  · refine ⟨?_, rfl, rfl, rfl, rfl⟩
    exact ((actTicksReady2kernel_kept s).trans (actTicks_kept .system _ _)).trans
      ⟨rfl, rfl, rfl, fun _ => rfl⟩
  · exact ⟨hr _, rfl, rfl, rfl, rfl⟩
  · exact ⟨hr _, rfl, rfl, rfl, rfl⟩

/-- the state in which `sys_exit` calls `update_current_state` -/
def exitStart (s : State) : State :=
  let s := actTicksUser2kernel s
  let s := s.setMm (freeData (getPT s s.current) s.mm)
  let x := s.task s.current
  s.setTask s.current { x with pid := -1 }

theorem sysExit_eq (s : State) :
    sysExit s = schedNextRr .sysExit (updateCurrentStateRr .freequeue (exitStart s)) := rfl

theorem exitStart_task (s : State) (u : Task) :
    (exitStart s).task u =
      if u = s.current then
        { (s.task s.current).tick .user (getTicks s) with pid := -1 }
      else s.task u := by
  unfold exitStart actTicksUser2kernel actTicks
  simp only [State.setTask_task, State.setMm_task, State.setMm_current, account_current,
    account_task, if_true]
  by_cases h : u = s.current
  · rw [if_pos h, if_pos h]
  · rw [if_neg h, if_neg h, if_neg h]

theorem exitStart_mm (h : Coherent s) : (exitStart s).mm = freeData s.current s.mm := by
  have e : getPT (actTicksUser2kernel s) s.current = s.current := by
    have h1 := (actTicks_kept .user s.current s).dir s.current
    exact (congrArg s.mm.dirPages h1).trans h.getPT_eq
  unfold exitStart
  rw [State.setTask_mm, State.setMm_mm]
  show freeData (getPT (actTicksUser2kernel s) s.current) s.mm = _
  rw [e]

theorem exitStart_rep {d : Desk Task Queue} (h : Rep s d) : Rep (exitStart s) d := by
  refine h.congr ?_ ?_
  · rw [exitStart, State.setTask_links, State.setMm_links]
    rfl
  · rw [exitStart, State.setTask_current, State.setMm_current]
    rfl

theorem exitStart_idleTask (s : State) : (exitStart s).idleTask = s.idleTask := by
  rw [exitStart, State.setTask_idleTask, State.setMm_idleTask]
  rfl

/-- **The kernel refines the desk.** -/
theorem step_moves (h : Inv s) {e : Event} (he : step s e = some s') :
    (desk s).AllLegal s.idleTask .readyqueue (moves s e) ∧
      Rep s' ((desk s).afterAll s.idleTask .readyqueue (moves s e)) := by
  have hp := h.placed
  have hrun := hp.running
  cases step_cases he with
  | fork hu hf =>
    rcases h.forked hu hf with ⟨hq, -, hserv⟩ | ⟨child, rest, fs, hq, -, -, hsp, -⟩
    · simp only [moves, hq]
      exact ⟨trivial, hp.rep.congr hserv.unmoved.links hserv.unmoved.current⟩
    · have hc : child ∈ queue s .freequeue := hq ▸ List.mem_cons_self
      simp only [moves, hq]
      exact ⟨⟨⟨hc, h.child_ne_idle hc⟩, trivial⟩, hsp.rep⟩
  | exit hu =>
    refine ⟨⟨fun e => absurd e hu.2, trivial⟩, ?_⟩
    have h1 := leave_rep (exitStart_rep hp.rep) hrun .sysExit .freequeue
    rw [exitStart_idleTask] at h1
    exact h1
  | read hu => exact ⟨trivial, hp.rep.congr rfl rfl⟩
  | service hs hu hserv =>
    have hm : moves s e = [] := by cases e <;> first | rfl | cases hs
    rw [hm]
    exact ⟨trivial, hp.rep.congr hserv.unmoved.links hserv.unmoved.current⟩
  | clock hu => exact ⟨trivial, hp.rep.congr rfl rfl⟩
  | block c i hc hne =>
    exact ⟨⟨fun e => absurd e hne, trivial⟩, blockProcess_rep hp.rep hrun c (.blocked i)⟩
  | unblock c i t hc ht =>
    have hti : t ≠ s.idleTask := fun e =>
      hp.apart.tidy.idle (.blocked i) (by simp) (e ▸ ht)
    have h1 := unblockProcess_rep hp.rep hp.apart ht hti c
    unfold moves
    by_cases hq : s.cpuQuantum ≤ 0
    · rw [if_pos hq] at h1 ⊢
      exact ⟨⟨⟨ht, hti⟩, fun _ => rfl, trivial⟩, h1⟩
    · rw [if_neg hq] at h1 ⊢
      exact ⟨⟨⟨ht, hti⟩, trivial⟩, h1⟩
  | ret c hc =>
    unfold moves
    rw [hc]
    cases c with
    | sysRead => exact ⟨trivial, hp.rep.congr rfl rfl⟩
    | clockRoutine =>
      show _ ∧ Rep (clockReturn s) _
      rw [clockReturn_eq]
      have h1 : Rep (updateSchedDataRr s) (desk s) := hp.rep.congr rfl rfl
      dsimp only
      by_cases hq : int32 (s.cpuQuantum - 1) ≤ 0
      · rw [if_pos hq, if_pos hq]
        by_cases hpid : (s.task s.current).pid ≠ 0
        · rw [if_pos hpid, if_pos hpid]
          exact ⟨⟨fun _ => rfl, trivial⟩, leave_rep h1 hrun .clockRoutine .readyqueue⟩
        · rw [if_neg hpid, if_neg hpid]
          have h2 : Rep (actStatsSurtIdle (updateSchedDataRr s)) (desk s) := h1.congr rfl rfl
          exact ⟨⟨trivial, trivial⟩, schedNextRr_rep h2 .clockRoutine⟩
      · rw [if_neg hq, if_neg hq]
        exact ⟨trivial, h1.congr rfl rfl⟩
  | resume hc =>
    have h1 := resume_resumed s
    exact ⟨trivial, hp.rep.congr h1.links h1.current⟩

theorem step_placed (h : Inv s) {e : Event} (he : step s e = some s')
    (hi : s'.idleTask = s.idleTask) : Placed s' := by
  obtain ⟨hl, hr⟩ := step_moves h he
  exact .of_rep hr (hi.symm ▸ h.placed.apart.afterAll hl)

/-- only `sys_fork` and `sys_exit` touch the free queue -/
theorem moves_freequeue {e : Event} (h1 : e ≠ .fork) (h2 : e ≠ .exit) :
    ((desk s).afterAll s.idleTask .readyqueue (moves s e)).queue .freequeue =
      queue s .freequeue := by
  have hfr : (Queue.freequeue : Queue) ≠ .readyqueue := by decide
  have hfb : ∀ i, Queue.freequeue ≠ .blocked i := fun i => by simp
  have hleave : ∀ d : Desk Task Queue, (d.after s.idleTask .readyqueue
      (.leave .readyqueue)).queue .freequeue = d.queue .freequeue :=
    fun d => Desk.leave_queue_of_ne hfr hfr
  cases e with
  | fork => exact absurd rfl h1
  | exit => exact absurd rfl h2
  | block i => exact Desk.leave_queue_of_ne (hfb i) hfr
  | unblock i t =>
    have hmove : ((desk s).after s.idleTask .readyqueue
        (.move (.blocked i) .readyqueue t)).queue .freequeue = queue s .freequeue :=
      Desk.move_queue_of_ne (hfb i) hfr
    unfold moves
    by_cases hq : s.cpuQuantum ≤ 0
    · rw [if_pos hq]
      exact (hleave _).trans hmove
    · rw [if_neg hq]
      exact hmove
  | ret =>
    unfold moves
    dsimp only
    split
    · split
      · split
        · exact hleave _
        · exact Desk.dispatch_queue_of_ne hfr
      · rfl
    · rfl
  | _ => rfl

/-! ## the rest of the state -/

theorem Rooted.of_kept (h : Rooted s) (hk : Kept s s') (hc : s'.current = s.current)
    (h3 : s'.cr3 = s.cr3) : Rooted s' := by
  unfold Rooted getDIR
  rw [h3, hc, hk.dir]
  exact h

theorem Unmoved.rooted (hu : Unmoved s s') (h : Rooted s) : Rooted s' :=
  h.of_kept hu.kept hu.current hu.cr3

/-- a step that is neither a fork nor an exit -/
theorem step_kept {e : Event} (h1 : e ≠ .fork) (h2 : e ≠ .exit) (h : Rooted s)
    (he : step s e = some s') : Kept s s' ∧ Rooted s' := by
  cases step_cases he with
  | fork hu hf => exact absurd rfl h1
  | exit hu => exact absurd rfl h2
  | read hu => exact ⟨⟨rfl, rfl, rfl, fun _ => rfl⟩, h⟩
  | service hs hu hserv => exact ⟨hserv.unmoved.kept, hserv.unmoved.rooted h⟩
  | clock hu =>
    have hk : Kept s (clockEnter s) :=
      (actTicks_kept .user s.current s).trans ⟨rfl, rfl, rfl, fun _ => rfl⟩
    exact ⟨hk, h.of_kept hk rfl rfl⟩
  | block c i hc hne => exact ⟨blockProcess_kept .., (schedNextRr_switched ..).cr3⟩
  | unblock c i t hc ht =>
    have hk := unblockProcess_kept c t s
    refine ⟨hk, ?_⟩
    unfold unblockProcess at hk ⊢
    dsimp only at hk ⊢
    split
    · exact (schedNextRr_switched ..).cr3
    · rename_i hq
      rw [if_neg hq] at hk
      exact h.of_kept hk rfl rfl
  | ret c hc =>
    cases c with
    | sysRead => exact ⟨⟨rfl, rfl, rfl, fun _ => rfl⟩, h⟩
    | clockRoutine =>
      show Kept s (clockReturn s) ∧ Rooted (clockReturn s)
      have hu : Kept s (updateSchedDataRr s) := ⟨rfl, rfl, rfl, fun _ => rfl⟩
      rw [clockReturn_eq]
      split
      · split
        · exact ⟨(hu.trans (updateCurrentStateRr_kept ..)).trans (schedNextRr_kept ..),
            (schedNextRr_switched ..).cr3⟩
        · exact ⟨(hu.trans (actTicks_kept ..)).trans (schedNextRr_kept ..),
            (schedNextRr_switched ..).cr3⟩
      · have hk : Kept s (clockExit (updateSchedDataRr s)) :=
          (hu.trans (actTicks_kept .system s.current _)).trans ⟨rfl, rfl, rfl, fun _ => rfl⟩
        exact ⟨hk, h.of_kept hk rfl rfl⟩
  | resume hc =>
    have h1 := resume_resumed s
    exact ⟨h1.kept, h.of_kept h1.kept h1.current h1.cr3⟩

theorem live_congr (hi : s'.idleTask = s.idleTask)
    (hf : queue s' .freequeue = queue s .freequeue) : live s' = live s := by
  unfold live
  rw [hi, hf]

/-- a step that leaves the processes as they are keeps the invariant -/
theorem Inv.still (h : Inv s) (hk : Kept s s') (hp : Placed s')
    (hf : queue s' .freequeue = queue s .freequeue) (hr : Rooted s') : Inv s' := by
  have hl := live_congr hk.idleTask hf
  refine ⟨⟨hp, ?_, fun t ht => ?_, hr⟩, ?_, ?_⟩
  · rw [hk.mm, hl]
    exact h.mapped
  · rw [hk.dir]
    exact h.base t (hf ▸ ht)
  · rw [hk.mm, hl]
    exact h.exact
  · rw [hk.idleTask, hk.pid]
    exact h.idlePid

/-! ## fork and exit -/

theorem Spawned.free_iff (h : Inv s) {child : Task} {fs : List Nat} (hsp : Spawned s s' child fs)
    (hc : child ∈ queue s .freequeue) (t : Task) :
    t ∈ queue s' .freequeue ↔ t ∈ queue s .freequeue ∧ t ≠ child := by
  rw [hsp.rep.queue_eq, h.placed.apart.mem_move hc]
  constructor
  · rintro (h1 | ⟨h1, -⟩)
    · exact h1
    · cases h1
  · exact Or.inl

theorem Spawned.live_iff (h : Inv s) {child : Task} {fs : List Nat} (hsp : Spawned s s' child fs)
    (hc : child ∈ queue s .freequeue) : live s' = fun t => live s t ∨ t = child := by
  funext t
  refine propext ?_
  unfold live
  rw [hsp.idleTask, hsp.free_iff h hc]
  constructor
  · rintro ⟨h1, h2⟩
    by_cases e : t = child
    · exact Or.inr e
    · exact Or.inl ⟨h1, fun hx => h2 ⟨hx, e⟩⟩
  · rintro (⟨h1, h2⟩ | rfl)
    · exact ⟨h1, fun hx => h2 hx.1⟩
    · exact ⟨h.child_ne_idle hc, fun hx => hx.2 rfl⟩

theorem Inv.fork (h : Inv s) (hu : inUser s) {child : Task} {fs : List Nat}
    (hsp : Spawned s s' child fs) (hc : child ∈ queue s .freequeue) (hg : Grabbed s.mm fs)
    (hlen : fs.length = 20) : Inv s' := by
  have hL := h.live_current hu
  have hnl : ¬ live s child := fun hl => hl.2 hc
  have hne : s.current ≠ child := fun e => hL.2 (e ▸ hc)
  have hlive := hsp.live_iff h hc
  have hap : ((desk s).after s.idleTask .readyqueue
      (.move .freequeue .readyqueue child)).Apart s'.idleTask .readyqueue := by
    rw [hsp.idleTask]
    exact h.placed.apart.after ⟨hc, h.child_ne_idle hc⟩
  have hdir : ∀ t, t ≠ child → (s'.task t).dirPagesBaseAddr = (s.task t).dirPagesBaseAddr := by
    intro t ht
    rw [hsp.task, if_neg ht]
    by_cases hcur : t = s.current
    · rw [if_pos hcur, hcur]
      rfl
    · rw [if_neg hcur]
  have hcur : s'.current = s.current := hsp.rep.current
  refine ⟨⟨.of_rep hsp.rep hap, ?_, fun t ht => ?_, ?_⟩, ?_, ?_⟩
  · rw [hsp.mm, hlive]
    exact h.mapped.fork hL hnl hne hg hlen
  · by_cases e : t = child
    · rw [hsp.task, if_pos e, e]
      rfl
    · rw [hdir t e]
      exact h.base t fun hx => ht ((hsp.free_iff h hc t).mpr ⟨hx, e⟩)
  · show s'.cr3 = (s'.task s'.current).dirPagesBaseAddr
    rw [hcur, hdir _ hne, hsp.cr3]
    exact (h.base _ hL.2).symm
  · rw [hsp.mm, hlive]
    exact h.exact.fork h.mapped hnl hne hg hlen
  · rw [hsp.idleTask, hsp.task, if_neg (h.child_ne_idle hc).symm, if_neg hL.1.symm]
    exact h.idlePid

/-- what an exit does -/
structure Exited (s s' : State) : Prop where
  free : queue s' .freequeue = queue s .freequeue ++ [s.current]
  mm : s'.mm = freeData s.current s.mm
  idleTask : s'.idleTask = s.idleTask
  pidMax : s'.pidMax = s.pidMax
  rooted : Rooted s'
  task : ∀ u, s'.task u =
    if u = s.current then
      { (s.task s.current).tick .user (getTicks s) with pid := -1 }.switchedOut .sysExit
        (s.tsc (s.reads + 1))
    else s.task u

theorem Inv.exited (h : Inv s) (hu : inUser s) : Exited s (sysExit s) := by
  have hstart : (updateCurrentStateRr .freequeue (exitStart s)).current = s.current := by
    rw [updateCurrentStateRr, State.setLinks_current, exitStart, State.setTask_current,
      State.setMm_current]
    rfl
  have hnow : getTicks (updateCurrentStateRr .freequeue (exitStart s)) = s.tsc (s.reads + 1) := by
    rw [getTicks, updateCurrentStateRr, State.setLinks_tsc, State.setLinks_reads, exitStart,
      State.setTask_tsc, State.setTask_reads, State.setMm_tsc, State.setMm_reads]
    rfl
  have hk := (updateCurrentStateRr_kept .freequeue (exitStart s)).trans
    (schedNextRr_kept .sysExit _)
  have hsw := schedNextRr_switched .sysExit (updateCurrentStateRr .freequeue (exitStart s))
  constructor
  · have hr := leave_rep (exitStart_rep h.placed.rep) h.placed.running .sysExit .freequeue
    rw [sysExit_eq, hr.queue_eq]
    exact Desk.leave_queue_self (by decide)
  · rw [sysExit_eq, hk.mm, exitStart_mm h.toCoherent]
  · rw [sysExit_eq, hk.idleTask, exitStart_idleTask]
  · rw [sysExit_eq, hk.pidMax, exitStart, State.setTask_pidMax, State.setMm_pidMax]
    rfl
  · exact hsw.cr3
  · intro u
    rw [sysExit_eq, hsw.task, hstart, hnow, updateCurrentStateRr, State.setLinks_task,
      exitStart_task]
    by_cases e : u = s.current
    · rw [if_pos e, if_pos e, if_pos e]
    · rw [if_neg e, if_neg e, if_neg e]

theorem Exited.live_iff (hx : Exited s s') : live s' = fun t => live s t ∧ t ≠ s.current := by
  funext t
  refine propext ?_
  unfold live
  rw [hx.idleTask, hx.free, List.mem_append, List.mem_singleton, not_or]
  exact and_assoc.symm

theorem Inv.exit (h : Inv s) (hu : inUser s) (hx : Exited s s') (hp : Placed s') : Inv s' := by
  have hL := h.live_current hu
  have hlive := hx.live_iff
  refine ⟨⟨hp, ?_, fun t ht => ?_, hx.rooted⟩, ?_, ?_⟩
  · rw [hx.mm, hlive]
    exact h.mapped.exit hL
  · rw [hx.free, List.mem_append, List.mem_singleton, not_or] at ht
    rw [hx.task, if_neg ht.2]
    exact h.base t ht.1
  · rw [hx.mm, hlive]
    exact h.exact.exit h.mapped hL
  · rw [hx.idleTask, hx.task, if_neg hL.1.symm]
    exact h.idlePid

/-! ## the processes -/

/-- what a step does to the processes: nothing, or it makes one, or it ends one -/
inductive Evolves (s : State) : Event → State → Prop where
  | still {e : Event} {s' : State} : Kept s s' → Rooted s' →
      queue s' .freequeue = queue s .freequeue → Evolves s e s'
  | fork {s' : State} (child : Task) (rest : List Task) (fs : List Nat) : inUser s →
      queue s .freequeue = child :: rest → fs.length = 20 → Grabbed s.mm fs →
      Spawned s s' child fs → Evolves s .fork s'
  | exit {s' : State} : inUser s → Exited s s' → Evolves s .exit s'

theorem step_evolves (h : Inv s) {e : Event} (he : step s e = some s') : Evolves s e s' := by
  by_cases h1 : e = .fork
  · subst h1
    cases step_cases he with
    | fork hu hf =>
      rcases h.forked hu hf with ⟨hq, -, hserv⟩ | ⟨child, rest, fs, hq, hlen, hg, hsp, -⟩
      · have hun := hserv.unmoved
        exact .still hun.kept (hun.rooted h.cr3) (queue_congr hun.links _)
      · exact .fork child rest fs hu hq hlen hg hsp
    | service hs => cases hs
  · by_cases h2 : e = .exit
    · subst h2
      cases step_cases he with
      | exit hu => exact .exit hu (h.exited hu)
      | service hs => cases hs
    · obtain ⟨hk, hr⟩ := step_kept h1 h2 h.cr3 he
      refine .still hk hr ?_
      rw [(step_moves h he).2.queue_eq]
      exact moves_freequeue h1 h2

/-- **Every step keeps the invariant.** -/
theorem step_inv (h : Inv s) {e : Event} (he : step s e = some s') : Inv s' := by
  cases step_evolves h he with
  | still hk hr hf => exact h.still hk (step_placed h he hk.idleTask) hf hr
  | fork child rest fs hu hq hlen hg hsp => exact h.fork hu hsp (hq ▸ List.mem_cons_self) hg hlen
  | exit hu hx => exact h.exit hu hx (step_placed h he hx.idleTask)

end
end Zeos
