import ZeroOS.Zeos.Utils

/-!
# Zeos: `sched.c`

Accounting, the round-robin policy and the context switch.

`inner_task_switch` leaves the caller's stack and goes on from the stack of the next task, so the
functions that end in a switch take a `Resume`: what the caller still has to do when its task gets
the CPU again.  They stop at the switch (`Control.switched`); `Kernel.lean` goes on from there.
-/

set_option linter.unusedVariables false

namespace Zeos
open Programs Rings

def getDIR (s : State) (t : Task) : Task := (s.task t).dirPagesBaseAddr

def getPT (s : State) (t : Task) : Task := s.mm.dirPages (getDIR s t)

def allocateDIR (t : Task) (s : State) : Int × State :=
  let x := s.task t
  (1, s.setTask t { x with dirPagesBaseAddr := t })

def State.setTState (s : State) (t : Task) (v : TState) : State :=
  let x := s.task t
  s.setTask t { x with tState := v }

/-! ## accounting -/

inductive Counter where
  | user
  | system
  | blocked
  | ready

def Stats.charge (st : Stats) (c : Counter) (d : DWord) : Stats :=
  match c with
  | .user => { st with userTicks := st.userTicks + d }
  | .system => { st with systemTicks := st.systemTicks + d }
  | .blocked => { st with blockedTicks := st.blockedTicks + d }
  | .ready => { st with readyTicks := st.readyTicks + d }

/-- `current_s->c += current_ticks - current_s->elapsed_total_ticks`, then
`current_s->elapsed_total_ticks = get_ticks()` -/
def TaskStruct.tick (c : Counter) (currentTicks : DWord) (x : TaskStruct) : TaskStruct :=
  let currentS := x.statics.charge c (currentTicks - x.statics.elapsedTotalTicks)
  { x with statics := { currentS with elapsedTotalTicks := currentTicks } }

/-- the fields that `set_ini_stats` writes -/
def TaskStruct.iniStats (ticks : DWord) (x : TaskStruct) : TaskStruct :=
  let statics := { x.statics with
    userTicks := 0, systemTicks := 0, blockedTicks := 0, elapsedTotalTicks := ticks,
    totalTrans := 0, remainingTicks := BitVec.ofInt 32 initialQuantum }
  { x with statics := statics, tState := .stReady }

/-- an accounting update of the task `t`: `f` sees what `get_ticks` returns -/
def State.account (s : State) (t : Task) (f : DWord → TaskStruct → TaskStruct) : State :=
  let s' := s.setTask t (f (getTicks s) (s.task t))
  { s' with reads := s'.reads + 1 }

def actTicks (c : Counter) (t : Task) (s : State) : State := s.account t (TaskStruct.tick c)

def setIniStats (t : Task) (s : State) : State := s.account t TaskStruct.iniStats

section
variable (s : State) (t : Task) (f : DWord → TaskStruct → TaskStruct)

@[simp] theorem account_task (u : Task) :
    (s.account t f).task u = if u = t then f (getTicks s) (s.task t) else s.task u :=
  State.setTask_task ..
@[simp] theorem account_links : (s.account t f).links = s.links := rfl
@[simp] theorem account_current : (s.account t f).current = s.current := rfl
@[simp] theorem account_idleTask : (s.account t f).idleTask = s.idleTask := rfl
@[simp] theorem account_control : (s.account t f).control = s.control := rfl
@[simp] theorem account_cr3 : (s.account t f).cr3 = s.cr3 := rfl
@[simp] theorem account_mm : (s.account t f).mm = s.mm := rfl
@[simp] theorem account_mem : (s.account t f).mem = s.mem := rfl
@[simp] theorem account_pidMax : (s.account t f).pidMax = s.pidMax := rfl
@[simp] theorem account_cpuQuantum : (s.account t f).cpuQuantum = s.cpuQuantum := rfl
@[simp] theorem account_tsc : (s.account t f).tsc = s.tsc := rfl
@[simp] theorem account_reads : (s.account t f).reads = s.reads + 1 := rfl

end

def actTicksUser2kernel (s : State) : State := actTicks .user s.current s

def actTicksKernel2user (s : State) : State := actTicks .system s.current s

def actTicksKernel2ready (s : State) : State :=
  (actTicks .system s.current s).setTState s.current .stReady

def actTicksReady2kernel (s : State) : State :=
  let s := (actTicks .ready s.current s).setTState s.current .stRun
  let x := s.task s.current
  let statics := { x.statics with totalTrans := x.statics.totalTrans + 1 }
  s.setTask s.current { x with statics := statics }

def actStatsSurtIdle (s : State) : State := actTicks .system s.idleTask s

/-! ## the context switch -/

def innerTaskSwitch (k : Resume) (new : Task) (s : State) : State :=
  let x := s.task s.current
  let s := s.setTask s.current { x with kernelEsp := k }
  { s with cr3 := getDIR s new, current := new, control := .switched }

def taskSwitch (k : Resume) (t : Task) (s : State) : State :=
  innerTaskSwitch k t (actTicksKernel2ready s)

/-! ## the policy -/

/-- `l = list_first (q); list_del (l);`, and the PCB of `l` -/
def takeFirst (q : Queue) (s : State) : Task × State :=
  let l := listFirst s.links (.queue q)
  (listHeadToTaskStruct l, s.setLinks (listDel .null s.links l))

def schedNextRr (k : Resume) (s : State) : State :=
  if listEmpty s.links (.queue .readyqueue) then
    -- pasem a idle
    taskSwitch k s.idleTask s
  else
    let (next, s) := takeFirst .readyqueue s
    let s := { s with cpuQuantum := (s.task next).quantum }
    taskSwitch k next s

def updateCurrentStateRr (dest : Queue) (s : State) : State :=
  s.setLinks (listAddTail s.links (.list s.current) (.queue dest))

def needsSchedRr (s : State) : Bool := s.cpuQuantum ≤ 0

def updateSchedDataRr (s : State) : State := { s with cpuQuantum := int32 (s.cpuQuantum - 1) }

/-! ## blocking -/

/-- `st->system_ticks = get_ticks() - st->elapsed_total_ticks` (assigned, not added), then
`st->elapsed_total_ticks = get_ticks()` -/
def TaskStruct.assignSystem (ticks : DWord) (x : TaskStruct) : TaskStruct :=
  let st := { x.statics with systemTicks := ticks - x.statics.elapsedTotalTicks }
  { x with statics := { st with elapsedTotalTicks := ticks } }

/-- called by the console code, itself called by `c` -/
def blockProcess (c : Caller) (blockQueue : Queue) (s : State) : State :=
  let act := s.current
  let s := updateCurrentStateRr blockQueue s
  let s := s.account act TaskStruct.assignSystem
  schedNextRr (.console c) (s.setTState act .stBlocked)

def unblockProcess (c : Caller) (blocked : Task) (s : State) : State :=
  let s := s.setLinks (listDel .null s.links (.list blocked))
  let s := s.setLinks (listAddTail s.links (.list blocked) (.queue .readyqueue))
  let s := (actTicks .blocked blocked s).setTState blocked .stReady
  if needsSchedRr s then
    schedNextRr (.console c) (updateCurrentStateRr .readyqueue s)
  else s

def getStatPID (pid : Int) (st : DWord) (s : State) : Except State (Int × State) :=
  match (List.finRange nrTasks).find? fun i => (s.task i).pid = pid with
  | some act =>
    (copyToUser (toUserBus (s.task act).statics.bytes) 0 st.toNat sizeofStats s).map fun s => (0, s)
  | none => .ok (-1, s)

/-! ## what scheduling leaves alone -/

/-- what makes a PCB the process it is -/
def TaskStruct.ident (x : TaskStruct) : Int × Task × Int := (x.pid, x.dirPagesBaseAddr, x.quantum)

theorem setTask_ident {s : State} {t : Task} {x : TaskStruct} (hx : x.ident = (s.task t).ident)
    (u : Task) : ((s.setTask t x).task u).ident = (s.task u).ident := by
  rw [State.setTask_task]
  by_cases h : u = t
  · rw [if_pos h, hx, h]
  · rw [if_neg h]

/-- Scheduling and accounting write neither the page tables nor the identity of a task. -/
structure Kept (s s' : State) : Prop where
  mm : s'.mm = s.mm
  pidMax : s'.pidMax = s.pidMax
  idleTask : s'.idleTask = s.idleTask
  ident : ∀ t, (s'.task t).ident = (s.task t).ident

theorem Kept.trans {a b c : State} (h : Kept a b) (h' : Kept b c) : Kept a c :=
  ⟨h'.mm.trans h.mm, h'.pidMax.trans h.pidMax, h'.idleTask.trans h.idleTask,
    fun t => (h'.ident t).trans (h.ident t)⟩

section
variable {s s' : State}

theorem Kept.pid (h : Kept s s') (t : Task) : (s'.task t).pid = (s.task t).pid :=
  congrArg Prod.fst (h.ident t)

theorem Kept.dir (h : Kept s s') (t : Task) :
    (s'.task t).dirPagesBaseAddr = (s.task t).dirPagesBaseAddr :=
  congrArg (fun x => x.2.1) (h.ident t)

theorem Kept.quantum (h : Kept s s') (t : Task) : (s'.task t).quantum = (s.task t).quantum :=
  congrArg (fun x => x.2.2) (h.ident t)

end

@[simp] theorem tick_ident (c : Counter) (now : DWord) (x : TaskStruct) :
    (x.tick c now).ident = x.ident := rfl
@[simp] theorem assignSystem_ident (now : DWord) (x : TaskStruct) :
    (x.assignSystem now).ident = x.ident := rfl

theorem account_kept (s : State) (t : Task) {f : DWord → TaskStruct → TaskStruct}
    (hf : ∀ now x, (f now x).ident = x.ident) : Kept s (s.account t f) :=
  ⟨rfl, rfl, rfl, setTask_ident (hf _ _)⟩

theorem actTicks_kept (c : Counter) (t : Task) (s : State) : Kept s (actTicks c t s) :=
  account_kept s t (tick_ident c)

theorem setTState_kept (s : State) (t : Task) (v : TState) : Kept s (s.setTState t v) :=
  ⟨rfl, rfl, rfl, setTask_ident rfl⟩

theorem actTicksKernel2ready_kept (s : State) : Kept s (actTicksKernel2ready s) :=
  (actTicks_kept ..).trans (setTState_kept ..)

theorem actTicksReady2kernel_kept (s : State) : Kept s (actTicksReady2kernel s) := by
  have h := (actTicks_kept .ready s.current s).trans (setTState_kept _ s.current .stRun)
  exact h.trans ⟨rfl, rfl, rfl, setTask_ident rfl⟩

theorem innerTaskSwitch_kept (k : Resume) (t : Task) (s : State) :
    Kept s (innerTaskSwitch k t s) := ⟨rfl, rfl, rfl, setTask_ident rfl⟩

theorem taskSwitch_kept (k : Resume) (t : Task) (s : State) : Kept s (taskSwitch k t s) :=
  (actTicksKernel2ready_kept s).trans (innerTaskSwitch_kept ..)

theorem schedNextRr_kept (k : Resume) (s : State) : Kept s (schedNextRr k s) := by
  unfold schedNextRr
  dsimp only
  split
  · exact taskSwitch_kept ..
  · refine Kept.trans ?_ (taskSwitch_kept ..)
    exact ⟨rfl, rfl, rfl, fun _ => rfl⟩

theorem setLinks_kept (s : State) (h : Heap ListHead) : Kept s (s.setLinks h) :=
  ⟨rfl, rfl, rfl, fun _ => rfl⟩

theorem updateCurrentStateRr_kept (q : Queue) (s : State) : Kept s (updateCurrentStateRr q s) :=
  ⟨rfl, rfl, rfl, fun _ => rfl⟩

theorem blockProcess_kept (c : Caller) (q : Queue) (s : State) : Kept s (blockProcess c q s) :=
  (((updateCurrentStateRr_kept q s).trans (account_kept _ _ assignSystem_ident)).trans
    (setTState_kept ..)).trans (schedNextRr_kept ..)

theorem unblockProcess_kept (c : Caller) (t : Task) (s : State) : Kept s (unblockProcess c t s) := by
  unfold unblockProcess
  have h : ∀ h, Kept s ((actTicks .blocked t (s.setLinks h)).setTState t .stReady) :=
    fun h => ((setLinks_kept s h).trans (actTicks_kept ..)).trans (setTState_kept ..)
  dsimp only
  split
  · exact ((h _).trans (updateCurrentStateRr_kept ..)).trans (schedNextRr_kept ..)
  · exact h _

/-! ## a switch -/

/-- the PCB of a task that is switched away from: `act_ticks_kernel2ready`, and the saved stack -/
def TaskStruct.switchedOut (k : Resume) (ticks : DWord) (x : TaskStruct) : TaskStruct :=
  { x.tick .system ticks with tState := .stReady, kernelEsp := k }

theorem taskSwitch_task (k : Resume) (t : Task) (s : State) (u : Task) :
    (taskSwitch k t s).task u =
      if u = s.current then (s.task u).switchedOut k (getTicks s) else s.task u := by
  have e : (taskSwitch k t s).task =
      ((actTicksKernel2ready s).setTask s.current
        { (actTicksKernel2ready s).task s.current with kernelEsp := k }).task := rfl
  rw [e, State.setTask_task]
  unfold actTicksKernel2ready State.setTState actTicks
  simp only [State.setTask_task, account_task, if_true]
  by_cases h : u = s.current
  · rw [if_pos h, if_pos h, h]
    rfl
  · rw [if_neg h, if_neg h, if_neg h, if_neg h]

/-- what `sched_next` does, whichever task it finds -/
structure Switched (k : Resume) (s s' : State) : Prop where
  control : s'.control = .switched
  cr3 : s'.cr3 = getDIR s' s'.current
  reads : s'.reads = s.reads + 1
  tsc : s'.tsc = s.tsc
  mem : s'.mem = s.mem
  task : ∀ u, s'.task u =
    if u = s.current then (s.task u).switchedOut k (getTicks s) else s.task u

theorem taskSwitch_switched (k : Resume) (t : Task) (s : State) :
    Switched k s (taskSwitch k t s) :=
  ⟨rfl, rfl, rfl, rfl, rfl, taskSwitch_task k t s⟩

theorem schedNextRr_switched (k : Resume) (s : State) : Switched k s (schedNextRr k s) := by
  unfold schedNextRr
  dsimp only
  split
  · exact taskSwitch_switched ..
  · obtain ⟨h1, h2, h3, h4, h5, h6⟩ := taskSwitch_switched k (takeFirst .readyqueue s).1
      { (takeFirst .readyqueue s).2 with
        cpuQuantum := ((takeFirst .readyqueue s).2.task (takeFirst .readyqueue s).1).quantum }
    exact ⟨h1, h2, h3, h4, h5, h6⟩

end Zeos
