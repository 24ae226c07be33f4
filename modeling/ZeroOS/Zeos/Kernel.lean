import ZeroOS.Zeos.Sys
import ZeroOS.Lib.Runs

/-!
# Zeos: the kernel as a transition system

`boot` runs the initialisation of `system.c`.  `step` lets one event happen:

* a system call of the current user process, or one of its stores to memory;
* `clock`: the clock interrupt runs `clock_routine` up to its call of the console code;
* `block`, `unblock`: the console code of the library calls `block_process` on the current
  process or `unblock_process` on a blocked one;
* `ret`: the console code returns to its caller;
* `resume`: the task that a context switch has just given the CPU goes on.

Interrupts are off in the kernel, so nothing else happens between `clock` and `ret`, or between a
switch and `resume`.  The policy pointers are the round-robin functions.  `sys_read` and the console
code are in the library `libzeos.a`: here they block and unblock processes and return, and are taken
to store nothing in user memory.  An event that cannot happen, or that ends in a page fault, has no
next state.
-/

set_option linter.unusedVariables false

namespace Zeos
open Programs Runs Rings

/-! ## interrupt.c -/

/-- `clock_routine`, up to the call of `zeos_update_read_console_emul` -/
def clockEnter (s : State) : State :=
  let s := actTicksUser2kernel s
  { s with zeosTicks := int32 (s.zeosTicks + 1), control := .console .clockRoutine }

/-- `clock_routine`, from `zeos_show_clock` to its end -/
def clockExit (s : State) : State := { actTicksKernel2user s with control := .user }

/-- `clock_routine`, after `zeos_update_read_console_emul` -/
def clockReturn (s : State) : State :=
  let s := updateSchedDataRr s
  if needsSchedRr s then
    -- cal posar lactual a la ready queue i canviar la task de la CPU
    let s := if (s.task s.current).pid ≠ 0 then updateCurrentStateRr .readyqueue s
      else actStatsSurtIdle s
    schedNextRr .clockRoutine s
  else clockExit s

/-- the console code returns to its caller -/
def consoleReturn (c : Caller) (s : State) : State :=
  match c with
  | .clockRoutine => clockReturn s
  | .sysRead => { s with control := .user }

/-- `inner_task_switch` has loaded `kernel_esp`: the rest of the kernel code of the task -/
def resume (s : State) : State :=
  match (s.task s.current).kernelEsp with
  | .empty => { s with control := .user }
  | .cpuIdle => { s with control := .user }
  | .retFromFork => { (retFromFork s).2 with control := .user }
  | .clockRoutine => clockExit (actTicksReady2kernel s)
  | .console c => { actTicksReady2kernel s with control := .console c }
  | .sysExit => { actTicksReady2kernel s with control := .user }

/-! ## events -/

inductive Event where
  | fork
  | exit
  | write (fd : Int) (buffer : DWord) (size : Int)
  | gettime
  | getpid
  | getStats (pid : Int) (st : DWord)
  | read
  | store (a : Nat) (b : Byte)
  | clock
  | block (i : Nat)
  | unblock (i : Nat) (t : Task)
  | ret
  | resume
  deriving DecidableEq

/-- the state after a system call, if it returns -/
def returned (r : Except State (Int × State)) : Option State :=
  match r with
  | .ok (_, s) => some s
  | .error _ => none

/-- a store of a user program -/
def userStore (a : Nat) (b : Byte) (s : State) : Option State :=
  (userStoreAddr s.mm s.cr3 a).map fun x => s.setMem (Function.update s.mem x b)

/-- a user program runs, and can make a system call -/
def inUser (s : State) : Prop := s.control = .user ∧ s.current ≠ s.idleTask

instance (s : State) : Decidable (inUser s) := inferInstanceAs (Decidable (_ ∧ _))

/-- One event.  `read` only enters the console code of the library, and no event of that code stores
to user memory: the buffer of a `read` keeps its bytes. -/
def step (s : State) (e : Event) : Option State :=
  match e with
  | .fork => if inUser s then returned (sysFork s) else none
  | .exit => if inUser s then some (sysExit s) else none
  | .write fd buffer size => if inUser s then returned (sysWrite fd buffer size s) else none
  | .gettime => if inUser s then some (sysGettime s).2 else none
  | .getpid => if inUser s then some (sysGetpid s).2 else none
  | .getStats pid st => if inUser s then returned (sysGetStats pid st s) else none
  | .read => if inUser s then some { s with control := .console .sysRead } else none
  | .store a b => if inUser s then userStore a b s else none
  | .clock => if s.control = .user then some (clockEnter s) else none
  | .block i =>
    match s.control with
    | .console c => if s.current ≠ s.idleTask then some (blockProcess c (.blocked i) s) else none
    | _ => none
  | .unblock i t =>
    match s.control with
    | .console c => if t ∈ queue s (.blocked i) then some (unblockProcess c t s) else none
    | _ => none
  | .ret =>
    match s.control with
    | .console c => some (consoleReturn c s)
    | _ => none
  | .resume => if s.control = .switched then some (resume s) else none

/-! ## boot -/

/-- the kernel image in memory: every global is zero -/
def image (mem : Nat → Byte) (tsc : Nat → DWord) : State where
  task _ := .zero
  links := ⟨fun _ => .null, fun _ => .null⟩
  idleTask := 0
  initTask := 0
  current := 1
  control := .switched
  cr3 := 0
  mm := ⟨fun _ => 0, fun _ _ => .zero, fun _ => .freeFrame⟩
  mem := mem
  cpuQuantum := 0
  pidMax := 1
  zeosTicks := 0
  tsc := tsc
  reads := 0
  out := []
  derefs := []

def initMm (s : State) : State :=
  let s := s.setMm (initDirPages (initFrames (initTablePages s.mm)))
  let s := (allocateDIR 0 s).2
  { s with cr3 := getDIR s 0 }

/-- one round of the loop of `init_sched` -/
def initSchedTask (i : Nat) (s : State) : State :=
  let t : Task := Fin.ofNat nrTasks i
  let x := s.task t
  let s := s.setTask t { x with pid := -1 }
  s.setLinks (listAdd s.links (.list t) (.queue .freequeue))

def initSched (s : State) : State :=
  let h := initListHead s.links (.queue .freequeue)
  let s := s.setLinks (initListHead h (.queue .readyqueue))
  forUp initSchedTask nrTasks s

def initIdle (s : State) : State :=
  let (t, s) := takeFirst .freequeue s
  let s := { s with idleTask := t }
  let x := s.task s.idleTask
  let s := s.setTask s.idleTask { x with pid := 0, kernelEsp := .cpuIdle }
  let s := (allocateDIR s.idleTask s).2
  setIniStats s.idleTask s

/-- the fields that `init_task1` writes at its end -/
def TaskStruct.iniTask1 (ticks : DWord) (x : TaskStruct) : TaskStruct :=
  let statics := { x.statics with
    userTicks := 0, systemTicks := 0, blockedTicks := 0, elapsedTotalTicks := ticks,
    totalTrans := 0 }
  { x with quantum := initialQuantum, statics := statics, tState := .stRun }

def initTask1 (s : State) : State :=
  let (t, s) := takeFirst .freequeue s
  let s := { s with initTask := t }
  let x := s.task s.initTask
  let s := s.setTask s.initTask { x with pid := 1, kernelEsp := .empty }
  let s := (allocateDIR s.initTask s).2
  let s := s.setMm (setUserPages s.mm (getPT s s.initTask))
  -- esp0 of the TSS: the next entry into the kernel is on this task's stack
  let s := { s with current := s.initTask, cr3 := getDIR s s.initTask }
  s.account s.initTask TaskStruct.iniTask1

/-- `zeos_console_init`, of the library: the blocked queues start empty -/
def zeosConsoleInit (s : State) : State :=
  let empty (links : ListHead → ListHead) : ListHead → ListHead
    | .queue (.blocked i) => .queue (.blocked i)
    | a => links a
  s.setLinks ⟨empty s.links.next, empty s.links.prev⟩

/-- the state in which the first user program starts, whatever memory holds and whatever values
the time-stamp counter will give -/
def boot (mem : Nat → Byte) (tsc : Nat → DWord) : State :=
  { zeosConsoleInit (initTask1 (initIdle (initSched (initMm (image mem tsc))))) with
    control := .user }

end Zeos
