import Mathlib.Data.BitVec
import Mathlib.Logic.Function.Basic
import ZeroOS.Lib.Rings

/-!
# Zeos: constants and data types

`include/mm_address.h`, `include/sched.h`, `include/errno.h`, `include/stats.h`,
`include/types.h`, and the globals of `sched.c`, `mm.c`, `sys.c` and `system.c` as one record
(`State`).

A pointer into an array of the kernel is the index it points at: a PCB is `Task`, the page
directory and the page table of an array are its index too.  `struct list_head` keeps its
pointers, on a heap of its own (`State.links`).  Physical memory (`State.mem`) is bytes; the
kernel's own records are kept beside it and are not read through it.

`PID`, `quantum`, `CPU_QUANTUM` are C `int`s (`int32`), the tick counters are `unsigned long`s.
-/

set_option linter.unusedVariables false

namespace Zeos
open Rings

abbrev Byte := BitVec 8
abbrev DWord := BitVec 32

/-- the `int` that holds `x` -/
def int32 (x : Int) : Int := (x + 2147483648) % 4294967296 - 2147483648

theorem int32_eq {x : Int} (h1 : -2147483648 ≤ x) (h2 : x < 2147483648) : int32 x = x := by
  unfold int32; omega

/-! ## constants -/

@[simp] abbrev nrTasks : Nat := 10
@[simp] abbrev initialQuantum : Int := 18
@[simp] abbrev totalPages : Nat := 1024
@[simp] abbrev numPagKernel : Nat := 256
@[simp] abbrev numPagCode : Nat := 8
@[simp] abbrev numPagData : Nat := 20
@[simp] abbrev pageSize : Nat := 0x1000
@[simp] abbrev lUserStart : Nat := 0x100000
@[simp] abbrev pagLogInitCodeP0 : Nat := lUserStart / 4096
@[simp] abbrev pagLogInitDataP0 : Nat := pagLogInitCodeP0 + numPagCode
@[simp] abbrev maxWrite : Nat := 128

abbrev esrch : Int := 3
abbrev ebadf : Int := 9
abbrev eagain : Int := 11
abbrev enomem : Int := 12
abbrev eacces : Int := 13
abbrev efault : Int := 14
abbrev einval : Int := 22

/-! ## process control blocks -/

/-- a PCB: the index of its `task_union` in `task[]` -/
abbrev Task := Fin nrTasks

instance : NeZero nrTasks := ⟨by decide⟩

structure Stats where
  userTicks : DWord
  systemTicks : DWord
  blockedTicks : DWord
  readyTicks : DWord
  elapsedTotalTicks : DWord
  totalTrans : DWord
  remainingTicks : DWord
  deriving DecidableEq

inductive TState where
  | stRun
  | stReady
  | stBlocked
  deriving DecidableEq

/-- the kernel code that calls the console code of the library, which is not in this repository:
`clock_routine` (`zeos_update_read_console_emul`) and the system call `sys_read` -/
inductive Caller where
  | clockRoutine
  | sysRead
  deriving DecidableEq

/-- What the words at `kernel_esp` make the CPU do when `inner_task_switch` loads it. -/
inductive Resume where
  /-- an empty stack: the task has never been switched away from -/
  | empty
  /-- `init_idle`: a dummy `ebp`, then `cpu_idle` -/
  | cpuIdle
  /-- `sys_fork`: a dummy `ebp`, then `ret_from_fork` -/
  | retFromFork
  /-- back into `task_switch`, called by `sched_next` from the end of `clock_routine` -/
  | clockRoutine
  /-- back into `task_switch`, called from `block_process` or `unblock_process`, and from there
  into the console code -/
  | console (c : Caller)
  /-- back into `task_switch`, called from `sys_exit` -/
  | sysExit
  deriving DecidableEq

structure TaskStruct where
  pid : Int
  dirPagesBaseAddr : Task
  quantum : Int
  kernelEsp : Resume
  statics : Stats
  tState : TState
  deriving DecidableEq

/-- a PCB of zeroed memory (no directory is set yet: the index stands for no directory) -/
def TaskStruct.zero : TaskStruct :=
  ⟨0, 0, 0, .empty, ⟨0, 0, 0, 0, 0, 0, 0⟩, .stRun⟩

/-! ## queues -/

inductive Queue where
  | freequeue
  | readyqueue
  | blocked (i : Nat)
  deriving DecidableEq

/-- the address of a `struct list_head`: a queue head or the `list` field of a PCB -/
inductive ListHead where
  | null
  | queue (q : Queue)
  | list (t : Task)
  deriving DecidableEq

/-- `list_head_to_task_struct`: the PCB whose `list` field is at this address (of no use on any
other address) -/
def listHeadToTaskStruct : ListHead → Task
  | .list t => t
  | _ => 0

/-! ## paging -/

structure PageTableEntry where
  present : Bool
  rw : Bool
  user : Bool
  pbaseAddr : Nat
  deriving DecidableEq

/-- `entry = 0` -/
def PageTableEntry.zero : PageTableEntry := ⟨false, false, false, 0⟩

inductive FrameMark where
  | freeFrame
  | usedFrame
  deriving DecidableEq

/-- the globals of `mm.c` -/
@[ext]
structure Mm where
  /-- the page table that entry 0 of a directory points at -/
  dirPages : Task → Task
  pagusrTable : Task → Nat → PageTableEntry
  physMem : Nat → FrameMark

/-! ## the machine -/

/-- Where the CPU is. -/
inductive Control where
  /-- in user code, or in the loop of `cpu_idle`: interrupts are on -/
  | user
  /-- in the console code of the library -/
  | console (c : Caller)
  /-- `inner_task_switch` has just loaded the stack of `current` -/
  | switched
  deriving DecidableEq

structure State where
  task : Task → TaskStruct
  /-- every `struct list_head` -/
  links : Heap ListHead
  idleTask : Task
  initTask : Task
  /-- the PCB whose kernel stack `%esp` (and `tss.esp0`) is in -/
  current : Task
  control : Control
  /-- the directory `%cr3` points at -/
  cr3 : Task
  mm : Mm
  /-- physical memory -/
  mem : Nat → Byte
  cpuQuantum : Int
  pidMax : Int
  zeosTicks : Int
  /-- the values that `get_ticks` returns to one accounting update after the other -/
  tsc : Nat → DWord
  /-- the number of accounting updates so far -/
  reads : Nat
  /-- every character given to `printc` so far -/
  out : List Byte
  /-- history: every address dereferenced through a pointer of a system call -/
  derefs : List Nat

/-- overwrite one PCB -/
def State.setTask (s : State) (t : Task) (x : TaskStruct) : State :=
  { s with task := Function.update s.task t x }

def State.setLinks (s : State) (links : Heap ListHead) : State := { s with links := links }

def State.setMm (s : State) (mm : Mm) : State := { s with mm := mm }

def State.setMem (s : State) (mem : Nat → Byte) : State := { s with mem := mem }

section
variable (s : State) (t : Task) (x : TaskStruct) (h : Heap ListHead) (m : Mm) (b : Nat → Byte)

@[simp] theorem State.setTask_task (u : Task) :
    (s.setTask t x).task u = if u = t then x else s.task u := Function.update_apply ..
@[simp] theorem State.setTask_links : (s.setTask t x).links = s.links := rfl
@[simp] theorem State.setTask_current : (s.setTask t x).current = s.current := rfl
@[simp] theorem State.setTask_idleTask : (s.setTask t x).idleTask = s.idleTask := rfl
@[simp] theorem State.setTask_initTask : (s.setTask t x).initTask = s.initTask := rfl
@[simp] theorem State.setTask_control : (s.setTask t x).control = s.control := rfl
@[simp] theorem State.setTask_cr3 : (s.setTask t x).cr3 = s.cr3 := rfl
@[simp] theorem State.setTask_mem : (s.setTask t x).mem = s.mem := rfl
@[simp] theorem State.setTask_pidMax : (s.setTask t x).pidMax = s.pidMax := rfl
@[simp] theorem State.setTask_cpuQuantum : (s.setTask t x).cpuQuantum = s.cpuQuantum := rfl
@[simp] theorem State.setTask_tsc : (s.setTask t x).tsc = s.tsc := rfl
@[simp] theorem State.setTask_reads : (s.setTask t x).reads = s.reads := rfl
@[simp] theorem State.setTask_mm : (s.setTask t x).mm = s.mm := rfl

@[simp] theorem State.setLinks_task : (s.setLinks h).task = s.task := rfl
@[simp] theorem State.setLinks_links : (s.setLinks h).links = h := rfl
@[simp] theorem State.setLinks_current : (s.setLinks h).current = s.current := rfl
@[simp] theorem State.setLinks_idleTask : (s.setLinks h).idleTask = s.idleTask := rfl
@[simp] theorem State.setLinks_initTask : (s.setLinks h).initTask = s.initTask := rfl
@[simp] theorem State.setLinks_control : (s.setLinks h).control = s.control := rfl
@[simp] theorem State.setLinks_cr3 : (s.setLinks h).cr3 = s.cr3 := rfl
@[simp] theorem State.setLinks_mem : (s.setLinks h).mem = s.mem := rfl
@[simp] theorem State.setLinks_pidMax : (s.setLinks h).pidMax = s.pidMax := rfl
@[simp] theorem State.setLinks_cpuQuantum : (s.setLinks h).cpuQuantum = s.cpuQuantum := rfl
@[simp] theorem State.setLinks_tsc : (s.setLinks h).tsc = s.tsc := rfl
@[simp] theorem State.setLinks_reads : (s.setLinks h).reads = s.reads := rfl
@[simp] theorem State.setLinks_mm : (s.setLinks h).mm = s.mm := rfl

@[simp] theorem State.setMm_task : (s.setMm m).task = s.task := rfl
@[simp] theorem State.setMm_mm : (s.setMm m).mm = m := rfl
@[simp] theorem State.setMm_links : (s.setMm m).links = s.links := rfl
@[simp] theorem State.setMm_current : (s.setMm m).current = s.current := rfl
@[simp] theorem State.setMm_idleTask : (s.setMm m).idleTask = s.idleTask := rfl
@[simp] theorem State.setMm_initTask : (s.setMm m).initTask = s.initTask := rfl
@[simp] theorem State.setMm_control : (s.setMm m).control = s.control := rfl
@[simp] theorem State.setMm_cr3 : (s.setMm m).cr3 = s.cr3 := rfl
@[simp] theorem State.setMm_mem : (s.setMm m).mem = s.mem := rfl
@[simp] theorem State.setMm_pidMax : (s.setMm m).pidMax = s.pidMax := rfl
@[simp] theorem State.setMm_cpuQuantum : (s.setMm m).cpuQuantum = s.cpuQuantum := rfl
@[simp] theorem State.setMm_tsc : (s.setMm m).tsc = s.tsc := rfl
@[simp] theorem State.setMm_reads : (s.setMm m).reads = s.reads := rfl

@[simp] theorem State.setMem_task : (s.setMem b).task = s.task := rfl
@[simp] theorem State.setMem_mem : (s.setMem b).mem = b := rfl
@[simp] theorem State.setMem_links : (s.setMem b).links = s.links := rfl
@[simp] theorem State.setMem_current : (s.setMem b).current = s.current := rfl
@[simp] theorem State.setMem_idleTask : (s.setMem b).idleTask = s.idleTask := rfl
@[simp] theorem State.setMem_initTask : (s.setMem b).initTask = s.initTask := rfl
@[simp] theorem State.setMem_control : (s.setMem b).control = s.control := rfl
@[simp] theorem State.setMem_cr3 : (s.setMem b).cr3 = s.cr3 := rfl
@[simp] theorem State.setMem_mm : (s.setMem b).mm = s.mm := rfl
@[simp] theorem State.setMem_pidMax : (s.setMem b).pidMax = s.pidMax := rfl
@[simp] theorem State.setMem_cpuQuantum : (s.setMem b).cpuQuantum = s.cpuQuantum := rfl
@[simp] theorem State.setMem_tsc : (s.setMem b).tsc = s.tsc := rfl
@[simp] theorem State.setMem_reads : (s.setMem b).reads = s.reads := rfl

end

/-- the elements of a queue: a `list_for_each` from its head -/
def queue (s : State) (q : Queue) : List Task :=
  (walk s.links (.queue q) nrTasks (s.links.next (.queue q))).map listHeadToTaskStruct

/-- what `sizeof (struct stats)` bytes hold, lowest address first -/
def Stats.bytes (st : Stats) (i : Nat) : Byte :=
  let w := [st.userTicks, st.systemTicks, st.blockedTicks, st.readyTicks, st.elapsedTotalTicks,
    st.totalTrans, st.remainingTicks].getD (i / 4) 0
  (w >>> (8 * (i % 4))).setWidth 8

abbrev sizeofStats : Nat := 28

end Zeos
