import ZeroOS.Lib.Simulation
import ZeroOS.Lib.Spaces
import ZeroOS.Zeos.Memory

/-!
# Zeos: the machine that the programs see

A `Machine` has processes on a desk, with a memory of their own and a PID, a screen and a clock.
It has no frames, page tables, TLB, lists, kernel stacks, quanta or counters.

* `Machine.Turns`   the moves of the scheduler;
* `Machine.Does`    what an event does to the machine, and what it answers;
* `reply`           the answer that the kernel gives;
* `shown s`         the machine of a state of the kernel, and `Shows s m`: the programs cannot tell
                    `s` from `m`.

The code pages are common to all processes.  The machine leaves open when a slice ends, what the
statistics say, and what `sys_write` prints of addresses outside the user pages.
-/

set_option linter.unusedVariables false

namespace Zeos
open Desks Spaces Simulation

/-- the addresses of the code pages -/
def Common (a : Nat) : Prop := a < 264 * 4096

instance : DecidablePred Common := fun a => inferInstanceAs (Decidable (a < _))

structure Machine where
  desk : Desk Task Queue
  memory : Memory Task Nat Byte
  pid : Task → Int
  pidMax : Int
  screen : List Byte
  clock : Int

namespace Machine

def moved (idle : Task) (m : Machine) (ms : List (Move Task Queue)) : Machine :=
  { m with desk := m.desk.afterAll idle .readyqueue ms }

/-- the child is a copy of the running process with the next PID -/
def spawn (idle child : Task) (m : Machine) : Machine :=
  { m.moved idle [.move .freequeue .readyqueue child] with
    memory := m.memory.copy m.desk.running child
    pid := Function.update m.pid child (int32 (m.pidMax + 1))
    pidMax := int32 (m.pidMax + 1) }

def leave (idle : Task) (m : Machine) : Machine :=
  { m.moved idle [.leave .freequeue] with pid := Function.update m.pid m.desk.running (-1) }

def patched (m : Machine) (f : Nat → Option Byte) : Machine :=
  { m with memory := m.memory.patch m.desk.running f }

/-- `text` is what a `write` of the running process may print. -/
structure Prints (m : Machine) (fd : Int) (buffer : DWord) (size : Int) (text : List Byte) :
    Prop where
  refused : writeAnswer fd buffer size < 0 → text = []
  length : 0 ≤ writeAnswer fd buffer size → text.length = size.toNat
  bytes : 0 ≤ writeAnswer fd buffer size → ∀ i, i < size.toNat → UserAddr (buffer.toNat + i) →
    text[i]? = some (m.memory.read Common m.desk.running (buffer.toNat + i))

/-- the answer to `get_stats` -/
def statsAnswer (m : Machine) (pid : Int) (st : DWord) : Int :=
  if pid < 0 then -einval
  else if StatsRefused st then -efault
  else if ∀ t, m.pid t ≠ pid then -esrch
  else 0

/-- the moves of the desk that the scheduler makes; idle has the PID 0 -/
inductive Turns (m : Machine) : Event → List (Move Task Queue) → Prop where
  | read : Turns m .read []
  | ret : Turns m .ret []
  | resume : Turns m .resume []
  | block (i : Nat) : Turns m (.block i) [.leave (.blocked i)]
  | unblock (i : Nat) (t : Task) : t ∈ m.desk.queue (.blocked i) →
      Turns m (.unblock i t) [.move (.blocked i) .readyqueue t]
  | preempt (i : Nat) (t : Task) : t ∈ m.desk.queue (.blocked i) →
      Turns m (.unblock i t) [.move (.blocked i) .readyqueue t, .leave .readyqueue]
  | slice : m.pid m.desk.running ≠ 0 → Turns m .ret [.leave .readyqueue]
  | idle : m.pid m.desk.running = 0 → Turns m .ret [.drop]

inductive Does (idle : Task) (m : Machine) : Event → Int → Machine → Prop where
  | fork (child : Task) (rest : List Task) : m.desk.queue .freequeue = child :: rest →
      Does idle m .fork (int32 (m.pidMax + 1)) (m.spawn idle child)
  | full : m.desk.queue .freequeue = [] → Does idle m .fork (-eagain) m
  | exit : Does idle m .exit 0 (m.leave idle)
  | write (fd : Int) (buffer : DWord) (size : Int) (text : List Byte) :
      m.Prints fd buffer size text →
      Does idle m (.write fd buffer size) (writeAnswer fd buffer size)
        { m with screen := m.screen ++ text }
  | gettime : Does idle m .gettime m.clock m
  | getpid : Does idle m .getpid (m.pid m.desk.running) m
  | refused (pid : Int) (st : DWord) : m.statsAnswer pid st ≠ 0 →
      Does idle m (.getStats pid st) (m.statsAnswer pid st) m
  | record (pid : Int) (st : DWord) (obj : Nat → Byte) : m.statsAnswer pid st = 0 →
      st.toNat + sizeofStats ≤ 284 * 4096 →
      Does idle m (.getStats pid st) 0 (m.patched (fill st.toNat sizeofStats obj))
  | store (a : Nat) (b : Byte) : UserAddr a → Does idle m (.store a b) 0 (m.patched (poke a b))
  | clock : Does idle m .clock 0 { m with clock := int32 (m.clock + 1) }
  | turn (e : Event) (ms : List (Move Task Queue)) : m.Turns e ms →
      Does idle m e 0 (m.moved idle ms)

end Machine

/-! ## the kernel as such a machine -/

/-- the answer of a system call that returns -/
def result (r : Except State (Int × State)) : Int :=
  match r with
  | .ok (x, _) => x
  | .error _ => 0

def reply (s : State) : Event → Int
  | .fork => result (sysFork s)
  | .write fd buffer size => result (sysWrite fd buffer size s)
  | .gettime => (sysGettime s).1
  | .getpid => (sysGetpid s).1
  | .getStats pid st => result (sysGetStats pid st s)
  | _ => 0

/-- where the byte of `t` at the user address `a` is -/
def homeOf (s : State) (t : Task) (a : Nat) : Nat := s.mm.frame t (a / 4096) * 4096 + a % 4096

def shown (s : State) : Machine where
  desk := desk s
  memory :=
    { common := fun a => s.mem (codeFrame (a / 4096 - 256) * 4096 + a % 4096)
      own := fun t a => s.mem (homeOf s t a) }
  pid t := (s.task t).pid
  pidMax := s.pidMax
  screen := s.out
  clock := s.zeosTicks

/-- The programs see the machine `m`: the processes read its memory. -/
structure Shows (s : State) (m : Machine) : Prop where
  desk : m.desk = desk s
  memory : ∀ t, live s t → ∀ a, UserAddr a → userByte s t a = some (m.memory.read Common t a)
  pid : ∀ t, m.pid t = (s.task t).pid
  pidMax : m.pidMax = s.pidMax
  screen : m.screen = s.out
  clock : m.clock = s.zeosTicks

theorem shows_shown {s : State} (h : Inv s) : Shows s (shown s) := by
  refine ⟨rfl, fun t ht a ha => ?_, fun _ => rfl, rfl, rfl, rfl⟩
  rw [h.userByte_eq ht ha]
  unfold Memory.read
  by_cases hc : Common a
  · have hpage : 256 ≤ a / 4096 ∧ a / 4096 < 264 := by
      unfold UserAddr at ha
      unfold Common at hc
      omega
    rw [if_pos hc, h.mapped.frame_code ht hpage.1 hpage.2]
    rfl
  · rw [if_neg hc]
    rfl

end Zeos
