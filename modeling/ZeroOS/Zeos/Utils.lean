import ZeroOS.Zeos.Mm
import ZeroOS.Zeos.List

/-!
# Zeos: `utils.c`

The three copy routines, `get_ticks`, and the buses they run on:

* `kernelBus`      kernel code that reads and writes through the current page table;
* `fromUserBus`    from a user address to a local buffer of the kernel;
* `toUserBus`      from a record of the kernel to a user address.

The last two keep the history `State.derefs` of the addresses dereferenced through a pointer that
a system call was given.  A page fault in the kernel ends in `page_fault_routine`, which never
returns: the run stops (`Except.error`, with the state it stopped in).
-/

set_option linter.unusedVariables false

namespace Zeos
open Programs

/-- `get_ticks()`, as the next accounting update will see it -/
def getTicks (s : State) : DWord := s.tsc s.reads

def copyData {σ β : Type*} (B : Bus σ β) (start dest : Nat) (size : Int) : σ → Except σ σ :=
  copyLoop B size.toNat start dest

def copyFromUser {σ β : Type*} (B : Bus σ β) (start dest : Nat) (size : Int) : σ → Except σ σ :=
  copyLoop B size.toNat start dest

def copyToUser {σ β : Type*} (B : Bus σ β) (start dest : Nat) (size : Int) : σ → Except σ σ :=
  copyLoop B size.toNat start dest

/-! ## buses -/

def kernelLoad (a : Nat) (s : State) : Except State (Byte × State) :=
  match mmu s (a % 2 ^ 32) with
  | some x => .ok (s.mem x, s)
  | none => .error s

def kernelStore (a : Nat) (b : Byte) (s : State) : Except State State :=
  match mmu s (a % 2 ^ 32) with
  | some x => .ok (s.setMem (Function.update s.mem x b))
  | none => .error s

def kernelBus : Bus State Byte := ⟨kernelLoad, kernelStore⟩

/-- note that the address `a` of a user pointer is dereferenced -/
def State.deref (s : State) (a : Nat) : State := { s with derefs := s.derefs ++ [a] }

/-- the local buffer of `sys_write` stands beside the state -/
def fromUserBus : Bus (State × (Nat → Byte)) Byte where
  load a := fun (s, buf) =>
    match kernelLoad (a % 2 ^ 32) (s.deref (a % 2 ^ 32)) with
    | .ok (b, s) => .ok (b, s, buf)
    | .error s => .error (s, buf)
  store i b := fun (s, buf) => .ok (s, Function.update buf i b)

theorem fromUserBus_ok {a : Nat} {s : State} {buf : Nat → Byte} {y : Byte × State}
    (h : kernelLoad (a % 2 ^ 32) (s.deref (a % 2 ^ 32)) = .ok y) :
    fromUserBus.load a (s, buf) = .ok (y.1, y.2, buf) := by
  simp only [fromUserBus, h]

theorem fromUserBus_error {a : Nat} {s s' : State} {buf : Nat → Byte}
    (h : kernelLoad (a % 2 ^ 32) (s.deref (a % 2 ^ 32)) = .error s') :
    fromUserBus.load a (s, buf) = .error (s', buf) := by
  simp only [fromUserBus, h]

/-- the source is the record whose bytes are `obj` -/
def toUserBus (obj : Nat → Byte) : Bus State Byte where
  load i s := .ok (obj i, s)
  store a b s := kernelStore (a % 2 ^ 32) b (s.deref (a % 2 ^ 32))

end Zeos
