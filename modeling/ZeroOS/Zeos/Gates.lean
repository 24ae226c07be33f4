import ZeroOS.Lib.Segments
import ZeroOS.Zeos.Traps

/-!
# Zeos: the ways into the kernel

The segments of `bootsect.S`, the gates of `interrupt.c` and the TSS of `mm.c`.  What
`set_handlers` of the library writes into the IDT is arbitrary.

* `setIdt`, `setGdt`, `setTSS`   the tables;
* `setGate_offset` and so on     what the processor reads in a gate that the kernel has written;
* `afterSetup`                   the machine when the first program starts;
* `kernel_entries`               **which ways lead into the kernel**.
-/

set_option linter.unusedVariables false

namespace Zeos
open X86

/-! ## the source -/

def userCs : DWord := 0x23
def userDs : DWord := 0x2b
def kernelTss : Word := 0x30

/-- `gdt` in `bootsect.S` -/
def bootGdt : Nat → Descriptor
  | 2 => ⟨0xffff, 0x0000, 0x00, 0x9a, 0xcf, 0x00⟩
  | 3 => ⟨0xffff, 0x0000, 0x00, 0x92, 0xcf, 0x00⟩
  | 4 => ⟨0xffff, 0x0000, 0x00, 0xfa, 0xcf, 0x00⟩
  | 5 => ⟨0xffff, 0x0000, 0x00, 0xf2, 0xcf, 0x00⟩
  | 6 => ⟨104, 0, 0, 0x89, 0, 0⟩
  | _ => ⟨0, 0, 0, 0, 0, 0⟩

/-- the gate that `setInterruptHandler` and `setTrapHandler` both write -/
def interruptGate (handler maxAccessibleFromPL : DWord) : Gate where
  lowOffset := lowWord handler
  segmentSelector := kernelCs.setWidth 16
  flags := (maxAccessibleFromPL <<< 13).setWidth 16 ||| 0x8e00
  highOffset := highWord handler

def setInterruptHandler (vector : Nat) (handler maxAccessibleFromPL : DWord) (idt : Nat → Gate) :
    Nat → Gate :=
  Function.update idt vector (interruptGate handler maxAccessibleFromPL)

/-- the type of a trap gate has been changed to the one of an interrupt gate -/
def setTrapHandler (vector : Nat) (handler maxAccessibleFromPL : DWord) (idt : Nat → Gate) :
    Nat → Gate :=
  Function.update idt vector (interruptGate handler maxAccessibleFromPL)

def idtEntries : Nat := 256

/-- the addresses of the handlers in `entry.S` -/
structure Handlers where
  keyboardHandler : DWord
  clockHandler : DWord
  systemCallHandler : DWord

/-- `idt` is what `set_handlers` has written -/
def setIdt (h : Handlers) (idt : Nat → Gate) (m : System) : System :=
  let idt := setInterruptHandler 33 h.keyboardHandler 0 idt
  let idt := setInterruptHandler 32 h.clockHandler 0 idt
  let idt := setTrapHandler 0x80 h.systemCallHandler 3 idt
  { m with idt := idt, idtLimit := idtEntries * 8 - 1 }

/-- `tss` is the address of the TSS -/
def setGdt (tss : DWord) (m : System) : System :=
  let i := index kernelTss
  let d := { m.gdt i with
    lowBase := lowWord tss, midBase := midByte tss, highBase := highByte tss }
  { m with gdt := Function.update m.gdt i d, gdtLimit := 256 * 8 }

def setTSS (initialEsp : DWord) (m : System) : System :=
  { m with esp0 := initialEsp, ss0 := kernelDs.setWidth 16 }

/-- `setTSS_tswitch`, which every switch of tasks calls -/
def setTSSTswitch (esp0V : DWord) (m : System) : System := { m with esp0 := esp0V }

/-- the tables after the calls in `main`, in its order, and a switch to a task -/
def afterSetup (h : Handlers) (idt : Nat → Gate) (m : System) (tss initialEsp esp0 : DWord) :
    System :=
  setTSSTswitch esp0 (setTSS initialEsp (setIdt h idt (setGdt tss { m with gdt := bootGdt })))

section
variable (handler pl : DWord) (h : Handlers) (idt : Nat → Gate) (m : System)
  (tss initialEsp esp0 : DWord)

/-! ## what the processor reads -/

theorem interruptGate_offset : (interruptGate handler pl).offset = handler := words_append handler

/-- the level in a gate has two bits, also where the argument has more -/
theorem interruptGate_dpl : (interruptGate handler pl).dpl = pl.toNat % 4 := by
  have hbits : ((pl <<< 13).setWidth 16 ||| 0x8e00).extractLsb' 13 2 = pl.extractLsb' 0 2 := by
    ext i hi
    interval_cases i <;> simp
  unfold Gate.dpl interruptGate
  dsimp only
  rw [hbits, BitVec.extractLsb'_toNat]
  rfl

theorem interruptGate_present : (interruptGate handler pl).present = true := by
  unfold Gate.present interruptGate
  simp

theorem interruptGate_isInterrupt : (interruptGate handler pl).isInterrupt = true := by
  have hbits : ((pl <<< 13).setWidth 16 ||| 0x8e00 : Word).extractLsb' 8 5 = 0xe := by
    ext i hi
    interval_cases i <;> simp
  unfold Gate.isInterrupt interruptGate
  rw [hbits]
  rfl

theorem interruptGate_cs :
    ((interruptGate handler pl).segmentSelector &&& 0xfffc).setWidth 32 = kernelCs := by
  show ((kernelCs.setWidth 16 : Word) &&& 0xfffc).setWidth 32 = kernelCs
  decide

/-- the gate that stands in the table behind `setIdt` -/
theorem afterSetup_idt (n : Nat) : (afterSetup h idt m tss initialEsp esp0).idt n =
    if n = 0x80 then interruptGate h.systemCallHandler 3
    else if n = 32 then interruptGate h.clockHandler 0
    else if n = 33 then interruptGate h.keyboardHandler 0 else idt n := by
  show Function.update (Function.update (Function.update idt 33 _) 32 _) 0x80 _ n = _
  simp only [Function.update_apply]

theorem afterSetup_gdt (n : Nat) : (afterSetup h idt m tss initialEsp esp0).gdt n =
    if n = 6 then ⟨104, lowWord tss, midByte tss, 0x89, 0, highByte tss⟩ else bootGdt n := by
  have hi : index kernelTss = 6 := by decide
  show Function.update bootGdt (index kernelTss) _ n = _
  rw [hi, Function.update_apply]
  rfl

/-- a selector of the first entries, the TSS apart -/
theorem afterSetup_descriptor (sel : Word) (hg : isGlobal sel = true) (h0 : index sel ≠ 0)
    (h6 : index sel < 6) :
    (afterSetup h idt m tss initialEsp esp0).descriptor sel = some (bootGdt (index sel)) := by
  have hle : 8 * index sel + 7 ≤ (afterSetup h idt m tss initialEsp esp0).gdtLimit := by
    show _ ≤ 256 * 8
    omega
  unfold System.descriptor
  rw [if_pos ⟨hg, h0, hle⟩, afterSetup_gdt, if_neg (by omega)]

/-- the gates of the kernel lead to its code segment -/
theorem afterSetup_leads {n : Nat} (hn : n < 256)
    (hgate : (afterSetup h idt m tss initialEsp esp0).idt n = interruptGate handler pl) :
    Leads (afterSetup h idt m tss initialEsp esp0) n := by
  refine ⟨?_, ?_, ?_, bootGdt 2, ?_, by decide, by decide, by decide, by decide⟩
  · show _ ≤ idtEntries * 8 - 1
    unfold idtEntries
    omega
  · rw [hgate, interruptGate_isInterrupt]
  · rw [hgate, interruptGate_present]
  · rw [hgate]
    exact afterSetup_descriptor h idt m tss initialEsp esp0 (kernelCs.setWidth 16)
      (by decide) (by decide) (by decide)

/-- from user mode: the stack is the one of the TSS -/
theorem afterSetup_inner {software : Bool} {n : Nat} (hn : n < 256)
    (hgate : (afterSetup h idt m tss initialEsp esp0).idt n = interruptGate handler pl)
    (hs : software = true → 3 ≤ pl.toNat % 4) :
    (afterSetup h idt m tss initialEsp esp0).interrupt software 3 n =
      .inner ⟨kernelDs, esp0, kernelCs, handler⟩ := by
  have hss : (afterSetup h idt m tss initialEsp esp0).ss0 = kernelDs.setWidth 16 := rfl
  have hds : (kernelDs.setWidth 16 : Word).setWidth 32 = kernelDs := by decide
  rw [interrupt_inner (s := bootGdt 3) (afterSetup_leads handler pl h idt m tss initialEsp esp0 hn hgate)
    ?_ (by decide) ?_ (hss ▸ by decide) (by decide) (by decide) (by decide)]
  · rw [hgate, interruptGate_offset, interruptGate_cs, hss, hds]
    rfl
  · rw [hgate, interruptGate_dpl]
    exact hs
  · exact afterSetup_descriptor h idt m tss initialEsp esp0 (kernelDs.setWidth 16)
      (by decide) (by decide) (by decide)

/-- in the loop of `cpu_idle` -/
theorem afterSetup_same {software : Bool} {n : Nat} (hn : n < 256)
    (hgate : (afterSetup h idt m tss initialEsp esp0).idt n = interruptGate handler pl) :
    (afterSetup h idt m tss initialEsp esp0).interrupt software 0 n =
      .same ⟨0, 0, kernelCs, handler⟩ := by
  rw [interrupt_same (afterSetup_leads handler pl h idt m tss initialEsp esp0 hn hgate), hgate,
    interruptGate_offset, interruptGate_cs]

/-! ## the ways into the kernel -/

/-- `sel` is a segment of all 4 GiB, of the level that the selector asks for -/
structure Flat (m : System) (sel : Word) (d : Descriptor) : Prop where
  descriptor : m.descriptor sel = some d
  base : d.base = 0
  top : d.top = 2 ^ 32 - 1
  present : d.present = true
  level : d.dpl = rpl sel

structure Entries (h : Handlers) (idt : Nat → Gate) (tss esp0 : DWord) (m : System) : Prop where
  systemCall : m.interrupt true 3 0x80 = .inner ⟨kernelDs, esp0, kernelCs, h.systemCallHandler⟩
  clock : m.interrupt false 3 32 = .inner ⟨kernelDs, esp0, kernelCs, h.clockHandler⟩ ∧
    m.interrupt false 0 32 = .same ⟨0, 0, kernelCs, h.clockHandler⟩
  keyboard : m.interrupt false 3 33 = .inner ⟨kernelDs, esp0, kernelCs, h.keyboardHandler⟩ ∧
    m.interrupt false 0 33 = .same ⟨0, 0, kernelCs, h.keyboardHandler⟩
  /-- no other gate can be called, unless the library has made it so -/
  only : ∀ n, n ≠ 0x80 → n = 32 ∨ n = 33 ∨ (idt n).dpl < 3 ∨ 256 ≤ n →
    m.interrupt true 3 n = .fault
  tss : (m.gdt (index kernelTss)).base = tss
  kernel : (∃ d, Flat m (kernelCs.setWidth 16) d ∧ d.isCode = true) ∧
    ∃ d, Flat m (kernelDs.setWidth 16) d ∧ d.isStack = true
  /-- what `return_gate` loads -/
  user : (∃ d, Flat m (userCs.setWidth 16) d ∧ d.isCode = true) ∧
    ∃ d, Flat m (userDs.setWidth 16) d ∧ d.isStack = true

/-- **Which ways lead into the kernel.**  From the first program on, wherever the handlers, the TSS
and the stacks are: `int $0x80` and the two device interrupts enter the kernel at their handlers, on
the kernel stack of the running task; a program can call no other gate, the ones of the devices
included. -/
theorem kernel_entries : Entries h idt tss esp0 (afterSetup h idt m tss initialEsp esp0) := by
  have hgate := afterSetup_idt h idt m tss initialEsp esp0
  have h80 := hgate 0x80
  have h32 := hgate 32
  have h33 := hgate 33
  rw [if_pos rfl] at h80
  rw [if_neg (by decide), if_pos rfl] at h32
  rw [if_neg (by decide), if_neg (by decide), if_pos rfl] at h33
  have hdesc : ∀ sel : Word, isGlobal sel = true → index sel ≠ 0 → index sel < 6 →
      (afterSetup h idt m tss initialEsp esp0).descriptor sel = some (bootGdt (index sel)) :=
    afterSetup_descriptor h idt m tss initialEsp esp0
  refine ⟨?_, ⟨?_, ?_⟩, ⟨?_, ?_⟩, fun n hne hn => ?_, ?_, ⟨?_, ?_⟩, ?_, ?_⟩
  · exact afterSetup_inner _ 3 h idt m tss initialEsp esp0 (by decide) h80 fun _ => by decide
  · exact afterSetup_inner _ 0 h idt m tss initialEsp esp0 (by decide) h32 fun h => (by cases h)
  · exact afterSetup_same _ 0 h idt m tss initialEsp esp0 (by decide) h32
  · exact afterSetup_inner _ 0 h idt m tss initialEsp esp0 (by decide) h33 fun h => (by cases h)
  · exact afterSetup_same _ 0 h idt m tss initialEsp esp0 (by decide) h33
  · by_cases hbig : 256 ≤ n
    · apply interrupt_beyond
      show idtEntries * 8 - 1 < 8 * n + 7
      unfold idtEntries
      omega
    apply interrupt_denied
    rw [hgate, if_neg hne]
    by_cases hx : n = 32
    · rw [if_pos hx, interruptGate_dpl]
      decide
    by_cases hy : n = 33
    · rw [if_neg hx, if_pos hy, interruptGate_dpl]
      decide
    rw [if_neg hx, if_neg hy]
    omega
  · rw [afterSetup_gdt, if_pos (by decide)]
    exact bytes_append tss
  · exact ⟨_, ⟨hdesc _ (by decide) (by decide) (by decide), by decide, by decide, by decide,
      by decide⟩, by decide⟩
  · exact ⟨_, ⟨hdesc _ (by decide) (by decide) (by decide), by decide, by decide, by decide,
      by decide⟩, by decide⟩
  · exact ⟨_, ⟨hdesc _ (by decide) (by decide) (by decide), by decide, by decide, by decide,
      by decide⟩, by decide⟩
  · exact ⟨_, ⟨hdesc _ (by decide) (by decide) (by decide), by decide, by decide, by decide,
      by decide⟩, by decide⟩

end

end Zeos
