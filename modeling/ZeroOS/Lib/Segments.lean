import ZeroOS.Lib.Calls

/-!
# Segments and gates of the 32-bit x86

The descriptors as the processor reads them, and what it does with an interrupt.

* `lowWord`, `highWord` and so on   the parts of an address; `words_append` and `bytes_append` put
  them together again;
* `Descriptor`, `Gate`   what stands in the tables, and what the processor reads in it;
* `System.interrupt`     the checks of the processor on the way to a handler;
* `interrupt_inner`, `interrupt_same`, `interrupt_denied`, `interrupt_beyond`   the ends of them.
-/

set_option linter.unusedVariables false

namespace X86

abbrev Word := BitVec 16

/-! ## the parts of an address -/

def lowWord (a : DWord) : Word := (a &&& 0xffff).setWidth 16
def highWord (a : DWord) : Word := ((a >>> 16) &&& 0xffff).setWidth 16
def midByte (a : DWord) : BitVec 8 := ((a >>> 16) &&& 0xff).setWidth 8
def highByte (a : DWord) : BitVec 8 := ((a >>> 24) &&& 0xff).setWidth 8

theorem field_eq (a : DWord) (k : Nat) {w : Nat} (hw : w ≤ 32) :
    ((a >>> k) &&& BitVec.ofNat 32 (2 ^ w - 1)).setWidth w = a.extractLsb' k w := by
  ext i hi
  have h1 : (BitVec.ofNat 32 (2 ^ w - 1)).getLsbD i = true := by
    rw [BitVec.getLsbD_ofNat, Nat.testBit_two_pow_sub_one]
    simp
    omega
  simp [h1]

theorem lowWord_eq (a : DWord) : lowWord a = a.extractLsb' 0 16 := by
  have h := field_eq a 0 (w := 16) (by decide)
  rwa [BitVec.ushiftRight_zero] at h

theorem highWord_eq (a : DWord) : highWord a = a.extractLsb' 16 16 := field_eq a 16 (by decide)
theorem midByte_eq (a : DWord) : midByte a = a.extractLsb' 16 8 := field_eq a 16 (by decide)
theorem highByte_eq (a : DWord) : highByte a = a.extractLsb' 24 8 := field_eq a 24 (by decide)

theorem words_append (a : DWord) : highWord a ++ lowWord a = a := by
  rw [highWord_eq, lowWord_eq,
    BitVec.extractLsb'_append_extractLsb'_eq_extractLsb' (show 16 = 0 + 16 from rfl)]
  exact BitVec.extractLsb'_eq_self

theorem bytes_append (a : DWord) : highByte a ++ midByte a ++ lowWord a = a := by
  rw [highByte_eq, midByte_eq, lowWord_eq,
    BitVec.extractLsb'_append_extractLsb'_eq_extractLsb' (show 24 = 16 + 8 from rfl),
    BitVec.extractLsb'_append_extractLsb'_eq_extractLsb' (show 16 = 0 + 16 from rfl)]
  exact BitVec.extractLsb'_eq_self

/-! ## tables -/

structure Descriptor where
  limit : Word
  lowBase : Word
  midBase : BitVec 8
  flags1 : BitVec 8
  flags2 : BitVec 8
  highBase : BitVec 8
  deriving DecidableEq

namespace Descriptor

def base (d : Descriptor) : DWord := d.highBase ++ d.midBase ++ d.lowBase

/-- the last offset in the segment -/
def top (d : Descriptor) : Nat :=
  let n := (d.flags2.extractLsb' 0 4 ++ d.limit).toNat
  if d.flags2.getLsbD 7 then n * 4096 + 4095 else n

def present (d : Descriptor) : Bool := d.flags1.getLsbD 7
def dpl (d : Descriptor) : Nat := (d.flags1.extractLsb' 5 2).toNat
def isCode (d : Descriptor) : Bool := d.flags1.getLsbD 4 && d.flags1.getLsbD 3
def conforming (d : Descriptor) : Bool := d.flags1.getLsbD 2
def isStack (d : Descriptor) : Bool :=
  d.flags1.getLsbD 4 && !d.flags1.getLsbD 3 && d.flags1.getLsbD 1

end Descriptor

structure Gate where
  lowOffset : Word
  segmentSelector : Word
  flags : Word
  highOffset : Word
  deriving DecidableEq

namespace Gate

def offset (g : Gate) : DWord := g.highOffset ++ g.lowOffset
def present (g : Gate) : Bool := g.flags.getLsbD 15
def dpl (g : Gate) : Nat := (g.flags.extractLsb' 13 2).toNat

/-- a 32-bit interrupt gate -/
def isInterrupt (g : Gate) : Bool := g.flags.extractLsb' 8 5 == 0xe

end Gate

def index (sel : Word) : Nat := (sel >>> 3).toNat
def rpl (sel : Word) : Nat := (sel.extractLsb' 0 2).toNat
/-- the selector is one of the global table -/
def isGlobal (sel : Word) : Bool := !sel.getLsbD 2

/-- the tables, and the stack for level 0 in the TSS -/
structure System where
  idt : Nat → Gate
  idtLimit : Nat
  gdt : Nat → Descriptor
  gdtLimit : Nat
  ss0 : Word
  esp0 : DWord

/-! ## interrupts -/

/-- what an interrupt comes to -/
inductive Transfer where
  /-- to an inner level, on the stack for it -/
  | inner (e : Entry)
  | same (e : Entry)
  | fault
  /-- a gate or a level that is not looked at here -/
  | other

namespace System

def descriptor (m : System) (sel : Word) : Option Descriptor :=
  if isGlobal sel ∧ index sel ≠ 0 ∧ 8 * index sel + 7 ≤ m.gdtLimit then some (m.gdt (index sel))
  else none

/-- the stack that a gate to level 0 takes -/
def innerStack (m : System) (g : Gate) : Transfer :=
  match m.descriptor m.ss0 with
  | none => .fault
  | some s =>
    if rpl m.ss0 = 0 ∧ s.dpl = 0 ∧ s.isStack ∧ s.present then
      .inner ⟨m.ss0.setWidth 32, m.esp0, (g.segmentSelector &&& 0xfffc).setWidth 32, g.offset⟩
    else .fault

/-- vector `n` at the level `cpl`; `software` for the instruction `int n` -/
def interrupt (m : System) (software : Bool) (cpl n : Nat) : Transfer :=
  let g := m.idt n
  if m.idtLimit < 8 * n + 7 then .fault
  else if software ∧ g.dpl < cpl then .fault
  else if ¬ g.isInterrupt then .other
  else if ¬ g.present then .fault
  else
    match m.descriptor g.segmentSelector with
    | none => .fault
    | some d =>
      if ¬ d.isCode ∨ cpl < d.dpl ∨ ¬ d.present then .fault
      else if d.conforming ∨ d.dpl ≠ 0 then .other
      else if 0 < cpl then m.innerStack g
      else .same ⟨0, 0, (g.segmentSelector &&& 0xfffc).setWidth 32, g.offset⟩

end System

section
variable {m : System} {software : Bool} {cpl n : Nat}

/-- a gate that leads to a code segment of level 0 -/
structure Leads (m : System) (n : Nat) : Prop where
  inside : 8 * n + 7 ≤ m.idtLimit
  isInterrupt : (m.idt n).isInterrupt = true
  present : (m.idt n).present = true
  code : ∃ d, m.descriptor (m.idt n).segmentSelector = some d ∧ d.isCode = true ∧
    d.present = true ∧ d.conforming = false ∧ d.dpl = 0

theorem interrupt_of_leads (h : Leads m n) (hs : software = true → cpl ≤ (m.idt n).dpl) :
    m.interrupt software cpl n =
      if 0 < cpl then m.innerStack (m.idt n)
      else .same ⟨0, 0, ((m.idt n).segmentSelector &&& 0xfffc).setWidth 32, (m.idt n).offset⟩ := by
  obtain ⟨hin, hint, hpres, d, hd, hcode, hdp, hconf, hdpl⟩ := h
  have hdeny : ¬ (software = true ∧ (m.idt n).dpl < cpl) := fun hx =>
    absurd (hs hx.1) (Nat.not_le.mpr hx.2)
  unfold System.interrupt
  dsimp only
  rw [if_neg (Nat.not_lt.mpr hin), if_neg hdeny, if_neg (not_not.mpr hint),
    if_neg (not_not.mpr hpres), hd]
  dsimp only
  rw [if_neg (by simp [hcode, hdpl, hdp]), if_neg (by simp [hconf, hdpl])]

/-- **To level 0**: on the stack of the TSS -/
theorem interrupt_inner {s : Descriptor} (h : Leads m n)
    (hs : software = true → cpl ≤ (m.idt n).dpl) (hcpl : 0 < cpl)
    (hd : m.descriptor m.ss0 = some s) (hr : rpl m.ss0 = 0) (hdpl : s.dpl = 0)
    (hst : s.isStack = true) (hp : s.present = true) :
    m.interrupt software cpl n = .inner ⟨m.ss0.setWidth 32, m.esp0,
      ((m.idt n).segmentSelector &&& 0xfffc).setWidth 32, (m.idt n).offset⟩ := by
  rw [interrupt_of_leads h hs, if_pos hcpl]
  unfold System.innerStack
  rw [hd]
  exact if_pos ⟨hr, hdpl, hst, hp⟩

/-- **At level 0** -/
theorem interrupt_same (h : Leads m n) : m.interrupt software 0 n =
    .same ⟨0, 0, ((m.idt n).segmentSelector &&& 0xfffc).setWidth 32, (m.idt n).offset⟩ :=
  (interrupt_of_leads h fun _ => Nat.zero_le _).trans (if_neg (Nat.lt_irrefl 0))

/-- **A program may not call** a gate of an inner level -/
theorem interrupt_denied (h : (m.idt n).dpl < cpl) : m.interrupt true cpl n = .fault := by
  unfold System.interrupt
  dsimp only
  by_cases hl : m.idtLimit < 8 * n + 7
  · exact if_pos hl
  · rw [if_neg hl]
    exact if_pos ⟨rfl, h⟩

theorem interrupt_beyond (h : m.idtLimit < 8 * n + 7) : m.interrupt software cpl n = .fault :=
  if_pos h

end

end X86
