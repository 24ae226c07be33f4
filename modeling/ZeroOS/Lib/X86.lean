import Mathlib.Data.BitVec
import Mathlib.Logic.Function.Basic
import Mathlib.Tactic.Common
import Mathlib.Tactic.IntervalCases

/-!
# A fragment of the 32-bit x86

Byte memory with little-endian dwords, the registers, and the instructions with which kernel code
leaves a stack: `popl`, `ret`, `leave`, `iret`, `movl` to the stack.

* `Mem.dword`, `Mem.setDword`   the dword at an address; two dwords that do not overlap are `Apart`;
* `Cpu`, `exec`, `execAll`      straight-line code;
* `divl`                        the division of 64 by 32 bits, with its divide error;
* `execAll_pops`, `iret_popped`   what a sequence of `popl`, and `iret`, load.
-/

set_option linter.unusedVariables false

namespace X86

abbrev DWord := BitVec 32

/-! ## memory -/

abbrev Mem := BitVec 32 → BitVec 8

namespace Mem

def dword (m : Mem) (a : DWord) : DWord := m (a + 3) ++ m (a + 2) ++ m (a + 1) ++ m a

def setDword (m : Mem) (a x : DWord) : Mem := fun b =>
  if b = a then x.extractLsb' 0 8
  else if b = a + 1 then x.extractLsb' 8 8
  else if b = a + 2 then x.extractLsb' 16 8
  else if b = a + 3 then x.extractLsb' 24 8
  else m b

/-- the dwords at `a` and `b` do not overlap -/
def Apart (a b : DWord) : Prop := 4 ≤ (b - a).toNat ∧ 4 ≤ (a - b).toNat

variable (m : Mem) {a b : DWord}

theorem dword_congr {m m' : Mem} {a b : DWord} (h : ∀ i, i < 4 →
    m' (b + BitVec.ofNat 32 i) = m (a + BitVec.ofNat 32 i)) : m'.dword b = m.dword a := by
  have h0 := h 0 (by decide)
  rw [BitVec.add_zero, BitVec.add_zero] at h0
  unfold dword
  rw [h0]
  have h1 : m' (b + 1) = m (a + 1) := h 1 (by decide)
  have h2 : m' (b + 2) = m (a + 2) := h 2 (by decide)
  have h3 : m' (b + 3) = m (a + 3) := h 3 (by decide)
  rw [h1, h2, h3]

/-- the four bytes of a dword, put together again -/
theorem bytes_append (x : DWord) : x.extractLsb' 24 8 ++ x.extractLsb' 16 8 ++
    x.extractLsb' 8 8 ++ x.extractLsb' 0 8 = x := by
  rw [BitVec.extractLsb'_append_extractLsb'_eq_extractLsb' (show 24 = 16 + 8 from rfl),
    BitVec.extractLsb'_append_extractLsb'_eq_extractLsb' (show 16 = 8 + 8 from rfl),
    BitVec.extractLsb'_append_extractLsb'_eq_extractLsb' (show 8 = 0 + 8 from rfl)]
  exact BitVec.extractLsb'_eq_self

theorem dword_setDword (a x : DWord) : (m.setDword a x).dword a = x := by
  have h1 : a + 1 ≠ a := by bv_omega
  have h2 : a + 2 ≠ a := by bv_omega
  have h21 : a + 2 ≠ a + 1 := by bv_omega
  have h3 : a + 3 ≠ a := by bv_omega
  have h31 : a + 3 ≠ a + 1 := by bv_omega
  have h32 : a + 3 ≠ a + 2 := by bv_omega
  unfold dword setDword
  rw [if_neg h3, if_neg h31, if_neg h32, if_pos rfl, if_neg h2, if_neg h21, if_pos rfl, if_neg h1,
    if_pos rfl, if_pos rfl]
  exact bytes_append x

theorem setDword_of_apart (h : Apart a b) (x : DWord) {i : Nat} (hi : i < 4) :
    m.setDword a x (b + BitVec.ofNat 32 i) = m (b + BitVec.ofNat 32 i) := by
  obtain ⟨h1, h2⟩ := h
  have hne : ∀ j : DWord, j.toNat < 4 → b + BitVec.ofNat 32 i ≠ a + j := by
    intro j hj e
    have hi' : (BitVec.ofNat 32 i).toNat = i := by
      rw [BitVec.toNat_ofNat]
      omega
    generalize BitVec.ofNat 32 i = k at e hi'
    bv_omega
  have h0 : b + BitVec.ofNat 32 i ≠ a := fun e => hne 0 (by decide) (e.trans (BitVec.add_zero a).symm)
  unfold setDword
  rw [if_neg h0, if_neg (hne 1 (by decide)), if_neg (hne 2 (by decide)),
    if_neg (hne 3 (by decide))]

theorem dword_setDword_of_apart (h : Apart a b) (x : DWord) :
    (m.setDword a x).dword b = m.dword b :=
  dword_congr fun i hi => m.setDword_of_apart h x hi

end Mem

/-! ## the processor -/

inductive Reg where
  | eax | ebx | ecx | edx | esi | edi | ebp | esp
  | eip | eflags
  | cs | ds | es | fs | gs | ss
  deriving DecidableEq

/-- what the register keeps of a dword: a segment register has 16 bits -/
def Reg.fit (r : Reg) (x : DWord) : DWord :=
  match r with
  | .cs | .ds | .es | .fs | .gs | .ss => x &&& 0xffff
  | .eax | .ebx | .ecx | .edx | .esi | .edi | .ebp | .esp | .eip | .eflags => x

structure Cpu where
  reg : Reg → DWord
  mem : Mem

def Cpu.setReg (c : Cpu) (r : Reg) (x : DWord) : Cpu :=
  { c with reg := Function.update c.reg r (r.fit x) }

section
variable (c : Cpu) (r r' : Reg) (x : DWord)

@[simp] theorem setReg_mem : (c.setReg r x).mem = c.mem := rfl

theorem setReg_self : (c.setReg r x).reg r = r.fit x := Function.update_self ..

variable {r r'} in
theorem setReg_ne (h : r' ≠ r) : (c.setReg r x).reg r' = c.reg r' := Function.update_of_ne h ..

end

inductive Instr where
  | popl (r : Reg)
  /-- `movl r, off(%esp)` -/
  | store (r : Reg) (off : DWord)
  | ret
  | leave
  /-- to an outer privilege level: `%esp` and `%ss` are popped too -/
  | iret
  deriving DecidableEq

def popl (r : Reg) (c : Cpu) : Cpu :=
  (c.setReg .esp (c.reg .esp + 4)).setReg r (c.mem.dword (c.reg .esp))

def iret (c : Cpu) : Cpu :=
  let a := c.reg .esp
  ((((c.setReg .eip (c.mem.dword a)).setReg .cs (c.mem.dword (a + 4))).setReg .eflags
    (c.mem.dword (a + 8))).setReg .esp (c.mem.dword (a + 12))).setReg .ss (c.mem.dword (a + 16))

/-- what `iret` pops -/
def iretRegs : List Reg := [.eip, .cs, .eflags, .esp, .ss]

def exec (c : Cpu) : Instr → Cpu
  | .popl r => popl r c
  | .store r off => { c with mem := c.mem.setDword (c.reg .esp + off) (c.reg r) }
  | .ret => popl .eip c
  | .leave => popl .ebp (c.setReg .esp (c.reg .ebp))
  | .iret => iret c

def execAll (is : List Instr) (c : Cpu) : Cpu := is.foldl exec c

/-! ## pops -/

/-- `rs` are loaded from consecutive dwords, and nothing else changes -/
structure Popped (rs : List Reg) (c c' : Cpu) : Prop where
  mem : c'.mem = c.mem
  esp : c'.reg .esp = c.reg .esp + BitVec.ofNat 32 (4 * rs.length)
  popped : ∀ i (h : i < rs.length),
    c'.reg rs[i] = rs[i].fit (c.mem.dword (c.reg .esp + BitVec.ofNat 32 (4 * i)))
  other : ∀ r, r ≠ .esp → r ∉ rs → c'.reg r = c.reg r

theorem execAll_pops (rs : List Reg) (hnd : rs.Nodup) (hesp : .esp ∉ rs) (c : Cpu) :
    Popped rs c (execAll (rs.map .popl) c) := by
  induction rs generalizing c with
  | nil =>
    refine ⟨rfl, (BitVec.add_zero _).symm, fun i h => absurd h (Nat.not_lt_zero i), ?_⟩
    exact fun _ _ _ => rfl
  | cons r rs ih =>
    obtain ⟨hr, hnd'⟩ := List.nodup_cons.mp hnd
    have hne : Reg.esp ≠ r := fun e => hesp (e ▸ List.mem_cons_self)
    obtain ⟨h1, h2, h3, h4⟩ := ih hnd' (fun h => hesp (List.mem_cons_of_mem r h)) (popl r c)
    have he : (popl r c).reg .esp = c.reg .esp + 4 := by
      unfold popl
      rw [setReg_ne _ _ hne, setReg_self]
      rfl
    have hadd : ∀ n, c.reg .esp + 4 + BitVec.ofNat 32 (4 * n) =
        c.reg .esp + BitVec.ofNat 32 (4 * (n + 1)) := by
      intro n
      rw [BitVec.add_assoc, Nat.mul_succ, Nat.add_comm, BitVec.ofNat_add]
      rfl
    refine ⟨h1, ?_, fun i h => ?_, fun q hq hqr => ?_⟩
    · show (execAll (rs.map .popl) (popl r c)).reg .esp = _
      rw [h2, he, hadd, List.length_cons]
    · cases i with
      | zero =>
        show (execAll (rs.map .popl) (popl r c)).reg r = _
        rw [h4 r hne.symm hr]
        unfold popl
        rw [setReg_self, Nat.mul_zero, BitVec.add_zero]
        rfl
      | succ i =>
        have hi : i < rs.length := Nat.lt_of_succ_lt_succ h
        show (execAll (rs.map .popl) (popl r c)).reg rs[i] = _
        rw [h3 i hi, he, hadd]
        rfl
    · rw [List.mem_cons, not_or] at hqr
      obtain ⟨hqr', hqrs⟩ := hqr
      show (execAll (rs.map .popl) (popl r c)).reg q = _
      rw [h4 q hq hqrs]
      unfold popl
      rw [setReg_ne _ _ hqr', setReg_ne _ _ hq]

theorem iret_popped (c : Cpu) (i : Nat) (h : i < iretRegs.length) : (iret c).reg iretRegs[i] =
    iretRegs[i].fit (c.mem.dword (c.reg .esp + BitVec.ofNat 32 (4 * i))) := by
  have h5 : i < 5 := h
  interval_cases i <;> simp [iret, iretRegs, Cpu.setReg]

theorem iret_other (c : Cpu) {r : Reg} (h : r ∉ iretRegs) : (iret c).reg r = c.reg r := by
  simp only [iretRegs, List.mem_cons, List.not_mem_nil, or_false, not_or] at h
  obtain ⟨h1, h2, h3, h4, h5⟩ := h
  unfold iret
  dsimp only
  rw [setReg_ne _ _ h5, setReg_ne _ _ h4, setReg_ne _ _ h3, setReg_ne _ _ h2, setReg_ne _ _ h1]

/-! ## division -/

/-- `divl d`: the quotient and the remainder of `high:low`, or a divide error -/
def divl (low high d : DWord) : Option (DWord × DWord) :=
  let n := high.toNat * 2 ^ 32 + low.toNat
  if d = 0 ∨ 2 ^ 32 ≤ n / d.toNat then none
  else some (BitVec.ofNat 32 (n / d.toNat), BitVec.ofNat 32 (n % d.toNat))

/-- there is no divide error where the high dword is below the divisor -/
theorem divl_of_lt {low high d : DWord} (h : high < d) :
    divl low high d = some (BitVec.ofNat 32 ((high.toNat * 2 ^ 32 + low.toNat) / d.toNat),
      BitVec.ofNat 32 ((high.toNat * 2 ^ 32 + low.toNat) % d.toNat)) := by
  have hlt : high.toNat < d.toNat := BitVec.lt_def.mp h
  have hlow := low.isLt
  have hq : (high.toNat * 2 ^ 32 + low.toNat) / d.toNat < 2 ^ 32 := by
    rw [Nat.div_lt_iff_lt_mul (by omega)]
    calc high.toNat * 2 ^ 32 + low.toNat < (high.toNat + 1) * 2 ^ 32 := by omega
      _ ≤ d.toNat * 2 ^ 32 := Nat.mul_le_mul_right _ hlt
      _ = 2 ^ 32 * d.toNat := Nat.mul_comm ..
  have h0 : d ≠ 0 := by
    rintro rfl
    exact Nat.not_lt_zero _ hlt
  unfold divl
  exact if_neg (not_or.mpr ⟨h0, Nat.not_le.mpr hq⟩)

end X86
