import ZeroOS.Zeos.CopyLoops
import ZeroOS.Zeos.ForkCount

/-!
# Zeos: the kernel stacks of `sys_fork`

`State` has the fields of the PCBs, and of the words at `kernel_esp` only what they mean
(`Resume`).  Here are the words themselves: `task[]` in the memory of the kernel, what `sys_fork`
writes there, and the machine code on the way back to the user.

* `Layout`               where `task[]` and the code are;
* `forkPages`            `sys_fork` on the `task_union`s of the parent and of the child;
* `innerTaskSwitch`, `fin`   the end of `inner_task_switch`, and of `system_call_handler`;
* `fin_restores`         the handler restores what it saved, with the result in `%eax`;
* `fork_returns_twice`   **`sys_fork` returns in the parent, and again in the child with 0**.
-/

set_option linter.unusedVariables false

namespace Zeos
open X86 Programs Runs

/-! ## `task[]` -/

structure Layout where
  /-- `&task[0]` -/
  task : DWord
  dirPages : DWord
  readyqueue : DWord
  retFromFork : DWord
  /-- `. = ALIGN(4096)` in system.lds -/
  aligned : task.toNat % 4096 = 0
  fits : task.toNat + nrTasks * 4096 ≤ 2 ^ 32

/-- the address of `stack[i]` of a `task_union` -/
def Layout.word (L : Layout) (t : Task) (i : Nat) : DWord :=
  L.task + BitVec.ofNat 32 (4096 * t + 4 * i)

/-- the words of `struct task_struct` -/
inductive Field where
  | pid
  | dirPagesBaseAddr
  | quantum
  | kernelEsp
  | listNext
  | listPrev
  | userTicks
  | systemTicks
  | blockedTicks
  | readyTicks
  | elapsedTotalTicks
  | totalTrans
  | remainingTicks
  | tState
  deriving DecidableEq

def Field.word : Field → Nat
  | .pid => 0
  | .dirPagesBaseAddr => 1
  | .quantum => 2
  | .kernelEsp => 3
  | .listNext => 4
  | .listPrev => 5
  | .userTicks => 6
  | .systemTicks => 7
  | .blockedTicks => 8
  | .readyTicks => 9
  | .elapsedTotalTicks => 10
  | .totalTrans => 11
  | .remainingTicks => 12
  | .tState => 13

theorem Field.word_lt (f : Field) : f.word < 14 := by
  cases f <;> decide

def setField (L : Layout) (t : Task) (m : Mem) (w : Field × DWord) : Mem :=
  m.setDword (L.word t w.1.word) w.2

def setFields (L : Layout) (t : Task) (m : Mem) (ws : List (Field × DWord)) : Mem :=
  ws.foldl (setField L t) m

/-! ## the code -/

/-- `sys_fork`, from (5) to `kernel_esp`; `ebp` is its frame pointer, the address of its saved
`%ebp` -/
def forgeStack (L : Layout) (parent child : Task) (ebp : DWord) (m : Mem) : Mem :=
  let posAct := (ebp - L.word parent 0) / 4
  let m := m.setDword (L.word child 0 + 4 * posAct) L.retFromFork
  let m := m.setDword (L.word child 0 + 4 * (posAct - 1)) 0
  setField L child m (.kernelEsp, L.word child 0 + 4 * (posAct - 1))

/-- `set_ini_stats`, at the time `now` -/
def iniStats (now : DWord) : List (Field × DWord) :=
  [(.userTicks, 0), (.systemTicks, 0), (.blockedTicks, 0), (.elapsedTotalTicks, now),
    (.totalTrans, 0), (.tState, 1), (.remainingTicks, 18)]

/-- What a `sys_fork` that returns `pid` writes into the `task_union` of the child; `tail` is the
last element of the ready queue. -/
def forkPages (L : Layout) (parent child : Task) (ebp pid now tail : DWord) (m : Mem) :
    Except Mem Mem :=
  /- (2) -/
  (copyData memBus (L.word parent 0).toNat (L.word child 0).toNat 4096 m).bind fun m =>
    let m := setField L child m (.dirPagesBaseAddr, L.dirPages + BitVec.ofNat 32 (4096 * child))
    /- (4) -/
    let m := setField L child m (.pid, pid)
    /- (5) -/
    let m := forgeStack L parent child ebp m
    let m := setFields L child m (iniStats now)
    /- `list_add_tail` -/
    .ok (setFields L child m [(.listNext, L.readyqueue), (.listPrev, tail)])

/-- `inner_task_switch`, from `current` on: `%ebp` is its frame pointer. -/
def innerSwitch (L : Layout) (new : Task) (c : Cpu) : Cpu :=
  let actTask := c.reg .esp &&& 0xfffff000
  let m := c.mem.setDword (actTask + BitVec.ofNat 32 (4 * Field.kernelEsp.word)) (c.reg .ebp)
  let espNew := m.dword (L.word new Field.kernelEsp.word)
  execAll [.popl .ebp, .ret] ({ c with mem := m }.setReg .esp espNew)

def restoreRegs : List Reg := [.ebx, .ecx, .edx, .esi, .edi, .ebp, .eax, .ds, .es, .fs, .gs]

def restoreAll : List Instr := restoreRegs.map .popl

/-- the end of `system_call_handler` -/
def fin : List Instr := [.store .eax 0x18] ++ restoreAll ++ [.iret]

/-- the place of a register in the frame of `SAVE_ALL` and of the processor, in words from `%esp` -/
def slot : Reg → Nat
  | .ebx => 0
  | .ecx => 1
  | .edx => 2
  | .esi => 3
  | .edi => 4
  | .ebp => 5
  | .eax => 6
  | .ds => 7
  | .es => 8
  | .fs => 9
  | .gs => 10
  | .eip => 11
  | .cs => 12
  | .eflags => 13
  | .esp => 14
  | .ss => 15

/-- the registers of the user program that made the system call: `frame` is what was saved,
`result` is the result of the call -/
def userContext (frame : Nat → DWord) (result : DWord) (r : Reg) : DWord :=
  if r = .eax then result else r.fit (frame (slot r))

/-! ## words -/

section
variable {L : Layout} {t u : Task} {i j : Nat}

theorem Layout.word_toNat (L : Layout) (t : Task) (hi : i < 1024) :
    (L.word t i).toNat = L.task.toNat + 4096 * t + 4 * i := by
  have h1 := L.fits
  have h2 := t.isLt
  unfold word
  rw [BitVec.toNat_add, BitVec.toNat_ofNat]
  simp only [nrTasks] at h1 h2
  omega

theorem Layout.word_byte (L : Layout) (t : Task) (i k : Nat) : L.word t i + BitVec.ofNat 32 k =
    BitVec.ofNat 32 (L.task.toNat + 4096 * t + 4 * i + k) := by
  unfold word
  apply BitVec.eq_of_toNat_eq
  simp only [BitVec.toNat_add, BitVec.toNat_ofNat]
  omega

theorem Layout.word_apart (L : Layout) (hi : i < 1024) (hj : j < 1024) (h : ¬ (u = t ∧ j = i)) :
    Mem.Apart (L.word t i) (L.word u j) := by
  have h1 := L.word_toNat t hi
  have h2 := L.word_toNat u hj
  have h3 : ¬ ((u : Nat) = t ∧ j = i) := fun e => h ⟨Fin.ext e.1, e.2⟩
  unfold Mem.Apart
  generalize L.word t i = a at h1 ⊢
  generalize L.word u j = b at h2 ⊢
  constructor <;> bv_omega

theorem setDword_word (m : Mem) (x : DWord) (hi : i < 1024) (hj : j < 1024) :
    (m.setDword (L.word t i) x).dword (L.word u j) =
      if u = t ∧ j = i then x else m.dword (L.word u j) := by
  by_cases h : u = t ∧ j = i
  · rw [if_pos h, h.1, h.2, Mem.dword_setDword]
  · rw [if_neg h, m.dword_setDword_of_apart (L.word_apart hi hj h)]

theorem setField_word (m : Mem) (w : Field × DWord) (hj : j < 1024) :
    (setField L t m w).dword (L.word u j) =
      if u = t ∧ j = w.1.word then w.2 else m.dword (L.word u j) :=
  setDword_word m w.2 (Nat.lt_trans w.1.word_lt (by decide)) hj

/-- a word that is not one of the fields -/
theorem setFields_word (m : Mem) (ws : List (Field × DWord)) (hj : j < 1024)
    (h : u = t → ∀ w ∈ ws, j ≠ w.1.word) :
    (setFields L t m ws).dword (L.word u j) = m.dword (L.word u j) := by
  induction ws generalizing m with
  | nil => rfl
  | cons w ws ih =>
    show (setFields L t (setField L t m w) ws).dword _ = _
    rw [ih _ fun e x hx => h e x (List.mem_cons_of_mem w hx), setField_word m w hj,
      if_neg fun e => h e.1 w List.mem_cons_self e.2]

theorem setFields_stack (m : Mem) (ws : List (Field × DWord)) (hj : j < 1024) (h14 : 14 ≤ j) :
    (setFields L t m ws).dword (L.word u j) = m.dword (L.word u j) :=
  setFields_word m ws hj fun _ w _ e => absurd (e ▸ w.1.word_lt) (Nat.not_lt.mpr h14)

end

/-! ## the copy -/

/-- (2): the whole `task_union` -/
theorem copyUnion (L : Layout) {parent child : Task} (hne : parent ≠ child) (m : Mem) :
    ∃ m', copyData memBus (L.word parent 0).toNat (L.word child 0).toNat 4096 m = .ok m' ∧
      ∀ t i, i < 1024 → m'.dword (L.word t i) =
        m.dword (L.word (if t = child then parent else t) i) := by
  rw [L.word_toNat parent (by decide), L.word_toNat child (by decide)]
  have hfits := L.fits
  have hp := parent.isLt
  have hc := child.isLt
  have hne' : (parent : Nat) ≠ child := fun e => hne (Fin.ext e)
  simp only [nrTasks] at hfits hp hc
  obtain ⟨m', hr, -, -, hv⟩ := memBus_window.copyLoop 
    (p := L.task.toNat + 4096 * parent + 4 * 0) (q := L.task.toNat + 4096 * child + 4 * 0)
    (n := 4096) (fun i hi => by omega) (fun i hi => by omega)
    (by omega) (s := m) trivial (fun _ => True) trivial (fun _ _ _ _ _ => trivial)
    (fun _ _ _ _ _ _ => trivial)
  refine ⟨m', hr, fun t i hi => Mem.dword_congr fun k hk => ?_⟩
  have ht := t.isLt
  simp only [nrTasks] at ht
  have hvb := hv (L.task.toNat + 4096 * t + 4 * i + k) (Or.inl (by omega))
  rw [L.word_byte, L.word_byte, hvb]
  by_cases h : t = child
  · subst h
    rw [if_pos rfl, if_pos (by omega)]
    exact congrArg (fun a => m (BitVec.ofNat 32 a)) (by omega)
  · have h' : (t : Nat) ≠ child := fun e => h (Fin.ext e)
    rw [if_neg h, if_neg (by omega)]

/-! ## the pages after the fork -/

/-- the position of the frame: `stack[p]` is the saved `%ebp` of `sys_fork`, and everything from
there to the return context is in the stack -/
structure FrameAt (p : Nat) : Prop where
  fields : 14 ≤ p - 1
  context : p + 17 < 1024

/-- the words of the two pages after the fork -/
structure Forked (L : Layout) (parent child : Task) (p : Nat) (m m' : Mem) : Prop where
  own : ∀ i, i < 1024 → m'.dword (L.word parent i) = m.dword (L.word parent i)
  kernelEsp : m'.dword (L.word child Field.kernelEsp.word) = L.word child (p - 1)
  dummy : m'.dword (L.word child (p - 1)) = 0
  retFromFork : m'.dword (L.word child p) = L.retFromFork
  rest : ∀ i, p < i → i < 1024 → m'.dword (L.word child i) = m.dword (L.word parent i)

section
variable {L : Layout} {parent child : Task} {p : Nat} {m : Mem}

/-- from the byte address to the index -/
theorem Layout.posAct (L : Layout) (t : Task) (hp : p < 1024) :
    (L.word t p - L.word t 0) / 4 = BitVec.ofNat 32 p := by
  have h1 := L.word_toNat t hp
  have h2 := L.word_toNat t (i := 0) (by decide)
  apply BitVec.eq_of_toNat_eq
  rw [BitVec.toNat_udiv, BitVec.toNat_ofNat]
  have h3 : (L.word t p - L.word t 0).toNat = 4 * p := by
    generalize L.word t p = a at h1 ⊢
    generalize L.word t 0 = b at h2 ⊢
    bv_omega
  rw [h3]
  show 4 * p / 4 = p % 2 ^ 32
  omega

/-- and back -/
theorem Layout.word_index (L : Layout) (t : Task) (i : Nat) :
    L.word t 0 + 4 * BitVec.ofNat 32 i = L.word t i := by
  unfold word
  apply BitVec.eq_of_toNat_eq
  simp only [BitVec.ofNat_eq_ofNat, BitVec.toNat_add, BitVec.toNat_mul, BitVec.toNat_ofNat]
  omega

theorem forgeStack_word (hp : 1 ≤ p) (hp' : p < 1024) (m : Mem) {u : Task} {j : Nat}
    (hj : j < 1024) :
    (forgeStack L parent child (L.word parent p) m).dword (L.word u j) =
      if u = child ∧ j = Field.kernelEsp.word then L.word child (p - 1)
      else if u = child ∧ j = p - 1 then 0
      else if u = child ∧ j = p then L.retFromFork
      else m.dword (L.word u j) := by
  have h1 : BitVec.ofNat 32 p - 1 = BitVec.ofNat 32 (p - 1) := by
    apply BitVec.eq_of_toNat_eq
    simp only [BitVec.ofNat_eq_ofNat, BitVec.toNat_sub, BitVec.toNat_ofNat]
    omega
  unfold forgeStack
  simp only [L.posAct parent hp', h1, L.word_index]
  rw [setField_word _ _ hj, setDword_word _ _ (by omega) hj, setDword_word _ _ hp' hj]

theorem forkPages_forked (hne : parent ≠ child) (hp : FrameAt p) (pid now tail : DWord) :
    ∃ m', forkPages L parent child (L.word parent p) pid now tail m = .ok m' ∧
      Forked L parent child p m m' := by
  obtain ⟨h14, h17⟩ := hp
  obtain ⟨m₁, hr, hcopy⟩ := copyUnion L hne m
  have h3 : Field.kernelEsp.word = 3 := rfl
  have hini : ∀ w ∈ iniStats now, 3 ≠ w.1.word := by simp [iniStats, Field.word]
  have hlist : ∀ w ∈ [(Field.listNext, L.readyqueue), (Field.listPrev, tail)], 3 ≠ w.1.word := by
    simp [Field.word]
  unfold forkPages
  rw [hr]
  refine ⟨_, rfl, fun i hi => ?_, ?_, ?_, ?_, fun i hpi hi => ?_⟩
  · have hno : ¬ parent = child := hne
    rw [setFields_word _ _ hi fun e => absurd e hne, setFields_word _ _ hi fun e => absurd e hne,
      forgeStack_word (by omega) (by omega) _ hi, setField_word _ _ hi, setField_word _ _ hi,
      hcopy parent i hi]
    simp only [hno, false_and, if_false]
  · rw [h3, setFields_word _ _ (by decide) fun _ => hlist,
      setFields_word _ _ (by decide) fun _ => hini,
      forgeStack_word (by omega) (by omega) _ (by decide), if_pos ⟨rfl, rfl⟩]
  · have hno : ¬ (child = child ∧ p - 1 = Field.kernelEsp.word) := by omega
    rw [setFields_stack _ _ (by omega) h14, setFields_stack _ _ (by omega) h14,
      forgeStack_word (by omega) (by omega) _ (by omega), if_neg hno, if_pos ⟨rfl, rfl⟩]
  · have hno : ¬ (child = child ∧ p = Field.kernelEsp.word) := by omega
    have hno' : ¬ (child = child ∧ p = p - 1) := by omega
    rw [setFields_stack _ _ (by omega) (by omega), setFields_stack _ _ (by omega) (by omega),
      forgeStack_word (by omega) (by omega) _ (by omega), if_neg hno, if_neg hno',
      if_pos ⟨rfl, rfl⟩]
  · have hno : ∀ j, j ≤ p → ¬ (child = child ∧ i = j) := fun j hj e => by omega
    have hno' : ∀ f : Field, ¬ (child = child ∧ i = f.word) := fun f =>
      hno _ (by have := f.word_lt; omega)
    rw [setFields_stack _ _ hi (by omega), setFields_stack _ _ hi (by omega),
      forgeStack_word (by omega) (by omega) _ hi, if_neg (hno' _), if_neg (hno _ (by omega)),
      if_neg (hno p (Nat.le_refl p)), setField_word _ _ hi, if_neg (hno' _), setField_word _ _ hi,
      if_neg (hno' _), hcopy child i hi, if_pos rfl]

end

/-! ## the way back to the user -/

/-- `movl %eax, 0x18(%esp)` overwrites the saved `%eax`, and no other word of the frame -/
theorem store_frame (m : Mem) (a x : DWord) {k : Nat} (hk : k < 16) :
    (m.setDword (a + 0x18) x).dword (a + BitVec.ofNat 32 (4 * k)) =
      if k = 6 then x else m.dword (a + BitVec.ofNat 32 (4 * k)) := by
  by_cases h : k = 6
  · subst h
    rw [if_pos rfl]
    exact Mem.dword_setDword ..
  · rw [if_neg h]
    apply Mem.dword_setDword_of_apart
    constructor <;> bv_omega

theorem slot_restoreRegs {i : Nat} (h : i < restoreRegs.length) : slot restoreRegs[i] = i := by
  have h' : ∀ j : Fin restoreRegs.length, slot (restoreRegs.get j) = j := by decide
  exact h' ⟨i, h⟩

theorem slot_iretRegs {i : Nat} (h : i < iretRegs.length) : slot iretRegs[i] = 11 + i := by
  have h' : ∀ j : Fin iretRegs.length, slot (iretRegs.get j) = 11 + j := by decide
  exact h' ⟨i, h⟩

theorem slot_eq_six {r : Reg} : slot r = 6 ↔ r = .eax := by
  cases r <;> decide

/-- **The end of the handler restores the saved registers**, with the result in `%eax`. -/
theorem fin_restores (c : Cpu) : (execAll fin c).reg =
    userContext (fun k => c.mem.dword (c.reg .esp + BitVec.ofNat 32 (4 * k))) (c.reg .eax) := by
  generalize hframe : (fun k => c.mem.dword (c.reg .esp + BitVec.ofNat 32 (4 * k))) = frame
  let c₁ := exec c (.store .eax 0x18)
  have hmem : ∀ k, k < 16 → c₁.mem.dword (c.reg .esp + BitVec.ofNat 32 (4 * k)) =
      if k = 6 then c.reg .eax else frame k := by
    intro k hk
    rw [← hframe]
    exact store_frame c.mem (c.reg .esp) (c.reg .eax) hk
  obtain ⟨h1, h2, h3, h4⟩ := execAll_pops restoreRegs (by decide) (by decide) c₁
  have hfin : execAll fin c = iret (execAll restoreAll c₁) := rfl
  rw [hfin]
  have hpop : ∀ r, r ∈ restoreRegs → (iret (execAll restoreAll c₁)).reg r =
      userContext frame (c.reg .eax) r := by
    intro r hr
    have hno : r ∉ iretRegs := by
      revert hr
      cases r <;> decide
    obtain ⟨i, hi, rfl⟩ := List.getElem_of_mem hr
    have hslot := slot_restoreRegs hi
    rw [iret_other _ hno]
    refine (h3 i hi).trans ?_
    show restoreRegs[i].fit (c₁.mem.dword (c.reg .esp + BitVec.ofNat 32 (4 * i))) = _
    rw [hmem i (Nat.lt_trans hi (by decide))]
    unfold userContext
    by_cases he : restoreRegs[i] = .eax
    · have h6 : i = 6 := hslot.symm.trans (slot_eq_six.mpr he)
      rw [if_pos h6, if_pos he, he]
      rfl
    · have h6 : ¬ i = 6 := fun e => he (slot_eq_six.mp (hslot.trans e))
      rw [if_neg h6, if_neg he, hslot]
  have hret : ∀ r, r ∈ iretRegs → (iret (execAll restoreAll c₁)).reg r =
      userContext frame (c.reg .eax) r := by
    intro r hr
    have hno : r ≠ .eax := by
      revert hr
      cases r <;> decide
    obtain ⟨i, hi, rfl⟩ := List.getElem_of_mem hr
    have hslot := slot_iretRegs hi
    have h6 : ¬ 11 + i = 6 := by omega
    have hi5 : i < 5 := hi
    rw [iret_popped _ i hi]
    unfold restoreAll
    rw [h1, h2]
    show iretRegs[i].fit (c₁.mem.dword (c.reg .esp + BitVec.ofNat 32 44 + _)) = _
    rw [BitVec.add_assoc, ← BitVec.ofNat_add, show 44 + 4 * i = 4 * (11 + i) by omega,
      hmem (11 + i) (by omega), if_neg h6]
    unfold userContext
    rw [if_neg hno, hslot]
    rfl
  funext r
  cases r with
  | ebx | ecx | edx | esi | edi | ebp | eax | ds | es | fs | gs => exact hpop _ (by decide)
  | eip | cs | eflags | esp | ss => exact hret _ (by decide)

/-! ## the two returns -/

/-- the words from `lo` to the top of the stack are the same -/
def SameStack (L : Layout) (t : Task) (lo : Nat) (m m' : Mem) : Prop :=
  ∀ i, lo ≤ i → i < 1024 → m'.dword (L.word t i) = m.dword (L.word t i)

/-- What the code of `ret_from_fork` does when its return slot is `stack[q]`: it returns 0, and
uses the stack only below the slot. -/
structure RetFromFork (L : Layout) (t : Task) (q : Nat) (c c' : Cpu) : Prop where
  eax : c'.reg .eax = 0
  eip : c'.reg .eip = c.mem.dword (L.word t q)
  esp : c'.reg .esp = L.word t (q + 1)
  stack : SameStack L t q c.mem c'.mem

/-- the frame that the handler has saved above the return address `stack[p + 1]` of `sys_fork` -/
def savedFrame (L : Layout) (parent : Task) (p : Nat) (m : Mem) (k : Nat) : DWord :=
  m.dword (L.word parent (p + 2 + k))

/-- The call has returned: the return address and the rest of the stack are those of `m` in
`parent`, and the handler goes on to restore the registers with this `result`. -/
structure Returns (L : Layout) (parent t : Task) (p : Nat) (m : Mem) (result : DWord) (c : Cpu) :
    Prop where
  eip : c.reg .eip = m.dword (L.word parent (p + 1))
  esp : c.reg .esp = L.word t (p + 2)
  stack : ∀ i, p + 1 ≤ i → i < 1024 → c.mem.dword (L.word t i) = m.dword (L.word parent i)
  user : (execAll fin c).reg = userContext (savedFrame L parent p m) result

section
variable {L : Layout} {parent child t : Task} {p : Nat} {m m' : Mem} {c c' : Cpu}

theorem Layout.word_add (L : Layout) (t : Task) (i k : Nat) :
    L.word t i + BitVec.ofNat 32 (4 * k) = L.word t (i + k) := by
  unfold word
  rw [BitVec.add_assoc, ← BitVec.ofNat_add, Nat.mul_add, Nat.add_assoc]

/-- the frame is in the stack, so that it is the saved one -/
theorem Returns.of_stack (hp : FrameAt p) (heip : c.reg .eip = m.dword (L.word parent (p + 1)))
    (hesp : c.reg .esp = L.word t (p + 2))
    (hst : ∀ i, p + 1 ≤ i → i < 1024 → c.mem.dword (L.word t i) = m.dword (L.word parent i)) :
    Returns L parent t p m (c.reg .eax) c := by
  have hlt := hp.context
  refine ⟨heip, hesp, hst, ?_⟩
  rw [fin_restores]
  funext r
  have hslot : slot r < 16 := by cases r <;> decide
  unfold userContext savedFrame
  beta_reduce
  rw [hesp, L.word_add, hst _ (by omega) (by omega)]

/-- `popl %ebp` and `ret` -/
theorem pop_ret {q : Nat} (h : c.reg .esp = L.word t q) {c' : Cpu}
    (hc : c' = execAll [.popl .ebp, .ret] c) :
    c'.reg .eip = c.mem.dword (L.word t (q + 1)) ∧ c'.reg .esp = L.word t (q + 2) ∧
      c'.mem = c.mem ∧ c'.reg .eax = c.reg .eax := by
  obtain ⟨h1, h2, h3, h4⟩ := execAll_pops [.ebp, .eip] (by decide) (by decide) c
  have he : c' = execAll ([Reg.ebp, .eip].map .popl) c := hc
  rw [← he] at h1 h2 h3 h4
  have h3' := h3 1 (by decide)
  rw [h] at h2 h3'
  exact ⟨h3'.trans (congrArg c.mem.dword (L.word_add t q 1)), h2.trans (L.word_add t q 2), h1,
    h4 .eax (by decide) (by decide)⟩

theorem parent_returns (hp : FrameAt p) (hm : Forked L parent child p m m')
    (hebp : c.reg .ebp = L.word parent p) (hst : SameStack L parent p m' c.mem) :
    Returns L parent parent p m (c.reg .eax) (execAll [.leave, .ret] c) := by
  have hlt := hp.context
  have hesp : (c.setReg .esp (c.reg .ebp)).reg .esp = L.word parent p :=
    (setReg_self ..).trans hebp
  obtain ⟨h1, h2, h3, h4⟩ := pop_ret hesp rfl
  have hw : ∀ i, p ≤ i → i < 1024 → c.mem.dword (L.word parent i) = m.dword (L.word parent i) :=
    fun i hi hi' => (hst i hi hi').trans (hm.own i hi')
  have h := Returns.of_stack hp (h1.trans (hw _ (by omega) (by omega))) h2 fun i hi hi' => by
    rw [h3]
    exact hw i (by omega) hi'
  rw [h4] at h
  exact h

/-! ## the first dispatch -/

/-- `current` gives the page of `%esp` -/
theorem current_apart (L : Layout) (t : Task) {x : DWord} (h : x &&& 0xfffff000 ≠ L.word t 0)
    {i : Nat} (hi : i < 1024) :
    Mem.Apart ((x &&& 0xfffff000) + BitVec.ofNat 32 (4 * Field.kernelEsp.word)) (L.word t i) := by
  have h0 : (x &&& 0xfffff000) &&& 0xfff = (0 : DWord) := by
    rw [BitVec.and_assoc]
    exact BitVec.and_zero
  have hx : (x &&& 0xfffff000).toNat % 4096 = 0 := by
    have := congrArg BitVec.toNat h0
    rw [BitVec.toNat_and] at this
    exact (Nat.and_two_pow_sub_one_eq_mod _ 12).symm.trans this
  have h1 := L.word_toNat t hi
  have h2 := L.word_toNat t (i := 0) (by decide)
  have h3 := L.aligned
  have h4 : (x &&& 0xfffff000).toNat ≠ (L.word t 0).toNat := fun e => h (BitVec.eq_of_toNat_eq e)
  show Mem.Apart (_ + BitVec.ofNat 32 12) _
  unfold Mem.Apart
  generalize x &&& 0xfffff000 = a at hx h4 ⊢
  generalize L.word t i = b at h1 ⊢
  constructor <;> bv_omega

theorem child_dispatched (hp : FrameAt p) (hm : Forked L parent child p m m')
    (hcur : c.reg .esp &&& 0xfffff000 ≠ L.word child 0)
    (hesp : c.mem.dword (L.word child Field.kernelEsp.word) =
      m'.dword (L.word child Field.kernelEsp.word))
    (hst : SameStack L child 14 m' c.mem) {c' : Cpu} (hc : c' = innerSwitch L child c) :
    c'.reg .eip = L.retFromFork ∧ c'.reg .esp = L.word child (p + 1) ∧
      ∀ i, p + 1 ≤ i → i < 1024 → c'.mem.dword (L.word child i) = m.dword (L.word parent i) := by
  obtain ⟨h14, hlt⟩ := hp
  -- the `kernel_esp` of the other task is not in this page
  generalize hw : c.mem.setDword ((c.reg .esp &&& 0xfffff000) +
    BitVec.ofNat 32 (4 * Field.kernelEsp.word)) (c.reg .ebp) = w
  have hpage : ∀ i, i < 1024 → w.dword (L.word child i) = c.mem.dword (L.word child i) := by
    intro i hi
    rw [← hw]
    exact c.mem.dword_setDword_of_apart (current_apart L child hcur hi) _
  have hnew : w.dword (L.word child Field.kernelEsp.word) = L.word child (p - 1) := by
    rw [hpage _ (by decide), hesp, hm.kernelEsp]
  have hc' : c' = execAll [.popl .ebp, .ret]
      ({ c with mem := w }.setReg .esp (L.word child (p - 1))) := by
    rw [hc, innerSwitch, hw, hnew]
  obtain ⟨h1, h2, h3, -⟩ := pop_ret (setReg_self ..) hc'
  have hstack : ∀ i, 14 ≤ i → i < 1024 → w.dword (L.word child i) = m'.dword (L.word child i) :=
    fun i hi hi' => (hpage i hi').trans (hst i hi hi')
  have e1 : p - 1 + 1 = p := by omega
  have e2 : p - 1 + 2 = p + 1 := by omega
  rw [e1] at h1
  rw [e2] at h2
  refine ⟨?_, h2, fun i hi hi' => ?_⟩
  · exact h1.trans ((hstack p (by omega) (by omega)).trans hm.retFromFork)
  · rw [h3]
    exact (hstack i (by omega) hi').trans (hm.rest i (by omega) hi')

/-- `ret_from_fork` returns into the handler -/
theorem child_returns (hp : FrameAt p) (h : RetFromFork L child (p + 1) c c')
    (hst : ∀ i, p + 1 ≤ i → i < 1024 → c.mem.dword (L.word child i) = m.dword (L.word parent i)) :
    Returns L parent child p m 0 c' := by
  have hlt := hp.context
  have hr := Returns.of_stack hp (h.eip.trans (hst _ (Nat.le_refl _) (by omega))) h.esp
    fun i hi hi' => (h.stack i hi hi').trans (hst i hi hi')
  rw [h.eax] at hr
  exact hr

end

/-! ## fork -/

/-- The two returns of a `sys_fork` whose saved `%ebp` is `stack[p]` of the parent: `m` is the
memory that it copies, `m'` the memory that it leaves. -/
structure ReturnsTwice (L : Layout) (parent child : Task) (p : Nat) (pid : DWord) (m m' : Mem) :
    Prop where
  /-- `sys_fork` returns to the parent -/
  ret : ∀ c, c.reg .ebp = L.word parent p → c.reg .eax = pid →
    SameStack L parent p m' c.mem →
    Returns L parent parent p m pid (execAll [.leave, .ret] c)
  /-- Later another task switches to the child, whose PCB may have changed. -/
  dispatch : ∀ c, c.reg .esp &&& 0xfffff000 ≠ L.word child 0 →
    c.mem.dword (L.word child Field.kernelEsp.word) =
      m'.dword (L.word child Field.kernelEsp.word) →
    SameStack L child 14 m' c.mem →
    (innerSwitch L child c).reg .eip = L.retFromFork ∧
    (innerSwitch L child c).reg .esp = L.word child (p + 1) ∧
    ∀ c', RetFromFork L child (p + 1) (innerSwitch L child c) c' → Returns L parent child p m 0 c'

theorem Forked.returnsTwice {L : Layout} {parent child : Task} {p : Nat} {m m' : Mem}
    (hp : FrameAt p) (hm : Forked L parent child p m m') (pid : DWord) :
    ReturnsTwice L parent child p pid m m' := by
  refine ⟨fun c hebp heax hst => ?_, fun c hcur hesp hst => ?_⟩
  · rw [← heax]
    exact parent_returns hp hm hebp hst
  · obtain ⟨h1, h2, h3⟩ := child_dispatched hp hm hcur hesp hst rfl
    exact ⟨h1, h2, fun c' h => child_returns hp h h3⟩

/-- **A fork returns twice**: the parent gets the PID of the child, and the child gets 0 at its
first dispatch, both with the registers and the return context that the parent has saved. -/
theorem fork_returns_twice (mem : Nat → Byte) (tsc : Nat → DWord) {s : State}
    (hr : Reachable step (boot mem tsc) s) (hu : inUser s) {child : Task} {rest : List Task}
    (hq : queue s .freequeue = child :: rest) :
    ∃ pid s', sysFork s = .ok (pid, s') ∧ (s'.task child).pid = pid ∧
      (s'.task child).kernelEsp = .retFromFork ∧
      ∀ (L : Layout) (now tail : DWord) (m : Mem) (p : Nat), FrameAt p →
        ∃ m', forkPages L s.current child (L.word s.current p) (BitVec.ofInt 32 pid) now tail m =
            .ok m' ∧
          ReturnsTwice L s.current child p (BitVec.ofInt 32 pid) m m' := by
  have h := reachable_inv mem tsc hr
  rcases h.fork_cases hu with ⟨he, -⟩ | ⟨child', rest', fs, s', hq', -, -, hsp, hf⟩
  · exact absurd (hq.symm.trans he) (List.cons_ne_nil child rest)
  · obtain ⟨rfl, -⟩ := List.cons.inj (hq.symm.trans hq')
    have hne : s.current ≠ child := fun e =>
      h.placed.running .freequeue (e ▸ hq ▸ List.mem_cons_self)
    have hpid : (s'.task child).pid = int32 (s.pidMax + 1) := by
      rw [hsp.task, if_pos rfl]
      rfl
    refine ⟨_, s', hf, hpid, ?_, fun L now tail m p hp => ?_⟩
    · rw [hsp.task, if_pos rfl]
      rfl
    · obtain ⟨m', hm', hforked⟩ := forkPages_forked hne hp (BitVec.ofInt 32 (int32 (s.pidMax + 1)))
        now tail
      exact ⟨m', hm', hforked.returnsTwice hp _⟩

/-- the first fork after boot, which takes the PCB 7 -/
theorem fork_returns_twice_boot :
    (∃ rest, queue (boot (fun _ => 0) fun _ => 0) .freequeue = 7 :: rest) ∧
      ∃ pid s', sysFork (boot (fun _ => 0) fun _ => 0) = .ok (pid, s') ∧ (s'.task 7).pid = pid ∧
        (s'.task 7).kernelEsp = .retFromFork ∧
        ∀ (L : Layout) (now tail : DWord) (m : Mem) (p : Nat), FrameAt p →
          ∃ m', forkPages L (boot (fun _ => 0) fun _ => 0).current 7
              (L.word (boot (fun _ => 0) fun _ => 0).current p) (BitVec.ofInt 32 pid) now tail m =
              .ok m' ∧
            ReturnsTwice L (boot (fun _ => 0) fun _ => 0).current 7 p (BitVec.ofInt 32 pid) m m' := by
  have hq : queue (boot (fun _ => 0) fun _ => 0) .freequeue = 7 :: [6, 5, 4, 3, 2, 1, 0] := by
    rw [boot_queue]
    rfl
  exact ⟨⟨_, hq⟩, fork_returns_twice (fun _ => 0) (fun _ => 0) .init (boot_inUser _ _) hq⟩

end Zeos
