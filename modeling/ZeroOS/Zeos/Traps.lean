import ZeroOS.Lib.Calls
import ZeroOS.Zeos.Stacks

/-!
# Zeos: the way into the kernel

`entry.S` and `sys_call_table.S`, from the user program to the routine of the kernel and back.

* `Routine`, `sysCallTable`, `dispatch`   the system calls, and which of them `%eax` selects;
* `saveAll`, `eoi`               the macros of `entry.S`;
* `Interrupted`, `IdleInterrupted`, `SystemCall`   an interrupt, and a system call, that has come back;
* `user_frame`                   where the registers of the user program stand on the kernel stack;
* `interrupt_transparent`        **an interrupt gives every register back**;
* `system_call_transparent`      **a system call changes `%eax` and its argument registers only**;
* `fork_copies_context`          **the child of a fork resumes with the registers of its parent**.
-/

set_option linter.unusedVariables false

namespace Zeos
open X86

/-! ## sys_call_table.S -/

inductive Routine where
  | sysNiSyscall
  | sysExit
  | sysFork
  | sysRead
  | sysWrite
  | sysGettime
  | sysSetSchedPolicy
  | sysGetpid
  | sysGetStats
  deriving DecidableEq

def sysCallTable : List Routine :=
  [.sysNiSyscall, .sysExit, .sysFork, .sysRead, .sysWrite,
    .sysNiSyscall, .sysNiSyscall, .sysNiSyscall, .sysNiSyscall, .sysNiSyscall,
    .sysGettime, .sysNiSyscall, .sysNiSyscall, .sysNiSyscall, .sysNiSyscall,
    .sysNiSyscall, .sysNiSyscall, .sysSetSchedPolicy, .sysNiSyscall, .sysNiSyscall,
    .sysGetpid, .sysNiSyscall, .sysNiSyscall, .sysNiSyscall, .sysNiSyscall,
    .sysNiSyscall, .sysNiSyscall, .sysNiSyscall, .sysNiSyscall, .sysNiSyscall,
    .sysNiSyscall, .sysNiSyscall, .sysNiSyscall, .sysNiSyscall, .sysNiSyscall,
    .sysGetStats, .sysNiSyscall, .sysNiSyscall, .sysNiSyscall, .sysNiSyscall,
    .sysNiSyscall]

/-- the number of `int` or pointer arguments -/
def Routine.args : Routine → Nat
  | .sysNiSyscall | .sysExit | .sysFork | .sysGettime | .sysGetpid => 0
  | .sysSetSchedPolicy => 1
  | .sysGetStats => 2
  | .sysRead | .sysWrite => 3

/-- `cmpl $0, %eax; jl err; cmpl $40, %eax; jg err` -/
def isErr (eax : DWord) : Bool := eax.slt 0 || (40 : DWord).slt eax

/-- `call *sys_call_table(,%eax, 0x04)`; `none` is `err`, or a call behind the end of the table -/
def dispatch (eax : DWord) : Option Routine :=
  if isErr eax then none else sysCallTable[eax.toNat]?

/-! ## entry.S -/

def kernelCs : DWord := 0x10

def kernelDs : DWord := 0x18

def saveAll (c : Cpu) : Cpu :=
  let c := pushAll (restoreRegs.map c.reg) c
  let c := c.setReg .edx kernelDs
  let c := c.setReg .ds (c.reg .edx)
  c.setReg .es (c.reg .edx)

/-- `movb $0x20, %al`; the `outb` behind it changes no register -/
def eoi (c : Cpu) : Cpu := c.setReg .eax (c.reg .eax &&& 0xffffff00 ||| 0x20)

/-- `keyboard_handler` and `clock_handler`, up to their routine: `ret` is the address behind the
`call` -/
def deviceHandler (routine ret : DWord) (c : Cpu) : Cpu := call routine ret (eoi (saveAll c))

/-- an interrupt that has stopped the user program at `c` has returned to it at `c'` -/
inductive Interrupted (e : Entry) (routine ret : DWord) (c : Cpu) : Cpu → Prop where
  | back {c₁ : Cpu} : Returned 0 16 (deviceHandler routine ret (e.enter c)) c₁ →
      Interrupted e routine ret c (iret (execAll restoreAll c₁))

/-- the same in `cpu_idle`, which runs at the level of the kernel -/
inductive IdleInterrupted (e : Entry) (routine ret : DWord) (c : Cpu) : Cpu → Prop where
  | back {c₁ : Cpu} : Returned 0 14 (deviceHandler routine ret (e.enterSame c)) c₁ →
      IdleInterrupted e routine ret c (iretSame (execAll restoreAll c₁))

/-- `system_call_handler` up to the routine at the address `f` -/
def systemCallHandler (f ret : DWord) (c : Cpu) : Cpu := call f ret (saveAll c)

/-- the system call that a user program makes at `c` has come back at `c'`, with the result `x` of
its routine -/
inductive SystemCall (e : Entry) (f : Routine → DWord) (ret : DWord) (c : Cpu) (x : DWord) :
    Cpu → Prop where
  | call {r : Routine} {c₁ : Cpu} : dispatch (c.reg .eax) = some r →
      Returned r.args 16 (systemCallHandler (f r) ret (e.enter c)) c₁ → x = c₁.reg .eax →
      SystemCall e f ret c x (execAll fin c₁)
  | err {c₁ : Cpu} : dispatch (c.reg .eax) = none → x = -38 →
      c₁ = (saveAll (e.enter c)).setReg .eax x →
      SystemCall e f ret c x (execAll fin c₁)

/-! ## dispatch -/

/-- the numbers that are no error are the indices of the table -/
theorem isErr_eq_false_iff {eax : DWord} : isErr eax = false ↔ eax.toNat < 41 := by
  have hlt := eax.isLt
  have h40 : (40 : DWord).toInt = 40 := by decide
  have h0 : (0 : DWord).toInt = 0 := by decide
  unfold isErr
  rw [Bool.or_eq_false_iff, BitVec.slt, BitVec.slt, decide_eq_false_iff_not,
    decide_eq_false_iff_not, h40, h0, BitVec.toInt_eq_toNat_cond]
  split <;> omega

/-- **A call never goes outside the table.** -/
theorem dispatch_inside {eax : DWord} (h : isErr eax = false) :
    ∃ r, dispatch eax = some r ∧ sysCallTable[eax.toNat]? = some r := by
  have hlt : eax.toNat < sysCallTable.length := isErr_eq_false_iff.mp h
  refine ⟨sysCallTable[eax.toNat], ?_, List.getElem?_eq_getElem hlt⟩
  unfold dispatch
  rw [h]
  exact List.getElem?_eq_getElem hlt

/-! ## the frame of the user program -/

/-- the registers of the frame, from the top of the stack -/
def frameRegs : List Reg := restoreRegs ++ iretRegs

theorem frameRegs_slot (r : Reg) : frameRegs[slot r]? = some r := by
  cases r <;> rfl

theorem slot_lt (r : Reg) : slot r < 16 := by
  cases r <;> decide

section
variable (e : Entry) (c : Cpu) {r : Reg}

theorem saveAll_pushed : Pushed (restoreRegs.map c.reg) c (pushAll (restoreRegs.map c.reg) c) :=
  pushAll_regs (by decide) c.reg c

theorem saveAll_mem : (saveAll c).mem = (pushAll (restoreRegs.map c.reg) c).mem := rfl

theorem saveAll_esp : (saveAll c).reg .esp = (pushAll (restoreRegs.map c.reg) c).reg .esp := by
  unfold saveAll
  dsimp only
  rw [setReg_ne _ _ (by decide), setReg_ne _ _ (by decide), setReg_ne _ _ (by decide)]

/-- what the processor pushes -/
theorem enter_pushed : Pushed (iretRegs.map c.reg) ((c.setReg .ss e.ss).setReg .esp e.esp)
    (pushAll (iretRegs.map c.reg) ((c.setReg .ss e.ss).setReg .esp e.esp)) :=
  pushAll_regs (by decide) c.reg _

theorem enterSame_pushed :
    Pushed (sameRegs.map c.reg) c (pushAll (sameRegs.map c.reg) c) :=
  pushAll_regs (by decide) c.reg c

theorem enter_frame : restoreRegs.map (e.enter c).reg ++ iretRegs.map c.reg =
    frameRegs.map c.reg := by
  have h : ∀ r ∈ restoreRegs, (e.enter c).reg r = c.reg r := by
    intro r hr
    apply e.enter_other
    revert hr
    cases r <;> decide
  rw [List.map_congr_left h, ← List.map_append]
  rfl

theorem enterSame_frame : restoreRegs.map (e.enterSame c).reg ++ sameRegs.map c.reg =
    (restoreRegs ++ sameRegs).map c.reg := by
  have h : ∀ r ∈ restoreRegs, (e.enterSame c).reg r = c.reg r := by
    intro r hr
    apply e.enterSame_other
    · revert hr
      cases r <;> decide
    · intro h
      subst h
      exact absurd hr (by decide)
  rw [List.map_congr_left h, ← List.map_append]

/-- **Every register of the user program stands in its place on the kernel stack.** -/
theorem user_frame (r : Reg) : (saveAll (e.enter c)).mem.dword
    ((saveAll (e.enter c)).reg .esp + BitVec.ofNat 32 (4 * slot r)) = c.reg r := by
  have he : (e.enter c).reg .esp = _ :=
    e.jump_other _ _ (by decide) (by decide) (by decide)
  have hm : (e.enter c).mem = _ := e.jump_mem _ _
  rw [saveAll_esp, saveAll_mem]
  apply (enter_pushed e c).append hm he (saveAll_pushed (e.enter c))
  · rw [enter_frame, List.length_map]
    decide
  · rw [enter_frame, List.getElem?_map, frameRegs_slot]
    rfl

/-- the frame begins at the top of the kernel stack -/
theorem user_frame_esp :
    (saveAll (e.enter c)).reg .esp + 64 = e.esp := by
  have he : (e.enter c).reg .esp = _ :=
    e.jump_other _ _ (by decide) (by decide) (by decide)
  have h := (enter_pushed e c).append_esp he (saveAll_pushed (e.enter c))
  rw [enter_frame, List.length_map, setReg_self] at h
  rw [saveAll_esp]
  exact h

end

/-! ## the way back -/

/-- what the user program finds in its registers: the result, and else what was there before -/
def resumed (c : Cpu) (x : DWord) (r : Reg) : DWord := if r = .eax then x else r.fit (c.reg r)

/-- `RESTORE_ALL` and `iret` load every register from its place in the frame. -/
theorem restores (c : Cpu) (r : Reg) : (iret (execAll restoreAll c)).reg r =
    r.fit (c.mem.dword (c.reg .esp + BitVec.ofNat 32 (4 * slot r))) := by
  obtain ⟨h1, h2, h3, -⟩ := execAll_pops restoreRegs (by decide) (by decide) c
  by_cases hr : r ∈ iretRegs
  · obtain ⟨i, hi, rfl⟩ := List.getElem_of_mem hr
    rw [iret_popped _ i hi, slot_iretRegs hi]
    unfold restoreAll
    rw [h1, h2, BitVec.add_assoc, ← BitVec.ofNat_add, Nat.mul_add]
    rfl
  · have hr' : r ∈ restoreRegs := by
      revert hr
      cases r <;> decide
    rw [iret_other _ hr]
    obtain ⟨i, hi, rfl⟩ := List.getElem_of_mem hr'
    rw [slot_restoreRegs hi]
    exact h3 i hi

section
variable {e : Entry} {routine ret x : DWord} {f : Routine → DWord} {c c' c₁ : Cpu}

/-- the frame of `SAVE_ALL` when the routine of a device has returned -/
theorem deviceHandler_returned {m : Nat} (h : Returned 0 m (deviceHandler routine ret c) c₁)
    (hm : m ≤ 16) : c₁.reg .esp = (saveAll c).reg .esp ∧ ∀ i, i < m →
      c₁.mem.dword ((saveAll c).reg .esp + BitVec.ofNat 32 (4 * i)) =
        (saveAll c).mem.dword ((saveAll c).reg .esp + BitVec.ofNat 32 (4 * i)) := by
  obtain ⟨-, hesp, hstack⟩ := h.caller
  have he : (eoi (saveAll c)).reg .esp = (saveAll c).reg .esp := setReg_ne _ _ (by decide)
  rw [he] at hesp hstack
  exact ⟨hesp, fun i hi => hstack i (Nat.zero_le i) hi (by omega)⟩

theorem Interrupted.reg (h : Interrupted e routine ret c c') (r : Reg) :
    c'.reg r = r.fit (c.reg r) := by
  cases h with
  | back h =>
    obtain ⟨hesp, hstack⟩ := deviceHandler_returned h (Nat.le_refl 16)
    rw [restores, hesp, hstack _ (slot_lt r), user_frame]

theorem IdleInterrupted.reg (h : IdleInterrupted e routine ret c c') {r : Reg} (hr : r ≠ .ss) :
    c'.reg r = r.fit (c.reg r) := by
  cases h with
  | @back c₁ h =>
    obtain ⟨hesp, hstack⟩ := deviceHandler_returned h (by decide)
    have he : (e.enterSame c).reg .esp = _ :=
      e.jump_other _ _ (by decide) (by decide) (by decide)
    have hm : (e.enterSame c).mem = _ := e.jump_mem _ _
    have hp := saveAll_pushed (e.enterSame c)
    have hpops : iretSame (execAll restoreAll c₁) =
        execAll ((restoreRegs ++ sameRegs).map .popl) c₁ := by
      unfold iretSame restoreAll execAll
      rw [List.map_append, List.foldl_append]
    obtain ⟨-, h2, h3, -⟩ := execAll_pops (restoreRegs ++ sameRegs) (by decide) (by decide) c₁
    rw [hpops]
    by_cases hsp : r = .esp
    · have hend := (enterSame_pushed c).append_esp he hp
      rw [enterSame_frame, List.length_map, ← saveAll_esp] at hend
      subst hsp
      rw [h2, hesp]
      exact hend
    · have hmem : r ∈ restoreRegs ++ sameRegs := by
        revert hsp hr
        cases r <;> decide
      obtain ⟨i, hi, rfl⟩ := List.getElem_of_mem hmem
      have hn : 4 * (restoreRegs.map (e.enterSame c).reg ++ sameRegs.map c.reg).length ≤ 2 ^ 32 := by
        rw [enterSame_frame, List.length_map]
        decide
      have hx : (restoreRegs.map (e.enterSame c).reg ++ sameRegs.map c.reg)[i]? =
          some (c.reg (restoreRegs ++ sameRegs)[i]) := by
        rw [enterSame_frame, List.getElem?_map, List.getElem?_eq_getElem hi]
        rfl
      have hw := (enterSame_pushed c).append hm he hp hn hx
      rw [← saveAll_esp, ← saveAll_mem] at hw
      rw [h3 i hi, hesp, hstack i hi, hw]

/-- **An interrupt gives every register back**, `%eip` and the flags included, and `%eax`, which
`EOI` overwrites.  In `cpu_idle` the processor does not touch `%ss`. -/
theorem interrupt_transparent (e : Entry) (routine ret : DWord) (c : Cpu) :
    ((∃ c', Interrupted e routine ret c c') ∧
      ∀ c', Interrupted e routine ret c c' → ∀ r, c'.reg r = r.fit (c.reg r)) ∧
    (∃ c', IdleInterrupted e routine ret c c') ∧
      ∀ c', IdleInterrupted e routine ret c c' → ∀ r, r ≠ .ss → c'.reg r = r.fit (c.reg r) :=
  ⟨⟨⟨_, .back (returned_ret 0 16 _)⟩, fun _ h r => h.reg r⟩, ⟨_, .back (returned_ret 0 14 _)⟩,
    fun _ h _ hr => h.reg hr⟩

/-- the routine finds the registers of the user program above its return address -/
theorem handler_arg (e : Entry) (f ret : DWord) (c : Cpu) (r : Reg) :
    (systemCallHandler f ret (e.enter c)).mem.dword
      ((systemCallHandler f ret (e.enter c)).reg .esp + 4 + BitVec.ofNat 32 (4 * slot r)) =
        c.reg r := by
  have hlt := slot_lt r
  exact (call_arg f ret _ (by omega)).trans (user_frame e c r)

theorem SystemCall.reg (h : SystemCall e f ret c x c') : c'.reg .eax = x ∧
    ∀ r, r ≠ .eax → (∀ q, dispatch (c.reg .eax) = some q → q.args ≤ slot r) →
      c'.reg r = r.fit (c.reg r) := by
  have hback : ∀ c₁ : Cpu, c₁.reg .eax = x → (∀ r, r ≠ .eax →
      (∀ q, dispatch (c.reg .eax) = some q → q.args ≤ slot r) →
        c₁.mem.dword (c₁.reg .esp + BitVec.ofNat 32 (4 * slot r)) = c.reg r) →
      (execAll fin c₁).reg .eax = x ∧ ∀ r, r ≠ .eax →
        (∀ q, dispatch (c.reg .eax) = some q → q.args ≤ slot r) →
          (execAll fin c₁).reg r = r.fit (c.reg r) := by
    intro c₁ hx hframe
    rw [fin_restores]
    unfold userContext
    refine ⟨(if_pos rfl).trans hx, fun r hr hq => ?_⟩
    rw [if_neg hr]
    exact congrArg _ (hframe r hr hq)
  cases h with
  | @call q c₁ hd hret hx =>
    apply hback c₁ hx.symm
    intro r hr hargs
    obtain ⟨-, hesp, hstack⟩ := hret.caller
    have hlt := slot_lt r
    rw [hesp, hstack _ (hargs q hd) hlt (by omega), user_frame]
  | @err c₁ hd hx hc =>
    subst hc
    apply hback _ (setReg_self ..)
    intro r hr _
    rw [setReg_mem, setReg_ne _ _ (by decide), user_frame]

/-- **A system call changes `%eax` and its argument registers only**, and its routine finds the
registers of the user program above its return address, the arguments first. -/
theorem system_call_transparent (e : Entry) (f : Routine → DWord) (ret : DWord) (c : Cpu) :
    (∀ (q : Routine) (r : Reg), (systemCallHandler (f q) ret (e.enter c)).mem.dword
      ((systemCallHandler (f q) ret (e.enter c)).reg .esp + 4 + BitVec.ofNat 32 (4 * slot r)) =
        c.reg r) ∧
    (∃ x c', SystemCall e f ret c x c') ∧
    ∀ x c', SystemCall e f ret c x c' → c'.reg .eax = x ∧
      ∀ r, r ≠ .eax → (∀ q, dispatch (c.reg .eax) = some q → q.args ≤ slot r) →
        c'.reg r = r.fit (c.reg r) := by
  refine ⟨fun q r => handler_arg e (f q) ret c r, ?_, fun x c' h => h.reg⟩
  cases hd : dispatch (c.reg .eax) with
  | none => exact ⟨_, _, .err hd rfl rfl⟩
  | some q => exact ⟨_, _, .call hd (returned_ret q.args 16 _) rfl⟩

end

/-! ## fork -/

/-- the first instructions of a C function: `pushl %ebp; movl %esp, %ebp` -/
def prologue (c : Cpu) : Cpu :=
  let c := pushl (c.reg .ebp) c
  c.setReg .ebp (c.reg .esp)

/-- the routine at `f` has begun, in a system call that a user program makes at `c` -/
def atSysFork (e : Entry) (f ret : DWord) (c : Cpu) : Cpu :=
  prologue (systemCallHandler f ret (e.enter c))

section
variable {L : Layout} {parent child : Task} {e : Entry} {f ret x : DWord} {c : Cpu} {m : Mem}

/-- the place of the saved `%ebp` of a routine: 16 words are saved, and its return address -/
abbrev framePos : Nat := 1006

theorem framePos_frameAt : FrameAt framePos := ⟨by decide, by decide⟩

theorem handler_esp (f ret : DWord) (c : Cpu) (he : e.esp = L.word parent 1024) :
    (systemCallHandler f ret (e.enter c)).reg .esp = L.word parent (framePos + 1) := by
  have h := user_frame_esp e c
  have hw : L.word parent (framePos + 1) + 4 + 64 = e.esp := by
    rw [he, BitVec.add_assoc]
    exact L.word_add parent (framePos + 1) 17
  unfold systemCallHandler
  rw [call_esp]
  generalize (saveAll (e.enter c)).reg .esp = a at h
  generalize L.word parent (framePos + 1) = b at hw
  bv_omega

theorem prologue_ebp (he : e.esp = L.word parent 1024) :
    (atSysFork e f ret c).reg .ebp = L.word parent framePos := by
  have h := handler_esp f ret c he
  have hw : L.word parent framePos + 4 = L.word parent (framePos + 1) := L.word_add parent framePos 1
  unfold atSysFork prologue
  dsimp only
  rw [setReg_self]
  show (pushl _ _).reg .esp = _
  rw [pushl_esp, h, ← hw]
  exact BitVec.add_sub_cancel ..

/-- above its own frame the routine finds the words that the handler has left -/
theorem prologue_stack (he : e.esp = L.word parent 1024) (ret : DWord) {k : Nat} (hk : k ≤ 16) :
    (atSysFork e f ret c).mem.dword (L.word parent (framePos + 1 + k)) =
      (systemCallHandler f ret (e.enter c)).mem.dword
        ((systemCallHandler f ret (e.enter c)).reg .esp + BitVec.ofNat 32 (4 * k)) := by
  have hw := L.word_add parent (framePos + 1) k
  rw [← hw, ← handler_esp f ret c he]
  exact pushl_above _ _ (by omega)

/-- the frame that `sys_fork` copies is the one of the user program -/
theorem savedFrame_user (he : e.esp = L.word parent 1024)
    (hm : SameStack L parent framePos (atSysFork e f ret c).mem m) :
    userContext (savedFrame L parent framePos m) x = resumed c x := by
  funext r
  have hlt := slot_lt r
  have hpos : framePos = 1006 := rfl
  unfold userContext resumed savedFrame
  by_cases hr : r = .eax
  · rw [if_pos hr, if_pos hr]
  · rw [if_neg hr, if_neg hr, hm _ (by omega) (by omega)]
    congr 1
    have h := prologue_stack (f := f) (c := c) he ret (k := 1 + slot r) (by omega)
    rw [Nat.mul_add, BitVec.ofNat_add, ← BitVec.add_assoc] at h
    rw [show framePos + 2 + slot r = framePos + 1 + (1 + slot r) by omega, h]
    exact handler_arg e f ret c r

/-- the return address of the routine, in the page of the process -/
theorem savedFrame_ret (he : e.esp = L.word parent 1024)
    (hm : SameStack L parent framePos (atSysFork e f ret c).mem m) :
    m.dword (L.word parent (framePos + 1)) = ret := by
  have hpos : framePos = 1006 := rfl
  have h := prologue_stack (f := f) (c := c) he ret (k := 0) (by omega)
  rw [hm _ (by omega) (by omega)]
  refine h.trans ?_
  rw [Nat.mul_zero, BitVec.add_zero, systemCallHandler, call_esp, call_mem, ← pushl_esp ret]
  exact pushl_top ..

/-- **The child of a fork resumes with the registers of its parent.**  A user program makes the
system call at `c`; `sys_fork` runs on the stack that the handler leaves.  It returns to the handler
in the parent, and again in the child when that is switched to; each time the user program has all
the registers that it had at `c`, but for the result. -/
theorem fork_copies_context (hne : parent ≠ child) (he : e.esp = L.word parent 1024)
    (hm : SameStack L parent framePos (atSysFork e f ret c).mem m)
    (pid now tail : DWord) :
    ∃ m', forkPages L parent child ((atSysFork e f ret c).reg .ebp) pid now tail m = .ok m' ∧
      (∀ c₁, c₁.reg .ebp = (atSysFork e f ret c).reg .ebp →
        c₁.reg .eax = pid → SameStack L parent framePos m' c₁.mem →
        (execAll [.leave, .ret] c₁).reg .eip = ret ∧
        (execAll fin (execAll [.leave, .ret] c₁)).reg = resumed c pid) ∧
      ∀ c₁, c₁.reg .esp &&& 0xfffff000 ≠ L.word child 0 →
        c₁.mem.dword (L.word child Field.kernelEsp.word) =
          m'.dword (L.word child Field.kernelEsp.word) →
        SameStack L child 14 m' c₁.mem → (innerSwitch L child c₁).reg .eip = L.retFromFork ∧
        ∀ c₂, RetFromFork L child (framePos + 1) (innerSwitch L child c₁) c₂ →
          c₂.reg .eip = ret ∧ (execAll fin c₂).reg = resumed c 0 := by
  rw [prologue_ebp he]
  obtain ⟨m', hfork, hforked⟩ := forkPages_forked (L := L) (m := m) hne
    framePos_frameAt pid now tail
  have htwice := hforked.returnsTwice framePos_frameAt pid
  refine ⟨m', hfork, fun c₁ hebp heax hst => ?_, fun c₁ hcur hesp hst => ?_⟩
  · have hret := htwice.ret c₁ hebp heax hst
    exact ⟨hret.eip.trans (savedFrame_ret he hm), hret.user.trans (savedFrame_user he hm)⟩
  · obtain ⟨heip, -, hback⟩ := htwice.dispatch c₁ hcur hesp hst
    refine ⟨heip, fun c₂ h => ?_⟩
    have hret := hback c₂ h
    exact ⟨hret.eip.trans (savedFrame_ret he hm), hret.user.trans (savedFrame_user he hm)⟩

end

/-- `task[]` at 0x20000 -/
def layout : Layout := ⟨0x20000, 0x30000, 0x40000, 0x11000, by decide, by decide⟩

/-- a user program before `int $0x80`, in `fork` -/
def forkCaller : Cpu where
  reg
    | .eax => 2
    | .ebx => 0x1234
    | .esp => 0x11bfc0
    | .eip => 0x100040
    | .cs => 0x23
    | .ss => 0x2b
    | _ => 0
  mem _ := 0

/-- the entry of the first task, `task[8]` -/
def firstEntry : Entry := ⟨kernelDs, layout.word 8 1024, kernelCs, 0x10100⟩

theorem fork_copies_context_first : firstEntry.esp = layout.word 8 1024 ∧
    ∃ m', forkPages layout 8 7 ((atSysFork firstEntry 0x10200 0x10140 forkCaller).reg .ebp) 2 0
        0x40000 (atSysFork firstEntry 0x10200 0x10140 forkCaller).mem = .ok m' ∧
      (∀ c₁, c₁.reg .ebp = (atSysFork firstEntry 0x10200 0x10140 forkCaller).reg .ebp →
        c₁.reg .eax = 2 → SameStack layout 8 framePos m' c₁.mem →
        (execAll [.leave, .ret] c₁).reg .eip = 0x10140 ∧
        (execAll fin (execAll [.leave, .ret] c₁)).reg = resumed forkCaller 2) ∧
      ∀ c₁, c₁.reg .esp &&& 0xfffff000 ≠ layout.word 7 0 →
        c₁.mem.dword (layout.word 7 Field.kernelEsp.word) =
          m'.dword (layout.word 7 Field.kernelEsp.word) →
        SameStack layout 7 14 m' c₁.mem → (innerSwitch layout 7 c₁).reg .eip = layout.retFromFork ∧
        ∀ c₂, RetFromFork layout 7 (framePos + 1) (innerSwitch layout 7 c₁) c₂ →
          c₂.reg .eip = 0x10140 ∧ (execAll fin c₂).reg = resumed forkCaller 0 := by
  have hne : (8 : Task) ≠ 7 := by decide
  have he : firstEntry.esp = layout.word 8 1024 := rfl
  have hm : SameStack layout 8 framePos (atSysFork firstEntry 0x10200 0x10140 forkCaller).mem
    (atSysFork firstEntry 0x10200 0x10140 forkCaller).mem := fun _ _ _ => rfl
  have h := fork_copies_context hne he hm 2 0 0x40000
  exact ⟨he, h⟩

end Zeos
