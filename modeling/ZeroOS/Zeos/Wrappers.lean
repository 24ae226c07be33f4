import ZeroOS.Lib.CStrings
import ZeroOS.Zeos.ForkCount
import ZeroOS.Zeos.Traps
import ZeroOS.Zeos.Writes

/-!
# Zeos: the system calls of `libc.c`

The wrappers, as machine code around `int $0x80`, and as C functions with `errno`.

* `trapAsm`, `plainAsm`     the `asm` of a wrapper up to `int $0x80`;
* `wrappers_transparent`    **a wrapper hands its arguments over and gives the registers back**;
* `Libc.write` and so on    what the wrappers return, and `errno`;
* `Libc.perror`             the text for `errno`.
-/

set_option linter.unusedVariables false

namespace Zeos
open X86 Runs CStrings

/-! ## the machine code -/

/-- `movl 8(%ebp), %ebx; movl 12(%ebp), %ecx; ..`, from the offset `off` on -/
def loadArgs : List Reg → DWord → Cpu → Cpu
  | [], _, c => c
  | r :: rs, off, c => loadArgs rs (off + 4) (c.setReg r (c.mem.dword (c.reg .ebp + off)))

/-- `pushl %ebx`, the arguments, and the number of the system call -/
def trapAsm (q : Routine) (number : DWord) (c : Cpu) : Cpu :=
  let c := pushl (c.reg .ebx) c
  let c := loadArgs ([.ebx, .ecx, .edx].take q.args) 8 c
  c.setReg .eax number

def writeAsm : Cpu → Cpu := trapAsm .sysWrite 4

def getStatsAsm : Cpu → Cpu := trapAsm .sysGetStats 35

/-- a wrapper without arguments -/
def plainAsm (number : DWord) (c : Cpu) : Cpu := c.setReg .eax number

def gettimeAsm : Cpu → Cpu := plainAsm 10

def getpidAsm : Cpu → Cpu := plainAsm 20

def forkAsm : Cpu → Cpu := plainAsm 2

def exitAsm : Cpu → Cpu := plainAsm 1

section
variable {c c' : Cpu} {r : Reg} {q : Routine} {number x : DWord} {rs : List Reg} {off : DWord}

theorem loadArgs_other (h : r ∉ rs) : (loadArgs rs off c).reg r = c.reg r := by
  induction rs generalizing off c with
  | nil => rfl
  | cons r' rs ih =>
    rw [List.mem_cons, not_or] at h
    rw [loadArgs, ih h.2, setReg_ne _ _ h.1]

/-- the argument `i` is loaded into its register -/
theorem loadArgs_arg (hnd : rs.Nodup) (hebp : .ebp ∉ rs) {i : Nat} (hr : rs[i]? = some r) :
    (loadArgs rs off c).reg r =
      r.fit (c.mem.dword (c.reg .ebp + off + BitVec.ofNat 32 (4 * i))) := by
  induction rs generalizing off c i with
  | nil =>
    rw [List.getElem?_nil] at hr
    cases hr
  | cons r' rs ih =>
    obtain ⟨hnot, hnd'⟩ := List.nodup_cons.mp hnd
    rw [List.mem_cons, not_or] at hebp
    cases i with
    | zero =>
      rw [List.getElem?_cons_zero, Option.some.injEq] at hr
      rw [← hr, loadArgs, loadArgs_other hnot, setReg_self, Nat.mul_zero, BitVec.add_zero]
    | succ i =>
      rw [List.getElem?_cons_succ] at hr
      rw [loadArgs, ih hnd' hebp.2 hr, setReg_mem, setReg_ne _ _ hebp.1, Nat.mul_succ,
        Nat.add_comm, BitVec.ofNat_add]
      simp only [BitVec.add_assoc]
      rfl

theorem argRegs_sublist (q : Routine) :
    ([.ebx, .ecx, .edx].take q.args : List Reg).Sublist [.ebx, .ecx, .edx] := List.take_sublist ..

/-- where the routine looks for the argument `i` -/
theorem argRegs_slot {i : Nat} (hi : i < q.args) :
    ∃ r, ([.ebx, .ecx, .edx].take q.args : List Reg)[i]? = some r ∧ slot r = i ∧ r ≠ .eax ∧
      ∀ x, r.fit x = x := by
  cases q with
  | sysNiSyscall | sysExit | sysFork | sysGettime | sysGetpid => exact absurd hi (Nat.not_lt_zero i)
  | sysSetSchedPolicy =>
    obtain rfl : i = 0 := Nat.lt_one_iff.mp hi
    exact ⟨.ebx, rfl, rfl, by decide, fun _ => rfl⟩
  | sysGetStats =>
    have h2 : i < 2 := hi
    interval_cases i
    · exact ⟨.ebx, rfl, rfl, by decide, fun _ => rfl⟩
    · exact ⟨.ecx, rfl, rfl, by decide, fun _ => rfl⟩
  | sysRead | sysWrite =>
    have h3 : i < 3 := hi
    interval_cases i
    · exact ⟨.ebx, rfl, rfl, by decide, fun _ => rfl⟩
    · exact ⟨.ecx, rfl, rfl, by decide, fun _ => rfl⟩
    · exact ⟨.edx, rfl, rfl, by decide, fun _ => rfl⟩

theorem trapAsm_eax : (trapAsm q number c).reg .eax = number := setReg_self ..

/-- the registers that are no argument are those of the caller -/
theorem trapAsm_other (h1 : r ≠ .eax) (h2 : r ≠ .esp) (h3 : r ∉ [Reg.ebx, .ecx, .edx]) :
    (trapAsm q number c).reg r = c.reg r := by
  have hnot : r ∉ ([.ebx, .ecx, .edx].take q.args : List Reg) := fun h =>
    h3 ((argRegs_sublist q).subset h)
  unfold trapAsm
  dsimp only
  rw [setReg_ne _ _ h1, loadArgs_other hnot, pushl_other _ _ h2]

theorem trapAsm_esp : (trapAsm q number c).reg .esp = c.reg .esp - 4 := by
  have hnot : Reg.esp ∉ ([.ebx, .ecx, .edx].take q.args : List Reg) := fun h =>
    absurd ((argRegs_sublist q).subset h) (by decide)
  unfold trapAsm
  dsimp only
  rw [setReg_ne _ _ (by decide), loadArgs_other hnot, pushl_esp]

/-- The C arguments are above the stack pointer: `%ebp` is `d` bytes above it. -/
theorem trapAsm_arg {d i : Nat} (hebp : c.reg .ebp = c.reg .esp + BitVec.ofNat 32 d)
    (hd : d + 40 ≤ 2 ^ 32) (hi : i < q.args) :
    ∃ r, slot r = i ∧ (trapAsm q number c).reg r =
      c.mem.dword (c.reg .ebp + 8 + BitVec.ofNat 32 (4 * i)) := by
  obtain ⟨r, hr, hs, hne, hfit⟩ := argRegs_slot hi
  have hnd : ([.ebx, .ecx, .edx].take q.args : List Reg).Nodup :=
    (argRegs_sublist q).nodup (by decide)
  have hnot : Reg.ebp ∉ ([.ebx, .ecx, .edx].take q.args : List Reg) := fun h =>
    absurd ((argRegs_sublist q).subset h) (by decide)
  have hi3 : i < 3 := by
    have h1 := (List.getElem?_eq_some_iff.mp hr).choose
    rw [List.length_take] at h1
    exact Nat.lt_of_lt_of_le h1 (Nat.min_le_right ..)
  refine ⟨r, hs, ?_⟩
  unfold trapAsm
  dsimp only
  rw [setReg_ne _ _ hne, loadArgs_arg hnd hnot hr, hfit, pushl_other _ _ (by decide), hebp]
  have e : c.reg .esp + BitVec.ofNat 32 d + 8 + BitVec.ofNat 32 (4 * i) =
      c.reg .esp + BitVec.ofNat 32 (d + 8 + 4 * i) := by
    rw [BitVec.ofNat_add, BitVec.ofNat_add, ← BitVec.add_assoc, ← BitVec.add_assoc]
    rfl
  rw [e]
  exact pushl_above _ _ (by omega)

/-- the registers that a C function gives back to its caller -/
def calleeSaved : List Reg := [.ebx, .esi, .edi, .ebp, .esp]

/-- the caller of a wrapper finds the result `x` and its own registers behind the `popl %ebx` -/
def GivesBack (c : Cpu) (x : DWord) (c' : Cpu) : Prop :=
  (popl .ebx c').reg .eax = x ∧ ∀ r ∈ calleeSaved, (popl .ebx c').reg r = c.reg r

/-- The wrapper gets its arguments to the routine of the kernel, and the kernel's result back. -/
structure Transparent (e : Entry) (f : Routine → DWord) (ret : DWord) (q : Routine)
    (number : DWord) (c : Cpu) : Prop where
  /-- the routine finds the C arguments above its return address -/
  args : ∀ i, i < q.args →
    (systemCallHandler (f q) ret (e.enter (trapAsm q number c))).mem.dword
      ((systemCallHandler (f q) ret (e.enter (trapAsm q number c))).reg .esp + 4 +
        BitVec.ofNat 32 (4 * i)) = c.mem.dword (c.reg .ebp + 8 + BitVec.ofNat 32 (4 * i))
  /-- Behind the `popl %ebx` the registers of the caller are back, if the system call has not
  written over the one word that the wrapper has pushed. -/
  saved : ∀ x c', SystemCall e f ret (trapAsm q number c) x c' →
    c'.mem.dword (c.reg .esp - 4) = c.reg .ebx → GivesBack c x c'

theorem wrapper_transparent (e : Entry) (f : Routine → DWord) (ret : DWord)
    (hq : dispatch number = some q) {d : Nat}
    (hebp : c.reg .ebp = c.reg .esp + BitVec.ofNat 32 d) (hd : d + 40 ≤ 2 ^ 32) :
    Transparent e f ret q number c := by
  refine ⟨fun i hi => ?_, fun x c' h hkept => ?_⟩
  · obtain ⟨r, hr, harg⟩ := trapAsm_arg hebp hd hi
    rw [← harg, ← hr]
    exact handler_arg e (f q) ret _ r
  · obtain ⟨heax, hother⟩ := h.reg
    have hargs : ∀ q', dispatch ((trapAsm q number c).reg .eax) = some q' → q' = q := by
      intro q' hq'
      rw [trapAsm_eax, hq] at hq'
      exact (Option.some.inj hq').symm
    have hle : ∀ r, 3 ≤ slot r →
        ∀ q', dispatch ((trapAsm q number c).reg .eax) = some q' → q'.args ≤ slot r := by
      intro r hr q' hq'
      rw [hargs q' hq']
      refine Nat.le_trans ?_ hr
      cases q <;> decide
    have hesp : c'.reg .esp = c.reg .esp - 4 :=
      (hother .esp (by decide) (hle .esp (by decide))).trans trapAsm_esp
    refine ⟨?_, fun r hr => ?_⟩
    · unfold popl
      rw [setReg_ne _ _ (by decide), setReg_ne _ _ (by decide), heax]
    · by_cases hbx : r = .ebx
      · subst hbx
        unfold popl
        rw [setReg_self, hesp]
        exact hkept
      · unfold popl
        rw [setReg_ne _ _ hbx]
        by_cases hsp : r = .esp
        · subst hsp
          rw [setReg_self, hesp]
          exact BitVec.sub_add_cancel ..
        · rw [setReg_ne _ _ hsp]
          have hr' : r = .esi ∨ r = .edi ∨ r = .ebp := by
            revert hr hbx hsp
            cases r <;> decide
          obtain rfl | rfl | rfl := hr' <;>
            exact (hother _ (by decide) (hle _ (by decide))).trans
              (trapAsm_other (by decide) (by decide) (by decide))

/-! ## the word of `pushl %ebx` -/

/-- the processor sees the memory of the running process at the user addresses -/
def Views (s : State) (c : Cpu) : Prop := ∀ a : DWord, UserAddr a.toNat → c.mem a = byteAt s a.toNat

theorem loadArgs_mem : (loadArgs rs off c).mem = c.mem := by
  induction rs generalizing off c with
  | nil => rfl
  | cons r rs ih => rw [loadArgs, ih, setReg_mem]

theorem trapAsm_mem : (trapAsm q number c).mem = (pushl (c.reg .ebx) c).mem := by
  unfold trapAsm
  dsimp only
  rw [setReg_mem, loadArgs_mem]

/-- `sys_write` leaves every word of the user stack alone. -/
theorem write_keeps {s s' : State} {fd size v : Int} {buffer : DWord}
    (hw : sysWrite fd buffer size s = .ok (v, s')) (hv : Views s (writeAsm c)) (hv' : Views s' c')
    (hesp : ∀ i, i < 4 → UserAddr (c.reg .esp - 4 + BitVec.ofNat 32 i).toNat) :
    c'.mem.dword (c.reg .esp - 4) = c.reg .ebx := by
  have hun := (sysWrite_serviced hw).unmoved
  have hmem := (sysWrite_text hw).2.2.2
  have hsame : ∀ a, byteAt s' a = byteAt s a := by
    intro a
    unfold byteAt
    rw [hmem, hun.kept.mm, hun.cr3]
  have hword : c'.mem.dword (c.reg .esp - 4) = (writeAsm c).mem.dword (c.reg .esp - 4) := by
    refine Mem.dword_congr fun i hi => ?_
    rw [hv' _ (hesp i hi), hsame, hv _ (hesp i hi)]
  rw [hword, writeAsm, trapAsm_mem, ← pushl_esp (c.reg .ebx) c]
  exact pushl_top ..

/-- **The wrappers hand their arguments over, and give the registers back.**  That `%ebx` comes back
needs the word that they push for it: `sys_write` does not touch it, and `sys_get_stats` does if the
record lies over it. -/
theorem wrappers_transparent (e : Entry) (f : Routine → DWord) (ret : DWord) (c : Cpu) :
    (∀ d : Nat, c.reg .ebp = c.reg .esp + BitVec.ofNat 32 d → d + 40 ≤ 2 ^ 32 →
      Transparent e f ret .sysWrite 4 c ∧ Transparent e f ret .sysGetStats 35 c ∧
      ∀ s s' fd size v buffer x c', SystemCall e f ret (writeAsm c) x c' →
        sysWrite fd buffer size s = .ok (v, s') → Views s (writeAsm c) → Views s' c' →
        (∀ i, i < 4 → UserAddr (c.reg .esp - 4 + BitVec.ofNat 32 i).toNat) → GivesBack c x c') ∧
    ∀ number ∈ ([2, 10, 20] : List DWord), ∀ x c', SystemCall e f ret (plainAsm number c) x c' →
      c'.reg .eax = x ∧ ∀ r, r ≠ .eax → c'.reg r = r.fit (c.reg r) := by
  refine ⟨fun d hebp hd => ?_, fun number hn x c' h => ?_⟩
  · have hwrite : Transparent e f ret .sysWrite 4 c := wrapper_transparent e f ret rfl hebp hd
    refine ⟨hwrite, wrapper_transparent e f ret rfl hebp hd, ?_⟩
    intro s s' fd size v buffer x c' h hw hv hv' hesp
    exact hwrite.saved x c' h (write_keeps hw hv hv' hesp)
  · obtain ⟨heax, hother⟩ := h.reg
    have hargs : ∀ q, dispatch ((plainAsm number c).reg .eax) = some q → q.args = 0 := by
      intro q hq
      rw [plainAsm, setReg_self] at hq
      simp only [List.mem_cons, List.not_mem_nil, or_false] at hn
      obtain rfl | rfl | rfl := hn <;> cases hq <;> rfl
    refine ⟨heax, fun r hr => ?_⟩
    rw [hother r hr fun q hq => hargs q hq ▸ Nat.zero_le _, plainAsm, setReg_ne _ _ hr]

end

/-! ## the C functions -/

namespace Libc

/-- the result of a call and the value of `errno` behind it -/
structure Answer where
  result : Int
  errno : Int
  deriving DecidableEq

def abs (a : Int) : Int := if a < 0 then int32 (-a) else a

/-- `if (e < 0) { errno = abs(e); return -1; } return result;` -/
def answer (e result errno : Int) : Answer :=
  if e < 0 then ⟨-1, abs e⟩ else ⟨result, errno⟩

def write (fd : Int) (buffer : DWord) (size errno : Int) (s : State) :
    Except State (Answer × State) :=
  (sysWrite fd buffer size s).map fun (e, s) => (answer e e errno, s)

def gettime (errno : Int) (s : State) : Answer × State :=
  let (e, s) := sysGettime s
  (answer e 0 errno, s)

def getpid (s : State) : Int × State := sysGetpid s

/-- `errno = EAGAIN`, whatever the error is, and the error itself is returned -/
def fork (errno : Int) (s : State) : Except State (Answer × State) :=
  (sysFork s).map fun (pidChild, s) => (⟨pidChild, if pidChild < 0 then eagain else errno⟩, s)

def getStats (pid : Int) (st : DWord) (errno : Int) (s : State) : Except State (Answer × State) :=
  (sysGetStats pid st s).map fun (e, s) => (answer e 0 errno, s)

/-- the text and the length that `perror` gives to `write` -/
def perror (errno : Int) : Option (List Byte × Nat) :=
  if errno = einval then some (ascii "size invalid\n", 13)
  else if errno = ebadf then some (ascii "error fd\n", 6)
  else if errno = eacces then some (ascii "permision denied\n", 17)
  else if errno = efault then some (ascii "buffer apunta a NULL\n", 17)
  else if errno = 4 then some (ascii "error al gettime()\n", 19)
  else if errno = 38 then some (ascii "not implemented\n", 16)
  else none

theorem answer_neg {e : Int} (h : e < 0) (h' : -2147483648 < e) (result errno : Int) :
    answer e result errno = ⟨-1, -e⟩ := by
  unfold answer abs
  rw [if_pos h, if_pos h, int32_eq (by omega) (by omega)]

theorem answer_nonneg {e : Int} (h : 0 ≤ e) (result errno : Int) :
    answer e result errno = ⟨result, errno⟩ := if_neg (by omega)

/-- `perror` prints a whole line for these only: two texts are cut, and the other errors have
none -/
theorem perror_whole_iff (errno : Int) :
    (∃ text, perror errno = some (text, text.length)) ↔ errno ∈ [einval, eacces, 4, 38] := by
  unfold perror
  simp only [List.mem_cons, List.not_mem_nil, or_false]
  split_ifs <;> simp_all [ascii]

end Libc

end Zeos
