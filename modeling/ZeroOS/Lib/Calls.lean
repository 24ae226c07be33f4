import ZeroOS.Lib.X86

/-!
# Calls and interrupts of the 32-bit x86

What `pushl`, `call` and the processor put on a stack, and what a C function leaves there.

* `pushl`, `pushAll`      values on the stack; `pushAll_pushed` says where they are;
* `Entry.enter`           an interrupt gate taken from an outer privilege level;
* `Entry.enterSame`, `iretSame`   the gate and the return at the same level;
* `call`, `Returned`      a call, and what its caller may rely on when the function has returned;
* `Pushed.append`, `Returned.caller`   the frame of several pushes, and what a call leaves of it.
-/

set_option linter.unusedVariables false

namespace X86

/-! ## pushes -/

def pushl (x : DWord) (c : Cpu) : Cpu :=
  { c.setReg .esp (c.reg .esp - 4) with mem := c.mem.setDword (c.reg .esp - 4) x }

/-- `xs` is pushed, its head last -/
def pushAll (xs : List DWord) (c : Cpu) : Cpu := xs.foldr pushl c

/-- `xs` stands on the stack, its head on the top, and nothing else has changed -/
structure Pushed (xs : List DWord) (c c' : Cpu) : Prop where
  esp : c'.reg .esp + BitVec.ofNat 32 (4 * xs.length) = c.reg .esp
  word : ∀ i x, xs[i]? = some x → c'.mem.dword (c'.reg .esp + BitVec.ofNat 32 (4 * i)) = x
  above : ∀ k, 4 * xs.length + k + 4 ≤ 2 ^ 32 →
    c'.mem.dword (c.reg .esp + BitVec.ofNat 32 k) = c.mem.dword (c.reg .esp + BitVec.ofNat 32 k)
  other : ∀ r, r ≠ .esp → c'.reg r = c.reg r

section
variable {c c' c'' : Cpu} {x : DWord} {xs ys : List DWord} {r : Reg} {n m i k : Nat}

theorem pushl_esp (x : DWord) (c : Cpu) : (pushl x c).reg .esp = c.reg .esp - 4 :=
  setReg_self c .esp (c.reg .esp - 4)

theorem pushl_other (x : DWord) (c : Cpu) (h : r ≠ .esp) : (pushl x c).reg r = c.reg r :=
  setReg_ne _ _ h

/-- the dword pushed is the one on the top -/
theorem pushl_top (x : DWord) (c : Cpu) : (pushl x c).mem.dword ((pushl x c).reg .esp) = x := by
  rw [pushl_esp]
  exact Mem.dword_setDword ..

/-- a push changes no dword above -/
theorem pushl_above (x : DWord) (c : Cpu) (h : k + 8 ≤ 2 ^ 32) :
    (pushl x c).mem.dword (c.reg .esp + BitVec.ofNat 32 k) =
      c.mem.dword (c.reg .esp + BitVec.ofNat 32 k) := by
  apply Mem.dword_setDword_of_apart
  have hk : (BitVec.ofNat 32 k).toNat = k := by
    rw [BitVec.toNat_ofNat]
    omega
  generalize BitVec.ofNat 32 k = d at hk
  generalize c.reg .esp = a
  constructor <;> bv_omega

theorem pushAll_pushed (xs : List DWord) (h : 4 * xs.length ≤ 2 ^ 32) (c : Cpu) :
    Pushed xs c (pushAll xs c) := by
  induction xs with
  | nil =>
    refine ⟨BitVec.add_zero _, fun i y hy => ?_, fun _ _ => rfl, fun _ _ => rfl⟩
    rw [List.getElem?_nil] at hy
    cases hy
  | cons x xs ih =>
    rw [List.length_cons] at h
    obtain ⟨h1, h2, h3, h4⟩ := ih (by omega)
    have hcons : pushAll (x :: xs) c = pushl x (pushAll xs c) := rfl
    rw [hcons]
    generalize pushAll xs c = c₁ at h1 h2 h3 h4
    -- the dword `i` of the longer frame is the dword `i - 1` of the shorter one
    have hadd : ∀ i, (pushl x c₁).reg .esp + BitVec.ofNat 32 (4 * (i + 1)) =
        c₁.reg .esp + BitVec.ofNat 32 (4 * i) := by
      intro i
      rw [pushl_esp, Nat.mul_succ, Nat.add_comm, BitVec.ofNat_add, ← BitVec.add_assoc]
      exact congrArg (· + _) (BitVec.sub_add_cancel ..)
    refine ⟨?_, fun i y hy => ?_, fun k hk => ?_, fun r hr => ?_⟩
    · rw [List.length_cons, hadd, h1]
    · cases i with
      | zero =>
        rw [List.getElem?_cons_zero, Option.some.injEq] at hy
        rw [Nat.mul_zero, BitVec.add_zero, ← hy]
        exact pushl_top ..
      | succ i =>
        rw [List.getElem?_cons_succ] at hy
        obtain ⟨hi, -⟩ := List.getElem?_eq_some_iff.mp hy
        rw [hadd, pushl_above x c₁ (by omega), h2 i y hy]
    · rw [List.length_cons] at hk
      rw [← h3 k (by omega), ← h1, BitVec.add_assoc, ← BitVec.ofNat_add]
      exact pushl_above x c₁ (by omega)
    · rw [pushl_other x c₁ hr, h4 r hr]

theorem pushAll_regs {rs : List Reg} (h : 4 * rs.length ≤ 2 ^ 32) (f : Reg → DWord) (c : Cpu) :
    Pushed (rs.map f) c (pushAll (rs.map f) c) := by
  apply pushAll_pushed
  rwa [List.length_map]

/-- Pushes on top of pushes.  Between them only registers have changed: `c₁` is `c'` with others. -/
theorem Pushed.append {c₁ : Cpu} (h : Pushed ys c c') (hm : c₁.mem = c'.mem)
    (he : c₁.reg .esp = c'.reg .esp) (h' : Pushed xs c₁ c'') (hn : 4 * (xs ++ ys).length ≤ 2 ^ 32)
    (hx : (xs ++ ys)[i]? = some x) :
    c''.mem.dword (c''.reg .esp + BitVec.ofNat 32 (4 * i)) = x := by
  obtain ⟨hi, -⟩ := List.getElem?_eq_some_iff.mp hx
  rw [List.length_append] at hn hi
  by_cases hlt : i < xs.length
  · rw [List.getElem?_append_left hlt] at hx
    exact h'.word i x hx
  · rw [List.getElem?_append_right (by omega)] at hx
    have e : c''.reg .esp + BitVec.ofNat 32 (4 * i) =
        c₁.reg .esp + BitVec.ofNat 32 (4 * (i - xs.length)) := by
      rw [← h'.esp, BitVec.add_assoc, ← BitVec.ofNat_add]
      congr 2
      omega
    rw [e, h'.above _ (by omega), hm, he]
    exact h.word _ x hx

theorem Pushed.append_esp {c₁ : Cpu} (h : Pushed ys c c') (he : c₁.reg .esp = c'.reg .esp)
    (h' : Pushed xs c₁ c'') :
    c''.reg .esp + BitVec.ofNat 32 (4 * (xs ++ ys).length) = c.reg .esp := by
  rw [← h.esp, ← he, ← h'.esp, List.length_append, Nat.mul_add, BitVec.ofNat_add, BitVec.add_assoc]

end

/-! ## interrupts -/

/-- what the processor loads when it takes an interrupt: the stack of the inner level from the TSS,
and the handler from the gate -/
structure Entry where
  ss : DWord
  esp : DWord
  cs : DWord
  eip : DWord

/-- TF, IF, NT, RF and VM, which an interrupt gate clears -/
def gateFlags : DWord := 0x34300

/-- to the handler of the gate -/
def Entry.jump (e : Entry) (flags : DWord) (c : Cpu) : Cpu :=
  ((c.setReg .cs e.cs).setReg .eip e.eip).setReg .eflags (flags &&& ~~~gateFlags)

/-- from an outer privilege level; `eip` is behind the interrupted instruction -/
def Entry.enter (e : Entry) (c : Cpu) : Cpu :=
  e.jump (c.reg .eflags) (pushAll (iretRegs.map c.reg) ((c.setReg .ss e.ss).setReg .esp e.esp))

/-- what an interrupt pushes at the level of its handler, and what `iret` pops there -/
def sameRegs : List Reg := [.eip, .cs, .eflags]

def Entry.enterSame (e : Entry) (c : Cpu) : Cpu :=
  e.jump (c.reg .eflags) (pushAll (sameRegs.map c.reg) c)

def iretSame (c : Cpu) : Cpu := execAll (sameRegs.map .popl) c

section
variable (e : Entry) (flags : DWord) (c : Cpu) {r : Reg}

theorem Entry.jump_mem : (e.jump flags c).mem = c.mem := rfl

theorem Entry.jump_other (hcs : r ≠ .cs) (heip : r ≠ .eip) (hfl : r ≠ .eflags) :
    (e.jump flags c).reg r = c.reg r := by
  unfold jump
  rw [setReg_ne _ _ hfl, setReg_ne _ _ heip, setReg_ne _ _ hcs]

/-- what the handler of an outer interrupt does not find in its registers is on its stack -/
theorem Entry.enter_other (h : r ∉ iretRegs) : (e.enter c).reg r = c.reg r := by
  simp only [iretRegs, List.mem_cons, List.not_mem_nil, or_false, not_or] at h
  obtain ⟨h1, h2, h3, h4, h5⟩ := h
  unfold enter
  rw [e.jump_other _ _ h2 h1 h3, (pushAll_regs (by decide) c.reg _).other r h4,
    setReg_ne _ _ h4, setReg_ne _ _ h5]

theorem Entry.enterSame_other (h : r ∉ sameRegs) (hesp : r ≠ .esp) :
    (e.enterSame c).reg r = c.reg r := by
  simp only [sameRegs, List.mem_cons, List.not_mem_nil, or_false, not_or] at h
  obtain ⟨h1, h2, h3⟩ := h
  unfold enterSame
  rw [e.jump_other _ _ h2 h1 h3, (pushAll_regs (by decide) c.reg _).other r hesp]

end

/-! ## calls -/

/-- `call f`, with the address behind it -/
def call (f ret : DWord) (c : Cpu) : Cpu := (pushl ret c).setReg .eip f

/-- A C function, entered at `c` behind a `call`, has returned at `c'`.  Of the `m` dwords above its
return address it may have written the first `n`, its arguments. -/
structure Returned (n m : Nat) (c c' : Cpu) : Prop where
  eip : c'.reg .eip = c.mem.dword (c.reg .esp)
  esp : c'.reg .esp = c.reg .esp + 4
  stack : ∀ i, n ≤ i → i < m → c'.mem.dword (c'.reg .esp + BitVec.ofNat 32 (4 * i)) =
    c.mem.dword (c'.reg .esp + BitVec.ofNat 32 (4 * i))

section
variable {n m : Nat} {f ret : DWord} {c c' : Cpu}

theorem call_mem (f ret : DWord) (c : Cpu) : (call f ret c).mem = (pushl ret c).mem := rfl

theorem call_esp (f ret : DWord) (c : Cpu) : (call f ret c).reg .esp = c.reg .esp - 4 := by
  unfold call
  rw [setReg_ne _ _ (by decide), pushl_esp]

/-- the function finds its arguments above the return address -/
theorem call_arg (f ret : DWord) (c : Cpu) {i : Nat} (h : 4 * i + 8 ≤ 2 ^ 32) :
    (call f ret c).mem.dword ((call f ret c).reg .esp + 4 + BitVec.ofNat 32 (4 * i)) =
      c.mem.dword (c.reg .esp + BitVec.ofNat 32 (4 * i)) := by
  rw [call_esp, BitVec.sub_add_cancel]
  exact pushl_above ret c h

/-- a function that only returns -/
theorem returned_ret (n m : Nat) (c : Cpu) : Returned n m c (exec c .ret) := by
  refine ⟨setReg_self .., ?_, fun _ _ _ => rfl⟩
  exact (setReg_ne _ _ (by decide)).trans (setReg_self c .esp (c.reg .esp + 4))

/-- the stack of the caller, behind the call -/
theorem Returned.caller (h : Returned n m (call f ret c) c') :
    c'.reg .eip = ret ∧ c'.reg .esp = c.reg .esp ∧
      ∀ i, n ≤ i → i < m → 4 * i + 8 ≤ 2 ^ 32 →
        c'.mem.dword (c.reg .esp + BitVec.ofNat 32 (4 * i)) =
          c.mem.dword (c.reg .esp + BitVec.ofNat 32 (4 * i)) := by
  have hesp : c'.reg .esp = c.reg .esp := by
    rw [h.esp, call_esp]
    exact BitVec.sub_add_cancel ..
  refine ⟨?_, hesp, fun i hn hm hi => ?_⟩
  · rw [h.eip, call_mem, call_esp, ← pushl_esp ret c]
    exact pushl_top ..
  · have hs := h.stack i hn hm
    rw [hesp] at hs
    rw [hs]
    exact pushl_above ret c hi

end

end X86
