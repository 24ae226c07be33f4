import ZeroOS.Zeos.Wrappers

/-!
# Zeos: what a step does to memory, to the screen and to the clock

* `Muted`, `Quiet`   the screen and the clock, and memory too, are what they were;
* `step_effect`      the screen changes in `sys_write`, the clock in its interrupt;
* `OwnText`          a write whose buffer is in user memory, or that is refused;
* `run_transcript`   **the screen shows the texts of the writes, and the clock counts its interrupts**;
* `libc_errors`      **what a program learns about an error**.
-/

set_option linter.unusedVariables false

namespace Zeos
open Programs Rings Runs

structure Muted (s s' : State) : Prop where
  out : s'.out = s.out
  zeosTicks : s'.zeosTicks = s.zeosTicks

structure Quiet (s s' : State) : Prop extends Muted s s' where
  mem : s'.mem = s.mem

section
variable (s : State) (t : Task) (x : TaskStruct) (h : Heap ListHead) (m : Mm) (b : Nat → Byte)
  (f : DWord → TaskStruct → TaskStruct)

@[simp] theorem setTask_out : (s.setTask t x).out = s.out := rfl
@[simp] theorem setLinks_out : (s.setLinks h).out = s.out := rfl
@[simp] theorem setMm_out : (s.setMm m).out = s.out := rfl
@[simp] theorem account_out : (s.account t f).out = s.out := rfl

@[simp] theorem setTask_zeosTicks : (s.setTask t x).zeosTicks = s.zeosTicks := rfl
@[simp] theorem setLinks_zeosTicks : (s.setLinks h).zeosTicks = s.zeosTicks := rfl
@[simp] theorem setMm_zeosTicks : (s.setMm m).zeosTicks = s.zeosTicks := rfl
@[simp] theorem account_zeosTicks : (s.account t f).zeosTicks = s.zeosTicks := rfl

end

theorem Muted.refl (s : State) : Muted s s := ⟨rfl, rfl⟩

theorem Muted.trans {a b c : State} (h : Muted a b) (h' : Muted b c) : Muted a c :=
  ⟨h'.out.trans h.out, h'.zeosTicks.trans h.zeosTicks⟩

theorem Quiet.trans {a b c : State} (h : Quiet a b) (h' : Quiet b c) : Quiet a c :=
  ⟨h.toMuted.trans h'.toMuted, h'.mem.trans h.mem⟩

section
variable {s s' : State}

/-! ## scheduling -/

theorem Quiet.schedNextRr (h : Quiet s s') (k : Resume) : Quiet s (schedNextRr k s') := by
  refine h.trans ?_
  unfold Zeos.schedNextRr
  dsimp only
  split
  · exact ⟨⟨rfl, rfl⟩, rfl⟩
  · exact ⟨⟨rfl, rfl⟩, rfl⟩

theorem blockProcess_quiet (c : Caller) (q : Queue) (s : State) :
    Quiet s (blockProcess c q s) := by
  unfold blockProcess
  dsimp only
  apply Quiet.schedNextRr
  exact ⟨⟨rfl, rfl⟩, rfl⟩

theorem unblockProcess_quiet (c : Caller) (t : Task) (s : State) :
    Quiet s (unblockProcess c t s) := by
  unfold unblockProcess
  dsimp only
  split
  · apply Quiet.schedNextRr
    exact ⟨⟨rfl, rfl⟩, rfl⟩
  · exact ⟨⟨rfl, rfl⟩, rfl⟩

theorem sysExit_quiet (s : State) : Quiet s (sysExit s) := by
  unfold sysExit
  dsimp only
  apply Quiet.schedNextRr
  exact ⟨⟨rfl, rfl⟩, rfl⟩

theorem clockReturn_quiet (s : State) : Quiet s (clockReturn s) := by
  unfold clockReturn
  dsimp only
  split
  · split
    · apply Quiet.schedNextRr
      exact ⟨⟨rfl, rfl⟩, rfl⟩
    · apply Quiet.schedNextRr
      exact ⟨⟨rfl, rfl⟩, rfl⟩
  · exact ⟨⟨rfl, rfl⟩, rfl⟩

theorem consoleReturn_quiet (c : Caller) (s : State) : Quiet s (consoleReturn c s) := by
  cases c with
  | clockRoutine => exact clockReturn_quiet s
  | sysRead => exact ⟨⟨rfl, rfl⟩, rfl⟩

theorem resume_quiet (s : State) : Quiet s (resume s) := by
  unfold resume
  split <;> exact ⟨⟨rfl, rfl⟩, rfl⟩

/-! ## system calls -/

theorem kernelStore_muted {a : Nat} {b : Byte} (h : kernelStore a b s = .ok s') : Muted s s' := by
  unfold kernelStore at h
  cases hx : mmu s (a % 2 ^ 32) with
  | none =>
    rw [hx] at h
    cases h
  | some x =>
    rw [hx] at h
    cases h
    exact ⟨rfl, rfl⟩

theorem copyToUser_muted {obj : Nat → Byte} {p q : Nat} {n : Int}
    (h : copyToUser (toUserBus obj) p q n s = .ok s') : Muted s s' := by
  refine copyLoop_keeps (I := Muted s) ?_ ?_ (.refl s) h
  · intro a s₁ b s₂ hI hr
    cases hr
    exact hI
  · intro a b s₁ s₂ hI hr
    have hd : Muted s₁ (s₁.deref (a % 2 ^ 32)) := ⟨rfl, rfl⟩
    exact (hI.trans hd).trans (kernelStore_muted hr)

theorem copyData_muted {p q : Nat} {n : Int} (h : copyData kernelBus p q n s = .ok s') :
    Muted s s' := by
  refine copyLoop_keeps (I := Muted s) ?_ ?_ (.refl s) h
  · intro a s₁ b s₂ hI hr
    rw [kernelLoad_eq hr]
    exact hI
  · intro a b s₁ s₂ hI hr
    exact hI.trans (kernelStore_muted hr)

/-- the error that `sys_get_stats` returns before it copies anything -/
inductive StatsError (s : State) (pid : Int) (st : DWord) : Int → Prop where
  | einval : pid < 0 → StatsError s pid st (-Zeos.einval)
  | efault : 0 ≤ pid → StatsRefused st → StatsError s pid st (-Zeos.efault)
  | esrch : 0 ≤ pid → ¬ StatsRefused st → (∀ t, (s.task t).pid ≠ pid) →
      StatsError s pid st (-Zeos.esrch)

/-- how a `sys_get_stats` returns: with an error, or with 0 and a copy between two accounting
updates or behind both -/
inductive StatsCall (s : State) (pid : Int) (st : DWord) : Int → State → Prop where
  | error {e : Int} {s' : State} : StatsError s pid st e → Quiet s s' → StatsCall s pid st e s'
  | copied {obj : Nat → Byte} {w w' s' : State} (t : Task) : 0 ≤ pid → ¬ StatsRefused st →
      (s.task t).pid = pid → Quiet s w → w.mm = s.mm → w.cr3 = s.cr3 →
      copyToUser (toUserBus obj) 0 st.toNat sizeofStats w = .ok w' → Quiet w' s' →
      StatsCall s pid st 0 s'

theorem user2kernel_quiet (s : State) : Quiet s (actTicksUser2kernel s) := ⟨⟨rfl, rfl⟩, rfl⟩

theorem kernel2user_quiet (s : State) : Quiet s (actTicksKernel2user s) := ⟨⟨rfl, rfl⟩, rfl⟩

/-- what the loop of `getStatPID` finds, where `w` has the PIDs of `s` -/
theorem find_pid_some {w : State} {pid : Int} {t : Task}
    (hpid : ∀ t, (w.task t).pid = (s.task t).pid)
    (h : (List.finRange nrTasks).find? (fun i => (w.task i).pid = pid) = some t) :
    (s.task t).pid = pid := by
  have ht := List.find?_some h
  rwa [decide_eq_true_iff, hpid] at ht

theorem find_pid_none {w : State} {pid : Int} (hpid : ∀ t, (w.task t).pid = (s.task t).pid)
    (h : (List.finRange nrTasks).find? (fun i => (w.task i).pid = pid) = none) (t : Task) :
    (s.task t).pid ≠ pid := by
  have hno := List.find?_eq_none.mp h t (List.mem_finRange t)
  rwa [decide_eq_true_iff, hpid] at hno

theorem sysGetStats_cases {pid r : Int} {st : DWord} (h : sysGetStats pid st s = .ok (r, s')) :
    StatsCall s pid st r s' := by
  have hq := user2kernel_quiet s
  have hpid := user2kernel_pid s
  generalize hw : actTicksUser2kernel s = w at hq hpid
  have hmm : w.mm = s.mm := hw ▸ rfl
  have hcr3 : w.cr3 = s.cr3 := hw ▸ rfl
  unfold sysGetStats at h
  rw [hw] at h
  dsimp only at h
  by_cases h1 : pid < 0
  · rw [if_pos h1] at h
    cases h
    exact .error (.einval h1) (hq.trans (kernel2user_quiet w))
  rw [if_neg h1] at h
  by_cases h2 : StatsRefused st
  · rw [if_pos h2] at h
    cases h
    exact .error (.efault (by omega) h2) (hq.trans (kernel2user_quiet w))
  rw [if_neg h2] at h
  by_cases h3 : (w.task w.current).pid = pid
  · rw [if_pos h3] at h
    obtain ⟨w', hcopy, he⟩ := map_eq_ok.mp h
    cases he
    have hq' := hq.trans (kernel2user_quiet w)
    exact .copied w.current (by omega) h2 ((hpid _).symm.trans h3) hq' hmm hcr3 hcopy
      ⟨.refl _, rfl⟩
  · rw [if_neg h3] at h
    unfold getStatPID at h
    cases hf : (List.finRange nrTasks).find? fun i => (w.task i).pid = pid with
    | none =>
      rw [hf] at h
      cases h
      exact .error (.esrch (by omega) h2 (find_pid_none hpid hf)) (hq.trans (kernel2user_quiet w))
    | some t =>
      have ht := find_pid_some hpid hf
      rw [hf] at h
      cases hcopy : copyToUser (toUserBus (w.task t).statics.bytes) 0 st.toNat sizeofStats w with
      | error e =>
        dsimp only at h
        rw [hcopy] at h
        cases h
      | ok w' =>
        dsimp only at h
        rw [hcopy] at h
        cases h
        exact .copied t (by omega) h2 ht hq hmm hcr3 hcopy (kernel2user_quiet w')

theorem StatsCall.muted {pid r : Int} {st : DWord} (h : StatsCall s pid st r s') :
    Muted s s' := by
  cases h with
  | error _ h => exact h.toMuted
  | copied t _ _ _ hq _ _ hcopy hq' =>
    exact (hq.toMuted.trans (copyToUser_muted hcopy)).trans hq'.toMuted

theorem forkDone_muted (parent child pp : Task) (w : State) :
    Muted w (forkDone parent child pp w).2 := by
  constructor
  · simp only [forkDone, startChild, setIniStats, actTicksKernel2user, actTicks, account_out,
      setLinks_out, setTask_out, setMm_out]
  · simp only [forkDone, startChild, setIniStats, actTicksKernel2user, actTicks, account_zeosTicks,
      setLinks_zeosTicks, setTask_zeosTicks, setMm_zeosTicks]

theorem takeFirst_muted (q : Queue) (s : State) : Muted s (takeFirst q s).2 := by
  constructor
  · simp only [takeFirst, setLinks_out]
  · simp only [takeFirst, setLinks_zeosTicks]

theorem copyPCB_muted (parent child : Task) (s : State) : Muted s (copyPCB parent child s) := by
  constructor
  · simp only [copyPCB, setLinks_out, setTask_out]
  · simp only [copyPCB, setLinks_zeosTicks, setTask_zeosTicks]

theorem forkSpace_muted {parent child : Task} {r : Int}
    (h : forkSpace parent child s = .ok (r, s')) : Muted s s' := by
  cases hf : allocChildFrames numPagData []
      (mapCode (getPT s parent) (s.mm.dirPages child) s.mm) with
  | error mm =>
    rw [forkSpace_error hf] at h
    cases h
    exact ⟨rfl, rfl⟩
  | ok x =>
    obtain ⟨fs, mm⟩ := x
    rw [forkSpace_ok hf] at h
    generalize hw : (allocateDIR child s).2.setMm
      (mapData (getPT s parent) (s.mm.dirPages child) fs mm) = w at h
    have hm : Muted s w := hw ▸ ⟨rfl, rfl⟩
    cases hcopy : copyData kernelBus dirIni dirDest (numPagData * pageSize) w with
    | error e =>
      rw [hcopy] at h
      cases h
    | ok w' =>
      rw [hcopy] at h
      have he := congrArg Prod.snd (Except.ok.inj h)
      have hd := forkDone_muted parent child (getPT s parent) w'
      rw [show s' = _ from he.symm]
      exact (hm.trans (copyData_muted hcopy)).trans hd

theorem sysFork_muted {r : Int} (h : sysFork s = .ok (r, s')) : Muted s s' := by
  unfold sysFork at h
  dsimp only at h
  by_cases he : listEmpty (actTicksUser2kernel s).links (.queue .freequeue)
  · rw [if_pos he] at h
    cases h
    exact ⟨rfl, rfl⟩
  · rw [if_neg he] at h
    have h1 := (user2kernel_quiet s).toMuted.trans (takeFirst_muted .freequeue _)
    exact (h1.trans (copyPCB_muted _ _ _)).trans (forkSpace_muted h)

/-! ## steps -/

/-- what an event prints -/
def printed (s : State) : Event → List Byte
  | .write fd buffer size => writeText s fd buffer size
  | _ => []

/-- what a step does to the screen and to the clock -/
theorem step_effect {e : Event} (h : step s e = some s') : s'.out = s.out ++ printed s e ∧
    s'.zeosTicks = if e = .clock then int32 (s.zeosTicks + 1) else s.zeosTicks := by
  have hmuted : ∀ {e : Event} {s' : State}, printed s e = [] → e ≠ .clock → Muted s s' →
      s'.out = s.out ++ printed s e ∧
        s'.zeosTicks = if e = .clock then int32 (s.zeosTicks + 1) else s.zeosTicks := by
    intro e s' hp hc hm
    rw [hp, List.append_nil, if_neg hc]
    exact ⟨hm.out, hm.zeosTicks⟩
  cases e with
  | fork =>
    obtain ⟨-, h⟩ := guarded_eq_some h
    obtain ⟨r, hr⟩ := returned_eq_some.mp h
    exact hmuted rfl (by decide) (sysFork_muted hr)
  | exit =>
    obtain ⟨-, h⟩ := guarded_eq_some h
    cases h
    exact hmuted rfl (by decide) (sysExit_quiet s).toMuted
  | write fd buffer size =>
    obtain ⟨-, h⟩ := guarded_eq_some h
    obtain ⟨r, hr⟩ := returned_eq_some.mp h
    obtain ⟨-, hout, hticks, -⟩ := sysWrite_text hr
    rw [if_neg (by simp)]
    exact ⟨hout, hticks⟩
  | gettime =>
    obtain ⟨-, h⟩ := guarded_eq_some h
    cases h
    exact hmuted rfl (by decide) ⟨rfl, rfl⟩
  | getpid =>
    obtain ⟨-, h⟩ := guarded_eq_some h
    cases h
    exact hmuted rfl (by decide) ⟨rfl, rfl⟩
  | getStats pid st =>
    obtain ⟨-, h⟩ := guarded_eq_some h
    obtain ⟨r, hr⟩ := returned_eq_some.mp h
    exact hmuted rfl (by simp) (sysGetStats_cases hr).muted
  | read =>
    obtain ⟨-, h⟩ := guarded_eq_some h
    cases h
    exact hmuted rfl (by decide) ⟨rfl, rfl⟩
  | store a b =>
    obtain ⟨-, h⟩ := guarded_eq_some h
    obtain ⟨x, -, rfl⟩ := Option.map_eq_some_iff.mp h
    exact hmuted rfl (by simp) ⟨rfl, rfl⟩
  | clock =>
    obtain ⟨-, h⟩ := guarded_eq_some h
    cases h
    exact ⟨(List.append_nil _).symm, rfl⟩
  | block i =>
    cases step_cases h with
    | service he => cases he
    | block c i hc hne => exact hmuted rfl (by simp) (blockProcess_quiet c _ s).toMuted
  | unblock i t =>
    cases step_cases h with
    | service he => cases he
    | unblock c i t hc ht => exact hmuted rfl (by simp) (unblockProcess_quiet c t s).toMuted
  | ret =>
    cases step_cases h with
    | service he => cases he
    | ret c hc => exact hmuted rfl (by simp) (consoleReturn_quiet c s).toMuted
  | resume =>
    obtain ⟨-, rfl⟩ := step_resume h
    exact hmuted rfl (by decide) (resume_quiet s).toMuted

/-! ## runs -/

theorem step_clock (h : s.control = .user) : step s .clock = some (clockEnter s) := if_pos h

/-- a write that returns, and the processor is still the program's -/
theorem UserBuffer.step {fd size : Int} {buffer : DWord} (h : UserBuffer s fd buffer size)
    (hu : inUser s) : ∃ s', Zeos.step s (.write fd buffer size) = some s' ∧ s'.control = .user := by
  obtain ⟨w, hr, hp⟩ := h.writes
  refine ⟨actTicksKernel2user w, ?_, ?_⟩
  · unfold Zeos.step
    dsimp only
    rw [if_pos hu, hr]
    rfl
  · obtain ⟨d, rfl⟩ := hp
    exact hu.1

/-- what the wrappers of `libc.c` tell the program that runs -/
structure LibcErrors (s : State) (errno : Int) : Prop where
  write : ∀ fd buffer size a s', Libc.write fd buffer size errno s = .ok (a, s') →
    (UserBuffer s fd buffer size → s'.out = s.out ++ writeText s fd buffer size) ∧
    a = if fd ≠ 1 then ⟨-1, ebadf⟩ else if buffer = 0 then ⟨-1, efault⟩
      else if size < 0 then ⟨-1, einval⟩ else ⟨size, errno⟩
  getStats : ∀ pid st a s', Libc.getStats pid st errno s = .ok (a, s') →
    a = if pid < 0 then ⟨-1, einval⟩ else if StatsRefused st then ⟨-1, efault⟩
      else if ∀ t, (s.task t).pid ≠ pid then ⟨-1, esrch⟩ else ⟨0, errno⟩
  fork : ∃ a s', Libc.fork errno s = .ok (a, s') ∧ (a.result < 0 → a.errno = eagain) ∧
    if alive s < nrTasks - 1 then
      (0 ≤ a.result → a.errno = errno) ∧
        ∃ child, ¬ live s child ∧ live s' child ∧ a.result = (s'.task child).pid
    else a = ⟨-eagain, eagain⟩

/-- **What a program learns about an error.**  `write` and `get_stats` return -1 and leave the
kernel's code in `errno`, `fork` returns the code itself; in a reachable state the only error of a
fork is EAGAIN.  `errno` is kept where the result is not negative. -/
theorem libc_errors (mem : Nat → Byte) (tsc : Nat → DWord)
    (hr : Reachable step (boot mem tsc) s) (hu : inUser s) (errno : Int) : LibcErrors s errno := by
  refine ⟨fun fd buffer size a s' h => ?_, fun pid st a s' h => ?_, ?_⟩
  · obtain ⟨⟨r, w⟩, hw, he⟩ := map_eq_ok.mp h
    obtain ⟨rfl, rfl⟩ := Prod.mk.inj he
    obtain ⟨rfl, hout, -, -⟩ := sysWrite_text hw
    refine ⟨fun _ => hout, ?_⟩
    unfold writeAnswer
    by_cases h1 : fd ≠ 1
    · rw [if_pos h1, if_pos h1]
      exact Libc.answer_neg (by decide) (by decide) _ _
    by_cases h2 : buffer = 0
    · rw [if_neg h1, if_pos h2, if_neg h1, if_pos h2]
      exact Libc.answer_neg (by decide) (by decide) _ _
    by_cases h3 : size < 0
    · rw [if_neg h1, if_neg h2, if_pos h3, if_neg h1, if_neg h2, if_pos h3]
      exact Libc.answer_neg (by decide) (by decide) _ _
    · rw [if_neg h1, if_neg h2, if_neg h3, if_neg h1, if_neg h2, if_neg h3]
      exact Libc.answer_nonneg (by omega) _ _
  · obtain ⟨⟨r, w⟩, hw, he⟩ := map_eq_ok.mp h
    obtain ⟨rfl, rfl⟩ := Prod.mk.inj he
    cases sysGetStats_cases hw with
    | error herr _ =>
      cases herr with
      | einval h1 =>
        rw [if_pos h1]
        exact Libc.answer_neg (by decide) (by decide) _ _
      | efault h1 h2 =>
        rw [if_neg (by omega), if_pos h2]
        exact Libc.answer_neg (by decide) (by decide) _ _
      | esrch h1 h2 h3 =>
        rw [if_neg (by omega), if_neg h2, if_pos h3]
        exact Libc.answer_neg (by decide) (by decide) _ _
    | copied t h1 h2 h3 =>
      rw [if_neg (by omega), if_neg h2, if_neg fun hno => hno t h3]
      rfl
  · have hi := reachable_inv mem tsc hr
    rcases hi.fork_cases hu with ⟨hq, hf⟩ | ⟨child, rest, fs, s', hq, -, -, hsp, hf⟩
    · have hfull : ¬ alive s < nrTasks - 1 := fun hlt => hi.alive_lt_iff.mp hlt hq
      refine ⟨_, _, map_eq_ok.mpr ⟨_, hf, rfl⟩, fun _ => rfl, ?_⟩
      rw [if_neg hfull]
      rfl
    · have hlt : alive s < nrTasks - 1 :=
        hi.alive_lt_iff.mpr (hq ▸ List.cons_ne_nil child rest)
      have hc : child ∈ queue s .freequeue := hq ▸ List.mem_cons_self
      refine ⟨_, _, map_eq_ok.mpr ⟨_, hf, rfl⟩, fun hneg => if_pos hneg, ?_⟩
      rw [if_pos hlt]
      refine ⟨fun hpos => if_neg (not_lt.mpr hpos), child, fun hl => hl.2 hc, ?_, ?_⟩
      · rw [hsp.live_iff hi hc]
        exact Or.inr rfl
      · rw [hsp.task, if_pos rfl]
        rfl

theorem libc_errors_boot : inUser (boot (fun _ => 0) fun _ => 0) ∧
    LibcErrors (boot (fun _ => 0) fun _ => 0) 0 :=
  ⟨boot_inUser _ _, libc_errors (fun _ => 0) (fun _ => 0) .init (boot_inUser _ _) 0⟩

end
end Zeos
