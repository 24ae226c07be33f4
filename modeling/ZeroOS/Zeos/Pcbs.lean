import Mathlib.Tactic.Ring
import ZeroOS.Zeos.Boot

/-!
# Zeos: what a step writes in the PCBs

* `TaskStruct.debt`     the four counters of a PCB, less its timestamp;
* `Audited x y`         `y` is `x` after accounting updates: state, stack and debt are the same;
* `Parked k x y`        `x` was switched away from, and goes on with `k`;
* `blockProcess_task`, `unblock_cases`, `ret_cases`, `resume_task`   the steps that switch.
-/

set_option linter.unusedVariables false

namespace Zeos
open Programs Rings Desks Runs

/-- what the counters of a task have in excess of its timestamp -/
def TaskStruct.debt (x : TaskStruct) : DWord :=
  x.statics.userTicks + x.statics.systemTicks + x.statics.blockedTicks + x.statics.readyTicks -
    x.statics.elapsedTotalTicks

/-- **An update charges the time since the last one to one counter.** -/
@[simp] theorem tick_debt (c : Counter) (now : DWord) (x : TaskStruct) :
    (x.tick c now).debt = x.debt := by
  unfold TaskStruct.debt TaskStruct.tick Stats.charge
  cases c <;> simp only <;> ring

/-- `block_process` forgets the system ticks there were -/
theorem assignSystem_debt (now : DWord) (x : TaskStruct) :
    (x.assignSystem now).debt = x.debt - x.statics.systemTicks := by
  unfold TaskStruct.debt TaskStruct.assignSystem
  simp only
  ring

/-- `set_ini_stats` leaves the ready ticks -/
theorem iniStats_debt (now : DWord) (x : TaskStruct) :
    (x.iniStats now).debt = x.statics.readyTicks - now := by
  unfold TaskStruct.debt TaskStruct.iniStats
  simp only
  ring

structure Audited (x y : TaskStruct) : Prop where
  tState : y.tState = x.tState
  kernelEsp : y.kernelEsp = x.kernelEsp
  debt : y.debt = x.debt

structure Parked (k : Resume) (x y : TaskStruct) : Prop where
  tState : y.tState = .stReady
  kernelEsp : y.kernelEsp = k
  debt : y.debt = x.debt

theorem Audited.refl (x : TaskStruct) : Audited x x := ⟨rfl, rfl, rfl⟩

theorem Audited.trans {x y z : TaskStruct} (h : Audited x y) (h' : Audited y z) : Audited x z :=
  ⟨h'.tState.trans h.tState, h'.kernelEsp.trans h.kernelEsp, h'.debt.trans h.debt⟩

theorem audited_tick (c : Counter) (now : DWord) (x : TaskStruct) : Audited x (x.tick c now) :=
  ⟨rfl, rfl, tick_debt c now x⟩

theorem parked_switchedOut (k : Resume) (now : DWord) (x : TaskStruct) :
    Parked k x (x.switchedOut k now) := ⟨rfl, rfl, tick_debt .system now x⟩

/-- the PCB of a task that `unblock_process` wakes -/
def TaskStruct.woken (now : DWord) (x : TaskStruct) : TaskStruct :=
  { x.tick .blocked now with tState := .stReady }

/-- `act_ticks_ready2kernel` -/
def TaskStruct.switchedIn (now : DWord) (x : TaskStruct) : TaskStruct :=
  let y := x.tick .ready now
  { y with tState := .stRun, statics := { y.statics with totalTrans := y.statics.totalTrans + 1 } }

/-- the rest of the kernel code of the task, after a switch to it -/
def TaskStruct.resumed (now now' : DWord) (x : TaskStruct) : TaskStruct :=
  match x.kernelEsp with
  | .empty | .cpuIdle => x
  | .retFromFork => x.tick .system now
  | .clockRoutine => (x.switchedIn now).tick .system now'
  | .console _ | .sysExit => x.switchedIn now

theorem woken_debt (now : DWord) (x : TaskStruct) : (x.woken now).debt = x.debt :=
  tick_debt .blocked now x

theorem switchedIn_debt (now : DWord) (x : TaskStruct) : (x.switchedIn now).debt = x.debt :=
  tick_debt .ready now x

theorem resumed_debt (now now' : DWord) (x : TaskStruct) : (x.resumed now now').debt = x.debt := by
  unfold TaskStruct.resumed
  split
  · rfl
  · rfl
  · exact tick_debt ..
  · exact (tick_debt ..).trans (switchedIn_debt ..)
  · exact switchedIn_debt ..
  · exact switchedIn_debt ..

section
variable {s s' : State}

/-! ## services -/

theorem actTicks_audited (c : Counter) (t : Task) (s : State) (u : Task) :
    Audited (s.task u) ((actTicks c t s).task u) := by
  unfold actTicks
  rw [account_task]
  by_cases h : u = t
  · rw [if_pos h, h]
    exact audited_tick ..
  · rw [if_neg h]
    exact .refl _

theorem Serviced.audited (h : Serviced s s') (u : Task) : Audited (s.task u) (s'.task u) := by
  induction h with
  | refl => exact .refl _
  | tick c _ ih => exact ih.trans (actTicks_audited ..)
  | passive _ hp ih =>
    rw [hp.eq]
    exact ih

/-! ## switches -/

theorem blockProcess_control (c : Caller) (q : Queue) (s : State) :
    (blockProcess c q s).control = .switched := (schedNextRr_switched ..).control

theorem sysExit_control (s : State) : (sysExit s).control = .switched :=
  (schedNextRr_switched ..).control

theorem blockProcess_task (c : Caller) (q : Queue) (s : State) (u : Task) :
    (blockProcess c q s).task u =
      if u = s.current then
        { (s.task u).assignSystem (getTicks s) with tState := .stBlocked }.switchedOut (.console c)
          (s.tsc (s.reads + 1))
      else s.task u := by
  have hw : ((updateCurrentStateRr q s).account s.current TaskStruct.assignSystem).task u =
      if u = s.current then (s.task s.current).assignSystem (getTicks s) else s.task u :=
    account_task ..
  unfold blockProcess State.setTState
  dsimp only
  rw [(schedNextRr_switched ..).task, State.setTask_task, State.setTask_current, account_current,
    account_task, if_pos rfl, hw]
  have hcur : (updateCurrentStateRr q s).current = s.current := rfl
  rw [hcur]
  by_cases h : u = s.current
  · rw [if_pos h, if_pos h, if_pos h, h]
    rfl
  · rw [if_neg h, if_neg h, if_neg h, if_neg h]

theorem wake_task (t : Task) (s : State) (u : Task) :
    (wake t s).task u = if u = t then (s.task u).woken (getTicks s) else s.task u := by
  unfold wake State.setTState actTicks
  dsimp only
  rw [State.setTask_task, account_task, account_task, if_pos rfl]
  by_cases h : u = t
  · rw [if_pos h, if_pos h, h]
    rfl
  · rw [if_neg h, if_neg h, if_neg h]
    rfl

/-- `unblock_process` wakes the task, and may take the CPU from the current one -/
theorem unblock_cases (c : Caller) {t : Task} (ht : t ≠ s.current) :
    (0 < s.cpuQuantum ∧ (unblockProcess c t s).control = s.control ∧
        (unblockProcess c t s).current = s.current ∧
        ∀ u, (unblockProcess c t s).task u =
          if u = t then (s.task u).woken (getTicks s) else s.task u) ∨
      (s.cpuQuantum ≤ 0 ∧ (unblockProcess c t s).control = .switched ∧
        ∀ u, (unblockProcess c t s).task u =
          if u = t then (s.task u).woken (getTicks s)
          else if u = s.current then (s.task u).switchedOut (.console c) (s.tsc (s.reads + 1))
          else s.task u) := by
  rw [unblockProcess_eq]
  by_cases hq : s.cpuQuantum ≤ 0
  · rw [if_pos hq]
    have hsw := schedNextRr_switched (.console c) (updateCurrentStateRr .readyqueue (wake t s))
    have hcur : (updateCurrentStateRr .readyqueue (wake t s)).current = s.current := rfl
    have hnow : getTicks (updateCurrentStateRr .readyqueue (wake t s)) = s.tsc (s.reads + 1) := rfl
    have htask : (updateCurrentStateRr .readyqueue (wake t s)).task = (wake t s).task := rfl
    refine Or.inr ⟨hq, hsw.control, fun u => ?_⟩
    rw [hsw.task, hcur, hnow, htask, wake_task]
    by_cases h1 : u = t
    · have h2 : u ≠ s.current := fun e => ht (h1.symm.trans e)
      rw [if_neg h2, if_pos h1, if_pos h1]
    · rw [if_neg h1, if_neg h1]
  · rw [if_neg hq]
    exact Or.inl ⟨by omega, rfl, rfl, wake_task t s⟩

/-- the clock interrupt returns with a switch -/
def Expires (s : State) : Prop :=
  s.control = .console .clockRoutine ∧ int32 (s.cpuQuantum - 1) ≤ 0

/-- the console code returns to user code, or `clock_routine` switches -/
theorem ret_cases {c : Caller} (hc : s.control = .console c) :
    (¬ Expires s ∧ (consoleReturn c s).control = .user ∧
        (consoleReturn c s).current = s.current ∧ (consoleReturn c s).links = s.links ∧
        ∀ u, Audited (s.task u) ((consoleReturn c s).task u)) ∨
      (Expires s ∧ (consoleReturn c s).control = .switched ∧
        (∀ u, u ≠ s.current → Audited (s.task u) ((consoleReturn c s).task u)) ∧
        Parked .clockRoutine (s.task s.current) ((consoleReturn c s).task s.current)) := by
  cases c with
  | sysRead =>
    refine Or.inl ⟨fun h => ?_, rfl, rfl, rfl, fun u => .refl _⟩
    have h1 := hc.symm.trans h.1
    cases h1
  | clockRoutine =>
    show (_ ∧ (clockReturn s).control = _ ∧ (clockReturn s).current = _ ∧ _) ∨ _
    by_cases hq : int32 (s.cpuQuantum - 1) ≤ 0
    · refine Or.inr ⟨⟨hc, hq⟩, ?_⟩
      show (clockReturn s).control = _ ∧ (∀ u, _ → Audited _ ((clockReturn s).task u)) ∧
        Parked _ _ ((clockReturn s).task _)
      rw [clockReturn_eq, if_pos hq]
      -- the state in which `sched_next` is called
      have hkey : ∀ w : State, w.current = s.current → (∀ u, Audited (s.task u) (w.task u)) →
          (schedNextRr .clockRoutine w).control = .switched ∧
            (∀ u, u ≠ s.current → Audited (s.task u) ((schedNextRr .clockRoutine w).task u)) ∧
            Parked .clockRoutine (s.task s.current)
              ((schedNextRr .clockRoutine w).task s.current) := by
        intro w hw ha
        have hsw := schedNextRr_switched .clockRoutine w
        refine ⟨hsw.control, fun u hu => ?_, ?_⟩
        · rw [hsw.task, if_neg (hw ▸ hu)]
          exact ha u
        · rw [hsw.task, if_pos hw.symm]
          have h1 := parked_switchedOut .clockRoutine (getTicks w) (w.task s.current)
          exact ⟨h1.tState, h1.kernelEsp, h1.debt.trans (ha s.current).debt⟩
      split
      · exact hkey _ rfl fun u => .refl _
      · exact hkey _ rfl fun u => actTicks_audited ..
    · have he : clockReturn s = clockExit (updateSchedDataRr s) := by
        rw [clockReturn_eq, if_neg hq]
      refine Or.inl ⟨fun h => hq h.2, ?_⟩
      show (clockReturn s).control = _ ∧ (clockReturn s).current = _ ∧ (clockReturn s).links = _ ∧
        ∀ u, Audited _ ((clockReturn s).task u)
      rw [he]
      exact ⟨rfl, rfl, rfl, fun u => actTicks_audited .system s.current (updateSchedDataRr s) u⟩

theorem ready2kernel_task (s : State) (u : Task) :
    (actTicksReady2kernel s).task u =
      if u = s.current then (s.task u).switchedIn (getTicks s) else s.task u := by
  unfold actTicksReady2kernel State.setTState actTicks
  simp only [State.setTask_task, State.setTask_current, account_current, account_task, if_true]
  by_cases h : u = s.current
  · rw [if_pos h, if_pos h, h]
    rfl
  · rw [if_neg h, if_neg h, if_neg h, if_neg h]

/-- a switch is over -/
theorem resume_task (s : State) (u : Task) :
    (resume s).task u =
      if u = s.current then (s.task u).resumed (getTicks s) (s.tsc (s.reads + 1)) else s.task u := by
  by_cases h : u = s.current
  · rw [if_pos h, h]
    unfold resume TaskStruct.resumed
    cases hk : (s.task s.current).kernelEsp with
    | empty => rfl
    | cpuIdle => rfl
    | retFromFork =>
      show ((actTicks .system s.current s).task s.current) = _
      unfold actTicks
      rw [account_task, if_pos rfl]
    | clockRoutine =>
      show ((actTicks .system s.current (actTicksReady2kernel s)).task s.current) = _
      unfold actTicks
      rw [account_task, if_pos rfl, ready2kernel_task, if_pos rfl]
      rfl
    | console c =>
      show (actTicksReady2kernel s).task s.current = _
      rw [ready2kernel_task, if_pos rfl]
    | sysExit =>
      show (actTicksReady2kernel s).task s.current = _
      rw [ready2kernel_task, if_pos rfl]
  · rw [if_neg h]
    unfold resume
    cases hk : (s.task s.current).kernelEsp with
    | empty => rfl
    | cpuIdle => rfl
    | retFromFork =>
      show ((actTicks .system s.current s).task u) = _
      unfold actTicks
      rw [account_task, if_neg h]
    | clockRoutine =>
      show ((actTicks .system s.current (actTicksReady2kernel s)).task u) = _
      unfold actTicks
      rw [account_task, if_neg h, ready2kernel_task, if_neg h]
    | console c =>
      show (actTicksReady2kernel s).task u = _
      rw [ready2kernel_task, if_neg h]
    | sysExit =>
      show (actTicksReady2kernel s).task u = _
      rw [ready2kernel_task, if_neg h]

theorem resume_control (s : State) :
    (resume s).control =
      match (s.task s.current).kernelEsp with
      | .console c => .console c
      | _ => .user := by
  unfold resume
  cases (s.task s.current).kernelEsp <;> rfl

end
end Zeos
