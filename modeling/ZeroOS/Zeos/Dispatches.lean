import ZeroOS.Zeos.TaskStates
import ZeroOS.Zeos.Turns

/-!
# Zeos: dispatches and stays in the ready queue

The history of a run counts how often `sched_next_rr` has given the processor to a process, and
keeps what each stay in the ready queue has done to the counters of the process.

* `Counted s h`         `total_trans` is that number, and the stays are charged to `ready_ticks`;
* `Steady s e`          `get_ticks` does not advance inside the step;
* `FirstRun s e`        a new child goes on in `ret_from_fork`, not behind `task_switch`;
* `dispatches_counted`  **dispatches and waiting times are counted** as long as no step is such.
-/

set_option linter.unusedVariables false

namespace Zeos
open Programs Rings Desks Runs

/-- a stay of a process in the ready queue, and its statistics before and after -/
structure Stay where
  start : DWord
  before : Stats
  stop : DWord
  after : Stats

/-- The stay adds its length to `ready_ticks`, and nothing to the other counters. -/
structure Stay.Charged (x : Stay) : Prop where
  ready : x.after.readyTicks = x.before.readyTicks + (x.stop - x.start)
  user : x.after.userTicks = x.before.userTicks
  system : x.after.systemTicks = x.before.systemTicks
  blocked : x.after.blockedTicks = x.before.blockedTicks

structure Waits where
  /-- how often the process was dispatched since it was made -/
  given : Task → Nat
  /-- when it joined the ready queue, and its statistics then -/
  joined : Task → DWord × Stats
  stays : List Stay

/-- A switch and the `resume` that follows it are one operation of the kernel: the stay ends
there. -/
def waits (s : State) (e : Event) (s' : State) (h : Waits) : Waits where
  given t :=
    if ¬ live s t ∧ live s' t then 0
    else if s'.control = .switched ∧ t = s'.current then h.given t + 1
    else h.given t
  joined t := if (entered s e).contains t then (getTicks s, (s'.task t).statics) else h.joined t
  stays :=
    if e = .resume ∧ s.current ≠ s.idleTask then
      h.stays ++ [⟨(h.joined s.current).1, (h.joined s.current).2, getTicks s,
        (s'.task s.current).statics⟩]
    else h.stays

def noWaits : Waits := ⟨fun _ => 0, fun _ => (0, TaskStruct.zero.statics), []⟩

structure Counted (s : State) (h : Waits) : Prop where
  /-- between a switch and the `resume` that follows it the counter lags behind -/
  given : ∀ t, live s t → (t = s.current → s.control ≠ .switched) →
    (s.task t).statics.totalTrans.toNat = h.given t
  stays : ∀ x ∈ h.stays, x.Charged

/-- `get_ticks` gives the same value throughout the step -/
def Steady (s : State) (e : Event) : Prop :=
  ∀ s', step s e = some s' → ∀ i, s.reads ≤ i → i < s'.reads → s.tsc i = getTicks s

/-- a process goes on that has been dispatched for the first time, or once too often for a counter
of 32 bits -/
def FirstRun (s : State) (e : Event) : Prop :=
  e = .resume ∧ s.current ≠ s.idleTask ∧
    ((s.task s.current).kernelEsp = .retFromFork ∨
      (s.task s.current).statics.totalTrans.toNat + 1 = 2 ^ 32)

section
variable {s s' : State} {e : Event} {h : Waits} {t : Task}

/-! ## who is left alone -/

theorem Serviced.others (hs : Serviced s s') (ht : t ≠ s.current) : s'.task t = s.task t := by
  induction hs with
  | refl => rfl
  | @tick s₁ c hs ih =>
    rw [actTicks, account_task, hs.unmoved.current, if_neg ht]
    exact ih
  | passive _ hp ih =>
    rw [hp.eq]
    exact ih

@[simp] theorem tick_totalTrans (c : Counter) (now : DWord) (x : TaskStruct) :
    (x.tick c now).statics.totalTrans = x.statics.totalTrans := by
  cases c <;> rfl

theorem actTicks_totalTrans (c : Counter) (u t : Task) (s : State) :
    ((actTicks c u s).task t).statics.totalTrans = (s.task t).statics.totalTrans := by
  rw [actTicks, account_task]
  by_cases h : t = u
  · rw [if_pos h, h, tick_totalTrans]
  · rw [if_neg h]

theorem Serviced.totalTrans (hs : Serviced s s') (t : Task) :
    (s'.task t).statics.totalTrans = (s.task t).statics.totalTrans := by
  induction hs with
  | refl => rfl
  | tick c _ ih => exact (actTicks_totalTrans ..).trans ih
  | passive _ hp ih =>
    rw [hp.eq]
    exact ih

theorem clockReturn_others (h1 : t ≠ s.current) (h2 : t ≠ s.idleTask) :
    (clockReturn s).task t = s.task t := by
  have hc : ∀ w : State, w.current = s.current → w.task t = s.task t →
      (schedNextRr .clockRoutine w).task t = s.task t := by
    intro w hw ht
    rw [(schedNextRr_switched ..).task, hw, if_neg h1]
    exact ht
  rw [clockReturn_eq]
  split
  · split
    · exact hc _ rfl rfl
    · refine hc _ rfl ?_
      unfold actStatsSurtIdle actTicks
      rw [account_task]
      exact if_neg h2
  · show (actTicksKernel2user (updateSchedDataRr s)).task t = _
    unfold actTicksKernel2user actTicks
    rw [account_task]
    exact if_neg h1

theorem switchedOut_totalTrans (k : Resume) (now : DWord) (x : TaskStruct) :
    (x.switchedOut k now).statics.totalTrans = x.statics.totalTrans := rfl

theorem schedNextRr_totalTrans (k : Resume) (s : State) (t : Task) :
    ((schedNextRr k s).task t).statics.totalTrans = (s.task t).statics.totalTrans := by
  rw [(schedNextRr_switched ..).task]
  by_cases h : t = s.current
  · rw [if_pos h, switchedOut_totalTrans]
  · rw [if_neg h]

theorem clockReturn_totalTrans (s : State) (t : Task) :
    ((clockReturn s).task t).statics.totalTrans = (s.task t).statics.totalTrans := by
  rw [clockReturn_eq]
  split
  · split
    · exact schedNextRr_totalTrans ..
    · rw [schedNextRr_totalTrans]
      exact actTicks_totalTrans ..
  · exact actTicks_totalTrans ..

/-- a process that waits is left alone -/
theorem step_others (hi : Inv s) (he : step s e = some s') (hq : t ∈ queue s .readyqueue)
    (hne : t ≠ s.idleTask) : s'.task t = s.task t := by
  have hcur : t ≠ s.current := hi.placed.ne_current hq
  have hfree : t ∉ queue s .freequeue :=
    hi.placed.apart.tidy.once .readyqueue .freequeue (by decide) t hq
  cases step_cases he with
  | fork hu hf =>
    rcases hi.forked hu hf with ⟨-, -, hserv⟩ | ⟨child, rest, fs, hfq, -, -, hsp, -⟩
    · exact hserv.others hcur
    · have hc : t ≠ child := fun h1 => hfree (h1 ▸ hfq ▸ List.mem_cons_self)
      rw [hsp.task, if_neg hc, if_neg hcur]
  | exit hu => rw [(hi.exited hu).task, if_neg hcur]
  | read hu => rfl
  | service hs hu hserv => exact hserv.others hcur
  | clock hu =>
    show (actTicksUser2kernel s).task t = _
    exact Serviced.others (.tick .user .refl) hcur
  | block c i hc hn => rw [blockProcess_task, if_neg hcur]
  | unblock c i u hc hu =>
    have huc : u ≠ s.current := hi.placed.ne_current hu
    have htu : t ≠ u := fun h1 =>
      hi.placed.apart.tidy.once .readyqueue (.blocked i) (by simp) t hq (h1 ▸ hu)
    rcases unblock_cases c huc with ⟨-, -, -, h3⟩ | ⟨-, -, h3⟩
    · rw [h3, if_neg htu]
    · rw [h3, if_neg htu, if_neg hcur]
  | ret c hc =>
    cases c with
    | sysRead => rfl
    | clockRoutine => exact clockReturn_others hcur hne
  | resume hc => rw [resume_task, if_neg hcur]

/-- only `act_ticks_ready2kernel` counts -/
theorem step_totalTrans (hi : Inv s) (he : step s e = some s') (hl : live s t)
    (hne : e = .resume → t ≠ s.current) :
    (s'.task t).statics.totalTrans = (s.task t).statics.totalTrans := by
  cases step_cases he with
  | fork hu hf =>
    rcases hi.forked hu hf with ⟨-, -, hserv⟩ | ⟨child, rest, fs, hfq, -, -, hsp, -⟩
    · exact hserv.totalTrans t
    · have hc : t ≠ child := fun h1 => hl.2 (h1 ▸ hfq ▸ List.mem_cons_self)
      rw [hsp.task, if_neg hc]
      by_cases hcur : t = s.current
      · rw [if_pos hcur, hcur, tick_totalTrans, tick_totalTrans]
      · rw [if_neg hcur]
  | exit hu =>
    rw [(hi.exited hu).task]
    by_cases hcur : t = s.current
    · rw [if_pos hcur, hcur]
      rfl
    · rw [if_neg hcur]
  | read hu => rfl
  | service hs hu hserv => exact hserv.totalTrans t
  | clock hu => exact actTicks_totalTrans ..
  | block c i hc hn =>
    rw [blockProcess_task]
    by_cases hcur : t = s.current
    · rw [if_pos hcur]
      rfl
    · rw [if_neg hcur]
  | unblock c i u hc hu =>
    have huc : u ≠ s.current := hi.placed.ne_current hu
    rcases unblock_cases c huc with ⟨-, -, -, h3⟩ | ⟨-, -, h3⟩
    · rw [h3]
      split <;> rfl
    · rw [h3]
      split
      · rfl
      · split <;> rfl
  | ret c hc =>
    cases c with
    | sysRead => rfl
    | clockRoutine => exact clockReturn_totalTrans s t
  | resume hc => rw [resume_task, if_neg (hne rfl)]

/-! ## who joins the ready queue -/

/-- a fork that makes a child reads the time three times -/
theorem Inv.fork_reads (hi : Inv s) (hu : inUser s) {v : Int} (hf : sysFork s = .ok (v, s'))
    {child : Task} {rest : List Task} (hq : queue s .freequeue = child :: rest) :
    s'.reads = s.reads + 3 := by
  have hT : ∀ t, t ≠ s.current → getPT s s.current ≠ s.mm.dirPages t := by
    intro t ht
    rw [hi.getPT_eq, hi.mapped.dirs]
    exact ht.symm
  have hc : child ∈ queue s .freequeue := hq ▸ List.mem_cons_self
  rcases sysFork_cases hi.placed.rep hi.placed.running hT hi.mapped.used_256 with
    ⟨he, -⟩ | ⟨c, r, hq', -, ⟨hcard, -⟩ | ⟨-, fs, hlen, hg, hr⟩⟩
  · exact absurd (hq.symm.trans he) (List.cons_ne_nil child rest)
  · exact absurd (hi.enough hc) (Nat.not_le.mpr hcard)
  · obtain ⟨m, hcopy, -⟩ := hi.spawned hu hq' hg hlen
    rw [hcopy] at hr
    have e : (forkDone s.current c (getPT s s.current) ((forkWindow c fs s).setMem m)).2 = s' :=
      congrArg Prod.snd (Except.ok.inj (hr.symm.trans hf))
    rw [← e, forkDone_reads, State.setMem_reads, forkWindow, State.setMm_reads, forkChild_reads]

theorem switchedOut_elapsed (k : Resume) (now : DWord) (x : TaskStruct) :
    (x.switchedOut k now).statics.elapsedTotalTicks = now := rfl

/-- what joins the ready queue has the time of the step -/
theorem step_entered (hi : Inv s) (hst : Steady s e) (he : step s e = some s')
    (ht : t ∈ entered s e) (hne : t ≠ s.idleTask) :
    (s'.task t).statics.elapsedTotalTicks = getTicks s := by
  have hread := hst s' he
  cases step_cases he with
  | fork hu hf =>
    rcases hi.forked hu hf with ⟨hq, -, -⟩ | ⟨child, rest, fs, hq, -, -, hsp, -⟩
    · simp only [entered, hq] at ht
      cases ht
    · simp only [entered, hq, List.mem_singleton] at ht
      have hreads := hi.fork_reads hu hf hq
      rw [hsp.task, if_pos ht]
      exact hread (s.reads + 1) (by omega) (by omega)
  | unblock c i u hc hu =>
    have huc : u ≠ s.current := hi.placed.ne_current hu
    unfold entered at ht
    rcases unblock_cases c huc with ⟨hq, -, -, h3⟩ | ⟨hq, -, h3⟩
    · rw [if_neg (not_le.mpr hq), List.mem_singleton] at ht
      rw [h3, if_pos ht]
      rfl
    · have hreads : (unblockProcess c u s).reads = s.reads + 2 := by
        rw [unblockProcess_eq, if_pos hq, (schedNextRr_switched ..).reads]
        rfl
      rw [h3]
      by_cases h1 : t = u
      · rw [if_pos h1]
        rfl
      · rw [if_pos hq, List.mem_cons, or_iff_right h1, List.mem_singleton] at ht
        rw [if_neg h1, if_pos ht, switchedOut_elapsed]
        exact hread (s.reads + 1) (by omega) (by omega)
  | ret c hc =>
    unfold entered at ht
    by_cases hx : Expires s ∧ (s.task s.current).pid ≠ 0
    · rw [if_pos hx, List.mem_singleton] at ht
      cases c with
      | sysRead => cases hc.symm.trans hx.1.1
      | clockRoutine =>
        show ((clockReturn s).task t).statics.elapsedTotalTicks = _
        rw [clockReturn_eq, if_pos hx.1.2, if_pos hx.2, (schedNextRr_switched ..).task, ht]
        exact congrArg (fun x : TaskStruct => x.statics.elapsedTotalTicks) (if_pos rfl)
    · rw [if_neg hx] at ht
      cases ht
  | service hsv =>
    rw [(service_quiet hsv).1] at ht
    cases ht
  | _ => cases ht

/-! ## the invariant -/

structure Waited (s : State) (h : Waits) : Prop where
  /-- nothing is charged to a process that waits -/
  joined : ∀ t, t ≠ s.idleTask → (t ∈ queue s .readyqueue ∨ (t = s.current ∧ s.control = .switched)) →
    h.joined t = ((s.task t).statics.elapsedTotalTicks, (s.task t).statics)
  /-- the dispatch that is under way is not yet counted -/
  pending : s.control = .switched → s.current ≠ s.idleTask →
    h.given s.current = (s.task s.current).statics.totalTrans.toNat + 1

/-- who waits after a step waited before, or joined -/
theorem step_waiter (hi : Inv s) (he : step s e = some s') (hne : t ≠ s.idleTask)
    (ht : t ∈ queue s' .readyqueue ∨ (t = s'.current ∧ s'.control = .switched)) :
    t ∈ queue s .readyqueue ∨ t ∈ entered s e := by
  rw [← List.mem_append]
  rcases step_turns hi he with h | h
  · rw [← h.ready]
    exact ht.resolve_right fun h1 => h.control h1.2
  · have hn := h.next
    generalize queue s .readyqueue ++ entered s e = R at hn ⊢
    cases hn with
    | idle h1 _ h3 =>
      rcases ht with ht | ht
      · exact absurd (h3 ▸ ht) List.not_mem_nil
      · exact absurd (ht.1.trans h1) hne
    | head u l h1 _ h3 =>
      rcases ht with ht | ht
      · exact List.mem_cons_of_mem u (h3 ▸ ht)
      · exact ht.1.trans h1 ▸ List.mem_cons_self

theorem step_joined (hi : Inv s) (hw : Waited s h) (hst : Steady s e) (he : step s e = some s')
    (hne : t ≠ s'.idleTask)
    (ht : t ∈ queue s' .readyqueue ∨ (t = s'.current ∧ s'.control = .switched)) :
    (waits s e s' h).joined t = ((s'.task t).statics.elapsedTotalTicks, (s'.task t).statics) := by
  rw [step_idleTask hi he] at hne
  by_cases hen : t ∈ entered s e
  · rw [step_entered hi hst he hen hne]
    exact if_pos (List.contains_iff_mem.mpr hen)
  · have hq := (step_waiter hi he hne ht).resolve_right hen
    rw [step_others hi he hq hne]
    exact (if_neg fun hc => hen (List.contains_iff_mem.mp hc)).trans (hw.joined t hne (Or.inl hq))

/-- a step makes no process but the child of a fork -/
theorem step_born (hi : Inv s) (he : step s e = some s') (hl : live s' t) (hn : ¬ live s t) :
    (s'.task t).statics.totalTrans = 0 := by
  cases step_evolves hi he with
  | still hk _ hf => exact absurd (live_congr hk.idleTask hf ▸ hl) hn
  | fork child rest fs hu hq hlen hg hsp =>
    rw [hsp.live_iff hi (hq ▸ List.mem_cons_self)] at hl
    rw [hsp.task, if_pos (hl.resolve_left hn)]
    rfl
  | exit hu hx =>
    rw [hx.live_iff] at hl
    exact absurd hl.1 hn

/-- a switch makes no process -/
theorem Switches.live (hi : Inv s) (h : Switches s e s') (he : step s e = some s')
    (hl : Zeos.live s' t) : Zeos.live s t := by
  cases step_evolves hi he with
  | still hk _ hf => exact live_congr hk.idleTask hf ▸ hl
  | fork => cases h.yields
  | exit hu hx =>
    rw [hx.live_iff] at hl
    exact hl.1

/-! ## one step -/

theorem waits_given (hb : ¬ (¬ live s t ∧ live s' t)) (hc : ¬ (s'.control = .switched ∧ t = s'.current)) :
    (waits s e s' h).given t = h.given t := (if_neg hb).trans (if_neg hc)

/-- the processes that are not being dispatched -/
theorem step_given (hi : Inv s) (hP : Counted s h) (he : step s e = some s') (hl : live s' t)
    (hne : e = .resume → t ≠ s.current) (hlag : t = s'.current → s'.control ≠ .switched)
    (hctl : e ≠ .resume → s.control ≠ .switched) :
    (s'.task t).statics.totalTrans.toNat = (waits s e s' h).given t := by
  by_cases hl0 : live s t
  · have hc : ¬ (s'.control = .switched ∧ t = s'.current) := fun hc => hlag hc.2 hc.1
    have hb : ¬ (¬ live s t ∧ live s' t) := fun hb => hb.1 hl0
    rw [waits_given hb hc, step_totalTrans hi he hl0 hne]
    refine hP.given t hl0 fun hcur => ?_
    by_cases hr : e = .resume
    · exact absurd hcur (hne hr)
    · exact hctl hr
  · rw [step_born hi he hl hl0]
    exact (if_pos ⟨hl0, hl⟩).symm

/-- interrupts are off during a switch -/
theorem step_switched (he : step s e = some s') (hr : e ≠ .resume) : s.control ≠ .switched := by
  intro hc
  cases step_cases he with
  | fork hu _ => exact nomatch hc.symm.trans hu.1
  | exit hu => exact nomatch hc.symm.trans hu.1
  | read hu => exact nomatch hc.symm.trans hu.1
  | service _ hu _ => exact nomatch hc.symm.trans hu.1
  | clock hu => exact nomatch hc.symm.trans hu
  | block c _ hc' _ => exact nomatch hc.symm.trans hc'
  | unblock c _ _ hc' _ => exact nomatch hc.symm.trans hc'
  | ret c hc' => exact nomatch hc.symm.trans hc'
  | resume _ => exact hr rfl

/-- what `act_ticks_ready2kernel` makes of the statistics -/
theorem resumed_charged {x : TaskStruct} {now now' : DWord} (hsaved : Saved x.kernelEsp)
    (hne : x.kernelEsp ≠ .retFromFork) (hnow : x.kernelEsp = .clockRoutine → now' = now) :
    (x.resumed now now').statics.totalTrans = x.statics.totalTrans + 1 ∧
      Stay.Charged ⟨x.statics.elapsedTotalTicks, x.statics, now, (x.resumed now now').statics⟩ := by
  unfold TaskStruct.resumed
  cases hk : x.kernelEsp with
  | empty => exact absurd hk hsaved.1
  | cpuIdle => exact absurd hk hsaved.2
  | retFromFork => exact absurd hk hne
  | console c => exact ⟨rfl, rfl, rfl, rfl, rfl⟩
  | sysExit => exact ⟨rfl, rfl, rfl, rfl, rfl⟩
  | clockRoutine =>
    refine ⟨rfl, rfl, rfl, ?_, rfl⟩
    -- no time passes before the end of `clock_routine`
    show x.statics.systemTicks + (now' - now) = x.statics.systemTicks
    rw [hnow hk, sub_self, add_zero]

theorem resume_reads (hk : (s.task s.current).kernelEsp = .clockRoutine) :
    (resume s).reads = s.reads + 2 := by
  unfold resume
  rw [hk]
  rfl

theorem step_resume_control (he : step s .resume = some s') (hi : Inv s) :
    s'.control ≠ .switched := by
  rcases step_turns hi he with h | h
  · exact h.control
  · cases h.yields

/-- a process that does not go on is counted as before -/
theorem resume_given (hi : Inv s) (hP : Counted s h) (he : step s .resume = some s')
    (hl : live s' t) (hne : t ≠ s.current) :
    (s'.task t).statics.totalTrans.toNat = (waits s .resume s' h).given t :=
  step_given hi hP he hl (fun _ => hne) (fun _ => step_resume_control he hi) fun h1 => absurd rfl h1

theorem resume_counted_idle (hi : Inv s) (hP : Counted s h) (he : step s .resume = some s')
    (hcur : s.current = s.idleTask) : Counted s' (waits s .resume s' h) := by
  have hstays : (waits s .resume s' h).stays = h.stays := if_neg fun h1 => h1.2 hcur
  refine ⟨fun t hl _ => resume_given hi hP he hl fun h1 => ?_, ?_⟩
  · exact hl.1 (h1.trans (hcur.trans (step_idleTask hi he).symm))
  · rw [hstays]
    exact hP.stays

/-- the end of a stay -/
theorem resume_counted_iff (hi : Inv s) (hw : Waiting s) (hW : Waited s h) (hP : Counted s h)
    (hst : Steady s .resume) (he : step s .resume = some s') :
    Counted s' (waits s .resume s' h) ↔ ¬ FirstRun s .resume := by
  obtain ⟨hc, hs'⟩ := step_resume he
  have hctl' := step_resume_control he hi
  by_cases hcur : s.current = s.idleTask
  · exact iff_of_true (resume_counted_idle hi hP he hcur) fun h1 => h1.2.1 hcur
  · have hL : live s s.current := hi.placed.live_current hcur
    have hL' : live s' s.current := by
      rw [step_live hi he (by simp) (by simp)]
      exact hL
    obtain ⟨-, hsaved⟩ := hw s.current hL (Or.inr hc)
    have hpend := hW.pending hc hcur
    have hjoin := hW.joined s.current hcur (Or.inr ⟨rfl, hc⟩)
    have hgiven : (waits s .resume s' h).given s.current = h.given s.current :=
      waits_given (fun h1 => h1.1 hL) fun h1 => hctl' h1.1
    have htask : s'.task s.current =
        (s.task s.current).resumed (getTicks s) (s.tsc (s.reads + 1)) := by
      rw [hs', resume_task, if_pos rfl]
    have hlt := (s.task s.current).statics.totalTrans.isLt
    have hnow : (s.task s.current).kernelEsp = .clockRoutine →
        s.tsc (s.reads + 1) = getTicks s := by
      intro hk
      have hreads : s'.reads = s.reads + 2 := hs' ▸ resume_reads hk
      exact hst s' he (s.reads + 1) (by omega) (by omega)
    have hcharged : ¬ FirstRun s .resume → _ := fun hF =>
      resumed_charged hsaved (fun hk => hF ⟨rfl, hcur, Or.inl hk⟩) hnow
    refine ⟨fun hC hF => ?_, fun hF => ⟨fun t hl hlag => ?_, fun x hx => ?_⟩⟩
    · -- the dispatch was not counted, or the counter is zero again
      have h1 := hC.given s.current hL' fun _ => hctl'
      rw [hgiven, hpend, htask] at h1
      obtain ⟨-, -, hk | hwrap⟩ := hF
      · unfold TaskStruct.resumed at h1
        simp only [hk, tick_totalTrans] at h1
        omega
      · have hlt' := ((s.task s.current).resumed (getTicks s)
          (s.tsc (s.reads + 1))).statics.totalTrans.isLt
        omega
    · by_cases htc : t = s.current
      · rw [htc, hgiven, hpend, htask, (hcharged hF).1, BitVec.toNat_add]
        have hno : (s.task s.current).statics.totalTrans.toNat + 1 ≠ 2 ^ 32 := fun h1 =>
          hF ⟨rfl, hcur, Or.inr h1⟩
        show ((s.task s.current).statics.totalTrans.toNat + 1) % 2 ^ 32 = _
        omega
      · exact resume_given hi hP he hl htc
    · have hstays : (waits s .resume s' h).stays = h.stays ++
          [⟨(h.joined s.current).1, (h.joined s.current).2, getTicks s,
            (s'.task s.current).statics⟩] := if_pos ⟨rfl, hcur⟩
      rw [hstays, hjoin, htask] at hx
      rcases List.mem_append.mp hx with hx | hx
      · exact hP.stays x hx
      · rw [List.mem_singleton.mp hx]
        exact (hcharged hF).2

/-- every other step counts right -/
theorem step_counted (hi : Inv s) (hP : Counted s h) (he : step s e = some s') (hr : e ≠ .resume) :
    Counted s' (waits s e s' h) := by
  have hstays : (waits s e s' h).stays = h.stays := if_neg fun h1 => hr h1.1
  refine ⟨fun t hl hlag => ?_, ?_⟩
  · exact step_given hi hP he hl (fun h1 => absurd h1 hr) hlag fun _ => step_switched he hr
  · rw [hstays]
    exact hP.stays

theorem step_waited (hi : Inv s) (hW : Waited s h) (hP : Counted s h) (hst : Steady s e)
    (he : step s e = some s') : Waited s' (waits s e s' h) := by
  refine ⟨fun t hne ht => step_joined hi hW hst he hne ht, fun hc hcur => ?_⟩
  rcases step_turns hi he with h1 | h1
  · exact absurd hc h1.control
  · have hr : e ≠ .resume := fun h2 => nomatch h2 ▸ h1.yields
    have hl' : live s' s'.current := (step_inv hi he).placed.live_current hcur
    have hl := h1.live hi he hl'
    have hgiven : (waits s e s' h).given s'.current = h.given s'.current + 1 :=
      (if_neg fun h2 => h2.1 hl).trans (if_pos ⟨hc, rfl⟩)
    rw [hgiven, step_totalTrans hi he hl fun h2 => absurd h2 hr]
    exact congrArg (· + 1) (hP.given _ hl fun _ => step_switched he hr).symm

theorem step_counted_iff (hi : Inv s) (hw : Waiting s) (hW : Waited s h) (hP : Counted s h)
    (hst : Steady s e) (he : step s e = some s') :
    Counted s' (waits s e s' h) ↔ ¬ FirstRun s e := by
  by_cases hr : e = .resume
  · subst hr
    exact resume_counted_iff hi hw hW hP hst he
  · exact iff_of_true (step_counted hi hP he hr) fun hF => hr hF.1

/-! ## runs -/

theorem boot_waited (mem : Nat → Byte) (tsc : Nat → DWord) : Waited (boot mem tsc) noWaits := by
  refine ⟨fun t _ ht => ?_, fun hc => ?_⟩
  · rcases ht with ht | ht
    · rw [boot_queue] at ht
      exact absurd ht List.not_mem_nil
    · rw [boot_control] at ht
      exact nomatch ht.2
  · rw [boot_control] at hc
    cases hc

theorem boot_counted (mem : Nat → Byte) (tsc : Nat → DWord) : Counted (boot mem tsc) noWaits := by
  refine ⟨fun t hl _ => ?_, fun x hx => (nomatch hx)⟩
  rw [(boot_live mem tsc t).mp hl, boot_init]
  rfl

/-- **Dispatches and waiting times are counted**, in a run in which no process goes on in
`ret_from_fork`, and there only. -/
theorem dispatches_counted (mem : Nat → Byte) (tsc : Nat → DWord) (es : List Event)
    (hst : Guarded (tagged step waits) (fun x e => Steady x.1 e) (boot mem tsc, noWaits) es) :
    Always (tagged step waits) (fun x => Counted x.1 x.2) (boot mem tsc, noWaits) es ↔
      Guarded (tagged step waits) (fun x e => ¬ FirstRun x.1 e) (boot mem tsc, noWaits) es := by
  let I : State × Waits → Prop := fun x => Inv x.1 ∧ Waiting x.1 ∧ Waited x.1 x.2
  refine always_iff_guarded_of (I := I)
    ⟨boot_inv mem tsc, boot_waiting mem tsc, boot_waited mem tsc⟩ (boot_counted mem tsc) ?_ ?_ hst
  · intro x e x' hI hP hst he
    obtain ⟨hi, hw, hW⟩ := hI
    obtain ⟨h1, h2⟩ := tagged_eq_some.mp he
    exact ⟨step_inv hi h1, step_waiting hi hw h1, h2 ▸ step_waited hi hW hP hst h1⟩
  · intro x e x' hI hP hst he
    obtain ⟨hi, hw, hW⟩ := hI
    obtain ⟨h1, h2⟩ := tagged_eq_some.mp he
    rw [← h2]
    exact step_counted_iff hi hw hW hP hst h1

/-! ## runs in which the time stands still -/

theorem steady_of_const {c : DWord} (h : ∀ i, s.tsc i = c) (e : Event) : Steady s e :=
  fun _ _ i _ _ => (h i).trans (h s.reads).symm

theorem clockReturn_tsc (s : State) : (clockReturn s).tsc = s.tsc := by
  rw [clockReturn_eq]
  split
  · split
    · exact (schedNextRr_switched ..).tsc
    · exact (schedNextRr_switched ..).tsc
  · rfl

/-- The initial process is preempted in its first tick, and dispatched again. -/
theorem dispatches_counted_boot :
    Guarded (tagged step waits) (fun x e => Steady x.1 e) (boot (fun _ => 0) fun _ => 0, noWaits)
        [.clock, .ret, .resume] ∧
      (Always (tagged step waits) (fun x => Counted x.1 x.2) (boot (fun _ => 0) fun _ => 0, noWaits)
          [.clock, .ret, .resume] ↔
        Guarded (tagged step waits) (fun x e => ¬ FirstRun x.1 e)
          (boot (fun _ => 0) fun _ => 0, noWaits) [.clock, .ret, .resume]) := by
  have hst : Guarded (tagged step waits) (fun x e => Steady x.1 e)
      (boot (fun _ => 0) fun _ => 0, noWaits) [.clock, .ret, .resume] := by
    intro x₁ h₁
    refine ⟨steady_of_const (c := 0) (fun _ => rfl) _, fun x₂ h₂ => ?_⟩
    have e₁ : x₁.1 = clockEnter (boot (fun _ => 0) fun _ => 0) :=
      (Option.some.inj (tagged_eq_some.mp h₁).1).symm
    have ht₁ : ∀ i, x₁.1.tsc i = 0 := e₁ ▸ fun _ => rfl
    refine ⟨steady_of_const ht₁ _, fun x₃ h₃ => ?_⟩
    have e₂ : x₂.1 = clockReturn x₁.1 := by
      have h := (tagged_eq_some.mp h₂).1
      rw [e₁] at h ⊢
      exact (Option.some.inj h).symm
    have ht₂ : ∀ i, x₂.1.tsc i = 0 := by
      rw [e₂, clockReturn_tsc]
      exact ht₁
    exact ⟨steady_of_const ht₂ _, trivial⟩
  exact ⟨hst, dispatches_counted (fun _ => 0) (fun _ => 0) [.clock, .ret, .resume] hst⟩

/-- the child of a process is dispatched, and its counter stays zero -/
theorem Alone.uncounted (h : Alone s) (w : Waits) :
    ∃ x, run (tagged step waits) (s, w) forkAndBlock = some x ∧ ¬ Counted x.1 x.2 := by
  have hi := h.inv
  obtain ⟨child, s₁, s₃, hn⟩ := h.childNext
  have hi₁ := step_inv hi hn.fork
  have hi₂ := step_inv hi₁ hn.read
  have hi₃ := step_inv hi₂ hn.block
  have he₄ : step s₃ .resume = some (resume s₃) := if_pos hn.control
  have hl₁ := hn.born.2
  have hl₃ : live s₃ child := by
    rw [step_live hi₂ hn.block (by simp) (by simp)]
    exact hl₁
  have hl₄ : live (resume s₃) child := by
    rw [step_live hi₃ he₄ (by simp) (by simp)]
    exact hl₃
  have hctl : (resume s₃).control ≠ .switched := by
    rw [resume_control, hn.current, hn.kernelEsp]
    simp
  -- one dispatch
  have hg₁ : (waits s .fork s₁ w).given child = 0 := if_pos hn.born
  have hread : ({ s₁ with control := .console .sysRead } : State).control ≠ .switched := by simp
  let w₂ := waits s₁ .read { s₁ with control := .console .sysRead } (waits s .fork s₁ w)
  let w₃ := waits { s₁ with control := .console .sysRead } (.block 0) s₃ w₂
  have hg₂ : w₂.given child = 0 :=
    (waits_given (fun hb => hb.1 hl₁) fun hc => hread hc.1).trans hg₁
  have hg₃ : w₃.given child = 1 := by
    refine (if_neg fun hb => hb.1 hl₁).trans ((if_pos ⟨hn.control, hn.current.symm⟩).trans ?_)
    rw [hg₂]
  have hg₄ : (waits s₃ .resume (resume s₃) w₃).given child = 1 :=
    (waits_given (fun hb => hb.1 hl₃) fun hc => hctl hc.1).trans hg₃
  -- and none counted
  have ht₃ : (s₃.task child).statics.totalTrans = 0 := by
    rw [step_totalTrans hi₂ hn.block hl₁ (by simp), step_totalTrans hi₁ hn.read hl₁ (by simp)]
    exact step_born hi hn.fork hl₁ hn.born.1
  have ht₄ : ((resume s₃).task child).statics.totalTrans = 0 := by
    rw [resume_task, if_pos hn.current.symm]
    unfold TaskStruct.resumed
    rw [hn.kernelEsp]
    exact (tick_totalTrans ..).trans ht₃
  refine ⟨(resume s₃, waits s₃ .resume (resume s₃) w₃), ?_, fun hC => ?_⟩
  · rw [forkAndBlock, run_cons, tagged_eq_some.mpr ⟨hn.fork, rfl⟩, Option.bind_some, run_cons,
      tagged_eq_some.mpr ⟨hn.read, rfl⟩, Option.bind_some, run_cons,
      tagged_eq_some.mpr ⟨hn.block, rfl⟩, Option.bind_some, run_cons,
      tagged_eq_some.mpr ⟨he₄, rfl⟩]
    rfl
  · have h1 := hC.given child hl₄ fun _ => hctl
    rw [hg₄, ht₄] at h1
    exact absurd h1 (by decide)

/-- the child of the initial process, with a clock that stands still -/
theorem child_not_counted :
    ∃ x, run (tagged step waits) (boot (fun _ => 0) fun _ => 0, noWaits) forkAndBlock = some x ∧
      ¬ Counted x.1 x.2 := (boot_alone _ _).uncounted noWaits

end
end Zeos
