import ZeroOS.Zeos.Scheduling
import ZeroOS.Zeos.Turns

/-!
# Zeos: when idle runs

* `IdleStack s`       what idle goes on with: its stack is inside `clock_routine`'s call of the
                      console code exactly while idle waits in the ready queue;
* `Wastes s e`        a clock interrupt of idle ends with processes ready and CPU_QUANTUM left;
* `work_conserving`   **idle runs only when nobody is ready**, as long as no step is such.

CPU_QUANTUM is loaded on one branch of `sched_next_rr` only, so idle has what the process before
it has left.
-/

set_option linter.unusedVariables false

namespace Zeos
open Programs Desks Runs

/-- in user code, and in the loop of `cpu_idle` -/
def WorkConserving (s : State) : Prop :=
  s.control = .user → s.current = s.idleTask → queue s .readyqueue = []

/-- the clock interrupt returns to idle -/
def Wastes (s : State) (e : Event) : Prop :=
  e = .ret ∧ s.control = .console .clockRoutine ∧ s.current = s.idleTask ∧
    queue s .readyqueue ≠ [] ∧ 0 < int32 (s.cpuQuantum - 1)

/-- idle was left at the end of `clock_routine`, or has not run -/
def Outside (k : Resume) : Prop := k = .cpuIdle ∨ k = .clockRoutine

structure IdleStack (s : State) : Prop where
  away : s.current ≠ s.idleTask →
    (Outside (s.task s.idleTask).kernelEsp ∧ s.idleTask ∉ queue s .readyqueue) ∨
      ((s.task s.idleTask).kernelEsp = .console .clockRoutine ∧ s.idleTask ∈ queue s .readyqueue)
  loaded : s.current = s.idleTask → s.control = .switched →
    (Outside (s.task s.idleTask).kernelEsp ∧ queue s .readyqueue = []) ∨
      (s.task s.idleTask).kernelEsp = .console .clockRoutine
  inside : s.current = s.idleTask → s.control ≠ .console .sysRead

section
variable {s s' : State} {e : Event}

/-- the events that can happen while idle runs -/
inductive IdleEvent (s : State) : Event → Prop where
  | clock : IdleEvent s .clock
  | unblock (i : Nat) (t : Task) : s.control = .console .clockRoutine → t ∈ queue s (.blocked i) →
      IdleEvent s (.unblock i t)
  | ret : s.control = .console .clockRoutine → IdleEvent s .ret
  | resume : s.control = .switched → IdleEvent s .resume

theorem IdleStack.event (h : IdleStack s) (hcur : s.current = s.idleTask)
    (he : step s e = some s') : IdleEvent s e := by
  have hno : ¬ inUser s := fun hu => hu.2 hcur
  have hcon : ∀ c, s.control = .console c → s.control = .console .clockRoutine := by
    intro c hc
    cases c with
    | clockRoutine => exact hc
    | sysRead => exact absurd hc (h.inside hcur)
  cases step_cases he with
  | fork hu _ => exact absurd hu hno
  | exit hu => exact absurd hu hno
  | read hu => exact absurd hu hno
  | service _ hu _ => exact absurd hu hno
  | clock _ => exact .clock
  | block _ _ _ hne => exact absurd hcur hne
  | unblock c i t hc ht => exact .unblock i t (hcon c hc) ht
  | ret c hc => exact .ret (hcon c hc)
  | resume hc => exact .resume hc

/-- only idle puts idle into the ready queue -/
theorem idle_entered (hi : Inv s) (hcur : s.current ≠ s.idleTask) (he : step s e = some s') :
    s.idleTask ∉ entered s e := by
  intro hm
  cases step_cases he with
  | fork hu _ =>
    cases hq : queue s .freequeue with
    | nil =>
      simp only [entered, hq] at hm
      exact List.not_mem_nil hm
    | cons child rest =>
      simp only [entered, hq, List.mem_singleton] at hm
      exact hi.child_ne_idle (hq ▸ List.mem_cons_self) hm.symm
  | unblock c i t hc ht =>
    unfold entered at hm
    rcases List.mem_cons.mp hm with h | h
    · exact hi.placed.apart.tidy.idle (.blocked i) (by simp) (h ▸ ht)
    · by_cases hq : s.cpuQuantum ≤ 0
      · rw [if_pos hq] at h
        exact hcur (List.mem_singleton.mp h).symm
      · rw [if_neg hq] at h
        exact List.not_mem_nil h
  | ret c hc =>
    unfold entered at hm
    by_cases hx : Expires s ∧ (s.task s.current).pid ≠ 0
    · rw [if_pos hx] at hm
      exact hcur (List.mem_singleton.mp hm).symm
    · rw [if_neg hx] at hm
      exact List.not_mem_nil hm
  | service hs =>
    cases e with
    | fork => cases hs
    | unblock i t => cases hs
    | ret => cases hs
    | _ => exact List.not_mem_nil hm
  | _ => exact List.not_mem_nil hm

/-- idle does not join the ready queue at the end of its quantum: its PID is 0 -/
theorem entered_idle_ret (hi : Inv s) (hcur : s.current = s.idleTask) : entered s .ret = [] := by
  refine if_neg fun h => h.2 ?_
  rw [hcur]
  exact hi.idlePid

/-! ## one step -/

/-- idle keeps the processor -/
theorem IdleStack.stays (hI : IdleStack s) (hi : Inv s) (hcur : s.current = s.idleTask)
    (h : Stays s e s') (he : step s e = some s') :
    s'.control ≠ .console .sysRead ∧
      (s'.control = .user → (queue s' .readyqueue = [] ↔ ¬ Wastes s e)) := by
  have hno : e ≠ .ret → ¬ Wastes s e := fun h1 h2 => h1 h2.1
  cases hI.event hcur he with
  | clock =>
    cases step_cases he with
    | clock _ => exact ⟨by simp [clockEnter], by simp [clockEnter]⟩
    | service hs => cases hs
  | unblock i t hc ht =>
    cases step_cases he with
    | unblock c i t _ _ =>
      have htc : t ≠ s.current := hi.placed.ne_current ht
      rcases unblock_cases c htc with ⟨-, h1, -⟩ | ⟨-, h1, -⟩
      · rw [h1, hc]
        exact ⟨by simp, by simp⟩
      · exact absurd h1 h.control
    | service hs => cases hs
  | ret hc =>
    have hx : ¬ Expires s := fun h1 => h.keeps (.ret h1)
    cases step_cases he with
    | ret c hc' =>
      rcases ret_cases hc' with ⟨-, h1, -, hl, -⟩ | ⟨h1, -⟩
      · refine ⟨by rw [h1]; simp, fun _ => ?_⟩
        rw [queue_congr hl]
        have hpos : 0 < int32 (s.cpuQuantum - 1) := not_le.mp fun h2 => hx ⟨hc, h2⟩
        exact ⟨fun hq hw => hw.2.2.2.1 hq, fun hw => not_not.mp fun hq =>
          hw ⟨rfl, hc, hcur, hq, hpos⟩⟩
      · exact absurd h1 hx
    | service hs => cases hs
  | resume hc =>
    obtain ⟨-, rfl⟩ := step_resume he
    rw [resume_control, hcur, queue_congr (resume_resumed s).links]
    -- back into the console code, or to `cpu_idle` with nobody ready
    rcases hI.loaded hcur hc with ⟨h1, hq⟩ | h1
    · refine ⟨?_, fun _ => iff_of_true hq (hno (by simp))⟩
      rcases h1 with h1 | h1
      · rw [h1]
        simp
      · rw [h1]
        simp
    · rw [h1]
      exact ⟨by simp, by simp⟩

/-- idle gives the processor away -/
theorem IdleStack.leaves (hI : IdleStack s) (hi : Inv s) (hcur : s.current = s.idleTask)
    (h : Switches s e s') (he : step s e = some s') :
    (leftAt s e = .clockRoutine ∧ entered s e = []) ∨
      (leftAt s e = .console .clockRoutine ∧ ∃ t, t ≠ s.idleTask ∧ entered s e = [t, s.idleTask]) := by
  have hy := h.yields
  cases hI.event hcur he with
  | clock => cases hy
  | unblock i t hc ht =>
    cases hy with
    | unblock _ _ hq =>
      refine Or.inr ⟨?_, t, fun e => ?_, ?_⟩
      · unfold leftAt
        rw [hc]
      · exact hi.placed.apart.tidy.idle (.blocked i) (by simp) (e ▸ ht)
      · unfold entered
        rw [if_pos hq, hcur]
  | ret hc => exact Or.inl ⟨rfl, entered_idle_ret hi hcur⟩
  | resume hc => cases hy

/-- a process gets the processor: idle stays as it was, or joins the ready queue -/
theorem IdleStack.away_of_switch (hI : IdleStack s) (hi : Inv s) (h : Switches s e s')
    (he : step s e = some s') (hne : s'.current ≠ s'.idleTask) :
    (Outside (s'.task s'.idleTask).kernelEsp ∧ s'.idleTask ∉ queue s' .readyqueue) ∨
      ((s'.task s'.idleTask).kernelEsp = .console .clockRoutine ∧
        s'.idleTask ∈ queue s' .readyqueue) := by
  have hesp := h.kernelEsp s.idleTask
  have hnext := h.next
  rw [step_idleTask hi he] at hne ⊢
  generalize hR : queue s .readyqueue ++ entered s e = R at hnext
  have hmem : s.idleTask ∈ R ↔ s.idleTask ∈ queue s .readyqueue ∨ s.idleTask ∈ entered s e := by
    rw [← hR, List.mem_append]
  cases hnext with
  | idle h1 _ _ => exact absurd h1 hne
  | head t l h1 _ h3 =>
    have hl : s.idleTask ∈ queue s' .readyqueue ↔ s.idleTask ∈ t :: l := by
      rw [h3, List.mem_cons]
      exact ⟨Or.inr, fun h4 => h4.resolve_left fun e => hne (h1.trans e.symm)⟩
    rw [hl, hmem]
    by_cases hcur : s.current = s.idleTask
    · have hnr : s.idleTask ∉ queue s .readyqueue := hcur ▸ hi.placed.running .readyqueue
      rw [hesp, if_pos hcur.symm]
      rcases hI.leaves hi hcur h he with ⟨hk, hen⟩ | ⟨hk, t', -, hen⟩
      · rw [hk, hen]
        exact Or.inl ⟨Or.inr rfl, fun h4 => h4.elim hnr List.not_mem_nil⟩
      · rw [hk, hen]
        exact Or.inr ⟨rfl, Or.inr (by simp)⟩
    · rw [hesp, if_neg (Ne.symm hcur), or_iff_left (idle_entered hi hcur he)]
      exact hI.away hcur

/-- idle gets the processor: nobody is ready, or it waited in the ready queue -/
theorem IdleStack.loaded_of_switch (hI : IdleStack s) (hi : Inv s) (h : Switches s e s')
    (he : step s e = some s') (hcur' : s'.current = s'.idleTask) :
    (Outside (s'.task s'.idleTask).kernelEsp ∧ queue s' .readyqueue = []) ∨
      (s'.task s'.idleTask).kernelEsp = .console .clockRoutine := by
  have hesp := h.kernelEsp s.idleTask
  have hnext := h.next
  rw [step_idleTask hi he] at hcur' ⊢
  generalize hR : queue s .readyqueue ++ entered s e = R at hnext
  have hmem : s.idleTask ∈ R ↔ s.idleTask ∈ queue s .readyqueue ∨ s.idleTask ∈ entered s e := by
    rw [← hR, List.mem_append]
  by_cases hcur : s.current = s.idleTask
  · have hnr : s.idleTask ∉ queue s .readyqueue := hcur ▸ hi.placed.running .readyqueue
    rw [hesp, if_pos hcur.symm]
    rcases hI.leaves hi hcur h he with ⟨hk, hen⟩ | ⟨hk, -⟩
    · rw [hk]
      refine Or.inl ⟨Or.inr rfl, ?_⟩
      cases hnext with
      | idle _ _ h3 => exact h3
      | head t l h1 _ _ =>
        have h4 := hmem.mp (hcur' ▸ h1 ▸ List.mem_cons_self)
        rw [hen] at h4
        exact absurd h4 (fun h5 => h5.elim hnr List.not_mem_nil)
    · exact Or.inr hk
  · rw [hesp, if_neg (Ne.symm hcur)]
    cases hnext with
    | idle _ _ h3 =>
      refine (hI.away hcur).elim (fun h4 => Or.inl ⟨h4.1, h3⟩) fun h4 => ?_
      exact absurd (hmem.mpr (Or.inl h4.2)) List.not_mem_nil
    | head t l h1 _ _ =>
      have h4 := hmem.mp (hcur' ▸ h1 ▸ List.mem_cons_self)
      rw [or_iff_left (idle_entered hi hcur he)] at h4
      exact (hI.away hcur).elim (fun h5 => absurd h4 h5.2) fun h5 => Or.inr h5.1

theorem step_idleStack (hi : Inv s) (hI : IdleStack s) (he : step s e = some s') :
    IdleStack s' := by
  have hid := step_idleTask hi he
  have hfree : s.idleTask ∉ queue s .freequeue := hi.placed.apart.tidy.idle .freequeue (by decide)
  rcases step_turns hi he with h | h
  · refine ⟨fun hne => ?_, fun _ hc => absurd hc h.control, fun hcur => ?_⟩
    · -- another task keeps the processor
      rw [h.current, hid] at hne
      rw [hid, h.kernelEsp _ hfree, h.ready, List.mem_append, or_iff_left (idle_entered hi hne he)]
      exact hI.away hne
    · rw [h.current, hid] at hcur
      exact (hI.stays hi hcur h he).1
  · refine ⟨hI.away_of_switch hi h he, fun hcur _ => hI.loaded_of_switch hi h he hcur, ?_⟩
    rw [h.control]
    simp

/-! ## runs -/

theorem step_conserving_iff (hi : Inv s) (hI : IdleStack s) (he : step s e = some s') :
    WorkConserving s' ↔ ¬ Wastes s e := by
  have hid := step_idleTask hi he
  rcases step_turns hi he with h | h
  · by_cases hcur : s.current = s.idleTask
    · have hcur' : s'.current = s'.idleTask := by rw [h.current, hid, hcur]
      obtain ⟨-, hiff⟩ := hI.stays hi hcur h he
      by_cases hu : s'.control = .user
      · exact ⟨fun hw => (hiff hu).mp (hw hu hcur'), fun hw _ _ => (hiff hu).mpr hw⟩
      · refine ⟨fun _ hw => ?_, fun _ h1 => absurd h1 hu⟩
        obtain ⟨rfl, hc, -, -, hpos⟩ := hw
        cases step_cases he with
        | ret c hc' =>
          rcases ret_cases hc' with ⟨-, h1, -⟩ | ⟨h1, -⟩
          · exact hu h1
          · exact absurd h1.2 (not_le.mpr hpos)
        | service hs => cases hs
    · refine iff_of_true (fun _ h1 => ?_) fun hw => hcur hw.2.2.1
      exact absurd (h.current.symm.trans (h1.trans hid)) hcur
  · refine iff_of_true (fun h1 => ?_) fun hw => ?_
    · rw [h.control] at h1
      cases h1
    · obtain ⟨rfl, -, -, -, hpos⟩ := hw
      cases h.yields with
      | ret hx => exact absurd hx.2 (not_le.mpr hpos)

theorem boot_idleStack (mem : Nat → Byte) (tsc : Nat → DWord) : IdleStack (boot mem tsc) := by
  have hne : (boot mem tsc).current ≠ (boot mem tsc).idleTask := by
    rw [boot_current, boot_idleTask]
    decide
  refine ⟨fun _ => Or.inl ⟨?_, ?_⟩, fun h => absurd h hne, fun h => absurd h hne⟩
  · rw [boot_idleTask, boot_idle]
    exact Or.inl rfl
  · rw [boot_queue]
    exact List.not_mem_nil

/-- **Idle runs only when nobody is ready**, in a run in which no clock interrupt returns to idle
while a process is ready, and there only. -/
theorem work_conserving (mem : Nat → Byte) (tsc : Nat → DWord) (es : List Event) :
    Always step WorkConserving (boot mem tsc) es ↔
      Guarded step (fun s e => ¬ Wastes s e) (boot mem tsc) es := by
  refine always_iff_guarded (I := fun s => Inv s ∧ IdleStack s)
    ⟨boot_inv mem tsc, boot_idleStack mem tsc⟩ (fun _ h => ?_) ?_ ?_ es
  · rw [boot_current, boot_idleTask] at h
    exact absurd h (by decide)
  · intro s e s' hI _ he
    exact ⟨step_inv hI.1 he, step_idleStack hI.1 hI.2 he⟩
  · intro s e s' hI _ he
    exact step_conserving_iff hI.1 hI.2 he

/-- The initial process uses up its first slice, and blocks with a new quantum.  The next clock
tick wakes it, and idle goes on. -/
theorem idle_keeps :
    ∃ s, run step (boot (fun _ => 0) fun _ => 0)
      [.clock, .ret, .resume, .read, .block 0, .resume, .clock, .unblock 0 8, .ret] = some s ∧
      ¬ WorkConserving s := by
  have h : (run step (boot (fun _ => 0) fun _ => 0)
      [.clock, .ret, .resume, .read, .block 0, .resume, .clock, .unblock 0 8, .ret]).map
        (fun s => (s.control, s.current, s.idleTask, queue s .readyqueue)) =
      some (.user, 9, 9, [8]) := by decide +kernel
  obtain ⟨s, hr, hs⟩ := Option.map_eq_some_iff.mp h
  simp only [Prod.mk.injEq] at hs
  obtain ⟨h1, h2, h3, h4⟩ := hs
  refine ⟨s, hr, fun hw => ?_⟩
  have hq := hw h1 (h2.trans h3.symm)
  rw [h4] at hq
  cases hq

end
end Zeos
