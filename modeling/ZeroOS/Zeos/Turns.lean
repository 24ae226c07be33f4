import ZeroOS.Zeos.Pcbs

/-!
# Zeos: who gets the processor

A step leaves the processor to `current` or hands it on.

* `entered s e`      the tasks that the step puts into the ready queue, in that order;
* `quantumLeft s e`  CPU_QUANTUM after `update_sched_data`, if the step gets there;
* `Yields s e`       the step calls `sched_next`;
* `Stays s e s'`     the current task keeps the processor;
* `Switches s e s'`  `sched_next_rr` gives it to the head of the queue, or to idle;
* `step_turns`       a step does one or the other.
-/

set_option linter.unusedVariables false

namespace Zeos
open Programs Rings Desks Runs

instance (s : State) : Decidable (Expires s) := inferInstanceAs (Decidable (_ ∧ _))

def entered (s : State) : Event → List Task
  | .fork =>
    match queue s .freequeue with
    | [] => []
    | child :: _ => [child]
  | .unblock _ t => t :: if s.cpuQuantum ≤ 0 then [s.current] else []
  | .ret => if Expires s ∧ (s.task s.current).pid ≠ 0 then [s.current] else []
  | _ => []

/-- `update_sched_data` charges a clock interrupt to the current task -/
def Ticked (s : State) (e : Event) : Prop := e = .ret ∧ s.control = .console .clockRoutine

instance (s : State) (e : Event) : Decidable (Ticked s e) := inferInstanceAs (Decidable (_ ∧ _))

def quantumLeft (s : State) (e : Event) : Int :=
  if Ticked s e then int32 (s.cpuQuantum - 1) else s.cpuQuantum

/-- where the task goes on that the step takes the processor from -/
def leftAt (s : State) : Event → Resume
  | .exit => .sysExit
  | .ret => .clockRoutine
  | _ =>
    match s.control with
    | .console c => .console c
    | _ => .empty

/-- the steps that call `sched_next` -/
inductive Yields (s : State) : Event → Prop where
  | exit : Yields s .exit
  | block (i : Nat) : Yields s (.block i)
  | unblock (i : Nat) (t : Task) : s.cpuQuantum ≤ 0 → Yields s (.unblock i t)
  | ret : Expires s → Yields s .ret

structure Stays (s : State) (e : Event) (s' : State) : Prop where
  keeps : ¬ Yields s e
  control : s'.control ≠ .switched
  current : s'.current = s.current
  ready : queue s' .readyqueue = queue s .readyqueue ++ entered s e
  cpuQuantum : s'.cpuQuantum = quantumLeft s e
  kernelEsp : ∀ u, u ∉ queue s .freequeue → (s'.task u).kernelEsp = (s.task u).kernelEsp

/-- what `sched_next_rr` finds in the queue `l`, with `n` in CPU_QUANTUM -/
inductive Next (s : State) (n : Int) (s' : State) : List Task → Prop where
  | idle : s'.current = s.idleTask → s'.cpuQuantum = n → queue s' .readyqueue = [] →
      Next s n s' []
  | head (t : Task) (l : List Task) : s'.current = t → s'.cpuQuantum = (s.task t).quantum →
      queue s' .readyqueue = l → Next s n s' (t :: l)

structure Switches (s : State) (e : Event) (s' : State) : Prop where
  yields : Yields s e
  control : s'.control = .switched
  next : Next s (quantumLeft s e) s' (queue s .readyqueue ++ entered s e)
  kernelEsp : ∀ u, (s'.task u).kernelEsp =
    if u = s.current then leftAt s e else (s.task u).kernelEsp

section
variable {s s' w : State} {e : Event} {d : Desk Task Queue}

theorem schedNextRr_next (h : Rep w d) (k : Resume) :
    Next w w.cpuQuantum (schedNextRr k w) (d.queue .readyqueue) := by
  have hrep := schedNextRr_rep h k
  have hcur := hrep.current
  have hready := hrep.queue_eq .readyqueue
  rw [Desk.dispatch_running] at hcur
  unfold Desk.dispatch at hready
  cases hq : d.queue .readyqueue with
  | nil =>
    rw [hq] at hcur hready
    have he : listEmpty w.links (.queue .readyqueue) = true := (h.linked.empty_iff _).mpr hq
    have hn : (schedNextRr k w).cpuQuantum = w.cpuQuantum := by
      unfold schedNextRr
      rw [if_pos he]
      rfl
    exact .idle hcur hn (hready.trans hq)
  | cons t l =>
    rw [hq] at hcur hready
    dsimp only at hready
    exact .head t l hcur (schedNextRr_cpuQuantum h hq k) (hready.trans (Function.update_self ..))

theorem Next.congr {n : Int} {l : List Task} (h : Next w n s' l) (hi : w.idleTask = s.idleTask)
    (hq : ∀ t, (w.task t).quantum = (s.task t).quantum) : Next s n s' l := by
  cases h with
  | idle h1 h2 h3 => exact .idle (h1.trans hi) h2 h3
  | head t l h1 h2 h3 => exact .head t l h1 (h2.trans (hq t)) h3

/-- `sched_next` in the state `w` of a system call or an interrupt, on its way from `s` -/
theorem Switches.of_sched (hy : Yields s e) (h : Rep w d) (hi : w.idleTask = s.idleTask)
    (hc : w.current = s.current) (hq : d.queue .readyqueue = queue s .readyqueue ++ entered s e)
    (hn : w.cpuQuantum = quantumLeft s e)
    (ht : ∀ u, (w.task u).quantum = (s.task u).quantum ∧
      (u ≠ s.current → (w.task u).kernelEsp = (s.task u).kernelEsp)) :
    Switches s e (schedNextRr (leftAt s e) w) := by
  have hsw := schedNextRr_switched (leftAt s e) w
  refine ⟨hy, hsw.control, ?_, fun u => ?_⟩
  · rw [← hq, ← hn]
    exact (schedNextRr_next h (leftAt s e)).congr hi fun t => (ht t).1
  · rw [hsw.task, hc]
    by_cases hu : u = s.current
    · rw [if_pos hu, if_pos hu]
      rfl
    · rw [if_neg hu, if_neg hu]
      exact (ht u).2 hu

theorem Stays.of_unmoved (hy : ¬ Yields s e) (h : Unmoved s s') (hc : s'.control ≠ .switched)
    (hn : entered s e = []) (ht : ¬ Ticked s e) : Stays s e s' := by
  refine ⟨hy, hc, h.current, ?_, ?_, fun u _ => h.kernelEsp u⟩
  · rw [queue_congr h.links, hn, List.append_nil]
  · rw [h.cpuQuantum, quantumLeft, if_neg ht]

theorem not_ticked (he : e ≠ .ret) : ¬ Ticked s e := fun h => he h.1

theorem quantumLeft_of_ne (he : e ≠ .ret) : quantumLeft s e = s.cpuQuantum := if_neg (not_ticked he)

theorem quantumLeft_ret (hc : s.control = .console .clockRoutine) :
    quantumLeft s .ret = int32 (s.cpuQuantum - 1) := if_pos ⟨rfl, hc⟩

/-- a task that joins another queue -/
theorem put_ready (d : Desk Task Queue) {q : Queue} (hq : q ≠ .readyqueue) (t : Task) :
    (d.put q t).queue .readyqueue = d.queue .readyqueue ++ [] := by
  rw [Desk.put_queue_of_ne hq.symm, List.append_nil]

/-! ## the steps that may switch -/

theorem exit_switches (hi : Inv s) (hu : inUser s) : Switches s .exit (sysExit s) := by
  have hrep := updateCurrentStateRr_rep (exitStart_rep hi.placed.rep) hi.placed.running .freequeue
  rw [sysExit_eq]
  generalize hw : updateCurrentStateRr .freequeue (exitStart s) = w at hrep ⊢
  have hcur : w.current = s.current := by
    rw [← hw, updateCurrentStateRr, State.setLinks_current, exitStart, State.setTask_current,
      State.setMm_current]
    rfl
  have hn : w.cpuQuantum = quantumLeft s .exit := by
    rw [← hw, updateCurrentStateRr, State.setLinks_cpuQuantum, exitStart,
      State.setTask_cpuQuantum, quantumLeft_of_ne (by simp)]
    rfl
  have hidle : w.idleTask = s.idleTask := by
    rw [← hw, updateCurrentStateRr, State.setLinks_idleTask, exitStart_idleTask]
  refine .of_sched .exit hrep hidle hcur (put_ready _ (by decide) _) hn fun u => ?_
  rw [← hw, updateCurrentStateRr, State.setLinks_task, exitStart_task]
  by_cases h : u = s.current
  · rw [if_pos h, h]
    exact ⟨rfl, fun h1 => absurd rfl h1⟩
  · rw [if_neg h]
    exact ⟨rfl, fun _ => rfl⟩

theorem block_switches (hi : Inv s) {c : Caller} (hc : s.control = .console c) (i : Nat) :
    Switches s (.block i) (blockProcess c (.blocked i) s) := by
  let w := ((updateCurrentStateRr (.blocked i) s).account s.current
    TaskStruct.assignSystem).setTState s.current .stBlocked
  have hk : leftAt s (.block i) = .console c := by
    unfold leftAt
    rw [hc]
  have hrep : Rep w ((desk s).put (.blocked i) (desk s).running) :=
    (updateCurrentStateRr_rep hi.placed.rep hi.placed.running (.blocked i)).congr rfl rfl
  have htask : ∀ u, u ≠ s.current → w.task u = s.task u := by
    intro u h
    show (State.setTState _ s.current .stBlocked).task u = _
    unfold State.setTState
    dsimp only
    rw [State.setTask_task, if_neg h, account_task, if_neg h]
    rfl
  have hkept : Kept s w :=
    ((updateCurrentStateRr_kept (.blocked i) s).trans (account_kept _ _ assignSystem_ident)).trans
      (setTState_kept ..)
  have h := Switches.of_sched (s := s) (.block i) hrep rfl rfl (put_ready _ (by simp) _)
    (quantumLeft_of_ne (by simp)).symm fun u => ⟨hkept.quantum u, fun h => by rw [htask u h]⟩
  rw [hk] at h
  exact h

theorem move_ready {d : Desk Task Queue} {i : Nat} {t idle : Task} :
    (d.after idle .readyqueue (.move (.blocked i) .readyqueue t)).queue .readyqueue =
      d.queue .readyqueue ++ [t] := by
  show ((d.take (.blocked i) t).put .readyqueue t).queue .readyqueue = _
  rw [Desk.put_queue_self, Desk.take_queue_of_ne (by simp)]

theorem unblock_turns (hi : Inv s) {c : Caller} (hc : s.control = .console c) {i : Nat} {t : Task}
    (ht : t ∈ queue s (.blocked i)) :
    Stays s (.unblock i t) (unblockProcess c t s) ∨
      Switches s (.unblock i t) (unblockProcess c t s) := by
  have hti : t ≠ s.idleTask := fun e =>
    hi.placed.apart.tidy.idle (.blocked i) (by simp) (e ▸ ht)
  have hap := hi.placed.apart.after (m := .move (.blocked i) .readyqueue t) ⟨ht, hti⟩
  have hrep : Rep (wake t s) ((desk s).after s.idleTask .readyqueue
      (.move (.blocked i) .readyqueue t)) :=
    ⟨wake_linked hi.placed.rep hi.placed.apart.tidy ht, rfl⟩
  have hesp : ∀ u, ((wake t s).task u).quantum = (s.task u).quantum ∧
      ((wake t s).task u).kernelEsp = (s.task u).kernelEsp := by
    intro u
    rw [wake_task]
    by_cases h : u = t
    · rw [if_pos h]
      exact ⟨rfl, rfl⟩
    · rw [if_neg h]
      exact ⟨rfl, rfl⟩
  have hk : leftAt s (.unblock i t) = .console c := by
    unfold leftAt
    rw [hc]
  rw [unblockProcess_eq]
  by_cases hq : s.cpuQuantum ≤ 0
  · rw [if_pos hq]
    right
    have hen : entered s (.unblock i t) = [t] ++ [s.current] := by
      unfold entered
      rw [if_pos hq]
      rfl
    have h := Switches.of_sched (s := s) (.unblock i t hq)
      (updateCurrentStateRr_rep hrep hap.running .readyqueue) rfl rfl ?_
      (quantumLeft_of_ne (by simp)).symm fun u => ⟨(hesp u).1, fun _ => (hesp u).2⟩
    · rw [hk] at h
      exact h
    · rw [Desk.put_queue_self, move_ready, hen, List.append_assoc]
      rfl
  · rw [if_neg hq]
    left
    have hen : entered s (.unblock i t) = [t] := by
      unfold entered
      rw [if_neg hq]
    refine ⟨fun hy => ?_, ?_, rfl, ?_, (quantumLeft_of_ne (by simp)).symm, fun u _ => (hesp u).2⟩
    · cases hy with
      | unblock _ _ h => exact hq h
    · show s.control ≠ .switched
      rw [hc]
      simp
    · rw [hrep.queue_eq, move_ready, hen]
      rfl

theorem ret_turns (hi : Inv s) {c : Caller} (hc : s.control = .console c) :
    Stays s .ret (consoleReturn c s) ∨ Switches s .ret (consoleReturn c s) := by
  cases c with
  | sysRead =>
    left
    have hno : ¬ Expires s := fun h => nomatch hc.symm.trans h.1
    refine .of_unmoved (fun hy => ?_) (.of_task rfl rfl rfl rfl rfl rfl rfl rfl)
      (by simp [consoleReturn]) ?_ ?_
    · cases hy with
      | ret h => exact hno h
    · exact if_neg fun h => hno h.1
    · exact fun h => nomatch hc.symm.trans h.2
  | clockRoutine =>
    show Stays s .ret (clockReturn s) ∨ Switches s .ret (clockReturn s)
    have h1 : Rep (updateSchedDataRr s) (desk s) := hi.placed.rep.congr rfl rfl
    have hn := quantumLeft_ret hc
    rw [clockReturn_eq]
    by_cases hq : int32 (s.cpuQuantum - 1) ≤ 0
    · rw [if_pos hq]
      right
      by_cases hp : (s.task s.current).pid ≠ 0
      · rw [if_pos hp]
        have hen : entered s .ret = [s.current] := if_pos ⟨⟨hc, hq⟩, hp⟩
        refine .of_sched (.ret ⟨hc, hq⟩) (updateCurrentStateRr_rep h1 hi.placed.running .readyqueue)
          rfl rfl ?_ hn.symm fun u => ⟨rfl, fun _ => rfl⟩
        rw [Desk.put_queue_self, hen]
        rfl
      · rw [if_neg hp]
        have hen : entered s .ret = [] := if_neg fun h => hp h.2
        have h2 : Rep (actStatsSurtIdle (updateSchedDataRr s)) (desk s) := h1.congr rfl rfl
        have hun : Unmoved (updateSchedDataRr s) (actStatsSurtIdle (updateSchedDataRr s)) :=
          actTicks_unmoved ..
        refine .of_sched (.ret ⟨hc, hq⟩) h2 rfl rfl ?_ hn.symm fun u =>
          ⟨hun.kept.quantum u, fun _ => hun.kernelEsp u⟩
        rw [hen, List.append_nil]
        rfl
    · rw [if_neg hq]
      left
      have hno : ¬ Expires s := fun h => hq h.2
      have hun : Unmoved (updateSchedDataRr s) (clockExit (updateSchedDataRr s)) :=
        (actTicks_unmoved ..).trans (.of_task rfl rfl rfl rfl rfl rfl rfl rfl)
      refine ⟨fun hy => ?_, by simp [clockExit], rfl, ?_, hn.symm, fun u _ => hun.kernelEsp u⟩
      · cases hy with
        | ret h => exact hno h
      · rw [queue_congr hun.links, show entered s .ret = [] from if_neg fun h => hno h.1,
          List.append_nil]
        rfl

/-- a service neither queues a task nor switches -/
theorem service_quiet (hs : e.service = true) : entered s e = [] ∧ e ≠ .ret ∧ ¬ Yields s e := by
  cases e with
  | fork | exit | read | clock | block | unblock | ret | resume => cases hs
  | _ => exact ⟨rfl, by simp, fun hy => nomatch hy⟩

/-- **A step leaves the processor to the current task, or hands it on.** -/
theorem step_turns (hi : Inv s) (he : step s e = some s') : Stays s e s' ∨ Switches s e s' := by
  cases step_cases he with
  | fork hu hf =>
    left
    have hns : s.control ≠ .switched := by
      rw [hu.1]
      simp
    rcases hi.forked hu hf with ⟨hq, -, hserv⟩ | ⟨child, rest, fs, hq, -, -, hsp, -⟩
    · exact .of_unmoved (fun hy => nomatch hy) hserv.unmoved (hserv.control ▸ hns)
        (by simp only [entered, hq]) (not_ticked (by simp))
    · have hc : child ∈ queue s .freequeue := hq ▸ List.mem_cons_self
      refine ⟨fun hy => (nomatch hy), hsp.control ▸ hns, hsp.rep.current, ?_, ?_, fun u hu' => ?_⟩
      · rw [hsp.rep.queue_eq]
        simp only [entered, hq]
        show (((desk s).take .freequeue child).put .readyqueue child).queue .readyqueue = _
        rw [Desk.put_queue_self, Desk.take_queue_of_ne (by decide)]
        rfl
      · rw [hsp.cpuQuantum, quantumLeft_of_ne (by simp)]
      · have hne : u ≠ child := fun e => hu' (e ▸ hc)
        rw [hsp.task, if_neg hne]
        by_cases h : u = s.current
        · rw [if_pos h, h]
          rfl
        · rw [if_neg h]
  | exit hu => exact Or.inr (exit_switches hi hu)
  | read hu =>
    left
    exact .of_unmoved (fun hy => nomatch hy) (.of_task rfl rfl rfl rfl rfl rfl rfl rfl) (by simp) rfl
      (not_ticked (by simp))
  | service hs hu hserv =>
    left
    have hns : s'.control ≠ .switched := by
      rw [hserv.control, hu.1]
      simp
    obtain ⟨hen, hne, hy⟩ := service_quiet (s := s) hs
    exact .of_unmoved hy hserv.unmoved hns hen (not_ticked hne)
  | clock hu =>
    left
    have hun : Unmoved s (clockEnter s) :=
      (actTicks_unmoved .user s.current s).trans (.of_task rfl rfl rfl rfl rfl rfl rfl rfl)
    exact .of_unmoved (fun hy => nomatch hy) hun (by simp [clockEnter]) rfl (not_ticked (by simp))
  | block c i hc hne => exact Or.inr (block_switches hi hc i)
  | unblock c i t hc ht => exact unblock_turns hi hc ht
  | ret c hc => exact ret_turns hi hc
  | resume hc =>
    left
    have hres := resume_resumed s
    refine ⟨fun hy => (nomatch hy), ?_, hres.current, ?_, ?_, fun u _ => ?_⟩
    · rw [resume_control]
      split <;> simp
    · rw [queue_congr hres.links]
      exact (List.append_nil _).symm
    · rw [hres.cpuQuantum, quantumLeft_of_ne (by simp)]
    · rw [resume_task]
      by_cases h : u = s.current
      · rw [if_pos h]
        unfold TaskStruct.resumed
        cases hk : (s.task u).kernelEsp <;> exact hk
      · rw [if_neg h]

end
end Zeos
