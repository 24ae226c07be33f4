import ZeroOS.Zeos.AddressSpaces
import ZeroOS.Zeos.Pids

/-!
# Zeos: where the tasks are

* `OnePlace`          every PCB is in one place, once;
* `Drops s e`         a clock tick that takes the CPU from a process with the PID 0, as from idle;
* `one_place`         **no PCB is lost** unless a step drops it: PIDs would have to wrap around;
* `laps`              a run in which they do;
* `IdleAside`         idle is not in the ready queue, and runs only if that is empty;
* `idle_not_queued`   **idle is queued** by an `unblock_process` that takes the CPU from it.
-/

set_option linter.unusedVariables false

namespace Zeos
open Programs Rings Desks Runs

section
variable {s s' : State} {e : Event}

theorem step_idleTask (hi : Inv s) (he : step s e = some s') : s'.idleTask = s.idleTask := by
  cases step_evolves hi he with
  | still hk hr hf => exact hk.idleTask
  | fork child rest fs hu hq hlen hg hsp => exact hsp.idleTask
  | exit hu hx => exact hx.idleTask

theorem step_desk (hi : Inv s) (he : step s e = some s') :
    desk s' = (desk s).afterAll s.idleTask .readyqueue (moves s e) :=
  (step_moves hi he).2.desk_eq

/-! ## one place -/

structure OnePlace (s : State) : Prop where
  rings : Linked s.links (queue s)
  task : ∀ t, t ≠ s.idleTask → (t = s.current ∧ ∀ q, t ∉ queue s q) ∨
    (t ≠ s.current ∧ ∃ q, (queue s q).count t = 1 ∧ ∀ r, r ≠ q → t ∉ queue s r)
  idleOnce : (queue s .readyqueue).count s.idleTask ≤ 1
  idleElsewhere : ∀ q, q ≠ .readyqueue → s.idleTask ∉ queue s q
  idleRunning : s.current = s.idleTask → ∀ q, s.idleTask ∉ queue s q

/-- all but one part of it holds in every state -/
theorem onePlace_iff (hp : Placed s) : OnePlace s ↔ (desk s).Complete s.idleTask := by
  have htidy := hp.apart.tidy
  refine ⟨fun h t ht => ?_, fun h => ?_⟩
  · obtain ⟨h1, -⟩ | ⟨-, q, h1, -⟩ := h.task t ht
    · exact Or.inl h1
    · refine Or.inr ⟨q, List.one_le_count_iff.mp ?_⟩
      exact h1.ge
  · refine ⟨hp.rep.linked, fun t ht => ?_, ?_, htidy.idle, fun e => e ▸ hp.running⟩
    · by_cases hc : t = s.current
      · exact Or.inl ⟨hc, hc ▸ hp.running⟩
      · obtain ⟨q, hq⟩ := (h t ht).resolve_left hc
        refine Or.inr ⟨hc, q, ?_, fun r hr => htidy.once q r hr.symm t hq⟩
        exact List.count_eq_one_of_mem (htidy.nodup q) hq
    · exact List.nodup_iff_count_le_one.mp (htidy.nodup .readyqueue) s.idleTask

/-- `clock_routine` takes the CPU from a process that has the PID of idle -/
def Drops (s : State) (e : Event) : Prop :=
  e = .ret ∧ s.control = .console .clockRoutine ∧ int32 (s.cpuQuantum - 1) ≤ 0 ∧
    s.current ≠ s.idleTask ∧ (s.task s.current).pid = 0

/-- the move `drop` is the end of a quantum, of a task with the PID 0 -/
theorem moves_drop (s : State) (e : Event) :
    (moves s e = [.drop] ∧ e = .ret ∧ s.control = .console .clockRoutine ∧
        int32 (s.cpuQuantum - 1) ≤ 0 ∧ (s.task s.current).pid = 0) ∨
      (∀ m ∈ moves s e, m ≠ .drop) ∧ ¬ Drops s e := by
  have hno : ∀ l : List (Move Task Queue), e ≠ .ret → (∀ m ∈ l, m ≠ Move.drop) →
      (∀ m ∈ l, m ≠ .drop) ∧ ¬ Drops s e := fun l he hl => ⟨hl, fun hd => he hd.1⟩
  have hone : ∀ m : Move Task Queue, m ≠ .drop → ∀ m' ∈ [m], m' ≠ .drop :=
    fun m hm m' hm' => (List.mem_singleton.mp hm') ▸ hm
  have hnil : ∀ m ∈ ([] : List (Move Task Queue)), m ≠ .drop := fun m hm => nomatch hm
  cases e with
  | ret =>
    unfold moves
    dsimp only
    by_cases hc : s.control = .console .clockRoutine
    · rw [hc]
      dsimp only
      by_cases hq : int32 (s.cpuQuantum - 1) ≤ 0
      · rw [if_pos hq]
        by_cases hp : (s.task s.current).pid ≠ 0
        · rw [if_pos hp]
          exact Or.inr ⟨hone _ (by simp), fun hd => hp hd.2.2.2.2⟩
        · rw [if_neg hp]
          exact Or.inl ⟨rfl, rfl, rfl, hq, not_not.mp hp⟩
      · rw [if_neg hq]
        exact Or.inr ⟨hnil, fun hd => hq hd.2.2.1⟩
    · refine Or.inr ⟨?_, fun hd => hc hd.2.1⟩
      split
      · exact absurd ‹_› hc
      · exact hnil
  | fork =>
    refine Or.inr (hno _ (by simp) ?_)
    unfold moves
    dsimp only
    split
    · exact hnil
    · exact hone _ (by simp)
  | unblock i t =>
    refine Or.inr (hno _ (by simp) ?_)
    unfold moves
    intro m hm
    obtain rfl | hm := List.mem_cons.mp hm
    · simp
    · revert hm
      split
      · exact hone _ (by simp) m
      · exact hnil m
  | exit => exact Or.inr (hno _ (by simp) (hone _ (by simp)))
  | block i => exact Or.inr (hno _ (by simp) (hone _ (by simp)))
  | _ => exact Or.inr (hno _ (by simp) hnil)

theorem step_complete_iff (hi : Inv s) (hc : (desk s).Complete s.idleTask)
    (he : step s e = some s') : (desk s').Complete s'.idleTask ↔ ¬ Drops s e := by
  have hl := (step_moves hi he).1
  rw [step_idleTask hi he, step_desk hi he]
  obtain ⟨hm, h1, h2, h3, h4⟩ | ⟨hm, hd⟩ := moves_drop s e
  · rw [hm] at hl ⊢
    refine Iff.trans (Desk.complete_after_iff hi.placed.apart hc hl.1) ?_
    refine ⟨fun h hd => hd.2.2.2.1 (h rfl), fun h _ => ?_⟩
    by_contra hne
    exact h ⟨h1, h2, h3, hne, h4⟩
  · exact ⟨fun _ => hd, fun _ => hi.placed.apart.complete_afterAll hc hl hm⟩

/-- one process runs, and the other PCBs are free -/
theorem complete_of_live (h : ∀ t, live s t → t = s.current) : (desk s).Complete s.idleTask := by
  intro t ht
  by_cases hf : t ∈ queue s .freequeue
  · exact Or.inr ⟨.freequeue, hf⟩
  · exact Or.inl (h t ⟨ht, hf⟩)

theorem boot_complete (mem : Nat → Byte) (tsc : Nat → DWord) :
    (desk (boot mem tsc)).Complete (boot mem tsc).idleTask :=
  complete_of_live fun t ht => ((boot_live mem tsc t).mp ht).trans (boot_current mem tsc).symm

/-- the PIDs have to wrap around before a PCB can be dropped -/
theorem Numbered.not_drops {h : History} (hn : Numbered s h) (hi : Inv s)
    (hlt : h.forks < 4294967295) : ¬ Drops s e := by
  intro hd
  obtain ⟨-, -, -, hne, hpid⟩ := hd
  obtain ⟨k, hk, -⟩ := hn.birth
  obtain ⟨h1, h2⟩ := hk s.current (hi.placed.live_current hne)
  exact pidOf_ne_zero (h1.trans_lt hlt) (h2.symm.trans hpid)

/-- **No PCB is lost or duplicated**, in a run in which no step drops a process, and there only: so
it is in every run with fewer than 2^32 - 1 forks. -/
theorem one_place (mem : Nat → Byte) (tsc : Nat → DWord) :
    (∀ es, Always step OnePlace (boot mem tsc) es ↔
      Guarded step (fun s e => ¬ Drops s e) (boot mem tsc) es) ∧
    ∀ s h, Reachable (tagged step record) (boot mem tsc, noForks (boot mem tsc)) (s, h) →
      h.forks < 4294967295 → OnePlace s := by
  have hb := (onePlace_iff (boot_inv mem tsc).placed).mpr (boot_complete mem tsc)
  refine ⟨fun es => ?_, fun s h hr hlt => ?_⟩
  · apply always_iff_guarded (I := Inv) (boot_inv mem tsc) hb
    · exact fun s e s' hi _ he => step_inv hi he
    · intro s e s' hi hP he
      rw [onePlace_iff (step_inv hi he).placed]
      exact step_complete_iff hi ((onePlace_iff hi.placed).mp hP) he
  · let I (s : State) (h : History) : Prop :=
      Inv s ∧ Numbered s h ∧ (h.forks < 4294967295 → (desk s).Complete s.idleTask)
    have hinv : I s h := by
      apply hr.tagged (I := I)
      · exact ⟨boot_inv mem tsc, boot_numbered mem tsc, fun _ => boot_complete mem tsc⟩
      · intro s h e s' hx he
        obtain ⟨hi, hn, hc⟩ := hx
        refine ⟨step_inv hi he, step_numbered hi hn he, fun hlt => ?_⟩
        have hle : h.forks < 4294967295 := (record_forks_le s e s' h).trans_lt hlt
        exact (step_complete_iff hi (hc hle) he).mpr (hn.not_drops hi hle)
    exact (onePlace_iff hinv.1.placed).mpr (hinv.2.2 hlt)

/-! ## a run that loses a PCB -/

/-- the process forks and exits, and the child gets the CPU -/
def lap : List Event := [.fork, .exit, .resume]

def laps (n : Nat) : List Event := (List.replicate n lap).flatten

/-- clock ticks in which the console code does nothing -/
def ticks (n : Nat) : List Event := (List.replicate n [Event.clock, Event.ret]).flatten

theorem laps_succ (n : Nat) : laps (n + 1) = laps n ++ lap := by
  unfold laps
  rw [List.replicate_succ', List.flatten_append, List.flatten_singleton]

theorem ticks_succ (n : Nat) : ticks (n + 1) = ticks n ++ [.clock, .ret] := by
  unfold ticks
  rw [List.replicate_succ', List.flatten_append, List.flatten_singleton]

/-- One process runs, with the last PID that was given, and nobody waits. -/
structure Alone (s : State) : Prop where
  inv : Inv s
  user : inUser s
  only : ∀ t, live s t → t = s.current
  waiting : queue s .readyqueue = []
  quantum : (s.task s.current).quantum = initialQuantum
  pid : (s.task s.current).pid = s.pidMax

theorem boot_alone (mem : Nat → Byte) (tsc : Nat → DWord) : Alone (boot mem tsc) := by
  refine ⟨boot_inv mem tsc, boot_inUser mem tsc, fun t ht => ?_, ?_, ?_, ?_⟩
  · exact ((boot_live mem tsc t).mp ht).trans (boot_current mem tsc).symm
  · rw [boot_queue]
    rfl
  · rw [boot_current, boot_init]
  · rw [boot_current, boot_init, boot_pidMax]

/-- the process forks, and its child waits alone -/
theorem Alone.fork (h : Alone s) :
    ∃ child fs s₁, child ∈ queue s .freequeue ∧ Spawned s s₁ child fs ∧
      step s .fork = some s₁ ∧ inUser s₁ ∧ s₁.current = s.current ∧ child ≠ s.current ∧
      queue s₁ .readyqueue = [child] := by
  have hi := h.inv
  have hu := h.user
  have hL := hi.live_current hu
  have hone : ∀ t u, live s t → live s u → t = u := fun t u ht hu' =>
    (h.only t ht).trans (h.only u hu').symm
  rcases hi.fork_cases hu with ⟨hq, -⟩ | ⟨child, rest, fs, s₁, hq, -, -, hsp, hr⟩
  · exact absurd hq (exists_free hu hL hone)
  have hc : child ∈ queue s .freequeue := hq ▸ List.mem_cons_self
  have hcur₁ : s₁.current = s.current := hsp.rep.current
  refine ⟨child, fs, s₁, hc, hsp, (if_pos hu).trans (congrArg returned hr),
    ⟨hsp.control.trans hu.1, ?_⟩, hcur₁, fun e => hL.2 (e ▸ hc), ?_⟩
  · rw [hcur₁, hsp.idleTask]
    exact hu.2
  · rw [hsp.rep.queue_eq]
    show (((desk s).take .freequeue child).put .readyqueue child).queue .readyqueue = _
    rw [Desk.put_queue_self, Desk.take_queue_of_ne (by decide)]
    show queue s .readyqueue ++ [child] = [child]
    rw [h.waiting]
    rfl

/-- a lap gives the process a new PCB and the next PID -/
theorem Alone.lap (h : Alone s) :
    ∃ s', run step s Zeos.lap = some s' ∧ Alone s' ∧ s'.pidMax = int32 (s.pidMax + 1) ∧
      s'.cpuQuantum = initialQuantum := by
  have hi := h.inv
  obtain ⟨child, fs, s₁, hc, hsp, he₁, hu₁, hcur₁, hne, hready₁⟩ := h.fork
  have hci := hi.child_ne_idle hc
  have hi₁ := step_inv hi he₁
  -- after the exit the child has the CPU
  have he₂ : step s₁ .exit = some (sysExit s₁) := if_pos hu₁
  have hi₂ := step_inv hi₁ he₂
  have hx := hi₁.exited hu₁
  have hput : ((desk s₁).put .freequeue (desk s₁).running).queue .readyqueue = [child] :=
    (Desk.put_queue_of_ne (by decide) _).trans hready₁
  have hrep₂ : Rep (sysExit s₁) ⟨child, Function.update
      ((desk s₁).put .freequeue (desk s₁).running).queue .readyqueue []⟩ :=
    (Desk.dispatch_cons hput : Desk.dispatch s₁.idleTask Queue.readyqueue _ = _) ▸
      (step_moves hi₁ he₂).2
  have hcur₂ : (sysExit s₁).current = child := hrep₂.current
  have htask₂ : (sysExit s₁).task child = s₁.task child := by
    rw [hx.task, hcur₁, if_neg hne]
  have hswitch : (sysExit s₁).control = .switched := (schedNextRr_switched ..).control
  have hquantum₂ : (sysExit s₁).cpuQuantum = (s₁.task child).quantum := by
    have hrep := updateCurrentStateRr_rep (exitStart_rep hi₁.placed.rep) hi₁.placed.running .freequeue
    rw [sysExit_eq, schedNextRr_cpuQuantum hrep hput, updateCurrentStateRr, State.setLinks_task,
      exitStart_task, hcur₁, if_neg hne]
  have hchild : (s₁.task child).quantum = initialQuantum ∧
      (s₁.task child).kernelEsp = .retFromFork := by
    rw [hsp.task, if_pos rfl]
    exact ⟨h.quantum, rfl⟩
  -- the child leaves the kernel
  have he₃ : step (sysExit s₁) .resume = some (resume (sysExit s₁)) := if_pos hswitch
  have hres := resume_resumed (sysExit s₁)
  have hcur₃ : (resume (sysExit s₁)).current = child := hres.current.trans hcur₂
  have hidle₃ : (resume (sysExit s₁)).idleTask = s.idleTask :=
    (hres.kept.idleTask.trans hx.idleTask).trans hsp.idleTask
  have hcontrol : (resume (sysExit s₁)).control = .user := by
    unfold resume
    rw [hcur₂, htask₂, hchild.2]
  refine ⟨resume (sysExit s₁), ?_, ⟨step_inv hi₂ he₃, ⟨hcontrol, ?_⟩, fun t ht => ?_, ?_, ?_, ?_⟩,
    ?_, ?_⟩
  · rw [Zeos.lap, run_cons, he₁, Option.bind_some, run_cons, he₂, Option.bind_some, run_cons, he₃]
    rfl
  · rw [hcur₃, hidle₃]
    exact hci
  · rw [live_congr hres.kept.idleTask (queue_congr hres.links .freequeue), hx.live_iff,
      hsp.live_iff hi hc] at ht
    rw [hcur₃]
    exact ht.1.resolve_left fun h1 => ht.2 ((h.only t h1).trans hcur₁.symm)
  · rw [queue_congr hres.links, hrep₂.queue_eq]
    exact Function.update_self Queue.readyqueue []
      ((desk s₁).put .freequeue (desk s₁).running).queue
  · rw [hcur₃, hres.kept.quantum, htask₂]
    exact hchild.1
  · rw [hcur₃, hres.kept.pid, htask₂, hsp.pid, if_pos rfl, hres.kept.pidMax, hx.pidMax, hsp.pidMax]
  · rw [hres.kept.pidMax, hx.pidMax, hsp.pidMax]
  · rw [hres.cpuQuantum, hquantum₂]
    exact hchild.1

/-- a tick within the quantum -/
theorem Alone.tick (h : Alone s) (h1 : 1 < s.cpuQuantum) (h2 : s.cpuQuantum ≤ initialQuantum) :
    ∃ s', run step s [.clock, .ret] = some s' ∧ Alone s' ∧ s'.pidMax = s.pidMax ∧
      s'.cpuQuantum = s.cpuQuantum - 1 := by
  have he₁ : step s .clock = some (clockEnter s) := if_pos h.user.1
  have hq : int32 (s.cpuQuantum - 1) = s.cpuQuantum - 1 := by
    simp only [initialQuantum] at h2
    exact int32_eq (by omega) (by omega)
  have hpos : ¬ int32 ((clockEnter s).cpuQuantum - 1) ≤ 0 := by
    show ¬ int32 (s.cpuQuantum - 1) ≤ 0
    omega
  have he₂ : step (clockEnter s) .ret = some (clockExit (updateSchedDataRr (clockEnter s))) := by
    show some (clockReturn (clockEnter s)) = _
    rw [clockReturn_eq, if_neg hpos]
  have hk : Kept s (clockExit (updateSchedDataRr (clockEnter s))) :=
    ((actTicks_kept .user s.current s).trans (actTicks_kept .system s.current _)).trans
      ⟨rfl, rfl, rfl, fun _ => rfl⟩
  have hl : live (clockExit (updateSchedDataRr (clockEnter s))) = live s :=
    live_congr hk.idleTask (queue_congr rfl .freequeue)
  refine ⟨_, ?_, ⟨step_inv (step_inv h.inv he₁) he₂, ⟨rfl, h.user.2⟩, fun t ht => ?_, h.waiting,
    (hk.quantum _).trans h.quantum, (hk.pid _).trans h.pid⟩, rfl, hq⟩
  · rw [run_cons, he₁, Option.bind_some, run_cons, he₂]
    rfl
  · exact h.only t (hl ▸ ht)

theorem laps_run (mem : Nat → Byte) (tsc : Nat → DWord) (n : Nat) :
    ∃ s, run step (boot mem tsc) (laps n) = some s ∧ Alone s ∧ s.pidMax = pidOf n ∧
      (0 < n → s.cpuQuantum = initialQuantum) := by
  induction n with
  | zero =>
    refine ⟨_, rfl, boot_alone mem tsc, ?_, fun h => absurd h (Nat.lt_irrefl 0)⟩
    rw [boot_pidMax]
    decide
  | succ n ih =>
    obtain ⟨s, hr, ha, hp, -⟩ := ih
    obtain ⟨s', hr', ha', hp', hq'⟩ := ha.lap
    refine ⟨s', ?_, ha', ?_, fun _ => hq'⟩
    · rw [laps_succ, run_append, hr]
      exact hr'
    · rw [hp', hp, pidOf_succ]

theorem Alone.ticks (h : Alone s) (hq : s.cpuQuantum = initialQuantum) (n : Nat) (hn : n < 18) :
    ∃ s', run step s (Zeos.ticks n) = some s' ∧ Alone s' ∧ s'.pidMax = s.pidMax ∧
      s'.cpuQuantum = initialQuantum - n := by
  induction n with
  | zero => exact ⟨s, rfl, h, rfl, by rw [hq]; rfl⟩
  | succ n ih =>
    obtain ⟨s₁, hr, ha, hp, hq₁⟩ := ih (by omega)
    simp only [initialQuantum] at hq₁
    obtain ⟨s₂, hr₂, ha₂, hp₂, hq₂⟩ := ha.tick (by omega) (by simp only [initialQuantum]; omega)
    refine ⟨s₂, ?_, ha₂, hp₂.trans hp, ?_⟩
    · rw [ticks_succ, run_append, hr]
      exact hr₂
    · rw [hq₂, hq₁]
      simp only [initialQuantum]
      omega

/-- a process with the PID 0 at the end of its quantum is lost -/
theorem Alone.lost (h : Alone s) (hp : s.pidMax = 0) (hq : s.cpuQuantum = 1) :
    ∃ s', run step s [.clock, .ret] = some s' ∧ ¬ OnePlace s' := by
  have he₁ : step s .clock = some (clockEnter s) := if_pos h.user.1
  have hi₁ := step_inv h.inv he₁
  have he₂ : step (clockEnter s) .ret = some (clockReturn (clockEnter s)) := rfl
  have hd₁ : (desk (clockEnter s)).Complete (clockEnter s).idleTask := complete_of_live (h.only)
  refine ⟨clockReturn (clockEnter s), ?_, fun hone => ?_⟩
  · rw [run_cons, he₁, Option.bind_some, run_cons, he₂]
    rfl
  · rw [onePlace_iff (step_inv hi₁ he₂).placed] at hone
    refine (step_complete_iff hi₁ hd₁ he₂).mp hone ⟨rfl, rfl, ?_, h.user.2, ?_⟩
    · show int32 (s.cpuQuantum - 1) ≤ 0
      rw [hq]
      decide
    · have hk := actTicks_kept .user s.current s
      exact ((hk.pid s.current).trans h.pid).trans hp

/-- after 2^32 - 1 forks the process that runs has the PID 0 -/
theorem pcb_lost :
    ∃ s, run step (boot (fun _ => 0) fun _ => 0) (laps 4294967295 ++ ticks 18) = some s ∧
      ¬ OnePlace s := by
  obtain ⟨s, hr, ha, hp, hq⟩ := laps_run (fun _ => 0) (fun _ => 0) 4294967295
  obtain ⟨s₁, hr₁, ha₁, hp₁, hq₁⟩ := ha.ticks (hq (by decide)) 17 (by decide)
  have h0 : s₁.pidMax = 0 := hp₁.trans (hp.trans (by decide))
  obtain ⟨s₂, hr₂, hno⟩ := ha₁.lost h0 (hq₁.trans (by decide))
  refine ⟨s₂, ?_, hno⟩
  rw [run_append, hr, Option.bind_some, ticks_succ, run_append, hr₁, Option.bind_some, hr₂]

/-! ## the idle task -/

/-- Idle is not in the ready queue, and `sched_next_rr` gets to it on its empty-queue branch only:
when it is called at once, and when the current task has joined a queue. -/
structure IdleAside (s : State) : Prop where
  notReady : s.idleTask ∉ queue s .readyqueue
  next : ∀ k, (schedNextRr k s).current = s.idleTask ↔
    listEmpty s.links (.queue .readyqueue) = true
  leave : s.current ≠ s.idleTask → ∀ k q,
    ((schedNextRr k (updateCurrentStateRr q s)).current = s.idleTask ↔
      listEmpty (updateCurrentStateRr q s).links (.queue .readyqueue) = true)

/-- `sched_next_rr` finds idle in an empty queue, or in the queue itself -/
theorem schedNextRr_idle_iff {d : Desk Task Queue} (h : Rep s d) (hi : s.idleTask ∉ d.queue .readyqueue)
    (k : Resume) : (schedNextRr k s).current = s.idleTask ↔
      listEmpty s.links (.queue .readyqueue) = true := by
  rw [(schedNextRr_rep h k).current, h.linked.empty_iff, Desk.dispatch_running]
  cases hq : d.queue .readyqueue with
  | nil => exact ⟨fun _ => rfl, fun _ => rfl⟩
  | cons t l =>
    rw [hq, List.mem_cons, not_or] at hi
    exact ⟨fun e => absurd e.symm hi.1, fun e => nomatch e⟩

theorem idleAside_iff (hp : Placed s) : IdleAside s ↔ s.idleTask ∉ queue s .readyqueue := by
  refine ⟨fun h => h.notReady, fun h => ⟨h, schedNextRr_idle_iff hp.rep h, fun hne k q => ?_⟩⟩
  have hrep := updateCurrentStateRr_rep hp.rep hp.running q
  refine schedNextRr_idle_iff hrep (fun hm => ?_) k
  obtain h1 | ⟨-, h1⟩ := Desk.mem_put.mp hm
  · exact h h1
  · exact hne h1.symm

/-- `unblock_process` takes the CPU from idle -/
def QueuesIdle (s : State) (e : Event) : Prop :=
  ∃ i t, e = .unblock i t ∧ s.current = s.idleTask ∧ s.cpuQuantum ≤ 0

theorem step_idle_iff (hi : Inv s) (h : s.idleTask ∉ queue s .readyqueue)
    (he : step s e = some s') : s'.idleTask ∉ queue s' .readyqueue ↔ ¬ QueuesIdle s e := by
  have hd := hi.placed.apart
  have hl := (step_moves hi he).1
  have hq' : queue s' .readyqueue =
      ((desk s).afterAll s.idleTask .readyqueue (moves s e)).queue .readyqueue :=
    (step_moves hi he).2.queue_eq _
  rw [step_idleTask hi he, hq']
  have hno : (∀ i t, e ≠ .unblock i t) → ¬ QueuesIdle s e :=
    fun h1 ⟨i, t, h2, _⟩ => h1 i t h2
  cases e with
  | unblock i t =>
    unfold moves at hl ⊢
    obtain ⟨hm, hl⟩ := hl
    have h1 := (Desk.idle_after_iff hd h hm).mpr fun e => nomatch e
    by_cases hq : s.cpuQuantum ≤ 0
    · rw [if_pos hq] at hl ⊢
      have hmem : t ∈ ((desk s).after s.idleTask .readyqueue
          (.move (.blocked i) .readyqueue t)).queue .readyqueue :=
        (hd.mem_move hm.1).mpr (Or.inr ⟨rfl, rfl⟩)
      refine Iff.trans (Desk.idle_after_iff (hd.after hm) h1 hl.1) ?_
      refine ⟨fun h2 h3 => ?_, fun h2 _ h3 => absurd ⟨i, t, rfl, h3, hq⟩ h2⟩
      obtain ⟨-, -, -, hcur, -⟩ := h3
      have hempty := h2 rfl hcur
      rw [hempty] at hmem
      exact List.not_mem_nil hmem
    · rw [if_neg hq]
      exact ⟨fun _ ⟨_, _, _, _, h2⟩ => hq h2, fun _ => h1⟩
  | ret =>
    refine ⟨fun _ => hno (by simp), fun _ => ?_⟩
    unfold moves at hl ⊢
    dsimp only at hl ⊢
    by_cases hc : s.control = .console .clockRoutine
    · rw [hc] at hl ⊢
      dsimp only at hl ⊢
      by_cases hq : int32 (s.cpuQuantum - 1) ≤ 0
      · rw [if_pos hq] at hl ⊢
        by_cases hpid : (s.task s.current).pid ≠ 0
        · -- the PID of idle is 0
          rw [if_pos hpid] at hl ⊢
          have hpid' : s.current ≠ s.idleTask := fun hcur => hpid (hcur ▸ hi.idlePid)
          exact hd.idle_after h hl.1 fun _ => hpid'
        · rw [if_neg hpid] at hl ⊢
          exact hd.idle_after h hl.1 fun e => nomatch e
      · rw [if_neg hq]
        exact h
    · split
      · exact absurd ‹_› hc
      · exact h
  | fork =>
    refine ⟨fun _ => hno (by simp), fun _ => ?_⟩
    unfold moves at hl ⊢
    cases hf : queue s .freequeue with
    | nil => exact h
    | cons child rest =>
      rw [hf] at hl
      exact hd.idle_after h hl.1 fun e => nomatch e
  | exit =>
    exact ⟨fun _ => hno (by simp), fun _ => hd.idle_after h hl.1 fun e => by simp at e⟩
  | block i =>
    exact ⟨fun _ => hno (by simp), fun _ => hd.idle_after h hl.1 fun e => by simp at e⟩
  | _ => exact ⟨fun _ => hno (by simp), fun _ => h⟩

theorem boot_idleAside (mem : Nat → Byte) (tsc : Nat → DWord) : IdleAside (boot mem tsc) := by
  rw [idleAside_iff (boot_inv mem tsc).placed, boot_queue]
  exact List.not_mem_nil

/-- **Idle is never queued**, in a run in which no `unblock_process` takes the CPU from it, and
there only. -/
theorem idle_not_queued (mem : Nat → Byte) (tsc : Nat → DWord) (es : List Event) :
    Always step IdleAside (boot mem tsc) es ↔
      Guarded step (fun s e => ¬ QueuesIdle s e) (boot mem tsc) es := by
  apply always_iff_guarded (I := Inv) (boot_inv mem tsc) (boot_idleAside mem tsc)
  · exact fun s e s' hi _ he => step_inv hi he
  · intro s e s' hi hP he
    rw [idleAside_iff (step_inv hi he).placed]
    exact step_idle_iff hi hP.notReady he

/-- The only process blocks before its first quantum has begun, and idle runs.  The process is
woken in the next clock tick. -/
theorem idle_queued :
    ∃ s, run step (boot (fun _ => 0) fun _ => 0)
      [.read, .block 0, .resume, .clock, .unblock 0 8] = some s ∧ ¬ IdleAside s := by
  have h : (run step (boot (fun _ => 0) fun _ => 0)
      [.read, .block 0, .resume, .clock, .unblock 0 8]).map
        (fun s => (s.idleTask, queue s .readyqueue)) = some (9, [9]) := by decide +kernel
  obtain ⟨s, hr, hs⟩ := Option.map_eq_some_iff.mp h
  obtain ⟨h1, h2⟩ := Prod.mk.inj hs
  refine ⟨s, hr, fun hi => hi.notReady ?_⟩
  rw [h1, h2]
  exact List.mem_singleton_self 9

end
end Zeos
