import ZeroOS.Lib.Fifo
import ZeroOS.Zeos.Scheduling
import ZeroOS.Zeos.Turns

/-!
# Zeos: round robin

The history of a run keeps the order in which the tasks join the ready queue, and the slice of the
current task: its quantum when `sched_next_rr` dispatched it, and the clock interrupts since then,
which are the events `clock`.

`update_sched_data` charges an interrupt at the end of `clock_routine`, after the console code.  A
process that the console code of `clock_routine` blocked would be charged in its next slice, so the
lengths of the slices rest on what that code, which is in a library, does not do.

* `Spares s e`       the console code does not block the process that the clock has interrupted;
* `Granted s`        every process has the quantum of the first one;
* `Sliced s h`       CPU_QUANTUM is what is left of the slice;
* `round_robin`      **the ready queue is first in, first out, and slices are exact**.
-/

set_option linter.unusedVariables false

namespace Zeos
open Desks Runs Fifo

/-- no slice: the task was not dispatched from the ready queue -/
structure Turn where
  joins : Stamps Task
  slice : Option (Int × Nat)

def turn (s : State) (e : Event) (s' : State) (h : Turn) : Turn where
  joins := h.joins.joinAll (entered s e)
  slice :=
    if s'.control = .switched then
      if queue s .readyqueue ++ entered s e = [] then none
      else some ((s.task s'.current).quantum, 0)
    else if e = .clock then h.slice.map fun x => (x.1, x.2 + 1)
    else h.slice

def firstTurn : Turn := ⟨⟨0, fun _ => 0⟩, none⟩

/-- the console code that `clock_routine` calls does not call `block_process` -/
def Spares (s : State) (e : Event) : Prop := ∀ i, e = .block i → s.control ≠ .console .clockRoutine

/-- of two tasks that wait, the one that joined first is dispatched first -/
def InOrder (s : State) (h : Turn) : Prop :=
  ∀ a b, a ∈ queue s .readyqueue → b ∈ queue s .readyqueue → h.joins.stamp a < h.joins.stamp b →
    ∀ es s', run step s es = some s' → s'.current = b →
      ∃ es₁ es₂ s₁, es = es₁ ++ es₂ ∧ es₂ ≠ [] ∧ run step s es₁ = some s₁ ∧ s₁.current = a

structure ExactSlices (s : State) (h : Turn) : Prop where
  /-- a process that goes back to the ready queue has used up its quantum -/
  whole : ∀ e s' q n, step s e = some s' → s.current ≠ s.idleTask → h.slice = some (q, n) → 0 < q →
    s.current ∈ entered s e → (n : Int) = q
  /-- a process that blocks or ends has not -/
  part : ∀ e s' q n, Spares s e → step s e = some s' → s.current ≠ s.idleTask →
    h.slice = some (q, n) → 0 < q → (e = .exit ∨ ∃ i, e = .block i) → n < q

section
variable {s s' : State} {e : Event} {h : Turn} {t : Task}

/-! ## the ready queue -/

theorem step_serves (hi : Inv s) (he : step s e = some s') :
    Serves (queue s .readyqueue) (entered s e) (queue s' .readyqueue) s'.current := by
  rcases step_turns hi he with h | h
  · exact .wait h.ready
  · have hn := h.next
    generalize hR : queue s .readyqueue ++ entered s e = R at hn
    cases hn with
    | idle _ _ h3 => exact .none hR h3
    | head t l h1 _ h3 => exact .serve (by rw [hR, h1, h3])

theorem Inv.ready_nodup (hi : Inv s) : (queue s .readyqueue).Nodup :=
  hi.placed.apart.tidy.nodup .readyqueue

/-- nobody is in the queue twice, not even on the way -/
theorem entered_nodup (hi : Inv s) (he : step s e = some s') :
    (queue s .readyqueue ++ entered s e).Nodup := by
  have hi' := step_inv hi he
  cases step_serves hi he with
  | wait h => exact h ▸ hi'.ready_nodup
  | serve h =>
    rw [h]
    exact List.nodup_cons.mpr ⟨hi'.placed.running .readyqueue, hi'.ready_nodup⟩
  | none h _ =>
    rw [h]
    exact List.nodup_nil

theorem step_orders (hi : Inv s) (ho : h.joins.Orders (queue s .readyqueue))
    (he : step s e = some s') : (turn s e s' h).joins.Orders (queue s' .readyqueue) :=
  (ho.joinAll (entered_nodup hi he)).sublist (step_serves hi he).sublist

/-! ## quanta -/

structure Granted (s : State) : Prop where
  process : ∀ t, live s t → (s.task t).quantum = initialQuantum
  idle : (s.task s.idleTask).quantum = 0

/-- `sys_fork` alone gives a quantum, to a free PCB -/
theorem step_quantum (hi : Inv s) (he : step s e = some s')
    (ht : e = .fork → t ∉ queue s .freequeue) : (s'.task t).quantum = (s.task t).quantum := by
  cases step_evolves hi he with
  | still hk _ _ => exact hk.quantum t
  | fork child rest fs hu hfree hlen hg hsp =>
    have hne : t ≠ child := fun h => ht rfl (hfree ▸ h ▸ List.mem_cons_self)
    rw [hsp.task, if_neg hne]
    by_cases h : t = s.current
    · rw [if_pos h, h]
      rfl
    · rw [if_neg h]
  | exit hu hx =>
    rw [hx.task]
    by_cases h : t = s.current
    · rw [if_pos h, h]
      rfl
    · rw [if_neg h]

theorem step_granted (hi : Inv s) (hg : Granted s) (he : step s e = some s') : Granted s' := by
  have hid := step_idleTask hi he
  refine ⟨fun t ht => ?_, ?_⟩
  · by_cases hfree : t ∈ queue s .freequeue
    · -- the child of a fork
      cases step_evolves hi he with
      | still hk _ hq => exact absurd (hq ▸ hfree) ht.2
      | fork child rest fs hu hq hlen hgr hsp =>
        have hchild : child ∈ queue s .freequeue := hq ▸ List.mem_cons_self
        have heq : t = child := by
          by_contra hne
          exact ht.2 ((hsp.free_iff hi hchild t).mpr ⟨hfree, hne⟩)
        rw [hsp.task, if_pos heq]
        exact hg.process s.current (hi.live_current hu)
      | exit hu hx =>
        have hin := ht.2
        rw [hx.free] at hin
        exact absurd (List.mem_append_left _ hfree) hin
    · rw [step_quantum hi he fun _ => hfree]
      exact hg.process t ⟨hid ▸ ht.1, hfree⟩
  · rw [hid, step_quantum hi he fun _ => hi.placed.apart.tidy.idle .freequeue (by decide)]
    exact hg.idle

/-- the head of the ready queue starts with its quantum -/
theorem Switches.quantum (hi : Inv s) (hw : Switches s e s') (he : step s e = some s') :
    (s'.task t).quantum = (s.task t).quantum := by
  refine step_quantum hi he fun h => ?_
  have hy := hw.yields
  rw [h] at hy
  cases hy

theorem boot_quantum (mem : Nat → Byte) (tsc : Nat → DWord) (t : Task) :
    ((boot mem tsc).task t).quantum = if t = 8 then initialQuantum else 0 := by
  fin_cases t <;> rfl

theorem boot_granted (mem : Nat → Byte) (tsc : Nat → DWord) : Granted (boot mem tsc) := by
  refine ⟨fun t ht => ?_, ?_⟩
  · rw [boot_quantum, if_pos ((boot_live mem tsc t).mp ht)]
  · rw [boot_idleTask, boot_quantum]
    rfl

/-! ## slices -/

/-- CPU_QUANTUM is behind by the interrupt that `clock_routine` has not yet charged. -/
structure Sliced (s : State) (h : Turn) : Prop where
  granted : Granted s
  left : ∀ q n, h.slice = some (q, n) → s.current ≠ s.idleTask →
    s.cpuQuantum = q - n + (if s.control = .console .clockRoutine then 1 else 0) ∧
      0 < s.cpuQuantum ∧ q = initialQuantum
  /-- a process that waits has no interrupt to be charged -/
  saved : ∀ t, live s t → t ≠ s.current ∨ s.control = .switched →
    (s.task t).kernelEsp ≠ .console .clockRoutine
  /-- the first process has not left the processor, so nobody has blocked -/
  first : h.slice = none → s.current ≠ s.idleTask → ∀ i, queue s (.blocked i) = []

/-- `block_process` alone fills a blocked queue -/
theorem step_blocked (hi : Inv s) (he : step s e = some s') (hne : ∀ i, e ≠ .block i) {i : Nat}
    (ht : t ∈ queue s' (.blocked i)) : t ∈ queue s (.blocked i) := by
  obtain ⟨hl, hrep⟩ := step_moves hi he
  rw [hrep.queue_eq] at ht
  refine hi.placed.apart.of_mem_afterAll hl (fun m hm => ?_) ht
  unfold moves at hm
  split at hm
  · split at hm
    · cases hm
    · rw [List.mem_singleton.mp hm]
      simp [Move.goal]
  · rw [List.mem_singleton.mp hm]
    simp [Move.goal]
  · exact absurd rfl (hne _)
  · rcases List.mem_cons.mp hm with rfl | hm
    · simp [Move.goal]
    · split at hm
      · rw [List.mem_singleton.mp hm]
        simp [Move.goal]
      · cases hm
  · split at hm
    · split at hm
      · split at hm <;> rw [List.mem_singleton.mp hm] <;> simp [Move.goal]
      · cases hm
    · cases hm
  · cases hm

/-- `unblock_process` takes the processor from idle, and from the first process, only -/
theorem Sliced.not_preempted (hi : Inv s) (hs : Sliced s h) (hcur : s.current ≠ s.idleTask) {i : Nat}
    (ht : t ∈ queue s (.blocked i)) : 0 < s.cpuQuantum := by
  cases hsl : h.slice with
  | none => exact absurd (hs.first hsl hcur i ▸ ht) List.not_mem_nil
  | some x => exact (hs.left x.1 x.2 hsl hcur).2.1

/-- the step that takes the processor from a process leaves no interrupt to be charged -/
theorem Sliced.leftAt (hi : Inv s) (hs : Sliced s h) (hcur : s.current ≠ s.idleTask)
    (hsp : Spares s e) (he : step s e = some s') (hy : Yields s e) :
    Zeos.leftAt s e ≠ .console .clockRoutine := by
  cases hy with
  | exit => simp [Zeos.leftAt]
  | ret hx => simp [Zeos.leftAt]
  | block i =>
    cases step_cases he with
    | block c i hc hne =>
      have hno := hsp i rfl
      rw [hc] at hno
      simpa [Zeos.leftAt, hc] using hno
    | service hsv => cases hsv
  | unblock i t hq =>
    cases step_cases he with
    | unblock c i t hc ht => exact absurd hq (not_le.mpr (hs.not_preempted hi hcur ht))
    | service hsv => cases hsv

/-- a step other than an interrupt, its end and a resumption stays in `clock_routine` or out of it -/
theorem Stays.routine (hst : Stays s e s') (hi : Inv s) (he : step s e = some s') (h1 : e ≠ .clock)
    (h2 : e ≠ .ret) (h3 : e ≠ .resume) :
    s'.control = .console .clockRoutine ↔ s.control = .console .clockRoutine := by
  cases step_cases he with
  | fork hu hf =>
    rcases hi.forked hu hf with ⟨-, -, hserv⟩ | ⟨child, rest, fs, -, -, -, hsp, -⟩
    · rw [hserv.control]
    · rw [hsp.control]
  | exit hu => exact absurd .exit hst.keeps
  | read hu => simp [hu.1]
  | service hsv hu hserv => rw [hserv.control]
  | clock hu => exact absurd rfl h1
  | block c i hc hne => exact absurd (.block i) hst.keeps
  | unblock c i t hc ht =>
    have hq : ¬ s.cpuQuantum ≤ 0 := fun hq => hst.keeps (.unblock i t hq)
    rw [unblockProcess_eq, if_neg hq]
    rfl
  | ret c hc => exact absurd rfl h2
  | resume hc => exact absurd rfl h3

theorem Stays.sliced_left (hst : Stays s e s') (hi : Inv s) (hs : Sliced s h)
    (he : step s e = some s') {q : Int} {n : Nat} (hsl : (turn s e s' h).slice = some (q, n))
    (hcur : s.current ≠ s.idleTask) :
    s'.cpuQuantum = q - n + (if s'.control = .console .clockRoutine then 1 else 0) ∧
      0 < s'.cpuQuantum ∧ q = initialQuantum := by
  simp only [turn, if_neg hst.control] at hsl
  rw [hst.cpuQuantum]
  by_cases hclock : e = .clock
  · -- the interrupt is counted, and not yet charged
    subst hclock
    rw [if_pos rfl] at hsl
    obtain ⟨⟨q', n'⟩, hold, heq⟩ := Option.map_eq_some_iff.mp hsl
    obtain ⟨rfl, rfl⟩ := Prod.mk.inj heq
    obtain ⟨h1, h2, h3⟩ := hs.left q' n' hold hcur
    cases step_cases he with
    | clock hu =>
      rw [if_neg (by simp [hu])] at h1
      rw [quantumLeft_of_ne (by simp), if_pos (by rfl)]
      refine ⟨?_, h2, h3⟩
      push_cast
      omega
    | service hsv => cases hsv
  · rw [if_neg hclock] at hsl
    obtain ⟨h1, h2, h3⟩ := hs.left q n hsl hcur
    by_cases hret : e = .ret
    · subst hret
      cases step_cases he with
      | ret c hc =>
        cases c with
        | sysRead =>
          rw [if_neg (by simp [hc])] at h1
          have hno : ¬ Ticked s .ret := fun ht => nomatch hc.symm.trans ht.2
          rw [quantumLeft, if_neg hno, if_neg (by simp [consoleReturn])]
          exact ⟨h1, h2, h3⟩
        | clockRoutine =>
          -- the interrupt is charged
          rw [if_pos hc] at h1
          have hle : s.cpuQuantum ≤ 18 + 1 := by
            simp only [initialQuantum] at h3
            omega
          have hone : int32 (s.cpuQuantum - 1) = s.cpuQuantum - 1 := int32_eq (by omega) (by omega)
          have hpos : ¬ int32 (s.cpuQuantum - 1) ≤ 0 := fun hx => hst.keeps (.ret ⟨hc, hx⟩)
          have huser : (consoleReturn .clockRoutine s).control = .user := by
            show (clockReturn s).control = .user
            rw [clockReturn_eq, if_neg hpos]
            rfl
          rw [quantumLeft_ret hc, hone, if_neg (by simp [huser])]
          rw [hone] at hpos
          exact ⟨by omega, by omega, h3⟩
      | service hsv => cases hsv
    · rw [quantumLeft_of_ne hret]
      by_cases hres : e = .resume
      · subst hres
        obtain ⟨hc, rfl⟩ := step_resume he
        have hlive : live s s.current := ⟨hcur, hi.placed.running .freequeue⟩
        have hsaved := hs.saved s.current hlive (.inr hc)
        rw [if_neg (by simp [hc])] at h1
        have hout : (resume s).control ≠ .console .clockRoutine := by
          rw [resume_control]
          split
          · rename_i c hk
            intro hcon
            rw [Control.console.inj hcon] at hk
            exact hsaved hk
          · simp
        rw [if_neg hout]
        exact ⟨h1, h2, h3⟩
      · simp only [hst.routine hi he hclock hret hres]
        exact ⟨h1, h2, h3⟩

theorem step_saved (hi : Inv s) (hs : Sliced s h) (hsp : Spares s e) (he : step s e = some s')
    (ht : live s' t) (hout : t ≠ s'.current ∨ s'.control = .switched) :
    (s'.task t).kernelEsp ≠ .console .clockRoutine := by
  have hid : t ≠ s.idleTask := step_idleTask hi he ▸ ht.1
  by_cases hfree : t ∈ queue s .freequeue
  · -- the child of a fork starts in `ret_from_fork`
    cases step_evolves hi he with
    | still _ _ hq => exact absurd (hq ▸ hfree) ht.2
    | fork child rest fs hu hq hlen hgr hspw =>
      have hchild : child ∈ queue s .freequeue := hq ▸ List.mem_cons_self
      have heq : t = child := by
        by_contra hne
        exact ht.2 ((hspw.free_iff hi hchild t).mpr ⟨hfree, hne⟩)
      rw [hspw.task, if_pos heq]
      simp [TaskStruct.iniStats]
    | exit hu hx =>
      have hin := ht.2
      rw [hx.free] at hin
      exact absurd (List.mem_append_left _ hfree) hin
  · rcases step_turns hi he with hst | hsw
    · rw [hst.kernelEsp t hfree]
      refine hs.saved t ⟨hid, hfree⟩ (.inl ?_)
      exact hst.current ▸ hout.resolve_right hst.control
    · rw [hsw.kernelEsp]
      by_cases hcur : t = s.current
      · rw [if_pos hcur]
        exact hs.leftAt hi (hcur ▸ hid) hsp he hsw.yields
      · rw [if_neg hcur]
        exact hs.saved t ⟨hid, hfree⟩ (.inl hcur)

/-- **CPU_QUANTUM stays in step with the interrupts.** -/
theorem step_sliced (hi : Inv s) (hs : Sliced s h) (hsp : Spares s e) (he : step s e = some s') :
    Sliced s' (turn s e s' h) := by
  have hid := step_idleTask hi he
  have hg' := step_granted hi hs.granted he
  refine ⟨hg', fun q n hsl hcur => ?_, fun t ht hout => step_saved hi hs hsp he ht hout,
    fun hsl hcur i => ?_⟩
  · rcases step_turns hi he with hst | hsw
    · rw [hst.current, hid] at hcur
      exact hst.sliced_left hi hs he hsl hcur
    · simp only [turn, if_pos hsw.control] at hsl
      have hnext := hsw.next
      generalize queue s .readyqueue ++ entered s e = R at hnext hsl
      cases hnext with
      | idle h1 _ _ => exact absurd (h1.trans hid.symm) hcur
      | head t l h1 h2 h3 =>
        -- a new slice
        rw [if_neg (List.cons_ne_nil t l)] at hsl
        obtain ⟨h4, rfl⟩ := Prod.mk.inj (Option.some.inj hsl)
        have hlive : live s' s'.current :=
          ⟨hcur, (step_inv hi he).placed.running .freequeue⟩
        have hq : (s.task t).quantum = initialQuantum := by
          rw [← hsw.quantum hi he, ← h1]
          exact hg'.process _ hlive
        rw [h1, hq] at h4
        rw [h2, hq, if_neg (by simp [hsw.control]), ← h4]
        exact ⟨by simp, by decide, rfl⟩
  · rcases step_turns hi he with hst | hsw
    · rw [hst.current, hid] at hcur
      have hno : ∀ i, e ≠ .block i := fun i h => hst.keeps (h ▸ .block i)
      have hold : h.slice = none := by
        simp only [turn, if_neg hst.control] at hsl
        split at hsl
        · exact Option.map_eq_none_iff.mp hsl
        · exact hsl
      refine List.eq_nil_iff_forall_not_mem.mpr fun t ht => ?_
      have hin := step_blocked hi he hno ht
      rw [hs.first hold hcur i] at hin
      exact List.not_mem_nil hin
    · simp only [turn, if_pos hsw.control] at hsl
      have hnext := hsw.next
      generalize queue s .readyqueue ++ entered s e = R at hnext hsl
      cases hnext with
      | idle h1 _ _ => exact absurd (h1.trans hid.symm) hcur
      | head t l h1 h2 h3 => exact absurd hsl (by simp)

/-- a process leaves for the ready queue at the end of a slice -/
theorem Sliced.requeued (hi : Inv s) (hs : Sliced s h) (he : step s e = some s')
    (hcur : s.current ≠ s.idleTask) (hen : s.current ∈ entered s e) : Expires s := by
  have hrun : ∀ q, s.current ∉ queue s q := hi.placed.running
  cases step_cases he with
  | fork hu hf =>
    cases hfree : queue s .freequeue with
    | nil =>
      simp only [entered, hfree] at hen
      cases hen
    | cons child rest =>
      simp only [entered, hfree, List.mem_singleton] at hen
      exact absurd (hfree ▸ hen ▸ List.mem_cons_self) (hrun .freequeue)
  | unblock c i t hc ht =>
    unfold entered at hen
    rw [if_neg (not_le.mpr (hs.not_preempted hi hcur ht)), List.mem_singleton] at hen
    exact absurd (hen ▸ ht) (hrun (.blocked i))
  | ret c hc =>
    unfold entered at hen
    by_cases hx : Expires s ∧ (s.task s.current).pid ≠ 0
    · exact hx.1
    · rw [if_neg hx] at hen
      cases hen
  | service hsv =>
    rw [(service_quiet hsv).1] at hen
    cases hen
  | _ => cases hen

/-- the interrupt that ends the slice is the last one of the quantum -/
theorem Sliced.whole (hs : Sliced s h) {q : Int} {n : Nat} (hsl : h.slice = some (q, n))
    (hcur : s.current ≠ s.idleTask) (hx : Expires s) : (n : Int) = q := by
  obtain ⟨h1, h2, h3⟩ := hs.left q n hsl hcur
  have hle := hx.2
  simp only [initialQuantum] at h3
  rw [if_pos hx.1] at h1
  rw [int32_eq (by omega) (by omega)] at hle
  omega

/-- out of `clock_routine` no slice is used up -/
theorem Sliced.part (hs : Sliced s h) {q : Int} {n : Nat} (hsl : h.slice = some (q, n))
    (hcur : s.current ≠ s.idleTask) (hc : s.control ≠ .console .clockRoutine) : (n : Int) < q := by
  obtain ⟨h1, h2, h3⟩ := hs.left q n hsl hcur
  rw [if_neg hc] at h1
  omega

theorem Sliced.exact (hi : Inv s) (hs : Sliced s h) : ExactSlices s h := by
  refine ⟨fun e s' q n he hcur hsl hq hen => hs.whole hsl hcur (hs.requeued hi he hcur hen),
    fun e s' q n hsp he hcur hsl hq hleave => hs.part hsl hcur ?_⟩
  rcases hleave with rfl | ⟨i, rfl⟩
  · cases step_cases he with
    | exit hu => simp [hu.1]
    | service hsv => cases hsv
  · exact hsp i rfl

/-! ## runs -/

theorem inOrder_of (hi : Inv s) (ho : h.joins.Orders (queue s .readyqueue)) : InOrder s h := by
  intro a b ha hb hab es s' hr hb'
  exact no_overtaking (I := Inv) (fun s => queue s .readyqueue)
    (fun s => s.current) (fun s e s' hi he => step_inv hi he)
    (fun s e s' hi he => ⟨_, step_serves hi he⟩)
    (fun s hi => ⟨hi.placed.running .readyqueue, hi.ready_nodup⟩) hi (ho.before ha hb hab) hr hb'

theorem boot_sliced (mem : Nat → Byte) (tsc : Nat → DWord) : Sliced (boot mem tsc) firstTurn := by
  refine ⟨boot_granted mem tsc, fun q n hsl => (nomatch hsl), fun t ht hout => ?_, fun _ _ i => ?_⟩
  · rcases hout with hne | hc
    · rw [(boot_live mem tsc t).mp ht, boot_current] at hne
      exact absurd rfl hne
    · rw [boot_control] at hc
      cases hc
  · rw [boot_queue]
    rfl

/-- **Round robin.**  Tasks get the processor in the order in which they joined the ready queue.
If the console code does not block the processes that the clock interrupts, every slice is as long as
its quantum, counted in clock interrupts, unless its process blocks or ends before. -/
theorem round_robin (mem : Nat → Byte) (tsc : Nat → DWord) (es : List Event) :
    Always (tagged step turn) (fun x => InOrder x.1 x.2) (boot mem tsc, firstTurn) es ∧
      (Guarded (tagged step turn) (fun x e => Spares x.1 e) (boot mem tsc, firstTurn) es →
        Always (tagged step turn) (fun x => ExactSlices x.1 x.2) (boot mem tsc, firstTurn) es) := by
  refine ⟨?_, fun hg => ?_⟩
  · let I : State × Turn → Prop := fun x => Inv x.1 ∧ x.2.joins.Orders (queue x.1 .readyqueue)
    refine always_of_invariant (I := I) ⟨boot_inv mem tsc, ?_⟩ (fun x hI => inOrder_of hI.1 hI.2)
      (fun x e x' hI he => ?_) es
    · rw [boot_queue]
      exact .nil _
    · obtain ⟨h1, h2⟩ := tagged_eq_some.mp he
      exact ⟨step_inv hI.1 h1, h2 ▸ step_orders hI.1 hI.2 h1⟩
  · let I : State × Turn → Prop := fun x => Inv x.1 ∧ Sliced x.1 x.2
    refine always_of_guarded (I := I) ⟨boot_inv mem tsc, boot_sliced mem tsc⟩
      (fun x hI => hI.2.exact hI.1) (fun x e x' hI hsp he => ?_) hg
    obtain ⟨h1, h2⟩ := tagged_eq_some.mp he
    exact ⟨step_inv hI.1 h1, h2 ▸ step_sliced hI.1 hI.2 hsp h1⟩

theorem step_read (h : step s .read = some s') : s'.control = .console .sysRead := by
  obtain ⟨-, h1⟩ := guarded_eq_some h
  rw [← Option.some.inj h1]

/-- the first process blocks in a read; the next interrupt wakes it, and the one after that is the
first of its slice -/
def wokenRun : List Event :=
  [.read, .block 0, .resume, .clock, .unblock 0 8, .resume, .ret, .clock]

theorem wokenRun_spares : Guarded (tagged step turn) (fun x e => Spares x.1 e)
    (boot (fun _ => 0) fun _ => 0, firstTurn) wokenRun := by
  intro x hx
  refine ⟨fun i h => (by cases h), fun y hy => ⟨fun i _ => ?_, ?_⟩⟩
  · -- in `sys_read`
    obtain ⟨h1, -⟩ := tagged_eq_some.mp hx
    rw [step_read h1]
    simp
  · refine guarded_of_mem (fun e he x i h => ?_) y
    rw [h] at he
    simp at he

theorem round_robin_woken :
    (run (tagged step turn) (boot (fun _ => 0) fun _ => 0, firstTurn) wokenRun).map
        (fun x => (x.1.current, x.2.slice)) = some (8, some (18, 1)) ∧
      Always (tagged step turn) (fun x => InOrder x.1 x.2)
        (boot (fun _ => 0) fun _ => 0, firstTurn) wokenRun ∧
      Always (tagged step turn) (fun x => ExactSlices x.1 x.2)
        (boot (fun _ => 0) fun _ => 0, firstTurn) wokenRun := by
  obtain ⟨h1, h2⟩ := round_robin (fun _ => 0) (fun _ => 0) wokenRun
  exact ⟨by decide +kernel, h1, h2 wokenRun_spares⟩

end
end Zeos
