import ZeroOS.Zeos.Effects
import ZeroOS.Zeos.RoundRobin

/-!
# Zeos: how long a ready process waits

A history counts the ticks that `update_sched_data` has charged, to whichever task ran then.  A
`clock_routine` whose console code blocks the process it has interrupted charges its tick when that
process runs again, so these are not the clock interrupts themselves.

* `Charged s n`      CPU_QUANTUM and the quanta after `n` ticks;
* `wait s t`         the ticks before the turn of `t`: what is left of the current slice, and the
  slices of the tasks in front;
* `step_wait`        it goes down with every tick, and otherwise when a task leaves early;
* `waits_bounded`    **nobody starves**.
-/

set_option linter.unusedVariables false

namespace Zeos
open Desks Runs Fifo

def charge (s : State) (e : Event) (s' : State) (n : Nat) : Nat := if Ticked s e then n + 1 else n

/-- the ticks of a slice: CPU_QUANTUM is looked at after it is counted down -/
def slice (q : Int) : Nat := max 1 q.toNat

def wait (s : State) (t : Task) : Nat :=
  waiting (fun u => slice (s.task u).quantum) (slice s.cpuQuantum) t (queue s .readyqueue)

/-- a task that exits or blocks does not use up its slice -/
def Early (s : State) (e : Event) : Prop := Yields s e ∧ ¬ Ticked s e

structure Charged (s : State) (n : Nat) : Prop where
  granted : Granted s
  le : s.cpuQuantum ≤ initialQuantum
  ge : -n ≤ s.cpuQuantum

section
variable {s s' : State} {e : Event} {t : Task} {n : Nat}

/-! ## one tick -/

/-- `t` in the ready queue is idle, or a process -/
theorem Charged.slice_le (hi : Inv s) (hc : Charged s n) (ht : t ∈ queue s .readyqueue) :
    slice (s.task t).quantum ≤ 18 := by
  by_cases hid : t = s.idleTask
  · rw [hid, hc.granted.idle]
    decide
  · have hfree : t ∉ queue s .freequeue := fun h =>
      hi.placed.apart.tidy.once .readyqueue .freequeue (by decide) t ht h
    rw [hc.granted.process t ⟨hid, hfree⟩]
    decide

/-- CPU_QUANTUM does not wrap around before 2^31 ticks -/
theorem Charged.tick (hc : Charged s n) (hn : n < 2147483648) :
    int32 (s.cpuQuantum - 1) = s.cpuQuantum - 1 := by
  have h1 := hc.ge
  have h2 := hc.le
  simp only [initialQuantum] at h2
  exact int32_eq (by omega) (by omega)

theorem step_charged (hi : Inv s) (hc : Charged s n) (he : step s e = some s')
    (hn : charge s e s' n ≤ 2147483648) : Charged s' (charge s e s' n) := by
  have hg := step_granted hi hc.granted he
  have hle := hc.le
  have hge := hc.ge
  have hleft : quantumLeft s e ≤ initialQuantum ∧ -(charge s e s' n : Int) ≤ quantumLeft s e := by
    unfold quantumLeft charge at *
    by_cases ht : Ticked s e
    · rw [if_pos ht] at hn ⊢
      rw [if_pos ht, hc.tick (by omega)]
      push_cast
      omega
    · rw [if_neg ht, if_neg ht]
      exact ⟨hle, hge⟩
  rcases step_turns hi he with h | h
  · exact ⟨hg, h.cpuQuantum ▸ hleft.1, h.cpuQuantum ▸ hleft.2⟩
  · have hnext := h.next
    generalize hR : queue s .readyqueue ++ entered s e = R at hnext
    cases hnext with
    | idle _ h2 _ => exact ⟨hg, h2 ▸ hleft.1, h2 ▸ hleft.2⟩
    | head u l h1 h2 _ =>
      -- the head of the queue runs now: it is idle, or it has the quantum of a process
      have hq : s'.cpuQuantum = (s'.task u).quantum := h2.trans (h.quantum hi he).symm
      have hu : u ∉ queue s' .freequeue := h1 ▸ (step_inv hi he).placed.running .freequeue
      have hcases : s'.cpuQuantum = 0 ∨ s'.cpuQuantum = 18 := by
        by_cases hid : u = s'.idleTask
        · exact .inl (hq.trans (hid ▸ hg.idle))
        · exact .inr (hq.trans (hg.process u ⟨hid, hu⟩))
      refine ⟨hg, ?_, ?_⟩
      · show s'.cpuQuantum ≤ 18
        omega
      · omega

/-! ## one step -/

/-- **A tick is a tick less to wait.** -/
theorem step_wait (hi : Inv s) (hc : Charged s n) (hn : n < 2147483648)
    (ht : t ∈ queue s .readyqueue) (he : step s e = some s') (hcur : s'.current ≠ t) :
    t ∈ queue s' .readyqueue ∧ charge s e s' n + wait s' t ≤ n + wait s t ∧
      (¬ Early s e → charge s e s' n + wait s' t = n + wait s t) := by
  have hcharge : charge s e s' n = n + if Ticked s e then 1 else 0 := by
    unfold charge
    split <;> rfl
  have htick := hc.tick hn
  rw [hcharge]
  rcases step_turns hi he with h | h
  · -- the slices of the tasks in front are the same
    have hsame : ∀ u ∈ queue s .readyqueue, slice (s'.task u).quantum = slice (s.task u).quantum := by
      intro u hu
      rw [step_quantum hi he fun _ =>
        hi.placed.apart.tidy.once .readyqueue .freequeue (by decide) u hu]
    have hleft : slice s'.cpuQuantum + (if Ticked s e then 1 else 0) = slice s.cpuQuantum := by
      rw [h.cpuQuantum, quantumLeft]
      by_cases hx : Ticked s e
      · have hpos : ¬ int32 (s.cpuQuantum - 1) ≤ 0 := fun hle =>
          h.keeps (hx.1 ▸ .ret ⟨hx.2, hle⟩)
        rw [htick] at hpos
        rw [if_pos hx, if_pos hx, htick]
        unfold slice
        omega
      · rw [if_neg hx, if_neg hx, Nat.add_zero]
    have heq : wait s' t + (if Ticked s e then 1 else 0) = wait s t := by
      unfold wait
      rw [h.ready, waiting_wait ht, waiting_congr hsame, hleft]
    refine ⟨h.ready ▸ List.mem_append_left _ ht, ?_, fun _ => ?_⟩ <;> omega
  · have hsame : (fun u => slice (s'.task u).quantum) = fun u => slice (s.task u).quantum := by
      funext u
      rw [h.quantum hi he]
    have hnext := h.next
    generalize hR : queue s .readyqueue ++ entered s e = R at hnext
    cases hnext with
    | idle _ _ _ => exact absurd (hR ▸ List.mem_append_left _ ht) List.not_mem_nil
    | head u l h1 h2 h3 =>
      obtain ⟨hmem, hserve⟩ := waiting_serve (fun u => slice (s.task u).quantum)
        (slice s.cpuQuantum) ht hR (h1 ▸ hcur)
      have heq : wait s' t + slice s.cpuQuantum = wait s t := by
        unfold wait
        rw [hsame, h2, h3]
        exact hserve
      have hpos : 1 ≤ slice s.cpuQuantum := Nat.le_max_left ..
      refine ⟨h3 ▸ hmem, ?_, fun hearly => ?_⟩
      · split <;> omega
      · have hx : Ticked s e := not_not.mp fun hx => hearly ⟨h.yields, hx⟩
        have hone : slice s.cpuQuantum = 1 := by
          obtain ⟨rfl, -⟩ := hx
          cases h.yields with
          | ret hexp =>
            have hle := hexp.2
            rw [htick] at hle
            unfold slice
            omega
        rw [if_pos hx]
        omega

/-! ## runs -/

theorem boot_charged (mem : Nat → Byte) (tsc : Nat → DWord) : Charged (boot mem tsc) 0 := by
  refine ⟨boot_granted mem tsc, ?_, Int.le_refl 0⟩
  show (0 : Int) ≤ 18
  decide

theorem reachable_charged (mem : Nat → Byte) (tsc : Nat → DWord)
    (hr : Reachable (tagged step charge) (boot mem tsc, 0) (s, n)) :
    Inv s ∧ (n ≤ 2147483648 → Charged s n) := by
  apply hr.tagged (I := fun s n => Inv s ∧ (n ≤ 2147483648 → Charged s n))
    ⟨boot_inv mem tsc, fun _ => boot_charged mem tsc⟩
  intro s n e s' hI he
  obtain ⟨hi, hc⟩ := hI
  refine ⟨step_inv hi he, fun hle => step_charged hi (hc ?_) he hle⟩
  unfold charge at hle
  split at hle <;> omega

theorem le_charge (s : State) (e : Event) (s' : State) (n : Nat) :
    n ≤ charge s e s' n ∧ charge s e s' n ≤ n + 1 := by
  unfold charge
  split <;> omega

theorem run_charge {es : List Event} {n' : Nat}
    (h : run (tagged step charge) (s, n) es = some (s', n')) : n ≤ n' := by
  induction es generalizing s n with
  | nil =>
    cases h
    exact Nat.le_refl _
  | cons e es ih =>
    rw [run_cons, Option.bind_eq_some_iff] at h
    obtain ⟨⟨s₁, n₁⟩, he, hrest⟩ := h
    obtain ⟨-, rfl⟩ := tagged_eq_some.mp he
    exact Nat.le_trans (le_charge s e s₁ n).1 (ih hrest)

/-- `t` has its turn in the run of `es`, after at most `k` ticks -/
def HasTurn (s : State) (n : Nat) (es : List Event) (t : Task) (k : Nat) : Prop :=
  ∃ es₁ es₂ s₁ n₁, es = es₁ ++ es₂ ∧ run (tagged step charge) (s, n) es₁ = some (s₁, n₁) ∧
    s₁.current = t ∧ n₁ ≤ n + k

theorem run_wait {es : List Event} {n' : Nat} (hi : Inv s) (hc : Charged s n)
    (ht : t ∈ queue s .readyqueue) (h : run (tagged step charge) (s, n) es = some (s', n'))
    (hn : n' < 2147483648) : HasTurn s n es t (wait s t) ∨
      (t ∈ queue s' .readyqueue ∧ n' + wait s' t ≤ n + wait s t ∧
        (Guarded (tagged step charge) (fun x e => ¬ Early x.1 e) (s, n) es →
          n' + wait s' t = n + wait s t)) := by
  induction es generalizing s n with
  | nil =>
    cases h
    exact .inr ⟨ht, Nat.le_refl _, fun _ => rfl⟩
  | cons e es ih =>
    have hrun := h
    rw [run_cons, Option.bind_eq_some_iff] at h
    obtain ⟨⟨s₁, n₁⟩, he, hrest⟩ := h
    obtain ⟨hst, rfl⟩ := tagged_eq_some.mp he
    have hmono := run_charge hrest
    have hone := le_charge s e s₁ n
    have hpos : 1 ≤ wait s t := Nat.le_trans (Nat.le_max_left ..) (Nat.le_add_right ..)
    have hstep1 : run (tagged step charge) (s, n) [e] = some (s₁, charge s e s₁ n) := by
      rw [run_cons, he]
      rfl
    by_cases hcur : s₁.current = t
    · exact .inl ⟨[e], es, s₁, _, rfl, hstep1, hcur, by omega⟩
    obtain ⟨hmem, hle, heq⟩ := step_wait hi hc (by omega) ht hst hcur
    rcases ih (step_inv hi hst) (step_charged hi hc hst (by omega)) hmem hrest with hturn | hwait
    · obtain ⟨es₁, es₂, s₂, n₂, rfl, hrun₂, hcur₂, hn₂⟩ := hturn
      refine .inl ⟨e :: es₁, es₂, s₂, n₂, rfl, ?_, hcur₂, by omega⟩
      rw [run_cons, he]
      exact hrun₂
    · obtain ⟨hmem', hle', heq'⟩ := hwait
      refine .inr ⟨hmem', by omega, fun hg => ?_⟩
      obtain ⟨hearly, hg'⟩ := hg _ he
      have h1 := heq hearly
      have h2 := heq' hg'
      omega

/-- **Nobody starves.**  In a run of fewer than 2^31 ticks a task that waits in the ready queue has
its turn within `wait s t` ticks, at most 18 for the current task and for each one in front of it,
whatever the processes do and however many join the queue.  While no task leaves the processor
before the end of its slice, the number of ticks is exact. -/
theorem waits_bounded (mem : Nat → Byte) (tsc : Nat → DWord)
    (hr : Reachable (tagged step charge) (boot mem tsc, 0) (s, n)) (ht : t ∈ queue s .readyqueue)
    {es : List Event} {n' : Nat} (h : run (tagged step charge) (s, n) es = some (s', n'))
    (hn : n' < 2147483648) :
    wait s t ≤ 18 * ((ahead t (queue s .readyqueue)).length + 1) ∧
      (n + wait s t ≤ n' → HasTurn s n es t (wait s t)) ∧
      (¬ HasTurn s n es t (wait s t) →
        Guarded (tagged step charge) (fun x e => ¬ Early x.1 e) (s, n) es →
          n' + wait s' t = n + wait s t) := by
  have hmono := run_charge h
  obtain ⟨hi, hc⟩ := reachable_charged mem tsc hr
  have hc := hc (by omega)
  have hslice : slice s.cpuQuantum ≤ 18 := by
    have hle : s.cpuQuantum ≤ 18 := hc.le
    unfold slice
    omega
  have hpos : 1 ≤ wait s' t := Nat.le_trans (Nat.le_max_left ..) (Nat.le_add_right ..)
  have hrun := run_wait hi hc ht h hn
  refine ⟨waiting_le hslice fun u hu => hc.slice_le hi hu, fun hlong => ?_, fun hno => ?_⟩
  · refine hrun.resolve_right fun hw => ?_
    have hle := hw.2.1
    omega
  · exact (hrun.resolve_left hno).2.2

theorem Inv.fork_ready (hi : Inv s) (hu : inUser s) {child : Task} {rest : List Task}
    (hq : queue s .freequeue = child :: rest) :
    ∃ s', step s .fork = some s' ∧ queue s' .readyqueue = queue s .readyqueue ++ [child] ∧
      s'.control = .user ∧ s'.cpuQuantum = s.cpuQuantum := by
  obtain ⟨fs, s', hsp, hs⟩ := hi.fork_spawned hu hq
  refine ⟨s', hs, ?_, hsp.control.trans hu.1, hsp.cpuQuantum⟩
  rw [hsp.rep.queue_eq]
  show (((desk s).take .freequeue child).put .readyqueue child).queue .readyqueue = _
  rw [Desk.put_queue_self, Desk.take_queue_of_ne (by decide)]
  rfl

/-- nothing is left of the slice, and nobody is in front -/
theorem wait_one (hq : s.cpuQuantum = 0) (hr : queue s .readyqueue = [t]) : wait s t = 1 := by
  unfold wait
  rw [hr, hq]
  simp [waiting, ahead, slice]

theorem run_tick (hc : s.control = .user) : ∃ s',
    run (tagged step charge) (s, n) [.clock, .ret] = some (s', n + 1) := by
  have h1 : tagged step charge (s, n) .clock = some (clockEnter s, n) :=
    tagged_eq_some.mpr ⟨step_clock hc, if_neg (not_ticked (by simp))⟩
  have h2 : tagged step charge (clockEnter s, n) .ret = some (clockReturn (clockEnter s), n + 1) :=
    tagged_eq_some.mpr ⟨rfl, if_pos ⟨rfl, rfl⟩⟩
  refine ⟨clockReturn (clockEnter s), ?_⟩
  rw [run_cons, h1, Option.bind_some, run_cons, h2]
  rfl

/-- the first child runs after one tick -/
theorem waits_bounded_child : ∃ (s s' : State) (t : Task),
    Reachable (tagged step charge) (boot (fun _ => 0) fun _ => 0, 0) (s, 0) ∧
    t ∈ queue s .readyqueue ∧ run (tagged step charge) (s, 0) [.clock, .ret] = some (s', 1) ∧
    wait s t = 1 ∧ HasTurn s 0 [.clock, .ret] t 1 := by
  obtain ⟨t, rest, -, hq, -⟩ := boot_fork (fun _ => 0) fun _ => 0
  obtain ⟨s, hstep, hready, hc, hcpu⟩ := (boot_inv (fun _ => 0) fun _ => 0).fork_ready
    (boot_inUser (fun _ => 0) fun _ => 0) hq
  rw [boot_queue] at hready
  have hmem : t ∈ queue s .readyqueue := hready ▸ List.mem_append_right _ List.mem_cons_self
  have hreach : Reachable (tagged step charge) (boot (fun _ => 0) fun _ => 0, 0) (s, 0) :=
    .step .init (tagged_eq_some.mpr ⟨hstep, if_neg (not_ticked (by simp))⟩)
  obtain ⟨s', hrun⟩ := run_tick (n := 0) hc
  have hone : wait s t = 1 := wait_one hcpu hready
  have h := (waits_bounded (fun _ => 0) (fun _ => 0) hreach hmem hrun (by decide)).2.1
  rw [hone] at h
  exact ⟨s, s', t, hreach, hmem, hrun, hone, h (Nat.le_refl 1)⟩

end
end Zeos
