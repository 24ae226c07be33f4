import ZeroOS.Zeos.Boot

/-!
# Zeos: PIDs

* `History`        the number of forks that made a child, and the PIDs that processes have had;
* `Numbered`       the processes are numbered in the order of their birth, the PID of the process
                   `k` is `1 + k` as an `int`, and a free PCB has the PID -1;
* `Identified`     what follows while the numbers fit: the PID of a process is its own, and the
                   next one is new (`Numbered.identified`).
-/

set_option linter.unusedVariables false

namespace Zeos
open Programs Runs Desks

/-! ## history -/

/-- a fork has made a child -/
def Born (s s' : State) : Prop := ∃ t, ¬ live s t ∧ live s' t

instance (s : State) (t : Task) : Decidable (live s t) := inferInstanceAs (Decidable (_ ∧ _))

instance (s s' : State) : Decidable (Born s s') := inferInstanceAs (Decidable (∃ t, _))

structure History where
  forks : Nat
  carried : Int → Prop

/-- the PIDs of the PCBs outside the free queue -/
def inUse (s : State) (p : Int) : Prop := ∃ t, t ∉ queue s .freequeue ∧ (s.task t).pid = p

def record (s : State) (e : Event) (s' : State) (h : History) : History :=
  ⟨if Born s s' then h.forks + 1 else h.forks, fun p => h.carried p ∨ inUse s' p⟩

theorem record_forks_le (s : State) (e : Event) (s' : State) (h : History) :
    h.forks ≤ (record s e s' h).forks := by
  show h.forks ≤ if Born s s' then h.forks + 1 else h.forks
  split <;> omega

theorem record_forks_le_succ (s : State) (e : Event) (s' : State) (h : History) :
    (record s e s' h).forks ≤ h.forks + 1 := by
  show (if Born s s' then h.forks + 1 else h.forks) ≤ h.forks + 1
  split <;> omega

/-- the history at boot -/
def noForks (s : State) : History := ⟨0, inUse s⟩

theorem fork_exit_recorded {s₀ : State} (hs : step s₀ .fork = some s)
    (hx : step s .exit = some s') : ∃ h h', tagged step record (s₀, noForks s₀) .fork = some (s, h) ∧
      tagged step record (s, h) .exit = some (s', h') ∧ h.forks ≤ 1 ∧ h'.forks ≤ 2 := by
  have hone : (record s₀ .fork s (noForks s₀)).forks ≤ 1 := record_forks_le_succ ..
  have htwo := record_forks_le_succ s .exit s' (record s₀ .fork s (noForks s₀))
  exact ⟨_, _, tagged_eq_some.mpr ⟨hs, rfl⟩, tagged_eq_some.mpr ⟨hx, rfl⟩, hone, by omega⟩

theorem int32_succ (x : Int) : int32 (int32 x + 1) = int32 (x + 1) := by
  unfold int32
  omega

/-- the PID of the process number `k` -/
def pidOf (k : Nat) : Int := int32 (1 + k)

theorem pidOf_succ (k : Nat) : int32 (pidOf k + 1) = pidOf (k + 1) := by
  unfold pidOf
  have e : (1 : Int) + k + 1 = 1 + ((k + 1 : Nat) : Int) := by omega
  rw [int32_succ, e]

/-- a PID fits in an `int` -/
theorem pidOf_eq {k : Nat} (h : k < 2147483647) : pidOf k = 1 + k :=
  int32_eq (by omega) (by omega)

/-- until the counter wraps around no process gets the PID of idle -/
theorem pidOf_ne_zero {k : Nat} (h : k < 4294967295) : pidOf k ≠ 0 := by
  unfold pidOf int32
  omega

structure Numbered (s : State) (h : History) : Prop where
  max : s.pidMax = pidOf h.forks
  free : ∀ t ∈ queue s .freequeue, (s.task t).pid = -1
  birth : ∃ k : Task → Nat, (∀ t, live s t → k t ≤ h.forks ∧ (s.task t).pid = pidOf (k t)) ∧
    ∀ t u, live s t → live s u → k t = k u → t = u
  carried : ∀ p, h.carried p → p = 0 ∨ ∃ k, k ≤ h.forks ∧ p = pidOf k

section
variable {s s' : State} {h : History}

theorem Inv.inUse (hi : Inv s) {p : Int} (hp : Zeos.inUse s p) :
    p = 0 ∨ ∃ t, live s t ∧ (s.task t).pid = p := by
  obtain ⟨t, ht, rfl⟩ := hp
  by_cases e : t = s.idleTask
  · exact Or.inl (e ▸ hi.idlePid)
  · exact Or.inr ⟨t, ⟨e, ht⟩, rfl⟩

theorem boot_numbered (mem : Nat → Byte) (tsc : Nat → DWord) :
    Numbered (boot mem tsc) (noForks (boot mem tsc)) := by
  have hfree : ∀ t ∈ queue (boot mem tsc) .freequeue, t ≠ 8 ∧ t ≠ 9 := by
    rw [boot_queue]
    decide
  have h0 : pidOf 0 = 1 := by decide
  have hbirth : ∀ t, live (boot mem tsc) t → 0 ≤ 0 ∧ ((boot mem tsc).task t).pid = pidOf 0 := by
    intro t ht
    obtain rfl := (boot_live mem tsc t).mp ht
    rw [boot_init]
    exact ⟨le_rfl, h0.symm⟩
  refine ⟨?_, fun t ht => ?_, ⟨fun _ => 0, hbirth, fun t u ht hu _ => ?_⟩, fun p hp => ?_⟩
  · exact (boot_pidMax mem tsc).trans h0.symm
  · exact boot_free_pid mem tsc (hfree t ht).1 (hfree t ht).2
  · rw [(boot_live mem tsc t).mp ht, (boot_live mem tsc u).mp hu]
  · obtain h0 | ⟨t, ht, rfl⟩ := (boot_inv mem tsc).inUse hp
    · exact Or.inl h0
    · exact Or.inr ⟨0, le_rfl, (hbirth t ht).2⟩

theorem Spawned.pid {child : Task} {fs : List Nat} (hsp : Spawned s s' child fs) (t : Task) :
    (s'.task t).pid = if t = child then int32 (s.pidMax + 1) else (s.task t).pid := by
  rw [hsp.task]
  by_cases h1 : t = child
  · rw [if_pos h1, if_pos h1]
    rfl
  · rw [if_neg h1, if_neg h1]
    by_cases h2 : t = s.current
    · rw [if_pos h2, h2]
      rfl
    · rw [if_neg h2]

theorem Exited.pid (hx : Exited s s') (t : Task) :
    (s'.task t).pid = if t = s.current then -1 else (s.task t).pid := by
  rw [hx.task]
  by_cases h1 : t = s.current
  · rw [if_pos h1, if_pos h1]
    rfl
  · rw [if_neg h1, if_neg h1]

/-- Numbers for the processes after a step are enough: the history grows by PIDs in use. -/
theorem Numbered.extend (hi' : Inv s') (hn : Numbered s h) {e : Event} {k : Task → Nat}
    (hmax : s'.pidMax = pidOf (record s e s' h).forks)
    (hfree : ∀ t ∈ queue s' .freequeue, (s'.task t).pid = -1)
    (hk : ∀ t, live s' t → k t ≤ (record s e s' h).forks ∧ (s'.task t).pid = pidOf (k t))
    (hinj : ∀ t u, live s' t → live s' u → k t = k u → t = u) :
    Numbered s' (record s e s' h) := by
  refine ⟨hmax, hfree, ⟨k, hk, hinj⟩, fun p hp => ?_⟩
  obtain h1 | h1 := hp
  · obtain h2 | ⟨j, hj, h2⟩ := hn.carried p h1
    · exact Or.inl h2
    · exact Or.inr ⟨j, hj.trans (record_forks_le s e s' h), h2⟩
  · obtain h0 | ⟨t, ht, rfl⟩ := hi'.inUse h1
    · exact Or.inl h0
    · exact Or.inr ⟨k t, hk t ht⟩

theorem record_forks_of_sub {e : Event} (hsub : ∀ t, live s' t → live s t) :
    (record s e s' h).forks = h.forks := by
  refine if_neg ?_
  rintro ⟨t, h1, h2⟩
  exact h1 (hsub t h2)

theorem Kept.numbered (hi' : Inv s') (hn : Numbered s h) {e : Event} (hkept : Kept s s')
    (hf : queue s' .freequeue = queue s .freequeue) : Numbered s' (record s e s' h) := by
  obtain ⟨k, hk, hinj⟩ := hn.birth
  have hl := live_congr hkept.idleTask hf
  have hforks : (record s e s' h).forks = h.forks := record_forks_of_sub fun t ht => hl ▸ ht
  apply hn.extend hi' (k := k)
  · rw [hkept.pidMax, hforks]
    exact hn.max
  · intro t ht
    rw [hkept.pid]
    exact hn.free t (hf ▸ ht)
  · rw [hl, hforks]
    intro t ht
    rw [hkept.pid]
    exact hk t ht
  · rw [hl]
    exact hinj

/-- the child gets the next number -/
theorem Spawned.numbered (hi : Inv s) (hi' : Inv s') (hn : Numbered s h) {child : Task}
    {fs : List Nat} (hc : child ∈ queue s .freequeue) (hsp : Spawned s s' child fs) :
    Numbered s' (record s .fork s' h) := by
  obtain ⟨k, hk, hinj⟩ := hn.birth
  have hl := hsp.live_iff hi hc
  have hnl : ¬ live s child := fun h1 => h1.2 hc
  have hb : Born s s' := ⟨child, hnl, by rw [hl]; exact Or.inr rfl⟩
  have hforks : (record s .fork s' h).forks = h.forks + 1 := if_pos hb
  apply hn.extend hi' (k := fun t => if t = child then h.forks + 1 else k t)
  · rw [hsp.pidMax, hn.max, pidOf_succ, hforks]
  · intro t ht
    obtain ⟨h1, h2⟩ := (hsp.free_iff hi hc t).mp ht
    rw [hsp.pid, if_neg h2]
    exact hn.free t h1
  · intro t ht
    rw [hl] at ht
    rw [hsp.pid, hforks]
    by_cases h1 : t = child
    · rw [if_pos h1, if_pos h1, hn.max, pidOf_succ]
      exact ⟨le_rfl, rfl⟩
    · rw [if_neg h1, if_neg h1]
      have h2 := hk t (ht.resolve_right h1)
      exact ⟨h2.1.trans (Nat.le_succ _), h2.2⟩
  · intro t u ht hu htu
    rw [hl] at ht hu
    by_cases h1 : t = child
    · by_cases h2 : u = child
      · rw [h1, h2]
      · rw [if_pos h1, if_neg h2] at htu
        have h3 := (hk u (hu.resolve_right h2)).1
        omega
    · by_cases h2 : u = child
      · rw [if_neg h1, if_pos h2] at htu
        have h3 := (hk t (ht.resolve_right h1)).1
        omega
      · rw [if_neg h1, if_neg h2] at htu
        exact hinj t u (ht.resolve_right h1) (hu.resolve_right h2) htu

theorem Exited.numbered (hi' : Inv s') (hn : Numbered s h) (hx : Exited s s') :
    Numbered s' (record s .exit s' h) := by
  obtain ⟨k, hk, hinj⟩ := hn.birth
  have hl := hx.live_iff
  have hforks : (record s .exit s' h).forks = h.forks := by
    apply record_forks_of_sub
    rw [hl]
    exact fun t ht => ht.1
  apply hn.extend hi' (k := k)
  · rw [hx.pidMax, hforks]
    exact hn.max
  · intro t ht
    rw [hx.pid]
    by_cases h1 : t = s.current
    · rw [if_pos h1]
    · rw [if_neg h1]
      rw [hx.free, List.mem_append, List.mem_singleton] at ht
      exact hn.free t (ht.resolve_right h1)
  · rw [hl, hforks]
    intro t ht
    rw [hx.pid, if_neg ht.2]
    exact hk t ht.1
  · rw [hl]
    exact fun t u ht hu => hinj t u ht.1 hu.1

/-- **The numbering is kept by every step.** -/
theorem step_numbered (hi : Inv s) (hn : Numbered s h) {e : Event} (he : step s e = some s') :
    Numbered s' (record s e s' h) := by
  have hi' := step_inv hi he
  cases step_evolves hi he with
  | still hkept hr hf => exact hkept.numbered hi' hn hf
  | fork child rest fs hu hq hlen hg hsp => exact hsp.numbered hi hi' hn (hq ▸ List.mem_cons_self)
  | exit hu hx => exact hx.numbered hi' hn

/-- the invariant of the kernel with its history -/
theorem reachable_numbered (mem : Nat → Byte) (tsc : Nat → DWord) {s : State} {h : History}
    (hr : Reachable (tagged step record) (boot mem tsc, noForks (boot mem tsc)) (s, h)) :
    Inv s ∧ Numbered s h := by
  apply hr.tagged (I := fun s h => Inv s ∧ Numbered s h)
  · exact ⟨boot_inv mem tsc, boot_numbered mem tsc⟩
  · intro s h e s' hx he
    exact ⟨step_inv hx.1 he, step_numbered hx.1 hx.2 he⟩

/-! ## identity -/

/-- The PIDs tell the processes apart, and the next one is new. -/
structure Identified (s : State) (h : History) : Prop where
  free : ∀ t, t ∈ queue s .freequeue ↔ (s.task t).pid = -1
  distinct : ∀ t u, t ∉ queue s .freequeue → u ∉ queue s .freequeue →
    (s.task t).pid = (s.task u).pid → t = u
  nonneg : ∀ t, t ∉ queue s .freequeue → 0 ≤ (s.task t).pid
  zero : ∀ t, t ∉ queue s .freequeue → ((s.task t).pid = 0 ↔ t = s.idleTask)
  fresh : ∀ pid s', inUser s → sysFork s = .ok (pid, s') → 0 ≤ pid ∨ Born s s' →
    0 < pid ∧ ¬ h.carried pid

theorem Numbered.identified (hi : Inv s) (hn : Numbered s h) (hlt : h.forks < 2147483646) :
    Identified s h := by
  obtain ⟨k, hk, hinj⟩ := hn.birth
  have hpid : ∀ t, live s t → (s.task t).pid = 1 + (k t : Int) := by
    intro t ht
    obtain ⟨h1, h2⟩ := hk t ht
    rw [h2, pidOf_eq (by omega)]
  have hcase : ∀ t, t ∉ queue s .freequeue → t = s.idleTask ∨ live s t := by
    intro t ht
    by_cases e : t = s.idleTask
    · exact Or.inl e
    · exact Or.inr ⟨e, ht⟩
  have hidle := hi.idlePid
  have hnn : ∀ t, t ∉ queue s .freequeue → 0 ≤ (s.task t).pid := by
    intro t ht
    obtain rfl | hl := hcase t ht
    · rw [hidle]
    · rw [hpid t hl]
      omega
  have hzero : ∀ t, t ∉ queue s .freequeue → ((s.task t).pid = 0 ↔ t = s.idleTask) := by
    intro t ht
    refine ⟨fun h0 => ?_, fun e => e ▸ hidle⟩
    obtain rfl | hl := hcase t ht
    · rfl
    · have h1 := hpid t hl
      omega
  refine ⟨fun t => ⟨hn.free t, fun h1 => ?_⟩, fun t u ht hu htu => ?_, hnn, hzero, ?_⟩
  · by_contra hno
    have h2 := hnn t hno
    omega
  · obtain e | hl := hcase t ht
    · have h1 := (hzero u hu).mp (htu.symm.trans ((hzero t ht).mpr e))
      rw [e, h1]
    · obtain e | hl' := hcase u hu
      · exact absurd ((hzero t ht).mp (htu.trans ((hzero u hu).mpr e))) hl.1
      · have h1 := hpid t hl
        have h2 := hpid u hl'
        exact hinj t u hl hl' (by omega)
  · intro pid s' hu hf hs
    rcases hi.forked hu hf with ⟨hq, rfl, hserv⟩ | ⟨child, rest, fs, hq, -, -, hsp, e⟩
    · have hun := hserv.unmoved
      have hl := live_congr hun.kept.idleTask (queue_congr hun.links .freequeue)
      obtain h1 | ⟨t, h1, h2⟩ := hs
      · exact absurd h1 (by decide)
      · exact absurd (hl ▸ h2) h1
    · have e' : pid = 2 + (h.forks : Int) := by
        rw [e, hn.max, pidOf_succ, pidOf_eq (by omega)]
        omega
      rw [e']
      refine ⟨by omega, fun hc => ?_⟩
      obtain h0 | ⟨j, hj, hp⟩ := hn.carried _ hc
      · omega
      · rw [pidOf_eq (by omega)] at hp
        omega

end
end Zeos
