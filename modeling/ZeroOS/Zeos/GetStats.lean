import ZeroOS.Zeos.UserPointers
import ZeroOS.Zeos.Pids

/-!
# Zeos: `sys_get_stats`

* `copyStats`, `copyStats_end`   the copy of the record, and the fault at the end of the user pages;
* `StatsAnswered`   the call finds the process by its PID and copies its statistics;
* `pids_identify`   **PIDs identify processes**, and `sys_get_stats` answers exactly when the record
                    does not cross the end of the data pages.
-/

set_option linter.unusedVariables false

namespace Zeos
open Programs Runs Desks

section
variable {s s' : State} {h : History} {t : Task} {pid : Int} {st : DWord}

/-! ## the copy -/

/-- the user pages of a process -/
theorem Coherent.maps (hi : Coherent s) (hl : live s s.current) :
    Maps s.mm s.cr3 256 284 := by
  have hm := hi.mapped
  have hd : s.mm.dirPages s.cr3 = s.current := (hm.dirs s.cr3).trans hi.cr3_eq
  have hframe : ∀ p, (s.mm.pagusrTable s.current p).pbaseAddr = s.mm.frame s.current p := fun _ => rfl
  refine ⟨by decide, fun p h1 h2 => ?_, fun p q h1 h2 h3 h4 e => ?_⟩
  · rw [hd]
    exact ((hm.user_iff hl p).mpr ⟨h1, h2⟩).1
  · rw [hd, hframe, hframe] at e
    by_cases hp : p < 264
    · have hcp := hm.frame_code hl h1 hp
      by_cases hq : q < 264
      · rw [hcp, hm.frame_code hl h3 hq] at e
        unfold codeFrame at e
        omega
      · exact absurd (e.symm.trans hcp) (hm.noCode _ hl q ⟨by omega, h4⟩ _ (by omega))
    · by_cases hq : q < 264
      · exact absurd (e.trans (hm.frame_code hl h3 hq)) (hm.noCode _ hl p ⟨by omega, h2⟩ _ (by omega))
      · exact (hm.inj _ _ hl hl p q ⟨by omega, h2⟩ ⟨by omega, h4⟩ e).2

/-- a record of the kernel beside the mapped pages, which can be written -/
theorem toUserBus_window {mm : Mm} {dir : Task} {lo hi : Nat} (hm : Maps mm dir lo hi)
    (hlo : 1 ≤ lo) (obj : Nat → Byte) :
    Window (toUserBus obj) (fun a => a < sizeofStats) (fun a => lo * 4096 ≤ a ∧ a < hi * 4096)
      (fun s => s.mm = mm ∧ s.cr3 = dir)
      (fun s a => if a < sizeofStats then obj a else s.mem (physOf mm dir a)) (fun _ s => s)
      (fun a x s => (s.deref (a % 2 ^ 32)).setMem (Function.update s.mem (physOf mm dir a) x)) := by
  refine ⟨fun a s _ ha => ?_, fun a x s hs ha => ?_, fun _ _ hs _ => hs, fun _ _ _ hs _ => hs,
    fun _ _ _ _ _ _ => rfl, fun a x s b _ ha hb => ?_⟩
  · show Except.ok (obj a, s) = _
    rw [if_pos ha]
  · show kernelStore (a % 2 ^ 32) x (s.deref (a % 2 ^ 32)) = _
    have h1 := hm.mmu (s := s.deref (a % 2 ^ 32)) hs.1 hs.2 ha.1 ha.2
    have hlt := hm.lt
    unfold kernelStore
    rw [Nat.mod_mod, h1]
    rfl
  · simp only [sizeofStats] at hb ⊢
    by_cases hb28 : b < 28
    · have hne : b ≠ a := by omega
      rw [if_pos hb28, if_pos hb28, if_neg hne]
    · rw [if_neg hb28, if_neg hb28]
      show Function.update s.mem (physOf mm dir a) x (physOf mm dir b) = _
      exact hm.update_apply s.mem x ha (hb.resolve_left hb28)

/-- the record is copied if it fits -/
theorem copyStats {mm : Mm} {dir : Task} {lo hi : Nat} (hm : Maps mm dir lo hi) (hlo : 1 ≤ lo)
    (obj : Nat → Byte) {a : Nat} (h1 : lo * 4096 ≤ a) (h2 : a + sizeofStats ≤ hi * 4096)
    {s : State} (hs : s.mm = mm) (hc : s.cr3 = dir) :
    ∃ s', copyToUser (toUserBus obj) 0 a sizeofStats s = .ok s' ∧ Passive s s' ∧
      ∀ i, i < sizeofStats → s'.mem (physOf mm dir (a + i)) = obj i := by
  simp only [sizeofStats] at h2
  obtain ⟨s', hr, -, hp, hv⟩ := (toUserBus_window hm hlo obj).copyLoop (p := 0) (q := a)
    (n := 28) (fun i hi' => by simp only [sizeofStats]; omega) (fun i hi' => by omega)
    (by omega) (s := s) ⟨hs, hc⟩ (Passive s) (Passive.refl s) (fun _ _ _ _ hJ => hJ)
    (fun i x s₁ _ _ hJ => (hJ.trans (passive_deref ..)).trans (passive_setMem ..))
  refine ⟨s', hr, hp, fun i hi' => ?_⟩
  simp only [sizeofStats] at hi'
  have h3 := hv (a + i) (Or.inr (by omega))
  have h4 : ¬ a + i < sizeofStats := by
    simp only [sizeofStats]
    omega
  have h5 : a ≤ a + i ∧ a + i < a + 28 := by omega
  have h6 : 0 + (a + i - a) = i := by omega
  have h7 : i < sizeofStats := hi'
  rw [if_neg h4, if_pos h5, h6, if_pos h7] at h3
  exact h3

/-- the copy faults if the record crosses the end of the user pages -/
theorem copyStats_end {mm : Mm} (h284 : ∀ t, mm.pagusrTable t 284 = .zero) (obj : Nat → Byte)
    {a : Nat} (h1 : a ≤ 284 * 4096) (h2 : 284 * 4096 < a + sizeofStats) {s s' : State}
    (hs : s.mm = mm) : copyToUser (toUserBus obj) 0 a sizeofStats s ≠ .ok s' := by
  intro hr
  simp only [sizeofStats] at h2
  let good (s : State) : Prop := s.mm = mm
  have hl : ∀ b s₁ x s₂, good s₁ → (toUserBus obj).load b s₁ = .ok (x, s₂) → good s₂ := by
    intro b s₁ x s₂ hg h
    cases h
    exact hg
  have ht : ∀ b x s₁ s₂, good s₁ → (toUserBus obj).store b x s₁ = .ok s₂ → good s₂ := by
    intro b x s₁ s₂ hg h
    have h3 := (passive_deref ..).trans (kernelStore_passive h)
    show s₂.mm = mm
    rw [h3.eq]
    exact hg
  have hj : 284 * 4096 - a < (sizeofStats : Int).toNat := by
    simp only [sizeofStats, Int.toNat_natCast]
    omega
  obtain ⟨x, s₁, s₂, hg, hst⟩ := copyLoop_stores hl ht hs hr hj
  have e : a + (284 * 4096 - a) = 284 * 4096 := by omega
  rw [e] at hst
  change kernelStore _ x (s₁.deref _) = _ at hst
  have hmmu : mmu (s₁.deref (284 * 4096 % 2 ^ 32)) (284 * 4096 % 2 ^ 32 % 2 ^ 32) = none := by
    apply Option.eq_none_iff_forall_ne_some.mpr
    intro y hy
    have hp : (s₁.mm.pagusrTable (s₁.mm.dirPages s₁.cr3) 284).present = true :=
      (translate_eq_some.mp hy).2.1
    rw [hg, h284] at hp
    cases hp
  unfold kernelStore at hst
  rw [hmmu] at hst
  cases hst

/-! ## the answer -/

/-- the PCBs after a system call: `current` is charged twice -/
def charged (s : State) (u : Task) : TaskStruct :=
  if u = s.current then ((s.task u).tick .user (getTicks s)).tick .system (s.tsc (s.reads + 1))
  else s.task u

theorem user2kernel_task (s : State) (u : Task) :
    (actTicksUser2kernel s).task u =
      if u = s.current then (s.task u).tick .user (getTicks s) else s.task u := by
  unfold actTicksUser2kernel actTicks
  rw [account_task]
  by_cases e : u = s.current
  · rw [if_pos e, if_pos e, e]
  · rw [if_neg e, if_neg e]

theorem charged_eq {w : State} (ht : w.task = (actTicksUser2kernel s).task)
    (hc : w.current = s.current) (hr : w.reads = s.reads + 1) (hs : w.tsc = s.tsc) :
    (actTicksKernel2user w).task = charged s := by
  funext u
  unfold actTicksKernel2user actTicks charged
  rw [account_task, hc, getTicks, hr, hs, ht, user2kernel_task, user2kernel_task, if_pos rfl]
  by_cases e : u = s.current
  · rw [if_pos e, if_pos e, e]
  · rw [if_neg e, if_neg e, if_neg e]

theorem user2kernel_pid (s : State) (u : Task) :
    ((actTicksUser2kernel s).task u).pid = (s.task u).pid := (actTicks_kept ..).pid u

/-- What `sys_get_stats` comes to when `t` is the only PCB with the PID: a copy in the state `w`,
and an accounting update before or after it. -/
theorem sysGetStats_found (hp : 0 ≤ pid) (hst : ¬ StatsRefused st) (ht : (s.task t).pid = pid)
    (hone : ∀ u, (s.task u).pid = pid → u = t) :
    ∃ (w : State) (g : State → State), w.mm = s.mm ∧ w.cr3 = s.cr3 ∧
      sysGetStats pid st s = (copyToUser (toUserBus (w.task t).statics.bytes) 0 st.toNat
        sizeofStats w).map (fun x => (0, g x)) ∧
      ∀ x, Passive w x → (g x).task = charged s ∧ ((g x).task t).statics = (w.task t).statics ∧
        (g x).mm = s.mm ∧ (g x).mem = x.mem := by
  have h1 : ¬ pid < 0 := by omega
  by_cases hcur : (s.task s.current).pid = pid
  · -- the caller itself
    obtain rfl := hone s.current hcur
    have hcur' : ((actTicksUser2kernel s).task (actTicksUser2kernel s).current).pid = pid :=
      (user2kernel_pid ..).trans hcur
    refine ⟨actTicksKernel2user (actTicksUser2kernel s), id, rfl, rfl, ?_, fun x hx => ?_⟩
    · unfold sysGetStats
      dsimp only
      rw [if_neg h1, if_neg hst, if_pos hcur']
      rfl
    · have e := charged_eq (s := s) (w := actTicksUser2kernel s) rfl rfl rfl rfl
      rw [hx.eq]
      exact ⟨e, rfl, rfl, rfl⟩
  · have hcur' : ¬ ((actTicksUser2kernel s).task (actTicksUser2kernel s).current).pid = pid := by
      rw [user2kernel_pid]
      exact hcur
    have hfind : ((List.finRange nrTasks).find? fun i =>
        ((actTicksUser2kernel s).task i).pid = pid) = some t := by
      cases hf : (List.finRange nrTasks).find? fun i =>
          ((actTicksUser2kernel s).task i).pid = pid with
      | none =>
        have h2 := List.find?_eq_none.mp hf t (List.mem_finRange t)
        rw [decide_eq_true_iff, user2kernel_pid] at h2
        exact absurd ht h2
      | some u =>
        have h2 := List.find?_some hf
        rw [decide_eq_true_iff, user2kernel_pid] at h2
        rw [hone u h2]
    have htc : t ≠ s.current := fun e => hcur (e ▸ ht)
    refine ⟨actTicksUser2kernel s, actTicksKernel2user, rfl, rfl, ?_, fun x hx => ?_⟩
    · unfold sysGetStats getStatPID
      dsimp only
      rw [if_neg h1, if_neg hst, if_neg hcur', hfind]
      dsimp only
      cases copyToUser (toUserBus ((actTicksUser2kernel s).task t).statics.bytes) 0 st.toNat
        sizeofStats (actTicksUser2kernel s) <;> rfl
    · have e := charged_eq (s := s) (w := x) (by rw [hx.eq]) (by rw [hx.eq]; rfl)
        (by rw [hx.eq]; rfl) (by rw [hx.eq]; rfl)
      have em : (actTicksKernel2user x).mm = s.mm := by
        show x.mm = s.mm
        rw [hx.eq]
        rfl
      refine ⟨e, ?_, em, rfl⟩
      rw [e, charged, if_neg htc, user2kernel_task, if_neg htc]

theorem sysGetStats_missing (hp : 0 ≤ pid) (hst : ¬ StatsRefused st)
    (hno : ∀ u, (s.task u).pid ≠ pid) :
    sysGetStats pid st s = .ok (-esrch, actTicksKernel2user (actTicksUser2kernel s)) := by
  have h1 : ¬ pid < 0 := by omega
  have hcur' : ¬ ((actTicksUser2kernel s).task (actTicksUser2kernel s).current).pid = pid := by
    rw [user2kernel_pid]
    exact hno _
  have hfind : ((List.finRange nrTasks).find? fun i =>
      ((actTicksUser2kernel s).task i).pid = pid) = none := by
    refine List.find?_eq_none.mpr fun u _ => ?_
    rw [decide_eq_true_iff, user2kernel_pid]
    exact hno u
  unfold sysGetStats getStatPID
  dsimp only
  rw [if_neg h1, if_neg hst, if_neg hcur', hfind]
  rfl

/-- `sys_get_stats (pid, st)` finds the one process with the PID, if there is one, and copies its
statistics to the caller. -/
structure StatsAnswered (s : State) (pid : Int) (st : DWord) : Prop where
  found : ∀ t, t ∉ queue s .freequeue → (s.task t).pid = pid →
    ∃ s', sysGetStats pid st s = .ok (0, s') ∧ s'.task = charged s ∧
      ∀ i, i < sizeofStats →
        userByte s' s.current (st.toNat + i) = some ((s'.task t).statics.bytes i)
  missing : (∃ s', sysGetStats pid st s = .ok (-esrch, s')) ↔
    ∀ t, t ∉ queue s .freequeue → (s.task t).pid ≠ pid

theorem charged_dir (s : State) (u : Task) :
    (charged s u).dirPagesBaseAddr = (s.task u).dirPagesBaseAddr := by
  unfold charged
  split <;> rfl

/-- **`sys_get_stats` answers if and only if the record does not cross the end of the data
pages**, or nothing has to be copied. -/
theorem statsAnswered_iff (hi : Inv s) (hid : Identified s h) (hu : inUser s) (hp : 0 ≤ pid)
    (hst : ¬ StatsRefused st) :
    StatsAnswered s pid st ↔ (∀ t, t ∉ queue s .freequeue → (s.task t).pid ≠ pid) ∨
      st.toNat + sizeofStats ≤ 284 * 4096 := by
  have hL := hi.live_current hu
  have hrange : 256 * 4096 ≤ st.toNat ∧ st.toNat ≤ 284 * 4096 := by
    unfold StatsRefused at hst
    simp only [lUserStart, numPagData, numPagCode, pageSize] at hst
    omega
  have hout : ∀ u, (s.task u).pid = pid → u ∉ queue s .freequeue := by
    intro u h1 h2
    have h3 := (hid.free u).mp h2
    omega
  have hone : ∀ t, (s.task t).pid = pid → ∀ u, (s.task u).pid = pid → u = t :=
    fun t h1 u h2 => hid.distinct u t (hout u h2) (hout t h1) (h2.trans h1.symm)
  -- the call past its checks, when there is such a process
  have hsome : ∀ t, t ∉ queue s .freequeue → (s.task t).pid = pid →
      (∃ s', sysGetStats pid st s = .ok (-esrch, s')) → False := by
    intro t _ hpid h1
    obtain ⟨s', hr⟩ := h1
    obtain ⟨w, g, -, -, he, -⟩ := sysGetStats_found hp hst hpid (hone t hpid)
    rw [he] at hr
    obtain ⟨x, -, hx⟩ := map_eq_ok.mp hr
    have e : (0 : Int) = -esrch := congrArg Prod.fst hx
    exact absurd e (by decide)
  have hmiss : (∃ s', sysGetStats pid st s = .ok (-esrch, s')) ↔
      ∀ t, t ∉ queue s .freequeue → (s.task t).pid ≠ pid := by
    exact ⟨fun h1 t ht hpid => hsome t ht hpid h1, fun h1 =>
      ⟨_, sysGetStats_missing hp hst fun u hu' => h1 u (hout u hu') hu'⟩⟩
  refine ⟨fun ha => ?_, fun hok => ⟨fun t ht hpid => ?_, hmiss⟩⟩
  · by_contra hno
    obtain ⟨h1, h2⟩ := not_or.mp hno
    simp only [not_forall, not_not] at h1
    obtain ⟨t, ht, hpid⟩ := h1
    obtain ⟨s', hr, -⟩ := ha.found t ht hpid
    obtain ⟨w, g, hwm, -, he, -⟩ := sysGetStats_found hp hst hpid (hone t hpid)
    rw [he] at hr
    obtain ⟨x, hc, -⟩ := map_eq_ok.mp hr
    exact copyStats_end (fun u => hi.mapped.above u 284 le_rfl) _ hrange.2 (by omega) hwm hc
  · have hfit := hok.resolve_left fun h1 => h1 t ht hpid
    obtain ⟨w, g, hwm, hwc, he, hg⟩ := sysGetStats_found hp hst hpid (hone t hpid)
    obtain ⟨x, hc, hx, hmem⟩ := copyStats (hi.maps hL) (by decide) (w.task t).statics.bytes
      hrange.1 hfit hwm hwc
    obtain ⟨h1, h2, h3, h4⟩ := hg x hx
    refine ⟨g x, ?_, h1, fun i hi28 => ?_⟩
    · rw [he, hc]
      rfl
    · have hdir : getDIR (g x) s.current = getDIR s s.current := by
        unfold getDIR
        rw [h1, charged_dir]
      have ha : UserAddr (st.toNat + i) := by
        simp only [sizeofStats] at hi28 hfit
        exact ⟨by omega, by omega⟩
      have hphys : physOf s.mm s.cr3 (st.toNat + i) =
          s.mm.frame s.current ((st.toNat + i) / 4096) * 4096 + (st.toNat + i) % 4096 := by
        unfold physOf
        rw [hi.mapped.dirs, hi.cr3_eq]
        rfl
      unfold userByte
      rw [h3, hdir, hi.userLoad_eq hL ha, h2, h4, ← hmem i hi28, hphys]
      rfl

/-- **PIDs identify processes**, in every run with fewer than 2^31 - 2 forks.  A free PCB has the
PID -1, the others have PIDs of their own, and `sys_fork` returns a new one.  `sys_get_stats`
finds a process by its PID if and only if the record does not cross the end of the data pages. -/
theorem pids_identify (mem : Nat → Byte) (tsc : Nat → DWord)
    (hr : Reachable (tagged step record) (boot mem tsc, noForks (boot mem tsc)) (s, h))
    (hlt : h.forks < 2147483646) :
    Identified s h ∧ (inUser s → ∀ pid st, 0 ≤ pid → ¬ StatsRefused st →
      (StatsAnswered s pid st ↔ (∀ t, t ∉ queue s .freequeue → (s.task t).pid ≠ pid) ∨
        st.toNat + sizeofStats ≤ 284 * 4096)) := by
  obtain ⟨hi, hn⟩ := reachable_numbered mem tsc hr
  have hid := hn.identified hi hlt
  exact ⟨hid, fun hu pid st hp hst => statsAnswered_iff hi hid hu hp hst⟩

/-- the initial process forks, asks for the statistics of the child, and exits -/
theorem pids_identify_exit : ∃ s s' h h',
    tagged step record (boot (fun _ => 0) fun _ => 0, noForks (boot (fun _ => 0) fun _ => 0))
      .fork = some (s, h) ∧ tagged step record (s, h) .exit = some (s', h') ∧
    (StatsAnswered s 2 0x108000 ↔ (∀ t, t ∉ queue s .freequeue → (s.task t).pid ≠ 2) ∨
      (0x108000 : DWord).toNat + sizeofStats ≤ 284 * 4096) ∧ Identified s' h' := by
  obtain ⟨s, s', hs, hu, hx⟩ := boot_fork_exit (fun _ => 0) fun _ => 0
  obtain ⟨h, h', h1, h2, hle, hle'⟩ := fork_exit_recorded hs hx
  exact ⟨s, s', h, h', h1, h2,
    (pids_identify (fun _ => 0) (fun _ => 0) (.step .init h1) (by omega)).2 hu 2 0x108000
      (by decide) (by decide),
    (pids_identify (fun _ => 0) (fun _ => 0) (.step (.step .init h1) h2) (by omega)).1⟩

/-- the last four bytes of the user region -/
theorem stats_not_answered : ¬ StatsAnswered (boot (fun _ => 0) fun _ => 0) 1 0x11bffc := by
  have hi := boot_inv (fun _ => 0) fun _ => 0
  have hid := (boot_numbered (fun _ => 0) fun _ => 0).identified hi (by decide)
  rw [statsAnswered_iff hi hid (boot_inUser _ _) (by decide) (by decide)]
  intro hno
  obtain h1 | h1 := hno
  · have h8 : live (boot (fun _ => 0) fun _ => 0) 8 := (boot_live _ _ 8).mpr rfl
    refine h1 8 h8.2 ?_
    rw [boot_init]
  · exact absurd h1 (by decide)

end
end Zeos
