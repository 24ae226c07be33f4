import ZeroOS.Zeos.Machine
import ZeroOS.Zeos.Scheduling

/-!
# Zeos: the kernel refines the machine of the programs

* `patchOf s e`        what the running process writes in the user pages in the event `e`;
* `Inv.step_reads`     what every process reads afterwards;
* `kernel_refines`     **every run of the kernel is a run of the machine**, with the same answers;
* `data_determined`    **the data of a process is what it made of them itself.**
-/

set_option linter.unusedVariables false

namespace Zeos
open Programs Rings Desks Runs Spaces Simulation

section
variable {s s' : State} {t u : Task} {m : Machine}

/-! ## the bytes of the user pages -/

/-- A byte of the user pages is in one place: those of the code are common, and no two data bytes
are in the same place. -/
theorem Coherent.homeOf_eq_iff (h : Coherent s) (ht : live s t) (hu : live s u) {a b : Nat}
    (ha : UserAddr a) (hb : UserAddr b) :
    homeOf s t a = homeOf s u b ↔ a = b ∧ (Common a ∨ t = u) := by
  have hm := h.mapped
  unfold homeOf UserAddr Common at *
  constructor
  · intro e
    have hpage : s.mm.frame t (a / 4096) = s.mm.frame u (b / 4096) := by omega
    have hoff : a % 4096 = b % 4096 := by omega
    by_cases hca : a / 4096 < 264
    · have hfa := hm.frame_code ht (p := a / 4096) (by omega) hca
      by_cases hcb : b / 4096 < 264
      · rw [hfa, hm.frame_code hu (by omega) hcb] at hpage
        unfold codeFrame at hpage
        omega
      · have hno := hm.noCode u hu (b / 4096) ⟨by omega, by omega⟩ (a / 4096 - 256) (by omega)
        exact absurd (hpage.symm.trans hfa) hno
    · by_cases hcb : b / 4096 < 264
      · have hfb := hm.frame_code hu (p := b / 4096) (by omega) hcb
        have hno := hm.noCode t ht (a / 4096) ⟨by omega, by omega⟩ (b / 4096 - 256) (by omega)
        exact absurd (hpage.trans hfb) hno
      · obtain ⟨h1, h2⟩ := hm.inj t u ht hu _ _ ⟨by omega, by omega⟩ ⟨by omega, by omega⟩ hpage
        exact ⟨by omega, Or.inr h1⟩
  · rintro ⟨rfl, hc | rfl⟩
    · rw [hm.frame_code ht (by omega) (by omega), hm.frame_code hu (by omega) (by omega)]
    · rfl

/-- the running process has written `f` in its user pages, and nothing else has changed -/
structure Rewritten (s s' : State) (f : Nat → Option Byte) : Prop where
  here : ∀ a, UserAddr a → s'.mem (homeOf s s.current a) = (f a).getD (s.mem (homeOf s s.current a))
  elsewhere : ∀ x, (∀ a, UserAddr a → x ≠ homeOf s s.current a) → s'.mem x = s.mem x

/-- who sees it -/
theorem Rewritten.mem {f : Nat → Option Byte} (hr : Rewritten s s' f) (h : Coherent s)
    (hc : live s s.current) (ht : live s t) {a : Nat} (ha : UserAddr a) :
    s'.mem (homeOf s t a) = if Common a ∨ t = s.current then (f a).getD (s.mem (homeOf s t a))
      else s.mem (homeOf s t a) := by
  by_cases hs : Common a ∨ t = s.current
  · rw [if_pos hs, (h.homeOf_eq_iff ht hc ha ha).mpr ⟨rfl, hs⟩]
    exact hr.here a ha
  · rw [if_neg hs]
    refine hr.elsewhere _ fun b hb e => ?_
    exact hs ((h.homeOf_eq_iff ht hc ha hb).mp e).2

/-! ## stores -/

theorem Coherent.userStore_eq (h : Coherent s) (a : Nat) (b : Byte) :
    userStore a b s = storeBy s s.current a b := by
  unfold userStore storeBy
  rw [show s.cr3 = _ from h.cr3]

theorem Coherent.store_rewritten (h : Coherent s) (hc : live s s.current) {a : Nat} {b : Byte}
    (hst : userStore a b s = some s') : UserAddr a ∧ Rewritten s s' (poke a b) := by
  rw [h.userStore_eq] at hst
  obtain ⟨ha, -, rfl⟩ := h.store_eq hc hst
  refine ⟨ha, fun v hv => ?_, fun x hx => Function.update_of_ne (hx a ha) ..⟩
  have hhome : s.mm.frame s.current (a / 4096) * 4096 + a % 4096 = homeOf s s.current a := rfl
  rw [poke_getD, State.setMem_mem, hhome]
  by_cases e : v = a
  · rw [if_pos e, e, Function.update_self]
  · rw [if_neg e, Function.update_of_ne]
    exact fun e' => e ((h.homeOf_eq_iff hc hc hv ha).mp e').1

/-! ## records -/

/-- the statistics that `sys_get_stats` copies -/
def statsBytes (s : State) (pid : Int) : Nat → Byte :=
  let s := actTicksUser2kernel s
  if (s.task s.current).pid = pid then
    ((actTicksKernel2user s).task s.current).statics.bytes
  else
    match (List.finRange nrTasks).find? fun i => (s.task i).pid = pid with
    | some act => (s.task act).statics.bytes
    | none => fun _ => 0

/-- the copy of the record, between accounting updates -/
structure StatsCopied (s : State) (pid : Int) (st : DWord) (w w' s' : State) : Prop where
  before : Quiet s w
  mm : w.mm = s.mm
  cr3 : w.cr3 = s.cr3
  copy : copyToUser (toUserBus (statsBytes s pid)) 0 st.toNat sizeofStats w = .ok w'
  after : Quiet w' s'

theorem sysGetStats_copied {pid r : Int} {st : DWord} (hp : ¬ pid < 0) (hst : ¬ StatsRefused st)
    (hex : ¬ ∀ t, (s.task t).pid ≠ pid) (h : sysGetStats pid st s = .ok (r, s')) :
    ∃ w w', StatsCopied s pid st w w' s' := by
  have hq := user2kernel_quiet s
  have hpid := user2kernel_pid s
  unfold sysGetStats at h
  dsimp only at h
  rw [if_neg hp, if_neg hst] at h
  by_cases hcur : ((actTicksUser2kernel s).task (actTicksUser2kernel s).current).pid = pid
  · have hobj : statsBytes s pid = ((actTicksKernel2user (actTicksUser2kernel s)).task
        (actTicksUser2kernel s).current).statics.bytes := if_pos hcur
    rw [if_pos hcur] at h
    obtain ⟨w', hcopy, he⟩ := map_eq_ok.mp h
    cases he
    exact ⟨_, s', hq.trans (kernel2user_quiet _), rfl, rfl, hobj ▸ hcopy, ⟨.refl _, rfl⟩⟩
  · rw [if_neg hcur] at h
    have hobj : statsBytes s pid =
        match (List.finRange nrTasks).find? fun i =>
          ((actTicksUser2kernel s).task i).pid = pid with
        | some act => ((actTicksUser2kernel s).task act).statics.bytes
        | none => fun _ => 0 := if_neg hcur
    unfold getStatPID at h
    cases hf : (List.finRange nrTasks).find? fun i => ((actTicksUser2kernel s).task i).pid = pid with
    | none =>
      exact absurd (find_pid_none hpid hf) hex
    | some act =>
      rw [hf] at h hobj
      dsimp only at h hobj
      cases hcopy : copyToUser (toUserBus ((actTicksUser2kernel s).task act).statics.bytes) 0
          st.toNat sizeofStats (actTicksUser2kernel s) with
      | error e =>
        rw [hcopy] at h
        cases h
      | ok w' =>
        rw [hcopy] at h
        cases h
        exact ⟨_, w', hq, rfl, rfl, hobj ▸ hcopy, kernel2user_quiet w'⟩

theorem StatsCall.answer {pid r : Int} {st : DWord} (h : StatsCall s pid st r s') :
    r = (shown s).statsAnswer pid st := by
  unfold Machine.statsAnswer
  cases h with
  | error herr _ =>
    cases herr with
    | einval h1 => rw [if_pos h1]
    | efault h1 h2 => rw [if_neg (by omega), if_pos h2]
    | esrch h1 h2 h3 =>
      have hno : ∀ t, (shown s).pid t ≠ pid := h3
      rw [if_neg (by omega), if_neg h2, if_pos hno]
  | copied t h1 h2 h3 =>
    have hex : ¬ ∀ t, (shown s).pid t ≠ pid := fun hno => hno t h3
    rw [if_neg (by omega), if_neg h2, if_neg hex]

theorem statsAnswer_eq_zero {pid : Int} {st : DWord} :
    m.statsAnswer pid st = 0 ↔ ¬ pid < 0 ∧ ¬ StatsRefused st ∧ ¬ ∀ t, m.pid t ≠ pid := by
  unfold Machine.statsAnswer
  by_cases h1 : pid < 0
  · rw [if_pos h1]
    exact iff_of_false (by decide) fun h => h.1 h1
  · rw [if_neg h1]
    by_cases h2 : StatsRefused st
    · rw [if_pos h2]
      exact iff_of_false (by decide) fun h => h.2.1 h2
    · rw [if_neg h2]
      by_cases h3 : ∀ t, m.pid t ≠ pid
      · rw [if_pos h3]
        exact iff_of_false (by decide) fun h => h.2.2 h3
      · rw [if_neg h3]
        exact iff_of_true rfl ⟨h1, h2, h3⟩

/-- where the running process has a user address -/
theorem Coherent.physOf_eq (h : Coherent s) (a : Nat) :
    physOf s.mm s.cr3 a = homeOf s s.current a := by
  unfold physOf homeOf
  rw [h.cr3_eq, h.mapped.dirs]
  rfl

theorem Coherent.mmu_eq (h : Coherent s) (hc : live s s.current) {a : Nat} (ha : UserAddr a) :
    mmu s a = some (homeOf s s.current a) := by
  unfold UserAddr at ha
  have h1 := (h.maps hc).mmu (s := s) rfl rfl ha.1 ha.2
  rw [Nat.mod_eq_of_lt (by omega)] at h1
  rw [h1, h.physOf_eq]

/-- A record that has been copied lies in the user pages. -/
theorem Coherent.stats_fits (h : Coherent s) {pid : Int} {st : DWord} {w w' : State}
    (hst : ¬ StatsRefused st) (hr : StatsCopied s pid st w w' s') :
    st.toNat + sizeofStats ≤ 284 * 4096 := by
  have hrange : st.toNat ≤ 284 * 4096 := by
    unfold StatsRefused at hst
    simp only [lUserStart, numPagData, numPagCode, pageSize] at hst
    omega
  by_contra hno
  exact copyStats_end (fun u => h.mapped.above u 284 le_rfl) _ hrange (by omega) hr.mm hr.copy

theorem Coherent.stats_rewritten (h : Coherent s) (hc : live s s.current) {pid : Int} {st : DWord}
    {w w' : State} (hst : ¬ StatsRefused st) (hr : StatsCopied s pid st w w' s') :
    Rewritten s s' (fill st.toNat sizeofStats (statsBytes s pid)) := by
  have hfit := h.stats_fits hst hr
  have haddr : ∀ j, j < sizeofStats → (st.toNat + j) % 2 ^ 32 = st.toNat + j ∧
      UserAddr (st.toNat + j) := by
    intro j hj
    obtain ⟨e, hlo⟩ := statsAddr hst hj
    refine ⟨e, hlo, ?_⟩
    simp only [sizeofStats] at hfit hj
    omega
  have hlo : 256 * 4096 ≤ st.toNat := (haddr 0 (by decide)).2.1
  obtain ⟨w₁, hcopy, -, hbytes⟩ := copyStats (h.maps hc) (by decide) (statsBytes s pid) hlo hfit
    hr.mm hr.cr3
  obtain rfl : w₁ = w' := Except.ok.inj (hcopy.symm.trans hr.copy)
  have hout := copyToUser_outside (n := 28) hr.copy
  have hkept : ∀ x, (∀ j, j < sizeofStats → homeOf s s.current (st.toNat + j) ≠ x) →
      s'.mem x = s.mem x := by
    intro x hx
    rw [hr.after.mem, hout.mem x fun j hj hmmu => ?_, hr.before.mem]
    obtain ⟨e, hu⟩ := haddr j hj
    rw [e, mmu_congr hr.mm hr.cr3, h.mmu_eq hc hu] at hmmu
    exact hx j hj (Option.some.inj hmmu)
  refine ⟨fun a ha => ?_, fun x hx => hkept x fun j hj e => hx _ (haddr j hj).2 e.symm⟩
  rw [fill_getD]
  by_cases hin : st.toNat ≤ a ∧ a < st.toNat + sizeofStats
  · have e : st.toNat + (a - st.toNat) = a := by omega
    have h1 := hbytes (a - st.toNat) (by omega)
    rw [e, h.physOf_eq] at h1
    rw [if_pos hin, hr.after.mem, h1]
  · rw [if_neg hin]
    refine hkept _ fun j hj e => hin ?_
    have e' := ((h.homeOf_eq_iff hc hc (haddr j hj).2 ha).mp e).1
    omega

/-! ## what every process reads after a step -/

/-- what the running process writes in the user pages -/
def patchOf (s : State) : Event → Nat → Option Byte
  | .store a b => poke a b
  | .getStats pid st =>
    if (shown s).statsAnswer pid st = 0 then fill st.toNat sizeofStats (statsBytes s pid)
    else fun _ => none
  | _ => fun _ => none

/-- the record of a `sys_get_stats` that has returned -/
theorem Coherent.getStats_rewritten (h : Coherent s) (hc : live s s.current) {pid r : Int}
    {st : DWord} (hr : sysGetStats pid st s = .ok (r, s')) :
    Rewritten s s' (patchOf s (.getStats pid st)) ∧
      ((shown s).statsAnswer pid st = 0 → st.toNat + sizeofStats ≤ 284 * 4096) := by
  have hans := (sysGetStats_cases hr).answer
  unfold patchOf
  by_cases h0 : (shown s).statsAnswer pid st = 0
  · obtain ⟨hp, hst, hex⟩ := statsAnswer_eq_zero.mp h0
    obtain ⟨w, w', hcopied⟩ := sysGetStats_copied hp hst hex hr
    dsimp only
    rw [if_pos h0]
    exact ⟨h.stats_rewritten hc hst hcopied, fun _ => h.stats_fits hst hcopied⟩
  · dsimp only
    rw [if_neg h0]
    cases sysGetStats_cases hr with
    | error _ hq =>
      exact ⟨⟨fun _ _ => congrFun hq.mem _, fun _ _ => congrFun hq.mem _⟩, fun e => absurd e h0⟩
    | copied => exact absurd hans.symm h0

theorem Inv.step_homes (h : Inv s) {e : Event} (he : step s e = some s') (hf : e ≠ .fork)
    (ht : live s t) {a : Nat} (ha : UserAddr a) :
    s'.mem (homeOf s t a) = if Common a ∨ t = s.current then
      (patchOf s e a).getD (s.mem (homeOf s t a)) else s.mem (homeOf s t a) := by
  cases e with
  | store v b =>
    obtain ⟨hu, he⟩ := guarded_eq_some he
    have hc := h.live_current hu
    exact (h.store_rewritten hc he).2.mem h.toCoherent hc ht ha
  | getStats pid st =>
    obtain ⟨hu, he⟩ := guarded_eq_some he
    obtain ⟨r, hr⟩ := returned_eq_some.mp he
    have hc := h.live_current hu
    exact (h.getStats_rewritten hc hr).1.mem h.toCoherent hc ht ha
  | _ =>
    rw [step_mem he hf (by simp) (by simp)]
    exact (ite_self _).symm

theorem Evolves.live_of_ne {e : Event} (h : Evolves s e s') (hf : e ≠ .fork) (ht : live s' t) :
    live s t ∧ s'.mm.frame t = s.mm.frame t := by
  cases h with
  | still hk hr hq =>
    rw [live_congr hk.idleTask hq] at ht
    exact ⟨ht, by rw [hk.mm]⟩
  | fork => exact absurd rfl hf
  | exit hu hx =>
    rw [hx.live_iff] at ht
    refine ⟨ht.1, ?_⟩
    unfold Mm.frame
    rw [hx.mm, (freeData_apply s.current s.mm).2.1]

/-- **What every process reads after a step**: what it has read before, but for what the running
process has written itself, or in the common pages. -/
theorem Inv.step_reads (h : Inv s) {e : Event} (he : step s e = some s') (hf : e ≠ .fork)
    (ht' : live s' t) {a : Nat} (ha : UserAddr a) {b : Byte} (hb : userByte s t a = some b) :
    userByte s' t a = some (if Common a ∨ t = s.current then (patchOf s e a).getD b else b) := by
  obtain ⟨ht, hframe⟩ := (step_evolves h he).live_of_ne hf ht'
  have hhome : homeOf s' t a = homeOf s t a := by
    unfold homeOf
    rw [hframe]
  rw [h.userByte_eq ht ha, Option.some_inj] at hb
  rw [(step_inv h he).userByte_eq ht' ha, Option.some_inj, ← hb]
  show s'.mem (homeOf s' t a) = _
  rw [hhome]
  exact h.step_homes he hf ht ha

/-! ## the step -/

/-- the machine after any event but a fork -/
theorem Shows.next (hs : Shows s m) (h : Inv s) {e : Event} (he : step s e = some s')
    (hf : e ≠ .fork) {m' : Machine}
    (hdesk : m'.desk = m.desk.afterAll s.idleTask .readyqueue (moves s e))
    (hmem : m'.memory = m.memory.patch m.desk.running (patchOf s e))
    (hpid : ∀ t, m'.pid t = (s'.task t).pid) (hmax : m'.pidMax = s'.pidMax)
    (hscreen : m'.screen = m.screen ++ printed s e)
    (hclock : m'.clock = if e = .clock then int32 (m.clock + 1) else m.clock) : Shows s' m' := by
  obtain ⟨hout, hticks⟩ := step_effect he
  refine ⟨?_, fun t ht a ha => ?_, hpid, hmax, ?_, ?_⟩
  · rw [hdesk, hs.desk]
    exact (step_moves h he).2.desk_eq.symm
  · obtain ⟨hl, -⟩ := (step_evolves h he).live_of_ne hf ht
    rw [h.step_reads he hf ht ha (hs.memory t hl a ha), hmem, Memory.read_patch, hs.desk]
    rfl
  · rw [hscreen, hout, hs.screen]
  · rw [hclock, hticks, hs.clock]

/-- an event after which the processes are the same -/
theorem Shows.kept (hs : Shows s m) (h : Inv s) {e : Event} (he : step s e = some s')
    (hf : e ≠ .fork) (hx : e ≠ .exit) {m' : Machine}
    (hdesk : m'.desk = m.desk.afterAll s.idleTask .readyqueue (moves s e))
    (hmem : m'.memory = m.memory.patch m.desk.running (patchOf s e)) (hpid : m'.pid = m.pid)
    (hmax : m'.pidMax = m.pidMax) (hscreen : m'.screen = m.screen ++ printed s e)
    (hclock : m'.clock = if e = .clock then int32 (m.clock + 1) else m.clock) : Shows s' m' := by
  have hk := (step_kept hf hx h.cr3 he).1
  refine hs.next h he hf hdesk hmem (fun t => ?_) ?_ hscreen hclock
  · rw [hpid, hs.pid, hk.pid]
  · rw [hmax, hs.pidMax, hk.pidMax]

/-- the scheduler neither prints nor writes -/
theorem Machine.Turns.silent {e : Event} {ms : List (Move Task Queue)} (h : m.Turns e ms) :
    (patchOf s e = fun _ => none) ∧ printed s e = [] ∧ e ≠ .fork ∧ e ≠ .exit ∧ e ≠ .clock := by
  cases h <;> exact ⟨rfl, rfl, by simp, by simp, by simp⟩

theorem Shows.turn (hs : Shows s m) (h : Inv s) {e : Event} (he : step s e = some s')
    (ht : m.Turns e (moves s e)) : Shows s' (m.moved s.idleTask (moves s e)) := by
  obtain ⟨hpatch, hprint, hfork, hexit, hclock⟩ := ht.silent (s := s)
  refine hs.kept h he hfork hexit rfl ?_ rfl rfl ?_ (if_neg hclock).symm
  · rw [hpatch]
    exact (Memory.patch_none ..).symm
  · rw [hprint]
    exact (List.append_nil _).symm

theorem Shows.turns (hs : Shows s m) {e : Event} (he : step s e = some s')
    (hread : e = .read ∨ e = .ret ∨ e = .resume ∨ (∃ i, e = .block i) ∨ ∃ i t, e = .unblock i t) :
    m.Turns e (moves s e) := by
  have hqueue : ∀ q, m.desk.queue q = queue s q := fun q => by rw [hs.desk]; rfl
  have hpid : m.pid m.desk.running = (s.task s.current).pid := by
    rw [hs.pid, hs.desk]
    rfl
  obtain rfl | rfl | rfl | ⟨i, rfl⟩ | ⟨i, t, rfl⟩ := hread
  · exact .read
  · unfold moves
    dsimp only
    split
    · by_cases hq : int32 (s.cpuQuantum - 1) ≤ 0
      · rw [if_pos hq]
        by_cases hp : (s.task s.current).pid ≠ 0
        · rw [if_pos hp]
          exact .slice (hpid ▸ hp)
        · rw [if_neg hp]
          exact .idle (hpid.trans (not_not.mp hp))
      · rw [if_neg hq]
        exact .ret
    · exact .ret
  · exact .resume
  · exact .block i
  · have ht : t ∈ m.desk.queue (.blocked i) := by
      cases step_cases he with
      | service hs => cases hs
      | unblock c i t hc ht =>
        rw [hqueue]
        exact ht
    unfold moves
    by_cases hq : s.cpuQuantum ≤ 0
    · rw [if_pos hq]
      exact .preempt i t ht
    · rw [if_neg hq]
      exact .unblock i t ht

/-- a service of the kernel that writes no user memory -/
theorem Shows.answered (hs : Shows s m) (h : Inv s) {e : Event} (he : step s e = some s')
    (hm : moves s e = []) (hf : e ≠ .fork) (hx : e ≠ .exit) (hc : e ≠ .clock)
    (hpatch : patchOf s e = fun _ => none) (hprint : printed s e = []) : Shows s' m := by
  refine hs.kept h he hf hx ?_ ?_ rfl rfl ?_ (if_neg hc).symm
  · rw [hm]
    rfl
  · rw [hpatch, Memory.patch_none]
  · rw [hprint, List.append_nil]

/-! ## fork -/

theorem reply_fork {r : Int} (hr : sysFork s = .ok (r, s')) : reply s .fork = r := by
  show result (sysFork s) = r
  rw [hr]
  rfl

/-- the event and the call -/
theorem step_fork_iff : step s .fork = some s' ↔ inUser s ∧ sysFork s = .ok (reply s .fork, s') := by
  constructor
  · intro he
    obtain ⟨hu, hret⟩ := guarded_eq_some he
    obtain ⟨r, hr⟩ := returned_eq_some.mp hret
    rw [reply_fork hr]
    exact ⟨hu, hr⟩
  · rintro ⟨hu, hr⟩
    show (if inUser s then returned (sysFork s) else none) = some s'
    rw [if_pos hu]
    exact returned_eq_some.mpr ⟨_, hr⟩

/-- a fork without a free PCB -/
theorem Inv.fork_full_mem (h : Inv s) (hu : inUser s) (hq : queue s .freequeue = []) {r : Int}
    (hr : sysFork s = .ok (r, s')) : s'.mem = s.mem := by
  rcases h.fork_cases hu with ⟨-, hf⟩ | ⟨child, rest, fs, s₁, hq', -⟩
  · cases hf.symm.trans hr
    rfl
  · cases hq.symm.trans hq'

/-- A fork writes no user page that was there before. -/
theorem Inv.fork_spares (h : Inv s) (hu : inUser s) {r : Int} (hr : sysFork s = .ok (r, s'))
    (hi' : Inv s') (ht : live s t) {a : Nat} (ha : UserAddr a) :
    userByte s' t a = userByte s t a := by
  rcases h.forked hu hr with ⟨hq, -, hserv⟩ | ⟨child, rest, fs, hq, hlen, hg, hsp, -⟩
  · have hun := hserv.unmoved
    have hl := live_congr hun.kept.idleTask (queue_congr hun.links .freequeue)
    have ht' : live s' t := hl.symm ▸ ht
    rw [hi'.userByte_eq ht' ha, h.userByte_eq ht ha, h.fork_full_mem hu hq hr, hun.kept.mm]
  · exact (hsp.old h hu (hq ▸ List.mem_cons_self) hg hlen ht).2 a ha

theorem Shows.fork (hs : Shows s m) (h : Inv s) (he : step s .fork = some s') :
    ∃ m', Machine.Does s.idleTask m .fork (reply s .fork) m' ∧ Shows s' m' := by
  obtain ⟨hu, hr⟩ := step_fork_iff.mp he
  have hqueue : m.desk.queue .freequeue = queue s .freequeue := by
    rw [hs.desk]
    rfl
  obtain ⟨hout, hticks⟩ := step_effect he
  rw [show printed s .fork = [] from rfl, List.append_nil] at hout
  rw [if_neg (by simp)] at hticks
  have hi' := step_inv h he
  rcases h.forked hu hr with ⟨hq, hreply, hserv⟩ | ⟨child, rest, fs, hq, hlen, hg, hsp, hreply⟩
  · -- nothing but the accounting has changed
    rw [hreply]
    refine ⟨m, .full (hqueue.trans hq), ?_⟩
    have hun := hserv.unmoved
    have hl := live_congr hun.kept.idleTask (queue_congr hun.links .freequeue)
    refine ⟨?_, fun t ht a ha => ?_, fun t => ?_, ?_, ?_, ?_⟩
    · rw [hs.desk]
      exact ((h.placed.rep.congr hun.links hun.current).desk_eq).symm
    · have hold : live s t := hl ▸ ht
      rw [h.fork_spares hu hr hi' hold ha]
      exact hs.memory t hold a ha
    · rw [hs.pid, hun.kept.pid]
    · rw [hs.pidMax, hun.kept.pidMax]
    · rw [hs.screen, hout]
    · rw [hs.clock, hticks]
  · have hc : child ∈ queue s .freequeue := hq ▸ List.mem_cons_self
    rw [hreply]
    refine ⟨m.spawn s.idleTask child, hs.pidMax ▸ .fork child rest (hqueue.trans hq), ?_⟩
    refine ⟨?_, fun t ht a ha => ?_, fun t => ?_, ?_, ?_, ?_⟩
    · show m.desk.afterAll s.idleTask .readyqueue [.move .freequeue .readyqueue child] = _
      rw [hs.desk]
      exact hsp.rep.desk_eq.symm
    · show _ = some ((m.memory.copy m.desk.running child).read Common t a)
      rw [Memory.read_copy, hs.desk]
      show _ = some (m.memory.read Common (if t = child then s.current else t) a)
      rw [hsp.live_iff h hc] at ht
      by_cases e : t = child
      · rw [if_pos e, e, hsp.child h hu hc hg hlen ha]
        exact hs.memory _ (h.live_current hu) a ha
      · have hold := ht.resolve_right e
        rw [if_neg e, h.fork_spares hu hr hi' hold ha]
        exact hs.memory t hold a ha
    · show Function.update m.pid child (int32 (m.pidMax + 1)) t = _
      rw [hsp.pid, Function.update_apply, hs.pidMax, hs.pid]
    · show int32 (m.pidMax + 1) = _
      rw [hsp.pidMax, hs.pidMax]
    · exact hs.screen.trans hout.symm
    · exact hs.clock.trans hticks.symm

/-! ## exit -/

theorem Shows.exit (hs : Shows s m) (h : Inv s) (he : step s .exit = some s') :
    Shows s' (m.leave s.idleTask) := by
  obtain ⟨hu, hr⟩ := guarded_eq_some he
  have hx := h.exited hu
  rw [Option.some.inj hr] at hx
  refine hs.next h he (by simp) rfl (Memory.patch_none ..).symm (fun t => ?_) ?_
    (List.append_nil _).symm rfl
  · show Function.update m.pid m.desk.running (-1) t = _
    rw [hx.pid, Function.update_apply, hs.pid, hs.desk]
    rfl
  · exact hs.pidMax.trans hx.pidMax.symm

/-! ## system calls -/

theorem writeAnswer_neg_iff {fd size : Int} {buffer : DWord} :
    writeAnswer fd buffer size < 0 ↔ fd ≠ 1 ∨ buffer = 0 ∨ size < 0 := by
  unfold writeAnswer
  by_cases h1 : fd ≠ 1
  · rw [if_pos h1]
    exact iff_of_true (by decide) (Or.inl h1)
  · rw [if_neg h1]
    by_cases h2 : buffer = 0
    · rw [if_pos h2]
      exact iff_of_true (by decide) (Or.inr (Or.inl h2))
    · rw [if_neg h2]
      by_cases h3 : size < 0
      · rw [if_pos h3]
        exact iff_of_true (by decide) (Or.inr (Or.inr h3))
      · rw [if_neg h3]
        exact iff_of_false h3 (by simp only [h1, h2, h3, or_self, not_false_eq_true])

/-- the byte that `sys_write` finds at a user address -/
theorem Inv.byteAt_eq (h : Inv s) (hc : live s s.current) {a : Nat} (ha : UserAddr a) :
    userByte s s.current a = some (byteAt s a) := by
  have hlt : a < 2 ^ 32 := by
    unfold UserAddr at ha
    omega
  unfold byteAt
  rw [h.userByte_eq hc ha, Nat.mod_eq_of_lt hlt, h.physOf_eq]
  rfl

/-- what the kernel prints is what the machine may print -/
theorem Shows.prints (hs : Shows s m) (h : Inv s) (hu : inUser s) (fd : Int) (buffer : DWord)
    (size : Int) : m.Prints fd buffer size (writeText s fd buffer size) := by
  have hlive := h.live_current hu
  have htext : 0 ≤ writeAnswer fd buffer size →
      writeText s fd buffer size = bytesAt s buffer.toNat size.toNat := by
    intro h0
    exact if_neg fun hno => absurd (writeAnswer_neg_iff.mpr hno) (not_lt.mpr h0)
  refine ⟨fun h0 => if_pos (writeAnswer_neg_iff.mp h0), fun h0 => ?_, fun h0 i hi ha => ?_⟩
  · rw [htext h0, bytesAt, List.length_map, List.length_range]
  · rw [htext h0, bytesAt, List.getElem?_map, List.getElem?_range hi, hs.desk]
    exact (h.byteAt_eq hlive ha).symm.trans (hs.memory _ hlive _ ha)

theorem reply_getpid (s : State) : reply s .getpid = (s.task s.current).pid :=
  (sysGetpid_serviced s).unmoved.kept.pid s.current

theorem reply_getStats {pid : Int} {st : DWord} (he : step s (.getStats pid st) = some s') :
    reply s (.getStats pid st) = (shown s).statsAnswer pid st := by
  obtain ⟨r, hr⟩ := returned_eq_some.mp (guarded_eq_some he).2
  show result (sysGetStats pid st s) = _
  rw [hr]
  exact (sysGetStats_cases hr).answer

/-- **One step of the kernel is one of the machine**, and the answers are the same. -/
theorem step_shows (hs : Shows s m) (h : Inv s) {e : Event} (he : step s e = some s') :
    ∃ m', Machine.Does s.idleTask m e (reply s e) m' ∧ Shows s' m' := by
  cases e with
  | fork =>
    exact hs.fork h he
  | exit => exact ⟨_, .exit, hs.exit h he⟩
  | write fd buffer size =>
    obtain ⟨hu, hr⟩ := guarded_eq_some he
    obtain ⟨r, hr⟩ := returned_eq_some.mp hr
    have hans : reply s (.write fd buffer size) = writeAnswer fd buffer size := by
      show result (sysWrite fd buffer size s) = _
      rw [hr]
      exact (sysWrite_text hr).1
    rw [hans]
    exact ⟨_, .write fd buffer size _ (hs.prints h hu fd buffer size),
      hs.kept h he (by simp) (by simp) rfl (Memory.patch_none ..).symm rfl rfl rfl rfl⟩
  | gettime =>
    have hans : reply s .gettime = m.clock := hs.clock.symm
    rw [hans]
    exact ⟨m, .gettime, hs.answered h he rfl (by simp) (by simp) (by simp) rfl rfl⟩
  | getpid =>
    have hans : reply s .getpid = m.pid m.desk.running := by
      rw [hs.pid, hs.desk]
      exact reply_getpid s
    rw [hans]
    exact ⟨m, .getpid, hs.answered h he rfl (by simp) (by simp) (by simp) rfl rfl⟩
  | getStats pid st =>
    obtain ⟨hu, hr⟩ := guarded_eq_some he
    obtain ⟨r, hr⟩ := returned_eq_some.mp hr
    have hsame : (shown s).statsAnswer pid st = m.statsAnswer pid st := by
      unfold Machine.statsAnswer
      rw [show m.pid = (shown s).pid from funext hs.pid]
    rw [(reply_getStats he).trans hsame]
    by_cases h0 : m.statsAnswer pid st = 0
    · rw [h0]
      have hfit := (h.getStats_rewritten (h.live_current hu) hr).2 (hsame.trans h0)
      refine ⟨_, .record pid st (statsBytes s pid) h0 hfit,
        hs.kept h he (by simp) (by simp) rfl ?_ rfl rfl (List.append_nil _).symm rfl⟩
      unfold patchOf
      dsimp only
      rw [if_pos (hsame.trans h0)]
      rfl
    · have hpatch : patchOf s (.getStats pid st) = fun _ => none := by
        unfold patchOf
        dsimp only
        rw [hsame, if_neg h0]
      exact ⟨m, .refused pid st h0, hs.answered h he rfl (by simp) (by simp) (by simp) hpatch rfl⟩
  | store a b =>
    obtain ⟨hu, hr⟩ := guarded_eq_some he
    have ha := (h.store_rewritten (h.live_current hu) hr).1
    exact ⟨_, .store a b ha,
      hs.kept h he (by simp) (by simp) rfl rfl rfl rfl (List.append_nil _).symm rfl⟩
  | clock =>
    exact ⟨_, .clock, hs.kept h he (by simp) (by simp) rfl (Memory.patch_none ..).symm rfl rfl
      (List.append_nil _).symm rfl⟩
  | read | ret | resume | block i | unblock i t =>
    have ht := hs.turns he (by simp)
    exact ⟨_, .turn _ _ ht, hs.turn h he ht⟩

/-! ## runs -/

/-- **The kernel refines the machine.**  From every reachable state, whatever happens, the programs
get the answers of a machine of processes with memories of their own, and in the end the machine
shows what every process reads, who runs and who waits where, the PIDs, the screen and the clock.
Nothing of frames, page tables, lists, kernel stacks and accounting can be seen. -/
theorem kernel_refines (mem : Nat → Byte) (tsc : Nat → DWord)
    (hr : Reachable step (boot mem tsc) s) {es : List Event} (he : run step s es = some s') :
    ∃ m, Performs (Machine.Does s.idleTask) (shown s) (dialogue step reply s es) m ∧
      Shows s' m := by
  have hi := reachable_inv mem tsc hr
  have hsim : ∀ s₁ m₁ e s₂, (Inv s₁ ∧ s₁.idleTask = s.idleTask ∧ Shows s₁ m₁) →
      step s₁ e = some s₂ → ∃ m₂, Machine.Does s.idleTask m₁ e (reply s₁ e) m₂ ∧
        (Inv s₂ ∧ s₂.idleTask = s.idleTask ∧ Shows s₂ m₂) := by
    rintro s₁ m₁ e s₂ ⟨h1, hidle, hs⟩ he
    obtain ⟨m₂, hd, hs₂⟩ := step_shows hs h1 he
    rw [hidle] at hd
    exact ⟨m₂, hd, step_inv h1 he, (step_idleTask h1 he).trans hidle, hs₂⟩
  obtain ⟨m, hp, -, -, hs⟩ := performs_of_run hsim ⟨hi, rfl, shows_shown hi⟩ he
  exact ⟨m, hp, hs⟩

/-- a program can write its data pages -/
theorem Inv.store_step (h : Inv s) (hu : inUser s) {a : Nat} (ha : DataAddr a) (b : Byte) :
    ∃ s', step s (.store a b) = some s' ∧ inUser s' ∧
      queue s' .freequeue = queue s .freequeue := by
  have hp : DataPage (a / 4096) := by
    obtain ⟨h1, h2⟩ := ha
    exact ⟨by omega, by omega⟩
  have hentry := h.mapped.data s.current (h.live_current hu) (a / 4096) hp
  have haddr : ∃ x, userStoreAddr s.mm s.cr3 a = some x := by
    refine ⟨_, translate_eq_some.mpr ⟨Nat.lt_trans hp.2 (by decide), ?_, rfl⟩⟩
    rw [h.mapped.dirs, h.cr3_eq, hentry]
    rfl
  obtain ⟨x, hx⟩ := haddr
  refine ⟨s.setMem (Function.update s.mem x b), (if_pos hu).trans ?_, hu, rfl⟩
  unfold userStore
  rw [hx, Option.map_some]

theorem Inv.store_fork_store (h : Inv s) (hu : inUser s) {child : Task} {rest : List Task}
    (hq : queue s .freequeue = child :: rest) {a : Nat} (ha : DataAddr a) (b c : Byte) :
    ∃ s', run step s [.store a b, .fork, .store a c] = some s' := by
  obtain ⟨s₁, h1, hu1, hq1⟩ := h.store_step hu ha b
  have hi1 := step_inv h h1
  obtain ⟨s₂, h2, hu2⟩ := hi1.fork_step hu1 (hq1.trans hq)
  obtain ⟨s₃, h3, -, -⟩ := (step_inv hi1 h2).store_step hu2 ha c
  refine ⟨s₃, ?_⟩
  rw [run_cons, h1, Option.bind_some, run_cons, h2, Option.bind_some, run_cons, h3]
  rfl

theorem boot_store_fork_store : ∃ s, run step (boot (fun _ => 0) fun _ => 0)
    [.store 0x108000 7, .fork, .store 0x108000 9] = some s := by
  obtain ⟨child, rest, -, hq, -⟩ := boot_fork (fun _ => 0) fun _ => 0
  exact (boot_inv _ _).store_fork_store (boot_inUser _ _) hq (by unfold DataAddr; decide) 7 9

/-- the first process stores a byte, forks, and stores another one there -/
theorem kernel_refines_store : ∃ s m,
    run step (boot (fun _ => 0) fun _ => 0) [.store 0x108000 7, .fork, .store 0x108000 9] =
      some s ∧
    Performs (Machine.Does 9) (shown (boot (fun _ => 0) fun _ => 0))
      (dialogue step reply (boot (fun _ => 0) fun _ => 0)
        [.store 0x108000 7, .fork, .store 0x108000 9]) m ∧ Shows s m := by
  obtain ⟨s, hs⟩ := boot_store_fork_store
  obtain ⟨m, hm⟩ := kernel_refines (fun _ => 0) (fun _ => 0) .init hs
  exact ⟨s, m, hs, hm⟩

/-- what `t` writes in the user pages in a run, in the order of its events -/
def deeds (t : Task) : State → List Event → List (Nat → Option Byte)
  | _, [] => []
  | s, e :: es =>
    let rest := match step s e with
      | none => []
      | some s' => deeds t s' es
    if s.current = t then patchOf s e :: rest else rest

theorem deeds_cons {e : Event} (he : step s e = some s') (es : List Event) :
    deeds t s (e :: es) =
      if s.current = t then patchOf s e :: deeds t s' es else deeds t s' es := by
  simp only [deeds, he]

theorem Inv.step_live (h : Inv s) (ht : live s t) {e : Event} (he : step s e = some s')
    (hx : s.current = t → e ≠ .exit) : live s' t := by
  cases step_evolves h he with
  | still hk hr hq =>
    rw [live_congr hk.idleTask hq]
    exact ht
  | fork child rest fs hu hq hlen hg hsp =>
    rw [hsp.live_iff h (hq ▸ List.mem_cons_self)]
    exact Or.inl ht
  | exit hu hexit =>
    rw [hexit.live_iff]
    exact ⟨ht, fun e => hx e.symm rfl⟩

/-- what a step does to the data of `t` -/
theorem Inv.step_deed (h : Inv s) (ht : live s t) {e : Event} (he : step s e = some s')
    (hx : s.current = t → e ≠ .exit) {a : Nat} (ha : DataAddr a) :
    userByte s' t a = (userByte s t a).map fun b =>
      if s.current = t then (patchOf s e a).getD b else b := by
  have hu : UserAddr a := ⟨by have := ha.1; omega, ha.2⟩
  have hnc : ¬ Common a := not_lt.mpr ha.1
  by_cases hf : e = .fork
  · subst hf
    obtain ⟨hin, hr⟩ := step_fork_iff.mp he
    rw [h.fork_spares hin hr (step_inv h he) ht hu]
    have hid : (fun b => if s.current = t then (patchOf s .fork a).getD b else b) = id :=
      funext fun b => ite_self b
    rw [hid, Option.map_id]
    rfl
  · have hl' := h.step_live ht he hx
    rw [h.userByte_eq ht hu, h.step_reads he hf hl' hu (h.userByte_eq ht hu), Option.map_some]
    by_cases hc : s.current = t
    · rw [if_pos hc, if_pos (Or.inr hc.symm)]
    · rw [if_neg hc, if_neg (not_or.mpr ⟨hnc, fun e => hc e.symm⟩)]

/-- **The data of a process are its own work.**  In every run in which it does not exit, what it
reads in its data pages at the end is what its own stores and records have made of what it read
there before: other processes, the scheduler and the kernel make no difference. -/
theorem data_determined (mem : Nat → Byte) (tsc : Nat → DWord)
    (hr : Reachable step (boot mem tsc) s) (ht : live s t) {es : List Event}
    (hx : Guarded step (fun s e => s.current = t → e ≠ .exit) s es)
    (he : run step s es = some s') : live s' t ∧ ∀ a, DataAddr a →
      userByte s' t a = (userByte s t a).map (layered (deeds t s es) a) := by
  have hi := reachable_inv mem tsc hr
  clear hr
  induction es generalizing s with
  | nil =>
    cases he
    exact ⟨ht, fun a ha => (congrFun Option.map_id _).symm⟩
  | cons e es ih =>
    rw [run_cons, Option.bind_eq_some_iff] at he
    obtain ⟨s₁, h1, hrest⟩ := he
    obtain ⟨hne, hx1⟩ := hx s₁ h1
    obtain ⟨hl, hdata⟩ := ih (hi.step_live ht h1 hne) hx1 hrest (step_inv hi h1)
    refine ⟨hl, fun a ha => ?_⟩
    rw [hdata a ha, hi.step_deed ht h1 hne ha, Option.map_map, deeds_cons h1]
    by_cases hc : s.current = t
    · simp only [if_pos hc, layered_cons]
    · simp only [if_neg hc, Function.comp_def]

/-- the first process stores a byte, forks, and stores another one there -/
theorem data_determined_store : ∃ s,
    run step (boot (fun _ => 0) fun _ => 0) [.store 0x108000 7, .fork, .store 0x108000 9] =
      some s ∧ live s 8 ∧ ∀ a, DataAddr a →
      userByte s 8 a = (userByte (boot (fun _ => 0) fun _ => 0) 8 a).map
        (layered (deeds 8 (boot (fun _ => 0) fun _ => 0)
          [.store 0x108000 7, .fork, .store 0x108000 9]) a) := by
  obtain ⟨s, hs⟩ := boot_store_fork_store
  have hstay : Guarded step (fun s e => s.current = 8 → e ≠ .exit)
      (boot (fun _ => 0) fun _ => 0) [.store 0x108000 7, .fork, .store 0x108000 9] :=
    guarded_of_mem (by simp) _
  exact ⟨s, hs, data_determined (fun _ => 0) (fun _ => 0) .init ((boot_live _ _ 8).mpr rfl) hstay hs⟩

end
end Zeos
