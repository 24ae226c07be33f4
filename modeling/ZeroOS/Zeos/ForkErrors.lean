import ZeroOS.Zeos.AddressSpaces

/-!
# Zeos: a fork that fails

* `Undone s s'`        what a failed fork should leave as it was;
* `forkFailed_undone`  after -ENOMEM everything is, but the PCB that was taken has the PID of the
                       parent;
* `fork_undone`        **when a failed fork changes nothing**, in any state whose queues and page
                       tables are coherent.
-/

set_option linter.unusedVariables false

namespace Zeos
open Programs Rings Desks

structure Undone (s s' : State) : Prop where
  freequeue : queue s' .freequeue = queue s .freequeue
  readyqueue : queue s' .readyqueue = queue s .readyqueue
  physMem : s'.mm.physMem = s.mm.physMem
  pidMax : s'.pidMax = s.pidMax
  table : ∀ p, pageOf s' s.current p = pageOf s s.current p
  pid : ∀ t, (s'.task t).pid = (s.task t).pid

section
variable {s s' : State} {child : Task} {rest : List Task}

theorem undone_eagain (s : State) : Undone s (actTicksKernel2user (actTicksUser2kernel s)) := by
  have hun := (actTicks_unmoved .user s.current s).trans (actTicks_unmoved .system s.current _)
  refine ⟨queue_congr hun.links _, queue_congr hun.links _, rfl, rfl, fun p => ?_, hun.kept.pid⟩
  show s.mm.pagusrTable (s.mm.dirPages _) p = s.mm.pagusrTable (s.mm.dirPages _) p
  have hdir : getDIR (actTicksKernel2user (actTicksUser2kernel s)) s.current =
      getDIR s s.current := hun.kept.dir s.current
  rw [hdir]

theorem forkFailed_mm (child : Task) (s : State) : (forkFailed child s).mm = forkCode child s := by
  simp only [forkFailed, actTicksKernel2user, actTicks, account_mm, freePCB, State.setLinks_mm,
    State.setMm_mm]

theorem forkFailed_pidMax (child : Task) (s : State) : (forkFailed child s).pidMax = s.pidMax := by
  simp only [forkFailed, actTicksKernel2user, actTicks, account_pidMax, freePCB,
    State.setLinks_pidMax, State.setMm_pidMax, forkChild_pidMax]

/-- the PCB that was taken keeps the copy of the parent's PID -/
theorem forkFailed_pid (hc : child ≠ s.current) (t : Task) :
    ((forkFailed child s).task t).pid =
      if t = child then (s.task s.current).pid else (s.task t).pid := by
  have hp := (actTicks_kept .user s.current s).pid s.current
  rw [forkFailed_task hc]
  by_cases h1 : t = child
  · rw [if_pos h1, if_pos h1]
    exact hp
  · rw [if_neg h1, if_neg h1]
    by_cases h2 : t = s.current
    · rw [if_pos h2, h2]
      exact hp
    · rw [if_neg h2]

/-- **-ENOMEM** undoes all but the PID. -/
theorem Coherent.forkFailed_undone (h : Coherent s) (hq : queue s .freequeue = child :: rest) :
    Undone s (forkFailed child s) ↔ (s.task child).pid = (s.task s.current).pid := by
  have hchild : child ∈ queue s .freequeue := hq ▸ List.mem_cons_self
  have hne : s.current ≠ child := (h.placed.ne_current hchild).symm
  have hpid := forkFailed_pid (s := s) hne.symm
  refine ⟨fun hu => ?_, fun he => ?_⟩
  · have h1 := hu.pid child
    rw [hpid, if_pos rfl] at h1
    exact h1.symm
  · have hrep : Rep (forkFailed child s) (desk s) :=
      forkFailed_rep h.placed.rep h.placed.apart.tidy hq
    have hcode := mapCode_apply (P := s.current) (C := child) hne s.mm
    have hmm : (forkFailed child s).mm = mapCode s.current child s.mm := by
      rw [forkFailed_mm, forkCode, h.getPT_eq, h.mapped.dirs]
    refine ⟨hrep.queue_eq _, hrep.queue_eq _, ?_, forkFailed_pidMax child s, fun p => ?_,
      fun t => ?_⟩
    · rw [hmm]
      exact hcode.1.physMem
    · have hold : getDIR s s.current = s.current := h.dir_eq (h.placed.running .freequeue)
      have hdir : getDIR (forkFailed child s) s.current = s.current := by
        unfold getDIR
        rw [forkFailed_task hne.symm, if_neg hne, if_pos rfl]
        exact ((actTicks_kept .user s.current s).dir s.current).trans hold
      unfold pageOf getPT
      rw [hdir, hold, hmm, hcode.1.dirPages, h.mapped.dirs, hcode.2, if_neg fun e => hne e.1]
    · rw [hpid]
      by_cases ht : t = child
      · rw [if_pos ht, ht, he]
      · rw [if_neg ht]

/-! ## without frames -/

/-- no frame is free -/
def noFrames (s : State) : State :=
  s.setMm { s.mm with physMem := fun _ => .usedFrame }

theorem noFrames_coherent (h : Coherent s) : Coherent (noFrames s) := by
  have hm := h.mapped
  refine ⟨⟨h.placed.rep.congr rfl rfl, h.placed.apart⟩, ?_, h.base, h.cr3⟩
  exact ⟨hm.dirs, hm.kernel, hm.above, hm.code, hm.data, hm.range, hm.noCode, hm.inj,
    fun _ _ => rfl⟩

theorem noFrames_card (s : State) : (freeEven (noFrames s).mm.physMem).card = 0 := by
  refine Finset.card_eq_zero.mpr (Finset.eq_empty_of_forall_notMem fun f hf => ?_)
  exact nomatch (mem_freeEven.mp hf).2

theorem noFrames_fork (h : Coherent s) (hu : inUser s) (hq : queue s .freequeue = child :: rest) :
    sysFork (noFrames s) = .ok (-enomem, forkFailed child (noFrames s)) := by
  have hq' : queue (noFrames s) .freequeue = child :: rest := hq
  have hu' : inUser (noFrames s) := hu
  rcases (noFrames_coherent h).fork_cases hu' with ⟨h1, -⟩ | ⟨t, l, h1, ⟨-, hr⟩ | ⟨hle, -⟩⟩
  · exact nomatch h1.symm.trans hq'
  · obtain rfl : child = t := (List.cons.inj (hq'.symm.trans h1)).1
    exact hr
  · rw [noFrames_card] at hle
    exact absurd hle (by decide)

/-- the PCB of `child` has the PID of the current process, as after a fork that has failed -/
def copiedPid (child : Task) (s : State) : State where
  __ := s
  task := Function.update s.task child { s.task child with pid := (s.task s.current).pid }

theorem copiedPid_dir (child : Task) (s : State) (t : Task) :
    ((copiedPid child s).task t).dirPagesBaseAddr = (s.task t).dirPagesBaseAddr := by
  show (Function.update s.task child _ t).dirPagesBaseAddr = _
  by_cases h : t = child
  · rw [h, Function.update_self]
  · rw [Function.update_of_ne h]

theorem copiedPid_coherent (h : Coherent s) : Coherent (copiedPid child s) := by
  refine ⟨⟨h.placed.rep.congr rfl rfl, h.placed.apart⟩, h.mapped, fun t ht => ?_, ?_⟩
  · rw [copiedPid_dir]
    exact h.base t ht
  · show s.cr3 = ((copiedPid child s).task s.current).dirPagesBaseAddr
    rw [copiedPid_dir]
    exact h.cr3

theorem copiedPid_pid (hne : s.current ≠ child) :
    ((copiedPid child s).task child).pid = ((copiedPid child s).task s.current).pid := by
  show (Function.update s.task child _ child).pid = (Function.update s.task child _ s.current).pid
  rw [Function.update_self, Function.update_of_ne hne]

/-- a fork that fails once more, with the same PCB -/
theorem copiedPid_fork (h : Coherent s) (hu : inUser s) (hq : queue s .freequeue = child :: rest) :
    ∃ w, Coherent w ∧ inUser w ∧ (freeEven w.mm.physMem).card = 0 ∧
      queue w .freequeue = child :: rest ∧ (w.task child).pid = (w.task w.current).pid ∧
      sysFork w = .ok (-enomem, forkFailed child w) := by
  have hc : Coherent (copiedPid child s) := copiedPid_coherent h
  exact ⟨noFrames (copiedPid child s), noFrames_coherent hc, hu, noFrames_card _, hq,
    copiedPid_pid (h.placed.ne_current (hq ▸ List.mem_cons_self)).symm, noFrames_fork hc hu hq⟩

theorem boot_firstFree (mem : Nat → Byte) (tsc : Nat → DWord) :
    queue (boot mem tsc) .freequeue = 7 :: [6, 5, 4, 3, 2, 1, 0] := by
  rw [boot_queue]
  rfl

/-- without frames a fork changes the PID of the PCB that it takes -/
theorem noFrames_not_undone (h : Coherent s) (hq : queue s .freequeue = child :: rest)
    (hpid : (s.task child).pid ≠ (s.task s.current).pid) :
    ¬ Undone (noFrames s) (forkFailed child (noFrames s)) :=
  fun hun => hpid (((noFrames_coherent h).forkFailed_undone hq).mp hun)

/-! ## any fork -/

/-- **When a failed fork changes nothing.**  In a state with coherent queues and page tables: if
there is no free PCB, if the fork succeeds (and the PID it returns is no error), or if the PCB that
it takes has the PID of the parent already. -/
theorem fork_undone (h : Coherent s) (hu : inUser s) :
    (∀ r s', sysFork s = .ok (r, s') → r < 0 → Undone s s') ↔
      (queue s .freequeue = [] ∨
        (numPagData ≤ (freeEven s.mm.physMem).card ∧ 0 ≤ int32 (s.pidMax + 1)) ∨
        ((freeEven s.mm.physMem).card < numPagData ∧
          ∀ child rest, queue s .freequeue = child :: rest →
            (s.task child).pid = (s.task s.current).pid)) := by
  rcases h.fork_cases hu with ⟨hq, hr⟩ | ⟨child, rest, hq, hcase⟩
  · -- no free PCB
    refine ⟨fun _ => Or.inl hq, fun _ r s' hf _ => ?_⟩
    cases hr.symm.trans hf
    exact undone_eagain s
  · have hne : queue s .freequeue ≠ [] := by
      rw [hq]
      exact List.cons_ne_nil child rest
    have hhead : ∀ t l, queue s .freequeue = t :: l → t = child := fun t l e =>
      (List.cons.inj (e.symm.trans hq)).1
    rcases hcase with ⟨hcard, hr⟩ | ⟨hcard, fs, s₁, -, -, hsp, hr⟩
    · -- not enough frames
      have hneg : (-enomem : Int) < 0 := by decide
      refine ⟨fun hall => Or.inr (Or.inr ⟨hcard, fun t l e => ?_⟩), fun hok r s' hf _ => ?_⟩
      · rw [hhead t l e]
        exact (h.forkFailed_undone hq).mp (hall _ _ hr hneg)
      · cases hr.symm.trans hf
        obtain h1 | h1 | h1 := hok
        · exact absurd h1 hne
        · exact absurd h1.1 (not_le.mpr hcard)
        · exact (h.forkFailed_undone hq).mpr (h1.2 child rest hq)
    · -- a child: its PCB is not free any more
      refine ⟨fun hall => Or.inr (Or.inl ⟨hcard, ?_⟩), fun hok r s' hf hlt => ?_⟩
      · by_contra hlt
        have hun := hall _ _ hr (not_le.mp hlt)
        have hc : child ∈ queue s .freequeue := hq ▸ List.mem_cons_self
        have hmem : child ∈ queue s₁ .freequeue := hun.freequeue ▸ hc
        rw [hsp.rep.queue_eq] at hmem
        obtain h1 | h1 := (h.placed.apart.mem_move hc).mp hmem
        · exact h1.2 rfl
        · exact nomatch h1.1
      · cases hr.symm.trans hf
        obtain h1 | h1 | h1 := hok
        · exact absurd h1 hne
        · exact absurd h1.2 (not_le.mpr hlt)
        · exact absurd hcard (not_le.mpr h1.1)

/-- the initial process, when no frame is free and the first PCB has its PID -/
theorem fork_undone_retry :
    ∃ s s', Coherent s ∧ inUser s ∧ sysFork s = .ok (-enomem, s') ∧ Undone s s' := by
  obtain ⟨w, hc, hu, hcard, hq, hpid, hf⟩ := copiedPid_fork
    (boot_inv (fun _ => 0) fun _ => 0).toCoherent (boot_inUser _ _)
    (boot_firstFree (fun _ => 0) fun _ => 0)
  refine ⟨w, _, hc, hu, hf, (fork_undone hc hu).mpr (Or.inr (Or.inr ⟨?_, fun t l h => ?_⟩)) _ _ hf
    (by decide)⟩
  · rw [hcard]
    decide
  · obtain rfl := (List.cons.inj (hq.symm.trans h)).1
    exact hpid

/-- the initial process forks, and no frame is free -/
theorem fork_not_undone :
    ∃ s', sysFork (noFrames (boot (fun _ => 0) fun _ => 0)) = .ok (-enomem, s') ∧
      ¬ Undone (noFrames (boot (fun _ => 0) fun _ => 0)) s' := by
  have hc := (boot_inv (fun _ => 0) fun _ => 0).toCoherent
  have hq := boot_firstFree (fun _ => 0) fun _ => 0
  refine ⟨_, noFrames_fork hc (boot_inUser _ _) hq, noFrames_not_undone hc hq ?_⟩
  rw [boot_free_pid _ _ (by decide) (by decide), boot_current, boot_init]
  decide

end
end Zeos
