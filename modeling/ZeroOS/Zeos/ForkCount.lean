import ZeroOS.Zeos.Pids

/-!
# Zeos: how many processes there can be

* `alive s`         the number of processes;
* `fork_succeeds`   **a fork succeeds as long as a PCB is free**: there are frames for NR_TASKS - 1
                    processes, so the ends with -ENOMEM are never taken.
-/

set_option linter.unusedVariables false

namespace Zeos
open Programs Runs Desks

/-- the processes that have not ended -/
def alive (s : State) : Nat := (Finset.univ.filter (live s)).card

section
variable {s s' : State}

/-- idle and the free PCBs are the rest of `task[]` -/
theorem Inv.alive_lt_iff (h : Inv s) : alive s < nrTasks - 1 ↔ queue s .freequeue ≠ [] := by
  have hall : (Finset.univ.erase s.idleTask).card = 9 := by
    rw [Finset.card_erase_of_mem (Finset.mem_univ _)]
    rfl
  refine ⟨fun hlt he => ?_, fun hne => ?_⟩
  · have e : Finset.univ.filter (live s) = Finset.univ.erase s.idleTask := by
      ext t
      simp [live, he]
    unfold alive at hlt
    rw [e, hall] at hlt
    exact absurd hlt (by decide)
  · obtain ⟨child, hc⟩ := List.exists_mem_of_ne_nil _ hne
    have hsub : Finset.univ.filter (live s) ⊆ (Finset.univ.erase s.idleTask).erase child := by
      intro t ht
      obtain ⟨h1, h2⟩ := (Finset.mem_filter.mp ht).2
      rw [Finset.mem_erase, Finset.mem_erase]
      exact ⟨fun e => h2 (e ▸ hc), h1, Finset.mem_univ t⟩
    have hmem : child ∈ Finset.univ.erase s.idleTask :=
      Finset.mem_erase.mpr ⟨h.child_ne_idle hc, Finset.mem_univ child⟩
    have hcard := Finset.card_le_card hsub
    rw [Finset.card_erase_of_mem hmem, hall] at hcard
    show alive s < 9
    exact Nat.lt_of_le_of_lt hcard (by decide)

/-- the loop (3.1) finds a frame in every round -/
theorem Inv.frames_found (h : Inv s) (hu : inUser s) {child : Task} {rest : List Task}
    (hq : queue s .freequeue = child :: rest) :
    ∃ fs mm, allocChildFrames numPagData [] (forkCode child s) = .ok (fs, mm) := by
  have hc : child ∈ queue s .freequeue := hq ▸ List.mem_cons_self
  have hne : s.current ≠ child := (h.placed.ne_current hc).symm
  have hm : (forkCode child s).physMem = s.mm.physMem := by
    rw [forkCode, h.getPT_eq, h.mapped.dirs]
    exact (mapCode_apply hne s.mm).1.physMem
  have h256 : (forkCode child s).physMem 256 ≠ .freeFrame := by
    rw [hm]
    exact h.mapped.used_256
  rcases allocChildFrames_cases h256 numPagData with ⟨-, fs, -, -, hr⟩ | ⟨hcard, -⟩
  · exact ⟨_, _, hr⟩
  · rw [hm] at hcard
    exact absurd (h.enough hc) (Nat.not_le.mpr hcard)

/-- what a fork returns in a reachable state -/
structure ForkAnswer (s : State) : Prop where
  /-- it returns the PID of a child exactly if there are fewer than NR_TASKS - 1 processes -/
  child : (∃ c s', ¬ live s c ∧ live s' c ∧ sysFork s = .ok ((s'.task c).pid, s')) ↔
    alive s < nrTasks - 1
  full : ¬ alive s < nrTasks - 1 → ∃ s', sysFork s = .ok (-eagain, s') ∧ live s' = live s
  /-- `allocate_DIR` does not fail -/
  dir : ∀ c rest, queue s .freequeue = c :: rest → (allocateDIR c (forkStart c s)).1 = 1
  /-- no `alloc_frame` fails -/
  frames : ∀ c rest, queue s .freequeue = c :: rest →
    ∃ fs mm, allocChildFrames numPagData [] (forkCode c s) = .ok (fs, mm)

/-- **A fork succeeds as long as a PCB is free.** -/
theorem fork_succeeds (mem : Nat → Byte) (tsc : Nat → DWord)
    (hr : Reachable step (boot mem tsc) s) (hu : inUser s) : ForkAnswer s := by
  have h := reachable_inv mem tsc hr
  have hfull : queue s .freequeue = [] →
      sysFork s = .ok (-eagain, actTicksKernel2user (actTicksUser2kernel s)) ∧
        live (actTicksKernel2user (actTicksUser2kernel s)) = live s := by
    intro he
    rcases h.fork_cases hu with ⟨-, hf⟩ | ⟨child, rest, fs, s', hq, -⟩
    · have hun := (actTicks_unmoved .user s.current s).trans (actTicks_unmoved .system s.current _)
      exact ⟨hf, live_congr hun.kept.idleTask (queue_congr hun.links .freequeue)⟩
    · exact absurd (he.symm.trans hq) (List.cons_ne_nil child rest).symm
  refine ⟨⟨fun hc => ?_, fun hlt => ?_⟩, fun hlt => ?_, fun c rest _ => rfl, fun c rest hq => ?_⟩
  · -- a child was born, so there was a PCB for it
    obtain ⟨c, s', h1, h2, hf⟩ := hc
    refine h.alive_lt_iff.mpr fun he => ?_
    obtain ⟨hr', hl⟩ := hfull he
    have e : actTicksKernel2user (actTicksUser2kernel s) = s' :=
      congrArg Prod.snd (Except.ok.inj (hr'.symm.trans hf))
    rw [e] at hl
    exact h1 (hl ▸ h2)
  · rcases h.fork_cases hu with ⟨hq, -⟩ | ⟨child, rest, fs, s', hq, -, -, hsp, hf⟩
    · exact absurd hq (h.alive_lt_iff.mp hlt)
    · have hc : child ∈ queue s .freequeue := hq ▸ List.mem_cons_self
      have hpid : (s'.task child).pid = int32 (s.pidMax + 1) := by
        rw [hsp.task, if_pos rfl]
        rfl
      refine ⟨child, s', fun hl => hl.2 hc, ?_, ?_⟩
      · rw [hsp.live_iff h hc]
        exact Or.inr rfl
      · rw [hf, hpid]
  · have he := not_not.mp fun hne => hlt (h.alive_lt_iff.mpr hne)
    exact ⟨_, hfull he⟩
  · exact h.frames_found hu hq

/-- the first fork after boot -/
theorem fork_succeeds_boot :
    inUser (boot (fun _ => 0) fun _ => 0) ∧ ForkAnswer (boot (fun _ => 0) fun _ => 0) :=
  ⟨boot_inUser _ _, fork_succeeds (fun _ => 0) (fun _ => 0) .init (boot_inUser _ _)⟩

end
end Zeos
