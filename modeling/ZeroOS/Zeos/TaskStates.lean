import ZeroOS.Zeos.Pcbs
import ZeroOS.Zeos.Scheduling

/-!
# Zeos: `t_state` and the queues

* `StatesAgree`     the state of every process says where the process is;
* `Waiting`         a process that does not run always has the state ST_READY: `task_switch` writes
                    it after `block_process` has written ST_BLOCKED;
* `ConsoleRun`      in the console code the current process has the state ST_RUN;
* `Leaves s e`      the step takes a process back to user code;
* `states_agree`    **the states agree** in user code as long as no process is blocked whenever a
                    process comes back to it, and none comes from `ret_from_fork`.
-/

set_option linter.unusedVariables false

namespace Zeos
open Programs Rings Desks Runs

structure StatesAgree (s : State) : Prop where
  run : ∀ t, live s t → ((s.task t).tState = .stRun ↔ t = s.current)
  ready : ∀ t, live s t → ((s.task t).tState = .stReady ↔ t ∈ queue s .readyqueue)
  blocked : ∀ t, live s t → ((s.task t).tState = .stBlocked ↔ ∃ i, t ∈ queue s (.blocked i))

/-- the stack of a task that has been switched away from, or of a new child -/
def Saved (k : Resume) : Prop := k ≠ .empty ∧ k ≠ .cpuIdle

def Waiting (s : State) : Prop :=
  ∀ t, live s t → t ≠ s.current ∨ s.control = .switched →
    (s.task t).tState = .stReady ∧ Saved (s.task t).kernelEsp

def ConsoleRun (s : State) : Prop :=
  ∀ c, s.control = .console c → live s s.current → (s.task s.current).tState = .stRun

/-- no other process is blocked -/
def OthersReady (s : State) : Prop := ∀ t, live s t → t ≠ s.current → t ∈ queue s .readyqueue

section
variable {s s' : State} {e : Event}

theorem step_live (hi : Inv s) (he : step s e = some s') (h1 : e ≠ .fork) (h2 : e ≠ .exit) :
    live s' = live s := by
  refine live_congr (step_idleTask hi he) ?_
  rw [(step_moves hi he).2.queue_eq]
  exact moves_freequeue h1 h2

/-! ## processes that wait -/

/-- only the current task may have changed -/
theorem Waiting.of_same (hw : Waiting s) (hl : live s' = live s) (hc : s'.current = s.current)
    (hs : s'.control ≠ .switched)
    (ht : ∀ u, u ≠ s.current → (s'.task u).tState = (s.task u).tState ∧
      (s'.task u).kernelEsp = (s.task u).kernelEsp) : Waiting s' := by
  intro t hlive hcase
  have hne : t ≠ s.current := hc ▸ hcase.resolve_right hs
  obtain ⟨h1, h2⟩ := ht t hne
  rw [h1, h2]
  exact hw t (hl ▸ hlive) (Or.inl hne)

theorem Waiting.of_serviced (hw : Waiting s) (hu : inUser s) (hs : Serviced s s') : Waiting s' := by
  have hun := hs.unmoved
  refine hw.of_same (live_congr hun.kept.idleTask (queue_congr hun.links _)) hun.current ?_ ?_
  · rw [hs.control, hu.1]
    simp
  · exact fun u _ => ⟨hun.tState u, hun.kernelEsp u⟩

/-- after a switch every process waits -/
theorem Waiting.of_switch (hw : Waiting s) (hl : live s' = live s)
    (hcur : (s'.task s.current).tState = .stReady ∧ Saved (s'.task s.current).kernelEsp)
    (ht : ∀ u, live s u → u ≠ s.current →
      ((s'.task u).tState = (s.task u).tState ∨ (s'.task u).tState = .stReady) ∧
        (s'.task u).kernelEsp = (s.task u).kernelEsp) : Waiting s' := by
  intro t hlive _
  by_cases h : t = s.current
  · rw [h]
    exact hcur
  · obtain ⟨h1, h2⟩ := hw t (hl ▸ hlive) (Or.inl h)
    obtain ⟨h3, h4⟩ := ht t (hl ▸ hlive) h
    rw [h4]
    exact ⟨h3.elim (fun e => e.trans h1) id, h2⟩

theorem saved_console (c : Caller) : Saved (.console c) := ⟨by simp, by simp⟩

theorem step_waiting (hi : Inv s) (hw : Waiting s) (he : step s e = some s') : Waiting s' := by
  have hl := step_live hi he
  cases step_cases he with
  | fork hu hf =>
    rcases hi.forked hu hf with ⟨-, -, hserv⟩ | ⟨child, rest, fs, hq, -, -, hsp, -⟩
    · exact hw.of_serviced hu hserv
    · have hc : child ∈ queue s .freequeue := hq ▸ List.mem_cons_self
      intro t ht hcase
      have hns : s'.control ≠ .switched := by
        rw [hsp.control, hu.1]
        simp
      have hcur : s'.current = s.current := hsp.rep.current
      have hne : t ≠ s.current := hcur ▸ hcase.resolve_right hns
      rw [hsp.task]
      by_cases h : t = child
      · rw [if_pos h]
        exact ⟨rfl, ⟨by simp [TaskStruct.iniStats], by simp [TaskStruct.iniStats]⟩⟩
      · rw [if_neg h, if_neg hne]
        rw [hsp.live_iff hi hc] at ht
        exact hw t (ht.resolve_right h) (Or.inl hne)
  | exit hu =>
    have hx := hi.exited hu
    intro t ht _
    rw [hx.live_iff] at ht
    rw [hx.task, if_neg ht.2]
    exact hw t ht.1 (Or.inl ht.2)
  | read hu => exact hw.of_same rfl rfl (by simp) fun u _ => ⟨rfl, rfl⟩
  | service hs hu hserv => exact hw.of_serviced hu hserv
  | clock hu =>
    have hun := actTicks_unmoved .user s.current s
    exact hw.of_same (hl (by simp) (by simp)) rfl (by simp [clockEnter])
      fun u _ => ⟨hun.tState u, hun.kernelEsp u⟩
  | block c i hc hne =>
    refine hw.of_switch (hl (by simp) (by simp)) ?_ fun u _ h => ?_
    · rw [blockProcess_task, if_pos rfl]
      exact ⟨rfl, saved_console c⟩
    · rw [blockProcess_task, if_neg h]
      exact ⟨Or.inl rfl, rfl⟩
  | unblock c i t hc ht =>
    have htc : t ≠ s.current := hi.placed.ne_current ht
    have hl := hl (by simp) (by simp)
    rcases unblock_cases c htc with ⟨-, h1, h2, h3⟩ | ⟨-, h1, h3⟩
    · intro u hlive hcase
      have hne : u ≠ s.current := h2 ▸ hcase.resolve_right (by rw [h1, hc]; simp)
      obtain ⟨h4, h5⟩ := hw u (hl ▸ hlive) (Or.inl hne)
      rw [h3]
      by_cases hut : u = t
      · rw [if_pos hut]
        exact ⟨rfl, h5⟩
      · rw [if_neg hut]
        exact ⟨h4, h5⟩
    · refine hw.of_switch hl ?_ fun u _ h => ?_
      · rw [h3, if_neg htc.symm, if_pos rfl]
        exact ⟨rfl, saved_console c⟩
      · rw [h3]
        by_cases hut : u = t
        · rw [if_pos hut]
          exact ⟨Or.inr rfl, rfl⟩
        · rw [if_neg hut, if_neg h]
          exact ⟨Or.inl rfl, rfl⟩
  | ret c hc =>
    have hl := hl (by simp) (by simp)
    rcases ret_cases hc with ⟨-, h1, h2, -, h3⟩ | ⟨-, h1, h3, h4⟩
    · exact hw.of_same hl h2 (by rw [h1]; simp) fun u _ => ⟨(h3 u).tState, (h3 u).kernelEsp⟩
    · refine hw.of_switch hl ⟨h4.tState, ?_⟩ fun u _ h => ⟨Or.inl (h3 u h).tState, (h3 u h).kernelEsp⟩
      rw [h4.kernelEsp]
      exact ⟨by simp, by simp⟩
  | resume hc =>
    have hres := resume_resumed s
    refine hw.of_same (hl (by simp) (by simp)) hres.current ?_ fun u h => ?_
    · rw [resume_control]
      split <;> simp
    · rw [resume_task, if_neg h]
      exact ⟨rfl, rfl⟩

/-! ## the current process -/

theorem step_consoleRun (hi : Inv s) (hr : ConsoleRun s) (hP : inUser s → StatesAgree s)
    (he : step s e = some s') : ConsoleRun s' := by
  have hrun : inUser s → (s.task s.current).tState = .stRun := fun hu =>
    ((hP hu).run _ (hi.live_current hu)).mpr rfl
  -- no console code after these steps
  have hno : (∀ c, s'.control ≠ .console c) → ConsoleRun s' := fun h c hc => absurd hc (h c)
  cases step_cases he with
  | fork hu hf =>
    apply hno
    rcases hi.forked hu hf with ⟨-, -, hserv⟩ | ⟨child, rest, fs, -, -, -, hsp, -⟩
    · rw [hserv.control, hu.1]
      simp
    · rw [hsp.control, hu.1]
      simp
  | exit hu =>
    apply hno
    rw [sysExit_control]
    simp
  | read hu => exact fun _ _ _ => hrun hu
  | service hs hu hserv =>
    apply hno
    rw [hserv.control, hu.1]
    simp
  | clock hu =>
    intro c _ hlive
    have h1 := (actTicks_unmoved .user s.current s).tState s.current
    exact h1.trans (hrun ⟨hu, hlive.1⟩)
  | block c i hc hne =>
    apply hno
    rw [blockProcess_control]
    simp
  | unblock c i t hc ht =>
    have htc : t ≠ s.current := hi.placed.ne_current ht
    rcases unblock_cases c htc with ⟨-, h1, h2, h3⟩ | ⟨-, h1, -⟩
    · intro c' _ hlive
      rw [h2] at hlive ⊢
      rw [h3, if_neg htc.symm]
      rw [step_live hi he (by simp) (by simp)] at hlive
      exact hr c hc hlive
    · apply hno
      rw [h1]
      simp
  | ret c hc =>
    apply hno
    rcases ret_cases hc with ⟨-, h1, -⟩ | ⟨-, h1, -⟩
    · rw [h1]
      simp
    · rw [h1]
      simp
  | resume hc =>
    intro c hcon _
    rw [resume_control] at hcon
    rw [(resume_resumed s).current, resume_task, if_pos rfl]
    unfold TaskStruct.resumed
    cases hk : (s.task s.current).kernelEsp with
    | console c' => rfl
    | _ =>
      rw [hk] at hcon
      cases hcon

/-! ## user code -/

theorem statesAgree_iff (hi : Inv s) (hw : Waiting s) (hu : inUser s) :
    StatesAgree s ↔ OthersReady s ∧ (s.task s.current).tState = .stRun := by
  have hL := hi.live_current hu
  refine ⟨fun h => ⟨fun t ht hne => ?_, (h.run _ hL).mpr rfl⟩, fun h => ?_⟩
  · exact (h.ready t ht).mp (hw t ht (Or.inl hne)).1
  · obtain ⟨hoth, hrun⟩ := h
    have hcur : ∀ q, s.current ∉ queue s q := hi.placed.running
    have hone : ∀ t, t ∈ queue s .readyqueue → ∀ i, t ∉ queue s (.blocked i) :=
      fun t ht i => hi.placed.apart.tidy.once _ _ (by simp) t ht
    refine ⟨fun t ht => ?_, fun t ht => ?_, fun t ht => ?_⟩
    · by_cases h : t = s.current
      · rw [h]
        exact ⟨fun _ => rfl, fun _ => hrun⟩
      · rw [(hw t ht (Or.inl h)).1]
        exact ⟨fun h1 => (nomatch h1), fun h1 => absurd h1 h⟩
    · by_cases h : t = s.current
      · rw [h, hrun]
        exact ⟨fun h1 => (nomatch h1), fun h1 => absurd h1 (hcur _)⟩
      · exact ⟨fun _ => hoth t ht h, fun _ => (hw t ht (Or.inl h)).1⟩
    · by_cases h : t = s.current
      · rw [h, hrun]
        exact ⟨fun h1 => (nomatch h1), fun ⟨i, h1⟩ => absurd h1 (hcur _)⟩
      · rw [(hw t ht (Or.inl h)).1]
        exact ⟨fun h1 => (nomatch h1), fun ⟨i, h1⟩ => absurd h1 (hone t (hoth t ht h) i)⟩

/-- the step takes a process back to user code -/
def Leaves (s : State) (e : Event) : Prop :=
  s.current ≠ s.idleTask ∧
    ((e = .resume ∧ ∀ c, (s.task s.current).kernelEsp ≠ .console c) ∨ (e = .ret ∧ ¬ Expires s))

theorem othersReady_congr (hl : live s' = live s) (hk : s'.links = s.links)
    (hc : s'.current = s.current) : OthersReady s' ↔ OthersReady s := by
  unfold OthersReady
  rw [hl, hc, queue_congr hk]

/-- a step within user code, which moves nobody -/
theorem StatesAgree.of_unmoved (h : StatesAgree s) (hun : Unmoved s s') : StatesAgree s' := by
  have hl := live_congr hun.kept.idleTask (queue_congr hun.links .freequeue)
  refine ⟨fun t ht => ?_, fun t ht => ?_, fun t ht => ?_⟩
  · rw [hun.tState, hun.current]
    exact h.run t (hl ▸ ht)
  · rw [hun.tState, queue_congr hun.links]
    exact h.ready t (hl ▸ ht)
  · simp only [hun.tState, queue_congr hun.links]
    exact h.blocked t (hl ▸ ht)

theorem Spawned.agree (hi : Inv s) (hw : Waiting s) (hi' : Inv s') (hw' : Waiting s')
    (hu : inUser s) (h : StatesAgree s) {child : Task} {fs : List Nat}
    (hc : child ∈ queue s .freequeue) (hsp : Spawned s s' child fs) : StatesAgree s' := by
  have hne : s.current ≠ child := fun e => (hi.live_current hu).2 (e ▸ hc)
  have hcur : s'.current = s.current := hsp.rep.current
  have hu' := hsp.user hu
  obtain ⟨h1, h2⟩ := (statesAgree_iff hi hw hu).mp h
  refine (statesAgree_iff hi' hw' hu').mpr ⟨fun t ht hne' => ?_, ?_⟩
  · rw [hcur] at hne'
    rw [hsp.live_iff hi hc] at ht
    rw [hsp.rep.queue_eq]
    refine (hi.placed.apart.mem_move hc).mpr ?_
    by_cases h : t = child
    · exact Or.inr ⟨rfl, h⟩
    · exact Or.inl ⟨h1 t (ht.resolve_right h) hne', h⟩
  · rw [hcur, hsp.task, if_neg hne, if_pos rfl]
    exact h2

/-- a new child keeps the state `ST_READY` -/
theorem resume_stRun (hready : (s.task s.current).tState = .stReady)
    (hsaved : Saved (s.task s.current).kernelEsp)
    (hcon : ∀ c, (s.task s.current).kernelEsp ≠ .console c) :
    ((resume s).task (resume s).current).tState = .stRun ↔
      (s.task s.current).kernelEsp ≠ .retFromFork := by
  rw [(resume_resumed s).current, resume_task, if_pos rfl]
  unfold TaskStruct.resumed
  cases hk : (s.task s.current).kernelEsp with
  | empty => exact absurd hk hsaved.1
  | cpuIdle => exact absurd hk hsaved.2
  | retFromFork =>
    refine ⟨fun h => ?_, fun h => absurd rfl h⟩
    have h6 : (s.task s.current).tState = .stRun := h
    rw [hready] at h6
    cases h6
  | console c => exact absurd hk (hcon c)
  | clockRoutine => exact ⟨fun _ h => (nomatch h), fun _ => rfl⟩
  | sysExit => exact ⟨fun _ h => (nomatch h), fun _ => rfl⟩

theorem step_agree_iff (hi : Inv s) (hw : Waiting s) (hr : ConsoleRun s)
    (hP : inUser s → StatesAgree s) (he : step s e = some s') :
    (inUser s' → StatesAgree s') ↔ (Leaves s e → OthersReady s ∧
      (e = .resume → (s.task s.current).kernelEsp ≠ .retFromFork)) := by
  have hi' := step_inv hi he
  have hw' := step_waiting hi hw he
  have hl := step_live hi he
  -- the step stays in the kernel, or in user code
  have hleave : (e ≠ .resume → e ≠ .ret → ¬ Leaves s e) := fun h1 h2 ⟨_, h3⟩ =>
    h3.elim (fun h => h1 h.1) fun h => h2 h.1
  have hkernel : ¬ Leaves s e → s'.control ≠ .user → ((inUser s' → StatesAgree s') ↔
      (Leaves s e → OthersReady s ∧
        (e = .resume → (s.task s.current).kernelEsp ≠ .retFromFork))) := fun h1 h2 =>
    ⟨fun _ h => absurd h h1, fun _ h => absurd h.1 h2⟩
  have hstay : ¬ Leaves s e → StatesAgree s' → ((inUser s' → StatesAgree s') ↔
      (Leaves s e → OthersReady s ∧
        (e = .resume → (s.task s.current).kernelEsp ≠ .retFromFork))) := fun h1 h2 =>
    ⟨fun _ h => absurd h h1, fun _ _ => h2⟩
  cases step_cases he with
  | fork hu hf =>
    apply hstay (hleave (by simp) (by simp))
    have hs := hP hu
    rcases hi.forked hu hf with ⟨-, -, hserv⟩ | ⟨child, rest, fs, hq, -, -, hsp, -⟩
    · exact hs.of_unmoved hserv.unmoved
    · exact hsp.agree hi hw hi' hw' hu hs (hq ▸ List.mem_cons_self)
  | exit hu =>
    apply hkernel (hleave (by simp) (by simp))
    rw [sysExit_control]
    simp
  | read hu => exact hkernel (hleave (by simp) (by simp)) (by simp)
  | service hs hu hserv =>
    apply hstay (hleave (by cases e <;> simp_all [Event.service])
      (by cases e <;> simp_all [Event.service]))
    exact (hP hu).of_unmoved hserv.unmoved
  | clock hu => exact hkernel (hleave (by simp) (by simp)) (by simp [clockEnter])
  | block c i hc hne =>
    apply hkernel (hleave (by simp) (by simp))
    rw [blockProcess_control]
    simp
  | unblock c i t hc ht =>
    have htc : t ≠ s.current := hi.placed.ne_current ht
    apply hkernel (hleave (by simp) (by simp))
    rcases unblock_cases c htc with ⟨-, h1, -⟩ | ⟨-, h1, -⟩
    · rw [h1, hc]
      simp
    · rw [h1]
      simp
  | ret c hc =>
    have hl := hl (by simp) (by simp)
    have hidle := step_idleTask hi he
    rcases ret_cases hc with ⟨hx, h1, h2, h3, h4⟩ | ⟨hx, h1, -⟩
    · by_cases hcur : s.current = s.idleTask
      · have h5 : ¬ inUser (consoleReturn c s) := fun hu => hu.2 (by rw [h2, hidle, hcur])
        exact ⟨fun _ h => absurd hcur h.1, fun _ h => absurd h h5⟩
      · have hu' : inUser (consoleReturn c s) := ⟨h1, by rw [h2, hidle]; exact hcur⟩
        have hrun : ((consoleReturn c s).task (consoleReturn c s).current).tState = .stRun := by
          rw [h2, (h4 _).tState]
          exact hr c hc (hi.placed.live_current hcur)
        have hiff := statesAgree_iff hi' hw' hu'
        rw [othersReady_congr hl h3 h2] at hiff
        refine ⟨fun h _ => ⟨(hiff.mp (h hu')).1, fun e => nomatch e⟩, fun h _ => ?_⟩
        exact hiff.mpr ⟨(h ⟨hcur, Or.inr ⟨rfl, hx⟩⟩).1, hrun⟩
    · refine hkernel (fun h => ?_) (by rw [h1]; simp)
      obtain h5 | h5 := h.2
      · exact nomatch h5.1
      · exact h5.2 hx
  | resume hc =>
    have hl := hl (by simp) (by simp)
    have hidle := step_idleTask hi he
    have hres := resume_resumed s
    by_cases hcur : s.current = s.idleTask
    · have h5 : ¬ inUser (resume s) := fun hu => hu.2 (by rw [hres.current, hidle, hcur])
      exact ⟨fun _ h => absurd hcur h.1, fun _ h => absurd h h5⟩
    · have hL : live s s.current := hi.placed.live_current hcur
      obtain ⟨hready, hsaved⟩ := hw s.current hL (Or.inr hc)
      by_cases hcon : ∃ c, (s.task s.current).kernelEsp = .console c
      · obtain ⟨c, hk⟩ := hcon
        refine hkernel (fun h => ?_) (by rw [resume_control, hk]; simp)
        obtain h5 | h5 := h.2
        · exact h5.2 c hk
        · exact nomatch h5.1
      · rw [not_exists] at hcon
        have hctl : (resume s).control = .user := by
          rw [resume_control]
          cases hk : (s.task s.current).kernelEsp with
          | console c => exact absurd hk (hcon c)
          | _ => rfl
        have hu' : inUser (resume s) := ⟨hctl, by rw [hres.current, hidle]; exact hcur⟩
        have hiff := statesAgree_iff hi' hw' hu'
        rw [othersReady_congr hl hres.links hres.current, resume_stRun hready hsaved hcon] at hiff
        refine ⟨fun h _ => ⟨(hiff.mp (h hu')).1, fun _ => (hiff.mp (h hu')).2⟩, fun h _ => ?_⟩
        obtain ⟨h6, h7⟩ := h ⟨hcur, Or.inl ⟨rfl, hcon⟩⟩
        exact hiff.mpr ⟨h6, h7 rfl⟩

/-! ## runs -/

theorem boot_waiting (mem : Nat → Byte) (tsc : Nat → DWord) : Waiting (boot mem tsc) := by
  intro t ht hcase
  refine hcase.elim (fun h => ?_) fun h => ?_
  · exact absurd (((boot_live mem tsc t).mp ht).trans (boot_current mem tsc).symm) h
  · rw [boot_control] at h
    cases h

theorem boot_agree (mem : Nat → Byte) (tsc : Nat → DWord) : StatesAgree (boot mem tsc) := by
  have hi := boot_inv mem tsc
  refine (statesAgree_iff hi (boot_waiting mem tsc) (boot_inUser mem tsc)).mpr ⟨fun t ht h => ?_, ?_⟩
  · exact absurd (((boot_live mem tsc t).mp ht).trans (boot_current mem tsc).symm) h
  · rw [boot_current, boot_init]

/-- **The state of a process agrees with its place** whenever user code runs, in a run in which
nobody is blocked when a process comes back to user code and no child comes to it from
`ret_from_fork`, and there only. -/
theorem states_agree (mem : Nat → Byte) (tsc : Nat → DWord) (es : List Event) :
    Always step (fun s => inUser s → StatesAgree s) (boot mem tsc) es ↔
      Guarded step (fun s e => Leaves s e → OthersReady s ∧
        (e = .resume → (s.task s.current).kernelEsp ≠ .retFromFork)) (boot mem tsc) es := by
  apply always_iff_guarded (I := fun s => Inv s ∧ Waiting s ∧ ConsoleRun s)
  · refine ⟨boot_inv mem tsc, boot_waiting mem tsc, fun c hc => ?_⟩
    rw [boot_control] at hc
    cases hc
  · exact fun _ => boot_agree mem tsc
  · intro s e s' hI hP he
    obtain ⟨hi, hw, hr⟩ := hI
    exact ⟨step_inv hi he, step_waiting hi hw he, step_consoleRun hi hr hP he⟩
  · intro s e s' hI hP he
    obtain ⟨hi, hw, hr⟩ := hI
    exact step_agree_iff hi hw hr hP he

/-- the process forks and blocks, and its child gets the CPU -/
def forkAndBlock : List Event := [.fork, .read, .block 0, .resume]

/-- the child is made in `s₁`, and dispatched in `s₃` -/
structure ChildNext (s : State) (child : Task) (s₁ s₃ : State) : Prop where
  fork : step s .fork = some s₁
  read : step s₁ .read = some { s₁ with control := .console .sysRead }
  block : step { s₁ with control := .console .sysRead } (.block 0) = some s₃
  born : ¬ live s child ∧ live s₁ child
  idleTask : s₃.idleTask = s.idleTask
  control : s₃.control = .switched
  current : s₃.current = child
  kernelEsp : (s₃.task child).kernelEsp = .retFromFork
  blocked : s.current ∈ queue s₃ (.blocked 0)

theorem Alone.childNext (h : Alone s) : ∃ child s₁ s₃, ChildNext s child s₁ s₃ := by
  have hi := h.inv
  obtain ⟨child, fs, s₁, hc, hsp, he₁, hu₁, hcur₁, hne, hready₁⟩ := h.fork
  have hi₁ := step_inv hi he₁
  have hlive : live s₁ child := by
    rw [hsp.live_iff hi hc]
    exact Or.inr rfl
  -- the parent joins the blocked queue, and the child is dispatched
  have he₂ : step s₁ .read = some { s₁ with control := .console .sysRead } := if_pos hu₁
  have hi₂ := step_inv hi₁ he₂
  have he₃ : step { s₁ with control := .console .sysRead } (.block 0) =
      some (blockProcess .sysRead (.blocked 0) { s₁ with control := .console .sysRead }) :=
    if_pos hu₁.2
  generalize hs₃ : blockProcess .sysRead (.blocked 0) { s₁ with control := .console .sysRead } = s₃
    at he₃
  have hdesk₂ : desk { s₁ with control := .console .sysRead } = desk s₁ := rfl
  have hrep₃ : Rep s₃ ((desk s₁).after s₁.idleTask .readyqueue (.leave (.blocked 0))) :=
    hdesk₂ ▸ (step_moves hi₂ he₃).2
  refine ⟨child, s₁, s₃, he₁, he₂, he₃, ⟨fun hl => hl.2 hc, hlive⟩, ?_, ?_, ?_, ?_, ?_⟩
  · rw [step_idleTask hi₂ he₃]
    exact hsp.idleTask
  · rw [← hs₃]
    exact blockProcess_control ..
  · rw [hrep₃.current]
    show (((desk s₁).put (.blocked 0) (desk s₁).running).dispatch s₁.idleTask .readyqueue).running = _
    rw [Desk.dispatch_running, Desk.put_queue_of_ne (by simp)]
    show (queue s₁ .readyqueue).headD _ = _
    rw [hready₁]
    rfl
  · have h1 : child ≠ s₁.current := hcur₁ ▸ hne
    rw [← hs₃, blockProcess_task, if_neg h1, hsp.task, if_pos rfl]
    rfl
  · rw [hrep₃.queue_eq, Desk.leave_queue_self (by simp)]
    exact List.mem_append.mpr (Or.inr (List.mem_singleton.mpr hcur₁.symm))

theorem Alone.blocks (h : Alone s) :
    ∃ s', run step s forkAndBlock = some s' ∧ inUser s' ∧ ¬ StatesAgree s' := by
  have hi := h.inv
  have hw : Waiting s := by
    intro t ht hcase
    refine hcase.elim (fun hne => absurd (h.only t ht) hne) fun hs => ?_
    rw [h.user.1] at hs
    cases hs
  obtain ⟨child, s₁, s₃, hn⟩ := h.childNext
  have hi₁ := step_inv hi hn.fork
  have hi₂ := step_inv hi₁ hn.read
  have hi₃ := step_inv hi₂ hn.block
  have hw₃ := step_waiting hi₂ (step_waiting hi₁ (step_waiting hi hw hn.fork) hn.read) hn.block
  -- the child comes to user code
  have he₄ : step s₃ .resume = some (resume s₃) := if_pos hn.control
  have hres := resume_resumed s₃
  have hi₄ := step_inv hi₃ he₄
  have hw₄ := step_waiting hi₃ hw₃ he₄
  have hidle : (resume s₃).idleTask = s.idleTask := (step_idleTask hi₃ he₄).trans hn.idleTask
  have hctl : (resume s₃).control = .user := by
    rw [resume_control, hn.current, hn.kernelEsp]
  have hmem₄ : s.current ∈ queue (resume s₃) (.blocked 0) := by
    rw [queue_congr hres.links]
    exact hn.blocked
  have htidy := hi₄.placed.apart.tidy
  have hlive : live (resume s₃) s.current := by
    refine ⟨hidle ▸ h.user.2, fun hf => ?_⟩
    exact htidy.once (.blocked 0) .freequeue (by simp) _ hmem₄ hf
  have hne : s.current ≠ (resume s₃).current := fun e =>
    hi₄.placed.running (.blocked 0) (e ▸ hmem₄)
  refine ⟨resume s₃, ?_, ⟨hctl, ?_⟩, fun hagree => ?_⟩
  · rw [forkAndBlock, run_cons, hn.fork, Option.bind_some, run_cons, hn.read, Option.bind_some,
      run_cons, hn.block, Option.bind_some, run_cons, he₄]
    rfl
  · rw [hres.current, hn.current, hidle]
    refine fun e => hn.born.2.1 (e.trans ?_)
    exact (step_idleTask hi hn.fork).symm
  · -- the parent is blocked, with the state ST_READY
    have hst := (hw₄ s.current hlive (Or.inl hne)).1
    have hr := (hagree.ready s.current hlive).mp hst
    exact htidy.once (.blocked 0) .readyqueue (by simp) _ hmem₄ hr

/-- the initial process forks and blocks -/
theorem states_disagree :
    ∃ s, run step (boot (fun _ => 0) fun _ => 0) forkAndBlock = some s ∧ inUser s ∧
      ¬ StatesAgree s := (boot_alone _ _).blocks

end
end Zeos
