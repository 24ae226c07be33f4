import ZeroOS.Zeos.Kernel

/-!
# Zeos: the events, one by one

* `Passive s s'`     only memory, the console and the history of dereferences differ;
* `Serviced s s'`    passive changes and accounting updates of `current`, in any order: what
                     `sys_write`, `sys_gettime`, `sys_getpid`, `sys_get_stats` and a user store do;
* `Unmoved s s'`     no task changes its place or state;
* `StepCases`        the ways a step can go (`step_cases`).
-/

set_option linter.unusedVariables false

namespace Zeos
open Programs Runs

/-! ## services -/

structure Passive (s s' : State) : Prop where
  eq : s' = { s with mem := s'.mem, out := s'.out, derefs := s'.derefs }

theorem Passive.refl (s : State) : Passive s s := ⟨rfl⟩

theorem Passive.trans {a b c : State} (h : Passive a b) (h' : Passive b c) : Passive a c := by
  refine ⟨?_⟩
  rw [h'.eq, h.eq]

theorem passive_setMem (s : State) (m : Nat → Byte) : Passive s (s.setMem m) := ⟨rfl⟩
theorem passive_deref (s : State) (a : Nat) : Passive s (s.deref a) := ⟨rfl⟩

inductive Serviced (s : State) : State → Prop where
  | refl : Serviced s s
  | tick {s' : State} (c : Counter) : Serviced s s' → Serviced s (actTicks c s'.current s')
  | passive {s' s'' : State} : Serviced s s' → Passive s' s'' → Serviced s s''

section
variable {s s' : State}

/-! ## copies -/

theorem kernelLoad_eq {a : Nat} {b : Byte} (h : kernelLoad a s = .ok (b, s')) : s' = s := by
  unfold kernelLoad at h
  cases hx : mmu s (a % 2 ^ 32) with
  | none =>
    rw [hx] at h
    cases h
  | some x =>
    rw [hx] at h
    cases h
    rfl

theorem kernelStore_passive {a : Nat} {b : Byte} (h : kernelStore a b s = .ok s') :
    Passive s s' := by
  unfold kernelStore at h
  cases hx : mmu s (a % 2 ^ 32) with
  | none =>
    rw [hx] at h
    cases h
  | some x =>
    rw [hx] at h
    cases h
    exact passive_setMem s _

/-- what a copy keeps if its loads and stores keep it -/
theorem copyLoop_keeps {σ β : Type*} {B : Bus σ β} {I : σ → Prop}
    (hl : ∀ a s b s', I s → B.load a s = .ok (b, s') → I s')
    (hs : ∀ a b s s', I s → B.store a b s = .ok s' → I s') {n p q : Nat} {s s' : σ} (h0 : I s)
    (h : copyLoop B n p q s = .ok s') : I s' := by
  have hst : Steps B p q n (fun _ _ => I) fun _ => True := by
    constructor
    · intro i ps s _ _ hI
      cases hr : B.load (p + i) s with
      | error e => trivial
      | ok a => exact hl _ _ _ _ hI hr
    · intro j x ps s _ hI
      cases hr : B.store (q + j) x s with
      | error e => trivial
      | ok a => exact hs _ _ _ _ hI hr
  have hp := copyLoop_rule hst h0
  rw [h] at hp
  exact hp

theorem copyToUser_passive {obj : Nat → Byte} {p q : Nat} {n : Int}
    (h : copyToUser (toUserBus obj) p q n s = .ok s') : Passive s s' := by
  refine copyLoop_keeps (I := Passive s) ?_ ?_ (Passive.refl s) h
  · intro a s₁ b s₂ hI hr
    cases hr
    exact hI
  · intro a b s₁ s₂ hI hr
    exact (hI.trans (passive_deref ..)).trans (kernelStore_passive hr)

theorem copyFromUser_passive {buf : Nat → Byte} {p q : Nat} {n : Int}
    {x : State × (Nat → Byte)} (h : copyFromUser fromUserBus p q n (s, buf) = .ok x) :
    Passive s x.1 := by
  refine copyLoop_keeps (I := fun x => Passive s x.1) ?_ ?_ (Passive.refl s) h
  · rintro a ⟨s₁, buf₁⟩ b ⟨s₂, buf₂⟩ hI hr
    unfold fromUserBus at hr
    dsimp only at hr
    split at hr
    · rename_i y s₃ hk
      cases hr
      have e := kernelLoad_eq hk
      exact hI.trans (e ▸ passive_deref ..)
    · cases hr
  · rintro a b ⟨s₁, buf₁⟩ ⟨s₂, buf₂⟩ hI hr
    cases hr
    exact hI

/-! ## system calls -/

theorem sysWriteConsole_passive (buf : Nat → Byte) (n : Int) (s : State) :
    Passive s (sysWriteConsole buf n s).2 := ⟨rfl⟩

theorem writeChunk_passive {buffer : DWord} {written size w : Int}
    (h : writeChunk buffer written size s = .ok (w, s')) : Passive s s' := by
  unfold writeChunk at h
  split at h
  · rename_i s₁ buf hr
    cases h
    exact (copyFromUser_passive hr).trans (sysWriteConsole_passive ..)
  · cases h

theorem writeLoop_passive {buffer : DWord} (n : Nat) {size written : Int} {s : State}
    {x : Int × Int × State} (h : writeLoop buffer n size written s = .ok x) :
    Passive s x.2.2 := by
  induction n generalizing size written s with
  | zero =>
    cases h
    exact Passive.refl s
  | succ n ih =>
    unfold writeLoop at h
    split at h
    · cases hc : writeChunk buffer written maxWrite s with
      | error e => rw [hc] at h; cases h
      | ok y =>
        rw [hc] at h
        exact (writeChunk_passive hc).trans (ih h)
    · cases h
      exact Passive.refl s

theorem sysWrite_serviced {fd : Int} {buffer : DWord} {size r : Int}
    (h : sysWrite fd buffer size s = .ok (r, s')) : Serviced s s' := by
  have h0 : Serviced s (actTicksUser2kernel s) := .tick .user .refl
  unfold sysWrite at h
  dsimp only at h
  split at h
  · cases h
    exact .tick .system h0
  · split at h
    · cases h
      exact .tick .system h0
    · split at h
      · cases h
        exact .tick .system h0
      · cases hw : writeLoop buffer size.toNat size 0 (actTicksUser2kernel s) with
        | error e => rw [hw] at h; cases h
        | ok x =>
          rw [hw] at h
          have h1 := h0.passive (writeLoop_passive _ hw)
          cases hc : writeChunk buffer x.2.1 x.1 x.2.2 with
          | error e =>
            simp only [Except.bind, hc] at h
            cases h
          | ok y =>
            simp only [Except.bind, hc] at h
            have h2 := h1.passive (writeChunk_passive hc)
            split at h
            · cases h
              exact .tick .system h2
            · cases h
              exact h2

theorem sysGettime_serviced (s : State) : Serviced s (sysGettime s).2 :=
  .tick .system (.tick .user .refl)

theorem sysGetpid_serviced (s : State) : Serviced s (sysGetpid s).2 :=
  .tick .system (.tick .user .refl)

theorem getStatPID_passive {pid : Int} {st : DWord} {r : Int}
    (h : getStatPID pid st s = .ok (r, s')) : Passive s s' := by
  unfold getStatPID at h
  split at h
  · rename_i act _
    cases hc : copyToUser (toUserBus (s.task act).statics.bytes) 0 st.toNat sizeofStats s with
    | error e => rw [hc] at h; cases h
    | ok y =>
      rw [hc] at h
      cases h
      exact copyToUser_passive hc
  · cases h
    exact Passive.refl s

theorem sysGetStats_serviced {pid : Int} {st : DWord} {r : Int}
    (h : sysGetStats pid st s = .ok (r, s')) : Serviced s s' := by
  have h0 : Serviced s (actTicksUser2kernel s) := .tick .user .refl
  unfold sysGetStats at h
  dsimp only at h
  split at h
  · cases h
    exact .tick .system h0
  · split at h
    · cases h
      exact .tick .system h0
    · split at h
      · have h1 : Serviced s (actTicksKernel2user (actTicksUser2kernel s)) := .tick .system h0
        revert h
        generalize actTicksKernel2user (actTicksUser2kernel s) = s₁ at h1
        intro h
        cases hc : copyToUser (toUserBus (s₁.task s₁.current).statics.bytes) 0 st.toNat
            sizeofStats s₁ with
        | error e => rw [hc] at h; cases h
        | ok y =>
          rw [hc] at h
          cases h
          exact h1.passive (copyToUser_passive hc)
      · cases hg : getStatPID pid st (actTicksUser2kernel s) with
        | error e => rw [hg] at h; cases h
        | ok y =>
          obtain ⟨r₁, s₁⟩ := y
          rw [hg] at h
          simp only [Except.bind] at h
          have h1 := h0.passive (getStatPID_passive hg)
          split at h
          · cases h
            exact .tick .system h1
          · cases h
            exact .tick .system h1

/-! ## what a service leaves alone -/

/-- no task moves -/
structure Unmoved (s s' : State) : Prop where
  kept : Kept s s'
  links : s'.links = s.links
  current : s'.current = s.current
  cr3 : s'.cr3 = s.cr3
  cpuQuantum : s'.cpuQuantum = s.cpuQuantum
  tState : ∀ t, (s'.task t).tState = (s.task t).tState
  kernelEsp : ∀ t, (s'.task t).kernelEsp = (s.task t).kernelEsp

theorem Unmoved.of_task (ht : s'.task = s.task) (hm : s'.mm = s.mm) (hp : s'.pidMax = s.pidMax)
    (hi : s'.idleTask = s.idleTask) (hl : s'.links = s.links) (hc : s'.current = s.current)
    (h3 : s'.cr3 = s.cr3) (hq : s'.cpuQuantum = s.cpuQuantum) : Unmoved s s' :=
  ⟨⟨hm, hp, hi, fun t => by rw [ht]⟩, hl, hc, h3, hq, fun t => by rw [ht], fun t => by rw [ht]⟩

theorem Unmoved.refl (s : State) : Unmoved s s := .of_task rfl rfl rfl rfl rfl rfl rfl rfl

theorem Unmoved.trans {a b c : State} (h : Unmoved a b) (h' : Unmoved b c) : Unmoved a c :=
  ⟨h.kept.trans h'.kept, h'.links.trans h.links, h'.current.trans h.current, h'.cr3.trans h.cr3,
    h'.cpuQuantum.trans h.cpuQuantum, fun t => (h'.tState t).trans (h.tState t),
    fun t => (h'.kernelEsp t).trans (h.kernelEsp t)⟩

theorem actTicks_unmoved (c : Counter) (t : Task) (s : State) : Unmoved s (actTicks c t s) := by
  refine ⟨actTicks_kept c t s, rfl, rfl, rfl, rfl, fun u => ?_, fun u => ?_⟩
  · rw [actTicks, account_task]
    by_cases h : u = t
    · rw [if_pos h, h]
      rfl
    · rw [if_neg h]
  · rw [actTicks, account_task]
    by_cases h : u = t
    · rw [if_pos h, h]
      rfl
    · rw [if_neg h]

theorem Passive.unmoved (h : Passive s s') : Unmoved s s' := by
  rw [h.eq]
  exact .of_task rfl rfl rfl rfl rfl rfl rfl rfl

theorem Serviced.unmoved (h : Serviced s s') : Unmoved s s' := by
  induction h with
  | refl => exact Unmoved.refl s
  | tick c _ ih => exact ih.trans (actTicks_unmoved ..)
  | passive _ hp ih => exact ih.trans hp.unmoved

theorem Serviced.control (h : Serviced s s') : s'.control = s.control := by
  induction h with
  | refl => rfl
  | tick c _ ih => exact ih
  | passive _ hp ih => rw [hp.eq]; exact ih

/-! ## events -/

theorem returned_eq_some {r : Except State (Int × State)} :
    returned r = some s' ↔ ∃ v, r = .ok (v, s') := by
  unfold returned
  cases r with
  | error e => simp
  | ok a =>
    obtain ⟨v, s₁⟩ := a
    simp

/-- the events in which a user process gets a service, or stores a byte -/
def Event.service : Event → Bool
  | .write .. | .gettime | .getpid | .getStats .. | .store .. => true
  | _ => false

inductive StepCases (s : State) : Event → State → Prop where
  | fork {v : Int} {s' : State} : inUser s → sysFork s = .ok (v, s') → StepCases s .fork s'
  | exit : inUser s → StepCases s .exit (sysExit s)
  | read : inUser s → StepCases s .read { s with control := .console .sysRead }
  | service {e : Event} {s' : State} : e.service = true → inUser s → Serviced s s' →
      StepCases s e s'
  | clock : s.control = .user → StepCases s .clock (clockEnter s)
  | block (c : Caller) (i : Nat) : s.control = .console c → s.current ≠ s.idleTask →
      StepCases s (.block i) (blockProcess c (.blocked i) s)
  | unblock (c : Caller) (i : Nat) (t : Task) : s.control = .console c →
      t ∈ queue s (.blocked i) → StepCases s (.unblock i t) (unblockProcess c t s)
  | ret (c : Caller) : s.control = .console c → StepCases s .ret (consoleReturn c s)
  | resume : s.control = .switched → StepCases s .resume (Zeos.resume s)

theorem userStore_passive {a : Nat} {b : Byte} (h : userStore a b s = some s') : Passive s s' := by
  obtain ⟨x, -, rfl⟩ := Option.map_eq_some_iff.mp h
  exact passive_setMem ..

theorem guarded_eq_some {p : Prop} [Decidable p] {x : Option State}
    (h : (if p then x else none) = some s') : p ∧ x = some s' := by
  by_cases hp : p
  · exact ⟨hp, by rwa [if_pos hp] at h⟩
  · rw [if_neg hp] at h
    cases h

theorem step_resume (h : step s .resume = some s') : s.control = .switched ∧ s' = resume s := by
  obtain ⟨hc, h1⟩ := guarded_eq_some h
  exact ⟨hc, (Option.some.inj h1).symm⟩

theorem step_cases {e : Event} (h : step s e = some s') : StepCases s e s' := by
  cases e with
  | fork =>
    obtain ⟨hu, h1⟩ := guarded_eq_some h
    obtain ⟨v, h2⟩ := returned_eq_some.mp h1
    exact .fork hu h2
  | exit =>
    obtain ⟨hu, h1⟩ := guarded_eq_some h
    exact Option.some.inj h1 ▸ .exit hu
  | write fd buffer size =>
    obtain ⟨hu, h1⟩ := guarded_eq_some h
    obtain ⟨v, h2⟩ := returned_eq_some.mp h1
    exact .service rfl hu (sysWrite_serviced h2)
  | gettime =>
    obtain ⟨hu, h1⟩ := guarded_eq_some h
    exact .service rfl hu (Option.some.inj h1 ▸ sysGettime_serviced s)
  | getpid =>
    obtain ⟨hu, h1⟩ := guarded_eq_some h
    exact .service rfl hu (Option.some.inj h1 ▸ sysGetpid_serviced s)
  | getStats pid st =>
    obtain ⟨hu, h1⟩ := guarded_eq_some h
    obtain ⟨v, h2⟩ := returned_eq_some.mp h1
    exact .service rfl hu (sysGetStats_serviced h2)
  | read =>
    obtain ⟨hu, h1⟩ := guarded_eq_some h
    exact Option.some.inj h1 ▸ .read hu
  | store a b =>
    obtain ⟨hu, h1⟩ := guarded_eq_some h
    exact .service rfl hu (.passive .refl (userStore_passive h1))
  | clock =>
    obtain ⟨hu, h1⟩ := guarded_eq_some h
    exact Option.some.inj h1 ▸ .clock hu
  | block i =>
    simp only [step] at h
    split at h
    · rename_i c hc
      obtain ⟨hu, h1⟩ := guarded_eq_some h
      exact Option.some.inj h1 ▸ .block c i hc hu
    · cases h
  | unblock i t =>
    simp only [step] at h
    split at h
    · rename_i c hc
      obtain ⟨hu, h1⟩ := guarded_eq_some h
      exact Option.some.inj h1 ▸ .unblock c i t hc hu
    · cases h
  | ret =>
    simp only [step] at h
    split at h
    · rename_i c hc
      exact Option.some.inj h ▸ .ret c hc
    · cases h
  | resume =>
    obtain ⟨hu, h1⟩ := guarded_eq_some h
    exact Option.some.inj h1 ▸ .resume hu

end
end Zeos
