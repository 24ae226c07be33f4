import ZeroOS.Zeos.Effects

/-!
# Zeos: who writes the memory

* `copyToUser_outside`   a copy of the kernel to a user address writes only there;
* `step_mem`             the events that leave the whole memory alone.
-/

set_option linter.unusedVariables false

namespace Zeos
open Programs Runs

section
variable {s s' : State} {t : Task}

/-! ## copies to a user address -/

/-- `w'` has the memory of `w` but for the bytes behind the `n` addresses from `q` on -/
structure Elsewhere (w : State) (q n : Nat) (w' : State) : Prop where
  mm : w'.mm = w.mm
  cr3 : w'.cr3 = w.cr3
  mem : ∀ x, (∀ j, j < n → mmu w ((q + j) % 2 ^ 32) ≠ some x) → w'.mem x = w.mem x

theorem mmu_congr {w w' : State} (hm : w'.mm = w.mm) (hc : w'.cr3 = w.cr3) (a : Nat) :
    mmu w' a = mmu w a := by
  unfold mmu
  rw [hm, hc]

theorem Elsewhere.store {w w' w'' : State} {q n j : Nat} {b : Byte} (h : Elsewhere w q n w')
    (hj : j < n) (hst : kernelStore ((q + j) % 2 ^ 32) b (w'.deref ((q + j) % 2 ^ 32)) = .ok w'') :
    Elsewhere w q n w'' := by
  have he : mmu (w'.deref ((q + j) % 2 ^ 32)) ((q + j) % 2 ^ 32 % 2 ^ 32) =
      mmu w ((q + j) % 2 ^ 32) := by
    rw [Nat.mod_mod]
    exact mmu_congr h.mm h.cr3 _
  unfold kernelStore at hst
  rw [he] at hst
  cases hx : mmu w ((q + j) % 2 ^ 32) with
  | none =>
    rw [hx] at hst
    cases hst
  | some y =>
    rw [hx] at hst
    cases hst
    refine ⟨h.mm, h.cr3, fun x hno => ?_⟩
    have hne : x ≠ y := fun e => hno j hj (e ▸ hx)
    exact (Function.update_of_ne hne ..).trans (h.mem x hno)

theorem copyToUser_outside {obj : Nat → Byte} {q : Nat} {n : Nat}
    (h : copyToUser (toUserBus obj) 0 q n s = .ok s') : Elsewhere s q n s' := by
  have hst : Steps (toUserBus obj) 0 q (n : Int).toNat (fun _ _ => Elsewhere s q n)
      fun _ => True := by
    refine ⟨fun i ps w hi _ hI => hI, fun j b ps w hj hI => ?_⟩
    rw [Int.toNat_natCast] at hj
    cases hr : (toUserBus obj).store (q + j) b w with
    | error e => trivial
    | ok w' => exact hI.store hj hr
  have hp := copyLoop_rule hst (s := s) ⟨rfl, rfl, fun _ _ => rfl⟩
  unfold copyToUser at h
  rw [h] at hp
  exact hp

/-- a record that is not refused begins in the user pages -/
theorem statsAddr {st : DWord} (hst : ¬ StatsRefused st) {j : Nat} (hj : j < sizeofStats) :
    (st.toNat + j) % 2 ^ 32 = st.toNat + j ∧ 256 * 4096 ≤ st.toNat + j := by
  rw [not_or, not_or] at hst
  obtain ⟨-, h1, h2⟩ := hst
  simp only [lUserStart, numPagData, numPagCode, pageSize, sizeofStats] at h1 h2 hj
  omega

/-- the other events leave the whole memory alone, but for the copy that `sys_fork` makes -/
theorem step_mem {e : Event} (he : step s e = some s') (hf : e ≠ .fork)
    (hs : ∀ a b, e ≠ .store a b) (hg : ∀ pid st, e ≠ .getStats pid st) : s'.mem = s.mem := by
  cases e with
  | fork => exact absurd rfl hf
  | store a b => exact absurd rfl (hs a b)
  | getStats pid st => exact absurd rfl (hg pid st)
  | exit =>
    obtain ⟨-, he⟩ := guarded_eq_some he
    cases he
    exact (sysExit_quiet s).mem
  | write fd buffer size =>
    obtain ⟨-, he⟩ := guarded_eq_some he
    obtain ⟨r, hr⟩ := returned_eq_some.mp he
    exact (sysWrite_text hr).2.2.2
  | gettime | getpid | read | clock =>
    obtain ⟨-, he⟩ := guarded_eq_some he
    cases he
    rfl
  | block i =>
    cases step_cases he with
    | service hs => cases hs
    | block c i hc _ => exact (blockProcess_quiet c _ s).mem
  | unblock i u =>
    cases step_cases he with
    | service hs => cases hs
    | unblock c i u hc _ => exact (unblockProcess_quiet c u s).mem
  | ret =>
    cases step_cases he with
    | service hs => cases hs
    | ret c hc => exact (consoleReturn_quiet c s).mem
  | resume =>
    obtain ⟨-, rfl⟩ := step_resume he
    exact (resume_quiet s).mem

end
end Zeos
