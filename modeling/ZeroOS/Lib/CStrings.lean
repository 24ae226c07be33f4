import Mathlib.Data.List.GetD
import Mathlib.Data.List.TakeWhile
import Mathlib.Logic.Function.Basic

/-!
# Strings in a memory

A memory is a function of the offset; a string in it ends before the first terminator.

* `ascii`          the bytes of a constant;
* `put`            a list written into a memory;
* `stringAt`       the string at the start of a memory, if it ends within `fuel` cells;
* `stringAt_put`   the string in a list that was written with a terminator after it.
-/

set_option linter.unusedVariables false

namespace CStrings

/-- the bytes of a string constant, without the terminator -/
def ascii (s : String) : List (BitVec 8) := s.toList.map fun c => BitVec.ofNat 8 c.toNat

variable {β : Type*} {b : Nat → β} {s t : List β} {i j fuel : Nat} {c z : β}

/-- `s` written from offset `i` on -/
def put (i : Nat) (s : List β) (b : Nat → β) : Nat → β :=
  fun j => if i ≤ j then s.getD (j - i) (b j) else b j

theorem put_before (h : j < i) : put i s b j = b j := if_neg (by omega)

theorem put_after (h : i + s.length ≤ j) : put i s b j = b j := by
  unfold put
  rw [if_pos (by omega), List.getD_eq_default _ _ (by omega)]

theorem put_add (h : j < s.length) : put i s b (i + j) = s[j] := by
  unfold put
  rw [if_pos (by omega), Nat.add_sub_cancel_left, List.getD_eq_getElem _ _ h]

theorem put_zero (h : j < s.length) : put 0 s b j = s[j] := by
  have := put_add (i := 0) (b := b) h
  rwa [Nat.zero_add] at this

theorem put_nil (i : Nat) (b : Nat → β) : put i [] b = b := by
  funext j
  by_cases h : i ≤ j
  · exact put_after h
  · exact put_before (by omega)

/-- what is written last stands before what was written first -/
theorem put_update (i : Nat) (c : β) (s : List β) (b : Nat → β) :
    put (i + 1) s (Function.update b i c) = put i (c :: s) b := by
  funext j
  rcases Nat.lt_trichotomy j i with h | rfl | h
  · rw [put_before (by omega), put_before h, Function.update_of_ne (by omega)]
  · rw [put_before (by omega), Function.update_self]
    exact (put_add (i := j) (s := c :: s) (j := 0) (Nat.succ_pos _)).symm
  · obtain ⟨k, rfl⟩ := Nat.exists_eq_add_of_lt h
    unfold put
    rw [if_pos (by omega), if_pos (by omega), Function.update_of_ne (by omega),
      show i + k + 1 - (i + 1) = k by omega, show i + k + 1 - i = k + 1 by omega, List.getD_cons_succ]

theorem update_put (i : Nat) (s : List β) (c : β) (b : Nat → β) :
    Function.update (put i s b) (i + s.length) c = put i (s ++ [c]) b := by
  induction s generalizing i b with
  | nil =>
    rw [put_nil, List.nil_append, ← put_update, put_nil]
    rfl
  | cons d s ih =>
    rw [List.cons_append, ← put_update, ← put_update, ← ih, List.length_cons]
    congr 1
    omega

section
variable [DecidableEq β]

/-- the string at `b`, searched for a terminator `z` over `fuel` cells -/
def stringAt (z : β) : Nat → (Nat → β) → Option (List β)
  | 0, _ => none
  | fuel + 1, b =>
    if b 0 = z then some [] else (stringAt z fuel fun j => b (j + 1)).map (b 0 :: ·)

theorem stringAt_put (b : Nat → β) (h : s.length < fuel) :
    stringAt z fuel (put 0 (s ++ [z]) b) = some (s.takeWhile (· ≠ z)) := by
  induction s generalizing fuel b with
  | nil =>
    obtain ⟨f, rfl⟩ := Nat.exists_eq_add_of_lt h
    exact if_pos rfl
  | cons c s ih =>
    obtain ⟨f, rfl⟩ : ∃ f, fuel = f + 1 := ⟨fuel - 1, by rw [List.length_cons] at h; omega⟩
    have h' : s.length < f := Nat.lt_of_succ_lt_succ h
    by_cases hc : c = z
    · rw [hc, List.takeWhile_cons_of_neg (by simp)]
      exact if_pos rfl
    · have hshift : (fun j => put 0 (c :: s ++ [z]) b (j + 1)) =
          put 0 (s ++ [z]) fun j => b (j + 1) := rfl
      rw [List.takeWhile_cons_of_pos (by simpa using hc)]
      show (if c = z then _ else _) = _
      rw [if_neg hc]
      show (stringAt z f _).map _ = _
      rw [hshift, ih _ h']
      rfl

theorem stringAt_put_of_notMem (hz : z ∉ s) (b : Nat → β) (h : s.length < fuel) :
    stringAt z fuel (put 0 (s ++ [z]) b) = some s := by
  rw [stringAt_put b h]
  congr 1
  apply List.takeWhile_eq_self_iff.mpr
  intro c hc
  rw [decide_eq_true_eq]
  exact ne_of_mem_of_not_mem hc hz

theorem notMem_takeWhile (z : β) (s : List β) : z ∉ s.takeWhile (· ≠ z) := by
  intro h
  have := List.mem_takeWhile_imp h
  exact of_decide_eq_true this rfl

end

end CStrings
