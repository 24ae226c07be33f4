import Mathlib.Logic.Function.Basic
import Mathlib.Tactic.Common

/-!
# Memories of processes over common pages

Processes `t : τ` read and write bytes at the addresses `κ`.  The addresses in `C` are common to
all of them; at the others each process has a byte of its own.

* `Memory.read C m t a`   what `t` reads at `a`;
* `Memory.patch m t f`    `t` writes `f a` at every address `a` where `f` has a byte;
* `Memory.copy m t u`     `u` starts with the own bytes of `t`;
* `poke`, `fill`          the patch of one byte, and of bytes in a row;
* `layered fs a b`        the byte `b` at `a` after the patches `fs`.

`Memory.read_patch` and `Memory.read_copy` say who reads what afterwards.
-/

namespace Spaces

structure Memory (τ κ β : Type*) where
  common : κ → β
  own : τ → κ → β

variable {τ κ β : Type*} [DecidableEq τ] {C : κ → Prop} [DecidablePred C]

def Memory.read (C : κ → Prop) [DecidablePred C] (m : Memory τ κ β) (t : τ) (a : κ) : β :=
  if C a then m.common a else m.own t a

/-- Both parts are written: only one of them is read at `a`. -/
def Memory.patch (m : Memory τ κ β) (t : τ) (f : κ → Option β) : Memory τ κ β where
  common a := (f a).getD (m.common a)
  own := Function.update m.own t fun a => (f a).getD (m.own t a)

def Memory.copy (m : Memory τ κ β) (t u : τ) : Memory τ κ β :=
  { m with own := Function.update m.own u (m.own t) }

/-- a patch is seen by its process, and by the others at the common addresses -/
theorem Memory.read_patch (m : Memory τ κ β) (t u : τ) (f : κ → Option β) (a : κ) :
    (m.patch t f).read C u a =
      if C a ∨ u = t then (f a).getD (m.read C u a) else m.read C u a := by
  unfold Memory.read Memory.patch
  by_cases hc : C a
  · rw [if_pos hc, if_pos hc, if_pos (Or.inl hc)]
  · rw [if_neg hc, if_neg hc]
    show Function.update m.own t (fun a => (f a).getD (m.own t a)) u a = _
    by_cases hu : u = t
    · subst hu
      rw [if_pos (Or.inr rfl), Function.update_self]
    · rw [if_neg (not_or.mpr ⟨hc, hu⟩), Function.update_of_ne hu]

theorem Memory.patch_none (m : Memory τ κ β) (t : τ) : m.patch t (fun _ => none) = m := by
  have hown : Function.update m.own t (fun a => m.own t a) = m.own := Function.update_eq_self t m.own
  unfold Memory.patch
  simp only [Option.getD_none, hown]

theorem Memory.read_copy (m : Memory τ κ β) (t u v : τ) (a : κ) :
    (m.copy t u).read C v a = m.read C (if v = u then t else v) a := by
  unfold Memory.read Memory.copy
  by_cases hc : C a
  · rw [if_pos hc, if_pos hc]
  · rw [if_neg hc, if_neg hc]
    show Function.update m.own u (m.own t) v a = _
    by_cases hv : v = u
    · subst hv
      rw [if_pos rfl, Function.update_self]
    · rw [if_neg hv, Function.update_of_ne hv]

/-! ## patches -/

def layered (fs : List (κ → Option β)) (a : κ) (b : β) : β := fs.foldl (fun b f => (f a).getD b) b

theorem layered_cons (f : κ → Option β) (fs : List (κ → Option β)) (a : κ) :
    layered (f :: fs) a = layered fs a ∘ fun b => (f a).getD b := rfl

variable [DecidableEq κ]

def poke (a : κ) (b : β) : κ → Option β := Function.update (fun _ => none) a (some b)

/-- the bytes `obj 0`, .., `obj (n - 1)` from the address `p` on -/
def fill (p n : Nat) (obj : Nat → β) (a : Nat) : Option β :=
  if p ≤ a ∧ a < p + n then some (obj (a - p)) else none

theorem poke_getD (a v : κ) (b x : β) : (poke a b v).getD x = if v = a then b else x := by
  unfold poke
  rw [Function.update_apply]
  by_cases h : v = a
  · rw [if_pos h, if_pos h]
    rfl
  · rw [if_neg h, if_neg h]
    rfl

theorem fill_getD (p n : Nat) (obj : Nat → β) (a : Nat) (x : β) :
    (fill p n obj a).getD x = if p ≤ a ∧ a < p + n then obj (a - p) else x := by
  unfold fill
  by_cases h : p ≤ a ∧ a < p + n
  · rw [if_pos h, if_pos h]
    rfl
  · rw [if_neg h, if_neg h]
    rfl

end Spaces
