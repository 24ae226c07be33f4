import Mathlib.Algebra.BigOperators.Group.Finset.Piecewise
import Mathlib.Algebra.Order.BigOperators.Group.Finset
import Mathlib.Data.Fintype.Basic
import Mathlib.Tactic.Common

/-!
# Threads: programs that make calls and fork

* `Code ι ρ α`      a program that makes calls `c : ι` with answers in `ρ c`; it may `fork`, which is
                    answered 0 in the child, and it may `halt`;
* `Contract ι ρ κ`  what the environment promises about its answers, where every thread has a record
                    in `κ`, and what must be true of the record when the thread halts;
* `wp C c Q n x`    the **weakest precondition**: a thread with the record `x` that runs `c` keeps the
                    contract `C`, forks at most `n` times with all its descendants, and what it
                    returns meets `Q`;
* `Sound`           every thread of a pool of slots meets its precondition, and there are slots for
                    all the forks that may still come.

`Sound.call`, `Sound.fork` and `Sound.halt` are the rules for the steps of a pool; `Sound.room` says
that a fork never finds it full.
-/

set_option linter.unusedSectionVars false

namespace Threads

inductive Code (ι : Type) (ρ : ι → Type) (α : Type) where
  | ret (a : α)
  | halt
  | call (c : ι) (k : ρ c → Code ι ρ α)
  | fork (k : Int → Code ι ρ α)

variable {ι : Type} {ρ : ι → Type} {α β κ : Type}

namespace Code

def bind : Code ι ρ α → (α → Code ι ρ β) → Code ι ρ β
  | .ret a, f => f a
  | .halt, _ => .halt
  | .call c k, f => .call c fun r => (k r).bind f
  | .fork k, f => .fork fun r => (k r).bind f

instance : Monad (Code ι ρ) where
  pure := .ret
  bind := .bind

end Code

/-- one call -/
def ask (c : ι) : Code ι ρ (ρ c) := .call c .ret

/-- `answers c x r x'`: a thread with the record `x` may get the answer `r` to `c`, and has the
record `x'` from there on.  `born x r x'`: it may get the answer `r` to a fork, for a child with the
record `x'`. -/
structure Contract (ι : Type) (ρ : ι → Type) (κ : Type) where
  answers : (c : ι) → κ → ρ c → κ → Prop
  born : κ → Int → κ → Prop
  finished : κ → Prop

def wp (C : Contract ι ρ κ) : Code ι ρ α → (Nat → κ → α → Prop) → Nat → κ → Prop
  | .ret a, Q, n, x => Q n x a
  | .halt, _, _, x => C.finished x
  | .call c k, Q, n, x => ∀ r x', C.answers c x r x' → wp C (k r) Q n x'
  | .fork k, Q, n, x => ∃ a b, n = a + b + 1 ∧
      ∀ r x', C.born x r x' → wp C (k r) Q a x ∧ wp C (k 0) Q b x'

section
variable {C : Contract ι ρ κ} {Q R : Nat → κ → α → Prop} {n : Nat} {x : κ}

end

/-! ## pools -/

section
variable {θ : Type} [Fintype θ] [DecidableEq θ]

theorem sum_update (f : θ → Nat) (t : θ) (b : Nat) :
    ∑ i, Function.update f t b i + f t = ∑ i, f i + b := by
  have h1 := Finset.sum_update_of_mem (Finset.mem_univ t) f b
  have h2 := Finset.add_sum_erase Finset.univ f (Finset.mem_univ t)
  rw [Finset.sdiff_singleton_eq_erase] at h1
  omega

/-- the slots without a thread -/
def free (code : θ → Option (Code ι ρ α)) : Nat :=
  (Finset.univ.filter fun t => (code t).isNone).card

theorem free_update (code : θ → Option (Code ι ρ α)) (t : θ) (c : Option (Code ι ρ α)) :
    free (Function.update code t c) + (if (code t).isNone then 1 else 0) =
      free code + if c.isNone then 1 else 0 := by
  have hsum : ∀ code : θ → Option (Code ι ρ α), free code = ∑ i, if (code i).isNone then 1 else 0 :=
    fun code => Finset.card_filter ..
  have h := sum_update (fun i => if (code i).isNone then 1 else 0) t (if c.isNone then 1 else 0)
  have he : ∀ i, (if (Function.update code t c i).isNone then 1 else 0) =
      Function.update (fun i => if (code i).isNone then 1 else 0) t (if c.isNone then 1 else 0) i :=
    fun i => Function.apply_update
      (fun _ (c : Option (Code ι ρ α)) => if c.isNone then 1 else 0) code t c i
  rw [hsum, hsum, Finset.sum_congr rfl fun i _ => he i]
  exact h

theorem another_free {code : θ → Option (Code ι ρ α)} (h : 1 < free code) (t : θ) :
    ∃ u, u ≠ t ∧ code u = none := by
  obtain ⟨u, hu, hne⟩ := Finset.exists_mem_ne h t
  exact ⟨u, hne, Option.isNone_iff_eq_none.mp (Finset.mem_filter.mp hu).2⟩

/-- Every thread meets its precondition; at most `left` forks are to come, and with `spare` slots
kept back there is room for them. -/
def Sound (C : Contract ι ρ κ) (Q : Nat → κ → α → Prop) (spare left : Nat)
    (code : θ → Option (Code ι ρ α)) (x : θ → κ) : Prop :=
  ∃ n : θ → Nat, (∀ t c, code t = some c → wp C c Q (n t) (x t)) ∧ ∑ t, n t ≤ left ∧
    ∑ t, n t + spare ≤ free code

namespace Sound
variable {C : Contract ι ρ κ} {Q : Nat → κ → α → Prop} {spare left : Nat}
  {code : θ → Option (Code ι ρ α)} {x y : θ → κ} {t u : θ}

/-- only the records of threads count -/
theorem congr (h : Sound C Q spare left code x) (hxy : ∀ t, code t ≠ none → y t = x t) :
    Sound C Q spare left code y := by
  obtain ⟨n, hw, hleft, hroom⟩ := h
  refine ⟨n, fun t c hc => ?_, hleft, hroom⟩
  rw [hxy t (by rw [hc]; exact Option.some_ne_none c)]
  exact hw t c hc

theorem call (h : Sound C Q spare left code x) {c : ι} {k : ρ c → Code ι ρ α}
    (hc : code t = some (.call c k)) {r : ρ c} {x' : κ} (hr : C.answers c (x t) r x') :
    Sound C Q spare left (Function.update code t (some (k r))) (Function.update x t x') := by
  obtain ⟨n, hw, hleft, hroom⟩ := h
  have hfree := free_update code t (some (k r))
  rw [hc] at hfree
  refine ⟨n, fun u d hd => ?_, hleft, hroom.trans_eq hfree.symm⟩
  by_cases e : u = t
  · subst e
    rw [Function.update_self] at hd ⊢
    exact Option.some.inj hd ▸ hw u _ hc r x' hr
  · rw [Function.update_of_ne e] at hd ⊢
    exact hw u d hd

/-- the budget of a thread that forks -/
theorem fork_budget {n : θ → Nat} (hw : ∀ t c, code t = some c → wp C c Q (n t) (x t))
    {k : Int → Code ι ρ α} (hc : code t = some (.fork k)) : n t ≤ ∑ i, n i ∧ 0 < n t := by
  obtain ⟨a, b, hn, -⟩ := hw t _ hc
  exact ⟨Finset.single_le_sum (fun i _ => Nat.zero_le (n i)) (Finset.mem_univ t), by omega⟩

/-- **A fork never finds the pool full.** -/
theorem room (h : Sound C Q spare left code x) {k : Int → Code ι ρ α}
    (hc : code t = some (.fork k)) : spare < free code ∧ 0 < left := by
  obtain ⟨n, hw, hleft, hroom⟩ := h
  obtain ⟨h1, h2⟩ := fork_budget hw hc
  exact ⟨by omega, by omega⟩

theorem fork (h : Sound C Q spare (left + 1) code x) {k : Int → Code ι ρ α}
    (hc : code t = some (.fork k)) (hu : code u = none) {r : Int} {x' : κ}
    (hr : C.born (x t) r x') :
    Sound C Q spare left (Function.update (Function.update code u (some (k 0))) t (some (k r)))
      (Function.update x u x') := by
  obtain ⟨n, hw, hleft, hroom⟩ := h
  obtain ⟨a, b, hn, hk⟩ := hw t _ hc
  obtain ⟨hparent, hchild⟩ := hk r x' hr
  have hne : t ≠ u := fun e => by
    rw [e, hu] at hc
    cases hc
  refine ⟨Function.update (Function.update n u b) t a, fun v d hd => ?_, ?_, ?_⟩
  · by_cases e : v = t
    · subst e
      rw [Function.update_self] at hd ⊢
      rw [Function.update_of_ne hne]
      exact Option.some.inj hd ▸ hparent
    · rw [Function.update_of_ne e] at hd ⊢
      by_cases e' : v = u
      · subst e'
        rw [Function.update_self] at hd ⊢
        rw [Function.update_self]
        exact Option.some.inj hd ▸ hchild
      · rw [Function.update_of_ne e'] at hd ⊢
        rw [Function.update_of_ne e']
        exact hw v d hd
  all_goals
    have h1 := sum_update n u b
    have h2 := sum_update (Function.update n u b) t a
    rw [Function.update_of_ne hne] at h2
    have h3 := free_update code u (some (k 0))
    have h4 := free_update (Function.update code u (some (k 0))) t (some (k r))
    rw [Function.update_of_ne hne, hc] at h4
    rw [hu] at h3
    simp only [Option.isNone_some, Option.isNone_none, if_true, if_false, Bool.false_eq_true]
      at h3 h4
    omega

theorem halt (h : Sound C Q spare left code x) (hc : code t = some .halt) :
    C.finished (x t) ∧ Sound C Q spare left (Function.update code t none) x := by
  obtain ⟨n, hw, hleft, hroom⟩ := h
  have hfree := free_update code t none
  rw [hc] at hfree
  simp only [Option.isNone_some, Option.isNone_none, if_true, if_false, Bool.false_eq_true] at hfree
  refine ⟨hw t _ hc, n, fun u d hd => ?_, hleft, by omega⟩
  by_cases e : u = t
  · rw [e, Function.update_self] at hd
    cases hd
  · rw [Function.update_of_ne e] at hd
    exact hw u d hd

/-- the first thread -/
theorem start {c : Code ι ρ α} (hw : wp C c Q left (x t)) (hroom : left + spare + 1 ≤ Fintype.card θ) :
    Sound C Q spare left (Function.update (fun _ => none) t (some c)) x := by
  refine ⟨Function.update (fun _ => 0) t left, fun u d hd => ?_, ?_, ?_⟩
  · by_cases e : u = t
    · subst e
      rw [Function.update_self] at hd ⊢
      exact Option.some.inj hd ▸ hw
    · rw [Function.update_of_ne e] at hd
      cases hd
  all_goals
    have h1 := sum_update (fun _ : θ => 0) t left
    have h2 := free_update (fun _ : θ => (none : Option (Code ι ρ α))) t (some c)
    have h3 : free (fun _ : θ => (none : Option (Code ι ρ α))) = Fintype.card θ :=
      congrArg Finset.card (Finset.filter_true_of_mem fun _ _ => rfl)
    simp only [Option.isNone_some, Option.isNone_none, if_true, if_false, Bool.false_eq_true,
      Finset.sum_const_zero] at h1 h2
    omega

end Sound

end

end Threads
