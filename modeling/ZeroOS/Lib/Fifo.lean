import Mathlib.Algebra.Ring.Nat
import Mathlib.Data.List.Nodup
import ZeroOS.Lib.Runs

/-!
# First in, first out

* `Stamps τ`          a history of the joins of a queue: `stamp t` is the number of the last join
                      of `t`, `next` the number of the next one;
* `Stamps.Orders`     the queue `l` is in the order of the stamps;
* `Serves l en l' x`  the elements `en` join the tail of `l`, and then the head may leave to be `x`;
* `ahead t l`         who waits in front of `t`;
* `waiting`           the ticks until `t` is served, where every element is served for a slice;
* `no_overtaking`     in a system whose steps are such, of two elements that wait the first one is
                      served first.
-/

set_option linter.unusedSectionVars false

namespace Fifo
open Runs List

variable {τ σ ε : Type*} [DecidableEq τ]

/-! ## stamps -/

structure Stamps (τ : Type*) where
  next : Nat
  stamp : τ → Nat

def Stamps.join (h : Stamps τ) (t : τ) : Stamps τ :=
  ⟨h.next + 1, Function.update h.stamp t h.next⟩

def Stamps.joinAll (h : Stamps τ) (l : List τ) : Stamps τ := l.foldl Stamps.join h

structure Stamps.Orders (h : Stamps τ) (l : List τ) : Prop where
  sorted : l.Pairwise fun a b => h.stamp a < h.stamp b
  below : ∀ a ∈ l, h.stamp a < h.next

variable {h : Stamps τ} {l l' en : List τ} {a b t x : τ}

theorem Stamps.Orders.nil (h : Stamps τ) : h.Orders [] := ⟨.nil, fun _ ha => (nomatch ha)⟩

theorem Stamps.Orders.sublist (hl : h.Orders l) (hs : l' <+ l) : h.Orders l' :=
  ⟨hl.sorted.sublist hs, fun a ha => hl.below a (hs.subset ha)⟩

theorem Stamps.Orders.join (hl : h.Orders l) (ht : t ∉ l) : (h.join t).Orders (l ++ [t]) := by
  have hold : ∀ a ∈ l, (h.join t).stamp a = h.stamp a := by
    intro a ha
    have hne : a ≠ t := fun e => ht (e ▸ ha)
    exact Function.update_of_ne hne ..
  have hnew : (h.join t).stamp t = h.next := Function.update_self ..
  refine ⟨pairwise_append.mpr ⟨?_, pairwise_singleton .., fun a ha b hb => ?_⟩, fun a ha => ?_⟩
  · exact hl.sorted.imp_of_mem fun ha hb hab => by rwa [hold _ ha, hold _ hb]
  · rw [mem_singleton.mp hb, hold a ha, hnew]
    exact hl.below a ha
  · rcases mem_append.mp ha with ha | ha
    · rw [hold a ha]
      exact Nat.lt_succ_of_lt (hl.below a ha)
    · rw [mem_singleton.mp ha, hnew]
      exact Nat.lt_succ_self _

/-- joins at the tail keep the order -/
theorem Stamps.Orders.joinAll (hl : h.Orders l) (hn : (l ++ en).Nodup) :
    (h.joinAll en).Orders (l ++ en) := by
  induction en generalizing h l with
  | nil => rwa [append_nil]
  | cons t en ih =>
    rw [append_cons] at hn ⊢
    have ht : t ∉ l := fun hm =>
      (nodup_append.mp hn.of_append_left).2.2 t hm t (mem_singleton_self t) rfl
    exact ih (hl.join ht) hn

/-- who joined earlier waits in front -/
theorem Stamps.Orders.before (hl : h.Orders l) (ha : a ∈ l) (hb : b ∈ l)
    (hab : h.stamp a < h.stamp b) : [a, b] <+ l := by
  induction l with
  | nil => exact (nomatch ha)
  | cons t l ih =>
    have hs := pairwise_cons.mp hl.sorted
    rcases mem_cons.mp hb with rfl | hb'
    · rcases mem_cons.mp ha with rfl | ha'
      · exact absurd hab (Nat.lt_irrefl _)
      · exact absurd (hs.1 a ha') (Nat.not_lt.mpr (Nat.le_of_lt hab))
    · rcases mem_cons.mp ha with rfl | ha'
      · exact (singleton_sublist.mpr hb').cons_cons a
      · exact (ih (hl.sublist (sublist_cons_self t l)) ha' hb').cons t

/-! ## service -/

inductive Serves (l en l' : List τ) (x : τ) : Prop where
  | wait : l' = l ++ en → Serves l en l' x
  | serve : l ++ en = x :: l' → Serves l en l' x
  | none : l ++ en = [] → l' = [] → Serves l en l' x

theorem Serves.sublist (hs : Serves l en l' x) : l' <+ l ++ en := by
  cases hs with
  | wait h => exact h ▸ Sublist.refl _
  | serve h => exact h ▸ sublist_cons_self ..
  | none _ h => exact h ▸ nil_sublist _

/-- two elements keep their order until the first one is served -/
theorem Serves.step (hs : Serves l en l' x) (hab : [a, b] <+ l) : x = a ∨ [a, b] <+ l' := by
  have hR : [a, b] <+ l ++ en := hab.trans (sublist_append_left ..)
  cases hs with
  | wait h => exact Or.inr (h ▸ hR)
  | serve h =>
    by_cases e : x = a
    · exact Or.inl e
    · rw [h] at hR
      exact Or.inr (Sublist.of_cons_of_ne (Ne.symm e) hR)
  | none h _ => exact (nomatch h ▸ hR)

/-! ## slices -/

def ahead (t : τ) (l : List τ) : List τ := l.takeWhile (· ≠ t)

theorem ahead_subset (t : τ) (l : List τ) : ahead t l ⊆ l := (takeWhile_sublist _).subset

theorem ahead_append (ht : t ∈ l) (en : List τ) : ahead t (l ++ en) = ahead t l := by
  induction l with
  | nil => exact absurd ht not_mem_nil
  | cons x l ih =>
    unfold ahead at *
    by_cases hx : x = t
    · rw [cons_append, takeWhile_cons_of_neg (by simpa using hx),
        takeWhile_cons_of_neg (by simpa using hx)]
    · rw [cons_append, takeWhile_cons_of_pos (by simpa using hx),
        takeWhile_cons_of_pos (by simpa using hx), ih ((mem_cons.mp ht).resolve_left (Ne.symm hx))]

theorem ahead_cons (hx : x ≠ t) (l : List τ) : ahead t (x :: l) = x :: ahead t l :=
  takeWhile_cons_of_pos (by simpa using hx)

/-- the one that is served has `n` ticks left, and `x` will be served for `slice x` -/
def waiting (slice : τ → Nat) (n : Nat) (t : τ) (l : List τ) : Nat :=
  n + ((ahead t l).map slice).sum

variable {slice : τ → Nat} {n : Nat}

theorem waiting_congr {slice' : τ → Nat} (h : ∀ x ∈ l, slice' x = slice x) :
    waiting slice' n t l = waiting slice n t l := by
  unfold waiting
  rw [map_congr_left fun x hx => h x (ahead_subset t l hx)]

theorem waiting_wait (ht : t ∈ l) (en : List τ) (slice : τ → Nat) (n k : Nat) :
    waiting slice n t (l ++ en) + k = waiting slice (n + k) t l := by
  unfold waiting
  rw [ahead_append ht]
  omega

/-- the next slice begins -/
theorem waiting_serve (slice : τ → Nat) (n : Nat) (ht : t ∈ l) (h : l ++ en = x :: l') (hx : x ≠ t) :
    t ∈ l' ∧ waiting slice (slice x) t l' + n = waiting slice n t l := by
  have hmem : t ∈ x :: l' := h ▸ mem_append_left en ht
  refine ⟨(mem_cons.mp hmem).resolve_left (Ne.symm hx), ?_⟩
  unfold waiting
  rw [← ahead_append ht en, h, ahead_cons hx, map_cons, sum_cons]
  omega

theorem sum_map_le {m : Nat} (hs : ∀ x ∈ l, slice x ≤ m) : (l.map slice).sum ≤ m * l.length := by
  induction l with
  | nil => exact Nat.zero_le _
  | cons x l ih =>
    have hx := hs x mem_cons_self
    have hl := ih fun y hy => hs y (mem_cons_of_mem x hy)
    rw [map_cons, sum_cons, length_cons, Nat.mul_add, Nat.mul_one]
    omega

theorem waiting_le {m : Nat} (hn : n ≤ m) (hs : ∀ x ∈ l, slice x ≤ m) :
    waiting slice n t l ≤ m * ((ahead t l).length + 1) := by
  have hsum : ((ahead t l).map slice).sum ≤ m * (ahead t l).length :=
    sum_map_le fun x hx => hs x (ahead_subset t l hx)
  unfold waiting
  rw [Nat.mul_add, Nat.mul_one]
  omega

/-! ## the order of service -/

/-- **No overtaking.** -/
theorem no_overtaking {step : σ → ε → Option σ} {I : σ → Prop} (line : σ → List τ)
    (server : σ → τ) (hI : ∀ s e s', I s → step s e = some s' → I s')
    (hs : ∀ s e s', I s → step s e = some s' → ∃ en, Serves (line s) en (line s') (server s'))
    (hn : ∀ s, I s → server s ∉ line s ∧ (line s).Nodup) {s s' : σ} (h : I s)
    (hab : [a, b] <+ line s) {es : List ε} (hr : run step s es = some s') (hb : server s' = b) :
    ∃ es₁ es₂ s₁, es = es₁ ++ es₂ ∧ es₂ ≠ [] ∧ run step s es₁ = some s₁ ∧ server s₁ = a := by
  induction es generalizing s with
  | nil =>
    obtain rfl := Option.some.inj hr
    refine absurd (hab.subset ?_) (hb ▸ (hn s h).1)
    exact mem_cons_of_mem a (mem_singleton_self b)
  | cons e es ih =>
    obtain ⟨s₁, he, hr₁⟩ := Option.bind_eq_some_iff.mp hr
    have h₁ := hI s e s₁ h he
    obtain ⟨en, hsv⟩ := hs s e s₁ h he
    rcases hsv.step hab with ha | hab₁
    · refine ⟨[e], es, s₁, rfl, fun hnil => ?_, ?_, ha⟩
      · -- the last step does not serve both
        subst hnil
        obtain rfl := Option.some.inj hr₁
        have hne : a ∉ [b] := (nodup_cons.mp (hab.nodup (hn s h).2)).1
        exact hne (mem_singleton.mpr (ha.symm.trans hb))
      · rw [run_cons, he]
        rfl
    · obtain ⟨es₁, es₂, s₂, rfl, h2, hr₂, ha⟩ := ih h₁ hab₁ hr₁
      refine ⟨e :: es₁, es₂, s₂, rfl, h2, ?_, ha⟩
      rw [run_cons, he]
      exact hr₂

end Fifo
