import Mathlib.Data.List.Nodup
import Mathlib.Data.List.Basic
import Mathlib.Logic.Function.Basic

/-!
# Rings: circular doubly linked lists on a heap

A heap gives every address two links.  Nothing here knows what an address is.

* `Seg h a l b`      the cells `l` hang between `a` and `b`, linked both ways;
* `Ring h a l`       `l` hangs between the head `a` and itself, without repetition;
* `Family h hd Q`    for every index `i`, a ring with head `hd i` and cells `Q i`, all apart;
* `insert`, `bypass` the link writes that put a cell between two neighbours and take one out.

`Family.insert_front`, `Family.insert_back` and `Family.bypass` say what the writes do to the
sequences; `Family.congr` is the frame rule: cells outside every ring may be overwritten.
`walk` follows `next` from the head and reads the sequence back (`Ring.walk_eq`).
-/

namespace Rings
variable {α ι : Type*}

structure Heap (α : Type*) where
  next : α → α
  prev : α → α

section
variable [DecidableEq α]

def Heap.setNext (h : Heap α) (a b : α) : Heap α := { h with next := Function.update h.next a b }
def Heap.setPrev (h : Heap α) (a b : α) : Heap α := { h with prev := Function.update h.prev a b }

@[simp] theorem Heap.setNext_next (h : Heap α) (a b x : α) :
    (h.setNext a b).next x = if x = a then b else h.next x := Function.update_apply ..
@[simp] theorem Heap.setNext_prev (h : Heap α) (a b : α) : (h.setNext a b).prev = h.prev := rfl
@[simp] theorem Heap.setPrev_prev (h : Heap α) (a b x : α) :
    (h.setPrev a b).prev x = if x = a then b else h.prev x := Function.update_apply ..
@[simp] theorem Heap.setPrev_next (h : Heap α) (a b : α) : (h.setPrev a b).next = h.next := rfl

/-- put the cell `n` between the neighbours `p` and `q` -/
def insert (h : Heap α) (n p q : α) : Heap α :=
  (((h.setPrev q n).setNext n q).setPrev n p).setNext p n

/-- make the neighbours `p` and `q` point at each other -/
def bypass (h : Heap α) (p q : α) : Heap α := (h.setPrev q p).setNext p q

end

/-! ## segments -/

def Seg (h : Heap α) : α → List α → α → Prop
  | a, [], b => h.next a = b ∧ h.prev b = a
  | a, x :: l, b => h.next a = x ∧ h.prev x = a ∧ Seg h x l b

instance Seg.decidable [DecidableEq α] (h : Heap α) :
    ∀ (a : α) (l : List α) (b : α), Decidable (Seg h a l b)
  | a, [], b => inferInstanceAs (Decidable (h.next a = b ∧ h.prev b = a))
  | a, x :: l, b =>
    have := Seg.decidable h x l b
    inferInstanceAs (Decidable (h.next a = x ∧ h.prev x = a ∧ Seg h x l b))

theorem seg_append (h : Heap α) (a : α) (l : List α) (x : α) (r : List α) (b : α) :
    Seg h a (l ++ x :: r) b ↔ Seg h a l x ∧ Seg h x r b := by
  induction l generalizing a with
  | nil => exact and_assoc.symm
  | cons y l ih =>
    show h.next a = y ∧ h.prev y = a ∧ Seg h y (l ++ x :: r) b ↔
      (h.next a = y ∧ h.prev y = a ∧ Seg h y l x) ∧ Seg h x r b
    rw [ih, and_assoc, and_assoc]

/-- a segment reads `next` at `a` and in `l`, and `prev` in `l` and at `b` -/
theorem Seg.congr {h h' : Heap α} {a b : α} {l : List α} (hs : Seg h a l b)
    (hn : ∀ x ∈ a :: l, h'.next x = h.next x) (hp : ∀ x ∈ l ++ [b], h'.prev x = h.prev x) :
    Seg h' a l b := by
  induction l generalizing a with
  | nil => exact ⟨(hn a (by simp)).trans hs.1, (hp b (by simp)).trans hs.2⟩
  | cons y l ih =>
    obtain ⟨h1, h2, h3⟩ := hs
    refine ⟨(hn a (by simp)).trans h1, (hp y (by simp)).trans h2, ih h3 ?_ ?_⟩
    · exact fun x hx => hn x (List.mem_cons_of_mem _ hx)
    · exact fun x hx => hp x (List.mem_cons_of_mem _ hx)

/-- the far end of a segment is linked back to its last cell -/
theorem Seg.prev_end {h : Heap α} {a b : α} {l : List α} (hs : Seg h a l b) :
    h.prev b = (a :: l).getLast (List.cons_ne_nil _ _) := by
  induction l generalizing a with
  | nil => exact hs.2
  | cons y l ih => exact ih hs.2.2

theorem Seg.next_start {h : Heap α} {a b : α} {l : List α} (hs : Seg h a l b) :
    h.next a = l.headD b := by
  cases l with
  | nil => exact hs.1
  | cons y l => exact hs.1

/-- move the far end of a segment: only the last `next` and the `prev` of the new end count -/
theorem Seg.retarget {h h' : Heap α} {a b c : α} {l : List α} (hs : Seg h a l b)
    (hnd : (a :: l).Nodup) (hlast : h'.next (h.prev b) = c) (hc : h'.prev c = h.prev b)
    (hn : ∀ x ∈ a :: l, x ≠ h.prev b → h'.next x = h.next x)
    (hp : ∀ x ∈ l, h'.prev x = h.prev x) : Seg h' a l c := by
  induction l generalizing a with
  | nil =>
    have e : h.prev b = a := hs.2
    rw [e] at hlast hc
    exact ⟨hlast, hc⟩
  | cons y l ih =>
    obtain ⟨h1, h2, h3⟩ := hs
    have hnd' := (List.nodup_cons.mp hnd).2
    -- `a` is not the last cell: the last one is in `y :: l`
    have hne : a ≠ h.prev b := by
      rw [h3.prev_end]
      exact fun e => (List.nodup_cons.mp hnd).1 (e ▸ List.getLast_mem _)
    refine ⟨(hn a (by simp) hne).trans h1, (hp y (by simp)).trans h2, ih h3 hnd' ?_ ?_⟩
    · exact fun x hx => hn x (List.mem_cons_of_mem _ hx)
    · exact fun x hx => hp x (List.mem_cons_of_mem _ hx)

/-- move the near end of a segment -/
theorem Seg.restart {h h' : Heap α} {a b c : α} {l : List α} (hs : Seg h a l b)
    (hnd : (l ++ [b]).Nodup) (hfirst : h'.next c = h.next a) (hc : h'.prev (h.next a) = c)
    (hn : ∀ x ∈ l, h'.next x = h.next x)
    (hp : ∀ x ∈ l ++ [b], x ≠ h.next a → h'.prev x = h.prev x) : Seg h' c l b := by
  cases l with
  | nil =>
    have e : h.next a = b := hs.1
    rw [e] at hfirst hc
    exact ⟨hfirst, hc⟩
  | cons y l =>
    obtain ⟨h1, h2, h3⟩ := hs
    rw [h1] at hfirst hc hp
    refine ⟨hfirst, hc, h3.congr hn fun x hx => hp x (List.mem_cons_of_mem _ hx) ?_⟩
    exact fun e => (List.nodup_cons.mp hnd).1 (e ▸ hx)

/-! ## rings -/

def Ring (h : Heap α) (a : α) (l : List α) : Prop := Seg h a l a ∧ (a :: l).Nodup

theorem Ring.seg_nodup {h : Heap α} {a : α} {l : List α} (hr : Ring h a l) : (l ++ [a]).Nodup :=
  (List.perm_append_singleton a l).nodup_iff.mpr hr.2

theorem Ring.congr {h h' : Heap α} {a : α} {l : List α} (hr : Ring h a l)
    (hn : ∀ x ∈ a :: l, h'.next x = h.next x) (hp : ∀ x ∈ a :: l, h'.prev x = h.prev x) :
    Ring h' a l := by
  refine ⟨hr.1.congr hn fun x hx => hp x ?_, hr.2⟩
  rcases List.mem_append.mp hx with h1 | h1
  · exact List.mem_cons_of_mem _ h1
  · exact List.mem_singleton.mp h1 ▸ List.mem_cons_self

theorem Ring.next_head {h : Heap α} {a : α} {l : List α} (hr : Ring h a l) :
    h.next a = l.headD a := hr.1.next_start

theorem Ring.next_mem {h : Heap α} {a n : α} {l : List α} (hr : Ring h a l) (hn : n ∈ l) :
    h.next n ∈ a :: l := by
  obtain ⟨p, r, rfl⟩ := List.append_of_mem hn
  obtain ⟨-, hs⟩ := (seg_append h a p n r a).mp hr.1
  rw [hs.next_start]
  cases r with
  | nil => exact List.mem_cons_self
  | cons y r => simp

/-- the last cell points at the head, and no other cell does -/
theorem Ring.next_eq_head_iff {h : Heap α} {a n : α} {l : List α} (hr : Ring h a l) (hn : n ∈ l) :
    h.next n = a ↔ l.getLast? = some n := by
  obtain ⟨p, r, rfl⟩ := List.append_of_mem hn
  obtain ⟨-, hs⟩ := (seg_append h a p n r a).mp hr.1
  obtain ⟨ha, hnd⟩ := List.nodup_cons.mp hr.2
  cases r with
  | nil => exact iff_of_true hs.1 List.getLast?_concat
  | cons y r =>
    refine iff_of_false (fun e => ?_) fun e => ?_
    · refine ha ?_
      rw [← e, hs.1]
      simp
    · have hlast : (y :: r).getLast? = some n := by
        rw [List.getLast?_append, List.getLast?_cons_cons] at e
        cases hy : (y :: r).getLast? with
        | none => simp at hy
        | some z =>
          rw [hy] at e
          exact e
      have h1 := (List.nodup_append.mp hnd).2.1
      exact (List.nodup_cons.mp h1).1 (List.mem_of_getLast? hlast)

/-- the head points at itself exactly if the ring is empty -/
theorem Ring.next_head_eq_iff {h : Heap α} {a : α} {l : List α} (hr : Ring h a l) :
    h.next a = a ↔ l = [] := by
  rw [hr.next_head]
  cases l with
  | nil => simp
  | cons y l =>
    have hne : y ≠ a := fun e => (List.nodup_cons.mp hr.2).1 (e ▸ List.mem_cons_self)
    simp [hne]

section
variable [DecidableEq α]

theorem insert_next (h : Heap α) (n p q x : α) :
    (insert h n p q).next x = if x = p then n else if x = n then q else h.next x := by
  simp [insert]

theorem insert_prev (h : Heap α) (n p q x : α) :
    (insert h n p q).prev x = if x = n then p else if x = q then n else h.prev x := by
  simp [insert]

theorem bypass_next (h : Heap α) (p q x : α) :
    (bypass h p q).next x = if x = p then q else h.next x := by simp [bypass]

theorem bypass_prev (h : Heap α) (p q x : α) :
    (bypass h p q).prev x = if x = q then p else h.prev x := by simp [bypass]

theorem Ring.insert_front {h : Heap α} {a n : α} {l : List α} (hr : Ring h a l)
    (hn : n ∉ a :: l) : Ring (insert h n a (h.next a)) a (n :: l) := by
  have hna : n ≠ a := fun e => hn (e ▸ List.mem_cons_self)
  have hnl : ∀ x ∈ l, x ≠ n := fun x hx e => hn (e ▸ List.mem_cons_of_mem _ hx)
  have hal : ∀ x ∈ l, x ≠ a := fun x hx e => (List.nodup_cons.mp hr.2).1 (e ▸ hx)
  refine ⟨⟨by simp [insert_next], by simp [insert_prev], ?_⟩, ?_⟩
  · refine hr.1.restart hr.seg_nodup ?_ ?_ ?_ ?_
    · simp [insert_next, hna]
    · have hne : h.next a ≠ n := by
        rw [hr.next_head]
        cases l with
        | nil => exact hna.symm
        | cons y l => exact hnl y List.mem_cons_self
      simp [insert_prev, hne]
    · intro x hx
      simp [insert_next, hal x hx, hnl x hx]
    · intro x hx hne
      have hxn : x ≠ n := by
        rcases List.mem_append.mp hx with h1 | h1
        · exact hnl x h1
        · rw [List.mem_singleton.mp h1]; exact hna.symm
      simp [insert_prev, hxn, hne]
  · have h1 := List.nodup_cons.mp hr.2
    refine List.nodup_cons.mpr ⟨?_, List.nodup_cons.mpr ⟨?_, h1.2⟩⟩
    · rintro (_ | ⟨_, hx⟩)
      · exact hna rfl
      · exact h1.1 hx
    · exact fun hx => hn (List.mem_cons_of_mem _ hx)

theorem Ring.insert_back {h : Heap α} {a n : α} {l : List α} (hr : Ring h a l)
    (hn : n ∉ a :: l) : Ring (insert h n (h.prev a) a) a (l ++ [n]) := by
  have hna : n ≠ a := fun e => hn (e ▸ List.mem_cons_self)
  have hnl : ∀ x ∈ l, x ≠ n := fun x hx e => hn (e ▸ List.mem_cons_of_mem _ hx)
  have hal : ∀ x ∈ l, x ≠ a := fun x hx e => (List.nodup_cons.mp hr.2).1 (e ▸ hx)
  have hlast : h.prev a ∈ a :: l := hr.1.prev_end ▸ List.getLast_mem _
  have hne : n ≠ h.prev a := fun e => hn (e ▸ hlast)
  constructor
  · rw [seg_append]
    refine ⟨hr.1.retarget hr.2 ?_ ?_ ?_ ?_, ?_, ?_⟩
    · simp [insert_next]
    · simp [insert_prev]
    · intro x hx hxl
      have hxn : x ≠ n := fun e => hn (e ▸ hx)
      simp [insert_next, hxl, hxn]
    · intro x hx
      simp [insert_prev, hnl x hx, hal x hx]
    · simp [insert_next, hne]
    · simp [insert_prev, hna.symm]
  · have h1 := List.nodup_cons.mp hr.2
    refine List.nodup_cons.mpr ⟨?_, List.nodup_append.mpr ⟨h1.2, by simp, ?_⟩⟩
    · simp [h1.1, hna.symm]
    · intro x hx y hy
      rw [List.mem_singleton.mp hy]
      exact hnl x hx

theorem Ring.bypass {h : Heap α} {a n : α} {l r : List α} (hr : Ring h a (l ++ n :: r)) :
    Ring (bypass h (h.prev n) (h.next n)) a (l ++ r) := by
  obtain ⟨hs, hnd⟩ := hr
  obtain ⟨hl, hrr⟩ := (seg_append h a l n r a).mp hs
  have hnd1 : (a :: l).Nodup := hnd.sublist (by simp)
  have hnd2 : (n :: r).Nodup := hnd.sublist (by simp)
  have hap : ∀ x ∈ a :: l, x ∉ n :: r := by
    have h1 : (a :: l ++ n :: r).Nodup := hnd
    exact fun x hx hx' => (List.nodup_append.mp h1).2.2 x hx x hx' rfl
  have hlast : h.prev n ∈ a :: l := hl.prev_end ▸ List.getLast_mem _
  refine ⟨?_, hnd.sublist (by simp)⟩
  cases r with
  | nil =>
    have e : h.next n = a := hrr.1
    rw [e, List.append_nil]
    refine hl.retarget hnd1 (by simp [bypass_next]) (by simp [bypass_prev]) ?_ ?_
    · intro x _ hx
      simp [bypass_next, hx]
    · intro x hx
      have hxa : x ≠ a := fun e => (List.nodup_cons.mp hnd1).1 (e ▸ hx)
      simp [bypass_prev, hxa]
  | cons y r =>
    have e : h.next n = y := hrr.1
    rw [e, seg_append]
    constructor
    · refine hl.retarget hnd1 (by simp [bypass_next]) (by simp [bypass_prev]) ?_ ?_
      · intro x _ hx
        simp [bypass_next, hx]
      · intro x hx
        have hxy : x ≠ y := fun e => hap x (List.mem_cons_of_mem _ hx) (by simp [e])
        simp [bypass_prev, hxy]
    · refine hrr.2.2.congr ?_ ?_
      · intro x hx
        have hxp : x ≠ h.prev n := fun e => hap _ hlast (e ▸ List.mem_cons_of_mem _ hx)
        simp [bypass_next, hxp]
      · intro x hx
        have hxy : x ≠ y := by
          rcases List.mem_append.mp hx with h1 | h1
          · exact fun e => (List.nodup_cons.mp (List.nodup_cons.mp hnd2).2).1 (e ▸ h1)
          · rw [List.mem_singleton.mp h1]
            exact fun e => hap a List.mem_cons_self (by simp [e])
        simp [bypass_prev, hxy]

end

/-! ## reading a ring back -/

section
variable [DecidableEq α]

/-- follow `next` from `x` until the head, at most `n` cells -/
def walk (h : Heap α) (a : α) : Nat → α → List α
  | 0, _ => []
  | n + 1, x => if x = a then [] else x :: walk h a n (h.next x)

theorem walk_seg {h : Heap α} {a x : α} {l : List α} (hs : Seg h x l a) (ha : a ∉ l) {n : Nat}
    (hn : l.length ≤ n) : walk h a n (h.next x) = l := by
  induction l generalizing x n with
  | nil =>
    cases n with
    | zero => rfl
    | succ n => exact if_pos hs.1
  | cons y l ih =>
    obtain ⟨h1, -, h3⟩ := hs
    cases n with
    | zero => simp at hn
    | succ n =>
      have hya : y ≠ a := fun e => ha (e ▸ List.mem_cons_self)
      have hn' : l.length ≤ n := Nat.le_of_succ_le_succ hn
      rw [h1, walk, if_neg hya, ih h3 (fun hx => ha (List.mem_cons_of_mem _ hx)) hn']

theorem Ring.walk_eq {h : Heap α} {a : α} {l : List α} (hr : Ring h a l) {n : Nat}
    (hn : l.length ≤ n) : walk h a n (h.next a) = l :=
  walk_seg hr.1 (List.nodup_cons.mp hr.2).1 hn

end

/-! ## families of rings on one heap -/

structure Family (h : Heap α) (hd : ι → α) (Q : ι → List α) : Prop where
  ring : ∀ i, Ring h (hd i) (Q i)
  apart : ∀ i j, i ≠ j → ∀ x ∈ hd i :: Q i, x ∉ hd j :: Q j

/-- the frame rule: cells of no ring may be overwritten -/
theorem Family.congr {h h' : Heap α} {hd : ι → α} {Q : ι → List α} (hF : Family h hd Q)
    (hc : ∀ i, ∀ x ∈ hd i :: Q i, h'.next x = h.next x ∧ h'.prev x = h.prev x) :
    Family h' hd Q :=
  ⟨fun i => (hF.ring i).congr (fun x hx => (hc i x hx).1) (fun x hx => (hc i x hx).2), hF.apart⟩

section
variable [DecidableEq ι]

/-- replace one ring; the cells of the other rings keep their links -/
theorem Family.update {h h' : Heap α} {hd : ι → α} {Q : ι → List α} {i : ι} {l : List α}
    (hF : Family h hd Q) (hr : Ring h' (hd i) l)
    (hl : ∀ x ∈ l, x ∈ Q i ∨ ∀ j, x ∉ hd j :: Q j)
    (hc : ∀ j, j ≠ i → ∀ x ∈ hd j :: Q j, h'.next x = h.next x ∧ h'.prev x = h.prev x) :
    Family h' hd (Function.update Q i l) := by
  -- a cell of the new ring lies in no other ring
  have hap : ∀ j, j ≠ i → ∀ x ∈ hd i :: l, x ∉ hd j :: Q j := by
    intro j hj x hx
    rcases List.mem_cons.mp hx with rfl | hx
    · exact hF.apart i j hj.symm _ List.mem_cons_self
    · rcases hl x hx with h1 | h1
      · exact hF.apart i j hj.symm x (List.mem_cons_of_mem _ h1)
      · exact h1 j
  refine ⟨fun j => ?_, fun j k hjk x hx => ?_⟩
  · by_cases hj : j = i
    · subst hj
      rw [Function.update_self]
      exact hr
    · rw [Function.update_of_ne hj]
      exact (hF.ring j).congr (fun x hx => (hc j hj x hx).1) (fun x hx => (hc j hj x hx).2)
  · by_cases hj : j = i
    · subst hj
      rw [Function.update_self] at hx
      rw [Function.update_of_ne hjk.symm]
      exact hap k hjk.symm x hx
    · rw [Function.update_of_ne hj] at hx
      by_cases hk : k = i
      · subst hk
        rw [Function.update_self]
        exact fun hx' => hap j hj x hx' hx
      · rw [Function.update_of_ne hk]
        exact hF.apart j k hjk x hx

variable [DecidableEq α]

theorem Family.insert_front {h : Heap α} {hd : ι → α} {Q : ι → List α} (hF : Family h hd Q)
    {n : α} (hn : ∀ j, n ∉ hd j :: Q j) (i : ι) :
    Family (insert h n (hd i) (h.next (hd i))) hd (Function.update Q i (n :: Q i)) := by
  refine hF.update ((hF.ring i).insert_front (hn i)) ?_ fun j hj x hx => ?_
  · rintro x (_ | ⟨_, hx⟩)
    · exact Or.inr hn
    · exact Or.inl hx
  · have h1 : x ≠ n := fun e => hn j (e ▸ hx)
    have h2 : x ≠ hd i := fun e => hF.apart j i hj x hx (e ▸ List.mem_cons_self)
    have h3 : x ≠ h.next (hd i) := by
      rw [(hF.ring i).next_head]
      intro e
      refine hF.apart j i hj x hx ?_
      rw [e]
      cases Q i <;> simp
    simp [insert_next, insert_prev, h1, h2, h3]

theorem Family.insert_back {h : Heap α} {hd : ι → α} {Q : ι → List α} (hF : Family h hd Q)
    {n : α} (hn : ∀ j, n ∉ hd j :: Q j) (i : ι) :
    Family (insert h n (h.prev (hd i)) (hd i)) hd (Function.update Q i (Q i ++ [n])) := by
  refine hF.update ((hF.ring i).insert_back (hn i)) ?_ fun j hj x hx => ?_
  · intro x hx
    rcases List.mem_append.mp hx with h1 | h1
    · exact Or.inl h1
    · exact Or.inr (List.mem_singleton.mp h1 ▸ hn)
  · have h1 : x ≠ n := fun e => hn j (e ▸ hx)
    have h2 : x ≠ hd i := fun e => hF.apart j i hj x hx (e ▸ List.mem_cons_self)
    have h3 : x ≠ h.prev (hd i) := by
      rw [(hF.ring i).1.prev_end]
      exact fun e => hF.apart j i hj x hx (e ▸ List.getLast_mem _)
    simp [insert_next, insert_prev, h1, h2, h3]

theorem Family.bypass {h : Heap α} {hd : ι → α} {Q : ι → List α} (hF : Family h hd Q)
    {i : ι} {n : α} {l r : List α} (hQ : Q i = l ++ n :: r) :
    Family (bypass h (h.prev n) (h.next n)) hd (Function.update Q i (l ++ r)) := by
  have hr := hF.ring i
  rw [hQ] at hr
  obtain ⟨hl, hrr⟩ := (seg_append h (hd i) l n r (hd i)).mp hr.1
  refine hF.update hr.bypass ?_ fun j hj x hx => ?_
  · intro x hx
    refine Or.inl (hQ ▸ ?_)
    rcases List.mem_append.mp hx with h1 | h1
    · exact List.mem_append_left _ h1
    · exact List.mem_append_right _ (List.mem_cons_of_mem _ h1)
  · have hap := hF.apart j i hj x hx
    rw [hQ] at hap
    have h1 : x ≠ h.prev n := by
      rw [hl.prev_end]
      intro e
      have h3 : (hd i :: l).getLast (List.cons_ne_nil _ _) ∈ hd i :: l := List.getLast_mem _
      refine hap (e ▸ ?_)
      rcases List.mem_cons.mp h3 with h4 | h4
      · rw [h4]; exact List.mem_cons_self
      · exact List.mem_cons_of_mem _ (List.mem_append_left _ h4)
    have h2 : x ≠ h.next n := by
      rw [hrr.next_start]
      intro e
      refine hap (e ▸ ?_)
      cases r <;> simp
    simp [bypass_next, bypass_prev, h1, h2]

end
end Rings
