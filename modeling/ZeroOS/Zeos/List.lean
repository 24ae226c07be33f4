import ZeroOS.Zeos.Types

/-!
# Zeos: `list.c`

The list operations on a heap of `struct list_head`s, and what they do to the sequences of a
family of rings.
-/

set_option linter.unusedSectionVars false

namespace Zeos
open Rings

section
variable {α : Type*} [DecidableEq α]

def initListHead (h : Heap α) (list : α) : Heap α := (h.setNext list list).setPrev list list

/-- `__list_add` -/
def listAddBetween (h : Heap α) (new prev next : α) : Heap α :=
  let h := h.setPrev next new
  let h := h.setNext new next
  let h := h.setPrev new prev
  h.setNext prev new

def listAdd (h : Heap α) (new head : α) : Heap α := listAddBetween h new head (h.next head)

def listAddTail (h : Heap α) (new head : α) : Heap α := listAddBetween h new (h.prev head) head

/-- `__list_del` -/
def listDelBetween (h : Heap α) (prev next : α) : Heap α := (h.setPrev next prev).setNext prev next

/-- `list_del`; `null` is the pointer 0 -/
def listDel (null : α) (h : Heap α) (entry : α) : Heap α :=
  let h := listDelBetween h (h.prev entry) (h.next entry)
  let h := h.setNext entry null
  h.setPrev entry null

def listIsLast (h : Heap α) (list head : α) : Bool := h.next list = head

def listEmpty (h : Heap α) (head : α) : Bool := h.next head = head

def listFirst (h : Heap α) (head : α) : α := h.next head

variable {ι : Type*} [DecidableEq ι] {h : Heap α} {hd : ι → α} {Q : ι → List α}

theorem listAdd_family (hF : Family h hd Q) {n : α} (hn : ∀ j, n ∉ hd j :: Q j) (i : ι) :
    Family (listAdd h n (hd i)) hd (Function.update Q i (n :: Q i)) := hF.insert_front hn i

theorem listAddTail_family (hF : Family h hd Q) {n : α} (hn : ∀ j, n ∉ hd j :: Q j) (i : ι) :
    Family (listAddTail h n (hd i)) hd (Function.update Q i (Q i ++ [n])) := hF.insert_back hn i

/-- a cell outside every ring may be given any links -/
theorem setLinks_family (hF : Family h hd Q) {n : α} (hn : ∀ j, n ∉ hd j :: Q j) (a b : α) :
    Family ((h.setNext n a).setPrev n b) hd Q := by
  refine hF.congr fun i x hx => ?_
  have hxn : x ≠ n := fun e => hn i (e ▸ hx)
  simp [hxn]

/-- a removed cell leaves its ring, and its own links are cleared -/
theorem listDel_family (hF : Family h hd Q) {i : ι} {n : α} (hn : n ∈ Q i) (null : α) :
    Family (listDel null h n) hd (Function.update Q i ((Q i).erase n)) := by
  obtain ⟨l, r, hQ, hnl⟩ := List.eq_append_cons_of_mem hn
  have he : (Q i).erase n = l ++ r := by
    rw [hQ, List.erase_append_right _ hnl, List.erase_cons_head]
  rw [he]
  have hF' := hF.bypass hQ
  refine setLinks_family hF' (fun j => ?_) null null
  -- `n` is in no ring any more: it was in ring `i` once, and in no other
  by_cases hj : j = i
  · subst hj
    have hnd := (hF.ring j).2
    rw [hQ] at hnd
    rw [Function.update_self]
    have hperm : (hd j :: l ++ n :: r).Perm (n :: (hd j :: l ++ r)) := List.perm_middle
    have hnd' : (n :: (hd j :: (l ++ r))).Nodup := hperm.nodup_iff.mp hnd
    exact (List.nodup_cons.mp hnd').1
  · rw [Function.update_of_ne hj]
    exact hF.apart i j (Ne.symm hj) n (List.mem_cons_of_mem _ hn)

theorem listEmpty_iff (hF : Family h hd Q) (i : ι) : listEmpty h (hd i) = true ↔ Q i = [] := by
  unfold listEmpty
  rw [decide_eq_true_iff]
  exact (hF.ring i).next_head_eq_iff

theorem listFirst_eq (hF : Family h hd Q) (i : ι) : listFirst h (hd i) = (Q i).headD (hd i) :=
  (hF.ring i).next_head

/-- a new head, beside the others -/
theorem initListHead_family (hF : Family h hd Q) {n : α} (hn : ∀ j, n ∉ hd j :: Q j) :
    Family (initListHead h n) (fun o : Option ι => o.elim n hd) (fun o => o.elim [] Q) := by
  have hF' := setLinks_family hF hn n n
  refine ⟨fun o => ?_, fun o o' hne x hx => ?_⟩
  · cases o with
    | none => exact ⟨by simp [Seg, initListHead], List.nodup_singleton n⟩
    | some i => exact hF'.ring i
  · cases o with
    | none =>
      cases o' with
      | none => exact absurd rfl hne
      | some j => exact List.mem_singleton.mp hx ▸ hn j
    | some i =>
      cases o' with
      | none =>
        intro hx'
        have e : x = n := List.mem_singleton.mp hx'
        exact hn i (e ▸ hx)
      | some j => exact hF.apart i j (fun e => hne (congrArg some e)) x hx

/-- `list_is_last` of a cell of some ring -/
theorem listIsLast_iff (hF : Family h hd Q) {i j : ι} {n : α} (hn : n ∈ Q j) :
    listIsLast h n (hd i) = true ↔ (Q i).getLast? = some n := by
  unfold listIsLast
  rw [decide_eq_true_iff]
  by_cases hij : j = i
  · subst hij
    exact (hF.ring j).next_eq_head_iff hn
  · have hap := hF.apart j i hij
    refine iff_of_false (fun e => ?_) fun e => ?_
    · -- the neighbours of a cell are in its own ring
      have hmem : h.next n ∈ hd j :: Q j := (hF.ring j).next_mem hn
      exact hap _ hmem (e ▸ List.mem_cons_self)
    · exact hap n (List.mem_cons_of_mem _ hn) (List.mem_cons_of_mem _ (List.mem_of_getLast? e))

/-- what the operations do to the sequences of a family, at the ring `i` and the cell `n` -/
structure Sequences (null : α) (h : Heap α) (hd : ι → α) (Q : ι → List α) (i : ι) (n : α) :
    Prop where
  init : (∀ j, n ∉ hd j :: Q j) →
    Family (initListHead h n) (fun o : Option ι => o.elim n hd) fun o => o.elim [] Q
  add : (∀ j, n ∉ hd j :: Q j) →
    Family (listAdd h n (hd i)) hd (Function.update Q i (n :: Q i))
  addTail : (∀ j, n ∉ hd j :: Q j) →
    Family (listAddTail h n (hd i)) hd (Function.update Q i (Q i ++ [n]))
  del : n ∈ Q i → Family (listDel null h n) hd (Function.update Q i ((Q i).erase n)) ∧
    (listDel null h n).next n = null ∧ (listDel null h n).prev n = null
  isEmpty : listEmpty h (hd i) = true ↔ Q i = []
  isLast : ∀ j, n ∈ Q j → (listIsLast h n (hd i) = true ↔ (Q i).getLast? = some n)
  first : Q i ≠ [] → (Q i).head? = some (listFirst h (hd i))

/-- **The list operations implement sequences**, on a heap that the lists share. -/
theorem lists_are_sequences (hF : Family h hd Q) (null : α) (i : ι) (n : α) :
    Sequences null h hd Q i n := by
  refine ⟨initListHead_family hF, fun hn => listAdd_family hF hn i,
    fun hn => listAddTail_family hF hn i, fun hn => ⟨listDel_family hF hn null, ?_, ?_⟩,
    listEmpty_iff hF i, fun j hn => listIsLast_iff hF hn, fun hne => ?_⟩
  · simp [listDel]
  · simp [listDel]
  · rw [listFirst_eq hF]
    cases hQ : Q i with
    | nil => exact absurd hQ hne
    | cons x l => rfl

/-- the cells 1 and 2 behind the head 0, and an empty list at 3 -/
def exampleHeap : Heap Nat where
  next x := if x = 0 then 1 else if x = 1 then 2 else if x = 2 then 0 else x
  prev x := if x = 0 then 2 else if x = 2 then 1 else if x = 1 then 0 else x

theorem lists_are_sequences_two :
    Family exampleHeap (fun b : Bool => if b then 0 else 3) (fun b => if b then [1, 2] else []) ∧
      Sequences 9 exampleHeap (fun b : Bool => if b then 0 else 3)
        (fun b => if b then [1, 2] else []) true 2 := by
  have hF : Family exampleHeap (fun b : Bool => if b then 0 else 3)
      (fun b => if b then [1, 2] else []) := by
    refine ⟨fun b => ?_, by decide⟩
    unfold Rings.Ring
    revert b
    decide
  exact ⟨hF, lists_are_sequences hF 9 true 2⟩

end
end Zeos
