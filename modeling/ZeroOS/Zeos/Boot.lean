import Mathlib.Tactic.FinCases
import ZeroOS.Zeos.Invariant

/-!
# Zeos: the state after boot

`boot_inv` is the base case of the invariant.  The initial process is task 8 and runs, the idle
task is 9, and the others are free, the last one of the array first.
-/

set_option linter.unusedVariables false

namespace Zeos
open Programs Rings Desks Runs

/-! ## the page tables at boot -/

/-- the frames below `256 + 2 * k` that are taken: the kernel, and `k` even ones -/
def Filled (mm : Mm) (k : Nat) : Prop :=
  ∀ f, mm.physMem f = .usedFrame ↔ f < 256 ∨ ∃ i, i < k ∧ f = codeFrame i

theorem allocFrame_filled {mm : Mm} {k : Nat} (h : Filled mm k) (hk : k < 384) :
    ∃ mm', allocFrame mm = ((codeFrame k : Int), mm') ∧ Filled mm' (k + 1) ∧
      mm'.dirPages = mm.dirPages ∧ mm'.pagusrTable = mm.pagusrTable := by
  have hfree : mm.physMem (codeFrame k) = .freeFrame := by
    by_contra hne
    rcases (h _).mp (ne_free.mp hne) with h1 | ⟨i, hi, h1⟩
    · unfold codeFrame at h1
      omega
    · unfold codeFrame at h1
      omega
  have hscan : Scanned (codeFrame k) := by
    unfold Scanned codeFrame
    omega
  rcases allocFrame_spec mm with ⟨f, hf, hm, hfirst, hr⟩ | ⟨hn, -⟩
  · -- the first free frame is the one after the taken ones
    have hfk : f = codeFrame k := by
      by_contra hne
      rcases Nat.lt_or_gt_of_ne hne with hlt | hgt
      · have hu : mm.physMem f = .usedFrame := by
          refine (h f).mpr (Or.inr ⟨(f - 256) / 2, ?_, ?_⟩)
          · unfold codeFrame at hlt
            unfold Scanned at hf
            omega
          · unfold codeFrame
            unfold Scanned at hf
            omega
        rw [hu] at hm
        cases hm
      · exact hfirst _ hscan hgt hfree
    subst hfk
    refine ⟨_, hr, fun g => ?_, rfl, rfl⟩
    show Function.update mm.physMem (codeFrame k) .usedFrame g = .usedFrame ↔ _
    rw [Function.update_apply]
    by_cases hg : g = codeFrame k
    · rw [if_pos hg]
      exact ⟨fun _ => Or.inr ⟨k, Nat.lt_succ_self k, hg⟩, fun _ => rfl⟩
    · rw [if_neg hg, h g]
      constructor
      · rintro (h1 | ⟨i, hi, h1⟩)
        · exact Or.inl h1
        · exact Or.inr ⟨i, by omega, h1⟩
      · rintro (h1 | ⟨i, hi, h1⟩)
        · exact Or.inl h1
        · refine Or.inr ⟨i, ?_, h1⟩
          by_contra hik
          have e : i = k := by omega
          exact hg (e ▸ h1)
  · exact absurd hfree (hn _ hscan)

/-- the entry of a user page at boot -/
def userEntry (rw : Bool) (frame : Nat) : PageTableEntry :=
  { PageTableEntry.zero with pbaseAddr := frame, user := true, rw := rw, present := true }

theorem mapNewPages_spec {mm : Mm} {k n : Nat} (h : Filled mm k) (hk : k + n ≤ 384) (pt : Task)
    (page : Nat) (rw : Bool) :
    Filled (mapNewPages pt page rw n mm) (k + n) ∧
      (mapNewPages pt page rw n mm).dirPages = mm.dirPages ∧
      ∀ t p, (mapNewPages pt page rw n mm).pagusrTable t p =
        if t = pt ∧ page ≤ p ∧ p < page + n then userEntry rw (codeFrame (k + (p - page)))
        else mm.pagusrTable t p := by
  unfold mapNewPages
  refine forUp_rule (I := fun i (m : Mm) => Filled m (k + i) ∧ m.dirPages = mm.dirPages ∧
    ∀ t p, m.pagusrTable t p =
      if t = pt ∧ page ≤ p ∧ p < page + i then userEntry rw (codeFrame (k + (p - page)))
      else mm.pagusrTable t p) ⟨h, rfl, fun t p => ?_⟩ ?_
  · rw [if_neg (by omega)]
  · intro i m hi hI
    obtain ⟨h1, h2, h3⟩ := hI
    obtain ⟨m', hr, h4, h5, h6⟩ := allocFrame_filled h1 (by omega)
    have hf : ((codeFrame (k + i) : Int) % 2 ^ 20).toNat = codeFrame (k + i) := by
      unfold codeFrame
      omega
    dsimp only
    rw [hr]
    refine ⟨h4, h5.trans h2, fun t p => ?_⟩
    dsimp only
    rw [Mm.setEntry_apply, h6, h3, hf]
    by_cases ht : t = pt
    · have e : userEntry rw (codeFrame (k + i)) = userEntry rw (codeFrame (k + (page + i - page))) := by
        rw [Nat.add_sub_cancel_left]
      simp only [ht, true_and]
      exact ite_range_succ (g := fun p => userEntry rw (codeFrame (k + (p - page)))) e
    · simp only [ht, false_and, if_false]

/-- `set_user_pages` gives out the frames in order -/
theorem setUserPages_spec {mm : Mm} (h : Filled mm 0) (pt : Task) :
    Filled (setUserPages mm pt) 28 ∧ (setUserPages mm pt).dirPages = mm.dirPages ∧
      ∀ t p, (setUserPages mm pt).pagusrTable t p =
        if t = pt ∧ 264 ≤ p ∧ p < 284 then ssEntry (codeFrame (p - 256))
        else if t = pt ∧ 256 ≤ p ∧ p < 264 then userEntry false (codeFrame (p - 256))
        else mm.pagusrTable t p := by
  have e : setUserPages mm pt = mapNewPages pt 264 true 20 (mapNewPages pt 256 false 8 mm) := rfl
  obtain ⟨h1, h2, h3⟩ := mapNewPages_spec (n := 8) h (by decide) pt 256 false
  obtain ⟨h4, h5, h6⟩ := mapNewPages_spec (n := 20) h1 (by decide) pt 264 true
  rw [e]
  refine ⟨h4, h5.trans h2, fun t p => ?_⟩
  rw [h6]
  by_cases hp : t = pt ∧ 264 ≤ p ∧ p < 284
  · have e : 0 + 8 + (p - 264) = p - 256 := by omega
    have e' : codeFrame (p - 256) % 2 ^ 20 = codeFrame (p - 256) := by
      unfold codeFrame
      omega
    rw [if_pos hp, if_pos hp, e]
    unfold userEntry ssEntry
    rw [e']
  · rw [if_neg hp, if_neg hp, h3]
    simp only [Nat.zero_add, Nat.reduceAdd]

/-- the tables when the initial process is set up -/
def bootTables : Mm :=
  initDirPages (initFrames (initTablePages ⟨fun _ => 0, fun _ _ => .zero, fun _ => .freeFrame⟩))

theorem initDirPages_spec (mm : Mm) (t : Task) : (initDirPages mm).dirPages t = t := by
  unfold initDirPages
  have h := forUp_rule (I := fun n (d : Task → Task) => ∀ t : Task, t.val < n → d t = t)
    (f := fun i d (t : Task) => if t.val = i then t else d t) (n := nrTasks) (s := mm.dirPages)
    (fun t ht => absurd ht (Nat.not_lt_zero _)) ?_
  · exact h t t.isLt
  · intro i d _ hd t ht
    by_cases e : t.val = i
    · rw [if_pos e]
    · rw [if_neg e]
      exact hd t (by omega)

theorem initFrames_filled {mm : Mm} (hm : ∀ f, mm.physMem f = .freeFrame) :
    Filled (initFrames mm) 0 := by
  intro f
  rw [initFrames_physMem, hm, ite_self]
  by_cases hf : f < 256
  · rw [if_pos hf]
    exact ⟨fun _ => Or.inl hf, fun _ => rfl⟩
  · rw [if_neg hf]
    constructor
    · intro h
      cases h
    · rintro (h | ⟨i, hi, -⟩)
      · exact absurd h hf
      · exact absurd hi (Nat.not_lt_zero i)

/-- the entry of a kernel page -/
def kernelEntry (p : Nat) : PageTableEntry :=
  { PageTableEntry.zero with pbaseAddr := p, rw := true, present := true }

/-- one page table: the pages 1 to 255 map to themselves, for the kernel -/
theorem initTablePage_apply {pt : Nat → PageTableEntry} (h : ∀ p, pt p = .zero) (p : Nat) :
    initTablePage pt p =
      if 1 ≤ p ∧ p < 256 then kernelEntry p else .zero := by
  have hz : ∀ p, forUp (fun i pt => Function.update pt i .zero) totalPages pt p = .zero := by
    intro p
    have h1 := forUp_update pt (fun _ => PageTableEntry.zero) 0 totalPages p
    simp only [Nat.zero_add, h, ite_self] at h1
    exact h1
  have h1 := forUp_rule (I := fun n (t : Nat → PageTableEntry) => ∀ p, t p =
      if 1 ≤ p ∧ p < 1 + n then kernelEntry p else .zero)
    (f := fun i pt =>
      let e := pt (1 + i)
      Function.update pt (1 + i) { e with pbaseAddr := 1 + i, rw := true, present := true })
    (n := numPagKernel - 1) (s := forUp (fun i pt => Function.update pt i .zero) totalPages pt)
    (fun p => ?_) ?_
  · exact h1 p
  · rw [if_neg (by omega)]
    exact hz p
  · intro i t hi ht p
    have h0 : ¬ (1 ≤ 1 + i ∧ 1 + i < 1 + i) := by omega
    dsimp only
    rw [Function.update_apply, ht, ht, if_neg h0]
    by_cases hp : p = 1 + i
    · have h2 : 1 ≤ p ∧ p < 1 + (i + 1) := by omega
      rw [if_pos hp, if_pos h2, hp]
      rfl
    · rw [if_neg hp]
      have e : (1 ≤ p ∧ p < 1 + (i + 1)) ↔ (1 ≤ p ∧ p < 1 + i) := by omega
      simp only [e]

theorem bootTables_apply (t : Task) (p : Nat) :
    bootTables.pagusrTable t p =
      if 1 ≤ p ∧ p < 256 then kernelEntry p else .zero := by
  have h := forUp_rule (I := fun n (T : Task → Nat → PageTableEntry) => ∀ t : Task,
      (t.val < n → T t = initTablePage fun _ => .zero) ∧ (n ≤ t.val → T t = fun _ => .zero))
    (f := fun j T (t : Task) => if t.val = j then initTablePage (T t) else T t) (n := nrTasks)
    (s := fun _ _ => .zero) (fun t => ⟨fun ht => absurd ht (Nat.not_lt_zero _), fun _ => rfl⟩) ?_
  · have h1 : bootTables.pagusrTable t = initTablePage fun _ => .zero := (h t).1 t.isLt
    rw [h1, initTablePage_apply fun _ => rfl]
  · intro j T _ hT t
    by_cases e : t.val = j
    · rw [if_pos e]
      refine ⟨fun _ => ?_, fun ht => by omega⟩
      rw [(hT t).2 (by omega)]
    · rw [if_neg e]
      exact ⟨fun ht => (hT t).1 (by omega), fun ht => (hT t).2 (by omega)⟩

theorem bootTables_filled : Filled bootTables 0 := by
  let mm := initTablePages ⟨fun _ => 0, fun _ _ => .zero, fun _ => .freeFrame⟩
  have hm : ∀ f, mm.physMem f = .freeFrame := fun _ => rfl
  exact initFrames_filled hm

/-! ## the address space of the initial process -/

theorem setUserPages_boot (pt : Task) (t : Task) (p : Nat) :
    (setUserPages bootTables pt).pagusrTable t p =
      if t = pt ∧ 264 ≤ p ∧ p < 284 then ssEntry (codeFrame (p - 256))
      else if t = pt ∧ 256 ≤ p ∧ p < 264 then userEntry false (codeFrame (p - 256))
      else if 1 ≤ p ∧ p < 256 then kernelEntry p
      else .zero := by
  rw [(setUserPages_spec bootTables_filled pt).2.2, bootTables_apply]

section
variable {mm : Mm} {pt : Task}

theorem boot_data (hm : mm = setUserPages bootTables pt) {p : Nat} (hp : DataPage p) :
    mm.pagusrTable pt p = ssEntry (codeFrame (p - 256)) ∧ mm.frame pt p = codeFrame (p - 256) := by
  have e : mm.pagusrTable pt p = ssEntry (codeFrame (p - 256)) := by
    rw [hm, setUserPages_boot, if_pos ⟨rfl, hp⟩]
  refine ⟨e, (Mm.frame_eq e).trans (ssEntry_frame ?_)⟩
  unfold codeFrame
  unfold DataPage at hp
  omega

theorem boot_code (hm : mm = setUserPages bootTables pt) {i : Nat} (hi : i < 8) :
    mm.pagusrTable pt (256 + i) = userEntry false (codeFrame i) := by
  have e : 256 + i - 256 = i := Nat.add_sub_cancel_left 256 i
  have h1 : ¬ (pt = pt ∧ 264 ≤ 256 + i ∧ 256 + i < 284) := by
    rintro ⟨-, h2, -⟩
    omega
  rw [hm, setUserPages_boot, if_neg h1, if_pos ⟨rfl, Nat.le_add_right 256 i, by omega⟩, e]

theorem boot_owned_iff (hm : mm = setUserPages bootTables pt) (f : Nat) :
    mm.physMem f = .usedFrame ↔ Owned mm (fun t => t = pt) f := by
  have hfill := (setUserPages_spec bootTables_filled pt).1
  rw [← hm] at hfill
  rw [hfill f]
  constructor
  · rintro (h1 | ⟨i, hi, rfl⟩)
    · exact Or.inl h1
    · by_cases h8 : i < 8
      · exact Or.inr (Or.inl ⟨i, h8, rfl⟩)
      · have hp : DataPage (256 + i) := ⟨by omega, by omega⟩
        refine Or.inr (Or.inr ⟨pt, 256 + i, rfl, hp, ?_⟩)
        rw [(boot_data hm hp).2, Nat.add_sub_cancel_left]
  · rintro (h1 | ⟨i, hi, rfl⟩ | ⟨t, p, rfl, hp, rfl⟩)
    · exact Or.inl h1
    · exact Or.inr ⟨i, by omega, rfl⟩
    · rw [(boot_data hm hp).2]
      unfold DataPage at hp
      exact Or.inr ⟨p - 256, by omega, rfl⟩

/-- the initial process alone -/
theorem boot_mapped (hm : mm = setUserPages bootTables pt) : Mapped mm fun t => t = pt := by
  have hd : ∀ t, mm.dirPages t = t := by
    intro t
    rw [hm, (setUserPages_spec bootTables_filled pt).2.1]
    exact initDirPages_spec _ t
  have hinj : ∀ i j, codeFrame i = codeFrame j → i = j := by
    intro i j h
    unfold codeFrame at h
    omega
  refine ⟨hd, ?_, ?_, ?_, ?_, ?_, ?_, ?_, ?_⟩
  · intro t p hp
    have h1 : ¬ (t = pt ∧ 264 ≤ p ∧ p < 284) := by omega
    have h2 : ¬ (t = pt ∧ 256 ≤ p ∧ p < 264) := by omega
    rw [hm, setUserPages_boot, if_neg h1, if_neg h2]
    split <;> rfl
  · intro t p hp
    have h1 : ¬ (t = pt ∧ 264 ≤ p ∧ p < 284) := by omega
    have h2 : ¬ (t = pt ∧ 256 ≤ p ∧ p < 264) := by omega
    have h3 : ¬ (1 ≤ p ∧ p < 256) := by omega
    rw [hm, setUserPages_boot, if_neg h1, if_neg h2, if_neg h3]
  · rintro t rfl i hi
    rw [Mm.frame_eq (boot_code hm hi), boot_code hm hi]
    exact ⟨rfl, rfl, rfl⟩
  · rintro t rfl p hp
    rw [(boot_data hm hp).2]
    exact (boot_data hm hp).1
  · rintro t rfl p hp
    rw [(boot_data hm hp).2]
    unfold DataPage at hp
    unfold codeFrame
    omega
  · rintro t rfl p hp i hi e
    rw [(boot_data hm hp).2] at e
    have h1 := hinj _ _ e
    unfold DataPage at hp
    omega
  · rintro t u rfl rfl p q hp hq e
    rw [(boot_data hm hp).2, (boot_data hm hq).2] at e
    have h1 := hinj _ _ e
    unfold DataPage at hp hq
    exact ⟨rfl, by omega⟩
  · exact fun f hf => (boot_owned_iff hm f).mpr hf

theorem boot_exact (hm : mm = setUserPages bootTables pt) : Exact mm fun t => t = pt :=
  fun f hf => (boot_owned_iff hm f).mp hf

end
/-! ## the queues at boot -/

/-- the lists after `init_sched` -/
def freeLinks : Heap ListHead :=
  forUp (fun i h => listAdd h (.list (Fin.ofNat nrTasks i)) (.queue .freequeue)) nrTasks
    (initListHead (initListHead ⟨fun _ => .null, fun _ => .null⟩ (.queue .freequeue))
      (.queue .readyqueue))

def bootLinks : Heap ListHead :=
  let h := listDel .null (listDel .null freeLinks (.list 9)) (.list 8)
  let empty (links : ListHead → ListHead) : ListHead → ListHead
    | .queue (.blocked i) => .queue (.blocked i)
    | a => links a
  ⟨empty h.next, empty h.prev⟩

def bootQueue : Queue → List Task
  | .freequeue => [7, 6, 5, 4, 3, 2, 1, 0]
  | _ => []

theorem bootLinks_linked : Linked bootLinks bootQueue := by
  refine ⟨fun q => ?_, fun q r hqr x hx hx' => ?_⟩
  · cases q with
    | freequeue => exact ⟨by decide, by decide⟩
    | readyqueue => exact ⟨by decide, by decide⟩
    | blocked i => exact ⟨⟨rfl, rfl⟩, List.nodup_singleton _⟩
  · -- the heads differ, and only one queue has cells
    have hcell : ∀ q, x ∈ (bootQueue q).map ListHead.list → q = .freequeue ∧ ∀ r, x ≠ .queue r := by
      intro q hq
      obtain ⟨t, ht, rfl⟩ := List.mem_map.mp hq
      cases q with
      | freequeue => exact ⟨rfl, fun r => by simp⟩
      | _ => cases ht
    rcases List.mem_cons.mp hx with h1 | h1
    · rcases List.mem_cons.mp hx' with h2 | h2
      · exact hqr (ListHead.queue.inj (h1.symm.trans h2))
      · exact (hcell r h2).2 q h1
    · rcases List.mem_cons.mp hx' with h2 | h2
      · exact (hcell q h1).2 r h2
      · exact hqr ((hcell q h1).1.trans (hcell r h2).1.symm)

/-! ## boot -/

section
variable (mem : Nat → Byte) (tsc : Nat → DWord)

theorem initMm_mm (s : State) :
    (initMm s).mm = initDirPages (initFrames (initTablePages s.mm)) := by
  simp only [initMm, allocateDIR, State.setTask_mm, State.setMm_mm]

theorem initSched_mm (s : State) : (initSched s).mm = s.mm := by
  unfold initSched
  dsimp only
  refine forUp_rule (I := fun _ (s' : State) => s'.mm = s.mm) rfl ?_
  intro i s' _ hs
  simp only [initSchedTask, State.setLinks_mm, State.setTask_mm, hs]

theorem initIdle_mm (s : State) : (initIdle s).mm = s.mm := by
  simp only [initIdle, takeFirst, allocateDIR, setIniStats, account_mm, State.setTask_mm,
    State.setLinks_mm]

theorem initTask1_mm (s : State) :
    (initTask1 s).mm = setUserPages s.mm (s.mm.dirPages (takeFirst .freequeue s).1) := by
  simp only [initTask1, takeFirst, allocateDIR, account_mm, State.setTask_mm, State.setLinks_mm,
    State.setMm_mm, getPT, getDIR, State.setTask_task]
  rw [State.setTask_initTask, if_pos rfl]
  rfl

theorem initTask_eq :
    (takeFirst .freequeue (initIdle (initSched (initMm (image mem tsc))))).1 = 8 := by
  have hl : (initIdle (initSched (initMm (image mem tsc)))).links =
      listDel .null freeLinks (.list 9) := rfl
  unfold takeFirst
  dsimp only
  rw [hl]
  decide

theorem image_mm :
    (image mem tsc).mm = ⟨fun _ => 0, fun _ _ => .zero, fun _ => .freeFrame⟩ := rfl

theorem boot_mm : (boot mem tsc).mm = setUserPages bootTables 8 := by
  have e : (boot mem tsc).mm = (initTask1 (initIdle (initSched (initMm (image mem tsc))))).mm := by
    simp only [boot, zeosConsoleInit, State.setLinks_mm]
  rw [e, initTask1_mm, initTask_eq, initIdle_mm, initSched_mm, initMm_mm, initDirPages_spec,
    image_mm, bootTables]

theorem boot_current : (boot mem tsc).current = 8 := rfl
theorem boot_idleTask : (boot mem tsc).idleTask = 9 := rfl
theorem boot_control : (boot mem tsc).control = .user := rfl
theorem boot_pidMax : (boot mem tsc).pidMax = 1 := rfl

theorem boot_idle : (boot mem tsc).task 9 =
    ⟨0, 9, 0, .cpuIdle, ⟨0, 0, 0, 0, tsc 0, 0, 18⟩, .stReady⟩ := rfl

theorem boot_init : (boot mem tsc).task 8 =
    ⟨1, 8, 18, .empty, ⟨0, 0, 0, 0, tsc 1, 0, 0⟩, .stRun⟩ := rfl

theorem boot_free_pid {t : Task} (h8 : t ≠ 8) (h9 : t ≠ 9) : ((boot mem tsc).task t).pid = -1 := by
  fin_cases t <;> first | rfl | exact absurd rfl h8 | exact absurd rfl h9

theorem boot_rep : Rep (boot mem tsc) ⟨8, bootQueue⟩ := ⟨bootLinks_linked, rfl⟩

theorem boot_queue : queue (boot mem tsc) = bootQueue := bootLinks_linked.queue_eq

theorem boot_inUser : inUser (boot mem tsc) := by
  refine ⟨rfl, ?_⟩
  rw [boot_current, boot_idleTask]
  decide

theorem boot_live (t : Task) : live (boot mem tsc) t ↔ t = 8 := by
  unfold live
  rw [boot_idleTask, boot_queue]
  revert t
  decide

theorem boot_apart : (⟨8, bootQueue⟩ : Desk Task Queue).Apart 9 .readyqueue := by
  have hn : ∀ q, q ≠ Queue.freequeue → ∀ t, t ∉ bootQueue q := by
    intro q hq t ht
    cases q with
    | freequeue => exact hq rfl
    | _ => cases ht
  have hin : ∀ q t, t ∈ bootQueue q → q = .freequeue ∧ t ≠ 8 ∧ t ≠ 9 := by
    intro q t ht
    by_cases hq : q = .freequeue
    · subst hq
      refine ⟨rfl, ?_⟩
      revert t
      decide
    · exact absurd ht (hn q hq t)
  refine ⟨⟨bootLinks_linked.nodup, fun q r hqr t ht ht' => ?_, fun q _ ht => ?_⟩, fun q ht => ?_⟩
  · exact hqr ((hin q t ht).1.trans (hin r t ht').1.symm)
  · exact (hin q 9 ht).2.2 rfl
  · exact (hin q 8 ht).2.1 rfl

/-- **The invariant holds after boot.** -/
theorem boot_inv : Inv (boot mem tsc) := by
  have hl : live (boot mem tsc) = fun t => t = 8 := funext fun t => propext (boot_live mem tsc t)
  have hm := boot_mm mem tsc
  refine ⟨⟨.of_rep (boot_rep mem tsc) boot_apart, ?_, fun t ht => ?_, rfl⟩, ?_, rfl⟩
  · rw [hl]
    exact boot_mapped hm
  · have h89 : t = 8 ∨ t = 9 := by
      rw [boot_queue] at ht
      revert t
      decide
    rcases h89 with rfl | rfl
    · rw [boot_init]
    · rw [boot_idle]
  · rw [hl]
    exact boot_exact hm

/-- the invariant of the kernel -/
theorem reachable_inv {s : State} (h : Reachable step (boot mem tsc) s) : Inv s :=
  h.invariant (boot_inv mem tsc) fun _ _ _ hi he => step_inv hi he

/-- the first program forks -/
theorem boot_fork (mem : Nat → Byte) (tsc : Nat → DWord) : ∃ child rest s,
    queue (boot mem tsc) .freequeue = child :: rest ∧ step (boot mem tsc) .fork = some s ∧
      inUser s := by
  have hq : queue (boot mem tsc) .freequeue = bootQueue .freequeue := by rw [boot_queue]
  obtain ⟨s, hs, hu⟩ := (boot_inv mem tsc).fork_step (boot_inUser mem tsc) hq
  exact ⟨_, _, s, hq, hs, hu⟩

/-- it forks and exits -/
theorem boot_fork_exit (mem : Nat → Byte) (tsc : Nat → DWord) : ∃ s s',
    step (boot mem tsc) .fork = some s ∧ inUser s ∧ step s .exit = some s' := by
  obtain ⟨child, rest, s, -, hs, hu⟩ := boot_fork mem tsc
  exact ⟨s, sysExit s, hs, hu, if_pos hu⟩

end
end Zeos
