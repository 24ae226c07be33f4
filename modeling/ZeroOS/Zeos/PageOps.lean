import ZeroOS.Zeos.Boot
import ZeroOS.Zeos.PageWords

/-!
# Zeos: `mm.c`, one assignment after the other

What the functions of `mm.c` do to the words of the page tables.

* `setSsPagOps`, `delSsPagOps`, `userPageOps`, `initTablePagesOps`   their assignments, in the order
  of the source;
* `loopOps`         those of a loop;
* `Writes S c`      the assignments make one table of the other, and leave at most the pages `S` stale
  while the directory `c` is in use;
* `setSsPag_writes` an entry that is written from 0 up to its `present` bit is never half of one;
* `bootMmu_agrees`  the processor when the first program starts.
-/

set_option linter.unusedVariables false

namespace Zeos
open Paging Programs

/-! ## entries -/

/-- assignments to the fields of one entry -/
def assigns (pt : Task) (page : Nat) (as : List Assign) : List PageOp := as.map (.assign pt page)

def setSsPagOps (pt : Task) (page frame : Nat) : List PageOp :=
  assigns pt page [.entry, .pbaseAddr (BitVec.ofNat 32 frame), .user, .rw, .present]

def delSsPagOps (pt : Task) (logicalPage : Nat) : List PageOp := assigns pt logicalPage [.entry]

/-- an entry in a loop of `set_user_pages` -/
def userPageOps (pt : Task) (page : Nat) (rw : Bool) (newPhPag : Int) : List PageOp :=
  assigns pt page (if rw then
    [.entry, .pbaseAddr (BitVec.ofInt 32 newPhPag), .user, .rw, .present]
  else [.entry, .pbaseAddr (BitVec.ofInt 32 newPhPag), .user, .present])

/-- the assignments of a loop with the rounds `g` over the states of `forUp f` -/
def loopOps {σ : Type*} (g : Nat → σ → List PageOp) (f : Nat → σ → σ) : Nat → σ → List PageOp
  | 0, _ => []
  | n + 1, s => loopOps g f n s ++ g n (forUp f n s)

/-- the tables with another entry at `page` -/
def setPage (tab : Task → Nat → PageTableEntry) (pt : Task) (page : Nat) (e : PageTableEntry) :
    Task → Nat → PageTableEntry :=
  Function.update tab pt (Function.update (tab pt) page e)

def Tables.setPage (T : Tables) (pt : Task) (page : Nat) (e : PageTableEntry) : Tables :=
  { T with pagusrTable := Zeos.setPage T.pagusrTable pt page e }

section
variable {tab tab' tab'' : Task → Nat → PageTableEntry} {T : Tables} {pt c : Task} {page : Nat}
  {S : Nat → Prop} {ops : List PageOp}

theorem setPage_self (tab : Task → Nat → PageTableEntry) (pt : Task) (page : Nat)
    (e : PageTableEntry) : setPage tab pt page e pt page = e := by
  unfold setPage
  rw [Function.update_self, Function.update_self]

theorem setPage_setPage (tab : Task → Nat → PageTableEntry) (pt : Task) (page : Nat)
    (e e' : PageTableEntry) : setPage (setPage tab pt page e) pt page e' = setPage tab pt page e' := by
  unfold setPage
  rw [Function.update_self, Function.update_idem, Function.update_idem]

theorem setPage_idem (tab : Task → Nat → PageTableEntry) (pt : Task) (page : Nat) :
    setPage tab pt page (tab pt page) = tab := by
  unfold setPage
  rw [Function.update_eq_self, Function.update_eq_self]

/-- no translation of the page can be in the TLB -/
def Fresh (T : Tables) (pt : Task) (page : Nat) : Prop :=
  pt = T.cr3 → (T.pagusrTable pt page).present = false

theorem apply_fresh (h : Fresh T pt page) (a : Assign) :
    PageOp.apply T (.assign pt page a) = T.setPage pt page (a.apply (T.pagusrTable pt page)) := by
  have hno : ¬ (pt = T.cr3 ∧ (T.pagusrTable pt page).present = true) :=
    fun hc => Bool.false_ne_true ((h hc.1).symm.trans hc.2)
  unfold PageOp.apply
  dsimp only
  rw [if_neg hno]
  rfl

theorem Assign.apply_present {a : Assign} (ha : a ≠ .present) {e : PageTableEntry}
    (he : e.present = false) : (a.apply e).present = false := by
  cases a with
  | entry => rfl
  | present => exact absurd rfl ha
  | pbaseAddr _ | user | rw => exact he

theorem Fresh.setPage (h : Fresh T pt page) {e : PageTableEntry}
    (he : pt = T.cr3 → e.present = false) : Fresh (T.setPage pt page e) pt page := by
  intro hc
  show (Zeos.setPage T.pagusrTable pt page e pt page).present = false
  rw [setPage_self]
  exact he hc

/-- before the entry is present -/
theorem assigns_apply {as : List Assign} (has : ∀ a ∈ as, a ≠ .present) (h : Fresh T pt page) :
    (assigns pt page as).foldl PageOp.apply T =
        T.setPage pt page (as.foldl Assign.apply (T.pagusrTable pt page)) ∧
      (pt = T.cr3 → (as.foldl Assign.apply (T.pagusrTable pt page)).present = false) := by
  induction as generalizing T with
  | nil =>
    refine ⟨?_, h⟩
    unfold Tables.setPage
    rw [List.foldl_nil, setPage_idem]
    rfl
  | cons a as ih =>
    have hfresh : Fresh (T.setPage pt page (a.apply (T.pagusrTable pt page))) pt page :=
      h.setPage fun hc => Assign.apply_present (has a List.mem_cons_self) (h hc)
    have hrest := ih (fun b hb => has b (List.mem_cons_of_mem _ hb)) hfresh
    unfold Tables.setPage at hrest
    dsimp only at hrest
    rw [setPage_self, setPage_setPage] at hrest
    show (assigns pt page as).foldl PageOp.apply (PageOp.apply T (.assign pt page a)) = _ ∧ _
    rw [apply_fresh h]
    exact hrest

/-- the entry becomes present with the last assignment -/
theorem entry_apply {as : List Assign} (has : ∀ a ∈ as, a ≠ Assign.present)
    (h : Fresh T pt page) : (assigns pt page (as ++ [Assign.present])).foldl PageOp.apply T =
      T.setPage pt page ((as ++ [Assign.present]).foldl Assign.apply (T.pagusrTable pt page)) := by
  obtain ⟨h1, h2⟩ := assigns_apply has h
  unfold assigns at h1 ⊢
  rw [List.map_append, List.foldl_append, h1, List.map_singleton, List.foldl_cons, List.foldl_nil,
    apply_fresh (h.setPage h2), List.foldl_append]
  unfold Tables.setPage
  dsimp only
  rw [setPage_self, setPage_setPage]
  rfl

/-! ## tables -/

structure Writes (S : Nat → Prop) (c : Task) (ops : List PageOp)
    (tab tab' : Task → Nat → PageTableEntry) : Prop where
  assigns : ∀ op ∈ ops, ∃ pt page a, op = .assign pt page a ∧ page < totalPages
  run : ∀ st, ∃ st', (∀ p ∈ st', p ∈ st ∨ S p) ∧
    ops.foldl PageOp.apply ⟨tab, c, st⟩ = ⟨tab', c, st'⟩

theorem Writes.nil : Writes S c [] tab tab :=
  ⟨fun op h => (by cases h), fun st => ⟨st, fun p hp => .inl hp, rfl⟩⟩

theorem Writes.inRange (h : Writes S c ops tab tab') : ∀ op ∈ ops, op.InRange := by
  intro op hop
  obtain ⟨pt, page, a, rfl, hp⟩ := h.assigns op hop
  exact hp

theorem Writes.append {ops' : List PageOp} (h : Writes S c ops tab tab')
    (h' : Writes S c ops' tab' tab'') : Writes S c (ops ++ ops') tab tab'' := by
  refine ⟨fun op hop => ?_, fun st => ?_⟩
  · obtain hop | hop := List.mem_append.mp hop
    · exact h.assigns op hop
    · exact h'.assigns op hop
  · obtain ⟨st1, hst1, h1⟩ := h.run st
    obtain ⟨st2, hst2, h2⟩ := h'.run st1
    refine ⟨st2, fun p hp => ?_, by rw [List.foldl_append, h1, h2]⟩
    obtain hp | hp := hst2 p hp
    · exact hst1 p hp
    · exact .inr hp

theorem Writes.mono {S' : Nat → Prop} (h : Writes S c ops tab tab') (hS : ∀ p, S p → S' p) :
    Writes S' c ops tab tab' := by
  refine ⟨h.assigns, fun st => ?_⟩
  obtain ⟨st', hst, hrun⟩ := h.run st
  exact ⟨st', fun p hp => (hst p hp).imp id (hS p), hrun⟩

theorem Writes.loop {σ : Type*} {F : σ → Task → Nat → PageTableEntry} {g : Nat → σ → List PageOp}
    {f : Nat → σ → σ} {n : Nat} {s : σ} {I : Nat → σ → Prop} (h0 : I 0 s)
    (hs : ∀ i s, i < n → I i s → I (i + 1) (f i s) ∧ Writes S c (g i s) (F s) (F (f i s))) :
    Writes S c (loopOps g f n s) (F s) (F (forUp f n s)) ∧ I n (forUp f n s) := by
  induction n with
  | zero => exact ⟨.nil, h0⟩
  | succ n ih =>
    obtain ⟨h1, h2⟩ := ih fun i s hi => hs i s (Nat.lt_succ_of_lt hi)
    obtain ⟨h3, h4⟩ := hs n _ (Nat.lt_succ_self n) h2
    exact ⟨h1.append h4, h3⟩

/-! ## the functions -/

theorem mem_assigns (hp : page < totalPages) (as : List Assign) :
    ∀ op ∈ assigns pt page as, ∃ pt page a, op = .assign pt page a ∧ page < totalPages := by
  intro op hop
  obtain ⟨a, -, rfl⟩ := List.mem_map.mp hop
  exact ⟨pt, page, a, rfl, hp⟩

/-- an entry that the processor can see only when it is whole -/
theorem entry_writes (hp : page < totalPages) (hf : pt = c → (tab pt page).present = false)
    (as : List Assign) (has : ∀ a ∈ as, a ≠ Assign.present) {e : PageTableEntry}
    (he : (as ++ [Assign.present]).foldl Assign.apply (tab pt page) = e) :
    Writes S c (assigns pt page (as ++ [Assign.present])) tab (setPage tab pt page e) := by
  refine ⟨mem_assigns hp _, fun st => ⟨st, fun p h => .inl h, ?_⟩⟩
  rw [entry_apply (T := ⟨tab, c, st⟩) has hf, he]
  rfl

theorem setSsPag_writes {mm : Mm} (hp : page < totalPages)
    (hf : pt = c → (mm.pagusrTable pt page).present = false) (frame : Nat) :
    Writes S c (setSsPagOps pt page frame) mm.pagusrTable
      (setSsPag mm pt page frame).pagusrTable := by
  refine entry_writes hp hf [.entry, .pbaseAddr (BitVec.ofNat 32 frame), .user, .rw]
    (by simp) ?_
  show PageTableEntry.mk true true true ((BitVec.ofNat 32 frame).toNat % 2 ^ 20) =
    PageTableEntry.mk true true true (frame % 2 ^ 20)
  rw [BitVec.toNat_ofNat, Nat.mod_mod_of_dvd _ (by decide)]

theorem assign_writes (hp : page < totalPages) (hS : S page) (a : Assign) :
    Writes S c [.assign pt page a] tab (setPage tab pt page (a.apply (tab pt page))) := by
  refine ⟨mem_assigns hp [a], fun st => ⟨_, fun p hp => ?_, rfl⟩⟩
  have hp : p ∈ if pt = c ∧ (tab pt page).present = true then page :: st else st := hp
  split at hp
  · obtain rfl | hp := List.mem_cons.mp hp
    · exact .inr hS
    · exact .inl hp
  · exact .inl hp

theorem assigns_writes (hp : page < totalPages) (hS : S page) (as : List Assign) :
    Writes S c (assigns pt page as) tab
      (setPage tab pt page (as.foldl Assign.apply (tab pt page))) := by
  induction as generalizing tab with
  | nil =>
    rw [List.foldl_nil, setPage_idem]
    exact .nil
  | cons a as ih =>
    refine (assign_writes hp hS a).append ?_
    have h := @ih (setPage tab pt page (a.apply (tab pt page)))
    rwa [setPage_self, setPage_setPage] at h

theorem delSsPag_writes {mm : Mm} (hp : page < totalPages) (hS : S page) :
    Writes S c (delSsPagOps pt page) mm.pagusrTable (delSsPag mm pt page).pagusrTable :=
  assign_writes hp hS .entry

/-! ## the loops of `sys_fork` -/

def mapCodeOps (parentPage childPage : Task) : Mm → List PageOp :=
  loopOps (fun i mm =>
      setSsPagOps childPage (i + numPagKernel) (getFrame mm parentPage (i + numPagKernel)))
    (fun i mm => setSsPag mm childPage (i + numPagKernel)
      (getFrame mm parentPage (i + numPagKernel))) numPagCode

/-- a round of the loop of (3.2) and (3.3) -/
def mapDataRound (parentPage childPage : Task) (childFrames : List Int) (k : Nat) (mm : Mm) : Mm :=
  let i := numPagKernel + k
  let childFrame := uint32 (childFrames.getD (i - numPagKernel) 0)
  setSsPag (setSsPag mm parentPage (i + (numPagCode + numPagData)) childFrame) childPage
    (i + numPagCode) childFrame

def mapDataOps (parentPage childPage : Task) (childFrames : List Int) : Mm → List PageOp :=
  loopOps (fun k _ =>
      let i := numPagKernel + k
      let childFrame := uint32 (childFrames.getD (i - numPagKernel) 0)
      setSsPagOps parentPage (i + (numPagCode + numPagData)) childFrame ++
        setSsPagOps childPage (i + numPagCode) childFrame)
    (mapDataRound parentPage childPage childFrames) numPagData

def unmapDataOps (parentPage : Task) : Mm → List PageOp :=
  loopOps (fun k _ => delSsPagOps parentPage (numPagKernel + k + (numPagCode + numPagData)))
    (fun k mm => delSsPag mm parentPage (numPagKernel + k + (numPagCode + numPagData))) numPagData

theorem mapCodeOps_writes (hne : pt ≠ c) (mm : Mm) :
    Writes S c (mapCodeOps c pt mm) mm.pagusrTable (mapCode c pt mm).pagusrTable :=
  (Writes.loop (F := Mm.pagusrTable) (I := fun _ _ => True) trivial fun i mm hi _ =>
    ⟨trivial, setSsPag_writes (by simp only [numPagCode, numPagKernel, totalPages] at *; omega)
      (fun hc => absurd hc hne) _⟩).1

/-- the window was not mapped before -/
theorem mapDataOps_writes (hne : pt ≠ c) (fs : List Int) {mm : Mm}
    (h : ∀ p, 284 ≤ p → mm.pagusrTable c p = .zero) :
    Writes S c (mapDataOps c pt fs mm) mm.pagusrTable (mapData c pt fs mm).pagusrTable := by
  refine (Writes.loop (F := Mm.pagusrTable)
    (I := fun k m => ∀ p, 284 + k ≤ p → m.pagusrTable c p = .zero) h fun k m hk hI => ⟨?_, ?_⟩).1
  · intro p hp
    have h1 : ¬ (c = pt ∧ p = numPagKernel + k + numPagCode) := fun e => hne e.1.symm
    have h2 : ¬ (c = c ∧ p = numPagKernel + k + (numPagCode + numPagData)) := by
      simp only [numPagKernel, numPagCode, numPagData]
      omega
    unfold mapDataRound
    rw [setSsPag_apply, if_neg h1, setSsPag_apply, if_neg h2]
    exact hI p (by omega)
  · have hp1 : numPagKernel + k + (numPagCode + numPagData) = 284 + k := by
      simp only [numPagKernel, numPagCode, numPagData]
      omega
    simp only [numPagData] at hk
    refine Writes.append (setSsPag_writes ?_ (fun _ => ?_) _)
      (setSsPag_writes ?_ (fun hc => absurd hc hne) _)
    · rw [hp1]
      simp only [totalPages]
      omega
    · rw [hp1, hI _ le_rfl]
      rfl
    · simp only [numPagKernel, numPagCode, totalPages]
      omega

theorem unmapDataOps_writes (mm : Mm) :
    Writes (fun p => 284 ≤ p ∧ p < 304) c (unmapDataOps c mm) mm.pagusrTable
      (unmapData c mm).pagusrTable :=
  (Writes.loop (F := Mm.pagusrTable) (I := fun _ _ => True) trivial fun k mm hk _ =>
    ⟨trivial, delSsPag_writes (by simp only [numPagData, numPagKernel, numPagCode, totalPages] at *; omega)
      (by simp only [numPagData, numPagKernel, numPagCode] at *; omega)⟩).1

/-! ## the tables at boot -/

/-- a round of a loop of `set_user_pages` -/
def mapNewPage (pt : Task) (page : Nat) (rw : Bool) (pag : Nat) (mm : Mm) : Mm :=
  let (newPhPag, mm) := allocFrame mm
  mm.setEntry pt (page + pag)
    { PageTableEntry.zero with
      pbaseAddr := (newPhPag % 2 ^ 20).toNat, user := true, rw := rw, present := true }

def mapNewPagesOps (pt : Task) (page : Nat) (rw : Bool) (n : Nat) : Mm → List PageOp :=
  loopOps (fun pag mm => userPageOps pt (page + pag) rw (allocFrame mm).1)
    (mapNewPage pt page rw) n

def setUserPagesOps (mm : Mm) (pt : Task) : List PageOp :=
  mapNewPagesOps pt pagLogInitCodeP0 false numPagCode mm ++
    mapNewPagesOps pt pagLogInitDataP0 true numPagData
      (mapNewPages pt pagLogInitCodeP0 false numPagCode mm)

def initTablePageOps (t : Task) (pt : Nat → PageTableEntry) : List PageOp :=
  loopOps (fun i _ => [.assign t i .entry]) (fun i pt => Function.update pt i .zero) totalPages pt ++
    loopOps (fun i _ => assigns t (1 + i) [.pbaseAddr (BitVec.ofNat 32 (1 + i)), .rw, .present])
      (fun i pt =>
        let e := pt (1 + i)
        Function.update pt (1 + i) { e with pbaseAddr := 1 + i, rw := true, present := true })
      (numPagKernel - 1) (forUp (fun i pt => Function.update pt i .zero) totalPages pt)

def initTablePagesOps : (Task → Nat → PageTableEntry) → List PageOp :=
  loopOps (fun j T => initTablePageOps (Fin.ofNat nrTasks j) (T (Fin.ofNat nrTasks j)))
    (fun j T t => if t.val = j then initTablePage (T t) else T t) nrTasks

theorem userPageOps_writes (hp : page < totalPages) (hne : pt ≠ c) (rw : Bool) (f : Int) :
    Writes S c (userPageOps pt page rw f) tab
      (setPage tab pt page { PageTableEntry.zero with
        pbaseAddr := (f % 2 ^ 20).toNat, user := true, rw := rw, present := true }) := by
  have he : (BitVec.ofInt 32 f).toNat % 2 ^ 20 = (f % 2 ^ 20).toNat := by
    rw [BitVec.toNat_ofInt]
    omega
  cases rw with
  | true =>
    refine entry_writes hp (fun hc => absurd hc hne)
      [.entry, .pbaseAddr (BitVec.ofInt 32 f), .user, .rw] (by simp) ?_
    rw [← he]
    rfl
  | false =>
    refine entry_writes hp (fun hc => absurd hc hne)
      [.entry, .pbaseAddr (BitVec.ofInt 32 f), .user] (by simp) ?_
    rw [← he]
    rfl

theorem mapNewPagesOps_writes (hne : pt ≠ c) (rw : Bool) {n : Nat} (hn : page + n ≤ totalPages)
    (mm : Mm) : Writes S c (mapNewPagesOps pt page rw n mm) mm.pagusrTable
      (mapNewPages pt page rw n mm).pagusrTable := by
  refine (Writes.loop (F := Mm.pagusrTable) (I := fun _ _ => True) trivial fun i m hi _ =>
    ⟨trivial, ?_⟩).1
  have h : Writes S c (userPageOps pt (page + i) rw (allocFrame m).1) (allocFrame m).2.pagusrTable
      (mapNewPage pt page rw i m).pagusrTable :=
    userPageOps_writes (by omega) hne rw _
  have e : (allocFrame m).2.pagusrTable = m.pagusrTable := by
    unfold allocFrame
    split <;> rfl
  rwa [e] at h

theorem setUserPagesOps_writes (hne : pt ≠ c) (mm : Mm) :
    Writes S c (setUserPagesOps mm pt) mm.pagusrTable (setUserPages mm pt).pagusrTable :=
  (mapNewPagesOps_writes hne false (by decide) mm).append
    (mapNewPagesOps_writes hne true (by decide) _)

theorem setPage_update (tab : Task → Nat → PageTableEntry) (t : Task) (row : Nat → PageTableEntry)
    (page : Nat) (e : PageTableEntry) : setPage (Function.update tab t row) t page e =
      Function.update tab t (Function.update row page e) := by
  unfold setPage
  rw [Function.update_self, Function.update_idem]

theorem initTablePageOps_writes (t : Task) (row : Nat → PageTableEntry) :
    Writes (fun _ => True) c (initTablePageOps t row) (Function.update tab t row)
      (Function.update tab t (initTablePage row)) := by
  have hzero := (Writes.loop (S := fun _ => True) (c := c)
    (F := fun row : Nat → PageTableEntry => Function.update tab t row) (s := row) (n := totalPages)
    (g := fun i _ => [PageOp.assign t i .entry]) (f := fun i pt => Function.update pt i .zero)
    (I := fun _ _ => True) trivial fun i row hi _ => ⟨trivial, ?_⟩).1
  · refine hzero.append (Writes.loop (F := fun row : Nat → PageTableEntry =>
      Function.update tab t row) (I := fun _ _ => True) trivial fun i row hi _ => ⟨trivial, ?_⟩).1
    have hpage : 1 + i < totalPages := by
      simp only [numPagKernel, totalPages] at *
      omega
    have h : Writes (fun _ => True) c
        (assigns t (1 + i) [.pbaseAddr (BitVec.ofNat 32 (1 + i)), .rw, .present])
        (Function.update tab t row) (setPage (Function.update tab t row) t (1 + i) _) :=
      assigns_writes hpage trivial _
    rw [setPage_update, Function.update_self] at h
    have hf : (BitVec.ofNat 32 (1 + i)).toNat % 2 ^ 20 = 1 + i := by
      simp only [numPagKernel] at hi
      rw [BitVec.toNat_ofNat]
      omega
    have e : ([.pbaseAddr (BitVec.ofNat 32 (1 + i)), .rw, .present] : List Assign).foldl
        Assign.apply (row (1 + i)) =
          { row (1 + i) with pbaseAddr := 1 + i, rw := true, present := true } := by
      show { row (1 + i) with
        pbaseAddr := (BitVec.ofNat 32 (1 + i)).toNat % 2 ^ 20, rw := true, present := true } = _
      rw [hf]
    rw [e] at h
    exact h
  · have h : Writes (fun _ => True) c [.assign t i .entry] (Function.update tab t row)
        (setPage (Function.update tab t row) t i .zero) := assign_writes hi trivial .entry
    rwa [setPage_update] at h

theorem initTablePagesOps_writes (mm : Mm) :
    Writes (fun _ => True) c (initTablePagesOps mm.pagusrTable) mm.pagusrTable
      (initTablePages mm).pagusrTable := by
  refine (Writes.loop (F := id) (I := fun _ _ => True) trivial fun j T hj _ => ⟨trivial, ?_⟩).1
  have h : Writes (fun _ => True) c
      (initTablePageOps (Fin.ofNat nrTasks j) (T (Fin.ofNat nrTasks j)))
      (Function.update T (Fin.ofNat nrTasks j) (T (Fin.ofNat nrTasks j))) _ :=
    initTablePageOps_writes (Fin.ofNat nrTasks j) _
  rw [Function.update_eq_self] at h
  have e : (fun t : Task => if t.val = j then initTablePage (T t) else T t) =
      Function.update T (Fin.ofNat nrTasks j) (initTablePage (T (Fin.ofNat nrTasks j))) := by
    funext t
    rw [Function.update_apply]
    have hval : (Fin.ofNat nrTasks j : Task).val = j := Nat.mod_eq_of_lt hj
    by_cases ht : t = Fin.ofNat nrTasks j
    · rw [if_pos ht, ht, if_pos hval]
    · rw [if_neg ht, if_neg fun hv => ht (Fin.ext (hv.trans hval.symm))]
  show Writes _ _ _ T (fun t : Task => if t.val = j then initTablePage (T t) else T t)
  rw [e]
  exact h

end

/-! ## the processor at boot -/

/-- assignments to the fields of the word `n` -/
def storeFields (as : List Assign) (n : Nat) (m : Mmu) : Mmu :=
  as.foldl (fun m a => m.store n (a.word (m.mem n))) m

def initDirPagesWords (L : PageArrays) : Mmu → Mmu :=
  forUp (fun i m =>
    let t : Task := Fin.ofNat nrTasks i
    storeFields [.entry, .pbaseAddr (L.tableAddr t >>> 12), .user, .rw, .present] (L.dirWord t 0) m)
    nrTasks

/-- the word `n` is one of the arrays, which are zero in the kernel image -/
def PageArrays.Holds (L : PageArrays) (n : Nat) : Prop :=
  (L.dirPages ≤ n / 1024 ∧ n / 1024 < L.dirPages + nrTasks) ∨
    (L.pagusrTable ≤ n / 1024 ∧ n / 1024 < L.pagusrTable + nrTasks)

instance (L : PageArrays) (n : Nat) : Decidable (L.Holds n) := inferInstanceAs (Decidable (_ ∨ _))

def kernelImage (L : PageArrays) (m : Mmu) : Mmu :=
  { m with mem := fun n => if L.Holds n then 0 else m.mem n }

/-- `init_mm` up to `set_pe_flag` -/
def initMmWords (L : PageArrays) (m : Mmu) : Mmu :=
  let m := runOps L (initTablePagesOps fun _ _ => .zero) [] m
  let m := initDirPagesWords L m
  PageOp.exec L m (.setCr3 0)

/-- from there on paging is on, also while `init_task1` maps the pages of the first program -/
def bootMmu (L : PageArrays) (m : Mmu) (ts : List (List Touch)) : Mmu :=
  runOps L (setUserPagesOps bootTables 8 ++ [.setCr3 8]) ts (initMmWords L (kernelImage L m))

section
variable {L : PageArrays} {m : Mmu}

theorem storeFields_mem (as : List Assign) (n : Nat) (m : Mmu) (k : Nat) :
    (storeFields as n m).mem k = if k = n then as.foldl Assign.word (m.mem k) else m.mem k := by
  induction as generalizing m with
  | nil => exact (ite_self _).symm
  | cons a as ih =>
    show (storeFields as n (m.store n (a.word (m.mem n)))).mem k = _
    rw [ih]
    unfold Mmu.store
    dsimp only
    rw [Function.update_apply]
    by_cases h : k = n
    · rw [if_pos h, if_pos h, if_pos h, h]
      rfl
    · rw [if_neg h, if_neg h, if_neg h]

theorem Encodes.assigns {w : DWord} {e : PageTableEntry} (h : Encodes w e) (as : List Assign) :
    Encodes (as.foldl Assign.word w) (as.foldl Assign.apply e) := by
  induction as generalizing w e with
  | nil => exact h
  | cons a as ih => exact ih (h.assign a)

/-- before paging is on -/
structure Loaded (L : PageArrays) (tab : Task → Nat → PageTableEntry) (m : Mmu) : Prop where
  dir : ∀ t i, i < 1024 → m.mem (L.dirWord t i) = 0
  table : ∀ t p, p < 1024 → Encodes (m.mem (L.tableWord t p)) (tab t p)

theorem kernelImage_loaded (L : PageArrays) (m : Mmu) :
    Loaded L (fun _ _ => .zero) (kernelImage L m) := by
  refine ⟨fun t i hi => ?_, fun t p hp => ?_⟩
  · have hword : L.Holds (L.dirWord t i) := by
      have ht := t.isLt
      unfold PageArrays.Holds PageArrays.dirWord
      simp only [nrTasks] at *
      omega
    exact if_pos hword
  · have hword : L.Holds (L.tableWord t p) := by
      have ht := t.isLt
      unfold PageArrays.Holds PageArrays.tableWord
      simp only [nrTasks] at *
      omega
    show Encodes (if L.Holds _ then 0 else _) .zero
    rw [if_pos hword]
    exact encodes_zero

theorem Loaded.run {T : Tables} {ops : List PageOp} (hops : ∀ op ∈ ops, op.InRange)
    (h : Loaded L T.pagusrTable m) :
    Loaded L (ops.foldl PageOp.apply T).pagusrTable (runOps L ops [] m) := by
  induction ops generalizing T m with
  | nil => exact h
  | cons op ops ih =>
    refine ih (fun o ho => hops o (List.mem_cons_of_mem _ ho)) ?_
    have hop := hops op List.mem_cons_self
    show Loaded L (PageOp.apply T op).pagusrTable (op.exec L m)
    cases op with
    | setCr3 dir => exact ⟨h.dir, h.table⟩
    | assign pt page a =>
      have hp : page < 1024 := hop
      refine ⟨fun t i hi => ?_, fun t p hlt => ?_⟩
      · rw [exec_assign_mem, if_neg (L.tableWord_ne_dirWord pt t hp hi).symm]
        exact h.dir t i hi
      · exact table_assign h.table pt hp a hlt

/-- the entries of the directories -/
theorem initDirPagesWords_mem {tab : Task → Nat → PageTableEntry} (h : Loaded L tab m) :
    (∀ t, Encodes ((initDirPagesWords L m).mem (L.dirWord t 0))
        ⟨true, true, true, L.pagusrTable + t⟩) ∧
      ∀ n, (∀ t, n ≠ L.dirWord t 0) → (initDirPagesWords L m).mem n = m.mem n := by
  have hrule := forUp_rule (n := nrTasks) (s := m) (I := fun i (m' : Mmu) =>
      (∀ t : Task, t.val < i → Encodes (m'.mem (L.dirWord t 0))
        ⟨true, true, true, L.pagusrTable + t⟩) ∧
      (∀ t : Task, i ≤ t.val → m'.mem (L.dirWord t 0) = 0) ∧
      ∀ n, (∀ t, n ≠ L.dirWord t 0) → m'.mem n = m.mem n)
    (f := fun i m =>
      let t : Task := Fin.ofNat nrTasks i
      storeFields [.entry, .pbaseAddr (L.tableAddr t >>> 12), .user, .rw, .present]
        (L.dirWord t 0) m)
    ⟨fun t ht => absurd ht (Nat.not_lt_zero _), fun t _ => h.dir t 0 (by decide),
      fun _ _ => rfl⟩ ?_
  · exact ⟨fun t => hrule.1 t t.isLt, hrule.2.2⟩
  · intro i m' hi hI
    obtain ⟨hdone, hleft, hrest⟩ := hI
    have hval : (Fin.ofNat nrTasks i : Task).val = i := Nat.mod_eq_of_lt hi
    have hinj : ∀ t : Task, L.dirWord t 0 = L.dirWord (Fin.ofNat nrTasks i) 0 ↔ t.val = i := by
      intro t
      unfold PageArrays.dirWord
      rw [hval]
      omega
    dsimp only
    refine ⟨fun t ht => ?_, fun t ht => ?_, fun n hn => ?_⟩
    · rw [storeFields_mem]
      by_cases he : t.val = i
      · have henc := (encodes_zero).assigns
          [.entry, .pbaseAddr (L.tableAddr (Fin.ofNat nrTasks i) >>> 12), .user, .rw, .present]
        have hbase : (L.tableAddr (Fin.ofNat nrTasks i) >>> 12).toNat % 2 ^ 20 =
            L.pagusrTable + t := by
          have hfit := L.tables_fit
          have hlt : L.pagusrTable + t < 2 ^ 20 := Nat.lt_of_lt_of_le
            (Nat.add_lt_add_left t.isLt _) hfit
          have hb := PageArrays.base_ofNat hlt
          unfold base at hb
          unfold PageArrays.tableAddr
          rw [hval, ← he, hb, Nat.mod_eq_of_lt hlt]
        rw [if_pos ((hinj t).mpr he), hleft t (by omega), ← hbase]
        exact henc
      · rw [if_neg fun e => he ((hinj t).mp e)]
        exact hdone t (by omega)
    · rw [storeFields_mem, if_neg fun e => absurd ((hinj t).mp e) (by omega)]
      exact hleft t (by omega)
    · rw [storeFields_mem, if_neg (hn _)]
      exact hrest n hn

theorem apply_setCr3 (tab : Task → Nat → PageTableEntry) (c : Task) (st : List Nat) (dir : Task) :
    [PageOp.setCr3 dir].foldl PageOp.apply ⟨tab, c, st⟩ = ⟨tab, dir, []⟩ := rfl

theorem initMmWords_agrees (L : PageArrays) (m : Mmu) :
    Agrees L ⟨bootTables.pagusrTable, 0, []⟩ (initMmWords L (kernelImage L m)) := by
  have hw : Writes (fun _ => True) 0 (initTablePagesOps fun _ _ => .zero) (fun _ _ => .zero)
      bootTables.pagusrTable :=
    initTablePagesOps_writes ⟨fun _ => 0, fun _ _ => .zero, fun _ => .freeFrame⟩
  obtain ⟨st, -, hrun⟩ := hw.run []
  have hload := Loaded.run (T := ⟨fun _ _ => .zero, 0, []⟩) hw.inRange (kernelImage_loaded L m)
  rw [hrun] at hload
  dsimp only at hload
  unfold initMmWords
  dsimp only
  generalize runOps L (initTablePagesOps fun _ _ => .zero) [] (kernelImage L m) = m₁ at hload
  obtain ⟨hdir, hrest⟩ := initDirPagesWords_mem hload
  refine ⟨L.base_dirAddr 0, hdir, fun t i h0 hi => ?_, fun t p hp => ?_, .load _ _ _⟩
  · have hne : ∀ u, L.dirWord t i ≠ L.dirWord u 0 := by
      intro u
      unfold PageArrays.dirWord
      omega
    show present ((initDirPagesWords L m₁).mem (L.dirWord t i)) = false
    rw [hrest _ hne, hload.dir t i hi]
    rfl
  · show Encodes ((initDirPagesWords L m₁).mem (L.tableWord t p)) (bootTables.pagusrTable t p)
    rw [hrest _ fun u => L.tableWord_ne_dirWord t u hp (by decide)]
    exact hload.table t p hp

/-- **The first program** finds its tables, whatever the processor has done since paging is on. -/
theorem bootMmu_agrees (L : PageArrays) (m : Mmu) (ts : List (List Touch)) :
    Agrees L ⟨(setUserPages bootTables 8).pagusrTable, 8, []⟩ (bootMmu L m ts) := by
  have hw : Writes (fun _ => False) 0 (setUserPagesOps bootTables 8) bootTables.pagusrTable
      (setUserPages bootTables 8).pagusrTable := setUserPagesOps_writes (by decide) bootTables
  obtain ⟨st, -, hrun⟩ := hw.run []
  have hrange : ∀ op ∈ setUserPagesOps bootTables 8 ++ [.setCr3 8], op.InRange := by
    intro op hop
    obtain hop | hop := List.mem_append.mp hop
    · exact hw.inRange op hop
    · rw [List.mem_singleton.mp hop]
      trivial
  have h := (initMmWords_agrees L m).run hrange ts
  rw [List.foldl_append, hrun, apply_setCr3] at h
  exact h

end
end Zeos
