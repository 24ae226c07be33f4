import ZeroOS.Lib.Paging
import ZeroOS.Zeos.Mm

/-!
# Zeos: the page tables as words

The arrays `dir_pages` and `pagusr_table` as the processor sees them: words of physical memory, which
the kernel writes one field of the union `page_table_entry` after the other, while the processor
walks them whenever it likes.

* `Assign`          an assignment to a field, on the word and on the entry; `Encodes.assign`;
* `PageArrays`      where the linker has put the arrays;
* `PageOp`, `runOps`   what the kernel does to tables and `cr3`, with the processor in between;
* `Tables`          the same with entries; the pages that it forgets to flush are `stale`;
* `Agrees`          the two agree, and `Agrees.run` keeps it;
* `Agrees.translate`   **the processor translates as the entries say**, with the TLB.
-/

set_option linter.unusedVariables false

namespace Zeos
open Paging

/-! ## the union -/

inductive Assign where
  /-- `entry = 0` -/
  | entry
  | pbaseAddr (frame : DWord)
  | user
  | rw
  | present

/-- in the word -/
def Assign.word (w : DWord) : Assign → DWord
  | .entry => 0
  | .pbaseAddr frame => setField w 12 20 frame
  | .user => setField w 2 1 1
  | .rw => setField w 1 1 1
  | .present => setField w 0 1 1

/-- in the record -/
def Assign.apply (e : PageTableEntry) : Assign → PageTableEntry
  | .entry => .zero
  | .pbaseAddr frame => { e with pbaseAddr := frame.toNat % 2 ^ 20 }
  | .user => { e with user := true }
  | .rw => { e with rw := true }
  | .present => { e with present := true }

structure Encodes (w : DWord) (e : PageTableEntry) : Prop where
  present : Paging.present w = e.present
  rw : writable w = e.rw
  user : Paging.user w = e.user
  pbaseAddr : base w = e.pbaseAddr

section
variable {w w' : DWord} {e : PageTableEntry}

theorem Encodes.congr (h : Encodes w e) (hs : Same w' w) : Encodes w' e :=
  ⟨hs.present_eq.trans h.present, hs.writable_eq.trans h.rw, hs.user_eq.trans h.user,
    hs.base_eq.trans h.pbaseAddr⟩

theorem encodes_zero : Encodes 0 .zero := ⟨rfl, rfl, rfl, rfl⟩

/-- a flag is set: the other fields stay -/
theorem getLsbD_setFlag (w : DWord) {k i : Nat} (hi : i < 32) :
    (setField w k 1 1).getLsbD i = if i = k then true else w.getLsbD i := by
  rw [getLsbD_setField w 1 hi]
  by_cases h : i = k
  · rw [if_pos (by omega), if_pos h, h, Nat.sub_self]
    rfl
  · rw [if_neg (by omega), if_neg h]

theorem Encodes.assign (h : Encodes w e) (a : Assign) : Encodes (a.word w) (a.apply e) := by
  obtain ⟨hp, hr, hu, hb⟩ := h
  cases a with
  | entry => exact encodes_zero
  | pbaseAddr frame =>
    have hbit : ∀ i, i < 12 → (setField w 12 20 frame).getLsbD i = w.getLsbD i := by
      intro i hi
      rw [getLsbD_setField w frame (by omega), if_neg (by omega)]
    exact ⟨(hbit 0 (by decide)).trans hp, (hbit 1 (by decide)).trans hr,
      (hbit 2 (by decide)).trans hu, base_setField w frame⟩
  | user =>
    exact ⟨(getLsbD_setFlag w (by decide)).trans hp, (getLsbD_setFlag w (by decide)).trans hr,
      getLsbD_setFlag w (by decide), (base_setField_low w 1 (by decide)).trans hb⟩
  | rw =>
    exact ⟨(getLsbD_setFlag w (by decide)).trans hp, getLsbD_setFlag w (by decide),
      (getLsbD_setFlag w (by decide)).trans hu, (base_setField_low w 1 (by decide)).trans hb⟩
  | present =>
    exact ⟨getLsbD_setFlag w (by decide), (getLsbD_setFlag w (by decide)).trans hr,
      (getLsbD_setFlag w (by decide)).trans hu, (base_setField_low w 1 (by decide)).trans hb⟩

end

/-! ## the arrays -/

/-- the numbers of the pages at which the arrays begin; both are in the section `.data.task` -/
structure PageArrays where
  dirPages : Nat
  pagusrTable : Nat
  apart : dirPages + nrTasks ≤ pagusrTable ∨ pagusrTable + nrTasks ≤ dirPages
  dirs_fit : dirPages + nrTasks ≤ 2 ^ 20
  tables_fit : pagusrTable + nrTasks ≤ 2 ^ 20

namespace PageArrays
variable (L : PageArrays)

def dirWord (t : Task) (i : Nat) : Nat := (L.dirPages + t) * 1024 + i
def tableWord (t : Task) (page : Nat) : Nat := (L.pagusrTable + t) * 1024 + page

/-- `(unsigned int)&dir_pages[t]` -/
def dirAddr (t : Task) : DWord := BitVec.ofNat 32 ((L.dirPages + t) * 4096)

/-- `(unsigned int)&pagusr_table[t]` -/
def tableAddr (t : Task) : DWord := BitVec.ofNat 32 ((L.pagusrTable + t) * 4096)

theorem base_ofNat {n : Nat} (h : n < 2 ^ 20) : base (BitVec.ofNat 32 (n * 4096)) = n := by
  unfold base
  rw [BitVec.toNat_ushiftRight, BitVec.toNat_ofNat, Nat.shiftRight_eq_div_pow]
  omega

theorem base_dirAddr (t : Task) : base (L.dirAddr t) = L.dirPages + t := by
  have h := L.dirs_fit
  have ht := t.isLt
  exact base_ofNat (by simp only [nrTasks] at *; omega)

theorem tableWord_inj {t u : Task} {p q : Nat} (hp : p < 1024) (hq : q < 1024) :
    L.tableWord t p = L.tableWord u q ↔ t = u ∧ p = q := by
  unfold tableWord
  constructor
  · intro h
    exact ⟨Fin.ext (by omega), by omega⟩
  · rintro ⟨rfl, rfl⟩
    rfl

theorem tableWord_ne_dirWord (t u : Task) {p i : Nat} (hp : p < 1024) (hi : i < 1024) :
    L.tableWord t p ≠ L.dirWord u i := by
  unfold tableWord dirWord
  have h := L.apart
  have ht := t.isLt
  have hu := u.isLt
  simp only [nrTasks] at *
  omega

end PageArrays

/-! ## what the kernel does -/

inductive PageOp where
  | assign (pt : Task) (page : Nat) (a : Assign)
  | setCr3 (dir : Task)

def PageOp.InRange : PageOp → Prop
  | .assign _ page _ => page < totalPages
  | .setCr3 _ => True

def PageOp.exec (L : PageArrays) (m : Mmu) : PageOp → Mmu
  | .assign pt page a => m.store (L.tableWord pt page) (a.word (m.mem (L.tableWord pt page)))
  | .setCr3 dir => m.load (L.dirAddr dir)

/-- the processor goes on between two operations: `ts` has what it does before each of them -/
def runOps (L : PageArrays) : List PageOp → List (List Touch) → Mmu → Mmu
  | [], _, m => m
  | op :: ops, ts, m => runOps L ops ts.tail (op.exec L ((ts.headD []).foldl Touch.exec m))

structure Tables where
  pagusrTable : Task → Nat → PageTableEntry
  cr3 : Task
  /-- the pages of the current directory that were mapped when their entries changed, since `cr3` was
  loaded -/
  stale : List Nat

def PageOp.apply (T : Tables) : PageOp → Tables
  | .assign pt page a =>
    { T with
      pagusrTable := Function.update T.pagusrTable pt
        (Function.update (T.pagusrTable pt) page (a.apply (T.pagusrTable pt page)))
      stale := if pt = T.cr3 ∧ (T.pagusrTable pt page).present = true then page :: T.stale
        else T.stale }
  | .setCr3 dir => { T with cr3 := dir, stale := [] }

section
variable (L : PageArrays) (T : Tables) (m : Mmu) (pt : Task) (page : Nat) (a : Assign)

theorem exec_assign_mem (n : Nat) : (PageOp.exec L m (.assign pt page a)).mem n =
    if n = L.tableWord pt page then a.word (m.mem n) else m.mem n := by
  unfold PageOp.exec Mmu.store
  dsimp only
  rw [Function.update_apply]
  by_cases h : n = L.tableWord pt page
  · rw [if_pos h, if_pos h, h]
  · rw [if_neg h, if_neg h]

theorem apply_assign_table (t : Task) (p : Nat) :
    (PageOp.apply T (.assign pt page a)).pagusrTable t p =
      if t = pt ∧ p = page then a.apply (T.pagusrTable t p) else T.pagusrTable t p := by
  unfold PageOp.apply
  dsimp only
  by_cases ht : t = pt
  · subst ht
    rw [Function.update_self, Function.update_apply]
    by_cases hp : p = page
    · rw [if_pos hp, if_pos ⟨rfl, hp⟩, hp]
    · rw [if_neg hp, if_neg fun e => hp e.2]
  · rw [Function.update_of_ne ht, if_neg fun e => ht e.1]

theorem apply_assign_stale : (PageOp.apply T (.assign pt page a)).stale =
    if pt = T.cr3 ∧ (T.pagusrTable pt page).present = true then page :: T.stale else T.stale := rfl

end

/-- the tables follow an assignment -/
theorem table_assign {L : PageArrays} {T : Tables} {m : Mmu}
    (h : ∀ t p, p < 1024 → Encodes (m.mem (L.tableWord t p)) (T.pagusrTable t p)) (pt : Task)
    {page : Nat} (hp : page < 1024) (a : Assign) {t : Task} {p : Nat} (hlt : p < 1024) :
    Encodes ((PageOp.exec L m (.assign pt page a)).mem (L.tableWord t p))
      ((PageOp.apply T (.assign pt page a)).pagusrTable t p) := by
  rw [exec_assign_mem, apply_assign_table]
  by_cases hsame : t = pt ∧ p = page
  · rw [if_pos ((L.tableWord_inj hlt hp).mpr hsame), if_pos hsame]
    exact (h t p hlt).assign a
  · rw [if_neg fun e => hsame ((L.tableWord_inj hlt hp).mp e), if_neg hsame]
    exact h t p hlt

/-- the rights that an access needs -/
def permitted (u w : Bool) (e : PageTableEntry) : Bool :=
  e.present && (!u || e.user) && (!(u && w) || e.rw)

def Tables.translate (T : Tables) (u w : Bool) (a : Nat) : Option Nat :=
  if a / pageSize < totalPages ∧ permitted u w (T.pagusrTable T.cr3 (a / pageSize)) = true then
    some ((T.pagusrTable T.cr3 (a / pageSize)).phys a)
  else none

theorem Tables.translate_of {T : Tables} {u w : Bool} {a : Nat} {e : PageTableEntry}
    (hlt : a / pageSize < totalPages) (he : T.pagusrTable T.cr3 (a / pageSize) = e)
    (hok : permitted u w e = true) : T.translate u w a = some (e.phys a) := by
  subst he
  exact if_pos ⟨hlt, hok⟩

structure Agrees (L : PageArrays) (T : Tables) (m : Mmu) : Prop where
  cr3 : base m.cr3 = L.dirPages + T.cr3
  dir : ∀ t, Encodes (m.mem (L.dirWord t 0)) ⟨true, true, true, L.pagusrTable + t⟩
  rest : ∀ t i, 0 < i → i < 1024 → present (m.mem (L.dirWord t i)) = false
  table : ∀ t p, p < 1024 → Encodes (m.mem (L.tableWord t p)) (T.pagusrTable t p)
  tlb : Paging.Coherent (fun page => page.toNat ∈ T.stale) m

section
variable {L : PageArrays} {T : Tables} {m : Mmu} {page : BitVec 20}

theorem Agrees.dirWord_eq (h : Agrees L T m) (page : BitVec 20) :
    m.dirWord page = L.dirWord T.cr3 (page.toNat / 1024) := by
  unfold Mmu.dirWord PageArrays.dirWord
  rw [h.cr3]

theorem Agrees.dirEntry_low (h : Agrees L T m) (hp : page.toNat < 1024) :
    m.dirEntry page = m.mem (L.dirWord T.cr3 0) := by
  unfold Mmu.dirEntry
  rw [h.dirWord_eq, Nat.div_eq_of_lt hp]

theorem Agrees.dirEntry_high (h : Agrees L T m) (hp : 1024 ≤ page.toNat) :
    present (m.dirEntry page) = false := by
  unfold Mmu.dirEntry
  rw [h.dirWord_eq]
  have hlt := page.isLt
  exact h.rest _ _ (by omega) (by omega)

theorem Agrees.tabWord_low (h : Agrees L T m) (hp : page.toNat < 1024) :
    Mmu.tabWord (m.dirEntry page) page = L.tableWord T.cr3 page.toNat := by
  unfold Mmu.tabWord PageArrays.tableWord
  rw [h.dirEntry_low hp, (h.dir T.cr3).pbaseAddr, Nat.mod_eq_of_lt hp]

theorem Agrees.tabEntry_low (h : Agrees L T m) (hp : page.toNat < 1024) :
    m.tabEntry page = m.mem (L.tableWord T.cr3 page.toNat) :=
  congrArg m.mem (h.tabWord_low hp)

/-- what is in the TLB has an entry in the table -/
theorem Agrees.cached (h : Agrees L T m) (hp : page.toNat ∉ T.stale) (ht : m.tlb page ≠ none) :
    page.toNat < 1024 ∧ (T.pagusrTable T.cr3 page.toNat).present = true := by
  obtain ⟨hd, he⟩ := h.tlb.present hp ht
  have hlt : page.toNat < 1024 := by
    by_contra hge
    rw [h.dirEntry_high (by omega)] at hd
    cases hd
  refine ⟨hlt, ?_⟩
  rw [← (h.table T.cr3 page.toNat hlt).present, ← h.tabEntry_low hlt]
  exact he

/-! ## steps -/

theorem Agrees.touch (h : Agrees L T m) (t : Touch) : Agrees L T (t.exec m) := by
  obtain ⟨h3, hd, hr, ht, htlb⟩ := h
  have hm := t.exec_mem m
  refine ⟨?_, fun t => (hd t).congr (hm _), fun t i h0 hi => ?_,
    fun t p hp => (ht t p hp).congr (hm _), htlb.touch t⟩
  · rw [t.exec_cr3]
    exact h3
  · rw [(hm _).present_eq]
    exact hr t i h0 hi

theorem Agrees.touches (h : Agrees L T m) (ts : List Touch) :
    Agrees L T (ts.foldl Touch.exec m) := by
  induction ts generalizing m with
  | nil => exact h
  | cons t ts ih => exact ih (h.touch t)

theorem Agrees.assign (h : Agrees L T m) (pt : Task) {page : Nat} (hp : page < totalPages)
    (a : Assign) :
    Agrees L (PageOp.apply T (.assign pt page a)) (PageOp.exec L m (.assign pt page a)) := by
  have hp : page < 1024 := hp
  refine ⟨h.cr3, fun t => ?_, fun t i h0 hi => ?_, fun t p hlt => ?_, ?_⟩
  · rw [exec_assign_mem, if_neg (L.tableWord_ne_dirWord pt t hp (by decide)).symm]
    exact h.dir t
  · rw [exec_assign_mem, if_neg (L.tableWord_ne_dirWord pt t hp hi).symm]
    exact h.rest t i h0 hi
  · exact table_assign h.table pt hp a hlt
  · -- a page that stays exact has its walk elsewhere
    have hst : ∀ q : BitVec 20, q.toNat ∉ (PageOp.apply T (.assign pt page a)).stale →
        q.toNat ∉ T.stale := by
      intro q hq hmem
      rw [apply_assign_stale] at hq
      split at hq
      · exact hq (List.mem_cons_of_mem _ hmem)
      · exact hq hmem
    refine h.tlb.store hst fun q hq ht => ?_
    obtain ⟨hlt, hpres⟩ := h.cached (hst q hq) ht
    rw [h.dirWord_eq, h.tabWord_low hlt]
    refine ⟨L.tableWord_ne_dirWord _ _ hp (by omega), fun e => hq ?_⟩
    obtain ⟨rfl, rfl⟩ := (L.tableWord_inj hp hlt).mp e
    rw [apply_assign_stale, if_pos ⟨rfl, hpres⟩]
    exact List.mem_cons_self

theorem Agrees.setCr3 (h : Agrees L T m) (dir : Task) :
    Agrees L (PageOp.apply T (.setCr3 dir)) (PageOp.exec L m (.setCr3 dir)) :=
  ⟨L.base_dirAddr dir, h.dir, h.rest, h.table, .load m _ _⟩

theorem Agrees.run {ops : List PageOp} (hops : ∀ op ∈ ops, op.InRange) (h : Agrees L T m)
    (ts : List (List Touch)) : Agrees L (ops.foldl PageOp.apply T) (runOps L ops ts m) := by
  induction ops generalizing T m ts with
  | nil => exact h
  | cons op ops ih =>
    refine ih (fun o ho => hops o (List.mem_cons_of_mem _ ho)) ?_ ts.tail
    have ht := h.touches (ts.headD [])
    have hop := hops op List.mem_cons_self
    cases op with
    | assign pt page a => exact ht.assign pt hop a
    | setCr3 dir => exact ht.setCr3 dir

/-! ## translation -/

theorem pageOf_toNat (a : DWord) : (Mmu.pageOf a).toNat = a.toNat / 4096 := by
  unfold Mmu.pageOf
  rw [BitVec.extractLsb'_toNat, Nat.shiftRight_eq_div_pow]
  have := a.isLt
  omega

/-- **The processor translates as the entries say**, on every page that is not stale. -/
theorem Agrees.translate (h : Agrees L T m) (u w : Bool) {a : DWord}
    (ha : a.toNat / pageSize ∉ T.stale) : m.translate u w a = T.translate u w a.toNat := by
  have hpage := pageOf_toNat a
  rw [h.tlb.translate_eq u w (by rwa [hpage])]
  unfold Mmu.walk Tables.translate
  by_cases hlt : a.toNat / 4096 < 1024
  · have hlt' : (Mmu.pageOf a).toNat < 1024 := by rwa [hpage]
    have hd := h.dir T.cr3
    have he := h.table T.cr3 (a.toNat / 4096) hlt
    rw [h.dirEntry_low hlt', h.tabEntry_low hlt', hpage, hd.present, he.present, Bool.true_and]
    have hdp : permits u w (m.mem (L.dirWord T.cr3 0)) = true := by
      unfold permits
      rw [hd.present, hd.rw, hd.user]
      cases u <;> cases w <;> rfl
    have hep : permits u w (m.mem (L.tableWord T.cr3 (a.toNat / 4096))) =
        permitted u w (T.pagusrTable T.cr3 (a.toNat / 4096)) := by
      unfold permits permitted
      rw [he.present, he.rw, he.user]
    by_cases hp : permitted u w (T.pagusrTable T.cr3 (a.toNat / 4096)) = true
    · have hpres : (T.pagusrTable T.cr3 (a.toNat / 4096)).present = true := by
        unfold permitted at hp
        rw [Bool.and_eq_true, Bool.and_eq_true] at hp
        exact hp.1.1
      rw [if_pos hpres, if_pos ⟨hlt, hp⟩]
      unfold Mmu.resolve
      dsimp only
      rw [hdp, hep, hp, he.pbaseAddr]
      rfl
    · have hno : ¬ (a.toNat / pageSize < totalPages ∧
          permitted u w (T.pagusrTable T.cr3 (a.toNat / pageSize)) = true) := fun hc => hp hc.2
      rw [if_neg hno]
      split
      · unfold Mmu.resolve
        dsimp only
        rw [hdp, hep, Bool.true_and, if_neg hp]
      · rfl
  · have hge : 1024 ≤ (Mmu.pageOf a).toNat := by omega
    rw [h.dirEntry_high hge, Bool.false_and, if_neg Bool.false_ne_true, if_neg fun hc => hlt hc.1]
    rfl

end
end Zeos
