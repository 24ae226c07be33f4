import ZeroOS.Zeos.Types
import ZeroOS.Lib.Programs

/-!
# Zeos: `mm.c`

Page tables, the byte map of the physical pages, and the translation of addresses that the MMU
makes with them.

* `allocFrame`, `freeFrame`     the allocator looks at every second frame only;
* `setSsPag`, `delSsPag`, `getFrame`, `setUserPages`   one entry of a page table;
* `initFrames`, `initDirPages`, `initTablePages`     the tables at boot;
* `mmu`, `userStoreAddr`        the MMU: kernel accesses and user stores.
-/

set_option linter.unusedVariables false
set_option linter.unusedSectionVars false

namespace Zeos
open Programs

/-! ## page tables -/

/-- overwrite the entry `page` of the page table `pt` -/
def Mm.setEntry (mm : Mm) (pt : Task) (page : Nat) (e : PageTableEntry) : Mm :=
  { mm with
    pagusrTable := Function.update mm.pagusrTable pt (Function.update (mm.pagusrTable pt) page e) }

@[simp] theorem Mm.setEntry_dirPages (mm : Mm) (pt : Task) (page : Nat) (e : PageTableEntry) :
    (mm.setEntry pt page e).dirPages = mm.dirPages := rfl
@[simp] theorem Mm.setEntry_physMem (mm : Mm) (pt : Task) (page : Nat) (e : PageTableEntry) :
    (mm.setEntry pt page e).physMem = mm.physMem := rfl

theorem Mm.setEntry_apply (mm : Mm) (pt : Task) (page : Nat) (e : PageTableEntry) (t : Task)
    (p : Nat) : (mm.setEntry pt page e).pagusrTable t p =
      if t = pt ∧ p = page then e else mm.pagusrTable t p := by
  unfold Mm.setEntry
  by_cases ht : t = pt
  · subst ht
    simp [Function.update_apply]
  · simp [ht]

/-- the entry that `set_ss_pag` writes; the field `pbase_addr` has 20 bits -/
def ssEntry (frame : Nat) : PageTableEntry :=
  { PageTableEntry.zero with pbaseAddr := frame % 2 ^ 20, user := true, rw := true, present := true }

def setSsPag (mm : Mm) (pt : Task) (page frame : Nat) : Mm :=
  mm.setEntry pt page (ssEntry frame)

def delSsPag (mm : Mm) (pt : Task) (logicalPage : Nat) : Mm :=
  mm.setEntry pt logicalPage .zero

def getFrame (mm : Mm) (pt : Task) (logicalPage : Nat) : Nat :=
  (mm.pagusrTable pt logicalPage).pbaseAddr

/-! ## frames -/

def initFrames (mm : Mm) : Mm :=
  let mm := { mm with
    physMem := forUp (fun i m => Function.update m i .freeFrame) totalPages mm.physMem }
  { mm with physMem := forUp (fun i m => Function.update m i .usedFrame) numPagKernel mm.physMem }

/-- the search loop of `alloc_frame`, from frame `i`: at most `n` more rounds -/
def allocScan (physMem : Nat → FrameMark) : Nat → Nat → Option Nat
  | 0, _ => none
  | n + 1, i =>
    if i < totalPages then
      if physMem i = .freeFrame then some i else allocScan physMem n (i + 2)
    else none

def allocFrame (mm : Mm) : Int × Mm :=
  match allocScan mm.physMem totalPages numPagKernel with
  | some i => (i, { mm with physMem := Function.update mm.physMem i .usedFrame })
  | none => (-1, mm)

def freeFrame (mm : Mm) (frame : Nat) : Mm :=
  if frame > numPagKernel ∧ frame < totalPages then
    { mm with physMem := Function.update mm.physMem frame .freeFrame }
  else mm

/-! ## the tables at boot -/

def initDirPages (mm : Mm) : Mm :=
  { mm with dirPages := forUp (fun i d t => if t.val = i then t else d t) nrTasks mm.dirPages }

/-- one page table: every entry 0, then the kernel pages except page 0 -/
def initTablePage (pt : Nat → PageTableEntry) : Nat → PageTableEntry :=
  let pt := forUp (fun i pt => Function.update pt i .zero) totalPages pt
  forUp (fun i pt =>
    let e := pt (1 + i)
    Function.update pt (1 + i) { e with pbaseAddr := 1 + i, rw := true, present := true })
    (numPagKernel - 1) pt

def initTablePages (mm : Mm) : Mm :=
  { mm with
    pagusrTable :=
      forUp (fun j T t => if t.val = j then initTablePage (T t) else T t) nrTasks mm.pagusrTable }

/-- a loop of `set_user_pages`: a new frame for each of the `n` pages from `page` on -/
def mapNewPages (pt : Task) (page : Nat) (rw : Bool) (n : Nat) (mm : Mm) : Mm :=
  forUp (fun pag mm =>
    let (newPhPag, mm) := allocFrame mm
    mm.setEntry pt (page + pag)
      { PageTableEntry.zero with
        pbaseAddr := (newPhPag % 2 ^ 20).toNat, user := true, rw := rw, present := true }) n mm

/-- `set_user_pages` on the page table `pt`, the one of the initial process -/
def setUserPages (mm : Mm) (pt : Task) : Mm :=
  /- CODE -/
  let mm := mapNewPages pt pagLogInitCodeP0 false numPagCode mm
  /- DATA -/
  mapNewPages pt pagLogInitDataP0 true numPagData mm

/-! ## the MMU -/

/-- The entry that translates the address `a` under the directory `dir`: only entry 0 of a
directory is set, so only the first 1024 pages are mapped at all. -/
def pageEntry (mm : Mm) (dir : Task) (a : Nat) : Option PageTableEntry :=
  if a / pageSize < totalPages then some (mm.pagusrTable (mm.dirPages dir) (a / pageSize))
  else none

def PageTableEntry.phys (e : PageTableEntry) (a : Nat) : Nat :=
  e.pbaseAddr * pageSize + a % pageSize

/-- the physical address of `a`, if the entry that translates it has `ok` -/
def translate (ok : PageTableEntry → Bool) (mm : Mm) (dir : Task) (a : Nat) : Option Nat :=
  match pageEntry mm dir a with
  | some e => if ok e then some (e.phys a) else none
  | none => none

/-- the physical address of a kernel access (`cr0.WP` is off: a kernel store needs no `rw`), if it
does not end in a page fault -/
def mmu (s : State) (a : Nat) : Option Nat := translate (fun e => e.present) s.mm s.cr3 a

/-- the physical address of a user load -/
def userLoadAddr (mm : Mm) (dir : Task) (a : Nat) : Option Nat :=
  translate (fun e => e.present && e.user) mm dir a

/-- the physical address of a user store -/
def userStoreAddr (mm : Mm) (dir : Task) (a : Nat) : Option Nat :=
  translate (fun e => e.present && e.user && e.rw) mm dir a

theorem translate_eq_some {ok : PageTableEntry → Bool} {mm : Mm} {dir : Task} {a x : Nat} :
    translate ok mm dir a = some x ↔ a / 4096 < 1024 ∧
      ok (mm.pagusrTable (mm.dirPages dir) (a / 4096)) = true ∧
      x = (mm.pagusrTable (mm.dirPages dir) (a / 4096)).pbaseAddr * 4096 + a % 4096 := by
  unfold translate pageEntry
  by_cases h : a / 4096 < 1024
  · rw [if_pos h]
    dsimp only
    by_cases hok : ok (mm.pagusrTable (mm.dirPages dir) (a / 4096)) = true
    · rw [if_pos hok]
      exact ⟨fun e => ⟨h, hok, (Option.some.inj e).symm⟩, fun e => congrArg some e.2.2.symm⟩
    · rw [if_neg hok]
      exact ⟨fun e => (nomatch e), fun e => absurd e.2.1 hok⟩
  · rw [if_neg h]
    exact ⟨fun e => (nomatch e), fun e => absurd e.1 h⟩

end Zeos
