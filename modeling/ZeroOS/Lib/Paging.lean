import Mathlib.Data.BitVec
import Mathlib.Data.Option.Basic
import Mathlib.Logic.Function.Basic

/-!
# Paging of the 32-bit x86

Directories and page tables as words of physical memory, and a processor that keeps translations in
its TLB.

* `setField`, `getLsbD_setField`   the assignment to a bit field of a word;
* `Same`        two entries that differ in `accessed` and `dirty` only;
* `Mmu`         the words, `cr3` and the TLB;
* `Touch`       what the processor does on its own: it loads a translation, sets `accessed` and `dirty`
  in the entries, or drops a translation;
* `Coherent`    what the TLB has is what the tables say, except on the stale pages;
* `Coherent.translate_eq`   there the processor translates as the tables say;
* `Coherent.touch`, `Coherent.load`, `Coherent.store`   what keeps it.
-/

set_option linter.unusedVariables false

namespace Paging

/-! ## bit fields -/

/-- `v` goes to the `n` bits of `w` from `lo` on -/
def setField (w : BitVec 32) (lo n : Nat) (v : BitVec 32) : BitVec 32 :=
  let mask := BitVec.ofNat 32 (2 ^ n - 1)
  (w &&& ~~~(mask <<< lo)) ||| ((v &&& mask) <<< lo)

theorem getLsbD_mask {n i : Nat} (hi : i < 32) :
    (BitVec.ofNat 32 (2 ^ n - 1)).getLsbD i = decide (i < n) := by
  rw [BitVec.getLsbD_ofNat, Nat.testBit_two_pow_sub_one, decide_eq_true hi, Bool.true_and]

theorem getLsbD_setField (w v : BitVec 32) {lo n i : Nat} (hi : i < 32) :
    (setField w lo n v).getLsbD i =
      if lo ≤ i ∧ i < lo + n then v.getLsbD (i - lo) else w.getLsbD i := by
  have hmask := getLsbD_mask (n := n) (show i - lo < 32 by omega)
  simp only [setField, BitVec.getLsbD_or, BitVec.getLsbD_and, BitVec.getLsbD_not,
    BitVec.getLsbD_shiftLeft, hmask, decide_eq_true hi, Bool.true_and]
  by_cases h1 : i < lo
  · rw [if_neg (by omega)]
    simp [h1]
  · by_cases h2 : i - lo < n
    · rw [if_pos (by omega)]
      simp [h1, h2]
    · rw [if_neg (by omega)]
      simp [h1, h2]

/-! ## entries -/

def present (e : BitVec 32) : Bool := e.getLsbD 0
def writable (e : BitVec 32) : Bool := e.getLsbD 1
def user (e : BitVec 32) : Bool := e.getLsbD 2

/-- the number of the page that an entry, or `cr3`, points at -/
def base (e : BitVec 32) : Nat := (e >>> 12).toNat

/-- `cr0.WP` is off: the rights bind user code only -/
def permits (u w : Bool) (e : BitVec 32) : Bool :=
  present e && (!u || user e) && (!(u && w) || writable e)

theorem base_setField_low (w v : BitVec 32) {lo n : Nat} (h : lo + n ≤ 12) :
    base (setField w lo n v) = base w := by
  unfold base
  refine congrArg BitVec.toNat (BitVec.eq_of_getLsbD_eq fun i hi => ?_)
  rw [BitVec.getLsbD_ushiftRight, BitVec.getLsbD_ushiftRight]
  by_cases h32 : 12 + i < 32
  · rw [getLsbD_setField w v h32, if_neg (by omega)]
  · rw [BitVec.getLsbD_of_ge _ _ (by omega), BitVec.getLsbD_of_ge _ _ (by omega)]

theorem base_setField (w v : BitVec 32) : base (setField w 12 20 v) = v.toNat % 2 ^ 20 := by
  have e : setField w 12 20 v >>> 12 = (v.setWidth 20).setWidth 32 := by
    refine BitVec.eq_of_getLsbD_eq fun i hi => ?_
    rw [BitVec.getLsbD_ushiftRight, BitVec.getLsbD_setWidth, BitVec.getLsbD_setWidth]
    by_cases h : i < 20
    · rw [getLsbD_setField w v (by omega), if_pos (by omega), Nat.add_sub_cancel_left]
      simp [h, hi]
    · rw [BitVec.getLsbD_of_ge _ _ (by omega)]
      simp [h]
  unfold base
  rw [e, BitVec.toNat_setWidth_of_le (by decide), BitVec.toNat_setWidth]

/-- equal but for `accessed` and `dirty` -/
def Same (e e' : BitVec 32) : Prop := ∀ i, i ≠ 5 → i ≠ 6 → e.getLsbD i = e'.getLsbD i

section
variable {e e' e'' : BitVec 32}

theorem Same.refl (e : BitVec 32) : Same e e := fun _ _ _ => rfl

theorem Same.trans (h : Same e e') (h' : Same e' e'') : Same e e'' :=
  fun i h5 h6 => (h i h5 h6).trans (h' i h5 h6)

theorem Same.symm (h : Same e e') : Same e' e := fun i h5 h6 => (h i h5 h6).symm

theorem Same.present_eq (h : Same e e') : present e = present e' := h 0 (by decide) (by decide)

theorem Same.writable_eq (h : Same e e') : writable e = writable e' := h 1 (by decide) (by decide)

theorem Same.user_eq (h : Same e e') : user e = user e' := h 2 (by decide) (by decide)

theorem Same.permits_eq (h : Same e e') (u w : Bool) : permits u w e = permits u w e' := by
  unfold permits
  rw [h.present_eq, h.writable_eq, h.user_eq]

theorem Same.base_eq (h : Same e e') : base e = base e' := by
  unfold base
  refine congrArg BitVec.toNat (BitVec.eq_of_getLsbD_eq fun i _ => ?_)
  rw [BitVec.getLsbD_ushiftRight, BitVec.getLsbD_ushiftRight]
  exact h (12 + i) (by omega) (by omega)

end

/-! ## the processor -/

structure Mmu where
  /-- the words of physical memory -/
  mem : Nat → BitVec 32
  cr3 : BitVec 32
  /-- the directory entry and the table entry of a page -/
  tlb : BitVec 20 → Option (BitVec 32 × BitVec 32)

namespace Mmu

def dirWord (m : Mmu) (page : BitVec 20) : Nat := base m.cr3 * 1024 + page.toNat / 1024
def tabWord (d : BitVec 32) (page : BitVec 20) : Nat := base d * 1024 + page.toNat % 1024

def dirEntry (m : Mmu) (page : BitVec 20) : BitVec 32 := m.mem (m.dirWord page)
def tabEntry (m : Mmu) (page : BitVec 20) : BitVec 32 := m.mem (tabWord (m.dirEntry page) page)

/-- the entries of a page, if both are present -/
def walk (m : Mmu) (page : BitVec 20) : Option (BitVec 32 × BitVec 32) :=
  if present (m.dirEntry page) && present (m.tabEntry page) then
    some (m.dirEntry page, m.tabEntry page)
  else none

def lookup (m : Mmu) (page : BitVec 20) : Option (BitVec 32 × BitVec 32) :=
  (m.tlb page).or (m.walk page)

def pageOf (a : BitVec 32) : BitVec 20 := a.extractLsb' 12 20

/-- the physical address that the entries give, if they permit the access -/
def resolve (u w : Bool) (a : BitVec 32) (x : Option (BitVec 32 × BitVec 32)) : Option Nat :=
  match x with
  | some (d, e) =>
    if permits u w d && permits u w e then some (base e * 4096 + a.toNat % 4096) else none
  | none => none

/-- an access of user code (`u`) or of the kernel, a store (`w`) or a load; `none` for a page fault -/
def translate (m : Mmu) (u w : Bool) (a : BitVec 32) : Option Nat :=
  resolve u w a (m.lookup (pageOf a))

/-- `mov cr3` -/
def load (m : Mmu) (dir : BitVec 32) : Mmu := { m with cr3 := dir, tlb := fun _ => none }

def store (m : Mmu) (n : Nat) (x : BitVec 32) : Mmu := { m with mem := Function.update m.mem n x }

end Mmu

inductive Touch where
  /-- a walk, for an access or ahead of one -/
  | walk (page : BitVec 20) (dirty : Bool)
  | drop (page : BitVec 20)

/-- a walk sets bits in both entries -/
def mark (m : Mmu) (page : BitVec 20) (dirty : Bool) : Mmu :=
  let d := m.dirEntry page
  let e := m.tabEntry page
  let accessed := m.store (m.dirWord page) (d ||| 0x20)
  accessed.store (Mmu.tabWord d page) (e ||| if dirty then 0x60 else 0x20)

def Touch.exec (m : Mmu) : Touch → Mmu
  | .walk page dirty =>
    if m.walk page = none then m
    else { mark m page dirty with tlb := Function.update m.tlb page (m.walk page) }
  | .drop page => { m with tlb := Function.update m.tlb page none }

/-! ## coherence -/

/-- the two pairs of entries translate alike -/
def SamePair (x y : Option (BitVec 32 × BitVec 32)) : Prop :=
  match x, y with
  | some (d, e), some (d', e') => Same d d' ∧ Same e e'
  | none, none => True
  | _, _ => False

theorem SamePair.refl (x : Option (BitVec 32 × BitVec 32)) : SamePair x x := by
  cases x with
  | none => trivial
  | some x => exact ⟨.refl _, .refl _⟩

theorem SamePair.trans {x y z : Option (BitVec 32 × BitVec 32)} (h : SamePair x y)
    (h' : SamePair y z) : SamePair x z := by
  cases x <;> cases y <;> cases z <;> try trivial
  exact ⟨h.1.trans h'.1, h.2.trans h'.2⟩

theorem SamePair.resolve_eq {x y : Option (BitVec 32 × BitVec 32)} (h : SamePair x y) (u w : Bool)
    (a : BitVec 32) : Mmu.resolve u w a x = Mmu.resolve u w a y := by
  cases x <;> cases y <;> try trivial
  unfold Mmu.resolve
  dsimp only
  rw [h.1.permits_eq, h.2.permits_eq, h.2.base_eq]

def Coherent (stale : BitVec 20 → Prop) (m : Mmu) : Prop :=
  ∀ page x, m.tlb page = some x → ¬ stale page → SamePair (some x) (m.walk page)

section
variable {m m' : Mmu} {stale stale' : BitVec 20 → Prop} {page : BitVec 20}

theorem Coherent.lookup_same (h : Coherent stale m) (hp : ¬ stale page) :
    SamePair (m.lookup page) (m.walk page) := by
  unfold Mmu.lookup
  cases hx : m.tlb page with
  | none =>
    rw [Option.none_or]
    exact .refl _
  | some x =>
    rw [Option.some_or]
    exact h page x hx hp

/-- **The TLB does not show**, except on the stale pages. -/
theorem Coherent.translate_eq (h : Coherent stale m) (u w : Bool) {a : BitVec 32}
    (ha : ¬ stale (Mmu.pageOf a)) :
    m.translate u w a = Mmu.resolve u w a (m.walk (Mmu.pageOf a)) :=
  (h.lookup_same ha).resolve_eq u w a

/-- the walks of `m'` are those of `m` -/
theorem Coherent.of_walk (h : Coherent stale m) (ht : m'.tlb = m.tlb)
    (hw : ∀ page, ¬ stale' page → ¬ stale page ∧ (m.tlb page ≠ none →
      SamePair (m.walk page) (m'.walk page))) : Coherent stale' m' := by
  intro page x hx hp
  rw [ht] at hx
  obtain ⟨hs, hsame⟩ := hw page hp
  exact (h page x hx hs).trans (hsame (by rw [hx]; exact Option.some_ne_none x))

theorem Coherent.load (m : Mmu) (dir : BitVec 32) (stale : BitVec 20 → Prop) :
    Coherent stale (m.load dir) := fun _ _ hx _ => (by cases hx)

/-- entries that keep all bits but `accessed` and `dirty` -/
theorem walk_same (hc : m'.cr3 = m.cr3) (hm : ∀ n, Same (m'.mem n) (m.mem n)) (page : BitVec 20) :
    SamePair (m.walk page) (m'.walk page) := by
  have hd : Same (m'.dirEntry page) (m.dirEntry page) := by
    unfold Mmu.dirEntry Mmu.dirWord
    rw [hc]
    exact hm _
  have he : Same (m'.tabEntry page) (m.tabEntry page) := by
    unfold Mmu.tabEntry Mmu.tabWord
    rw [hd.base_eq]
    exact hm _
  unfold Mmu.walk
  rw [hd.present_eq, he.present_eq]
  split
  · exact ⟨hd.symm, he.symm⟩
  · trivial

theorem getLsbD_marks (dirty : Bool) {i : Nat} (h5 : i ≠ 5) (h6 : i ≠ 6) :
    (if dirty then (0x60 : BitVec 32) else 0x20).getLsbD i = false := by
  have h : ∀ j : Fin 32, j.val ≠ 5 → j.val ≠ 6 → (0x60 : BitVec 32).getLsbD j = false ∧
      (0x20 : BitVec 32).getLsbD j = false := by decide
  by_cases hi : i < 32
  · cases dirty with
    | true => exact (h ⟨i, hi⟩ h5 h6).1
    | false => exact (h ⟨i, hi⟩ h5 h6).2
  · exact BitVec.getLsbD_of_ge _ _ (by omega)

theorem same_or (e : BitVec 32) (dirty : Bool) :
    Same (e ||| if dirty then 0x60 else 0x20) e := by
  intro i h5 h6
  rw [BitVec.getLsbD_or, getLsbD_marks dirty h5 h6, Bool.or_false]

theorem mark_mem (m : Mmu) (page : BitVec 20) (dirty : Bool) (n : Nat) :
    Same ((mark m page dirty).mem n) (m.mem n) := by
  unfold mark Mmu.store
  dsimp only
  rw [Function.update_apply]
  by_cases h : n = Mmu.tabWord (m.dirEntry page) page
  · rw [if_pos h, h]
    exact same_or (m.tabEntry page) dirty
  · rw [if_neg h, Function.update_apply]
    by_cases h' : n = m.dirWord page
    · rw [if_pos h', h']
      exact same_or (m.dirEntry page) false
    · rw [if_neg h']
      exact .refl _

theorem Touch.exec_mem (m : Mmu) (t : Touch) (n : Nat) : Same ((t.exec m).mem n) (m.mem n) := by
  cases t with
  | walk page dirty =>
    unfold Touch.exec
    dsimp only
    split
    · exact .refl _
    · exact mark_mem m page dirty n
  | drop page => exact .refl _

theorem Touch.exec_cr3 (m : Mmu) (t : Touch) : (t.exec m).cr3 = m.cr3 := by
  cases t with
  | walk page dirty =>
    unfold Touch.exec
    dsimp only
    split <;> rfl
  | drop page => rfl

/-- what the processor does on its own -/
theorem Coherent.touch (h : Coherent stale m) (t : Touch) : Coherent stale (t.exec m) := by
  intro page x hx hp
  have hsame := walk_same (t.exec_cr3 m) (t.exec_mem m) page
  refine SamePair.trans ?_ hsame
  cases t with
  | walk q dirty =>
    unfold Touch.exec at hx
    dsimp only at hx
    split at hx
    · exact h page x hx hp
    · have hx : Function.update m.tlb q (m.walk q) page = some x := hx
      rw [Function.update_apply] at hx
      by_cases hq : page = q
      · rw [if_pos hq] at hx
        rw [hq, hx]
        exact .refl _
      · rw [if_neg hq] at hx
        exact h page x hx hp
  | drop q =>
    have hx : Function.update m.tlb q none page = some x := hx
    rw [Function.update_apply] at hx
    by_cases hq : page = q
    · rw [if_pos hq] at hx
      cases hx
    · rw [if_neg hq] at hx
      exact h page x hx hp

/-- a translation that has been loaded is used, whatever the tables say by now -/
theorem translate_loaded {a : BitVec 32} {dirty : Bool} (hw : m.walk (Mmu.pageOf a) ≠ none)
    (ht : m'.tlb = ((Touch.walk (Mmu.pageOf a) dirty).exec m).tlb) (u w : Bool) :
    m'.translate u w a = Mmu.resolve u w a (m.walk (Mmu.pageOf a)) := by
  have htlb : m'.tlb (Mmu.pageOf a) = m.walk (Mmu.pageOf a) := by
    rw [ht]
    unfold Touch.exec
    dsimp only
    rw [if_neg hw]
    exact Function.update_self ..
  obtain ⟨x, hx⟩ := Option.ne_none_iff_exists'.mp hw
  unfold Mmu.translate Mmu.lookup
  rw [htlb, hx, Option.some_or]

/-- a store to a word that no walk of a page in the TLB uses -/
theorem Coherent.store (h : Coherent stale m) {n : Nat} {x : BitVec 32}
    (hs : ∀ page, ¬ stale' page → ¬ stale page)
    (hn : ∀ page, ¬ stale' page → m.tlb page ≠ none →
      n ≠ m.dirWord page ∧ n ≠ Mmu.tabWord (m.dirEntry page) page) :
    Coherent stale' (m.store n x) := by
  refine h.of_walk rfl fun page hp => ⟨hs page hp, fun ht => ?_⟩
  obtain ⟨h1, h2⟩ := hn page hp ht
  have hd : (m.store n x).dirEntry page = m.dirEntry page :=
    Function.update_of_ne h1.symm _ _
  have he : (m.store n x).tabEntry page = m.tabEntry page := by
    show (m.store n x).mem (Mmu.tabWord ((m.store n x).dirEntry page) page) = _
    rw [hd]
    exact Function.update_of_ne h2.symm _ _
  unfold Mmu.walk
  rw [hd, he]
  exact .refl _

/-- what is in the TLB is present in the tables -/
theorem Coherent.present (h : Coherent stale m) (hp : ¬ stale page) (ht : m.tlb page ≠ none) :
    present (m.dirEntry page) = true ∧ present (m.tabEntry page) = true := by
  obtain ⟨x, hx⟩ := Option.ne_none_iff_exists'.mp ht
  have hsame := h page x hx hp
  by_contra hne
  unfold Mmu.walk at hsame
  rw [if_neg (by rwa [Bool.and_eq_true])] at hsame
  exact hsame

end
end Paging
