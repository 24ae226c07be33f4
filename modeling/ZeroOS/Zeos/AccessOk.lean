import ZeroOS.Zeos.Types

/-!
# Zeos: `access_ok`

* `accessOk`       the check of `utils.c`;
* `AccessExact`    it accepts the blocks that lie in the pages it stands for, and no others;
* `Misjudged`      the blocks that it gets wrong: the end in the page behind the region, an end that
                   wraps around, and code pages that are to be written;
* `access_exact_iff`   **it gets no others wrong**.
-/

set_option linter.unusedVariables false

namespace Zeos

def verifyWrite : Int := 1

/-- `USER_FIRST_PAGE` -/
@[simp] abbrev userFirstPage : Nat := lUserStart / 4096

def accessOk (type : Int) (addr size : DWord) : Int :=
  let addrIni := (addr >>> 12).toNat
  let addrFin := ((addr + size) >>> 12).toNat
  if type = verifyWrite ∧ addrIni ≥ userFirstPage + numPagCode ∧
      addrFin ≤ userFirstPage + numPagCode + numPagData then 1
  -- `case VERIFY_WRITE` has no `break`
  else if addrIni ≥ userFirstPage ∧ addrFin ≤ userFirstPage + numPagCode + numPagData then 1
  else 0

/-- the first address of the pages that `type` asks for: `VERIFY_WRITE` the data pages, every other
type the code pages too -/
def firstAddr (type : Int) : Nat :=
  if type = verifyWrite then (userFirstPage + numPagCode) * 4096 else userFirstPage * 4096

/-- the address behind the data pages -/
def userEnd : Nat := (userFirstPage + numPagCode + numPagData) * 4096

/-- every byte of the block is in the pages that `type` asks for -/
def Accessible (type : Int) (addr size : DWord) : Prop :=
  ∀ i, i < size.toNat → firstAddr type ≤ (addr + BitVec.ofNat 32 i).toNat ∧
    (addr + BitVec.ofNat 32 i).toNat < userEnd

structure AccessExact (type : Int) (addr size : DWord) : Prop where
  sound : accessOk type addr size ≠ 0 → Accessible type addr size
  complete : size ≠ 0 → Accessible type addr size → accessOk type addr size ≠ 0

/-- the blocks that are accepted by mistake -/
inductive Misjudged (type : Int) (addr size : DWord) : Prop where
  /-- the end is in the page behind the data pages -/
  | behind : userFirstPage * 4096 ≤ addr.toNat → size ≠ 0 → userEnd < addr.toNat + size.toNat →
      addr.toNat + size.toNat < userEnd + 4096 → Misjudged type addr size
  /-- the end wraps around -/
  | wraps : userFirstPage * 4096 ≤ addr.toNat → 2 ^ 32 ≤ addr.toNat + size.toNat →
      addr.toNat + size.toNat < 2 ^ 32 + userEnd + 4096 → Misjudged type addr size
  /-- the block is to be written, and starts in a code page -/
  | code : type = verifyWrite → userFirstPage * 4096 ≤ addr.toNat → size ≠ 0 →
      addr.toNat < firstAddr verifyWrite → addr.toNat + size.toNat < userEnd + 4096 →
      Misjudged type addr size

section
variable {type : Int} {addr size : DWord}

theorem accessOk_ne_zero_iff : accessOk type addr size ≠ 0 ↔
    userFirstPage * 4096 ≤ addr.toNat ∧
      (addr.toNat + size.toNat) % 2 ^ 32 < userEnd + 4096 := by
  have hini : (addr >>> 12).toNat = addr.toNat / 4096 := by
    rw [BitVec.toNat_ushiftRight, Nat.shiftRight_eq_div_pow]
  have hfin : ((addr + size) >>> 12).toNat = (addr.toNat + size.toNat) % 2 ^ 32 / 4096 := by
    rw [BitVec.toNat_ushiftRight, Nat.shiftRight_eq_div_pow, BitVec.toNat_add]
  simp only [accessOk, hini, hfin, userEnd, userFirstPage, numPagCode, numPagData, lUserStart]
  split
  · simp
    omega
  · split
    · simp
      omega
    · simp
      omega

/-- a block that is not empty -/
theorem accessible_iff (h0 : size ≠ 0) : Accessible type addr size ↔
    firstAddr type ≤ addr.toNat ∧ addr.toNat + size.toNat ≤ userEnd := by
  have hpos : 0 < size.toNat := Nat.pos_of_ne_zero fun e => h0 (BitVec.eq_of_toNat_eq e)
  have hend : userEnd < 2 ^ 32 - 1 := by decide
  have hbyte : ∀ i, (addr + BitVec.ofNat 32 i).toNat = (addr.toNat + i % 2 ^ 32) % 2 ^ 32 := by
    intro i
    rw [BitVec.toNat_add, BitVec.toNat_ofNat]
  have ha := addr.isLt
  have hs := size.isLt
  refine ⟨fun h => ?_, fun h i hi => ?_⟩
  · have hfirst := (h 0 hpos).1
    rw [hbyte] at hfirst
    refine ⟨by omega, ?_⟩
    -- the last byte, or the last byte of memory if the block wraps around
    by_cases hw : addr.toNat + size.toNat ≤ 2 ^ 32
    · have hlast := (h (size.toNat - 1) (by omega)).2
      rw [hbyte] at hlast
      omega
    · have hlast := (h (2 ^ 32 - 1 - addr.toNat) (by omega)).2
      rw [hbyte] at hlast
      omega
  · rw [hbyte]
    omega

theorem Misjudged.accepted (h : Misjudged type addr size) : accessOk type addr size ≠ 0 := by
  rw [accessOk_ne_zero_iff]
  have hend : userEnd + 4096 < 2 ^ 32 := by decide
  have ha := addr.isLt
  have hs := size.isLt
  cases h with
  | behind h1 h2 h3 h4 => omega
  | wraps h1 h2 h3 => omega
  | code h1 h2 h3 h4 h5 => omega

theorem firstAddr_ge (type : Int) : userFirstPage * 4096 ≤ firstAddr type := by
  unfold firstAddr
  split
  · decide
  · exact le_rfl

theorem Misjudged.not_accessible (h : Misjudged type addr size) :
    ¬ Accessible type addr size := by
  have h0 : size ≠ 0 := by
    cases h with
    | behind _ h2 => exact h2
    | wraps _ h2 =>
      rintro rfl
      exact absurd addr.isLt (Nat.not_lt.mpr h2)
    | code _ _ h3 => exact h3
  rw [accessible_iff h0]
  have hend : userEnd < 2 ^ 32 := by decide
  intro hacc
  cases h with
  | behind _ _ h3 _ => omega
  | wraps _ h2 _ => omega
  | code h1 _ _ h4 _ =>
    subst h1
    omega

/-- **When `access_ok` is exact.** -/
theorem access_exact_iff (type : Int) (addr size : DWord) :
    AccessExact type addr size ↔ ¬ Misjudged type addr size := by
  refine ⟨fun h hm => hm.not_accessible (h.sound hm.accepted), fun hno => ⟨fun hok => ?_, ?_⟩⟩
  · by_cases h0 : size = 0
    · subst h0
      exact fun i hi => absurd hi (Nat.not_lt_zero i)
    · rw [accessOk_ne_zero_iff] at hok
      obtain ⟨h1, h2⟩ := hok
      have ha := addr.isLt
      have hs := size.isLt
      have hwrap : addr.toNat + size.toNat < 2 ^ 32 := by
        by_contra hw
        exact hno (.wraps h1 (by omega) (by omega))
      rw [Nat.mod_eq_of_lt hwrap] at h2
      have hin : addr.toNat + size.toNat ≤ userEnd := by
        by_contra hb
        exact hno (.behind h1 h0 (by omega) h2)
      refine (accessible_iff h0).mpr ⟨?_, hin⟩
      by_cases hw : type = verifyWrite
      · by_contra hc
        exact hno (.code hw h1 h0 (by rw [hw] at hc; omega) h2)
      · unfold firstAddr
        rw [if_neg hw]
        exact h1
  · intro h0 hacc
    obtain ⟨h1, h2⟩ := (accessible_iff h0).mp hacc
    have hend : userEnd < 2 ^ 32 := by decide
    rw [accessOk_ne_zero_iff, Nat.mod_eq_of_lt (by omega)]
    exact ⟨(firstAddr_ge type).trans h1, by omega⟩

/-- the first byte of the code pages, to be written -/
theorem access_not_exact : ¬ AccessExact verifyWrite 0x100000 1 := by
  intro h
  have hm : Misjudged verifyWrite 0x100000 1 :=
    .code rfl (by decide) (by decide) (by decide) (by decide)
  exact hm.not_accessible (h.sound hm.accepted)

end
end Zeos
