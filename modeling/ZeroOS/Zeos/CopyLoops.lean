import ZeroOS.Lib.X86
import ZeroOS.Zeos.Utils

/-!
# Zeos: the copy loops on a flat memory

* `memBus`         loads and stores at addresses of 32 bits that never fault;
* `memory_copied`  **the three copy loops of `utils.c` are memory copies**.
-/

set_option linter.unusedVariables false

namespace Zeos
open X86 Programs

/-- kernel code that reads and writes the memory of the kernel -/
def memBus : Bus Mem Byte where
  load a m := .ok (m (BitVec.ofNat 32 a), m)
  store a x m := .ok (Function.update m (BitVec.ofNat 32 a) x)

theorem memBus_window : Window memBus (· < 2 ^ 32) (· < 2 ^ 32) (fun _ => True)
    (fun m a => m (BitVec.ofNat 32 a)) (fun _ m => m)
    (fun a x m => Function.update m (BitVec.ofNat 32 a) x) := by
  refine ⟨fun _ _ _ _ => rfl, fun _ _ _ _ _ => rfl, fun _ _ _ _ => trivial,
    fun _ _ _ _ _ => trivial, fun _ _ _ _ _ _ => rfl, fun a x m b _ ha hb => ?_⟩
  have hb : b < 2 ^ 32 := hb.elim id id
  show Function.update m (BitVec.ofNat 32 a) x (BitVec.ofNat 32 b) = _
  rw [Function.update_apply]
  have h : BitVec.ofNat 32 b = BitVec.ofNat 32 a ↔ b = a := by
    refine ⟨fun e => ?_, fun e => by rw [e]⟩
    have e' := congrArg BitVec.toNat e
    rw [BitVec.toNat_ofNat, BitVec.toNat_ofNat, Nat.mod_eq_of_lt hb, Nat.mod_eq_of_lt ha] at e'
    exact e'
  simp only [h]

/-- the memory after a copy of `n` bytes from `start` to `dest` -/
def copied (start dest : DWord) (n : Nat) (m : Mem) : Mem := fun a =>
  if dest.toNat ≤ a.toNat ∧ a.toNat < dest.toNat + n then m (start + (a - dest)) else m a

/-- the loop ends, and leaves the copy -/
structure Copies (start dest : DWord) (size : Int) (m : Mem)
    (loop : Nat → Nat → Int → Mem → Except Mem Mem) : Prop where
  copied : loop start.toNat dest.toNat size m = .ok (copied start dest size.toNat m)
  nothing : size ≤ 0 → loop start.toNat dest.toNat size m = .ok m

section
variable {start dest : DWord} {size : Int} {m : Mem}

theorem copied_zero (start dest : DWord) (m : Mem) : copied start dest 0 m = m := by
  funext a
  exact if_neg (by omega)

theorem copyLoop_copied {n : Nat} (hs : start.toNat + n ≤ 2 ^ 32) (hd : dest.toNat + n ≤ 2 ^ 32)
    (hov : dest ≤ start ∨ start.toNat + n ≤ dest.toNat) :
    copyLoop memBus n start.toNat dest.toNat m = .ok (copied start dest n m) := by
  obtain ⟨m', hr, -, -, hv⟩ := memBus_window.copyLoop (p := start.toNat) (q := dest.toNat) (n := n)
    (fun i hi => by omega) (fun i hi => by omega) (hov.imp_left BitVec.le_def.mp) (s := m) trivial
    (fun _ => True) trivial (fun _ _ _ _ _ => trivial) (fun _ _ _ _ _ _ => trivial)
  rw [hr]
  refine congrArg Except.ok (funext fun a => ?_)
  have ha := hv a.toNat (Or.inl a.isLt)
  rw [BitVec.ofNat_toNat, BitVec.setWidth_eq] at ha
  rw [ha]
  unfold copied
  split
  · -- the byte of the source
    refine congrArg m (BitVec.eq_of_toNat_eq ?_)
    rw [BitVec.toNat_ofNat, BitVec.toNat_add, BitVec.toNat_sub]
    omega
  · rfl

theorem copies_of_loop (loop : Nat → Nat → Int → Mem → Except Mem Mem)
    (hl : ∀ p q n m, loop p q n m = copyLoop memBus n.toNat p q m)
    (hs : start.toNat + size.toNat ≤ 2 ^ 32) (hd : dest.toNat + size.toNat ≤ 2 ^ 32)
    (hov : dest ≤ start ∨ start.toNat + size.toNat ≤ dest.toNat) :
    Copies start dest size m loop := by
  have hc := (hl start.toNat dest.toNat size m).trans (copyLoop_copied hs hd hov)
  refine ⟨hc, fun h0 => hc.trans ?_⟩
  rw [Int.toNat_of_nonpos h0, copied_zero]

/-- **The copy loops are memory copies**, for ranges that do not wrap around, and that are disjoint
or move down. -/
theorem memory_copied (m : Mem) (start dest : DWord) (size : Int)
    (hs : start.toNat + size.toNat ≤ 2 ^ 32) (hd : dest.toNat + size.toNat ≤ 2 ^ 32)
    (hov : dest ≤ start ∨ start.toNat + size.toNat ≤ dest.toNat) :
    Copies start dest size m (copyData memBus) ∧ Copies start dest size m (copyFromUser memBus) ∧
      Copies start dest size m (copyToUser memBus) :=
  ⟨copies_of_loop _ (fun _ _ _ _ => rfl) hs hd hov, copies_of_loop _ (fun _ _ _ _ => rfl) hs hd hov,
    copies_of_loop _ (fun _ _ _ _ => rfl) hs hd hov⟩

/-- seven bytes, three down: the word and the three bytes overlap the source -/
theorem memory_copied_overlap :
    ((1003 : DWord).toNat + (7 : Int).toNat ≤ 2 ^ 32 ∧
      (1000 : DWord).toNat + (7 : Int).toNat ≤ 2 ^ 32 ∧ (1000 : DWord) ≤ 1003) ∧
    Copies 1003 1000 7 (fun a => a.setWidth 8) (copyData memBus) ∧
      Copies 1003 1000 7 (fun a => a.setWidth 8) (copyFromUser memBus) ∧
      Copies 1003 1000 7 (fun a => a.setWidth 8) (copyToUser memBus) :=
  ⟨by decide, memory_copied _ 1003 1000 7 (by decide) (by decide) (Or.inl (by decide))⟩

end
end Zeos
