import Mathlib.Tactic.Ring
import ZeroOS.Lib.X86

/-!
# Zeos: `get_ticks`

`do_div` divides 64 bits by 32 in two steps, the high dword first.

* `doDiv`, `getTicks`   the macro and the function of `utils.c`;
* `doDiv_eq`            `do_div` gives the quotient and the remainder, without a divide error;
* `ticks_exact`         **both are exact**.
-/

set_option linter.unusedVariables false

namespace Tsc
open X86

def cyclesPerTick : DWord := 109000

/-- `n` after the macro, and its value -/
def doDiv (n : BitVec 64) (base : DWord) : Option (BitVec 64 × DWord) :=
  let low : DWord := n.extractLsb' 0 32
  let high : DWord := n.extractLsb' 32 32
  let (upper, high) := if high ≠ 0 then (high % base, high / base) else (high, high)
  (divl low upper base).map fun (low, mod) => (high ++ low, mod)

/-- `rdtsc` has left `eax` and `edx`. -/
def getTicks (eax edx : DWord) : Option DWord :=
  let ticks := (edx.setWidth 64 <<< 32) + eax.setWidth 64
  (doDiv ticks cyclesPerTick).map fun (ticks, _) => ticks.setWidth 32

theorem toNat_append (high low : DWord) :
    (high ++ low).toNat = high.toNat * 2 ^ 32 + low.toNat := by
  rw [BitVec.toNat_append, ← Nat.shiftLeft_add_eq_or_of_lt low.isLt, Nat.shiftLeft_eq]

/-- the two dwords of `n` -/
theorem toNat_dwords (n : BitVec 64) :
    n.toNat = (n.extractLsb' 32 32).toNat * 2 ^ 32 + (n.extractLsb' 0 32).toNat := by
  have h := n.isLt
  rw [BitVec.extractLsb'_toNat, BitVec.extractLsb'_toNat, Nat.shiftRight_eq_div_pow,
    Nat.shiftRight_eq_div_pow]
  omega

/-- the part of the high dword that `base` divides taken out -/
theorem dwords_split (high low base : Nat) :
    high * 2 ^ 32 + low = (high % base * 2 ^ 32 + low) + base * (high / base * 2 ^ 32) := by
  calc high * 2 ^ 32 + low = (high % base + base * (high / base)) * 2 ^ 32 + low := by
        rw [Nat.mod_add_div]
    _ = (high % base * 2 ^ 32 + low) + base * (high / base * 2 ^ 32) := by ring

theorem dwords_div (high low : Nat) {base : Nat} (h : 0 < base) :
    (high * 2 ^ 32 + low) / base =
      high / base * 2 ^ 32 + (high % base * 2 ^ 32 + low) / base := by
  rw [dwords_split high low base, Nat.add_mul_div_left _ _ h, Nat.add_comm]

theorem dwords_mod (high low base : Nat) :
    (high * 2 ^ 32 + low) % base = (high % base * 2 ^ 32 + low) % base := by
  rw [dwords_split high low base, Nat.add_mul_mod_self_left]

/-- What is left of the high dword goes over to the low one: where it is zero, nothing does. -/
theorem doDiv_eq_divl (n : BitVec 64) (base : DWord) : doDiv n base =
    (divl (n.extractLsb' 0 32) (n.extractLsb' 32 32 % base) base).map
      fun (low, mod) => ((n.extractLsb' 32 32 / base) ++ low, mod) := by
  unfold doDiv
  dsimp only
  by_cases h : n.extractLsb' 32 32 = 0
  · have h1 : (0 : DWord) % base = 0 := BitVec.zero_umod
    have h2 : (0 : DWord) / base = 0 := BitVec.zero_udiv
    rw [if_neg (not_not.mpr h), h, h1, h2]
  · rw [if_pos h]

theorem doDiv_eq (n : BitVec 64) {base : DWord} (h : base ≠ 0) :
    ∃ q r, doDiv n base = some (q, r) ∧ q.toNat = n.toNat / base.toNat ∧
      r.toNat = n.toNat % base.toNat := by
  have hb : 0 < base.toNat := Nat.pos_of_ne_zero fun e => h (BitVec.eq_of_toNat_eq e)
  have hn := toNat_dwords n
  rw [doDiv_eq_divl]
  generalize n.extractLsb' 0 32 = low at hn
  generalize n.extractLsb' 32 32 = high at hn
  have hlt : high % base < base := BitVec.lt_def.mpr (by
    rw [BitVec.toNat_umod]
    exact Nat.mod_lt _ hb)
  have hlow : ((high % base).toNat * 2 ^ 32 + low.toNat) / base.toNat < 2 ^ 32 := by
    rw [Nat.div_lt_iff_lt_mul hb]
    have := low.isLt
    have := BitVec.lt_def.mp hlt
    omega
  rw [divl_of_lt hlt]
  refine ⟨_, _, rfl, ?_, ?_⟩
  · rw [toNat_append, BitVec.toNat_ofNat, Nat.mod_eq_of_lt hlow, BitVec.toNat_udiv,
      hn, dwords_div high.toNat _ hb, BitVec.toNat_umod]
  · have hr := Nat.mod_lt ((high % base).toNat * 2 ^ 32 + low.toNat) hb
    rw [BitVec.toNat_ofNat, Nat.mod_eq_of_lt (hr.trans base.isLt), hn,
      dwords_mod high.toNat, BitVec.toNat_umod]

/-! ## `get_ticks` -/

theorem toNat_ticks (eax edx : DWord) :
    ((edx.setWidth 64 <<< 32) + eax.setWidth 64 : BitVec 64).toNat =
      edx.toNat * 2 ^ 32 + eax.toNat := by
  have h1 := edx.isLt
  have h2 := eax.isLt
  rw [BitVec.toNat_add, BitVec.toNat_shiftLeft, BitVec.toNat_setWidth, BitVec.toNat_setWidth,
    Nat.shiftLeft_eq]
  omega

theorem getTicks_eq (eax edx : DWord) : getTicks eax edx =
    some (BitVec.ofNat 32 ((edx.toNat * 2 ^ 32 + eax.toNat) / 109000)) := by
  have h0 : cyclesPerTick ≠ 0 := by decide
  obtain ⟨q, r, h, hq, -⟩ := doDiv_eq ((edx.setWidth 64 <<< 32) + eax.setWidth 64) h0
  rw [toNat_ticks] at hq
  unfold getTicks
  show (doDiv _ cyclesPerTick).map _ = _
  rw [h]
  show some (q.setWidth 32) = _
  congr 1
  apply BitVec.eq_of_toNat_eq
  rw [BitVec.toNat_setWidth, BitVec.toNat_ofNat, hq]
  rfl

/-- Two 32-bit divisions divide 64 bits: no quotient overflows its register, and quotient and
remainder are the true ones. -/
theorem ticks_exact :
    (∀ (n : BitVec 64) (base : DWord), base ≠ 0 → ∃ q r, doDiv n base = some (q, r) ∧
      q.toNat = n.toNat / base.toNat ∧ r.toNat = n.toNat % base.toNat) ∧
    ∀ eax edx : DWord, getTicks eax edx =
      some (BitVec.ofNat 32 ((edx.toNat * 2 ^ 32 + eax.toNat) / 109000)) :=
  ⟨fun n _ h => doDiv_eq n h, getTicks_eq⟩

theorem ticks_exact_max :
    (∃ q r, doDiv (BitVec.allOnes 64) cyclesPerTick = some (q, r) ∧
      q.toNat = 18446744073709551615 / 109000 ∧ r.toNat = 18446744073709551615 % 109000) ∧
    getTicks 0xffffffff 0xffffffff = some 1587798184 :=
  ⟨ticks_exact.1 (BitVec.allOnes 64) cyclesPerTick (by decide), ticks_exact.2 _ _⟩

end Tsc
