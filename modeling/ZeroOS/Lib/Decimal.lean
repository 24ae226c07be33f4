import Mathlib.Data.Nat.Digits.Lemmas

/-!
# Decimal numerals

Numbers as ASCII text, most significant digit first.

* `text`        the numeral of an integer, without a leading zero;
* `read`        the number that a text is the numeral of;
* `read_text`   a numeral reads back as its number;
* `text_length_le`   the length of a numeral.
-/

set_option linter.unusedVariables false

namespace Decimal

def digit (d : Nat) : BitVec 8 := BitVec.ofNat 8 (0x30 + d)

def isDigit (c : BitVec 8) : Bool := 0x30 ≤ c.toNat && c.toNat ≤ 0x39

/-- `-` -/
def minus : BitVec 8 := 0x2d

def numeral (n : Nat) : List (BitVec 8) :=
  if n = 0 then [digit 0] else ((Nat.digits 10 n).map digit).reverse

def text (a : Int) : List (BitVec 8) :=
  if a < 0 then minus :: numeral a.natAbs else numeral a.natAbs

def readNat (s : List (BitVec 8)) : Option Nat :=
  if s ≠ [] ∧ s.all isDigit then
    some (Nat.ofDigits 10 (s.reverse.map fun c => c.toNat - 0x30))
  else none

def read (s : List (BitVec 8)) : Option Int :=
  if s.head? = some minus then (readNat s.tail).map fun n : Nat => -(n : Int)
  else (readNat s).map fun n : Nat => (n : Int)

variable {n d : Nat} {a : Int}

/-! ## digits -/

theorem toNat_digit (h : d < 10) : (digit d).toNat = 0x30 + d := by
  unfold digit
  rw [BitVec.toNat_ofNat]
  omega

theorem isDigit_digit (h : d < 10) : isDigit (digit d) = true := by
  unfold isDigit
  rw [toNat_digit h, Bool.and_eq_true, decide_eq_true_eq, decide_eq_true_eq]
  omega

theorem digit_inj {d e : Nat} (hd : d < 10) (he : e < 10) (h : digit d = digit e) : d = e := by
  have h' := congrArg BitVec.toNat h
  rw [toNat_digit hd, toNat_digit he] at h'
  omega

theorem minus_not_digit : isDigit minus = false := rfl

/-! ## numerals -/

theorem numeral_zero : numeral 0 = [digit 0] := rfl

theorem numeral_pos (h : n ≠ 0) : numeral n = ((Nat.digits 10 n).map digit).reverse := if_neg h

theorem numeral_ne_nil (n : Nat) : numeral n ≠ [] := by
  by_cases h : n = 0
  · rw [h, numeral_zero]
    exact List.cons_ne_nil _ _
  · rw [numeral_pos h, ne_eq, List.reverse_eq_nil_iff, List.map_eq_nil_iff]
    exact Nat.digits_ne_nil_iff_ne_zero.mpr h

theorem numeral_isDigit {c : BitVec 8} (h : c ∈ numeral n) : isDigit c = true := by
  by_cases hn : n = 0
  · rw [hn, numeral_zero, List.mem_singleton] at h
    rw [h]
    rfl
  · rw [numeral_pos hn, List.mem_reverse, List.mem_map] at h
    obtain ⟨d, hd, rfl⟩ := h
    exact isDigit_digit (Nat.digits_lt_base (by decide) hd)

theorem numeral_length_le {k : Nat} (hk : 0 < k) : (numeral n).length ≤ k ↔ n < 10 ^ k := by
  by_cases hn : n = 0
  · rw [hn, numeral_zero]
    exact iff_of_true hk (Nat.pow_pos (by decide))
  · rw [numeral_pos hn, List.length_reverse, List.length_map]
    exact Nat.digits_length_le_iff (by decide) n

/-- no leading zero -/
theorem numeral_head (h : n ≠ 0) : (numeral n).head? ≠ some (digit 0) := by
  have hne : Nat.digits 10 n ≠ [] := Nat.digits_ne_nil_iff_ne_zero.mpr h
  rw [numeral_pos h, List.head?_reverse, List.getLast?_map, List.getLast?_eq_some_getLast hne,
    Option.map_some, ne_eq, Option.some.injEq]
  intro he
  have hlt : (Nat.digits 10 n).getLast hne < 10 :=
    Nat.digits_lt_base (by decide) (List.getLast_mem hne)
  exact Nat.getLast_digit_ne_zero 10 h (digit_inj hlt (by decide) he)

theorem readNat_numeral (n : Nat) : readNat (numeral n) = some n := by
  have hall : (numeral n).all isDigit = true :=
    List.all_eq_true.mpr fun c hc => numeral_isDigit hc
  unfold readNat
  rw [if_pos ⟨numeral_ne_nil n, hall⟩]
  congr 1
  by_cases h : n = 0
  · rw [h]
    rfl
  · have hmap : (Nat.digits 10 n).map ((fun c : BitVec 8 => c.toNat - 0x30) ∘ digit) =
        Nat.digits 10 n := by
      conv_rhs => rw [← List.map_id (Nat.digits 10 n)]
      apply List.map_congr_left
      intro d hd
      show (digit d).toNat - 0x30 = d
      rw [toNat_digit (Nat.digits_lt_base (by decide) hd), Nat.add_sub_cancel_left]
    rw [numeral_pos h, List.reverse_reverse, List.map_map, hmap, Nat.ofDigits_digits]

/-! ## integers -/

theorem text_of_nonneg (h : 0 ≤ a) : text a = numeral a.natAbs := if_neg (not_lt.mpr h)

theorem text_of_neg (h : a < 0) : text a = minus :: numeral a.natAbs := if_pos h

theorem mem_text {c : BitVec 8} (h : c ∈ text a) : c = minus ∨ isDigit c = true := by
  by_cases ha : a < 0
  · rw [text_of_neg ha, List.mem_cons] at h
    exact h.imp id numeral_isDigit
  · rw [text_of_nonneg (not_lt.mp ha)] at h
    exact .inr (numeral_isDigit h)

theorem zero_notMem_text (a : Int) : (0 : BitVec 8) ∉ text a := by
  intro h
  rcases mem_text h with hm | hd
  · exact absurd hm (by decide)
  · exact absurd hd (by decide)

theorem read_text (a : Int) : read (text a) = some a := by
  unfold read
  by_cases h : a < 0
  · rw [text_of_neg h, List.head?_cons, if_pos rfl, List.tail_cons, readNat_numeral,
      Option.map_some]
    congr 1
    omega
  · have hd : (numeral a.natAbs).head? ≠ some minus := fun he => by
      have hm := numeral_isDigit (List.mem_of_mem_head? he)
      rw [minus_not_digit] at hm
      cases hm
    rw [text_of_nonneg (not_lt.mp h), if_neg hd, readNat_numeral, Option.map_some]
    congr 1
    omega

theorem text_inj {a b : Int} (h : text a = text b) : a = b := by
  have hr := congrArg read h
  rwa [read_text, read_text, Option.some.injEq] at hr

theorem text_length_le {k : Nat} (h : a.natAbs < 10 ^ k) : (text a).length ≤ k + 1 := by
  have hl : (numeral a.natAbs).length ≤ k + 1 :=
    (numeral_length_le (Nat.succ_pos k)).mpr
      (h.trans_le (Nat.pow_le_pow_right (by decide) (Nat.le_succ k)))
  by_cases ha : a < 0
  · have hk : 0 < k := by
      rcases Nat.eq_zero_or_pos k with rfl | hk
      · omega
      · exact hk
    rw [text_of_neg ha, List.length_cons]
    have := (numeral_length_le hk).mpr h
    omega
  · rwa [text_of_nonneg (not_lt.mp ha)]

theorem text_length_toInt (a : BitVec 32) : (text a.toInt).length ≤ 11 := by
  have h1 := BitVec.le_toInt a
  have h2 := BitVec.toInt_lt (x := a)
  exact text_length_le (k := 10) (by omega)

end Decimal
