import ZeroOS.Lib.CStrings
import ZeroOS.Lib.Decimal
import ZeroOS.Zeos.Types

/-!
# Zeos: the numbers that `libc.c` prints

`itoa` writes the digits of `a` from the last one on, while `a>0`, and then turns them round.  A
buffer is a function of the offset in it.

* `itoa`, `strlen`     the functions of `libc.c`;
* `printInt`           `print_int` of `user.c`;
* `itoa_of_nonneg`     the buffer after `itoa` of a number that is not negative;
* `itoa_of_neg`        `itoa` leaves the empty string for a negative number;
* `itoa_numeral_iff`   **`itoa` writes the numeral of `a` exactly when `a` is not negative**.
-/

set_option linter.unusedVariables false

namespace Zeos
open CStrings

/-! ## the source -/

theorem tdiv_ten {a : Int} (h : a > 0) : (a.tdiv 10).toNat = a.toNat / 10 := by
  rw [Int.tdiv_eq_ediv_of_nonneg (by omega)]
  omega

theorem tmod_ten {a : Int} (h : a > 0) : a.tmod 10 = (a.toNat % 10 : Nat) := by
  rw [Int.tmod_eq_emod_of_nonneg (by omega)]
  omega

/-- `while (a>0)`: the index after the last digit, and the buffer -/
def itoaDigits (a : Int) (i : Nat) (b : Nat → Byte) : Nat × (Nat → Byte) :=
  if a > 0 then
    itoaDigits (a.tdiv 10) (i + 1) (Function.update b i (BitVec.ofInt 8 (a.tmod 10 + 0x30)))
  else (i, b)
termination_by a.toNat
decreasing_by
  rw [tdiv_ten (by assumption)]
  omega

/-- the body of `for (i1=0; i1<i/2; i1++)` -/
def itoaSwap (i : Nat) (b : Nat → Byte) (i1 : Nat) : Nat → Byte :=
  let c := b i1
  let b := Function.update b i1 (b (i - i1 - 1))
  Function.update b (i - i1 - 1) c

def itoa (a : Int) (b : Nat → Byte) : Nat → Byte :=
  if a = 0 then Function.update (Function.update b 0 0x30) 1 0
  else
    let (i, b) := itoaDigits a 0 b
    let b := (List.range (i / 2)).foldl (itoaSwap i) b
    Function.update b i 0

/-- `while (a[i]!=0) i++;`, for `fuel` rounds -/
def strlenFrom (i : Nat) : Nat → (Nat → Byte) → Option Nat
  | 0, _ => none
  | fuel + 1, a => if a i ≠ 0 then strlenFrom (i + 1) fuel a else some i

def strlen (fuel : Nat) (a : Nat → Byte) : Option Nat := strlenFrom 0 fuel a

/-- what `print_int` writes to 1, from what stands on the stack -/
def printInt (fuel : Nat) (a : Int) (buff : Nat → Byte) : Option (List Byte) :=
  let buff := itoa a buff
  (strlen fuel buff).map fun size => (List.range size).map buff ++ [0x0a]

variable {a : Int} {b : Nat → Byte} {i k fuel : Nat}

/-! ## the loops -/

/-- the digits of a number that is not negative, the last one first -/
def lastFirst (a : Int) : List Byte := (Nat.digits 10 a.toNat).map Decimal.digit

theorem lastFirst_pos (h : a > 0) :
    lastFirst a = BitVec.ofInt 8 (a.tmod 10 + 0x30) :: lastFirst (a.tdiv 10) := by
  have hd : BitVec.ofInt 8 (a.tmod 10 + 0x30) = Decimal.digit (a.toNat % 10) := by
    rw [tmod_ten h, Int.add_comm]
    exact BitVec.ofInt_natCast 8 (0x30 + a.toNat % 10)
  unfold lastFirst
  rw [Nat.digits_def' (by decide) (by omega), List.map_cons, hd, tdiv_ten h]

theorem lastFirst_nonpos (h : ¬ a > 0) : lastFirst a = [] := by
  unfold lastFirst
  rw [show a.toNat = 0 by omega, Nat.digits_zero, List.map_nil]

theorem itoaDigits_eq (a : Int) (i : Nat) (b : Nat → Byte) :
    itoaDigits a i b = (i + (lastFirst a).length, put i (lastFirst a) b) := by
  induction a, i, b using itoaDigits.induct with
  | case1 a i b h ih =>
    rw [itoaDigits, if_pos h, ih, put_update, lastFirst_pos h, List.length_cons]
    congr 1
    omega
  | case2 a i b h =>
    rw [itoaDigits, if_neg h, lastFirst_nonpos h, put_nil]
    rfl

/-- `k` rounds turn round `k` bytes at each end. -/
theorem itoaSwaps_apply (n : Nat) (b : Nat → Byte) (hk : k ≤ n / 2) (j : Nat) :
    (List.range k).foldl (itoaSwap n) b j =
      if j < k ∨ n - k ≤ j ∧ j < n then b (n - 1 - j) else b j := by
  induction k generalizing j with
  | zero => exact (if_neg (by omega)).symm
  | succ k ih =>
    have ih := ih (by omega)
    rw [List.range_succ, List.foldl_append]
    show itoaSwap n ((List.range k).foldl (itoaSwap n) b) k j = _
    generalize (List.range k).foldl (itoaSwap n) b = b' at ih
    show Function.update (Function.update b' k (b' (n - k - 1))) (n - k - 1) (b' k) j = _
    by_cases h1 : j = n - k - 1
    · rw [h1, Function.update_self, if_pos (by omega), ih, if_neg (by omega)]
      congr 1
      omega
    · rw [Function.update_of_ne h1]
      by_cases h2 : j = k
      · rw [h2, Function.update_self, if_pos (by omega), ih, if_neg (by omega)]
        congr 1
        omega
      · rw [Function.update_of_ne h2, ih]
        have : (j < k ∨ n - k ≤ j ∧ j < n) ↔ (j < k + 1 ∨ n - (k + 1) ≤ j ∧ j < n) := by omega
        simp only [this]

theorem itoaSwaps_put (s : List Byte) (b : Nat → Byte) :
    (List.range (s.length / 2)).foldl (itoaSwap s.length) (put 0 s b) = put 0 s.reverse b := by
  funext j
  rw [itoaSwaps_apply s.length _ le_rfl]
  by_cases h : j < s.length
  · have hr : put 0 s b (s.length - 1 - j) = put 0 s.reverse b j := by
      rw [put_zero (by omega), put_zero (by rwa [List.length_reverse]), List.getElem_reverse]
    split
    · exact hr
    · -- the byte in the middle
      rw [← hr, show s.length - 1 - j = j by omega]
  · rw [if_neg (by omega), put_after (by omega), put_after (by rw [List.length_reverse]; omega)]

theorem strlenFrom_eq (i fuel : Nat) (b : Nat → Byte) : strlenFrom i fuel b =
    (stringAt 0 fuel fun j => b (i + j)).map fun s => i + s.length := by
  induction fuel generalizing i with
  | zero => rfl
  | succ fuel ih =>
    by_cases h : b i = 0
    · have h' : b (i + 0) = 0 := h
      rw [strlenFrom, stringAt, if_neg (not_not.mpr h), if_pos h']
      rfl
    · have h' : ¬ b (i + 0) = 0 := h
      rw [strlenFrom, stringAt, if_pos h, if_neg h', ih, Option.map_map]
      have hs : (fun j => b (i + 1 + j)) = fun j => b (i + (j + 1)) := by
        funext j
        rw [show i + 1 + j = i + (j + 1) by omega]
      rw [hs]
      congr 1
      funext s
      show i + 1 + s.length = i + (s.length + 1)
      omega

theorem strlen_eq (fuel : Nat) (b : Nat → Byte) :
    strlen fuel b = (stringAt 0 fuel b).map List.length := by
  have h := strlenFrom_eq 0 fuel b
  simp only [Nat.zero_add] at h
  exact h

/-! ## `itoa` -/

theorem text_of_pos (h : a > 0) : Decimal.text a = (lastFirst a).reverse := by
  rw [Decimal.text_of_nonneg h.le, Decimal.numeral_pos (by omega)]
  unfold lastFirst
  rw [show a.natAbs = a.toNat by omega]

theorem itoa_of_nonneg (h : 0 ≤ a) (b : Nat → Byte) :
    itoa a b = put 0 (Decimal.text a ++ [0]) b := by
  rcases h.lt_or_eq with hp | rfl
  · have hn : a ≠ 0 := by omega
    unfold itoa
    rw [if_neg hn, itoaDigits_eq, text_of_pos hp]
    dsimp only
    rw [Nat.zero_add, itoaSwaps_put]
    have := update_put 0 (lastFirst a).reverse 0 b
    rwa [Nat.zero_add, List.length_reverse] at this
  · unfold itoa
    rw [if_pos rfl]
    have h0 : Function.update b 0 0x30 = put 0 [0x30] b := by
      have := update_put 0 [] 0x30 b
      rwa [put_nil] at this
    rw [h0]
    exact update_put 0 [0x30] 0 b

/-- the loop does not run: the terminator is the first byte -/
theorem itoa_of_neg (h : a < 0) (b : Nat → Byte) : itoa a b = Function.update b 0 0 := by
  unfold itoa
  rw [if_neg (by omega), itoaDigits_eq, lastFirst_nonpos (by omega), put_nil]
  rfl

/-! ## the numeral -/

/-- the canonical numeral of `a`, as a string in the buffer, and nothing else written -/
structure ItoaNumeral (a : DWord) (b : Nat → Byte) : Prop where
  string : stringAt 0 12 (itoa a.toInt b) = some (Decimal.text a.toInt)
  minus : itoa a.toInt b 0 = Decimal.minus ↔ a.toInt < 0
  leading : a.toInt ≠ 0 → itoa a.toInt b 0 ≠ Decimal.digit 0 ∧
    (itoa a.toInt b 0 = Decimal.minus → itoa a.toInt b 1 ≠ Decimal.digit 0)
  read : (stringAt 0 12 (itoa a.toInt b)).bind Decimal.read = some a.toInt
  strlen : strlen 12 (itoa a.toInt b) = some (Decimal.text a.toInt).length
  rest : ∀ j, 12 ≤ j → itoa a.toInt b j = b j

theorem itoa_string (h : 0 ≤ a) (hf : (Decimal.text a).length < fuel) (b : Nat → Byte) :
    stringAt 0 fuel (itoa a b) = some (Decimal.text a) := by
  rw [itoa_of_nonneg h]
  exact stringAt_put_of_notMem (Decimal.zero_notMem_text a) b hf

/-- the first byte of a numeral -/
theorem itoa_head (h : 0 ≤ a) (b : Nat → Byte) :
    (Decimal.numeral a.natAbs).head? = some (itoa a b 0) := by
  rw [itoa_of_nonneg h, Decimal.text_of_nonneg h]
  cases hn : Decimal.numeral a.natAbs with
  | nil => exact absurd hn (Decimal.numeral_ne_nil _)
  | cons c s => rfl

theorem itoaNumeral_of_nonneg {a : DWord} (h : 0 ≤ a.toInt) (b : Nat → Byte) :
    ItoaNumeral a b := by
  have hl := Decimal.text_length_toInt a
  have hs := itoa_string h (Nat.lt_succ_of_le hl) b
  have hhead := itoa_head h b
  have hdigit : Decimal.isDigit (itoa a.toInt b 0) = true :=
    Decimal.numeral_isDigit (List.mem_of_mem_head? hhead)
  have hminus : itoa a.toInt b 0 ≠ Decimal.minus := fun e => by
    rw [e, Decimal.minus_not_digit] at hdigit
    cases hdigit
  refine ⟨hs, iff_of_false hminus (by omega), fun hn => ⟨fun e => ?_, fun e => absurd e hminus⟩,
    ?_, ?_, fun j hj => ?_⟩
  · rw [e] at hhead
    exact Decimal.numeral_head (by omega) hhead
  · rw [hs]
    exact Decimal.read_text _
  · rw [strlen_eq, hs]
    rfl
  · rw [itoa_of_nonneg h]
    apply put_after
    rw [List.length_append, List.length_singleton]
    omega

/-- `itoa` writes a numeral for the numbers that are not negative, and only for them. -/
theorem itoa_numeral_iff (a : DWord) (b : Nat → Byte) : ItoaNumeral a b ↔ 0 ≤ a.toInt := by
  refine ⟨fun h => ?_, fun h => itoaNumeral_of_nonneg h b⟩
  by_contra hneg
  have hlt : a.toInt < 0 := by omega
  have hm := h.minus.mpr hlt
  rw [itoa_of_neg hlt, Function.update_self] at hm
  exact absurd hm (by decide)

theorem itoa_no_numeral : ¬ ItoaNumeral 0xffffffff fun _ => 0 := by
  intro h
  have hread := h.read
  rw [itoa_of_neg (by decide)] at hread
  exact absurd hread (by decide)

/-! ## `print_int` -/

theorem range_map_put (s t : List Byte) (b : Nat → Byte) :
    (List.range s.length).map (put 0 (s ++ t) b) = s := by
  apply List.ext_getElem
  · rw [List.length_map, List.length_range]
  · intro j h1 h2
    rw [List.getElem_map, List.getElem_range, put_zero (by rw [List.length_append]; omega),
      List.getElem_append_left h2]

/-- what `print_int` prints: the number, or nothing for a negative one -/
def line (a : DWord) : List Byte := (if 0 ≤ a.toInt then Decimal.text a.toInt else []) ++ [0x0a]

theorem printInt_line (a : DWord) (buff : Nat → Byte) : printInt 12 a.toInt buff = some (line a) := by
  unfold printInt line
  dsimp only
  by_cases h : 0 ≤ a.toInt
  · rw [if_pos h, strlen_eq, itoa_string h (Nat.lt_succ_of_le (Decimal.text_length_toInt a)),
      itoa_of_nonneg h]
    show some ((List.range (Decimal.text a.toInt).length).map _ ++ [0x0a]) = _
    rw [range_map_put]
  · rw [if_neg h, itoa_of_neg (by omega)]
    rfl

end Zeos
