import ZeroOS.Zeos.Sys

/-!
# Zeos: the screen and the keyboard

`io.c`, `sys_write_console` and `keyboard_routine`, with a history of what they do to the screen
and where they read `char_map`.

* `printc`, `keyboardRoutine`     the functions of the source, on the cursor and the history;
* `Inside`                        the cursor and the accesses are inside their arrays;
* `exec_same`                     the other calls write the same cells without the key events;
* `console_inside_iff`            **when the console stays inside**: no key has a scan code from
  `0x62` to `0x7f`, for which `char_map` has no entry.
-/

set_option linter.unusedVariables false

namespace Zeos
open Programs

/-! ## the source -/

structure Console where
  x : Byte
  y : Byte
  /-- the stores to the screen, the first one first -/
  screen : List (DWord × BitVec 16) := []
  /-- where `char_map` was read -/
  reads : List Nat := []
  /-- what went to port `0xe9` -/
  out : List Byte := []

namespace Console

@[simp] abbrev numColumns : Nat := 80
@[simp] abbrev numRows : Nat := 25

/-- `y=(y+1)%NUM_ROWS` -/
def nextRow (y : Byte) : Byte := BitVec.ofNat 8 ((y.toNat + 1) % numRows)

def printc (c : Byte) (s : Console) : Console :=
  let s := { s with out := s.out ++ [c] }
  if c = 0x0a then { s with x := 0, y := nextRow s.y }
  else
    let ch : BitVec 16 := c.setWidth 16 ||| 0x0200
    let screen : DWord := BitVec.ofNat 32 (0xb8000 + (s.y.toNat * numColumns + s.x.toNat) * 2)
    let x := s.x + 1
    let s := if x.toNat ≥ numColumns then { s with x := 0, y := nextRow s.y } else { s with x := x }
    { s with screen := s.screen ++ [(screen, ch)] }

def printcXy (mx my c : Byte) (s : Console) : Console :=
  let cx := s.x
  let cy := s.y
  let s := printc c { s with x := mx, y := my }
  { s with x := cx, y := cy }

/-- the characters of `string`; its terminator stands behind the last one -/
def printk : List Byte → Console → Console
  | [], s => s
  | c :: string, s => if c ≠ 0 then printk string (printc c s) else s

def sysWriteConsole (buffer : Nat → Byte) (size : Int) (s : Console) : Int × Console :=
  (size, forUp (fun i s => printc (buffer i) s) size.toNat s)

/-- in the encoding of the source, which is ISO 8859-1 -/
def charMap : List Byte := [
  0x00, 0x00, 0x31, 0x32, 0x33, 0x34, 0x35, 0x36,
  0x37, 0x38, 0x39, 0x30, 0x27, 0xa1, 0x00, 0x00,
  0x71, 0x77, 0x65, 0x72, 0x74, 0x79, 0x75, 0x69,
  0x6f, 0x70, 0x60, 0x2b, 0x00, 0x00, 0x61, 0x73,
  0x64, 0x66, 0x67, 0x68, 0x6a, 0x6b, 0x6c, 0xf1,
  0x00, 0xba, 0x00, 0xe7, 0x7a, 0x78, 0x63, 0x76,
  0x62, 0x6e, 0x6d, 0x2c, 0x2e, 0x2d, 0x00, 0x2a,
  0x00, 0x00, 0x00, 0x00, 0x00, 0x00, 0x00, 0x00,
  0x00, 0x00, 0x00, 0x00, 0x00, 0x00, 0x00, 0x37,
  0x38, 0x39, 0x2d, 0x34, 0x35, 0x36, 0x2b, 0x31,
  0x32, 0x33, 0x30, 0x00, 0x00, 0x00, 0x3c, 0x00,
  0x00, 0x00, 0x00, 0x00, 0x00, 0x00, 0x00, 0x00,
  0x00, 0x00]

/-- `key` is what `inb(0x60)` returns, and `beyond` is the memory from `char_map` on. -/
def keyboardRoutine (beyond : Nat → Byte) (key : Byte) (s : Console) : Console :=
  let m := (key &&& 0x7f).toNat
  if key &&& 0x80 = 0 then
    let s := { s with reads := s.reads ++ [m] }
    let t := charMap.getD m (beyond m)
    let t := if t = 0 then 0x43 else t
    printcXy 0 0 t s
  else s

inductive Call where
  | printc (c : Byte)
  | printk (string : List Byte)
  | sysWriteConsole (buffer : Nat → Byte) (size : Int)
  | keyboardRoutine (key : Byte)

def Call.exec (beyond : Nat → Byte) (s : Console) : Call → Console
  | .printc c => Console.printc c s
  | .printk string => Console.printk string s
  | .sysWriteConsole buffer size => (Console.sysWriteConsole buffer size s).2
  | .keyboardRoutine key => Console.keyboardRoutine beyond key s

def exec (beyond : Nat → Byte) (calls : List Call) (s : Console) : Console :=
  calls.foldl (Call.exec beyond) s

/-- `Byte x, y=15;` -/
def start : Console where
  x := 0
  y := 15

variable {beyond : Nat → Byte} {s s' : Console} {c key : Byte} {calls : List Call}

/-! ## one character -/

/-- where the cursor goes from `x`, `y` -/
def cursorNext (c x y : Byte) : Byte × Byte :=
  if c = 0x0a ∨ (x + 1).toNat ≥ numColumns then (0, nextRow y) else (x + 1, y)

/-- what goes to the screen at `x`, `y` -/
def stored (c x y : Byte) : List (DWord × BitVec 16) :=
  if c = 0x0a then []
  else [(BitVec.ofNat 32 (0xb8000 + (y.toNat * numColumns + x.toNat) * 2),
    c.setWidth 16 ||| 0x0200)]

theorem printc_eq (c : Byte) (s : Console) : printc c s =
    ⟨(cursorNext c s.x s.y).1, (cursorNext c s.x s.y).2, s.screen ++ stored c s.x s.y, s.reads,
      s.out ++ [c]⟩ := by
  unfold printc cursorNext stored
  by_cases hc : c = 0x0a
  · simp [hc]
  · by_cases hx : (s.x + 1).toNat ≥ numColumns
    · simp only [hc, hx, or_true, if_true, if_false]
    · simp only [hc, hx, or_false, if_false]

theorem cursorNext_lt {x y : Byte} (hx : x.toNat < numColumns) (hy : y.toNat < numRows) :
    (cursorNext c x y).1.toNat < numColumns ∧ (cursorNext c x y).2.toNat < numRows := by
  have hrow : (nextRow y).toNat < numRows := by
    show (BitVec.ofNat 8 ((y.toNat + 1) % 25)).toNat < 25
    rw [BitVec.toNat_ofNat]
    omega
  have h0 : (0 : Byte).toNat < numColumns := by decide
  unfold cursorNext
  by_cases h : c = 0x0a ∨ (x + 1).toNat ≥ numColumns
  · rw [if_pos h]
    exact ⟨h0, hrow⟩
  · rw [if_neg h]
    exact ⟨Nat.not_le.mp fun hle => h (.inr hle), hy⟩

def OnScreen (a : DWord) : Prop :=
  a.toNat % 2 = 0 ∧ 0xb8000 ≤ a.toNat ∧ a.toNat < 0xb8000 + numColumns * numRows * 2

theorem stored_onScreen {x y : Byte} (hx : x.toNat < numColumns) (hy : y.toNat < numRows)
    {w : DWord × BitVec 16} (hw : w ∈ stored c x y) : OnScreen w.1 := by
  unfold stored at hw
  by_cases h : c = 0x0a
  · rw [if_pos h] at hw
    exact absurd hw List.not_mem_nil
  · rw [if_neg h, List.mem_singleton] at hw
    have hx : x.toNat < 80 := hx
    have hy : y.toNat < 25 := hy
    have ha : w.1.toNat = 0xb8000 + (y.toNat * 80 + x.toNat) * 2 := by
      rw [hw]
      show BitVec.toNat (BitVec.ofNat 32 (0xb8000 + (y.toNat * 80 + x.toNat) * 2)) = _
      rw [BitVec.toNat_ofNat]
      omega
    refine ⟨?_, ?_, ?_⟩
    · omega
    · omega
    · show _ < 0xb8000 + 80 * 25 * 2
      omega

/-! ## one call -/

/-- what a call prints at the cursor -/
def Call.text : Call → List Byte
  | .printc c => [c]
  | .printk string => string.takeWhile (· ≠ 0)
  | .sysWriteConsole buffer size => (List.range size.toNat).map buffer
  | .keyboardRoutine _ => []

def printAll (text : List Byte) (s : Console) : Console := text.foldl (fun s c => printc c s) s

theorem printk_eq (string : List Byte) (s : Console) :
    printk string s = printAll (string.takeWhile (· ≠ 0)) s := by
  induction string generalizing s with
  | nil => rfl
  | cons c string ih =>
    unfold printk
    by_cases h : c ≠ 0
    · rw [if_pos h, ih, List.takeWhile_cons, if_pos (decide_eq_true h)]
      rfl
    · rw [if_neg h, List.takeWhile_cons, if_neg fun ht => h (of_decide_eq_true ht)]
      rfl

theorem sysWriteConsole_eq (buffer : Nat → Byte) (size : Int) (s : Console) :
    (sysWriteConsole buffer size s).2 = printAll ((List.range size.toNat).map buffer) s := by
  unfold printAll
  rw [List.foldl_map]
  exact forUp_eq_foldl _ _ _

/-- Every call but `keyboard_routine` prints its text. -/
theorem exec_text {call : Call} (h : ∀ key, call ≠ .keyboardRoutine key) :
    call.exec beyond s = printAll call.text s := by
  cases call with
  | printc c => rfl
  | printk string => exact printk_eq string s
  | sysWriteConsole buffer size => exact sysWriteConsole_eq buffer size s
  | keyboardRoutine key => exact absurd rfl (h key)

/-- the character of a key -/
def shown (beyond : Nat → Byte) (key : Byte) : Byte :=
  let t := charMap.getD key.toNat (beyond key.toNat)
  if t = 0 then 0x43 else t

theorem pressed_iff : key &&& 0x80 = 0 ↔ key.toNat < 0x80 := by
  revert key
  decide

theorem keyboardRoutine_pressed (h : key.toNat < 0x80) (s : Console) :
    keyboardRoutine beyond key s = { s with
      screen := s.screen ++ stored (shown beyond key) 0 0
      reads := s.reads ++ [key.toNat]
      out := s.out ++ [shown beyond key] } := by
  have hm : (key &&& 0x7f).toNat = key.toNat := by
    rw [BitVec.toNat_and]
    show key.toNat &&& (2 ^ 7 - 1) = _
    rw [Nat.and_two_pow_sub_one_eq_mod, Nat.mod_eq_of_lt h]
  unfold keyboardRoutine printcXy
  simp only [if_pos (pressed_iff.mpr h), printc_eq, hm]
  rfl

theorem keyboardRoutine_released (h : ¬ key.toNat < 0x80) (s : Console) :
    keyboardRoutine beyond key s = s := by
  unfold keyboardRoutine
  exact if_neg fun hp => h (pressed_iff.mp hp)

/-- the cursor is where it was before the interrupt -/
theorem keyboardRoutine_cursor (key : Byte) (s : Console) :
    (keyboardRoutine beyond key s).x = s.x ∧ (keyboardRoutine beyond key s).y = s.y := by
  by_cases h : key.toNat < 0x80
  · rw [keyboardRoutine_pressed h]
    exact ⟨rfl, rfl⟩
  · rw [keyboardRoutine_released h]
    exact ⟨rfl, rfl⟩

/-! ## inside -/

structure Inside (s : Console) : Prop where
  x : s.x.toNat < numColumns
  y : s.y.toNat < numRows
  screen : ∀ w ∈ s.screen, OnScreen w.1
  reads : ∀ m ∈ s.reads, m < charMap.length

theorem printc_inside (h : Inside s) (c : Byte) : Inside (printc c s) := by
  have hlt := cursorNext_lt (c := c) h.x h.y
  rw [printc_eq]
  refine ⟨hlt.1, hlt.2, fun w hw => ?_, h.reads⟩
  rcases List.mem_append.mp hw with hw | hw
  · exact h.screen w hw
  · exact stored_onScreen h.x h.y hw

theorem printAll_inside (h : Inside s) (text : List Byte) : Inside (printAll text s) := by
  induction text generalizing s with
  | nil => exact h
  | cons c text ih => exact ih (printc_inside h c)

theorem keyboardRoutine_inside (h : Inside s) (hk : key.toNat < 0x62 ∨ 0x80 ≤ key.toNat) :
    Inside (keyboardRoutine beyond key s) := by
  rcases hk with hk | hk
  · rw [keyboardRoutine_pressed (by omega)]
    refine ⟨h.x, h.y, fun w hw => ?_, fun m hm => ?_⟩
    · rcases List.mem_append.mp hw with hw | hw
      · exact h.screen w hw
      · exact stored_onScreen (by decide) (by decide) hw
    · rcases List.mem_append.mp hm with hm | hm
      · exact h.reads m hm
      · rw [List.mem_singleton.mp hm]
        exact hk
  · rw [keyboardRoutine_released (by omega)]
    exact h

/-- a call that finds its key in `char_map` -/
def Call.Mapped (call : Call) : Prop :=
  ∀ key, call = .keyboardRoutine key → key.toNat < 0x62 ∨ 0x80 ≤ key.toNat

theorem Call.exec_inside {call : Call} (h : Inside s) (hm : call.Mapped) :
    Inside (call.exec beyond s) := by
  by_cases hk : ∃ key, call = .keyboardRoutine key
  · obtain ⟨key, rfl⟩ := hk
    exact keyboardRoutine_inside h (hm key rfl)
  · rw [exec_text fun key e => hk ⟨key, e⟩]
    exact printAll_inside h _

theorem exec_inside (h : Inside s) (hm : ∀ call ∈ calls, call.Mapped) :
    Inside (exec beyond calls s) := by
  induction calls generalizing s with
  | nil => exact h
  | cons call calls ih =>
    exact ih (call.exec_inside h (hm call List.mem_cons_self))
      fun q hq => hm q (List.mem_cons_of_mem _ hq)

/-! ## outside -/

theorem printAll_reads (text : List Byte) (s : Console) : (printAll text s).reads = s.reads := by
  induction text generalizing s with
  | nil => rfl
  | cons c text ih =>
    show (printAll text (printc c s)).reads = _
    rw [ih, printc_eq]

/-- what is read stays in the history -/
theorem exec_reads {m : Nat} (h : m ∈ s.reads) : m ∈ (exec beyond calls s).reads := by
  induction calls generalizing s with
  | nil => exact h
  | cons call calls ih =>
    apply ih
    by_cases hk : ∃ key, call = .keyboardRoutine key
    · obtain ⟨key, rfl⟩ := hk
      show m ∈ (keyboardRoutine beyond key s).reads
      by_cases hp : key.toNat < 0x80
      · rw [keyboardRoutine_pressed hp]
        exact List.mem_append_left _ h
      · rwa [keyboardRoutine_released hp]
    · rwa [exec_text fun key e => hk ⟨key, e⟩, printAll_reads]

theorem keyboardRoutine_read (h : key.toNat < 0x80) :
    key.toNat ∈ (keyboardRoutine beyond key s).reads := by
  rw [keyboardRoutine_pressed h]
  exact List.mem_append_right _ (List.mem_singleton.mpr rfl)

theorem mapped_of_inside (h : Inside (exec beyond calls s)) : ∀ call ∈ calls, call.Mapped := by
  induction calls generalizing s with
  | nil => exact fun call hc => absurd hc List.not_mem_nil
  | cons first calls ih =>
    intro call hc
    rcases List.mem_cons.mp hc with rfl | hc
    · rintro key rfl
      by_contra hnot
      have hr : key.toNat ∈ (keyboardRoutine beyond key s).reads :=
        keyboardRoutine_read (by omega)
      have hmem : key.toNat ∈ (exec beyond calls (keyboardRoutine beyond key s)).reads :=
        exec_reads hr
      exact hnot (.inl (h.reads _ hmem))
    · exact ih h call hc

/-! ## the cells of the text -/

/-- the stores to the screen but those to its first cell -/
def cells (s : Console) : List (DWord × BitVec 16) := s.screen.filter (·.1 ≠ 0xb8000)

def Call.isKey : Call → Bool
  | .keyboardRoutine _ => true
  | _ => false

/-- the same cursor, and the same cells -/
structure Same (s s' : Console) : Prop where
  x : s.x = s'.x
  y : s.y = s'.y
  cells : cells s = cells s'

theorem printc_same (h : Same s s') (c : Byte) : Same (printc c s) (printc c s') := by
  rw [printc_eq, printc_eq]
  refine ⟨?_, ?_, ?_⟩
  · rw [h.x, h.y]
  · rw [h.x, h.y]
  · have hc : s.screen.filter (·.1 ≠ 0xb8000) = s'.screen.filter (·.1 ≠ 0xb8000) := h.cells
    unfold Console.cells
    dsimp only
    rw [List.filter_append, List.filter_append, hc, h.x, h.y]

theorem printAll_same (h : Same s s') (text : List Byte) :
    Same (printAll text s) (printAll text s') := by
  induction text generalizing s s' with
  | nil => exact h
  | cons c text ih => exact ih (printc_same h c)

theorem keyboardRoutine_same (key : Byte) (s : Console) :
    Same (keyboardRoutine beyond key s) s := by
  by_cases h : key.toNat < 0x80
  · rw [keyboardRoutine_pressed h]
    refine ⟨rfl, rfl, ?_⟩
    have hc : (stored (shown beyond key) 0 0).filter (·.1 ≠ 0xb8000) = [] := by
      unfold stored
      split
      · rfl
      · rfl
    unfold cells
    dsimp only
    rw [List.filter_append, hc, List.append_nil]
  · rw [keyboardRoutine_released h]
    exact ⟨rfl, rfl, rfl⟩

/-- The calls that are not key events print in the same cells without them. -/
theorem exec_same (h : Same s s') (calls : List Call) :
    Same (exec beyond calls s) (exec beyond (calls.filter (!·.isKey)) s') := by
  induction calls generalizing s s' with
  | nil => exact h
  | cons call calls ih =>
    by_cases hk : ∃ key, call = .keyboardRoutine key
    · obtain ⟨key, rfl⟩ := hk
      have hs : Same (keyboardRoutine beyond key s) s := keyboardRoutine_same key s
      exact ih ⟨hs.x.trans h.x, hs.y.trans h.y, hs.cells.trans h.cells⟩
    · have hne : ∀ key, call ≠ .keyboardRoutine key := fun key e => hk ⟨key, e⟩
      have hkey : (!call.isKey) = true := by
        cases call with
        | keyboardRoutine key => exact absurd rfl (hne key)
        | _ => rfl
      rw [List.filter_cons, if_pos hkey]
      apply ih
      rw [exec_text hne, exec_text hne]
      exact printAll_same h _

/-! ## runs from the start -/

theorem start_inside : Inside start :=
  ⟨by decide, by decide, fun w hw => absurd hw List.not_mem_nil,
    fun m hm => absurd hm List.not_mem_nil⟩

/-- what holds of a sequence of calls from the start -/
structure Contained (beyond : Nat → Byte) (calls : List Call) : Prop where
  inside : ∀ pre, pre <+: calls → Inside (exec beyond pre start)
  restored : ∀ pre key, pre ++ [.keyboardRoutine key] <+: calls →
    (exec beyond (pre ++ [.keyboardRoutine key]) start).x = (exec beyond pre start).x ∧
      (exec beyond (pre ++ [.keyboardRoutine key]) start).y = (exec beyond pre start).y
  cells : cells (exec beyond calls start) =
    cells (exec beyond (calls.filter (!·.isKey)) start)

/-- Every access is inside exactly when `char_map` has an entry for every key that is pressed. -/
theorem console_inside_iff (beyond : Nat → Byte) (calls : List Call) :
    Contained beyond calls ↔ ∀ key, .keyboardRoutine key ∈ calls →
      ¬ (0x62 ≤ key.toNat ∧ key.toNat ≤ 0x7f) := by
  refine ⟨fun h key hk hrange => ?_, fun h => ⟨fun pre hpre => ?_, fun pre key hpre => ?_, ?_⟩⟩
  · have := mapped_of_inside (h.inside calls (List.prefix_refl calls)) _ hk key rfl
    omega
  · apply exec_inside start_inside
    rintro call hc key rfl
    have := h key (hpre.subset hc)
    omega
  · unfold exec
    rw [List.foldl_append]
    exact keyboardRoutine_cursor key _
  · exact (exec_same ⟨rfl, rfl, rfl⟩ calls).cells

/-- the first scan code without an entry -/
theorem console_outside : ¬ Contained (fun _ => 0) [.keyboardRoutine 0x62] := by
  intro h
  have hin := h.inside [.keyboardRoutine 0x62] (List.prefix_refl _)
  exact absurd (hin.reads 0x62 (List.mem_singleton.mpr rfl)) (by decide)

/-! ## the kernel -/

theorem printAll_out (text : List Byte) (s : Console) : (printAll text s).out = s.out ++ text := by
  induction text generalizing s with
  | nil => exact (List.append_nil _).symm
  | cons c text ih =>
    show (printAll text (printc c s)).out = _
    rw [ih, printc_eq, List.append_assoc]
    rfl

/-- The output of the kernel is what `printc` sends to the port. -/
theorem sysWriteConsole_out (buffer : Nat → Byte) (size : Int) {k : State} (h : k.out = s.out) :
    (Zeos.sysWriteConsole buffer size k).2.out = (sysWriteConsole buffer size s).2.out := by
  rw [sysWriteConsole_eq, printAll_out]
  show forUp (fun i out => out ++ [buffer i]) size.toNat k.out = _
  rw [h, forUp_snoc]

end Console

end Zeos
