import Mathlib.Algebra.BigOperators.Group.List.Basic
import Mathlib.Data.List.DropRight
import Mathlib.Tactic.LinearCombination
import Mathlib.Tactic.Ring
import ZeroOS.Lib.CStrings
import ZeroOS.Lib.Decimal

/-!
# Sockets: the times of an experiment

`clientSocket.c` measures, `launchClient.c` gives each client a file, and `calcTimes.py` reads the
files back.  A directory is the list of its files; the script is read as Python 2, where `/` on two
integers is the division downwards.

* `msecElapsed`         what a client measures;
* `launchClient`        the directory of an experiment;
* `sumaExec`            what the script prints for a directory, or `none` for an exception;
* `sumaFiles_eq`        of `k + 2` files the script adds up those of the first `k` clients;
* `mean_reported_iff`   **what is reported**: when the mean is right, which files are, and which are
  counted.
-/

set_option linter.unusedVariables false

namespace Sockets
open CStrings

/-! ## the client -/

structure Timeval where
  sec : Int
  usec : Nat
  usec_lt : usec < 1000000

/-- A client that finishes normally does not see the clock go back. -/
structure Client where
  initT : Timeval
  endT : Timeval
  le : initT.sec < endT.sec ∨ initT.sec = endT.sec ∧ initT.usec ≤ endT.usec

def Timeval.msec (t : Timeval) : Int := t.sec * 1000 + (t.usec / 1000 : Nat)

/-- the time between the two -/
def Client.elapsed (c : Client) : Int := c.endT.msec - c.initT.msec

/-- `msec_elapsed` is an `int`. -/
def msecElapsed (c : Client) : BitVec 32 :=
  BitVec.ofInt 32 (c.endT.sec * 1000 + (c.endT.usec / 1000 : Nat) - c.initT.sec * 1000 +
    (c.initT.usec / 1000 : Nat))

/-- `"Time %d\n"` -/
def timeText (msec : Int) : List (BitVec 8) := ascii "Time " ++ Decimal.text msec ++ ascii "\n"

/-! ## the launcher -/

/-- names and contents -/
abbrev Dir := List (List (BitVec 8) × List (BitVec 8))

/-- `open(name, O_CREAT|O_TRUNC|O_WRONLY, 0600)` -/
def openFile (name : List (BitVec 8)) (d : Dir) : Dir :=
  if d.any (·.1 == name) then d.map fun f => if f.1 = name then (name, []) else f
  else d ++ [(name, [])]

def writeFile (name bytes : List (BitVec 8)) (d : Dir) : Dir :=
  d.map fun f => if f.1 = name then (f.1, f.2 ++ bytes) else f

/-- `"client_%d"`, and `"client_" + str(i)` -/
def clientName (i : Nat) : List (BitVec 8) := ascii "client_" ++ Decimal.text i

/-- `launch_info` -/
def launchInfo : List (BitVec 8) := ascii "launch_info"

/-- the clients from number `i` on; 2 is the file of the client -/
def launchFrom (i : Nat) : List Client → Dir → Dir
  | [], d => d
  | c :: clients, d =>
    let d := openFile (clientName i) d
    let d := writeFile (clientName i) (timeText (msecElapsed c).toInt) d
    launchFrom (i + 1) clients d

/-- the directory after `main`, from a fresh one; `info` is what goes to `launch_info` -/
def launchClient (info : List (BitVec 8)) (clients : List Client) : Dir :=
  let d := openFile launchInfo []
  let d := launchFrom 0 clients d
  writeFile launchInfo info d

/-! ## the script -/

def readFile (d : Dir) (name : List (BitVec 8)) : Option (List (BitVec 8)) :=
  (d.find? (·.1 == name)).map (·.2)

/-- the first line, with its end -/
def readline (s : List (BitVec 8)) : List (BitVec 8) :=
  s.takeWhile (· ≠ 0x0a) ++ (s.dropWhile (· ≠ 0x0a)).take 1

/-- what stands behind the first match of `pat` -/
def search (pat : List (BitVec 8)) : List (BitVec 8) → Option (List (BitVec 8))
  | [] => if pat = [] then some [] else none
  | c :: l => if pat <+: c :: l then some ((c :: l).drop pat.length) else search pat l

def isSpace (c : BitVec 8) : Bool := c == 0x20 || (0x09 ≤ c.toNat && c.toNat ≤ 0x0d)

def strip (s : List (BitVec 8)) : List (BitVec 8) := (s.dropWhile isSpace).rdropWhile isSpace

/-- `int(s)` -/
def int (s : List (BitVec 8)) : Option Int :=
  let s := strip s
  if s.head? = some 0x2b then (Decimal.readNat s.tail).map fun n : Nat => (n : Int)
  else Decimal.read s

/-- the variables of `suma_Exec`, and the files that it has opened -/
structure Suma where
  s : Int
  clientsCor : Int
  opened : List (List (BitVec 8))

def sumaLoop (d : Dir) : List Nat → Suma → Option Suma
  | [], u => some u
  | i :: is, u => do
    let f ← readFile d (clientName i)
    let u := { u with opened := u.opened ++ [clientName i] }
    match search (ascii "Time ") (readline f) with
    | some l => do
      let m ← int l
      sumaLoop d is { u with s := u.s + m, clientsCor := u.clientsCor + 1 }
    | none => sumaLoop d is u

def numFiles (d : Dir) : Int := d.length

/-- the loop of `suma_Exec` -/
def sumaFiles (d : Dir) : Option Suma :=
  let numClients := numFiles d - 1
  sumaLoop d (List.range (numClients - 1).toNat) ⟨0, 0, []⟩

/-- what `suma_Exec` prints -/
def sumaExec (d : Dir) : Option (List (BitVec 8)) := do
  let u ← sumaFiles d
  -- `ZeroDivisionError`
  if u.clientsCor = 0 then none else some (Decimal.text (u.s.fdiv u.clientsCor) ++ ascii "\n")

variable {clients : List Client} {d : Dir} {i k : Nat} {a : Int} {s : List (BitVec 8)}

/-! ## the line of a client -/

/-- a property that neither the sign nor a digit has -/
theorem text_not {p : BitVec 8 → Bool} (hm : p Decimal.minus = false)
    (hd : ∀ c, Decimal.isDigit c = true → p c = false) {c : BitVec 8}
    (hc : c ∈ Decimal.text a) : p c = false := by
  rcases Decimal.mem_text hc with rfl | h
  · exact hm
  · exact hd c h

theorem isDigit_not_space : ∀ c, Decimal.isDigit c = true → isSpace c = false := by decide

theorem isDigit_ne_newline : ∀ c, Decimal.isDigit c = true → (c == 0x0a) = false := by decide

theorem isDigit_ne_plus : ∀ c, Decimal.isDigit c = true → (c == 0x2b) = false := by decide

theorem readline_line (h : (0x0a : BitVec 8) ∉ s) : readline (s ++ [0x0a]) = s ++ [0x0a] := by
  have hn : ∀ c ∈ s, decide (c ≠ 0x0a) = true := fun c hc =>
    decide_eq_true (ne_of_mem_of_not_mem hc h)
  unfold readline
  rw [List.takeWhile_append_of_pos hn, List.dropWhile_append_of_pos hn, List.append_assoc]
  rfl

theorem readline_timeText (a : Int) : readline (timeText a) = timeText a := by
  have htext : (0x0a : BitVec 8) ∉ Decimal.text a := fun h =>
    beq_eq_false_iff_ne.mp (text_not (p := (· == 0x0a)) rfl isDigit_ne_newline h) rfl
  have htime : (0x0a : BitVec 8) ∉ ascii "Time " := by decide
  exact readline_line fun h => (List.mem_append.mp h).elim htime htext

theorem search_timeText (a : Int) :
    search (ascii "Time ") (timeText a) = some (Decimal.text a ++ ascii "\n") := by
  have h : ascii "Time " <+: timeText a := by
    unfold timeText
    rw [List.append_assoc]
    exact List.prefix_append _ _
  exact if_pos h

/-- Only the end of a line is taken off a text without spaces. -/
theorem strip_line (h : ∀ c ∈ s, isSpace c = false) :
    strip (s ++ [0x0a]) = s := by
  unfold strip
  have hself : s.rdropWhile isSpace = s := by
    apply List.rdropWhile_eq_self_iff.mpr
    intro hne
    rw [h _ (List.getLast_mem hne)]
    exact Bool.false_ne_true
  cases s with
  | nil => rfl
  | cons c t =>
    have hc : ¬ isSpace c = true := by
      rw [h c List.mem_cons_self]
      exact Bool.false_ne_true
    rw [List.cons_append, List.dropWhile_cons, if_neg hc, ← List.cons_append,
      List.rdropWhile_concat_pos _ _ _ rfl]
    exact hself

theorem int_text (a : Int) : int (Decimal.text a ++ ascii "\n") = some a := by
  have hs : strip (Decimal.text a ++ ascii "\n") = Decimal.text a :=
    strip_line fun c hc => text_not rfl isDigit_not_space hc
  have hplus : (Decimal.text a).head? ≠ some 0x2b := fun h =>
    beq_eq_false_iff_ne.mp
      (text_not (p := (· == 0x2b)) rfl isDigit_ne_plus (List.mem_of_mem_head? h)) rfl
  unfold int
  dsimp only
  rw [hs, if_neg hplus, Decimal.read_text]

/-! ## the directory -/

theorem clientName_inj {i j : Nat} (h : clientName i = clientName j) : i = j := by
  have ht : Decimal.text i = Decimal.text j := List.append_cancel_left h
  exact Int.ofNat_inj.mp (Decimal.text_inj ht)

theorem clientName_ne_launchInfo (i : Nat) : clientName i ≠ launchInfo := by
  intro h
  have := congrArg List.head? h
  unfold clientName at this
  rw [List.head?_append_of_ne_nil _ (by decide)] at this
  exact absurd this (by decide)

/-- the files of the clients from number `i` on -/
def clientFiles (i : Nat) : List Client → Dir
  | [] => []
  | c :: clients => (clientName i, timeText (msecElapsed c).toInt) :: clientFiles (i + 1) clients

theorem clientFiles_length (i : Nat) (clients : List Client) :
    (clientFiles i clients).length = clients.length := by
  induction clients generalizing i with
  | nil => rfl
  | cons c clients ih =>
    show (clientFiles (i + 1) clients).length + 1 = _
    rw [ih, List.length_cons]

/-- no file of this name -/
def Fresh (name : List (BitVec 8)) (d : Dir) : Prop := ∀ f ∈ d, f.1 ≠ name

theorem openFile_fresh {name : List (BitVec 8)} (h : Fresh name d) :
    openFile name d = d ++ [(name, [])] := by
  unfold openFile
  apply if_neg
  rw [List.any_eq_true]
  rintro ⟨f, hf, he⟩
  exact h f hf (beq_iff_eq.mp he)

theorem writeFile_fresh {name bytes : List (BitVec 8)} (h : Fresh name d) :
    writeFile name bytes d = d := by
  unfold writeFile
  conv_rhs => rw [← List.map_id d]
  apply List.map_congr_left
  intro f hf
  exact if_neg (h f hf)

theorem launchFrom_eq (hd : ∀ j, i ≤ j → Fresh (clientName j) d) :
    launchFrom i clients d = d ++ clientFiles i clients := by
  induction clients generalizing i d with
  | nil => exact (List.append_nil d).symm
  | cons c clients ih =>
    have hwrite : writeFile (clientName i) (timeText (msecElapsed c).toInt)
        (openFile (clientName i) d) = d ++ [(clientName i, timeText (msecElapsed c).toInt)] := by
      rw [openFile_fresh (hd i le_rfl)]
      show List.map _ _ = _
      rw [List.map_append]
      congr 1
      · exact writeFile_fresh (hd i le_rfl)
      · rw [List.map_singleton, if_pos rfl, List.nil_append]
    show launchFrom (i + 1) clients (writeFile _ _ _) = _
    rw [hwrite, ih, List.append_assoc]
    · rfl
    · intro j hj f hf
      rcases List.mem_append.mp hf with hf | hf
      · exact hd j (by omega) f hf
      · rw [List.mem_singleton.mp hf]
        intro he
        have := clientName_inj he
        omega

theorem fresh_clientFiles {name : List (BitVec 8)} (h : ∀ j, i ≤ j → clientName j ≠ name) :
    Fresh name (clientFiles i clients) := by
  induction clients generalizing i with
  | nil => exact fun f hf => absurd hf List.not_mem_nil
  | cons c clients ih =>
    intro f hf
    rcases List.mem_cons.mp hf with rfl | hf
    · exact h i le_rfl
    · exact ih (fun j hj => h j (by omega)) f hf

theorem launchClient_eq (info : List (BitVec 8)) (clients : List Client) :
    launchClient info clients = (launchInfo, info) :: clientFiles 0 clients := by
  have hopen : openFile launchInfo [] = [(launchInfo, [])] := rfl
  have hfresh : ∀ j, 0 ≤ j → Fresh (clientName j) [(launchInfo, [])] := by
    intro j _ f hf
    rw [List.mem_singleton.mp hf]
    exact (clientName_ne_launchInfo j).symm
  show writeFile launchInfo info (launchFrom 0 clients (openFile launchInfo [])) = _
  rw [hopen, launchFrom_eq hfresh]
  show (if launchInfo = launchInfo then (launchInfo, [] ++ info) else _) ::
    writeFile launchInfo info (clientFiles 0 clients) = _
  rw [if_pos rfl, List.nil_append,
    writeFile_fresh (fresh_clientFiles fun j _ => clientName_ne_launchInfo j)]

theorem readFile_cons (f : List (BitVec 8) × List (BitVec 8)) (d : Dir)
    (name : List (BitVec 8)) :
    readFile (f :: d) name = if f.1 = name then some f.2 else readFile d name := by
  unfold readFile
  rw [List.find?_cons]
  by_cases h : f.1 = name
  · rw [if_pos h, beq_iff_eq.mpr h]
    rfl
  · rw [if_neg h, beq_eq_false_iff_ne.mpr h]

theorem readFile_clientFiles (i : Nat) {k : Nat} (h : k < clients.length) :
    readFile (clientFiles i clients) (clientName (i + k)) =
      some (timeText (msecElapsed clients[k]).toInt) := by
  induction clients generalizing i k with
  | nil => exact absurd h (Nat.not_lt_zero k)
  | cons c clients ih =>
    cases k with
    | zero => exact (readFile_cons _ _ _).trans (if_pos rfl)
    | succ k =>
      have hne : clientName i ≠ clientName (i + (k + 1)) := fun he => by
        have := clientName_inj he
        omega
      unfold clientFiles
      rw [readFile_cons, if_neg hne, show i + (k + 1) = i + 1 + k by omega]
      exact ih (i + 1) (Nat.lt_of_succ_lt_succ h)

/-- the file of a client has what the client has measured -/
theorem readFile_launchClient (info : List (BitVec 8)) (clients : List Client)
    (h : i < clients.length) :
    readFile (launchClient info clients) (clientName i) =
      some (timeText (msecElapsed clients[i]).toInt) := by
  rw [launchClient_eq, readFile_cons, if_neg (clientName_ne_launchInfo i).symm]
  have := readFile_clientFiles 0 h
  rwa [Nat.zero_add] at this

/-! ## the loop of the script -/

/-- One file of a client is one summand. -/
theorem sumaLoop_cons {is : List Nat} {u : Suma}
    (h : readFile d (clientName i) = some (timeText a)) :
    sumaLoop d (i :: is) u =
      sumaLoop d is ⟨u.s + a, u.clientsCor + 1, u.opened ++ [clientName i]⟩ := by
  simp only [sumaLoop, h, Option.bind_eq_bind, Option.bind_some, readline_timeText,
    search_timeText, int_text]

theorem sumaLoop_eq {is : List Nat} {g : Nat → Int} {u : Suma}
    (h : ∀ i ∈ is, readFile d (clientName i) = some (timeText (g i))) :
    sumaLoop d is u = some ⟨u.s + (is.map g).sum, u.clientsCor + is.length,
      u.opened ++ is.map clientName⟩ := by
  induction is generalizing u with
  | nil => simp [sumaLoop]
  | cons i is ih =>
    rw [sumaLoop_cons (h i List.mem_cons_self), ih fun j hj => h j (List.mem_cons_of_mem _ hj),
      List.map_cons, List.map_cons, List.sum_cons, List.length_cons]
    dsimp only
    rw [List.append_assoc, Int.add_assoc, Int.add_assoc]
    congr 3
    push_cast
    ring

/-! ## what is printed -/

/-- what a client has measured, as the script reads it -/
def Client.measured (c : Client) : Int := (msecElapsed c).toInt

/-- The script adds up the files of the first `k` clients, where `d` has `k + 2` files. -/
theorem sumaFiles_eq (hd : ∀ i (h : i < clients.length),
    readFile d (clientName i) = some (timeText clients[i].measured))
    (hk : k ≤ clients.length) (hlen : d.length = k + 2) :
    sumaFiles d = some ⟨((clients.take k).map Client.measured).sum, k,
      (List.range k).map clientName⟩ := by
  have hrange : (numFiles d - 1 - 1).toNat = k := by
    unfold numFiles
    omega
  have hmap : (List.range k).map (fun i => (clients.map Client.measured).getD i 0) =
      (clients.take k).map Client.measured := by
    rw [List.map_take]
    apply List.ext_getElem
    · rw [List.length_map, List.length_range, List.length_take, List.length_map]
      omega
    · intro j h1 h2
      rw [List.length_map, List.length_range] at h1
      rw [List.getElem_map, List.getElem_range, List.getElem_take,
        List.getD_eq_getElem _ _ (by rw [List.length_map]; omega)]
  have hfile : ∀ i ∈ List.range k, readFile d (clientName i) =
      some (timeText ((clients.map Client.measured).getD i 0)) := by
    intro i hi
    have hlt : i < clients.length := (List.mem_range.mp hi).trans_le hk
    rw [hd i hlt, List.getD_eq_getElem _ _ (by rwa [List.length_map]), List.getElem_map]
  unfold sumaFiles
  dsimp only
  rw [hrange, sumaLoop_eq hfile, hmap, List.length_range]
  simp only [Int.zero_add, List.nil_append]

theorem sumaExec_eq {u : Suma} (h : sumaFiles d = some u) : sumaExec d =
    if u.clientsCor = 0 then none
    else some (Decimal.text (u.s.fdiv u.clientsCor) ++ ascii "\n") := by
  unfold sumaExec
  rw [h]
  rfl

variable {info : List (BitVec 8)} {front : List Client} {last : Client}

theorem launchClient_length (info : List (BitVec 8)) (clients : List Client) :
    (launchClient info clients).length = clients.length + 1 := by
  rw [launchClient_eq, List.length_cons, clientFiles_length]

/-- The loop leaves out the last client. -/
theorem sumaFiles_launchClient (info : List (BitVec 8)) (front : List Client) (last : Client) :
    sumaFiles (launchClient info (front ++ [last])) =
      some ⟨(front.map Client.measured).sum, front.length,
        (List.range front.length).map clientName⟩ := by
  have hlen : (front ++ [last]).length = front.length + 1 := List.length_append
  have h := sumaFiles_eq (k := front.length)
    (fun i h => readFile_launchClient info (front ++ [last]) h) (by omega)
    (by rw [launchClient_length, hlen])
  rwa [List.take_left] at h

theorem readFile_append {name f : List (BitVec 8)} (h : readFile d name = some f) (e : Dir) :
    readFile (d ++ e) name = some f := by
  obtain ⟨g, hg, rfl⟩ := Option.map_eq_some_iff.mp h
  unfold readFile
  rw [List.find?_append, hg]
  rfl

/-- With its output in the directory, as `scriptUnico.sh` runs it, the script reads every client. -/
theorem sumaExec_redirected (info : List (BitVec 8)) (h : clients ≠ []) :
    sumaExec (launchClient info clients ++ [(ascii "meanTimes.txt", [])]) =
      some (Decimal.text ((clients.map Client.measured).sum.fdiv clients.length) ++ ascii "\n") := by
  have hsum := sumaFiles_eq (k := clients.length)
    (fun i h => readFile_append (readFile_launchClient info clients h) [(ascii "meanTimes.txt", [])])
    le_rfl (by rw [List.length_append, launchClient_length]; rfl)
  have hpos : 0 < clients.length := List.length_pos_iff.mpr h
  rw [sumaExec_eq hsum, List.take_length]
  dsimp only
  rw [if_neg (by omega)]

/-! ## the slip of the sign -/

/-- what a client reports too much: the part of the second at its start counts twice instead of
not at all -/
def Client.excess (c : Client) : Int :=
  Int.bmod (c.elapsed + 2 * (c.initT.usec / 1000 : Nat)) (2 ^ 32) - c.elapsed

theorem measured_eq (c : Client) : c.measured = c.elapsed + c.excess := by
  have h : c.endT.sec * 1000 + (c.endT.usec / 1000 : Nat) - c.initT.sec * 1000 +
      (c.initT.usec / 1000 : Nat) = c.elapsed + 2 * (c.initT.usec / 1000 : Nat) := by
    unfold Client.elapsed Timeval.msec
    ring
  unfold Client.measured msecElapsed Client.excess
  rw [h, BitVec.toInt_ofInt]
  ring

theorem elapsed_nonneg (c : Client) : 0 ≤ c.elapsed := by
  have h1 := c.initT.usec_lt
  have h2 := c.le
  unfold Client.elapsed Timeval.msec
  omega

theorem excess_eq_zero_iff (c : Client) :
    c.excess = 0 ↔ c.initT.usec < 1000 ∧ c.elapsed < 2 ^ 31 := by
  have h1 := c.initT.usec_lt
  have h2 := elapsed_nonneg c
  have hm : ((2 ^ 32 : Nat) : Int) = 4294967296 := rfl
  unfold Client.excess
  rw [Int.bmod_def, hm]
  split
  · omega
  · omega

theorem timeText_inj {a b : Int} (h : timeText a = timeText b) : a = b := by
  apply Decimal.text_inj
  exact List.append_cancel_left (List.append_cancel_right h)

/-! ## the mean -/

/-- the mean of what was to be measured -/
def Printed (info : List (BitVec 8)) (clients : List Client) : Prop :=
  sumaExec (launchClient info clients) = some (Decimal.text
    ((clients.map Client.elapsed).sum.fdiv clients.length) ++ ascii "\n")

/-- the file of client `i` has the time of `c` -/
def Carried (info : List (BitVec 8)) (clients : List Client) (i : Nat) (c : Client) : Prop :=
  readFile (launchClient info clients) (clientName i) = some (timeText c.elapsed)

/-- the file of client `i` is opened once -/
def Counted (info : List (BitVec 8)) (clients : List Client) (i : Nat) : Prop :=
  ∃ u, sumaFiles (launchClient info clients) = some u ∧ u.opened.count (clientName i) = 1

structure MeanReported (info : List (BitVec 8)) (clients : List Client) : Prop where
  printed : Printed info clients
  carried : ∀ i (h : i < clients.length), Carried info clients i clients[i]
  counted : ∀ i, i < clients.length → Counted info clients i

theorem carried_iff (info : List (BitVec 8)) (clients : List Client) (i : Nat)
    (h : i < clients.length) : Carried info clients i clients[i] ↔
      clients[i].initT.usec < 1000 ∧ clients[i].elapsed < 2 ^ 31 := by
  have he := measured_eq clients[i]
  rw [← excess_eq_zero_iff]
  unfold Carried
  rw [readFile_launchClient info clients h]
  show some (timeText clients[i].measured) = _ ↔ _
  refine ⟨fun ht => ?_, fun hz => ?_⟩
  · have := timeText_inj (Option.some.inj ht)
    omega
  · rw [he, hz, Int.add_zero]

theorem counted_iff (info : List (BitVec 8)) (front : List Client) (last : Client) (i : Nat) :
    Counted info (front ++ [last]) i ↔ i < front.length := by
  have hcount : ((List.range front.length).map clientName).count (clientName i) =
      if i < front.length then 1 else 0 := by
    rw [List.count_map_of_injective _ _ fun i j => clientName_inj, List.nodup_range.count]
    simp only [List.mem_range]
  unfold Counted
  rw [sumaFiles_launchClient]
  refine ⟨fun ⟨u, hu, h1⟩ => ?_, fun h => ⟨_, rfl, ?_⟩⟩
  · cases hu
    by_contra h
    rw [hcount, if_neg h] at h1
    exact absurd h1 (by decide)
  · rw [hcount, if_pos h]

theorem sum_measured (clients : List Client) : (clients.map Client.measured).sum =
    (clients.map Client.elapsed).sum + (clients.map Client.excess).sum := by
  induction clients with
  | nil => rfl
  | cons c clients ih =>
    simp only [List.map_cons, List.sum_cons]
    rw [ih, measured_eq]
    ring

/-- How far the sum that the script divides lies above `q * (n - 1)`, where `q` is the mean of the
`n` clients: what the other clients report too much, the remainder of the mean, and how far the last
client, whom the script leaves out, lies below the mean. -/
def surplus (front : List Client) (last : Client) : Int :=
  let n : Int := front.length + 1
  let m := ((front ++ [last]).map Client.elapsed).sum
  (front.map Client.excess).sum + m.fmod n + (m.fdiv n - last.elapsed)

theorem surplus_eq (front : List Client) (last : Client) :
    (front.map Client.measured).sum = surplus front last +
      ((front ++ [last]).map Client.elapsed).sum.fdiv (front.length + 1) * front.length := by
  have hm : ((front ++ [last]).map Client.elapsed).sum =
      (front.map Client.elapsed).sum + last.elapsed := by
    rw [List.map_append, List.sum_append, List.map_singleton, List.sum_singleton]
  have hdiv := Int.mul_fdiv_add_fmod ((front ++ [last]).map Client.elapsed).sum
    (front.length + 1)
  unfold surplus
  dsimp only
  rw [sum_measured]
  linear_combination -hm - hdiv

theorem printed_iff (info : List (BitVec 8)) (front : List Client) (last : Client) :
    Printed info (front ++ [last]) ↔ 0 ≤ surplus front last ∧ surplus front last < front.length := by
  have hlen : ((front ++ [last]).length : Int) = front.length + 1 := by
    rw [List.length_append, List.length_singleton, Nat.cast_add]
    rfl
  have hsum := surplus_eq front last
  unfold Printed
  rw [sumaExec_eq (sumaFiles_launchClient info front last), hlen]
  dsimp only
  by_cases h0 : (front.length : Int) = 0
  · -- the script divides by zero
    rw [if_pos h0, h0]
    exact iff_of_false (by simp) (by omega)
  · have hpos : 0 < (front.length : Int) := by omega
    rw [if_neg h0, Option.some.injEq, List.append_left_inj,
      Int.fdiv_eq_ediv_of_nonneg (front.map Client.measured).sum hpos.le]
    refine ⟨fun h => ?_, fun h => ?_⟩
    · have hq := Decimal.text_inj h
      rw [Int.ediv_eq_iff_of_pos hpos] at hq
      omega
    · congr 1
      rw [Int.ediv_eq_iff_of_pos hpos]
      omega

/-- What is reported of `n` clients, the last one apart.  The mean that is printed is the true one by
accident only, a file has the true time for a client that starts in the first millisecond of a second,
and the last file is never counted. -/
theorem mean_reported_iff (info : List (BitVec 8)) (front : List Client) (last : Client) :
    (Printed info (front ++ [last]) ↔
      0 ≤ surplus front last ∧ surplus front last < front.length) ∧
    (∀ i (h : i < (front ++ [last]).length), Carried info (front ++ [last]) i (front ++ [last])[i] ↔
      (front ++ [last])[i].initT.usec < 1000 ∧ (front ++ [last])[i].elapsed < 2 ^ 31) ∧
    (∀ i, Counted info (front ++ [last]) i ↔ i < front.length) ∧
    ¬ MeanReported info (front ++ [last]) := by
  refine ⟨printed_iff info front last, carried_iff info _, counted_iff info front last, fun h => ?_⟩
  have hlast := h.counted front.length (by rw [List.length_append]; exact Nat.lt_succ_self _)
  exact Nat.lt_irrefl _ ((counted_iff info front last _).mp hlast)

/-- from half a second to the full one -/
def halfSecond : Client := ⟨⟨0, 500000, by decide⟩, ⟨1, 0, by decide⟩, by decide⟩

/-- no time at all -/
def noTime : Client := ⟨⟨0, 0, by decide⟩, ⟨0, 0, by decide⟩, by decide⟩

/-- The script prints 1500 for a mean of 250. -/
theorem mean_misreported : ¬ MeanReported [] [halfSecond, noTime] := by
  intro h
  have hp : sumaExec (launchClient [] [halfSecond, noTime]) = some (ascii "250\n") := h.printed
  exact absurd hp (by decide +kernel)

end Sockets
