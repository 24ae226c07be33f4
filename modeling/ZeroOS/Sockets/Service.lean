import ZeroOS.Lib.CStrings
import ZeroOS.Lib.Decimal

/-!
# Sockets: `doService`

The service of one connection.  What `read` and `write` return comes from outside, a store behind
the end of a buffer is an error of the model, and a buffer is a function of the offset in it.

* `Piece`              what one `read` returns;
* `doService`          the bytes that the service writes to 1;
* `doService_eq`       the transcript, where every piece fits;
* `service_fits_iff`   **when the service stays inside its buffers**: a piece leaves a byte free in
  `buff`, and its text, with the process id before it, fits into `buff2`.
-/

set_option linter.unusedVariables false

namespace Sockets
open CStrings

abbrev Byte := BitVec 8

/-! ## the source -/

@[simp] abbrev sizeofBuff : Nat := 80
@[simp] abbrev sizeofBuff2 : Nat := 80

structure Buffers where
  buff : Nat → Byte
  buff2 : Nat → Byte

/-- an access outside this buffer -/
inductive Overflow where
  | buff
  | buff2

/-- the bytes that `read(socket_fd, buff, sizeof(buff))` returns -/
structure Piece where
  bytes : List Byte
  pos : 0 < bytes.length
  fits : bytes.length ≤ sizeofBuff

def storeBuff (b : Buffers) (i : Nat) (c : Byte) : Except Overflow Buffers :=
  if i < sizeofBuff then .ok { b with buff := Function.update b.buff i c } else .error .buff

/-- `sprintf(buff2, ..)`: the text, with the terminator -/
def sprintf (b : Buffers) (text : List Byte) : Except Overflow Buffers :=
  if text.length + 1 ≤ sizeofBuff2 then .ok { b with buff2 := put 0 (text ++ [0]) b.buff2 }
  else .error .buff2

/-- the string in `buff`, as `%s` reads it -/
def buffString (b : Buffers) : Except Overflow (List Byte) :=
  (stringAt 0 sizeofBuff b.buff).elim (.error .buff) .ok

/-- `write(1, buff2, strlen(buff2))` -/
def writeBuff2 (b : Buffers) : Except Overflow (List Byte) :=
  (stringAt 0 sizeofBuff2 b.buff2).elim (.error .buff2) .ok

/-- `"Server [%d] received: %s\n"` -/
def receivedText (pid : BitVec 32) (s : List Byte) : List Byte :=
  ascii "Server [" ++ Decimal.text pid.toInt ++ ascii "] received: " ++ s ++ ascii "\n"

/-- `"Server [%d] ends service\n"` -/
def endsText (pid : BitVec 32) : List Byte :=
  ascii "Server [" ++ Decimal.text pid.toInt ++ ascii "] ends service\n"

/-- the loop up to its `write(fd, ..)`: what goes to 1, and the buffers -/
def received (pid : BitVec 32) (piece : Piece) (b : Buffers) :
    Except Overflow (List Byte × Buffers) := do
  let b := { b with buff := put 0 piece.bytes b.buff }
  let b ← storeBuff b piece.bytes.length 0
  let s ← buffString b
  let b ← sprintf b (receivedText pid s)
  let out ← writeBuff2 b
  .ok (out, b)

/-- the service after `read`.  The list has the pieces that are still to come, each with what
`write(fd, "caracola ", 8)` returns for it; a read after the last one returns 0 or less. -/
def doService (pid : BitVec 32) : List (Piece × Int) → Buffers → Except Overflow (List Byte)
  | [], b => do
    let b ← sprintf b (endsText pid)
    writeBuff2 b
  | (piece, ret) :: pieces, b => do
    let (out, b) ← received pid piece b
    -- `exit(1)`
    if ret < 0 then .ok out
    else
      let rest ← doService pid pieces b
      .ok (out ++ rest)

variable {pid : BitVec 32} {piece : Piece} {b : Buffers} {s : List Byte}

/-! ## texts -/

theorem receivedText_length (pid : BitVec 32) (s : List Byte) :
    (receivedText pid s).length = 21 + (Decimal.text pid.toInt).length + s.length := by
  have h1 : (ascii "Server [").length = 8 := rfl
  have h2 : (ascii "] received: ").length = 12 := rfl
  have h3 : (ascii "\n").length = 1 := rfl
  unfold receivedText
  simp only [List.length_append, h1, h2, h3]
  omega

theorem receivedText_fits : (receivedText pid s).length + 1 ≤ sizeofBuff2 ↔
    (Decimal.text pid.toInt).length + s.length ≤ 58 := by
  rw [receivedText_length]
  show _ ≤ 80 ↔ _
  omega

theorem endsText_length (pid : BitVec 32) :
    (endsText pid).length = 23 + (Decimal.text pid.toInt).length := by
  have h1 : (ascii "Server [").length = 8 := rfl
  have h2 : (ascii "] ends service\n").length = 15 := rfl
  unfold endsText
  simp only [List.length_append, h1, h2]
  omega

theorem zero_notMem_receivedText (hs : (0 : Byte) ∉ s) : (0 : Byte) ∉ receivedText pid s := by
  have h1 : (0 : Byte) ∉ ascii "Server [" := by decide
  have h2 : (0 : Byte) ∉ ascii "] received: " := by decide
  have h3 : (0 : Byte) ∉ ascii "\n" := by decide
  unfold receivedText
  simp only [List.mem_append, not_or]
  exact ⟨⟨⟨⟨h1, Decimal.zero_notMem_text _⟩, h2⟩, hs⟩, h3⟩

theorem zero_notMem_endsText : (0 : Byte) ∉ endsText pid := by
  have h1 : (0 : Byte) ∉ ascii "Server [" := by decide
  have h2 : (0 : Byte) ∉ ascii "] ends service\n" := by decide
  unfold endsText
  simp only [List.mem_append, not_or]
  exact ⟨⟨h1, Decimal.zero_notMem_text _⟩, h2⟩

/-- the part of a piece that `%s` shows -/
def Piece.string (piece : Piece) : List Byte := piece.bytes.takeWhile (· ≠ 0)

/-! ## the buffers -/

theorem storeBuff_of_lt {i : Nat} {c : Byte} (h : i < sizeofBuff) :
    storeBuff b i c = .ok { b with buff := Function.update b.buff i c } := if_pos h

theorem storeBuff_of_ge {i : Nat} {c : Byte} (h : ¬ i < sizeofBuff) :
    storeBuff b i c = .error .buff := if_neg h

theorem sprintf_of_le {text : List Byte} (h : text.length + 1 ≤ sizeofBuff2) :
    sprintf b text = .ok { b with buff2 := put 0 (text ++ [0]) b.buff2 } := if_pos h

theorem sprintf_of_gt {text : List Byte} (h : ¬ text.length + 1 ≤ sizeofBuff2) :
    sprintf b text = .error .buff2 := if_neg h

/-- a piece with its terminator stored behind it -/
theorem buffString_terminated {bytes : List Byte} (h : bytes.length < sizeofBuff) (b : Buffers) :
    buffString { b with buff := Function.update (put 0 bytes b.buff) bytes.length 0 } =
      .ok (bytes.takeWhile (· ≠ 0)) := by
  have hupd := update_put 0 bytes 0 b.buff
  rw [Nat.zero_add] at hupd
  unfold buffString
  rw [hupd, stringAt_put b.buff h]
  rfl

theorem writeBuff2_printed {text : List Byte} (hz : (0 : Byte) ∉ text)
    (hl : text.length + 1 ≤ sizeofBuff2) (b : Buffers) :
    writeBuff2 { b with buff2 := put 0 (text ++ [0]) b.buff2 } = .ok text := by
  unfold writeBuff2
  rw [stringAt_put_of_notMem hz b.buff2 hl]
  rfl

/-! ## one round -/

/-- `buff` has room for the terminator, and `buff2` for the text and its terminator. -/
structure Fits (pid : BitVec 32) (piece : Piece) : Prop where
  terminator : piece.bytes.length < 80
  text : (Decimal.text pid.toInt).length + piece.string.length ≤ 58

/-- the buffers after a round -/
def after (pid : BitVec 32) (piece : Piece) (b : Buffers) : Buffers where
  buff := Function.update (put 0 piece.bytes b.buff) piece.bytes.length 0
  buff2 := put 0 (receivedText pid piece.string ++ [0]) b.buff2

theorem received_eq (h : Fits pid piece) (b : Buffers) :
    received pid piece b = .ok (receivedText pid piece.string, after pid piece b) := by
  have hfits := receivedText_fits.mpr h.text
  have hz : (0 : Byte) ∉ piece.string := notMem_takeWhile 0 piece.bytes
  unfold received
  dsimp only
  rw [storeBuff_of_lt h.terminator]
  show (buffString _ >>= _) = _
  rw [buffString_terminated h.terminator]
  show (sprintf _ (receivedText pid piece.string) >>= _) = _
  rw [sprintf_of_le hfits]
  show (writeBuff2 _ >>= _) = _
  rw [writeBuff2_printed (zero_notMem_receivedText hz) hfits]
  rfl

theorem received_error (h : ¬ Fits pid piece) (b : Buffers) :
    ∃ o, received pid piece b = .error o := by
  unfold received
  dsimp only
  by_cases hl : piece.bytes.length < sizeofBuff
  · have hgt : ¬ (receivedText pid piece.string).length + 1 ≤ sizeofBuff2 := fun hle =>
      h ⟨hl, receivedText_fits.mp hle⟩
    refine ⟨.buff2, ?_⟩
    rw [storeBuff_of_lt hl]
    show (buffString _ >>= _) = _
    rw [buffString_terminated hl]
    show (sprintf _ (receivedText pid piece.string) >>= _) = _
    rw [sprintf_of_gt hgt]
    rfl
  · refine ⟨.buff, ?_⟩
    rw [storeBuff_of_ge hl]
    rfl

/-! ## the service -/

/-- the pieces that the service reads: it exits after a `write` that fails -/
def readPieces : List (Piece × Int) → List Piece
  | [] => []
  | (piece, ret) :: pieces => piece :: if ret < 0 then [] else readPieces pieces

/-- what goes to 1 where every piece fits -/
def transcript (pid : BitVec 32) : List (Piece × Int) → List Byte
  | [] => endsText pid
  | (piece, ret) :: pieces =>
    receivedText pid piece.string ++ if ret < 0 then [] else transcript pid pieces

theorem doService_end (pid : BitVec 32) (b : Buffers) :
    doService pid [] b = .ok (endsText pid) := by
  have hl : (endsText pid).length + 1 ≤ sizeofBuff2 := by
    have h1 := Decimal.text_length_toInt pid
    have h2 := endsText_length pid
    show _ ≤ 80
    omega
  unfold doService
  rw [sprintf_of_le hl]
  exact writeBuff2_printed zero_notMem_endsText hl b

theorem doService_eq {pieces : List (Piece × Int)}
    (h : ∀ piece ∈ readPieces pieces, Fits pid piece) (b : Buffers) :
    doService pid pieces b = .ok (transcript pid pieces) := by
  induction pieces generalizing b with
  | nil => exact doService_end pid b
  | cons p pieces ih =>
    obtain ⟨piece, ret⟩ := p
    have hr := received_eq (h piece List.mem_cons_self) b
    unfold doService transcript
    rw [hr]
    by_cases hret : ret < 0
    · rw [if_pos hret, List.append_nil]
      exact if_pos hret
    · have hrest : ∀ q ∈ readPieces pieces, Fits pid q := fun q hq => by
        apply h q
        unfold readPieces
        rw [if_neg hret]
        exact List.mem_cons_of_mem _ hq
      rw [if_neg hret]
      show (if ret < 0 then _ else _) = _
      rw [if_neg hret, ih hrest]
      rfl

theorem doService_error {pieces : List (Piece × Int)} (b : Buffers)
    (h : ∃ piece ∈ readPieces pieces, ¬ Fits pid piece) :
    ∃ o, doService pid pieces b = .error o := by
  induction pieces generalizing b with
  | nil =>
    obtain ⟨q, hq, -⟩ := h
    exact absurd hq List.not_mem_nil
  | cons p pieces ih =>
    obtain ⟨piece, ret⟩ := p
    obtain ⟨q, hq, hnot⟩ := h
    unfold doService
    by_cases hfit : Fits pid piece
    · -- the overflow comes in a later round
      have hr := received_eq hfit b
      unfold readPieces at hq
      by_cases hret : ret < 0
      · rw [if_pos hret, List.mem_singleton] at hq
        exact absurd (hq ▸ hfit) hnot
      · rw [if_neg hret, List.mem_cons] at hq
        obtain ⟨o, ho⟩ := ih (after pid piece b) ⟨q, hq.resolve_left fun e => hnot (e ▸ hfit), hnot⟩
        refine ⟨o, ?_⟩
        rw [hr]
        show (if ret < 0 then _ else _) = _
        rw [if_neg hret, ho]
        rfl
    · obtain ⟨o, ho⟩ := received_error hfit b
      refine ⟨o, ?_⟩
      rw [ho]
      rfl

/-- no store and no read behind the end of a buffer -/
def InBuffers (pid : BitVec 32) (pieces : List (Piece × Int)) (b : Buffers) : Prop :=
  ∃ out, doService pid pieces b = .ok out

theorem not_inBuffers {pieces : List (Piece × Int)}
    (h : ∃ piece ∈ readPieces pieces, ¬ Fits pid piece) : ¬ InBuffers pid pieces b := by
  rintro ⟨out, hout⟩
  obtain ⟨o, ho⟩ := doService_error b h
  rw [hout] at ho
  cases ho

/-- The service stays inside its buffers exactly when each piece that it reads fits. -/
theorem service_fits_iff (pid : BitVec 32) (pieces : List (Piece × Int)) (b : Buffers) :
    InBuffers pid pieces b ↔ ∀ piece ∈ readPieces pieces,
      piece.bytes.length < 80 ∧ (Decimal.text pid.toInt).length + piece.string.length ≤ 58 := by
  refine ⟨fun hin piece hp => ?_, fun h => ?_⟩
  · by_contra hnot
    exact not_inBuffers ⟨piece, hp, fun hf => hnot ⟨hf.terminator, hf.text⟩⟩ hin
  · exact ⟨_, doService_eq (fun piece hp => ⟨(h piece hp).1, (h piece hp).2⟩) b⟩

/-- 80 bytes at once -/
def fullPiece : Piece := ⟨List.replicate 80 0x61, by decide, by decide⟩

/-- 58 bytes, which `buff` has room for -/
def longPiece : Piece := ⟨List.replicate 58 0x61, by decide, by decide⟩

theorem service_overflows : ¬ InBuffers 1 [(fullPiece, 8)] ⟨fun _ => 0, fun _ => 0⟩ ∧
    ¬ InBuffers 1 [(longPiece, 8)] ⟨fun _ => 0, fun _ => 0⟩ := by
  have h1 : ¬ Fits 1 fullPiece := fun h => absurd h.terminator (by decide)
  have h2 : ¬ Fits 1 longPiece := fun h => absurd h.text (by decide)
  exact ⟨not_inBuffers ⟨fullPiece, List.mem_cons_self, h1⟩,
    not_inBuffers ⟨longPiece, List.mem_cons_self, h2⟩⟩

end Sockets
