import Mathlib.Data.BitVec
import Mathlib.Tactic.Common

/-!
# build.c

`main` writes the boot sector, the system file and the user file one after the other, and then its
three numbers over them.  The files are lists of bytes, and the output is a regular file: every
write succeeds.

* `pwrite`        `lseek` and `write`;
* `copyFile`      the copy loop, one buffer after the other;
* `main`          the image, or the message with which `build` dies;
* `main_ok`       what an image is made of;
* `image_sector`, `image_header`, `image_body`   its bytes.
-/

set_option linter.unusedVariables false

namespace Build

abbrev Byte := BitVec 8

/-! ## the program -/

/-- the host that `build` is compiled for -/
inductive Abi where
  | ilp32
  | lp64
  deriving DecidableEq

/-- of `u32`, which is `unsigned long` -/
def Abi.sizeofLong : Abi → Nat
  | .ilp32 => 4
  | .lp64 => 8

def sizeofBuf : Nat := 1024
def minixHeaderLen : Nat := 32

def hdr : List Byte := [0x01, 0x03, 0x10, 0x04, 0x20, 0x00, 0x00, 0x00]

/-- `lb[k]`, as a condition -/
def lb (abi : Abi) (buf : List Byte) (k : Nat) : Bool :=
  ((buf.drop (abi.sizeofLong * k)).take abi.sizeofLong).any (· ≠ 0)

/-- The rest of the file is still to be read.  `buf` was never used before, and is 0 behind the
header. -/
def minixOpen (abi : Abi) (name : String) (file : Option (List Byte)) :
    Except String (List Byte) :=
  match file with
  | none => .error ("Unable to open " ++ name)
  | some bytes =>
    let buf := bytes.take minixHeaderLen ++ List.replicate (sizeofBuf - minixHeaderLen) 0
    if bytes.length < minixHeaderLen then .error (name ++ ": Unable to read header")
    else if buf.take hdr.length ≠ hdr ∨ lb abi buf 5 then .error (name ++ ": Non-Minix header")
    else if lb abi buf 3 then .error "%s: Illegal data segment"
    else if lb abi buf 4 then .error "%s: Illegal bss segment"
    else if lb abi buf 7 then .error "%s: Illegal symbol table"
    else .ok (bytes.drop minixHeaderLen)

/-- `lseek (1, pos, SEEK_SET)`, and `write` -/
def pwrite (out : List Byte) (pos : Nat) (bs : List Byte) : List Byte :=
  out.take pos ++ List.replicate (pos - out.length) 0 ++ bs ++ out.drop (pos + bs.length)

/-- the boot sector, with the root device 0 -/
def copyBoot (abi : Abi) (name : String) (file : Option (List Byte)) : Except String (List Byte) :=
  (minixOpen abi name file).bind fun rest =>
    let buf := rest.take sizeofBuf
    if buf.length ≠ 512 then .error "Boot block must be exactly 512 bytes"
    else if buf[510]? ≠ some 0x55 ∨ buf[511]? ≠ some 0xaa then
      .error "Boot block hasn't got boot flag (0xAA55)"
    else .ok ((buf.set 508 0).set 509 0)

/-- `while (sz > 0)`: `rest` is what `read` has not returned yet -/
def copyFile (name : String) (sz : Nat) (rest out : List Byte) : Except String (List Byte) :=
  if h : sz > 0 then
    let l := if sz > sizeofBuf then sizeofBuf else sz
    if (rest.take l).length ≠ l then .error (name ++ ": Unexpected EOF")
    else copyFile name (sz - l) (rest.drop l) (out ++ rest.take l)
  else .ok out
termination_by sz
decreasing_by
  unfold sizeofBuf
  split <;> omega

/-- The size is an `unsigned int`. -/
def appendFile (name : String) (file : Option (List Byte)) (out : List Byte) :
    Except String (Nat × List Byte) :=
  match file with
  | none => .error ("Unable to open " ++ name)
  | some bytes =>
    let sz := bytes.length % 2 ^ 32
    (copyFile name sz bytes out).map fun out => (sz, out)

/-- `(x >> 8 * k) & 0xff` -/
def byteOf (x k : Nat) : Byte := BitVec.ofNat 8 (x / 2 ^ (8 * k))

/-- three bytes of a size -/
def sizeBytes (x : Nat) : List Byte := [byteOf x 0, byteOf x 1, byteOf x 2, 0]

def imSize (abi : Abi) (sysSize usrSize : Nat) : Nat :=
  (sysSize + usrSize + 15) % 2 ^ (8 * abi.sizeofLong) / 16

def writeSizes (abi : Abi) (sysSize usrSize : Nat) (out : List Byte) : List Byte :=
  let im := imSize abi sysSize usrSize
  let out := pwrite out 500 [byteOf im 0, byteOf im 1]
  let out := pwrite out 512 (sizeBytes sysSize)
  let out := pwrite out 516 (sizeBytes usrSize)
  pwrite out 520 (sizeBytes 0x7DDB)

def main (abi : Abi) (argv : List String) (files : String → Option (List Byte)) :
    Except String (List Byte) :=
  match argv with
  | [_, bootsect, system, user] =>
    (copyBoot abi bootsect (files bootsect)).bind fun out =>
      (appendFile system (files system) out).bind fun (sysSize, out) =>
        (appendFile user (files user) out).bind fun (usrSize, out) =>
          .ok (writeSizes abi sysSize usrSize out)
  | _ => .error "Usage: build bootsect system user [> image]"

/-! ## the files -/

theorem copyFile_ok (name : String) (sz : Nat) (rest out : List Byte) (h : sz ≤ rest.length) :
    copyFile name sz rest out = .ok (out ++ rest.take sz) := by
  induction sz, rest, out using copyFile.induct with
  | case1 sz rest out hsz l hl =>
    have hle : l ≤ sz := by
      show (if sz > sizeofBuf then sizeofBuf else sz) ≤ sz
      split <;> omega
    rw [List.length_take] at hl
    omega
  | case2 sz rest out hsz l hl ih =>
    have hle : l ≤ sz := by
      show (if sz > sizeofBuf then sizeofBuf else sz) ≤ sz
      split <;> omega
    have hrest : sz - l ≤ (rest.drop l).length := by
      rw [List.length_drop]
      omega
    have hsplit : rest.take sz = rest.take l ++ (rest.drop l).take (sz - l) := by
      rw [← List.take_add, Nat.add_sub_cancel' hle]
    rw [copyFile, dif_pos hsz]
    show (if (rest.take l).length ≠ l then _ else _) = _
    rw [if_neg hl, hsplit, ← List.append_assoc]
    exact ih hrest
  | case3 sz rest out hsz =>
    have h0 : sz = 0 := by omega
    rw [copyFile, dif_neg hsz, h0, List.take_zero, List.append_nil]

theorem appendFile_ok (name : String) (bytes out : List Byte) :
    appendFile name (some bytes) out =
      .ok (bytes.length % 2 ^ 32, out ++ bytes.take (bytes.length % 2 ^ 32)) := by
  unfold appendFile
  dsimp only
  rw [copyFile_ok name _ bytes out (Nat.mod_le ..)]
  rfl

/-! ## the output -/

section
variable {out bs : List Byte} {pos i : Nat}

theorem pwrite_getElem? (h : pos ≤ out.length) : (pwrite out pos bs)[i]? =
    if pos ≤ i ∧ i < pos + bs.length then bs[i - pos]? else out[i]? := by
  have h0 : pos - out.length = 0 := Nat.sub_eq_zero_of_le h
  have hl : (out.take pos).length = pos := by rw [List.length_take, Nat.min_eq_left h]
  unfold pwrite
  rw [h0, List.replicate_zero, List.append_nil, List.append_assoc, List.getElem?_append, hl]
  by_cases h1 : i < pos
  · rw [if_pos h1, if_neg (by omega), List.getElem?_take, if_pos h1]
  · rw [if_neg h1, List.getElem?_append]
    by_cases h2 : i < pos + bs.length
    · rw [if_pos (by omega), if_pos ⟨by omega, h2⟩]
    · have e : pos + bs.length + (i - pos - bs.length) = i := by omega
      rw [if_neg (by omega), if_neg (by omega), List.getElem?_drop, e]

theorem pwrite_length (h : pos ≤ out.length) :
    (pwrite out pos bs).length = max out.length (pos + bs.length) := by
  unfold pwrite
  simp only [List.length_append, List.length_take, List.length_replicate, List.length_drop]
  omega

/-- the bytes of the image, after the three writes over the files -/
theorem writeSizes_getElem? (abi : Abi) (s u : Nat) (h : 512 ≤ out.length) :
    (writeSizes abi s u out)[i]? =
      if 500 ≤ i ∧ i < 502 then [byteOf (imSize abi s u) 0, byteOf (imSize abi s u) 1][i - 500]?
      else if 512 ≤ i ∧ i < 524 then (sizeBytes s ++ sizeBytes u ++ sizeBytes 0x7DDB)[i - 512]?
      else out[i]? := by
  have hlen : ∀ x, (sizeBytes x).length = 4 := fun x => rfl
  have hlen2 : ∀ x y : Byte, [x, y].length = 2 := fun x y => rfl
  have h1 : 512 ≤ (pwrite out 500 [byteOf (imSize abi s u) 0, byteOf (imSize abi s u) 1]).length := by
    rw [pwrite_length (by omega)]
    omega
  unfold writeSizes
  dsimp only
  generalize hrd : sizeBytes 0x7DDB = rd
  have hrdl : rd.length = 4 := by rw [← hrd, hlen]
  generalize hout : pwrite out 500 [byteOf (imSize abi s u) 0, byteOf (imSize abi s u) 1] = out₁ at h1 ⊢
  have h2 : 516 ≤ (pwrite out₁ 512 (sizeBytes s)).length := by
    rw [pwrite_length h1, hlen]
    omega
  have h3 : 520 ≤ (pwrite (pwrite out₁ 512 (sizeBytes s)) 516 (sizeBytes u)).length := by
    rw [pwrite_length h2, hlen]
    omega
  rw [pwrite_getElem? h3, pwrite_getElem? h2, pwrite_getElem? h1, ← hout,
    pwrite_getElem? (by omega), hlen, hlen, hrdl, hlen2]
  by_cases hsys : 500 ≤ i ∧ i < 502
  · rw [if_neg (by omega), if_neg (by omega), if_neg (by omega), if_pos hsys, if_pos hsys]
  · rw [if_neg hsys, if_neg hsys]
    by_cases hhead : 512 ≤ i ∧ i < 524
    · rw [if_pos hhead, List.getElem?_append, List.getElem?_append, List.length_append, hlen, hlen]
      have e1 : i - 512 - 4 = i - 516 := by omega
      by_cases h4 : i < 516
      · have c1 : 512 ≤ i ∧ i < 512 + 4 := ⟨hhead.1, h4⟩
        rw [if_neg (by omega), if_neg (by omega), if_pos c1, if_pos (by omega), if_pos (by omega)]
      · by_cases h8 : i < 520
        · rw [if_neg (by omega), if_pos (by omega), if_pos (by omega), if_neg (by omega), e1]
        · rw [if_pos (by omega), if_neg (by omega)]
          exact congrArg (fun k => rd[k]?) (Nat.sub_sub i 512 8).symm
    · rw [if_neg (by omega), if_neg (by omega), if_neg (by omega), if_neg hhead]

end

theorem ite_error_eq_ok {ε α : Type*} {c : Prop} [Decidable c] {e : ε} {x : Except ε α} {a : α} :
    (if c then .error e else x) = .ok a ↔ ¬ c ∧ x = .ok a := by
  by_cases h : c
  · rw [if_pos h]
    exact iff_of_false (fun e => nomatch e) fun e => e.1 h
  · rw [if_neg h]
    exact ⟨fun e => ⟨h, e⟩, And.right⟩

/-- Only the boot sector is checked. -/
theorem main_of_boot {abi : Abi} {prog bootsect system user : String}
    {files : String → Option (List Byte)} {boot sys usr : List Byte}
    (hb : copyBoot abi bootsect (files bootsect) = .ok boot) (hs : files system = some sys)
    (hu : files user = some usr) : main abi [prog, bootsect, system, user] files =
      .ok (writeSizes abi (sys.length % 2 ^ 32) (usr.length % 2 ^ 32)
        (boot ++ sys.take (sys.length % 2 ^ 32) ++ usr.take (usr.length % 2 ^ 32))) := by
  unfold main
  dsimp only
  rw [hs, hu, hb, Except.bind, appendFile_ok, Except.bind, appendFile_ok]
  rfl

/-- an image: what `build` has written before it seeks, and the numbers over it -/
theorem main_ok {abi : Abi} {prog bootsect system user : String}
    {files : String → Option (List Byte)} {image sys usr : List Byte}
    (hs : files system = some sys) (hu : files user = some usr)
    (h : main abi [prog, bootsect, system, user] files = .ok image) :
    ∃ boot, copyBoot abi bootsect (files bootsect) = .ok boot ∧
      image = writeSizes abi (sys.length % 2 ^ 32) (usr.length % 2 ^ 32)
        (boot ++ sys.take (sys.length % 2 ^ 32) ++ usr.take (usr.length % 2 ^ 32)) := by
  cases hb : copyBoot abi bootsect (files bootsect) with
  | error e =>
    unfold main at h
    dsimp only at h
    rw [hb] at h
    cases h
  | ok boot => exact ⟨boot, rfl, (Except.ok.inj ((main_of_boot hb hs hu).symm.trans h)).symm⟩

/-- the boot sector that `build` has checked, behind the header of its file -/
theorem copyBoot_ok {abi : Abi} {name : String} {bytes boot : List Byte}
    (h : copyBoot abi name (some bytes) = .ok boot) :
    boot.length = 512 ∧ ∀ i, i < 508 → boot[i]? = bytes[minixHeaderLen + i]? := by
  unfold copyBoot at h
  cases hm : minixOpen abi name (some bytes) with
  | error e =>
    rw [hm] at h
    cases h
  | ok rest =>
    rw [hm] at h
    simp only [minixOpen, ite_error_eq_ok, Except.ok.injEq] at hm
    obtain ⟨-, -, -, -, -, rfl⟩ := hm
    simp only [Except.bind, ite_error_eq_ok, Except.ok.injEq] at h
    obtain ⟨hlen, -, rfl⟩ := h
    refine ⟨?_, fun i hi => ?_⟩
    · rw [List.length_set, List.length_set]
      exact not_not.mp hlen
    · have hne : 508 ≠ i := by omega
      have hne' : 509 ≠ i := by omega
      have hlt : i < sizeofBuf := Nat.lt_trans hi (by decide)
      rw [List.getElem?_set_ne hne', List.getElem?_set_ne hne, List.getElem?_take, if_pos hlt,
        List.getElem?_drop]

end Build
