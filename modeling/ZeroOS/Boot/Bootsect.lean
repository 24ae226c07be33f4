import Mathlib.Data.BitVec
import Mathlib.Logic.Function.Basic
import Mathlib.Tactic.Common

/-!
# bootsect.S

`read_it` and `read_track`: the loop that loads the system from the diskette, register by register.
The BIOS reads succeed.  The words `syssize` and `setup_sects` are in the boot sector, which lies
at 0x90000 when the loop runs: the run stops with `overrun` at a read that would reach it.

* `rpRead`        one round of the loop;
* `Position`      where the loop is after `n` sectors;
* `rpRead_step`   one round reads up to the end of the track or of the 64 KiB segment;
* `readIt_done`, `readIt_overruns`   the two ends of the loop.
-/

set_option linter.unusedVariables false

namespace Bootsect

abbrev Byte := BitVec 8
abbrev Word := BitVec 16

def secPista : Word := 18
def sysseg : Word := 0x1000
def initseg : Word := 0x9000

/-! ## the program -/

structure Loader where
  es : Word
  bx : Word
  /-- sectors read of current track -/
  sread : Word
  /-- current head -/
  head : Word
  /-- current track -/
  track : Word
  mem : Nat → Byte

def syssize (disk : Nat → Byte) : Word := disk 501 ++ disk 500

def setupSects (disk : Nat → Byte) : Byte := disk 497

/-- a sector of a diskette with 18 sectors a track and 2 heads; the sectors of a track count from
1 -/
def lba (cylinder head sector : Nat) : Nat := (cylinder * 2 + head) * 18 + (sector - 1)

/-- `int 0x13` with `ah = 2`: `al` sectors from the cylinder, head and sector in `ch`, `dh` and
`cl`, to `addr` -/
def int13 (disk : Nat → Byte) (al ch cl dh addr : Nat) (mem : Nat → Byte) : Nat → Byte := fun a =>
  if addr ≤ a ∧ a < addr + 512 * al then
    disk (512 * lba (ch + 256 * (cl / 64)) dh (cl % 64) + (a - addr))
  else mem a

/-- `ax` sectors to `es:bx` -/
def readTrack (disk : Nat → Byte) (ax : Word) (l : Loader) : Loader :=
  let cx := l.sread + 1
  let ch := l.track.toNat % 256
  let dx := l.head &&& 1
  let addr := l.es.toNat * 16 + l.bx.toNat
  { l with mem := int13 disk (ax.toNat % 256) ch (cx.toNat % 256) dx.toNat addr l.mem }

/-- `cx = ax << 9; cx += bx`: the sectors up to the end of the track, or of the segment if that
comes first -/
def sectorsNow (l : Loader) : Word :=
  let ax := secPista - l.sread
  let cx := ax <<< 9
  -- `jnc`, and `je`: the sum is just the segment
  if cx.toNat + l.bx.toNat < 2 ^ 16 ∨ cx + l.bx = 0 then ax else (0 - l.bx) >>> 9

/-- behind the call of `read_track`: the next sector -/
def nextSector (ax : Word) (l : Loader) : Loader :=
  let ax := ax + l.sread
  if ax = secPista then
    let ax := 1 - l.head
    { l with track := (if ax = 0 then l.track + 1 else l.track), head := ax, sread := 0 }
  else { l with sread := ax }

/-- from `shl cx, #9` on: the next address -/
def nextAddress (ax : Word) (l : Loader) : Loader :=
  let cx := ax <<< 9
  if cx.toNat + l.bx.toNat < 2 ^ 16 then { l with bx := l.bx + cx }
  else
    -- `add ah, #0x10`
    let ah : Byte := l.es.extractLsb' 8 8 + 0x10
    { l with es := ah ++ l.es.extractLsb' 0 8, bx := 0 }

inductive Outcome where
  | done (mem : Nat → Byte)
  | overrun
  | running (l : Loader)

/-- one round of `rp_read` -/
def rpRead (disk : Nat → Byte) (l : Loader) : Outcome :=
  if (l.es - sysseg).toNat ≤ (syssize disk).toNat then
    let ax := sectorsNow l
    if initseg.toNat * 16 < l.es.toNat * 16 + l.bx.toNat + 512 * (ax.toNat % 256) then .overrun
    else .running (nextAddress ax (nextSector ax (readTrack disk ax l)))
  else .done l.mem

/-- `fuel` rounds -/
def loop (disk : Nat → Byte) : Nat → Loader → Outcome
  | 0, l => .running l
  | fuel + 1, l =>
    match rpRead disk l with
    | .running l => loop disk fuel l
    | .done mem => .done mem
    | .overrun => .overrun

/-- before `rp_read`: `es` is SYSSEG -/
def entry (disk mem : Nat → Byte) : Loader :=
  let al := setupSects disk + 1
  ⟨sysseg, 0, al.setWidth 16, 0, 0, mem⟩

def readIt (disk : Nat → Byte) (fuel : Nat) (mem : Nat → Byte) : Outcome :=
  let l := entry disk mem
  -- `die: jne die`
  if l.es &&& 0x0fff ≠ 0 then .running l else loop disk fuel l

/-! ## the position -/

/-- `n` sectors of the system are in memory from 0x10000 on, and `sread`, `head` and `track` say
where the next one is. -/
structure Position (disk mem : Nat → Byte) (n : Nat) (l : Loader) : Prop where
  es : l.es.toNat = 0x1000 * (n / 128 + 1)
  bx : l.bx.toNat = 512 * (n % 128)
  sread : l.sread.toNat < 18
  head : l.head.toNat < 2
  sector : (l.track.toNat * 2 + l.head.toNat) * 18 + l.sread.toNat = n + 1
  loaded : ∀ a, l.mem a =
    if 0x10000 ≤ a ∧ a < 0x10000 + 512 * n then disk (512 + (a - 0x10000)) else mem a

/-- the sectors of one round: up to the end of the track, and of the segment -/
def round (n : Nat) (l : Loader) : Nat := min (18 - l.sread.toNat) (128 - n % 128)

section
variable {disk mem : Nat → Byte} {n : Nat} {l : Loader}

theorem shl9_toNat {x : Word} (h : x.toNat < 128) : (x <<< 9).toNat = 512 * x.toNat := by
  rw [BitVec.toNat_shiftLeft, Nat.shiftLeft_eq]
  omega

theorem Position.sectorsNow (h : Position disk mem n l) :
    (sectorsNow l).toNat = round n l := by
  have hs := h.sread
  have hbx := h.bx
  have hax : (secPista - l.sread).toNat = 18 - l.sread.toNat := by
    unfold secPista
    bv_omega
  have hcx : ((secPista - l.sread) <<< 9).toNat = 512 * (18 - l.sread.toNat) := by
    rw [shl9_toNat (by omega), hax]
  have hzero : (secPista - l.sread) <<< 9 + l.bx = 0 ↔
      (512 * (18 - l.sread.toNat) + 512 * (n % 128)) % 2 ^ 16 = 0 := by
    rw [← BitVec.toNat_inj, BitVec.toNat_add, hcx, hbx]
    rfl
  unfold Bootsect.sectorsNow round
  dsimp only
  rw [hcx, hbx]
  by_cases hc : 512 * (18 - l.sread.toNat) + 512 * (n % 128) < 2 ^ 16 ∨
      (secPista - l.sread) <<< 9 + l.bx = 0
  · rw [if_pos hc, hax]
    rw [hzero] at hc
    omega
  · rw [if_neg hc]
    rw [hzero] at hc
    -- the rest of the segment: `bx` is not 0
    have hneg : (0 - l.bx).toNat = 2 ^ 16 - 512 * (n % 128) := by
      rw [← hbx]
      have hpos : 0 < l.bx.toNat := by omega
      bv_omega
    rw [BitVec.toNat_ushiftRight, hneg, Nat.shiftRight_eq_div_pow]
    omega

theorem round_pos (hs : l.sread.toNat < 18) : 1 ≤ round n l := by
  unfold round
  omega

theorem round_le : round n l ≤ 128 - n % 128 := Nat.min_le_right ..

theorem round_le_track : round n l ≤ 18 - l.sread.toNat := Nat.min_le_left ..

/-- the BIOS reads the next sectors -/
theorem Position.read (h : Position disk mem n l) (hn : n < 1024) {ax : Word}
    (hax : ax.toNat = round n l) (a : Nat) : (readTrack disk ax l).mem a =
      if 0x10000 ≤ a ∧ a < 0x10000 + 512 * (n + round n l) then disk (512 + (a - 0x10000))
      else mem a := by
  have hs := h.sread
  have hh := h.head
  have hsec := h.sector
  have hk := round_le_track (n := n) (l := l)
  have haddr : l.es.toNat * 16 + l.bx.toNat = 0x10000 + 512 * n := by
    rw [h.es, h.bx]
    omega
  have hcx : (l.sread + 1).toNat = l.sread.toNat + 1 := by bv_omega
  have hdx : (l.head &&& 1).toNat = l.head.toNat := by
    rw [BitVec.toNat_and]
    show l.head.toNat &&& 1 = _
    rw [Nat.and_one_is_mod]
    omega
  have hlba : lba (l.track.toNat % 256 + 256 * ((l.sread + 1).toNat % 256 / 64))
      (l.head &&& 1).toNat ((l.sread + 1).toNat % 256 % 64) = n + 1 := by
    rw [hcx, hdx]
    unfold lba
    omega
  show int13 disk (ax.toNat % 256) (l.track.toNat % 256) ((l.sread + 1).toNat % 256)
    (l.head &&& 1).toNat (l.es.toNat * 16 + l.bx.toNat) l.mem a = _
  unfold int13
  have hmod : round n l % 256 = round n l := Nat.mod_eq_of_lt (by omega)
  rw [hlba, haddr, hax, hmod, h.loaded]
  generalize round n l = k
  by_cases hnew : 0x10000 + 512 * n ≤ a ∧ a < 0x10000 + 512 * n + 512 * k
  · have e : 512 * (n + 1) + (a - (0x10000 + 512 * n)) = 512 + (a - 0x10000) := by omega
    rw [if_pos hnew, if_pos (by omega), e]
  · rw [if_neg hnew]
    by_cases hold : 0x10000 ≤ a ∧ a < 0x10000 + 512 * n
    · rw [if_pos hold, if_pos (by omega)]
    · rw [if_neg hold, if_neg (by omega)]

/-- `add ah, #0x10` -/
theorem add_ah {x : Word} {j : Nat} (hj : j < 9) (hx : x.toNat = 0x1000 * (j + 1)) :
    ((x.extractLsb' 8 8 + 0x10 : Byte) ++ x.extractLsb' 0 8).toNat = 0x1000 * (j + 2) := by
  have hall : ∀ i : Fin 9, (((BitVec.ofNat 16 (0x1000 * (i + 1))).extractLsb' 8 8 + 0x10 : Byte) ++
      (BitVec.ofNat 16 (0x1000 * (i + 1))).extractLsb' 0 8).toNat = 0x1000 * (i + 2) := by decide
  have e : x = BitVec.ofNat 16 (0x1000 * (j + 1)) := by
    apply BitVec.eq_of_toNat_eq
    rw [hx, BitVec.toNat_ofNat]
    omega
  rw [e]
  exact hall ⟨j, hj⟩

/-- the sectors are numbered over the heads and the tracks -/
theorem nextSector_sector {ax : Word} {k : Nat} (hax : ax.toNat = k) (hs : l.sread.toNat < 18)
    (hk : k ≤ 18 - l.sread.toNat) (hh : l.head.toNat < 2) (ht : l.track.toNat < 256) {l' : Loader}
    (hl : l' = nextSector ax l) :
    l'.sread.toNat < 18 ∧ l'.head.toNat < 2 ∧
      (l'.track.toNat * 2 + l'.head.toNat) * 18 + l'.sread.toNat =
        (l.track.toNat * 2 + l.head.toNat) * 18 + l.sread.toNat + k := by
  have hsum : (ax + l.sread).toNat = k + l.sread.toNat := by
    rw [BitVec.toNat_add, hax]
    omega
  unfold nextSector at hl
  dsimp only at hl
  by_cases hend : ax + l.sread = secPista
  · have h18 : k + l.sread.toNat = 18 := by
      rw [← hsum, hend]
      rfl
    rw [if_pos hend] at hl
    subst hl
    have hhead : (1 - l.head).toNat = 1 - l.head.toNat := by bv_omega
    have hzero0 : (0 : Word).toNat = 0 := rfl
    by_cases h0 : 1 - l.head = 0
    · have hone : l.head.toNat = 1 := by bv_omega
      have htrack : (l.track + 1).toNat = l.track.toNat + 1 := by bv_omega
      simp only [if_pos h0, hhead, htrack, hzero0]
      omega
    · have hzero : l.head.toNat = 0 := by bv_omega
      simp only [if_neg h0, hhead, hzero0]
      omega
  · have hne : k + l.sread.toNat ≠ 18 := by
      intro e
      apply hend
      apply BitVec.eq_of_toNat_eq
      rw [hsum, e]
      rfl
    rw [if_neg hend] at hl
    subst hl
    simp only [hsum]
    omega

theorem nextSector_rest (ax : Word) (l : Loader) : (nextSector ax l).es = l.es ∧
    (nextSector ax l).bx = l.bx ∧ (nextSector ax l).mem = l.mem := by
  unfold nextSector
  dsimp only
  split <;> exact ⟨rfl, rfl, rfl⟩

theorem nextAddress_rest (ax : Word) (l : Loader) : (nextAddress ax l).sread = l.sread ∧
    (nextAddress ax l).head = l.head ∧ (nextAddress ax l).track = l.track ∧
    (nextAddress ax l).mem = l.mem := by
  unfold nextAddress
  dsimp only
  split <;> exact ⟨rfl, rfl, rfl, rfl⟩

/-- a segment after the other -/
theorem nextAddress_address {ax : Word} {k : Nat} (hax : ax.toNat = k) (hn : n < 1024)
    (hes : l.es.toNat = 0x1000 * (n / 128 + 1)) (hbx : l.bx.toNat = 512 * (n % 128))
    (hk : k ≤ 128 - n % 128) (hk' : k < 128) {l' : Loader} (hl : l' = nextAddress ax l) :
    l'.es.toNat = 0x1000 * ((n + k) / 128 + 1) ∧ l'.bx.toNat = 512 * ((n + k) % 128) := by
  have hcx : (ax <<< 9).toNat = 512 * k := by rw [shl9_toNat (by omega), hax]
  unfold nextAddress at hl
  dsimp only at hl
  rw [hcx, hbx] at hl
  by_cases hc : 512 * k + 512 * (n % 128) < 2 ^ 16
  · rw [if_pos hc] at hl
    subst hl
    have hbx' : (l.bx + ax <<< 9).toNat = 512 * (n % 128) + 512 * k := by
      rw [BitVec.toNat_add, hcx, hbx]
      omega
    simp only [hes, hbx']
    omega
  · rw [if_neg hc] at hl
    subst hl
    rw [add_ah (j := n / 128) (by omega) hes]
    refine ⟨by omega, ?_⟩
    show 0 = _
    omega

/-- one round -/
theorem Position.next (h : Position disk mem n l) (hn : n < 1024) {ax : Word}
    (hax : ax.toNat = round n l) :
    Position disk mem (n + round n l) (nextAddress ax (nextSector ax (readTrack disk ax l))) := by
  have hk := round_le (n := n) (l := l)
  have hk' := round_le_track (n := n) (l := l)
  have hs := h.sread
  have hsec := h.sector
  obtain ⟨h1, h2, h3⟩ := nextSector_sector (l := readTrack disk ax l) hax hs hk' h.head
    (by show l.track.toNat < 256; omega) rfl
  obtain ⟨hes, hbx, hmem⟩ := nextSector_rest ax (readTrack disk ax l)
  obtain ⟨hsread, hhead, htrack, hmem'⟩ := nextAddress_rest ax (nextSector ax (readTrack disk ax l))
  obtain ⟨h4, h5⟩ := nextAddress_address (l := nextSector ax (readTrack disk ax l)) hax hn
    (by rw [hes]; exact h.es) (by rw [hbx]; exact h.bx) hk (by omega) rfl
  refine ⟨h4, h5, by rw [hsread]; exact h1, by rw [hhead]; exact h2, ?_, fun a => ?_⟩
  · rw [htrack, hhead, hsread, h3]
    show (l.track.toNat * 2 + l.head.toNat) * 18 + l.sread.toNat + _ = _
    omega
  · rw [hmem', hmem]
    exact h.read hn hax a

/-! ## the loop -/

theorem Position.segment (h : Position disk mem n l) (hn : n ≤ 1024) :
    (l.es - sysseg).toNat = 0x1000 * (n / 128) := by
  have hes := h.es
  unfold sysseg
  bv_omega

theorem rpRead_step (h : Position disk mem n l) (hn : n < 1024)
    (hle : 0x1000 * (n / 128) ≤ (syssize disk).toNat) :
    ∃ l', rpRead disk l = .running l' ∧ Position disk mem (n + round n l) l' := by
  have hk := round_le (n := n) (l := l)
  have hk' := round_le_track (n := n) (l := l)
  have hax := h.sectorsNow
  have hmod : round n l % 256 = round n l := Nat.mod_eq_of_lt (by omega)
  have hfit : ¬ initseg.toNat * 16 <
      l.es.toNat * 16 + l.bx.toNat + 512 * ((sectorsNow l).toNat % 256) := by
    rw [hax, hmod, h.es, h.bx]
    show ¬ 0x90000 < _
    omega
  refine ⟨_, ?_, h.next hn hax⟩
  unfold rpRead
  dsimp only
  rw [h.segment (by omega), if_pos hle, if_neg hfit]

/-- The loop ends with whole segments, the first one that is above `syssize` not included. -/
theorem loop_done (h : Position disk mem n l) (hsize : (syssize disk).toNat < 0x8000) {N : Nat}
    (hN : N = 128 * ((syssize disk).toNat / 0x1000 + 1)) (hn : n ≤ N) {fuel : Nat}
    (hfuel : N - n < fuel) :
    ∃ l', loop disk fuel l = .done l'.mem ∧ Position disk mem N l' := by
  induction fuel generalizing n l with
  | zero => exact absurd hfuel (Nat.not_lt_zero _)
  | succ fuel ih =>
    by_cases hlt : n < N
    · obtain ⟨l', hr, h'⟩ := rpRead_step h (by omega) (by omega)
      have hk := round_le (n := n) (l := l)
      have hk' := round_pos (n := n) h.sread
      unfold loop
      rw [hr]
      exact ih h' (by omega) (by omega)
    · have e : n = N := by omega
      subst e
      have hgt : ¬ (l.es - sysseg).toNat ≤ (syssize disk).toNat := by
        rw [h.segment (by omega)]
        omega
      refine ⟨l, ?_, h⟩
      unfold loop rpRead
      rw [if_neg hgt]

theorem loop_overruns (h : Position disk mem n l) (hsize : 0x8000 ≤ (syssize disk).toNat)
    (hn : n ≤ 1024) (fuel : Nat) (m : Nat → Byte) : loop disk fuel l ≠ .done m := by
  induction fuel generalizing n l with
  | zero => exact fun e => nomatch e
  | succ fuel ih =>
    unfold loop
    by_cases hlt : n < 1024
    · obtain ⟨l', hr, h'⟩ := rpRead_step h hlt (by omega)
      have hk := round_le (n := n) (l := l)
      rw [hr]
      exact ih h' (by omega)
    · have e : n = 1024 := by omega
      subst e
      have hk := round_pos (n := 1024) h.sread
      have hk' := round_le_track (n := 1024) (l := l)
      have hle : (l.es - sysseg).toNat ≤ (syssize disk).toNat := by
        rw [h.segment (Nat.le_refl _)]
        exact hsize
      have hover : initseg.toNat * 16 <
          l.es.toNat * 16 + l.bx.toNat + 512 * ((sectorsNow l).toNat % 256) := by
        rw [h.sectorsNow, h.es, h.bx]
        show 0x90000 < _
        omega
      have hr : rpRead disk l = .overrun := by
        unfold rpRead
        dsimp only
        rw [if_pos hle, if_pos hover]
      rw [hr]
      exact fun e => nomatch e

theorem rpRead_frame {l' : Loader} (h : rpRead disk l = .running l') {a : Nat}
    (ha : 0x90000 ≤ a) : l'.mem a = l.mem a := by
  unfold rpRead at h
  dsimp only at h
  by_cases hle : (l.es - sysseg).toNat ≤ (syssize disk).toNat
  · rw [if_pos hle] at h
    by_cases hover : initseg.toNat * 16 <
        l.es.toNat * 16 + l.bx.toNat + 512 * ((sectorsNow l).toNat % 256)
    · rw [if_pos hover] at h
      cases h
    · rw [if_neg hover] at h
      obtain ⟨-, -, -, hm⟩ := nextAddress_rest (sectorsNow l)
        (nextSector (sectorsNow l) (readTrack disk (sectorsNow l) l))
      rw [← Outcome.running.inj h, hm, (nextSector_rest ..).2.2]
      have hno : ¬ (l.es.toNat * 16 + l.bx.toNat ≤ a ∧
          a < l.es.toNat * 16 + l.bx.toNat + 512 * ((sectorsNow l).toNat % 256)) := by
        have hb : ¬ 0x90000 < _ := hover
        omega
      exact if_neg hno
  · rw [if_neg hle] at h
    cases h

/-- What lies at or above INITSEG is never written. -/
theorem loop_frame {fuel : Nat} {m : Nat → Byte} (h : loop disk fuel l = .done m) {a : Nat}
    (ha : 0x90000 ≤ a) : m a = l.mem a := by
  induction fuel generalizing l with
  | zero => cases h
  | succ fuel ih =>
    unfold loop at h
    cases hr : rpRead disk l with
    | running l' =>
      rw [hr] at h
      exact (ih h).trans (rpRead_frame hr ha)
    | done m' =>
      rw [hr] at h
      have hm : m' = l.mem := by
        unfold rpRead at hr
        dsimp only at hr
        split at hr
        · split at hr <;> cases hr
        · exact (Outcome.done.inj hr).symm
      rw [← Outcome.done.inj h, hm]
    | overrun =>
      rw [hr] at h
      cases h

end

/-! ## `read_it` -/

section
variable {disk : Nat → Byte}

theorem readIt_eq (fuel : Nat) (mem : Nat → Byte) :
    readIt disk fuel mem = loop disk fuel (entry disk mem) := by
  have h : ¬ (entry disk mem).es &&& 0x0fff ≠ 0 := not_not.mpr (by decide : sysseg &&& 0x0fff = 0)
  unfold readIt
  exact if_neg h

/-- the boot sector alone is before the system -/
theorem entry_position (h : setupSects disk = 0) (mem : Nat → Byte) :
    Position disk mem 0 (entry disk mem) := by
  have hs : (entry disk mem).sread.toNat = 1 := by
    unfold entry
    rw [h]
    rfl
  refine ⟨rfl, rfl, by rw [hs]; decide, by show 0 < 2; decide, ?_, fun a => ?_⟩
  · rw [hs]
    rfl
  · rw [if_neg (by omega)]
    rfl

/-- **The loader ends if `syssize` is below the boot sector**, and has then loaded whole
segments. -/
theorem readIt_done (h : setupSects disk = 0) (hsize : (syssize disk).toNat < 0x8000)
    (mem : Nat → Byte) : ∃ fuel m, readIt disk fuel mem = .done m ∧ ∀ a, m a =
      if 0x10000 ≤ a ∧ a < 0x10000 + 0x10000 * ((syssize disk).toNat / 0x1000 + 1) then
        disk (512 + (a - 0x10000))
      else mem a := by
  obtain ⟨l, hr, hl⟩ := loop_done (entry_position h mem) hsize rfl (Nat.zero_le _)
    (Nat.lt_succ_self _)
  refine ⟨_, l.mem, (readIt_eq _ mem).trans hr, fun a => ?_⟩
  rw [hl.loaded]
  have e : 512 * (128 * ((syssize disk).toNat / 0x1000 + 1)) =
      0x10000 * ((syssize disk).toNat / 0x1000 + 1) := by omega
  rw [e]

theorem readIt_overruns (h : setupSects disk = 0) (hsize : 0x8000 ≤ (syssize disk).toNat)
    (fuel : Nat) (mem m : Nat → Byte) : readIt disk fuel mem ≠ .done m := by
  rw [readIt_eq]
  exact loop_overruns (entry_position h mem) hsize (by decide) fuel m

theorem readIt_frame {fuel : Nat} {mem m : Nat → Byte} (h : readIt disk fuel mem = .done m)
    {a : Nat} (ha : 0x90000 ≤ a) : m a = mem a :=
  loop_frame ((readIt_eq fuel mem).symm.trans h) ha

end

end Bootsect
