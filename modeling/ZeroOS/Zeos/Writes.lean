import ZeroOS.Zeos.GetStats

/-!
# Zeos: what `sys_write` prints

* `bytesAt s p n`          the `n` bytes at the address `p` of the running process;
* `writeChunk_prints`, `writeLoop_prints`, `sysWrite_prints`   a chunk, the loop over the whole
                           chunks, the call: each prints its part, or some byte is not mapped;
* `writeLoop_left`         the loop ends by its own test;
* `UserBuffer`             the buffer is in user memory, which the kernel does not write meanwhile;
* `writes_exactly`         **when `sys_write` prints the buffer**, once and in order.
-/

set_option linter.unusedVariables false

namespace Zeos
open Programs Runs

section
variable {s s' : State} {fd size : Int} {buffer : DWord}

/-! ## bytes -/

/-- an access to the address `a` does not fault -/
def Present (s : State) (a : Nat) : Prop := ∃ x, mmu s (a % 2 ^ 32) = some x

/-- the byte of the running process at `a` -/
def byteAt (s : State) (a : Nat) : Byte := s.mem (physOf s.mm s.cr3 (a % 2 ^ 32))

def bytesAt (s : State) (p n : Nat) : List Byte := (List.range n).map fun i => byteAt s (p + i)

theorem bytesAt_add (s : State) (p m n : Nat) :
    bytesAt s p (m + n) = bytesAt s p m ++ bytesAt s (p + m) n := by
  unfold bytesAt
  rw [List.range_add, List.map_append, List.map_map]
  simp only [Function.comp_def, Nat.add_assoc]

/-- `s'` is `s` after some more of printing: the characters `l`, read through a user pointer -/
def Printed (l : List Byte) (s s' : State) : Prop :=
  ∃ d, s' = { s with out := s.out ++ l, derefs := d }

theorem Printed.refl (s : State) : Printed [] s s := ⟨s.derefs, by rw [List.append_nil]⟩

theorem Printed.trans {l l' : List Byte} {s'' : State} (h : Printed l s s')
    (h' : Printed l' s' s'') : Printed (l ++ l') s s'' := by
  obtain ⟨d, rfl⟩ := h
  obtain ⟨d', rfl⟩ := h'
  exact ⟨d', by rw [List.append_assoc]⟩

theorem Printed.present {l : List Byte} (h : Printed l s s') (a : Nat) :
    Present s' a ↔ Present s a := by
  obtain ⟨d, rfl⟩ := h
  rfl

theorem Printed.bytesAt {l : List Byte} (h : Printed l s s') (p n : Nat) :
    Zeos.bytesAt s' p n = Zeos.bytesAt s p n := by
  obtain ⟨d, rfl⟩ := h
  rfl

/-- a load of the kernel, at a user address -/
theorem kernelLoad_byte (a : Nat) (s : State) :
    Post (kernelLoad (a % 2 ^ 32) (s.deref (a % 2 ^ 32)))
      (fun x => Present s a ∧ x.1 = byteAt s a ∧ x.2 = s.deref (a % 2 ^ 32))
      fun _ => ¬ Present s a := by
  have e : mmu (s.deref (a % 2 ^ 32)) (a % 2 ^ 32 % 2 ^ 32) = mmu s (a % 2 ^ 32) := by
    rw [Nat.mod_mod]
    rfl
  unfold kernelLoad
  rw [e]
  cases hx : mmu s (a % 2 ^ 32) with
  | none =>
    intro hp
    obtain ⟨x, hx'⟩ := hp
    cases hx.symm.trans hx'
  | some x =>
    refine ⟨⟨x, hx⟩, ?_, rfl⟩
    have hphys : x = physOf s.mm s.cr3 (a % 2 ^ 32) := (translate_eq_some.mp hx).2.2
    rw [hphys]
    rfl

/-! ## chunks -/

/-- `i` bytes at `p` are loaded, and `j` of them are in the buffer -/
structure Fetched (s : State) (p i j : Nat) (x : State × (Nat → Byte)) : Prop where
  printed : Printed [] s x.1
  present : ∀ k, k < i → Present s (p + k)
  buffer : ∀ k, k < j → x.2 k = byteAt s (p + k)

theorem fetched_load {p i j : Nat} {x : State × (Nat → Byte)} (h : Fetched s p i j x) :
    Post (fromUserBus.load (p + i) x)
      (fun a => a.1 = byteAt s (p + i) ∧ Fetched s p (i + 1) j a.2) fun _ => ¬ Present s (p + i) := by
  obtain ⟨s₁, buf₁⟩ := x
  obtain ⟨hs, hmap, hbuf⟩ := h
  have hk := kernelLoad_byte (p + i) s₁
  cases hr : kernelLoad ((p + i) % 2 ^ 32) (s₁.deref ((p + i) % 2 ^ 32)) with
  | error e =>
    rw [hr] at hk
    rw [fromUserBus_error hr]
    exact fun hp => hk ((hs.present (p + i)).mpr hp)
  | ok y =>
    rw [hr] at hk
    obtain ⟨hpre, hy, hy2⟩ := hk
    rw [fromUserBus_ok hr]
    refine ⟨?_, ?_, fun k hk => ?_, hbuf⟩
    · obtain ⟨d, rfl⟩ := hs
      exact hy
    · show Printed [] s y.2
      rw [hy2]
      exact hs.trans ⟨_, by rw [List.append_nil]; rfl⟩
    · by_cases hki : k = i
      · rw [hki]
        exact (hs.present (p + i)).mp hpre
      · exact hmap k (by omega)

theorem fetched_store {p i j : Nat} {x : State × (Nat → Byte)} (h : Fetched s p i j x) :
    Fetched s p i (j + 1) (x.1, Function.update x.2 j (byteAt s (p + j))) := by
  refine ⟨h.printed, h.present, fun k hk => ?_⟩
  show Function.update x.2 j (byteAt s (p + j)) k = _
  rw [Function.update_apply]
  by_cases hkj : k = j
  · rw [if_pos hkj, hkj]
  · rw [if_neg hkj]
    exact h.buffer k (by omega)

/-- A copy from a user address to a local buffer, which is no part of user memory: it fills the
buffer, or it meets a page that is not mapped. -/
theorem copyFromUser_bytes (p : Nat) (size : Int) (s : State) (buf : Nat → Byte) :
    Post (copyFromUser fromUserBus p 0 size (s, buf))
      (fun x => Printed [] s x.1 ∧ ∀ i, i < size.toNat → Present s (p + i) ∧ x.2 i = byteAt s (p + i))
      fun _ => ∃ i, i < size.toNat ∧ ¬ Present s (p + i) := by
  have ht : Transfers fromUserBus p 0 size.toNat (fun i => byteAt s (p + i)) (Fetched s p)
      fun _ => ∃ i, i < size.toNat ∧ ¬ Present s (p + i) := by
    constructor
    · intro i j x hi _ hx
      exact (fetched_load hx).mono (fun _ => id) fun _ hp => ⟨i, hi, hp⟩
    · intro i j x _ _ hx
      rw [Nat.zero_add]
      exact fetched_store hx
  have h0 : Fetched s p 0 0 (s, buf) := ⟨.refl s, by simp, by simp⟩
  apply (copyLoop_transfers ht h0).mono
  · exact fun x hx => ⟨hx.printed, fun i hi => ⟨hx.present i hi, hx.buffer i hi⟩⟩
  · exact fun _ he => he

theorem sysWriteConsole_prints (buf : Nat → Byte) (size : Int) (s : State) :
    sysWriteConsole buf size s =
      (size, { s with out := s.out ++ (List.range size.toNat).map buf }) := by
  unfold sysWriteConsole
  rw [forUp_snoc]

/-- some byte of the buffer is not mapped -/
def Torn (s : State) (p n : Nat) : Prop := ∃ i, i < n ∧ ¬ Present s (p + i)

theorem writeChunk_prints (buffer : DWord) (written size : Int) (s : State) :
    Post (writeChunk buffer written size s)
      (fun x => x.1 = size ∧ ¬ Torn s (buffer.toNat + written.toNat) size.toNat ∧
        Printed (bytesAt s (buffer.toNat + written.toNat) size.toNat) s x.2)
      fun _ => Torn s (buffer.toNat + written.toNat) size.toNat := by
  have hc := copyFromUser_bytes (buffer.toNat + written.toNat) size s fun _ => 0
  unfold writeChunk
  cases hr : copyFromUser fromUserBus (buffer.toNat + written.toNat) 0 size (s, fun _ => 0) with
  | error x =>
    rw [hr] at hc
    exact hc
  | ok x =>
    rw [hr] at hc
    obtain ⟨s₁, buf⟩ := x
    obtain ⟨hs, hbuf⟩ := hc
    have hbytes : (List.range size.toNat).map buf =
        bytesAt s (buffer.toNat + written.toNat) size.toNat :=
      List.map_congr_left fun i hi => (hbuf i (List.mem_range.mp hi)).2
    refine ⟨rfl, fun ht => ?_, ?_⟩
    · obtain ⟨i, hi, hno⟩ := ht
      exact hno (hbuf i hi).1
    · show Printed _ s (sysWriteConsole buf size s₁).2
      rw [sysWriteConsole_prints, hbytes]
      exact hs.trans ⟨s₁.derefs, rfl⟩

/-! ## the loop -/

theorem Torn.of_left {p m n : Nat} (h : Torn s p m) (hmn : m ≤ n) : Torn s p n := by
  obtain ⟨i, hi, hno⟩ := h
  exact ⟨i, by omega, hno⟩

theorem Torn.of_right {p m n : Nat} (h : Torn s (p + m) n) : Torn s p (m + n) := by
  obtain ⟨i, hi, hno⟩ := h
  exact ⟨m + i, by omega, by rwa [← Nat.add_assoc]⟩

theorem not_torn_add {p m n : Nat} (h : ¬ Torn s p m) (h' : ¬ Torn s (p + m) n) :
    ¬ Torn s p (m + n) := by
  intro ht
  obtain ⟨i, hi, hno⟩ := ht
  by_cases him : i < m
  · exact h ⟨i, him, hno⟩
  · refine h' ⟨i - m, by omega, ?_⟩
    have e : p + m + (i - m) = p + i := by omega
    rwa [e]

theorem Printed.torn {l : List Byte} (h : Printed l s s') (p n : Nat) :
    Torn s' p n ↔ Torn s p n := by
  unfold Torn
  simp only [h.present]

/-- What the chunks of the loop have printed, and what is left: the buffer is cut in two at
`written`. -/
structure Halfway (s : State) (p : Nat) (size : Int) (x : Int × Int × State) : Prop where
  left : 0 ≤ x.1
  done : 0 ≤ x.2.1
  all : x.1 + x.2.1 = size
  mapped : ¬ Torn s p x.2.1.toNat
  printed : Printed (bytesAt s p x.2.1.toNat) s x.2.2

/-- one chunk more -/
theorem Halfway.step {p : Nat} {size n : Int} {x : Int × Int × State} (h : Halfway s p size x)
    (hn : 0 ≤ n) (hle : n ≤ x.1) {s₁ : State}
    (hm : ¬ Torn x.2.2 (p + x.2.1.toNat) n.toNat)
    (hp : Printed (bytesAt x.2.2 (p + x.2.1.toNat) n.toNat) x.2.2 s₁) :
    Halfway s p size (x.1 - n, x.2.1 + n, s₁) := by
  have h1 := h.done
  have h2 := h.all
  have e : (x.2.1 + n).toNat = x.2.1.toNat + n.toNat := by omega
  rw [h.printed.torn] at hm
  rw [h.printed.bytesAt] at hp
  refine ⟨by show 0 ≤ x.1 - n; omega, by show 0 ≤ x.2.1 + n; omega,
    by show x.1 - n + (x.2.1 + n) = size; omega, ?_, ?_⟩
  · show ¬ Torn s p (x.2.1 + n).toNat
    rw [e]
    exact not_torn_add h.mapped hm
  · show Printed (bytesAt s p (x.2.1 + n).toNat) s s₁
    rw [e, bytesAt_add]
    exact h.printed.trans hp

/-- a chunk that meets a page that is not mapped -/
theorem Halfway.torn {p : Nat} {size n : Int} {x : Int × Int × State} (h : Halfway s p size x)
    (hn : 0 ≤ n) (hle : n ≤ x.1) (ht : Torn x.2.2 (p + x.2.1.toNat) n.toNat) :
    Torn s p size.toNat := by
  have h1 := h.done
  have h2 := h.all
  rw [h.printed.torn] at ht
  exact ht.of_right.of_left (by omega)

theorem writeLoop_prints {size₀ : Int} (n : Nat) (size written : Int) {s₁ : State}
    (h : Halfway s buffer.toNat size₀ (size, written, s₁)) :
    Post (writeLoop buffer n size written s₁) (Halfway s buffer.toNat size₀)
      fun _ => Torn s buffer.toNat size₀.toNat := by
  induction n generalizing size written s₁ with
  | zero => exact h
  | succ n ih =>
    rw [writeLoop]
    by_cases hs : size ≥ maxWrite
    · rw [if_pos hs, post_bind]
      refine (writeChunk_prints buffer written maxWrite s₁).mono (fun x hx => ?_) fun _ ht =>
        h.torn (by decide) hs ht
      obtain ⟨hw, hmap, hp⟩ := hx
      show Post (writeLoop buffer n (size - x.1) (written + x.1) x.2) _ _
      rw [hw]
      exact ih _ _ (h.step (by decide) hs hmap hp)
    · rw [if_neg hs]
      exact h

/-- the loop ends by its own test, `size < MAX_WRITE` -/
theorem writeLoop_left (n : Nat) (size written : Int) (s : State) (hn : size < maxWrite * (n + 1)) :
    Post (writeLoop buffer n size written s) (fun x => x.1 < maxWrite) fun _ => True := by
  induction n generalizing size written s with
  | zero => exact lt_of_lt_of_eq hn (mul_one _)
  | succ n ih =>
    rw [writeLoop]
    by_cases hs : size ≥ maxWrite
    · rw [if_pos hs, post_bind]
      refine (writeChunk_prints buffer written maxWrite s).mono (fun x hx => ?_) fun _ _ => trivial
      refine ih (size - x.1) (written + x.1) x.2 ?_
      rw [hx.1]
      simp only [maxWrite] at hn ⊢
      push_cast at hn
      omega
    · rw [if_neg hs]
      exact not_le.mp hs

/-! ## the call -/

/-- what `sys_write` returns, its checks in the order of their priority -/
def writeAnswer (fd : Int) (buffer : DWord) (size : Int) : Int :=
  if fd ≠ 1 then -ebadf else if buffer = 0 then -efault else if size < 0 then -einval else size

/-- what it prints -/
def writeText (s : State) (fd : Int) (buffer : DWord) (size : Int) : List Byte :=
  if fd ≠ 1 ∨ buffer = 0 ∨ size < 0 then [] else bytesAt s buffer.toNat size.toNat

/-- The call returns.  It has printed its text and has done nothing else but for the accounting:
`act_ticks_user2kernel` first, `act_ticks_kernel2user` last. -/
def WritesExactly (s : State) (fd : Int) (buffer : DWord) (size : Int) : Prop :=
  ∃ w, sysWrite fd buffer size s = .ok (writeAnswer fd buffer size, actTicksKernel2user w) ∧
    Printed (writeText s fd buffer size) (actTicksUser2kernel s) w

theorem checkFd_iff : checkFd fd 1 < 0 ↔ fd ≠ 1 := by
  unfold checkFd
  by_cases h : fd ≠ 1
  · rw [if_pos h]
    exact iff_of_true (by decide) h
  · rw [if_neg h]
    exact iff_of_false (by decide) h

/-- past its checks `sys_write` prints the buffer and returns `size`, or some byte of it is not
mapped -/
theorem sysWrite_prints (hfd : ¬ fd ≠ 1) (hb : buffer ≠ 0) (hn : ¬ size < 0) (s : State) :
    Post (sysWrite fd buffer size s)
      (fun x => ¬ Torn s buffer.toNat size.toNat ∧ x.1 = size ∧ ∃ w,
        x.2 = actTicksKernel2user w ∧
          Printed (bytesAt s buffer.toNat size.toNat) (actTicksUser2kernel s) w)
      fun _ => Torn s buffer.toNat size.toNat := by
  let s₀ := actTicksUser2kernel s
  have htorn : ∀ p n, Torn s₀ p n ↔ Torn s p n := fun _ _ => Iff.rfl
  have h0 : Halfway s₀ buffer.toNat size (size, 0, s₀) :=
    ⟨not_lt.mp hn, le_rfl, add_zero size, fun ht => absurd ht.choose_spec.1 (Nat.not_lt_zero _),
      .refl s₀⟩
  unfold sysWrite
  dsimp only
  rw [if_neg (checkFd_iff.not.mpr hfd), if_neg hb, if_neg hn, post_bind]
  refine (writeLoop_prints size.toNat size 0 h0).mono (fun x hx => ?_) fun _ ht => ht
  -- the last chunk, with all that is left
  show Post ((writeChunk buffer x.2.1 x.1 x.2.2).bind _) _ _
  rw [post_bind]
  refine (writeChunk_prints buffer x.2.1 x.1 x.2.2).mono (fun y hy => ?_) fun _ ht =>
    hx.torn hx.left le_rfl ht
  obtain ⟨hw, hmap, hp⟩ := hy
  have hall := hx.step hx.left le_rfl hmap hp
  have h6 : x.1 - y.1 = 0 := by omega
  have h7 : x.2.1 + x.1 = size := by
    have := hx.all
    omega
  have hm := hall.mapped
  have hpr := hall.printed
  simp only [h7] at hm hpr
  show Post (if x.1 - y.1 = 0 then _ else _) _ _
  rw [if_pos h6]
  refine ⟨hm, ?_, y.2, rfl, hpr⟩
  show x.2.1 + y.1 = size
  rw [hw, h7]

/-- what is printed was mapped -/
theorem WritesExactly.present (h : WritesExactly s fd buffer size) (h1 : ¬ fd ≠ 1)
    (h2 : buffer ≠ 0) (h3 : ¬ size < 0) : ∀ i, i < size.toNat → Present s (buffer.toNat + i) := by
  have hpost := sysWrite_prints h1 h2 h3 s
  obtain ⟨w, hr, -⟩ := h
  rw [hr] at hpost
  intro i hi
  by_contra hno
  exact hpost.1 ⟨i, hi, hno⟩

/-- The process may read the byte at `a`, and it is no memory of the kernel.  What the kernel writes
during a call (its stack, its records, the cells of the screen at 0xb8000) it can read as well. -/
def InUserMemory (s : State) (a : Nat) : Prop :=
  ∃ x, userLoadAddr s.mm s.cr3 (a % 2 ^ 32) = some x ∧ numPagKernel * pageSize ≤ x

/-- the arguments are refused, or the buffer is in user memory -/
def UserBuffer (s : State) (fd : Int) (buffer : DWord) (size : Int) : Prop :=
  fd ≠ 1 ∨ buffer = 0 ∨ size < 0 ∨ ∀ i, i < size.toNat → InUserMemory s (buffer.toNat + i)

theorem InUserMemory.present {a : Nat} (h : InUserMemory s a) : Present s a := by
  obtain ⟨x, hx, -⟩ := h
  obtain ⟨h1, h2, h3⟩ := translate_eq_some.mp hx
  rw [Bool.and_eq_true] at h2
  exact ⟨x, translate_eq_some.mpr ⟨h1, h2.1, h3⟩⟩

/-- a call that is refused prints nothing -/
theorem writes_refused (h : fd ≠ 1 ∨ buffer = 0 ∨ size < 0) (s : State) :
    WritesExactly s fd buffer size := by
  have hsys : sysWrite fd buffer size s =
      .ok (writeAnswer fd buffer size, actTicksKernel2user (actTicksUser2kernel s)) := by
    unfold writeAnswer
    by_cases h1 : fd ≠ 1
    · rw [if_pos h1]
      exact if_pos (checkFd_iff.mpr h1)
    by_cases h2 : buffer = 0
    · rw [if_neg h1, if_pos h2]
      exact (if_neg (checkFd_iff.not.mpr h1)).trans (if_pos h2)
    · have h3 := (h.resolve_left h1).resolve_left h2
      rw [if_neg h1, if_neg h2, if_pos h3]
      exact (if_neg (checkFd_iff.not.mpr h1)).trans ((if_neg h2).trans (if_pos h3))
  refine ⟨_, hsys, ?_⟩
  rw [writeText, if_pos h]
  exact .refl _

/-- a buffer in user memory is printed -/
theorem UserBuffer.writes (h : UserBuffer s fd buffer size) : WritesExactly s fd buffer size := by
  by_cases hno : fd ≠ 1 ∨ buffer = 0 ∨ size < 0
  · exact writes_refused hno s
  have hno' := hno
  rw [not_or, not_or] at hno'
  obtain ⟨h1, h2, h3⟩ := hno'
  have hmem := ((h.resolve_left h1).resolve_left h2).resolve_left h3
  have hpost := sysWrite_prints h1 h2 h3 s
  cases hr : sysWrite fd buffer size s with
  | error e =>
    rw [hr] at hpost
    obtain ⟨i, hi, habs⟩ := hpost
    exact absurd (hmem i hi).present habs
  | ok x =>
    rw [hr] at hpost
    obtain ⟨-, hx, w, hw, hp⟩ := hpost
    refine ⟨w, ?_, ?_⟩
    · rw [hr, writeAnswer, if_neg h1, if_neg h2, if_neg h3, ← hx, ← hw]
    · rw [writeText, if_neg hno]
      exact hp

/-- **When `sys_write` prints the buffer.**  It does so where the buffer is in user memory, and it
refuses every other combination of arguments as it should; but it looks for no page that is not
mapped. -/
theorem writes_exactly (s : State) (fd : Int) (buffer : DWord) (size : Int) :
    (UserBuffer s fd buffer size → WritesExactly s fd buffer size) ∧
      (WritesExactly s fd buffer size → fd ≠ 1 ∨ buffer = 0 ∨ size < 0 ∨
        ∀ i, i < size.toNat → Present s (buffer.toNat + i)) := by
  refine ⟨fun h => h.writes, fun h => ?_⟩
  by_cases hno : fd ≠ 1 ∨ buffer = 0 ∨ size < 0
  · exact hno.imp_right fun h1 => h1.imp_right Or.inl
  · rw [not_or, not_or] at hno
    exact Or.inr (Or.inr (Or.inr (h.present hno.1 hno.2.1 hno.2.2)))

theorem Printed.effect {l : List Byte} {w : State} (hp : Printed l (actTicksUser2kernel s) w) :
    (actTicksKernel2user w).out = s.out ++ l ∧
      (actTicksKernel2user w).zeosTicks = s.zeosTicks ∧ (actTicksKernel2user w).mem = s.mem := by
  obtain ⟨d, rfl⟩ := hp
  exact ⟨rfl, rfl, rfl⟩

/-- a write that returns has printed its text -/
theorem sysWrite_text {fd size r : Int} {buffer : DWord}
    (h : sysWrite fd buffer size s = .ok (r, s')) :
    r = writeAnswer fd buffer size ∧ s'.out = s.out ++ writeText s fd buffer size ∧
      s'.zeosTicks = s.zeosTicks ∧ s'.mem = s.mem := by
  unfold writeAnswer writeText
  by_cases h1 : fd ≠ 1
  · rw [if_pos h1, if_pos (Or.inl h1)]
    unfold sysWrite at h
    dsimp only at h
    rw [if_pos (checkFd_iff.mpr h1)] at h
    cases h
    exact ⟨rfl, (Printed.refl _).effect⟩
  by_cases h2 : buffer = 0
  · rw [if_neg h1, if_pos h2, if_pos (Or.inr (Or.inl h2))]
    unfold sysWrite at h
    dsimp only at h
    rw [if_neg (checkFd_iff.not.mpr h1), if_pos h2] at h
    cases h
    exact ⟨rfl, (Printed.refl _).effect⟩
  by_cases h3 : size < 0
  · rw [if_neg h1, if_neg h2, if_pos h3, if_pos (Or.inr (Or.inr h3))]
    unfold sysWrite at h
    dsimp only at h
    rw [if_neg (checkFd_iff.not.mpr h1), if_neg h2, if_pos h3] at h
    cases h
    exact ⟨rfl, (Printed.refl _).effect⟩
  have hno : ¬ (fd ≠ 1 ∨ buffer = 0 ∨ size < 0) := by
    simp only [not_or]
    exact ⟨h1, h2, h3⟩
  have hpost := sysWrite_prints h1 h2 h3 s
  rw [h] at hpost
  obtain ⟨-, hr, w, hw, hp⟩ := hpost
  rw [if_neg h1, if_neg h2, if_neg h3, if_neg hno, show s' = _ from hw]
  exact ⟨hr, hp.effect⟩

/-- no page above the user pages is mapped -/
theorem Inv.not_present (h : Inv s) {a : Nat} (h1 : 284 * 4096 ≤ a) (h2 : a < 2 ^ 32) :
    ¬ Present s a := by
  intro hp
  obtain ⟨x, hx⟩ := hp
  rw [Nat.mod_eq_of_lt h2] at hx
  have hpre := (translate_eq_some.mp hx).2.1
  rw [h.mapped.above _ (a / 4096) (by omega)] at hpre
  cases hpre

/-- one character from just above the data pages -/
theorem write_faults : ¬ WritesExactly (boot (fun _ => 0) fun _ => 0) 1 0x11c000 1 := by
  intro h
  have hi := reachable_inv (fun _ => 0) (fun _ => 0) .init
  have hp := h.present (by decide) (by decide) (by decide) 0 (by decide)
  exact hi.not_present (a := (0x11c000 : DWord).toNat + 0) (by decide) (by decide) hp

end
end Zeos
