import ZeroOS.Zeos.AddressSpaces

/-!
# Zeos: the pointers of the system calls

`sys_write` and `sys_get_stats` are given an address by user code.  `State.derefs` keeps every
address that they dereference through it.

* `Touched D s s'`     between `s` and `s'` only addresses with `D` are dereferenced;
* `sysWrite_post`, `sysGetStats_post`   what the calls do once their checks are passed;
* `WriteChecked`, `StatsChecked`        the calls keep to the memory of the caller;
* `user_pointers`      **when they do**: `sys_write` checks for NULL only, and `sys_get_stats`
                       looks at the first byte of the record, and lets the code pages pass.
-/

set_option linter.unusedVariables false

namespace Zeos
open Programs Runs

section
variable {s s' s'' : State} {D : Nat → Prop}

/-! ## dereferences -/

def Touched (D : Nat → Prop) (s s' : State) : Prop :=
  ∃ l, s'.derefs = s.derefs ++ l ∧ ∀ a ∈ l, D a

theorem Touched.of_eq (h : s'.derefs = s.derefs) : Touched D s s' :=
  ⟨[], by rw [h, List.append_nil], fun a ha => nomatch ha⟩

theorem Touched.refl (s : State) : Touched D s s := .of_eq rfl

theorem Touched.trans (h : Touched D s s') (h' : Touched D s' s'') : Touched D s s'' := by
  obtain ⟨l, hl, hD⟩ := h
  obtain ⟨l', hl', hD'⟩ := h'
  refine ⟨l ++ l', by rw [hl', hl, List.append_assoc], fun a ha => ?_⟩
  exact (List.mem_append.mp ha).elim (hD a) (hD' a)

theorem Touched.mono {E : Nat → Prop} (h : Touched D s s') (hDE : ∀ a, D a → E a) :
    Touched E s s' := by
  obtain ⟨l, hl, hD⟩ := h
  exact ⟨l, hl, fun a ha => hDE a (hD a ha)⟩

theorem touched_deref {a : Nat} (ha : D a) : Touched D s (s.deref a) :=
  ⟨[a], rfl, fun b hb => (List.mem_singleton.mp hb) ▸ ha⟩

/-- the addresses of `n` bytes from `p` on -/
def Span (p n a : Nat) : Prop := ∃ i, i < n ∧ a = (p + i) % 2 ^ 32

theorem Span.sub {p n q m a : Nat} (h : Span p n a) (hpq : q ≤ p) (hn : p + n ≤ q + m) :
    Span q m a := by
  obtain ⟨i, hi, rfl⟩ := h
  refine ⟨p - q + i, by omega, ?_⟩
  have e : q + (p - q + i) = p + i := by omega
  rw [e]

/-- the state in which a call ends, in a return or in a page fault -/
def ended (r : Except State (Int × State)) : State :=
  match r with
  | .ok (_, s) => s
  | .error s => s

theorem ended_touched {r : Except State (Int × State)} {P : Int × State → Prop}
    (h : Post r (fun x => P x ∧ Touched D s x.2) (Touched D s)) : Touched D s (ended r) := by
  cases r with
  | ok x => exact h.2
  | error e => exact h

/-! ## copies -/

/-- a load of the kernel leaves the history alone, and so does a fault -/
theorem kernelLoad_post (a : Nat) (s : State) :
    Post (kernelLoad a s) (fun x => x.2 = s) fun s' => s' = s := by
  unfold kernelLoad
  cases mmu s (a % 2 ^ 32) with
  | none => rfl
  | some x => rfl

theorem kernelStore_post (a : Nat) (b : Byte) (s : State) :
    Post (kernelStore a b s) (fun s' => s'.derefs = s.derefs) fun s' => s'.derefs = s.derefs := by
  unfold kernelStore
  cases mmu s (a % 2 ^ 32) with
  | none => rfl
  | some x => rfl

theorem copyFromUser_touched (p q : Nat) (size : Int) (s : State) (buf : Nat → Byte) :
    Post (copyFromUser fromUserBus p q size (s, buf))
      (fun x => Touched (Span p size.toNat) s x.1) fun x => Touched (Span p size.toNat) s x.1 := by
  unfold copyFromUser
  apply copyLoop_rule
    (I := fun _ _ (x : State × (Nat → Byte)) => Touched (Span p size.toNat) s x.1)
  · refine ⟨fun i ps x hi _ hI => ?_, fun j b ps x _ hI => hI⟩
    obtain ⟨s₁, buf₁⟩ := x
    have hd : Touched (Span p size.toNat) s (s₁.deref ((p + i) % 2 ^ 32)) :=
      hI.trans (touched_deref ⟨i, hi, rfl⟩)
    have hk := kernelLoad_post ((p + i) % 2 ^ 32) (s₁.deref ((p + i) % 2 ^ 32))
    cases hr : kernelLoad ((p + i) % 2 ^ 32) (s₁.deref ((p + i) % 2 ^ 32)) with
    | ok y =>
      rw [hr] at hk
      rw [fromUserBus_ok hr]
      show Touched _ s y.2
      rw [show y.2 = _ from hk]
      exact hd
    | error e =>
      rw [hr] at hk
      rw [fromUserBus_error hr]
      show Touched _ s e
      rw [show e = _ from hk]
      exact hd
  · exact .refl s

theorem copyToUser_touched (obj : Nat → Byte) (p q : Nat) (size : Int) (s : State) :
    Post (copyToUser (toUserBus obj) p q size s) (Touched (Span q size.toNat) s)
      (Touched (Span q size.toNat) s) := by
  unfold copyToUser
  apply copyLoop_rule (I := fun _ _ => Touched (Span q size.toNat) s)
  · refine ⟨fun i ps s₁ _ _ hI => hI, fun j b ps s₁ hj hI => ?_⟩
    have hd : Touched (Span q size.toNat) s (s₁.deref ((q + j) % 2 ^ 32)) :=
      hI.trans (touched_deref ⟨j, hj, rfl⟩)
    have hk := kernelStore_post ((q + j) % 2 ^ 32) b (s₁.deref ((q + j) % 2 ^ 32))
    exact hk.mono (fun _ h => hd.trans (.of_eq h)) fun _ h => hd.trans (.of_eq h)
  · exact .refl s

/-! ## sys_write -/

theorem writeChunk_post (buffer : DWord) (written size : Int) (s : State) :
    Post (writeChunk buffer written size s)
      (fun x => x.1 = size ∧ Touched (Span (buffer.toNat + written.toNat) size.toNat) s x.2)
      (Touched (Span (buffer.toNat + written.toNat) size.toNat) s) := by
  have hc := copyFromUser_touched (buffer.toNat + written.toNat) 0 size s fun _ => 0
  unfold writeChunk
  cases hr : copyFromUser fromUserBus (buffer.toNat + written.toNat) 0 size (s, fun _ => 0) with
  | ok x =>
    rw [hr] at hc
    exact ⟨rfl, hc.trans (.of_eq rfl)⟩
  | error x =>
    rw [hr] at hc
    exact hc

/-- the chunks follow each other: what is written and what is left add up -/
theorem writeLoop_post (buffer : DWord) (n : Nat) (size written : Int) (s : State) (h1 : 0 ≤ size)
    (h2 : 0 ≤ written) :
    Post (writeLoop buffer n size written s)
      (fun x => 0 ≤ x.1 ∧ 0 ≤ x.2.1 ∧ x.1 + x.2.1 = size + written ∧
        Touched (Span (buffer.toNat + written.toNat) size.toNat) s x.2.2)
      (Touched (Span (buffer.toNat + written.toNat) size.toNat) s) := by
  induction n generalizing size written s with
  | zero => exact ⟨h1, h2, rfl, .refl s⟩
  | succ n ih =>
    rw [writeLoop]
    by_cases hs : size ≥ maxWrite
    · rw [if_pos hs, post_bind]
      simp only [maxWrite, Nat.cast_ofNat] at hs
      have hsub : ∀ s₁, Touched (Span (buffer.toNat + written.toNat) (maxWrite : Int).toNat) s s₁ →
          Touched (Span (buffer.toNat + written.toNat) size.toNat) s s₁ := by
        intro s₁ ht
        refine ht.mono fun a ha => ha.sub le_rfl ?_
        simp only [maxWrite, Nat.cast_ofNat, Int.reduceToNat]
        omega
      refine (writeChunk_post buffer written maxWrite s).mono (fun x hx => ?_) hsub
      obtain ⟨hw, ht⟩ := hx
      simp only [maxWrite, Nat.cast_ofNat] at hw
      have hrest : ∀ s₁, Touched (Span (buffer.toNat + (written + x.1).toNat) (size - x.1).toNat)
          x.2 s₁ → Touched (Span (buffer.toNat + written.toNat) size.toNat) s s₁ := by
        intro s₁ ht'
        exact (hsub x.2 ht).trans (ht'.mono fun a ha => ha.sub (by omega) (by omega))
      refine (ih (size - x.1) (written + x.1) x.2 (by omega) (by omega)).mono ?_ hrest
      intro y hy
      exact ⟨hy.1, hy.2.1, by omega, hrest _ hy.2.2.2⟩
    · rw [if_neg hs]
      exact ⟨h1, h2, rfl, .refl s⟩

/-- past its checks `sys_write` returns `size`, or ends in a page fault -/
theorem sysWrite_post {fd : Int} {buffer : DWord} {size : Int} (hfd : checkFd fd 1 = 0)
    (hb : buffer ≠ 0) (hn : 0 ≤ size) (s : State) :
    Post (sysWrite fd buffer size s)
      (fun x => x.1 = size ∧ Touched (Span buffer.toNat size.toNat) s x.2)
      (Touched (Span buffer.toNat size.toNat) s) := by
  have h1 : ¬ checkFd fd 1 < 0 := by omega
  have h2 : ¬ size < 0 := by omega
  have hstart : ∀ s₁, Touched (Span (buffer.toNat + (0 : Int).toNat) size.toNat)
      (actTicksUser2kernel s) s₁ → Touched (Span buffer.toNat size.toNat) s s₁ :=
    fun s₁ ht => (Touched.of_eq rfl).trans ht
  unfold sysWrite
  dsimp only
  rw [if_neg h1, if_neg hb, if_neg h2, post_bind]
  refine (writeLoop_post buffer size.toNat size 0 _ hn le_rfl).mono (fun x hx => ?_) hstart
  obtain ⟨h3, h4, h5, ht⟩ := hx
  have hlast : ∀ s₁, Touched (Span (buffer.toNat + x.2.1.toNat) x.1.toNat) x.2.2 s₁ →
      Touched (Span buffer.toNat size.toNat) s s₁ := by
    intro s₁ ht'
    exact (hstart _ ht).trans (ht'.mono fun a ha => ha.sub (by omega) (by omega))
  show Post ((writeChunk buffer x.2.1 x.1 x.2.2).bind _) _ _
  rw [post_bind]
  refine (writeChunk_post buffer x.2.1 x.1 x.2.2).mono (fun y hy => ?_) hlast
  obtain ⟨hw, ht'⟩ := hy
  have h6 : x.1 - y.1 = 0 := by omega
  show Post (if x.1 - y.1 = 0 then _ else _) _ _
  rw [if_pos h6]
  refine ⟨?_, (hlast y.2 ht').trans (.of_eq rfl)⟩
  show x.2.1 + y.1 = size
  omega

/-! ## sys_get_stats -/

/-- the test of `sys_get_stats` on the pointer -/
abbrev StatsRefused (st : DWord) : Prop :=
  st = 0 ∨ st.toNat < lUserStart ∨ st.toNat > lUserStart + (numPagData + numPagCode) * pageSize

/-- past its checks `sys_get_stats` returns 0 or -ESRCH, or ends in a page fault -/
theorem sysGetStats_post {pid : Int} {st : DWord} (hp : 0 ≤ pid) (hst : ¬ StatsRefused st)
    (s : State) :
    Post (sysGetStats pid st s)
      (fun x => (x.1 = 0 ∨ x.1 = -esrch) ∧ Touched (Span st.toNat sizeofStats) s x.2)
      (Touched (Span st.toNat sizeofStats) s) := by
  have h1 : ¬ pid < 0 := by omega
  have hcopy := fun (obj : Nat → Byte) (s : State) =>
    copyToUser_touched obj 0 st.toNat sizeofStats s
  unfold sysGetStats
  dsimp only
  rw [if_neg h1, if_neg hst]
  by_cases hpid : ((actTicksUser2kernel s).task (actTicksUser2kernel s).current).pid = pid
  · rw [if_pos hpid]
    generalize hs₁ : actTicksKernel2user (actTicksUser2kernel s) = s₁
    have h0 : s₁.derefs = s.derefs := by
      rw [← hs₁]
      rfl
    have h2 := hcopy (s₁.task s₁.current).statics.bytes s₁
    cases hr : copyToUser (toUserBus (s₁.task s₁.current).statics.bytes) 0 st.toNat
        sizeofStats s₁ with
    | ok y =>
      rw [hr] at h2
      exact ⟨Or.inl rfl, (Touched.of_eq h0).trans h2⟩
    | error e =>
      rw [hr] at h2
      exact (Touched.of_eq h0).trans h2
  · rw [if_neg hpid, post_bind]
    unfold getStatPID
    have h0 : Touched (Span st.toNat sizeofStats) s (actTicksUser2kernel s) := .of_eq rfl
    cases (List.finRange nrTasks).find? fun i => ((actTicksUser2kernel s).task i).pid = pid with
    | none => exact ⟨Or.inr rfl, h0.trans (.of_eq rfl)⟩
    | some act =>
      dsimp only
      have h2 := hcopy ((actTicksUser2kernel s).task act).statics.bytes (actTicksUser2kernel s)
      cases hr : copyToUser (toUserBus ((actTicksUser2kernel s).task act).statics.bytes) 0 st.toNat
          sizeofStats (actTicksUser2kernel s) with
      | ok y =>
        rw [hr] at h2
        exact ⟨Or.inl rfl, (h0.trans h2).trans (.of_eq rfl)⟩
      | error e =>
        rw [hr] at h2
        exact h0.trans h2

/-! ## the memory of the caller -/

/-- the addresses of the pages 264 to 283 -/
def DataAddr (a : Nat) : Prop := 264 * 4096 ≤ a ∧ a < 284 * 4096

/-- `sys_write` reads the user region only, and refuses every other buffer. -/
structure WriteChecked (s : State) (fd : Int) (buffer : DWord) (size : Int) : Prop where
  reads : Touched UserAddr s (ended (sysWrite fd buffer size s))
  refused : checkFd fd 1 = 0 → 0 ≤ size → (∃ i, i < size.toNat ∧ ¬ UserAddr (buffer.toNat + i)) →
    ∃ s', sysWrite fd buffer size s = .ok (-efault, s') ∧ s'.derefs = s.derefs ∧
      s'.out = s.out ∧ s'.mem = s.mem

/-- `sys_get_stats` writes the data pages only, and refuses every other pointer. -/
structure StatsChecked (s : State) (pid : Int) (st : DWord) : Prop where
  writes : Touched DataAddr s (ended (sysGetStats pid st s))
  refused : 0 ≤ pid → (∃ i, i < sizeofStats ∧ ¬ DataAddr (st.toNat + i)) →
    ∃ s', sysGetStats pid st s = .ok (-efault, s') ∧ s'.derefs = s.derefs ∧ s'.mem = s.mem

/-- addresses of the user region do not wrap around -/
theorem Span.user {p n a : Nat} (h : Span p n a) {lo hi : Nat} (hhi : hi ≤ 2 ^ 32)
    (hD : ∀ i, i < n → lo ≤ p + i ∧ p + i < hi) : lo ≤ a ∧ a < hi := by
  obtain ⟨i, hi', rfl⟩ := h
  have h1 := hD i hi'
  rw [Nat.mod_eq_of_lt (by omega)]
  exact h1

theorem writeChecked_iff (s : State) (fd : Int) (buffer : DWord) (size : Int) :
    WriteChecked s fd buffer size ↔
      checkFd fd 1 ≠ 0 ∨ buffer = 0 ∨ size < 0 ∨
        ∀ i, i < size.toNat → UserAddr (buffer.toNat + i) := by
  have hfd : checkFd fd 1 ≠ 0 → checkFd fd 1 < 0 := by
    unfold checkFd
    intro h
    by_cases h1 : fd ≠ 1
    · rw [if_pos h1]
      decide
    · rw [if_neg h1] at h
      exact absurd (if_neg (by decide)) h
  refine ⟨fun h => ?_, fun h => ?_⟩
  · by_contra hno
    simp only [not_or, not_not, not_lt, not_forall] at hno
    obtain ⟨h1, h2, h3, i, hi, hout⟩ := hno
    obtain ⟨s', hr, -⟩ := h.refused h1 h3 ⟨i, hi, hout⟩
    have hpost := sysWrite_post h1 h2 h3 s
    rw [hr] at hpost
    have e : -efault = size := hpost.1
    have : efault = 14 := rfl
    omega
  · by_cases h1 : checkFd fd 1 ≠ 0
    · have hr : sysWrite fd buffer size s =
          .ok (-ebadf, actTicksKernel2user (actTicksUser2kernel s)) := if_pos (hfd h1)
      refine ⟨?_, fun h2 => absurd h2 h1⟩
      rw [hr]
      exact .of_eq rfl
    · have h1' : ¬ checkFd fd 1 < 0 := by
        rw [not_not] at h1
        omega
      by_cases h2 : buffer = 0
      · have hr : sysWrite fd buffer size s =
            .ok (-efault, actTicksKernel2user (actTicksUser2kernel s)) :=
          (if_neg h1').trans (if_pos h2)
        refine ⟨?_, fun _ _ _ => ⟨_, hr, rfl, rfl, rfl⟩⟩
        rw [hr]
        exact .of_eq rfl
      · by_cases h3 : size < 0
        · have hr : sysWrite fd buffer size s =
              .ok (-einval, actTicksKernel2user (actTicksUser2kernel s)) :=
            (if_neg h1').trans ((if_neg h2).trans (if_pos h3))
          refine ⟨?_, fun _ h4 => absurd h3 (not_lt.mpr h4)⟩
          rw [hr]
          exact .of_eq rfl
        · have h4 := ((h.resolve_left h1).resolve_left h2).resolve_left h3
          have hpost := sysWrite_post (not_not.mp h1) h2 (not_lt.mp h3) s
          refine ⟨(ended_touched hpost).mono fun a ha => ha.user (by decide) h4, ?_⟩
          intro _ _ hout
          obtain ⟨i, hi, hout⟩ := hout
          exact absurd (h4 i hi) hout

theorem statsChecked_iff (s : State) (pid : Int) (st : DWord) :
    StatsChecked s pid st ↔
      pid < 0 ∨ StatsRefused st ∨ ∀ i, i < sizeofStats → DataAddr (st.toNat + i) := by
  refine ⟨fun h => ?_, fun h => ?_⟩
  · by_contra hno
    obtain ⟨h1, hno⟩ := not_or.mp hno
    obtain ⟨h2, hno⟩ := not_or.mp hno
    simp only [not_forall] at hno
    obtain ⟨i, hi, hout⟩ := hno
    obtain ⟨s', hr, -⟩ := h.refused (not_lt.mp h1) ⟨i, hi, hout⟩
    have hpost := sysGetStats_post (not_lt.mp h1) h2 s
    rw [hr] at hpost
    have hne : ¬ (-efault = 0 ∨ -efault = -esrch) := by decide
    exact hne hpost.1
  · by_cases h1 : pid < 0
    · have hr : sysGetStats pid st s =
          .ok (-einval, actTicksKernel2user (actTicksUser2kernel s)) := if_pos h1
      refine ⟨?_, fun h2 => absurd h1 (not_lt.mpr h2)⟩
      rw [hr]
      exact .of_eq rfl
    · by_cases h2 : StatsRefused st
      · have hr : sysGetStats pid st s =
            .ok (-efault, actTicksKernel2user (actTicksUser2kernel s)) :=
          (if_neg h1).trans (if_pos h2)
        refine ⟨?_, fun _ _ => ⟨_, hr, rfl, rfl⟩⟩
        rw [hr]
        exact .of_eq rfl
      · have h3 := (h.resolve_left h1).resolve_left h2
        have hpost := sysGetStats_post (not_lt.mp h1) h2 s
        refine ⟨(ended_touched hpost).mono fun a ha => ha.user (by decide) h3, ?_⟩
        intro _ hout
        obtain ⟨i, hi, hout⟩ := hout
        exact absurd (h3 i hi) hout

/-- **When the calls keep to the memory of the caller**, for whatever values are in the registers:
`sys_write` if the buffer is NULL or lies in the user region, `sys_get_stats` if the record starts
outside the user region or lies in the data pages, and both if another argument is refused. -/
theorem user_pointers (s : State) :
    (∀ fd buffer size, WriteChecked s fd buffer size ↔
      checkFd fd 1 ≠ 0 ∨ buffer = 0 ∨ size < 0 ∨
        ∀ i, i < size.toNat → UserAddr (buffer.toNat + i)) ∧
    ∀ pid st, StatsChecked s pid st ↔
      pid < 0 ∨ StatsRefused st ∨ ∀ i, i < sizeofStats → DataAddr (st.toNat + i) :=
  ⟨writeChecked_iff s, statsChecked_iff s⟩

/-- a byte of the kernel is written to the console, and a record over the code -/
theorem user_pointers_unchecked :
    ¬ WriteChecked (boot (fun _ => 0) fun _ => 0) 1 0x10000 1 ∧
      ¬ StatsChecked (boot (fun _ => 0) fun _ => 0) 1 0x100000 := by
  rw [writeChecked_iff, statsChecked_iff]
  refine ⟨fun h => ?_, fun h => ?_⟩
  · have hno : ¬ UserAddr ((0x10000 : DWord).toNat + 0) := by
      unfold UserAddr
      decide
    obtain h1 | h1 | h1 | h1 := h
    · exact h1 (by decide)
    · exact absurd h1 (by decide)
    · exact absurd h1 (by decide)
    · exact hno (h1 0 (by decide))
  · have hno : ¬ DataAddr ((0x100000 : DWord).toNat + 0) := by
      unfold DataAddr
      decide
    obtain h1 | h1 | h1 := h
    · exact absurd h1 (by decide)
    · unfold StatsRefused at h1
      exact absurd h1 (by decide)
    · exact hno (h1 0 (by decide))

end
end Zeos
