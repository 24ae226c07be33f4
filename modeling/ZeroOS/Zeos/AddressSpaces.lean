import ZeroOS.Zeos.Boot

/-!
# Zeos: the address spaces of the processes

Processes are seen through their own page tables here: `pageOf s t p` is the entry of page `p` in
the table of `t`, and `userByte s t a` is what `t` reads at the address `a`.

* `address_spaces`     which frames the processes have, and that no other frame is taken;
* `fork_copies`        a child reads what its parent reads, and nobody else notices;
* `write_isolation`    a store of one process is seen by another exactly when it goes to the code
                       pages: `sys_fork` maps them writable.
-/

set_option linter.unusedVariables false

namespace Zeos
open Programs Rings Desks Runs

/-- the entry of page `p` in the page table of `t` -/
def pageOf (s : State) (t : Task) (p : Nat) : PageTableEntry := s.mm.pagusrTable (getPT s t) p

def frameOf (s : State) (t : Task) (p : Nat) : Nat := (pageOf s t p).pbaseAddr

/-- the byte that user code of `t` reads at the address `a`, if it may -/
def userByte (s : State) (t : Task) (a : Nat) : Option Byte :=
  (userLoadAddr s.mm (getDIR s t) a).map s.mem

/-- the addresses of the pages 256 to 283 -/
def UserAddr (a : Nat) : Prop := 256 * 4096 ≤ a ∧ a < 284 * 4096

section
variable {s s' : State} {t u : Task}

theorem Coherent.dir_eq (h : Coherent s) (ht : t ∉ queue s .freequeue) : getDIR s t = t := h.base t ht

theorem Coherent.pageOf_eq (h : Coherent s) (ht : t ∉ queue s .freequeue) (p : Nat) :
    pageOf s t p = s.mm.pagusrTable t p := by
  unfold pageOf getPT
  rw [h.dir_eq ht, h.mapped.dirs]

theorem Coherent.frameOf_eq (h : Coherent s) (ht : t ∉ queue s .freequeue) (p : Nat) :
    frameOf s t p = s.mm.frame t p := by
  unfold frameOf
  rw [h.pageOf_eq ht]
  rfl

/-- the frame of a user page is the kernel's to give -/
theorem Mapped.owned_frame {mm : Mm} {L : Task → Prop} (h : Mapped mm L) (ht : L t) {p : Nat}
    (h1 : 256 ≤ p) (h2 : p < 284) : Owned mm L (mm.frame t p) := by
  by_cases hp : p < 264
  · have hc := (h.code t ht (p - 256) (by omega)).2.2
    rw [Nat.add_sub_cancel' h1] at hc
    exact Or.inr (Or.inl ⟨p - 256, by omega, hc⟩)
  · exact Or.inr (Or.inr ⟨t, p, ht, ⟨by omega, h2⟩, rfl⟩)

/-- a process reads its pages 256 to 283 at the frames they are mapped to -/
theorem Coherent.userLoad_eq (h : Coherent s) (ht : live s t) {a : Nat} (ha : UserAddr a) :
    userLoadAddr s.mm (getDIR s t) a = some (s.mm.frame t (a / 4096) * 4096 + a % 4096) := by
  unfold UserAddr at ha
  have hp := (h.mapped.user_iff ht (a / 4096)).mpr ⟨by omega, by omega⟩
  refine translate_eq_some.mpr ⟨by omega, ?_, ?_⟩
  · rw [h.dir_eq ht.2, h.mapped.dirs, hp.1, hp.2]
    rfl
  · rw [h.dir_eq ht.2, h.mapped.dirs]
    rfl

theorem Coherent.userByte_eq (h : Coherent s) (ht : live s t) {a : Nat} (ha : UserAddr a) :
    userByte s t a = some (s.mem (s.mm.frame t (a / 4096) * 4096 + a % 4096)) := by
  unfold userByte
  rw [h.userLoad_eq ht ha]
  rfl

/-! ## the frames of the processes -/

/-- What the page tables of the processes have in common with those of the state `s₀` after boot,
and what the byte map says about them. -/
structure FramesAccounted (s₀ s : State) : Prop where
  user : ∀ t, live s t → ∀ p,
    ((pageOf s t p).present = true ∧ (pageOf s t p).user = true) ↔ 256 ≤ p ∧ p < 284
  code : ∀ t, live s t → ∀ i, i < 8 → frameOf s t (256 + i) = frameOf s₀ s₀.initTask (256 + i)
  distinct : ∀ t, live s t → ∀ p q, DataPage p → DataPage q → frameOf s t p = frameOf s t q → p = q
  disjoint : ∀ t u, live s t → live s u → t ≠ u → ∀ p q, DataPage p → DataPage q →
    frameOf s t p ≠ frameOf s u q
  noCode : ∀ t, live s t → ∀ p, DataPage p → ∀ i, i < 8 →
    frameOf s t p ≠ frameOf s₀ s₀.initTask (256 + i)
  noKernel : ∀ t, live s t → ∀ p, DataPage p → 256 ≤ frameOf s t p ∧ frameOf s t p < 1024
  used : ∀ f, s.mm.physMem f = .usedFrame ↔
    f < 256 ∨ (∃ i, i < 8 ∧ f = frameOf s₀ s₀.initTask (256 + i)) ∨
      ∃ t p, live s t ∧ DataPage p ∧ f = frameOf s t p

theorem boot_code_frames (mem : Nat → Byte) (tsc : Nat → DWord) {i : Nat} (hi : i < 8) :
    frameOf (boot mem tsc) (boot mem tsc).initTask (256 + i) = codeFrame i := by
  have h8 : live (boot mem tsc) 8 := (boot_live mem tsc 8).mpr rfl
  have hb := boot_inv mem tsc
  have e : (boot mem tsc).initTask = 8 := rfl
  rw [e, hb.frameOf_eq h8.2, (hb.mapped.code 8 h8 i hi).2.2]

/-- **The frames add up.**  After boot, in every state of every run: the user pages of a process
are 256 to 283; all processes share the code frames of the first one, and every data page has a
frame of its own; the frames in use are these and the kernel's. -/
theorem address_spaces (mem : Nat → Byte) (tsc : Nat → DWord) {s : State}
    (h : Reachable step (boot mem tsc) s) : FramesAccounted (boot mem tsc) s := by
  have hi := reachable_inv mem tsc h
  have hm := hi.mapped
  constructor
  · intro t ht p
    rw [hi.pageOf_eq ht.2]
    exact hm.user_iff ht p
  · intro t ht i hi8
    rw [hi.frameOf_eq ht.2, boot_code_frames mem tsc hi8]
    exact (hm.code t ht i hi8).2.2
  · intro t ht p q hp hq e
    rw [hi.frameOf_eq ht.2, hi.frameOf_eq ht.2] at e
    exact (hm.inj t t ht ht p q hp hq e).2
  · intro t u ht hu htu p q hp hq e
    rw [hi.frameOf_eq ht.2, hi.frameOf_eq hu.2] at e
    exact htu (hm.inj t u ht hu p q hp hq e).1
  · intro t ht p hp i hi8
    rw [hi.frameOf_eq ht.2, boot_code_frames mem tsc hi8]
    exact hm.noCode t ht p hp i hi8
  · intro t ht p hp
    rw [hi.frameOf_eq ht.2]
    exact hm.range t ht p hp
  · intro f
    have hex : s.mm.physMem f = .usedFrame ↔ Owned s.mm (live s) f := ⟨hi.exact f, hm.used f⟩
    rw [hex]
    constructor
    · rintro (h1 | ⟨i, hi8, h1⟩ | ⟨t, p, ht, hp, h1⟩)
      · exact Or.inl h1
      · exact Or.inr (Or.inl ⟨i, hi8, h1.trans (boot_code_frames mem tsc hi8).symm⟩)
      · exact Or.inr (Or.inr ⟨t, p, ht, hp, h1.trans (hi.frameOf_eq ht.2 p).symm⟩)
    · rintro (h1 | ⟨i, hi8, h1⟩ | ⟨t, p, ht, hp, h1⟩)
      · exact Or.inl h1
      · exact Or.inr (Or.inl ⟨i, hi8, h1.trans (boot_code_frames mem tsc hi8)⟩)
      · exact Or.inr (Or.inr ⟨t, p, ht, hp, h1.trans (hi.frameOf_eq ht.2 p)⟩)

/-- the first process forks and exits -/
theorem address_spaces_exit : ∃ s s', step (boot (fun _ => 0) fun _ => 0) .fork = some s ∧
    step s .exit = some s' ∧ FramesAccounted (boot (fun _ => 0) fun _ => 0) s' := by
  obtain ⟨s, s', hs, -, hx⟩ := boot_fork_exit (fun _ => 0) fun _ => 0
  exact ⟨s, s', hs, hx, address_spaces (fun _ => 0) (fun _ => 0) (.step (.step .init hs) hx)⟩

/-! ## fork -/

/-- the tables and the bytes of the processes that are there already -/
theorem Spawned.old (h : Inv s) {child : Task} {fs : List Nat} (hu : inUser s)
    (hc : child ∈ queue s .freequeue) (hg : Grabbed s.mm fs) (hlen : fs.length = 20)
    (hsp : Spawned s s' child fs) (ht : live s t) :
    (∀ p, pageOf s' t p = pageOf s t p) ∧
      ∀ a, UserAddr a → userByte s' t a = userByte s t a := by
  have hi' := h.fork hu hsp hc hg hlen
  have hne : s.current ≠ child := fun e => (h.live_current hu).2 (e ▸ hc)
  have htc : t ≠ child := fun e => ht.2 (e ▸ hc)
  have ht' : live s' t := by
    rw [hsp.live_iff h hc]
    exact Or.inl ht
  have htab : s'.mm.pagusrTable t = s.mm.pagusrTable t := by
    rw [hsp.mm]
    exact forkMm_other h.mapped hne hg hlen htc
  constructor
  · intro p
    rw [hi'.pageOf_eq ht'.2, h.pageOf_eq ht.2, htab]
  · intro a ha
    have hf : s'.mm.frame t (a / 4096) = s.mm.frame t (a / 4096) := by
      unfold Mm.frame
      rw [htab]
    have hown : Owned s.mm (live s) (s.mm.frame t (a / 4096)) := by
      unfold UserAddr at ha
      exact h.mapped.owned_frame ht (by omega) (by omega)
    rw [hi'.userByte_eq ht' ha, h.userByte_eq ht ha, hf, hsp.kept]
    -- the frame was in use, so it is not one of the new ones
    have e : (s.mm.frame t (a / 4096) * 4096 + a % 4096) / 4096 = s.mm.frame t (a / 4096) := by
      omega
    rw [e]
    exact fun hmem => h.mapped.grabbed_ne hg hmem hown

/-- the bytes of the child -/
theorem Spawned.child (h : Inv s) {child : Task} {fs : List Nat} (hu : inUser s)
    (hc : child ∈ queue s .freequeue) (hg : Grabbed s.mm fs) (hlen : fs.length = 20)
    (hsp : Spawned s s' child fs) {a : Nat} (ha : UserAddr a) :
    userByte s' child a = userByte s s.current a := by
  have hi' := h.fork hu hsp hc hg hlen
  have hL := h.live_current hu
  have hne : s.current ≠ child := fun e => hL.2 (e ▸ hc)
  have hlc : live s' child := by
    rw [hsp.live_iff h hc]
    exact Or.inr rfl
  rw [hi'.userByte_eq hlc ha, h.userByte_eq hL ha]
  unfold UserAddr at ha
  by_cases hp : a / 4096 < 264
  · -- a code page: the same frame, which the fork did not write
    have hi8 : a / 4096 - 256 < 8 := by omega
    have e : 256 + (a / 4096 - 256) = a / 4096 := by omega
    have h1 := (hi'.mapped.code child hlc _ hi8).2.2
    have h2 := (h.mapped.code s.current hL _ hi8).2.2
    rw [e] at h1 h2
    rw [h1, h2, hsp.kept]
    have e2 : (codeFrame (a / 4096 - 256) * 4096 + a % 4096) / 4096 =
        codeFrame (a / 4096 - 256) := by omega
    rw [e2]
    exact fun hmem => h.mapped.grabbed_ne hg hmem (Or.inr (Or.inl ⟨_, hi8, rfl⟩))
  · -- a data page: its bytes were copied
    obtain ⟨k, hk, hpk, -, hfr⟩ := forkMm_child_data h.mapped hne hg hlen
      (p := a / 4096) ⟨by omega, by omega⟩
    rw [hsp.mm, hfr, hsp.copied k hk (a % 4096) (by omega), hpk]

/-- **A fork copies the caller and disturbs nobody.**  The child reads at every user address what
the parent read; the table of the parent is what it was, entry for entry, and so are its memory
and the tables and the memory of every other process. -/
theorem fork_copies (mem : Nat → Byte) (tsc : Nat → DWord) {pid : Int}
    (h : Reachable step (boot mem tsc) s) (hu : inUser s) (hf : sysFork s = .ok (pid, s'))
    (hs : 0 ≤ pid ∨ ∃ t, ¬ live s t ∧ live s' t) :
    ∃ child, ¬ live s child ∧ live s' child ∧ (s'.task child).pid = pid ∧
      (∀ a, UserAddr a → ∃ b, userByte s' child a = some b ∧ userByte s s.current a = some b) ∧
      ∀ t, live s t → (∀ p, pageOf s' t p = pageOf s t p) ∧
        ∀ a, UserAddr a → userByte s' t a = userByte s t a := by
  have hi := reachable_inv mem tsc h
  rcases hi.forked hu hf with ⟨-, rfl, hserv⟩ | ⟨child, rest, fs, hq, hlen, hg, hsp, rfl⟩
  · -- without a free PCB the result is negative, and no process appears
    rcases hs with hneg | ⟨t, h1, h2⟩
    · exact absurd hneg (by decide)
    · refine absurd h2 ?_
      have hun := hserv.unmoved
      have hl := live_congr hun.kept.idleTask (queue_congr hun.links .freequeue)
      exact fun h3 => h1 (hl ▸ h3)
  · have hc : child ∈ queue s .freequeue := hq ▸ List.mem_cons_self
    refine ⟨child, fun hl => hl.2 hc, ?_, ?_, fun a ha => ?_, fun t ht => ?_⟩
    · rw [hsp.live_iff hi hc]
      exact Or.inr rfl
    · rw [hsp.task, if_pos rfl]
      rfl
    · have h1 := hi.userByte_eq (hi.live_current hu) ha
      exact ⟨_, (hsp.child hi hu hc hg hlen ha).trans h1, h1⟩
    · exact hsp.old hi hu hc hg hlen ht

/-- the first fork after boot -/
theorem fork_copies_boot :
    ∃ s', sysFork (boot (fun _ => 0) fun _ => 0) = .ok (2, s') ∧
      ∃ child, ¬ live (boot (fun _ => 0) fun _ => 0) child ∧ live s' child ∧
        (s'.task child).pid = 2 ∧
        (∀ a, UserAddr a → ∃ b, userByte s' child a = some b ∧
          userByte (boot (fun _ => 0) fun _ => 0) 8 a = some b) ∧
        ∀ t, live (boot (fun _ => 0) fun _ => 0) t →
          (∀ p, pageOf s' t p = pageOf (boot (fun _ => 0) fun _ => 0) t p) ∧
          ∀ a, UserAddr a → userByte s' t a = userByte (boot (fun _ => 0) fun _ => 0) t a := by
  have hi := boot_inv (fun _ => 0) fun _ => 0
  have hu := boot_inUser (fun _ => 0) fun _ => 0
  rcases hi.fork_cases hu with ⟨hq, -⟩ | ⟨child, rest, fs, s', -, -, -, -, hr⟩
  · rw [boot_queue] at hq
    cases hq
  · rw [boot_pidMax] at hr
    have hf : sysFork (boot (fun _ => 0) fun _ => 0) = .ok (2, s') := hr
    exact ⟨s', hf, fork_copies (fun _ => 0) (fun _ => 0) .init hu hf (Or.inl (by decide))⟩

/-! ## stores -/

/-- the store of the byte `b` to the address `a` by user code of `t`, if the page may be written -/
def storeBy (s : State) (t : Task) (a : Nat) (b : Byte) : Option State :=
  (userStoreAddr s.mm (getDIR s t) a).map fun x => s.setMem (Function.update s.mem x b)

/-- No store of a process is seen by another, and no frame that two processes map is writable. -/
structure Isolated (s : State) : Prop where
  stores : ∀ t u, live s t → live s u → t ≠ u → ∀ a b s', storeBy s t a b = some s' →
    ∀ v, UserAddr v → userByte s' u v = userByte s u v
  frames : ∀ t u, live s t → live s u → t ≠ u → ∀ p q, 256 ≤ p → p < 284 → 256 ≤ q → q < 284 →
    frameOf s t p = frameOf s u q → (pageOf s t p).rw = false ∧ (pageOf s u q).rw = false

/-- the code pages of `t` are writable, all of them or none -/
def CodeRw (mm : Mm) (t : Task) (rw : Bool) : Prop :=
  ∀ i, i < 8 → (mm.pagusrTable t (256 + i)).rw = rw

/-- At most one process has the code pages that `set_user_pages` mapped; those that `sys_fork`
mapped are writable. -/
structure CodePages (s : State) : Prop where
  all : ∀ t, live s t → CodeRw s.mm t true ∨ CodeRw s.mm t false
  readOnly : ∀ t u, live s t → live s u → CodeRw s.mm t false → CodeRw s.mm u false → t = u

theorem boot_codePages (mem : Nat → Byte) (tsc : Nat → DWord) : CodePages (boot mem tsc) := by
  have hm := boot_mm mem tsc
  constructor
  · intro t ht
    obtain rfl := (boot_live mem tsc t).mp ht
    refine Or.inr fun i hi => ?_
    rw [boot_code hm hi]
    rfl
  · intro t u ht hu _ _
    rw [(boot_live mem tsc t).mp ht, (boot_live mem tsc u).mp hu]

theorem step_codePages (h : Inv s) (hc : CodePages s) {e : Event} (he : step s e = some s') :
    CodePages s' := by
  cases step_evolves h he with
  | still hk hr hf =>
    have hl := live_congr hk.idleTask hf
    constructor
    · rw [hl, hk.mm]
      exact hc.all
    · rw [hl, hk.mm]
      exact hc.readOnly
  | fork child rest fs hu hq hlen hg hsp =>
    have hchild : child ∈ queue s .freequeue := hq ▸ List.mem_cons_self
    have hL := h.live_current hu
    have hne : s.current ≠ child := fun e => hL.2 (e ▸ hchild)
    have hl := hsp.live_iff h hchild
    have hnew : CodeRw s'.mm child true := by
      intro i hi
      rw [hsp.mm, forkMm_child_code h.mapped hL hne hg hlen hi]
      rfl
    have hold : ∀ {t}, t ≠ child → ∀ {rw}, CodeRw s'.mm t rw ↔ CodeRw s.mm t rw := by
      intro t ht rw
      unfold CodeRw
      rw [hsp.mm, forkMm_other h.mapped hne hg hlen ht]
    have hno : ¬ CodeRw s'.mm child false := fun hf =>
      absurd ((hnew 0 (by decide)).symm.trans (hf 0 (by decide))) (by decide)
    constructor
    · intro t ht
      by_cases e : t = child
      · exact Or.inl (e ▸ hnew)
      · rw [hold e, hold e]
        rw [hl] at ht
        exact hc.all t (ht.resolve_right e)
    · intro t u ht hu' h1 h2
      have et : t ≠ child := fun e => hno (e ▸ h1)
      have eu : u ≠ child := fun e => hno (e ▸ h2)
      rw [hl] at ht hu'
      exact hc.readOnly t u (ht.resolve_right et) (hu'.resolve_right eu) ((hold et).mp h1)
        ((hold eu).mp h2)
  | exit hu hx =>
    have hpt : s'.mm.pagusrTable = s.mm.pagusrTable := by
      rw [hx.mm]
      exact (freeData_apply s.current s.mm).2.1
    have hold : ∀ {t rw}, CodeRw s'.mm t rw ↔ CodeRw s.mm t rw := by
      intro t rw
      unfold CodeRw
      rw [hpt]
    constructor
    · intro t ht
      rw [hold, hold]
      rw [hx.live_iff] at ht
      exact hc.all t ht.1
    · intro t u ht hu' h1 h2
      rw [hx.live_iff] at ht hu'
      exact hc.readOnly t u ht.1 hu'.1 (hold.mp h1) (hold.mp h2)

/-! ## who sees a store -/

section
variable {a : Nat} {b : Byte}

/-- a store goes to a user page that is writable, and changes one byte of its frame -/
theorem Coherent.store_eq (h : Coherent s) (ht : live s t) (hst : storeBy s t a b = some s') :
    UserAddr a ∧ (pageOf s t (a / 4096)).rw = true ∧
      s' = s.setMem (Function.update s.mem (s.mm.frame t (a / 4096) * 4096 + a % 4096) b) := by
  obtain ⟨x, hx, rfl⟩ := Option.map_eq_some_iff.mp hst
  obtain ⟨-, hok, rfl⟩ := translate_eq_some.mp hx
  rw [Bool.and_eq_true, h.dir_eq ht.2, h.mapped.dirs] at hok
  have hp := (h.mapped.user_iff ht (a / 4096)).mp (Bool.and_eq_true_iff.mp hok.1)
  refine ⟨⟨by omega, by omega⟩, ?_, ?_⟩
  · rw [h.pageOf_eq ht.2]
    exact hok.2
  · rw [h.dir_eq ht.2, h.mapped.dirs]
    rfl

theorem userByte_setMem (h : Coherent s) (hu : live s u) (m : Nat → Byte) {v : Nat}
    (hv : UserAddr v) :
    userByte (s.setMem m) u v = some (m (s.mm.frame u (v / 4096) * 4096 + v % 4096)) := by
  show (userLoadAddr s.mm (getDIR s u) v).map m = _
  rw [h.userLoad_eq hu hv]
  rfl

/-- frames of different processes are the same for the code pages only -/
theorem Mapped.frame_shared {mm : Mm} {L : Task → Prop} (h : Mapped mm L) (ht : L t) (hu : L u)
    (htu : t ≠ u) {p q : Nat} (hp : 264 ≤ p) (hp' : p < 284) (hq : 256 ≤ q) (hq' : q < 284) :
    mm.frame t p ≠ mm.frame u q := by
  intro e
  by_cases hq8 : q < 264
  · have hc := (h.code u hu (q - 256) (by omega)).2.2
    rw [Nat.add_sub_cancel' hq] at hc
    exact h.noCode t ht p ⟨hp, hp'⟩ (q - 256) (by omega) (e.trans hc)
  · exact htu (h.inj t u ht hu p q ⟨hp, hp'⟩ ⟨by omega, hq'⟩ e).1

theorem Mapped.frame_code {mm : Mm} {L : Task → Prop} (h : Mapped mm L) (ht : L t) {p : Nat}
    (hp : 256 ≤ p) (hp' : p < 264) : mm.frame t p = codeFrame (p - 256) := by
  have hc := (h.code t ht (p - 256) (by omega)).2.2
  rwa [Nat.add_sub_cancel' hp] at hc

/-- **A store is seen by another process if and only if it changes a byte of the code.** -/
theorem Coherent.store_seen_iff (h : Coherent s) (ht : live s t) (hu : live s u) (htu : t ≠ u)
    (hst : storeBy s t a b = some s') :
    (∀ v, UserAddr v → userByte s' u v = userByte s u v) ↔
      264 * 4096 ≤ a ∨ userByte s t a = some b := by
  obtain ⟨ha, -, rfl⟩ := h.store_eq ht hst
  rw [h.userByte_eq ht ha, Option.some_inj]
  have ha' := ha
  unfold UserAddr at ha'
  constructor
  · intro hsame
    by_contra hno
    rw [not_or] at hno
    -- the reader looks at the same address of the code
    have e : s.mm.frame u (a / 4096) = s.mm.frame t (a / 4096) := by
      rw [h.mapped.frame_code hu (by omega) (by omega),
        h.mapped.frame_code ht (by omega) (by omega)]
    have h1 := hsame a ha
    rw [userByte_setMem h hu _ ha, h.userByte_eq hu ha, e, Function.update_self,
      Option.some_inj] at h1
    exact hno.2 h1.symm
  · intro hok v hv
    rw [userByte_setMem h hu _ hv, h.userByte_eq hu hv, Option.some_inj, Function.update_apply]
    by_cases e : s.mm.frame u (v / 4096) * 4096 + v % 4096 =
        s.mm.frame t (a / 4096) * 4096 + a % 4096
    · rw [if_pos e, e]
      rcases hok with h1 | h1
      · unfold UserAddr at hv
        have hf : s.mm.frame t (a / 4096) = s.mm.frame u (v / 4096) := by omega
        exact absurd hf (h.mapped.frame_shared ht hu htu (by omega) (by omega) (by omega)
          (by omega))
      · exact h1.symm
    · rw [if_neg e]

end

/-- **The processes are isolated if and only if there is at most one.** -/
theorem isolated_iff (h : Coherent s) (hc : CodePages s) :
    Isolated s ↔ ∀ t u, live s t → live s u → t = u := by
  constructor
  · intro hi t u ht hu
    by_contra htu
    -- one of the two has writable code pages, and the other has the same frames
    have hkey : ∀ t u, live s t → live s u → t ≠ u → ¬ CodeRw s.mm t true := by
      intro t u ht hu htu hrw
      have e : frameOf s t 256 = frameOf s u 256 := by
        rw [h.frameOf_eq ht.2, h.frameOf_eq hu.2, h.mapped.frame_code ht le_rfl (by omega),
          h.mapped.frame_code hu le_rfl (by omega)]
      have h1 := (hi.frames t u ht hu htu 256 256 le_rfl (by omega) le_rfl (by omega) e).1
      rw [h.pageOf_eq ht.2] at h1
      exact absurd ((hrw 0 (by decide)).symm.trans h1) (by decide)
    exact htu (hc.readOnly t u ht hu ((hc.all t ht).resolve_left (hkey t u ht hu htu))
      ((hc.all u hu).resolve_left (hkey u t hu ht (Ne.symm htu))))
  · intro hone
    exact ⟨fun t u ht hu htu => absurd (hone t u ht hu) htu,
      fun t u ht hu htu => absurd (hone t u ht hu) htu⟩

/-- with at most one process there is a PCB to spare -/
theorem exists_free (hu : inUser s) (hl : live s s.current)
    (hone : ∀ t u, live s t → live s u → t = u) : queue s .freequeue ≠ [] := by
  have h3 : ∀ a b : Task, ∃ t, t ≠ a ∧ t ≠ b := by decide
  obtain ⟨t, h1, h2⟩ := h3 s.idleTask s.current
  intro hq
  refine h2 (hone t s.current ⟨h1, ?_⟩ hl)
  rw [hq]
  exact List.not_mem_nil

/-- a step from a state with at most one process makes a second one if and only if it is a fork -/
theorem step_one_iff (h : Inv s) (hone : ∀ t u, live s t → live s u → t = u) {e : Event}
    (he : step s e = some s') : (∀ t u, live s' t → live s' u → t = u) ↔ e ≠ .fork := by
  cases step_evolves h he with
  | still hk hr hf =>
    rw [live_congr hk.idleTask hf]
    refine ⟨fun _ hfork => ?_, fun _ => hone⟩
    subst hfork
    cases step_cases he with
    | fork hu hs =>
      have hL := h.live_current hu
      rcases h.forked hu hs with ⟨hq, -, -⟩ | ⟨child, rest, fs, hq, -, -, hsp, -⟩
      · exact exists_free hu hL hone hq
      · have hchild : child ∈ queue s .freequeue := hq ▸ List.mem_cons_self
        exact ((hsp.free_iff h hchild child).mp (hf.symm ▸ hchild)).2 rfl
    | service hs => cases hs
  | fork child rest fs hu hq hlen hg hsp =>
    have hchild : child ∈ queue s .freequeue := hq ▸ List.mem_cons_self
    have hL := h.live_current hu
    rw [hsp.live_iff h hchild]
    refine ⟨fun h1 => ?_, fun h1 => absurd rfl h1⟩
    exact absurd (h1 s.current child (Or.inl hL) (Or.inr rfl)) fun e => hL.2 (e ▸ hchild)
  | exit hu hx =>
    rw [hx.live_iff]
    exact ⟨fun _ e => (nomatch e), fun _ t u ht hu' => hone t u ht.1 hu'.1⟩

/-- the only process forks -/
theorem fork_shares (h : Inv s) (hc : CodePages s) (hu : inUser s) (hi : Isolated s) :
    ∃ s', step s .fork = some s' ∧ ¬ Isolated s' := by
  have hone := (isolated_iff h.toCoherent hc).mp hi
  obtain ⟨child, rest, hq⟩ := List.exists_cons_of_ne_nil (exists_free hu (h.live_current hu) hone)
  obtain ⟨s', he, -⟩ := h.fork_step hu hq
  refine ⟨s', he, fun hs => ?_⟩
  rw [isolated_iff (step_inv h he).toCoherent (step_codePages h hc he)] at hs
  exact (step_one_iff h hone he).mp hs rfl

theorem boot_isolated (mem : Nat → Byte) (tsc : Nat → DWord) : Isolated (boot mem tsc) := by
  refine (isolated_iff (boot_inv mem tsc).toCoherent (boot_codePages mem tsc)).mpr fun t u ht hu => ?_
  rw [(boot_live mem tsc t).mp ht, (boot_live mem tsc u).mp hu]

/-- **Isolation is lost at the first fork.**  A run keeps the processes isolated if and only if no
process forks; and a store that a process may make is not seen by another one if and only if it is
to a data page, or of the byte that is there. -/
theorem write_isolation (mem : Nat → Byte) (tsc : Nat → DWord) :
    (∀ es, Always step Isolated (boot mem tsc) es ↔
      Guarded step (fun _ e => e ≠ .fork) (boot mem tsc) es) ∧
    ∀ s, Reachable step (boot mem tsc) s → ∀ t u, live s t → live s u → t ≠ u →
      ∀ a b s', storeBy s t a b = some s' →
        ((∀ v, UserAddr v → userByte s' u v = userByte s u v) ↔
          264 * 4096 ≤ a ∨ userByte s t a = some b) := by
  constructor
  · refine fun es => always_iff_guarded (I := fun s => Inv s ∧ CodePages s)
      ⟨boot_inv mem tsc, boot_codePages mem tsc⟩ (boot_isolated mem tsc) ?_ ?_ es
    · rintro s e s' ⟨hi, hc⟩ - he
      exact ⟨step_inv hi he, step_codePages hi hc he⟩
    · rintro s e s' ⟨hi, hc⟩ hP he
      rw [isolated_iff (step_inv hi he).toCoherent (step_codePages hi hc he)]
      exact step_one_iff hi ((isolated_iff hi.toCoherent hc).mp hP) he
  · intro s h t u ht hu htu a b s' hst
    exact (reachable_inv mem tsc h).store_seen_iff ht hu htu hst

/-- the first fork after boot -/
theorem fork_not_isolated :
    ∃ s, step (boot (fun _ => 0) fun _ => 0) .fork = some s ∧ ¬ Isolated s :=
  fork_shares (boot_inv _ _) (boot_codePages _ _) (boot_inUser _ _) (boot_isolated _ _)

end
end Zeos
