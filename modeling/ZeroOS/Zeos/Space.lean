import Mathlib.Data.Finset.Prod
import Mathlib.Data.List.GetD
import ZeroOS.Zeos.Fork

/-!
# Zeos: address spaces

`Mapped mm L` says how the page tables of the user tasks `L` share the frames: the code pages
are the frames of the initial process, every data page has a frame of its own, nothing is mapped
above page 283, and all of these frames are taken.  `Exact mm L` says that no other frame is.

* `Mapped.fork`, `Exact.fork`     `sys_fork` adds a task (`forkMm` is what it does to the tables);
* `Mapped.exit`, `Exact.exit`     `sys_exit` removes one;
* `Exact.card_le`                 how many frames the tasks take.
-/

set_option linter.unusedVariables false

namespace Zeos
open Programs

/-- the frames that `set_user_pages` gives the code pages of the initial process -/
def codeFrame (i : Nat) : Nat := 256 + 2 * i

/-- page `p` is a data page -/
def DataPage (p : Nat) : Prop := 264 ≤ p ∧ p < 284

/-- the frame that the table `t` maps the page `p` to -/
def Mm.frame (mm : Mm) (t : Task) (p : Nat) : Nat := (mm.pagusrTable t p).pbaseAddr

theorem Mm.frame_eq {mm : Mm} {t : Task} {p : Nat} {e : PageTableEntry}
    (h : mm.pagusrTable t p = e) : mm.frame t p = e.pbaseAddr := congrArg _ h

/-- the frames of the kernel, of the code and of the data of the tasks `L` -/
def Owned (mm : Mm) (L : Task → Prop) (f : Nat) : Prop :=
  f < 256 ∨ (∃ i, i < 8 ∧ f = codeFrame i) ∨ ∃ t p, L t ∧ DataPage p ∧ f = mm.frame t p

structure Mapped (mm : Mm) (L : Task → Prop) : Prop where
  dirs : ∀ t, mm.dirPages t = t
  kernel : ∀ t p, p < 256 → (mm.pagusrTable t p).user = false
  above : ∀ t p, 284 ≤ p → mm.pagusrTable t p = .zero
  code : ∀ t, L t → ∀ i, i < 8 → (mm.pagusrTable t (256 + i)).present = true ∧
    (mm.pagusrTable t (256 + i)).user = true ∧ mm.frame t (256 + i) = codeFrame i
  data : ∀ t, L t → ∀ p, DataPage p → mm.pagusrTable t p = ssEntry (mm.frame t p)
  range : ∀ t, L t → ∀ p, DataPage p → 256 ≤ mm.frame t p ∧ mm.frame t p < 1024
  noCode : ∀ t, L t → ∀ p, DataPage p → ∀ i, i < 8 → mm.frame t p ≠ codeFrame i
  inj : ∀ t u, L t → L u → ∀ p q, DataPage p → DataPage q → mm.frame t p = mm.frame u q →
    t = u ∧ p = q
  used : ∀ f, Owned mm L f → mm.physMem f = .usedFrame

def Exact (mm : Mm) (L : Task → Prop) : Prop := ∀ f, mm.physMem f = .usedFrame → Owned mm L f

theorem ssEntry_frame {f : Nat} (hf : f < 1024) : (ssEntry f).pbaseAddr = f := by
  show f % 2 ^ 20 = f
  omega

section
variable {mm mm' : Mm} {L L' : Task → Prop}

/-- the frame 256 holds code -/
theorem Mapped.used_256 (h : Mapped mm L) : mm.physMem 256 ≠ .freeFrame := by
  rw [h.used 256 (Or.inr (Or.inl ⟨0, by decide, rfl⟩))]
  decide

/-- the user pages of a task are 256 to 283 -/
theorem Mapped.user_iff (h : Mapped mm L) {t : Task} (ht : L t) (p : Nat) :
    ((mm.pagusrTable t p).present = true ∧ (mm.pagusrTable t p).user = true) ↔
      256 ≤ p ∧ p < 284 := by
  constructor
  · rintro ⟨h1, h2⟩
    refine ⟨?_, ?_⟩
    · by_contra hp
      rw [h.kernel t p (by omega)] at h2
      cases h2
    · by_contra hp
      rw [h.above t p (by omega)] at h1
      cases h1
  · rintro ⟨h1, h2⟩
    by_cases hp : p < 264
    · have hc := h.code t ht (p - 256) (by omega)
      rw [Nat.add_sub_cancel' h1] at hc
      exact ⟨hc.1, hc.2.1⟩
    · rw [h.data t ht p ⟨by omega, h2⟩]
      exact ⟨rfl, rfl⟩

/-! ## fork -/

/-- what a fork leaves in the page tables and in the byte map -/
def forkMm (parentPage childPage : Task) (fs : List Nat) (mm : Mm) : Mm :=
  unmapData parentPage (mapData parentPage childPage (fs.map fun f : Nat => (f : Int))
    (grab (mapCode parentPage childPage mm) fs))

theorem getD_frames {fs : List Nat} (hg : Grabbed mm fs) {k : Nat} (hk : k < fs.length) :
    uint32 ((fs.map fun f : Nat => (f : Int)).getD k 0) = fs[k] := by
  rw [List.getD_eq_getElem _ _ (by simpa using hk), List.getElem_map]
  exact uint32_natCast (hg.free _ (List.getElem_mem hk)).1.2.1

variable {P C : Task} {fs : List Nat}

/-- the tables while the data pages are copied -/
theorem window_apply (hPC : P ≠ C) (hg : Grabbed mm fs) (hlen : fs.length = 20) (t : Task)
    (p : Nat) :
    (mapData P C (fs.map fun f : Nat => (f : Int)) (grab (mapCode P C mm) fs)).pagusrTable t p =
      if t = P ∧ 284 ≤ p ∧ p < 304 then ssEntry (fs.getD (p - 284) 0)
      else if t = C ∧ 264 ≤ p ∧ p < 284 then ssEntry (fs.getD (p - 264) 0)
      else if t = C ∧ 256 ≤ p ∧ p < 264 then ssEntry (mm.frame P p)
      else mm.pagusrTable t p := by
  rw [(mapData_apply hPC _ _).2 t p]
  have hget : ∀ k, k < 20 →
      uint32 ((fs.map fun f : Nat => (f : Int)).getD k 0) = fs.getD k 0 := by
    intro k hk
    rw [getD_frames hg (hlen ▸ hk), List.getD_eq_getElem _ _ (hlen ▸ hk)]
  by_cases h1 : t = P ∧ 284 ≤ p ∧ p < 304
  · rw [if_pos h1, if_pos h1, hget _ (by omega)]
  · rw [if_neg h1, if_neg h1]
    by_cases h2 : t = C ∧ 264 ≤ p ∧ p < 284
    · rw [if_pos h2, if_pos h2, hget _ (by omega)]
    · rw [if_neg h2, if_neg h2]
      exact (mapCode_apply hPC mm).2 t p

theorem forkMm_frames (hPC : P ≠ C) (fs : List Nat) (mm : Mm) :
    (forkMm P C fs mm).dirPages = mm.dirPages ∧
      (forkMm P C fs mm).physMem = (grab mm fs).physMem := by
  have h1 := (mapCode_apply hPC mm).1
  have h2 := (mapData_apply hPC (fs.map fun f : Nat => (f : Int)) (grab (mapCode P C mm) fs)).1
  have h3 := (unmapData_apply (P := P)
    (mapData P C (fs.map fun f : Nat => (f : Int)) (grab (mapCode P C mm) fs))).1
  have hm : (grab (mapCode P C mm) fs).physMem = (grab mm fs).physMem := by
    simp only [grab, h1.physMem]
  unfold forkMm
  constructor
  · rw [h3.dirPages, h2.dirPages, grab_dirPages, h1.dirPages]
  · rw [h3.physMem, h2.physMem, hm]

theorem forkMm_apply (h : Mapped mm L) (hPC : P ≠ C) (hg : Grabbed mm fs) (hlen : fs.length = 20)
    (t : Task) (p : Nat) :
    (forkMm P C fs mm).pagusrTable t p =
      if t = C ∧ 264 ≤ p ∧ p < 284 then ssEntry (fs.getD (p - 264) 0)
      else if t = C ∧ 256 ≤ p ∧ p < 264 then ssEntry (mm.frame P p)
      else mm.pagusrTable t p := by
  unfold forkMm
  rw [(unmapData_apply _).2 t p, window_apply hPC hg hlen]
  by_cases h1 : t = P ∧ 284 ≤ p ∧ p < 304
  · -- the window was empty before
    have h2 : ¬ (t = C ∧ 264 ≤ p ∧ p < 284) := by omega
    have h3 : ¬ (t = C ∧ 256 ≤ p ∧ p < 264) := by omega
    rw [if_pos h1, if_neg h2, if_neg h3, h.above t p h1.2.1]
  · rw [if_neg h1, if_neg h1]

/-- only the table of the child changes -/
theorem forkMm_outside (h : Mapped mm L) (hPC : P ≠ C) (hg : Grabbed mm fs) (hlen : fs.length = 20)
    (t : Task) {p : Nat} (hp : ¬ (256 ≤ p ∧ p < 284)) :
    (forkMm P C fs mm).pagusrTable t p = mm.pagusrTable t p := by
  have h1 : ¬ (t = C ∧ 264 ≤ p ∧ p < 284) := by omega
  have h2 : ¬ (t = C ∧ 256 ≤ p ∧ p < 264) := by omega
  rw [forkMm_apply h hPC hg hlen, if_neg h1, if_neg h2]

theorem forkMm_other (h : Mapped mm L) (hPC : P ≠ C) (hg : Grabbed mm fs) (hlen : fs.length = 20)
    {t : Task} (ht : t ≠ C) : (forkMm P C fs mm).pagusrTable t = mm.pagusrTable t := by
  funext p
  rw [forkMm_apply h hPC hg hlen, if_neg fun h1 => ht h1.1, if_neg fun h1 => ht h1.1]

theorem forkMm_child_code (h : Mapped mm L) (hP : L P) (hPC : P ≠ C) (hg : Grabbed mm fs)
    (hlen : fs.length = 20) {i : Nat} (hi : i < 8) :
    (forkMm P C fs mm).pagusrTable C (256 + i) = ssEntry (codeFrame i) := by
  have h1 : ¬ (C = C ∧ 264 ≤ 256 + i ∧ 256 + i < 284) := by omega
  rw [forkMm_apply h hPC hg hlen, if_neg h1, if_pos ⟨rfl, by omega, by omega⟩,
    (h.code P hP i hi).2.2]

theorem forkMm_child_data (h : Mapped mm L) (hPC : P ≠ C) (hg : Grabbed mm fs)
    (hlen : fs.length = 20) {p : Nat} (hp : DataPage p) :
    ∃ k, ∃ hk : k < fs.length, p = 264 + k ∧
      (forkMm P C fs mm).pagusrTable C p = ssEntry fs[k] ∧ (forkMm P C fs mm).frame C p = fs[k] := by
  obtain ⟨h1, h2⟩ := hp
  have hk : p - 264 < fs.length := by omega
  have e : (forkMm P C fs mm).pagusrTable C p = ssEntry fs[p - 264] := by
    rw [forkMm_apply h hPC hg hlen, if_pos ⟨rfl, h1, h2⟩, List.getD_eq_getElem _ _ hk]
  refine ⟨p - 264, hk, by omega, e, ?_⟩
  unfold Mm.frame
  rw [e, ssEntry_frame (hg.free _ (List.getElem_mem hk)).1.2.1]

theorem mem_frames {fs : List Nat} (hlen : fs.length = 20) {f : Nat} (hf : f ∈ fs) :
    ∃ k, ∃ hk : k < fs.length, DataPage (264 + k) ∧ f = fs[k] := by
  obtain ⟨k, hk, rfl⟩ := List.getElem_of_mem hf
  exact ⟨k, hk, ⟨by omega, by omega⟩, rfl⟩

/-- a grabbed frame belongs to no task -/
theorem Mapped.grabbed_ne (h : Mapped mm L) (hg : Grabbed mm fs) {f : Nat} (hf : f ∈ fs)
    (ho : Owned mm L f) : False := by
  have h1 := (hg.free f hf).2
  rw [h.used f ho] at h1
  cases h1

theorem frame_other (h : Mapped mm L) (hPC : P ≠ C) (hg : Grabbed mm fs) (hlen : fs.length = 20)
    {t : Task} (ht : t ≠ C) (p : Nat) : (forkMm P C fs mm).frame t p = mm.frame t p := by
  unfold Mm.frame
  rw [forkMm_other h hPC hg hlen ht]

theorem owned_fork_iff (h : Mapped mm L) (hC : ¬ L C) (hPC : P ≠ C) (hg : Grabbed mm fs)
    (hlen : fs.length = 20) (f : Nat) :
    Owned (forkMm P C fs mm) (fun t => L t ∨ t = C) f ↔ Owned mm L f ∨ f ∈ fs := by
  constructor
  · rintro (h1 | h1 | ⟨t, p, ht, hp, rfl⟩)
    · exact Or.inl (Or.inl h1)
    · exact Or.inl (Or.inr (Or.inl h1))
    · by_cases htC : t = C
      · subst htC
        obtain ⟨k, hk, -, -, e⟩ := forkMm_child_data h hPC hg hlen hp
        exact Or.inr (e ▸ List.getElem_mem hk)
      · refine Or.inl (Or.inr (Or.inr ⟨t, p, ht.resolve_right htC, hp, ?_⟩))
        exact frame_other h hPC hg hlen htC p
  · rintro ((h1 | h1 | ⟨t, p, ht, hp, rfl⟩) | hf)
    · exact Or.inl h1
    · exact Or.inr (Or.inl h1)
    · have htC : t ≠ C := fun e => hC (e ▸ ht)
      exact Or.inr (Or.inr ⟨t, p, Or.inl ht, hp, (frame_other h hPC hg hlen htC p).symm⟩)
    · obtain ⟨k, hk, hp, rfl⟩ := mem_frames hlen hf
      obtain ⟨j, hj, hjk, -, e⟩ := forkMm_child_data h hPC hg hlen hp
      have hjk' : j = k := by omega
      subst hjk'
      exact Or.inr (Or.inr ⟨C, 264 + j, Or.inr rfl, hp, e.symm⟩)

theorem Mapped.fork (h : Mapped mm L) (hP : L P) (hC : ¬ L C) (hPC : P ≠ C) (hg : Grabbed mm fs)
    (hlen : fs.length = 20) : Mapped (forkMm P C fs mm) fun t => L t ∨ t = C := by
  have hoth := fun {t} (ht : t ≠ C) => forkMm_other h hPC hg hlen ht
  have hfr := fun {t} (ht : t ≠ C) p => frame_other h hPC hg hlen ht p
  have hdat := fun {p} (hp : DataPage p) => forkMm_child_data h hPC hg hlen hp
  -- the frame of a data page: an old one, or a grabbed one
  have hnew : ∀ p, DataPage p → (forkMm P C fs mm).frame C p ∈ fs := by
    intro p hp
    obtain ⟨k, hk, -, -, e⟩ := hdat hp
    exact e ▸ List.getElem_mem hk
  have hold : ∀ t p, L t → DataPage p → Owned mm L ((forkMm P C fs mm).frame t p) := by
    intro t p ht hp
    have htC : t ≠ C := fun e => hC (e ▸ ht)
    exact Or.inr (Or.inr ⟨t, p, ht, hp, hfr htC p⟩)
  refine ⟨?_, ?_, ?_, ?_, ?_, ?_, ?_, ?_, ?_⟩
  · intro t
    rw [(forkMm_frames hPC fs mm).1]
    exact h.dirs t
  · intro t p hp
    rw [forkMm_outside h hPC hg hlen t (by omega)]
    exact h.kernel t p hp
  · intro t p hp
    rw [forkMm_outside h hPC hg hlen t (by omega)]
    exact h.above t p hp
  · intro t ht i hi
    by_cases htC : t = C
    · subst htC
      unfold Mm.frame
      rw [forkMm_child_code h hP hPC hg hlen hi]
      refine ⟨rfl, rfl, ssEntry_frame ?_⟩
      unfold codeFrame
      omega
    · rw [hoth htC, hfr htC]
      exact h.code t (ht.resolve_right htC) i hi
  · intro t ht p hp
    by_cases htC : t = C
    · subst htC
      obtain ⟨k, hk, -, e, e'⟩ := hdat hp
      rw [e, e']
    · rw [hoth htC, hfr htC]
      exact h.data t (ht.resolve_right htC) p hp
  · intro t ht p hp
    by_cases htC : t = C
    · subst htC
      have hs := (hg.free _ (hnew p hp)).1
      exact ⟨hs.1, hs.2.1⟩
    · rw [hfr htC]
      exact h.range t (ht.resolve_right htC) p hp
  · intro t ht p hp i hi e
    by_cases htC : t = C
    · subst htC
      exact h.grabbed_ne hg (hnew p hp) (Or.inr (Or.inl ⟨i, hi, e⟩))
    · rw [hfr htC] at e
      exact h.noCode t (ht.resolve_right htC) p hp i hi e
  · intro t u ht hu p q hp hq e
    by_cases htC : t = C
    · by_cases huC : u = C
      · subst htC huC
        obtain ⟨j, hj, hpj, -, ej⟩ := hdat hp
        obtain ⟨k, hk, hqk, -, ek⟩ := hdat hq
        rw [ej, ek] at e
        have hjk : j = k := (List.Nodup.getElem_inj_iff hg.nodup).mp e
        exact ⟨rfl, by omega⟩
      · subst htC
        exact (h.grabbed_ne hg (e ▸ hnew p hp) (hold u q (hu.resolve_right huC) hq)).elim
    · by_cases huC : u = C
      · subst huC
        exact (h.grabbed_ne hg (e ▸ hnew q hq) (hold t p (ht.resolve_right htC) hp)).elim
      · rw [hfr htC, hfr huC] at e
        exact h.inj t u (ht.resolve_right htC) (hu.resolve_right huC) p q hp hq e
  · intro f hf
    rw [(forkMm_frames hPC fs mm).2]
    show (if f ∈ fs then _ else mm.physMem f) = _
    rcases (owned_fork_iff h hC hPC hg hlen f).mp hf with h1 | h1
    · by_cases hm : f ∈ fs
      · rw [if_pos hm]
      · rw [if_neg hm, h.used f h1]
    · rw [if_pos h1]

theorem Exact.fork (he : Exact mm L) (h : Mapped mm L) (hC : ¬ L C) (hPC : P ≠ C)
    (hg : Grabbed mm fs) (hlen : fs.length = 20) :
    Exact (forkMm P C fs mm) fun t => L t ∨ t = C := by
  intro f hf
  rw [(forkMm_frames hPC fs mm).2] at hf
  refine (owned_fork_iff h hC hPC hg hlen f).mpr ?_
  by_cases hm : f ∈ fs
  · exact Or.inr hm
  · have hf' : (if f ∈ fs then FrameMark.usedFrame else mm.physMem f) = .usedFrame := hf
    rw [if_neg hm] at hf'
    exact Or.inl (he f hf')

/-! ## exit -/

/-- a frame that the first `n` rounds of the loop of `sys_exit` give back -/
def Freed (mm : Mm) (t : Task) (n f : Nat) : Prop :=
  (∃ i, i < n ∧ f = mm.frame t (264 + i)) ∧ 256 < f ∧ f < 1024

theorem freed_succ {mm : Mm} {t : Task} {n f : Nat} :
    Freed mm t (n + 1) f ↔ Freed mm t n f ∨ (f = mm.frame t (264 + n) ∧ 256 < f ∧ f < 1024) := by
  constructor
  · rintro ⟨⟨i, hi, hfi⟩, hr⟩
    by_cases hin : i = n
    · exact Or.inr ⟨hin ▸ hfi, hr⟩
    · exact Or.inl ⟨⟨i, by omega, hfi⟩, hr⟩
  · rintro (⟨⟨i, hi, hfi⟩, hr⟩ | ⟨hfn, hr⟩)
    · exact ⟨⟨i, by omega, hfi⟩, hr⟩
    · exact ⟨⟨n, Nat.lt_succ_self n, hfn⟩, hr⟩

/-- the loop of `sys_exit` writes the byte map only -/
theorem freeData_apply (t : Task) (mm : Mm) :
    (freeData t mm).dirPages = mm.dirPages ∧ (freeData t mm).pagusrTable = mm.pagusrTable ∧
      ∀ f, (Freed mm t 20 f → (freeData t mm).physMem f = .freeFrame) ∧
        (¬ Freed mm t 20 f → (freeData t mm).physMem f = mm.physMem f) := by
  unfold freeData
  refine forUp_rule (I := fun n (m : Mm) => m.dirPages = mm.dirPages ∧
    m.pagusrTable = mm.pagusrTable ∧ ∀ f, (Freed mm t n f → m.physMem f = .freeFrame) ∧
      (¬ Freed mm t n f → m.physMem f = mm.physMem f)) ?_ ?_
  · refine ⟨rfl, rfl, fun f => ⟨?_, fun _ => rfl⟩⟩
    rintro ⟨⟨i, hi, -⟩, -⟩
    exact absurd hi (Nat.not_lt_zero i)
  · rintro n m hn ⟨h1, h2, h3⟩
    have hf : getFrame m t (264 + n) = mm.frame t (264 + n) := by
      unfold getFrame Mm.frame
      rw [h2]
    dsimp only
    rw [freeFrame_apply]
    refine ⟨h1, h2, fun f => ?_⟩
    show (_ → (if f = getFrame m t (264 + n) ∧ 256 < f ∧ f < 1024 then FrameMark.freeFrame
      else m.physMem f) = _) ∧ (_ → (if f = getFrame m t (264 + n) ∧ 256 < f ∧ f < 1024
      then FrameMark.freeFrame else m.physMem f) = _)
    rw [hf, freed_succ]
    by_cases hn : f = mm.frame t (264 + n) ∧ 256 < f ∧ f < 1024
    · rw [if_pos hn]
      exact ⟨fun _ => rfl, fun hx => absurd (Or.inr hn) hx⟩
    · rw [if_neg hn]
      exact ⟨fun hx => (h3 f).1 (hx.resolve_right hn), fun hx => (h3 f).2 fun h => hx (Or.inl h)⟩

theorem Mapped.freed_iff (h : Mapped mm L) {t : Task} (ht : L t) (f : Nat) :
    Freed mm t 20 f ↔ ∃ p, DataPage p ∧ f = mm.frame t p := by
  constructor
  · rintro ⟨⟨i, hi, e⟩, -⟩
    exact ⟨264 + i, ⟨by omega, by omega⟩, e⟩
  · rintro ⟨p, hp, rfl⟩
    have h1 := h.range t ht p hp
    have h2 := h.noCode t ht p hp 0 (by decide)
    unfold codeFrame at h2
    refine ⟨⟨p - 264, ?_, ?_⟩, by omega, h1.2⟩
    · unfold DataPage at hp
      omega
    · rw [Nat.add_sub_cancel' hp.1]

theorem owned_exit_iff (h : Mapped mm L) {t : Task} (ht : L t) (f : Nat) :
    Owned (freeData t mm) (fun u => L u ∧ u ≠ t) f ↔
      Owned mm L f ∧ ¬ ∃ p, DataPage p ∧ f = mm.frame t p := by
  have hfr : ∀ u p, (freeData t mm).frame u p = mm.frame u p := by
    intro u p
    unfold Mm.frame
    rw [(freeData_apply t mm).2.1]
  constructor
  · rintro (h1 | ⟨i, hi, h1⟩ | ⟨u, p, ⟨hu, hut⟩, hp, h1⟩)
    · refine ⟨Or.inl h1, ?_⟩
      rintro ⟨p, hp, rfl⟩
      have h2 := (h.range t ht p hp).1
      omega
    · refine ⟨Or.inr (Or.inl ⟨i, hi, h1⟩), ?_⟩
      rintro ⟨p, hp, rfl⟩
      exact h.noCode t ht p hp i hi h1
    · rw [hfr] at h1
      refine ⟨Or.inr (Or.inr ⟨u, p, hu, hp, h1⟩), ?_⟩
      rintro ⟨q, hq, h2⟩
      exact hut (h.inj u t hu ht p q hp hq (h1.symm.trans h2)).1
  · rintro ⟨h1 | h1 | ⟨u, p, hu, hp, h1⟩, h2⟩
    · exact Or.inl h1
    · exact Or.inr (Or.inl h1)
    · refine Or.inr (Or.inr ⟨u, p, ⟨hu, ?_⟩, hp, (hfr u p).symm ▸ h1⟩)
      rintro rfl
      exact h2 ⟨p, hp, h1⟩

theorem Mapped.exit (h : Mapped mm L) {t : Task} (ht : L t) :
    Mapped (freeData t mm) fun u => L u ∧ u ≠ t := by
  obtain ⟨h1, h2, h3⟩ := freeData_apply t mm
  have hfr : ∀ u p, (freeData t mm).frame u p = mm.frame u p := by
    intro u p
    unfold Mm.frame
    rw [h2]
  refine ⟨?_, ?_, ?_, ?_, ?_, ?_, ?_, ?_, ?_⟩
  · rw [h1]
    exact h.dirs
  · rw [h2]
    exact h.kernel
  · rw [h2]
    exact h.above
  · intro u hu i hi
    rw [h2, hfr]
    exact h.code u hu.1 i hi
  · intro u hu p hp
    rw [h2, hfr]
    exact h.data u hu.1 p hp
  · intro u hu p hp
    rw [hfr]
    exact h.range u hu.1 p hp
  · intro u hu p hp i hi
    rw [hfr]
    exact h.noCode u hu.1 p hp i hi
  · intro u v hu hv p q hp hq
    rw [hfr, hfr]
    exact h.inj u v hu.1 hv.1 p q hp hq
  · intro f hf
    obtain ⟨h4, h5⟩ := (owned_exit_iff h ht f).mp hf
    rw [(h3 f).2 fun hx => h5 ((h.freed_iff ht f).mp hx), h.used f h4]

theorem Exact.exit (he : Exact mm L) (h : Mapped mm L) {t : Task} (ht : L t) :
    Exact (freeData t mm) fun u => L u ∧ u ≠ t := by
  intro f hf
  refine (owned_exit_iff h ht f).mpr ?_
  have h1 := (freeData_apply t mm).2.2 f
  by_cases hx : Freed mm t 20 f
  · rw [h1.1 hx] at hf
    cases hf
  · rw [h1.2 hx] at hf
    exact ⟨he f hf, fun hp => hx ((h.freed_iff ht f).mpr hp)⟩

/-! ## counting -/

theorem card_scanned : ((Finset.range 1024).filter Scanned).card = 384 := by decide +kernel

/-- eight frames of code and twenty for each task: all others can be given out -/
theorem Exact.card_le (he : Exact mm L) (S : Finset Task) (hS : ∀ t, L t → t ∈ S) :
    376 ≤ (freeEven mm.physMem).card + 20 * S.card := by
  classical
  let code := (Finset.range 8).image codeFrame
  let data := (S ×ˢ Finset.range 20).image fun x => mm.frame x.1 (264 + x.2)
  have hsub : (Finset.range 1024).filter Scanned ⊆ freeEven mm.physMem ∪ (code ∪ data) := by
    intro f hf
    have hs : Scanned f := (Finset.mem_filter.mp hf).2
    rw [Finset.mem_union]
    by_cases hm : mm.physMem f = .freeFrame
    · exact Or.inl (mem_freeEven.mpr ⟨hs, hm⟩)
    · refine Or.inr (Finset.mem_union.mpr ?_)
      rcases he f (ne_free.mp hm) with h1 | ⟨i, hi, h1⟩ | ⟨t, p, ht, hp, h1⟩
      · exact absurd h1 (Nat.not_lt.mpr hs.1)
      · exact Or.inl (Finset.mem_image.mpr ⟨i, Finset.mem_range.mpr hi, h1.symm⟩)
      · refine Or.inr (Finset.mem_image.mpr ⟨(t, p - 264), ?_, ?_⟩)
        · refine Finset.mem_product.mpr ⟨hS t ht, Finset.mem_range.mpr ?_⟩
          unfold DataPage at hp
          show p - 264 < 20
          omega
        · show mm.frame t (264 + (p - 264)) = f
          rw [Nat.add_sub_cancel' hp.1, h1]
  have h1 := Finset.card_le_card hsub
  rw [card_scanned] at h1
  have h2 : (freeEven mm.physMem ∪ (code ∪ data)).card ≤ (freeEven mm.physMem).card +
      (code.card + data.card) :=
    (Finset.card_union_le _ _).trans (Nat.add_le_add_left (Finset.card_union_le _ _) _)
  have h3 : code.card ≤ 8 := Finset.card_image_le.trans_eq (Finset.card_range 8)
  have h4 : data.card ≤ S.card * 20 := by
    refine Finset.card_image_le.trans_eq ?_
    rw [Finset.card_product, Finset.card_range]
  omega

end
end Zeos
