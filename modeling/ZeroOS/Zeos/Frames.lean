import Mathlib.Data.Finset.Card
import ZeroOS.Zeos.Sys

/-!
# Zeos: the frame allocator

* `freeEven m`       the frames `alloc_frame` can give: the free ones it looks at;
* `Grabbed mm fs`    the frames `fs` can all be given, one after the other;
* `grab mm fs`       the memory after that.

`allocFrame_spec` is one call.  `allocChildFrames_spec` is the loop (3.1) of `sys_fork`: it ends
with 20 grabbed frames, or, if there are fewer, with the memory it began with.
-/

set_option linter.unusedVariables false

namespace Zeos
open Programs

/-- a frame that the search of `alloc_frame` looks at -/
def Scanned (f : Nat) : Prop := 256 ≤ f ∧ f < 1024 ∧ f % 2 = 0

instance (f : Nat) : Decidable (Scanned f) := inferInstanceAs (Decidable (_ ∧ _))

def freeEven (m : Nat → FrameMark) : Finset Nat :=
  (Finset.range 1024).filter fun f => Scanned f ∧ m f = .freeFrame

theorem mem_freeEven {m : Nat → FrameMark} {f : Nat} :
    f ∈ freeEven m ↔ Scanned f ∧ m f = .freeFrame := by
  unfold freeEven
  rw [Finset.mem_filter, Finset.mem_range]
  exact ⟨fun h => h.2, fun h => ⟨h.1.2.1, h⟩⟩

theorem ne_free {x : FrameMark} : x ≠ .freeFrame ↔ x = .usedFrame := by
  cases x <;> simp

theorem initFrames_physMem (mm : Mm) (f : Nat) : (initFrames mm).physMem f =
    if f < 256 then .usedFrame else if f < 1024 then .freeFrame else mm.physMem f := by
  have hfill : ∀ (m : Nat → FrameMark) (v : FrameMark) (n : Nat),
      forUp (fun i m => Function.update m i v) n m f = if f < n then v else m f := by
    intro m v n
    have h := forUp_update m (fun _ => v) 0 n f
    simpa using h
  show forUp (fun i m => Function.update m i FrameMark.usedFrame) 256
    (forUp (fun i m => Function.update m i FrameMark.freeFrame) 1024 mm.physMem) f = _
  rw [hfill, hfill]

/-! ## one frame -/

/-- the search from the even frame `i` ends at the first free frame, if `n` rounds are enough -/
theorem allocScan_spec (m : Nat → FrameMark) :
    ∀ n i, i % 2 = 0 → 1024 ≤ i + 2 * n →
      match allocScan m n i with
      | some f => i ≤ f ∧ f < 1024 ∧ f % 2 = 0 ∧ m f = .freeFrame ∧
          ∀ g, i ≤ g → g < f → g % 2 = 0 → m g ≠ .freeFrame
      | none => ∀ g, i ≤ g → g < 1024 → g % 2 = 0 → m g ≠ .freeFrame := by
  intro n
  induction n with
  | zero =>
    intro i _ hn g h1 h2
    omega
  | succ n ih =>
    intro i hi hn
    unfold allocScan
    by_cases hlt : i < totalPages
    · rw [if_pos hlt]
      by_cases hm : m i = .freeFrame
      · rw [if_pos hm]
        exact ⟨le_rfl, hlt, hi, hm, fun g h1 h2 => by omega⟩
      · rw [if_neg hm]
        have h := ih (i + 2) (by omega) (by omega)
        -- the frames from `i` on that are looked at are `i` and those from `i + 2` on
        have hstep : ∀ g, i ≤ g → g % 2 = 0 → (i + 2 ≤ g → m g ≠ .freeFrame) →
            m g ≠ .freeFrame := by
          intro g h1 h2 h3
          by_cases e : g = i
          · exact e ▸ hm
          · exact h3 (by omega)
        cases hs : allocScan m n (i + 2) with
        | some f =>
          rw [hs] at h
          obtain ⟨h1, h2, h3, h4, h5⟩ := h
          exact ⟨by omega, h2, h3, h4, fun g g1 g2 g3 => hstep g g1 g3 fun g4 => h5 g g4 g2 g3⟩
        | none =>
          rw [hs] at h
          exact fun g g1 g2 g3 => hstep g g1 g3 fun g4 => h g g4 g2 g3
    · rw [if_neg hlt]
      intro g h1 h2
      simp only [totalPages] at hlt
      omega

theorem allocFrame_spec (mm : Mm) :
    (∃ f, Scanned f ∧ mm.physMem f = .freeFrame ∧
        (∀ g, Scanned g → g < f → mm.physMem g ≠ .freeFrame) ∧
        allocFrame mm = ((f : Int), { mm with physMem := Function.update mm.physMem f .usedFrame })) ∨
      ((∀ f, Scanned f → mm.physMem f ≠ .freeFrame) ∧ allocFrame mm = (-1, mm)) := by
  have h := allocScan_spec mm.physMem totalPages numPagKernel (by decide) (by decide)
  unfold allocFrame
  cases hs : allocScan mm.physMem totalPages numPagKernel with
  | some f =>
    rw [hs] at h
    obtain ⟨h1, h2, h3, h4, h5⟩ := h
    exact Or.inl ⟨f, ⟨h1, h2, h3⟩, h4, fun g hg hgf => h5 g hg.1 hgf hg.2.2, rfl⟩
  | none =>
    rw [hs] at h
    exact Or.inr ⟨fun f hf => h f hf.1 hf.2.1 hf.2.2, rfl⟩

/-! ## many frames -/

structure Grabbed (mm : Mm) (fs : List Nat) : Prop where
  nodup : fs.Nodup
  free : ∀ f ∈ fs, Scanned f ∧ mm.physMem f = .freeFrame

def grab (mm : Mm) (fs : List Nat) : Mm :=
  { mm with physMem := fun f => if f ∈ fs then .usedFrame else mm.physMem f }

@[simp] theorem grab_dirPages (mm : Mm) (fs : List Nat) : (grab mm fs).dirPages = mm.dirPages := rfl
@[simp] theorem grab_pagusrTable (mm : Mm) (fs : List Nat) :
    (grab mm fs).pagusrTable = mm.pagusrTable := rfl

theorem grab_nil (mm : Mm) : grab mm [] = mm := by
  unfold grab
  simp

theorem grab_snoc (mm : Mm) (fs : List Nat) (f : Nat) :
    { grab mm fs with physMem := Function.update (grab mm fs).physMem f .usedFrame } =
      grab mm (fs ++ [f]) := by
  refine Mm.ext rfl rfl (funext fun g => ?_)
  simp only [grab, Function.update_apply, List.mem_append, List.mem_singleton]
  by_cases hg : g = f <;> simp [hg]

theorem Grabbed.snoc {mm : Mm} {fs : List Nat} (h : Grabbed mm fs) {f : Nat} (hf : Scanned f)
    (hm : (grab mm fs).physMem f = .freeFrame) : Grabbed mm (fs ++ [f]) := by
  have hfs : f ∉ fs ∧ mm.physMem f = .freeFrame := by
    unfold grab at hm
    by_cases hmem : f ∈ fs
    · simp [hmem] at hm
    · exact ⟨hmem, by simpa [hmem] using hm⟩
  refine ⟨List.nodup_append.mpr ⟨h.nodup, by simp, ?_⟩, fun g hg => ?_⟩
  · intro a ha b hb
    rw [List.mem_singleton.mp hb]
    exact fun e => hfs.1 (e ▸ ha)
  · rcases List.mem_append.mp hg with hg | hg
    · exact h.free g hg
    · rw [List.mem_singleton.mp hg]
      exact ⟨hf, hfs.2⟩

theorem Grabbed.length_le {mm : Mm} {fs : List Nat} (h : Grabbed mm fs) :
    fs.length ≤ (freeEven mm.physMem).card := by
  rw [← List.toFinset_card_of_nodup h.nodup]
  exact Finset.card_le_card fun f hf => mem_freeEven.mpr (h.free f (List.mem_toFinset.mp hf))

/-- when no frame is left, all of the free ones are grabbed -/
theorem Grabbed.card_le {mm : Mm} {fs : List Nat}
    (hn : ∀ f, Scanned f → (grab mm fs).physMem f ≠ .freeFrame) :
    (freeEven mm.physMem).card ≤ fs.length := by
  refine (Finset.card_le_card fun f hf => ?_).trans (List.toFinset_card_le fs)
  obtain ⟨h1, h2⟩ := mem_freeEven.mp hf
  rw [List.mem_toFinset]
  by_contra hmem
  refine hn f h1 ?_
  unfold grab
  simpa [hmem] using h2

/-! ## giving frames back -/

theorem freeFrame_apply (mm : Mm) (frame : Nat) :
    freeFrame mm frame = { mm with physMem := fun f =>
      (if f = frame ∧ 256 < f ∧ f < 1024 then .freeFrame else mm.physMem f) } := by
  unfold freeFrame
  by_cases h : frame > numPagKernel ∧ frame < totalPages
  · rw [if_pos h]
    congr 1
    funext f
    rw [Function.update_apply]
    by_cases hf : f = frame
    · subst hf
      have h' : 256 < f ∧ f < 1024 := h
      simp [h']
    · simp [hf]
  · rw [if_neg h]
    have h' : ∀ f, ¬ (f = frame ∧ 256 < f ∧ f < 1024) := by
      rintro f ⟨rfl, h1⟩
      exact h h1
    simp [h']

theorem freeFrames_apply (fs : List Int) (mm : Mm) :
    freeFrames fs mm = { mm with physMem := fun f =>
      (if f ∈ fs.map uint32 ∧ 256 < f ∧ f < 1024 then .freeFrame else mm.physMem f) } := by
  induction fs generalizing mm with
  | nil => simp [freeFrames]
  | cons a fs ih =>
    rw [freeFrames, ih, freeFrame_apply]
    congr 1
    funext f
    simp only [List.map_cons, List.mem_cons]
    by_cases h1 : 256 < f ∧ f < 1024
    · by_cases h2 : f ∈ fs.map uint32 <;> simp only [h1, h2] <;> simp
    · simp only [h1, and_false, if_false]

theorem uint32_natCast {f : Nat} (hf : f < 1024) : uint32 (f : Int) = f := by
  unfold uint32
  omega

theorem map_uint32 {mm : Mm} {fs : List Nat} (h : Grabbed mm fs) :
    (fs.map fun f : Nat => (f : Int)).map uint32 = fs := by
  rw [List.map_map]
  conv_rhs => rw [← List.map_id fs]
  exact List.map_congr_left fun f hf => uint32_natCast (h.free f hf).1.2.1

/-- the rollback of `sys_fork`: `-1` is no frame, and frame 256 is not among the others -/
theorem freeFrames_grab {mm : Mm} {fs : List Nat} (h : Grabbed mm fs)
    (h256 : mm.physMem 256 ≠ .freeFrame) :
    freeFrames ((fs.map fun f : Nat => (f : Int)) ++ [-1]).reverse (grab mm fs) = mm := by
  rw [freeFrames_apply]
  refine Mm.ext rfl rfl (funext fun f => ?_)
  show (if f ∈ (((fs.map fun f : Nat => (f : Int)) ++ [-1]).reverse).map uint32 ∧ 256 < f ∧ f < 1024
    then FrameMark.freeFrame else if f ∈ fs then .usedFrame else mm.physMem f) = mm.physMem f
  simp only [List.map_reverse, List.mem_reverse, List.map_append, map_uint32 h, List.mem_append]
  by_cases hf : f ∈ fs
  · obtain ⟨hs, hm⟩ := h.free f hf
    have h1 : f ≠ 256 := fun e => h256 (e ▸ hm)
    have h2 : 256 < f ∧ f < 1024 := by
      unfold Scanned at hs
      omega
    simp [hf, h2, hm]
  · have h2 : ¬ (f ∈ ([-1] : List Int).map uint32 ∧ 256 < f ∧ f < 1024) := by
      rintro ⟨h1, h2⟩
      have h3 : f = uint32 (-1) := by simpa using h1
      rw [h3] at h2
      exact absurd h2.2 (by decide)
    simp only [hf, false_or, if_false]
    rw [if_neg h2]

/-- **The loop (3.1).**  It gets its frames if that many can be given, and otherwise gives
everything back. -/
theorem allocChildFrames_spec {mm : Mm} (h256 : mm.physMem 256 ≠ .freeFrame) :
    ∀ n fs, Grabbed mm fs →
      match allocChildFrames n (fs.map fun f : Nat => (f : Int)) (grab mm fs) with
      | .ok (childFrames, mm') => ∃ gs, gs.length = n ∧ Grabbed mm (fs ++ gs) ∧
          childFrames = (fs ++ gs).map (fun f : Nat => (f : Int)) ∧ mm' = grab mm (fs ++ gs)
      | .error mm' => mm' = mm ∧ (freeEven mm.physMem).card < fs.length + n := by
  intro n
  induction n with
  | zero =>
    intro fs h
    refine ⟨[], rfl, ?_, ?_, ?_⟩
    · rwa [List.append_nil]
    · rw [List.append_nil]
    · rw [List.append_nil]
  | succ n ih =>
    intro fs h
    unfold allocChildFrames
    rcases allocFrame_spec (grab mm fs) with ⟨f, hf, hm, -, hr⟩ | ⟨hn, hr⟩
    · have hf1 : (f : Int) ≠ -1 := by omega
      rw [hr]
      dsimp only
      rw [if_neg hf1, grab_snoc]
      have hc := ih (fs ++ [f]) (h.snoc hf hm)
      rw [List.map_append] at hc
      change match allocChildFrames n ((fs.map fun f : Nat => (f : Int)) ++ [(f : Int)]) _ with
        | .ok (childFrames, mm') => _ | .error mm' => _ at hc
      cases hr' : allocChildFrames n ((fs.map fun f : Nat => (f : Int)) ++ [(f : Int)])
          (grab mm (fs ++ [f])) with
      | ok a =>
        rw [hr'] at hc
        obtain ⟨gs, h1, h2, h3, h4⟩ := hc
        have e : fs ++ [f] ++ gs = fs ++ f :: gs := by simp
        exact ⟨f :: gs, by simp [h1], e ▸ h2, e ▸ h3, e ▸ h4⟩
      | error mm' =>
        rw [hr'] at hc
        have e : (fs ++ [f]).length + n = fs.length + (n + 1) := by
          rw [List.length_append, List.length_singleton]
          omega
        exact ⟨hc.1, e ▸ hc.2⟩
    · rw [hr]
      dsimp only
      rw [if_pos rfl]
      have hc := Grabbed.card_le hn
      exact ⟨freeFrames_grab h h256, by omega⟩

/-- the whole loop of `sys_fork` -/
theorem allocChildFrames_cases {mm : Mm} (h256 : mm.physMem 256 ≠ .freeFrame) (n : Nat) :
    (n ≤ (freeEven mm.physMem).card ∧ ∃ fs, fs.length = n ∧ Grabbed mm fs ∧
        allocChildFrames n [] mm = .ok (fs.map (fun f : Nat => (f : Int)), grab mm fs)) ∨
      ((freeEven mm.physMem).card < n ∧ allocChildFrames n [] mm = .error mm) := by
  have h := allocChildFrames_spec h256 n [] ⟨List.nodup_nil, by simp⟩
  rw [List.map_nil, grab_nil] at h
  cases hr : allocChildFrames n [] mm with
  | ok a =>
    rw [hr] at h
    obtain ⟨gs, h1, h2, h3, h4⟩ := h
    rw [List.nil_append] at h2 h3 h4
    exact Or.inl ⟨h1 ▸ h2.length_le, gs, h1, h2, congrArg _ (Prod.ext h3 h4)⟩
  | error mm' =>
    rw [hr] at h
    rw [List.length_nil, Nat.zero_add] at h
    exact Or.inr ⟨h.2, congrArg _ h.1⟩

end Zeos
