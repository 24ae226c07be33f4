import ZeroOS.Lib.Runs
import ZeroOS.Zeos.Boot

/-!
# Zeos: the frame allocator over runs

`alloc_frame` and `free_frame` as a system of their own: the byte map, and beside it the frames
that are given out (`outstanding`).

* `Ledger mm O`        the byte map and the frames `O` given out agree;
* `Allocatable mm f`   enough calls of `alloc_frame` give the frame `f`;
* `frames_given_once`  **when nothing is given twice or lost**: as long as frame 256 is not freed.
-/

set_option linter.unusedVariables false

namespace Zeos
open Programs Runs

/-! ## the system -/

inductive FrameCall where
  | alloc
  | free (frame : Nat)
  deriving DecidableEq

/-- `free_frame` is called only on a frame that is given out. -/
def frameStep : Mm × Finset Nat → FrameCall → Option (Mm × Finset Nat)
  | (mm, outstanding), .alloc =>
    let r := allocFrame mm
    some (r.2, if r.1 = -1 then outstanding else insert (uint32 r.1) outstanding)
  | (mm, outstanding), .free frame =>
    if frame ∈ outstanding then some (freeFrame mm frame, outstanding.erase frame) else none

/-- the memory after `n` calls of `alloc_frame` -/
def allocs : Nat → Mm → Mm
  | 0, mm => mm
  | n + 1, mm => allocs n (allocFrame mm).2

def Allocatable (mm : Mm) (f : Nat) : Prop := ∃ n, (allocFrame (allocs n mm)).1 = f

/-- what can be asked of the allocator when the frames `outstanding` are given out -/
structure Allocates (x : Mm × Finset Nat) : Prop where
  /-- the next frame is one of the user frames, and is not given out -/
  fresh : (allocFrame x.1).1 ≠ -1 → ∃ f : Nat, (allocFrame x.1).1 = f ∧
    numPagKernel ≤ f ∧ f < totalPages ∧ f ∉ x.2
  kernel : ∀ f, f < numPagKernel → x.1.physMem f = .usedFrame
  /-- every frame that is not given out can be had -/
  back : ∀ f, Scanned f → f ∉ x.2 → Allocatable x.1 f
  full : (allocFrame x.1).1 = -1 → x.2.card = (totalPages - numPagKernel) / 2

/-! ## one call -/

section
variable {mm : Mm} {O : Finset Nat} {f : Nat}

/-- the byte map and the frames given out agree -/
structure Ledger (mm : Mm) (O : Finset Nat) : Prop where
  kernel : ∀ f, f < 256 → mm.physMem f = .usedFrame
  taken : ∀ f, f ∈ O → Scanned f ∧ mm.physMem f = .usedFrame
  free : ∀ f, Scanned f → f ∉ O → mm.physMem f = .freeFrame

theorem ledger_init (mm : Mm) : Ledger (initFrames mm) ∅ := by
  refine ⟨fun f hf => ?_, fun f hf => absurd hf (Finset.notMem_empty f), fun f hf _ => ?_⟩
  · rw [initFrames_physMem, if_pos hf]
  · have h1 : ¬ f < 256 := not_lt.mpr hf.1
    rw [initFrames_physMem, if_neg h1, if_pos hf.2.1]

theorem Ledger.alloc (h : Ledger mm O) (hf : Scanned f) :
    Ledger { mm with physMem := Function.update mm.physMem f .usedFrame } (insert f O) := by
  refine ⟨fun g hg => ?_, fun g hg => ?_, fun g hg hgO => ?_⟩
  · have hne : g ≠ f := fun e => absurd hf.1 (by omega)
    show Function.update mm.physMem f .usedFrame g = _
    rw [Function.update_apply, if_neg hne]
    exact h.kernel g hg
  · show Scanned g ∧ Function.update mm.physMem f .usedFrame g = _
    rw [Function.update_apply]
    by_cases e : g = f
    · rw [if_pos e, e]
      exact ⟨hf, rfl⟩
    · rw [if_neg e]
      exact h.taken g ((Finset.mem_insert.mp hg).resolve_left e)
  · have hne : g ≠ f := fun e => hgO (e ▸ Finset.mem_insert_self ..)
    show Function.update mm.physMem f .usedFrame g = _
    rw [Function.update_apply, if_neg hne]
    exact h.free g hg fun hmem => hgO (Finset.mem_insert_of_mem hmem)

/-- `free_frame` gives back every frame but 256 -/
theorem Ledger.release (h : Ledger mm O) (hf : f ∈ O) (hne : f ≠ 256) :
    Ledger (freeFrame mm f) (O.erase f) := by
  have hs := (h.taken f hf).1
  rw [freeFrame_apply]
  refine ⟨fun g hg => ?_, fun g hg => ?_, fun g hg hgO => ?_⟩
  · have hno : ¬ (g = f ∧ 256 < g ∧ g < 1024) := by omega
    show (if _ then _ else _) = _
    rw [if_neg hno]
    exact h.kernel g hg
  · obtain ⟨hgf, hg⟩ := Finset.mem_erase.mp hg
    show Scanned g ∧ (if _ then _ else _) = _
    rw [if_neg fun hc => hgf hc.1]
    exact h.taken g hg
  · show (if _ then _ else _) = _
    by_cases e : g = f
    · have h1 := hs.1
      have h2 := hs.2.1
      rw [if_pos ⟨e, by omega, by omega⟩]
    · rw [if_neg fun hc => e hc.1]
      exact h.free g hg fun hmem => hgO (Finset.mem_erase.mpr ⟨e, hmem⟩)

/-! ## what can be had -/

/-- `alloc_frame` frees nothing -/
theorem allocFrame_used (h : mm.physMem f = .usedFrame) :
    (allocFrame mm).2.physMem f = .usedFrame := by
  rcases allocFrame_spec mm with ⟨g, -, -, -, hr⟩ | ⟨-, hr⟩
  · rw [hr]
    show Function.update mm.physMem g .usedFrame f = _
    rw [Function.update_apply, h, ite_self]
  · rw [hr]
    exact h

theorem allocs_used (n : Nat) (h : mm.physMem f = .usedFrame) :
    (allocs n mm).physMem f = .usedFrame := by
  induction n generalizing mm with
  | zero => exact h
  | succ n ih => exact ih (allocFrame_used h)

/-- a frame that is free is given after the free ones below it -/
theorem allocatable_of_free (hf : Scanned f) (h : mm.physMem f = .freeFrame) :
    Allocatable mm f := by
  -- by the number of free frames below
  induction hn : ((freeEven mm.physMem).filter (· < f)).card using Nat.strongRecOn
    generalizing mm with
  | ind n ih =>
    rcases allocFrame_spec mm with ⟨g, hg, hm, hfirst, hr⟩ | ⟨hno, -⟩
    · by_cases e : g = f
      · refine ⟨0, ?_⟩
        show (allocFrame mm).1 = f
        rw [hr, e]
      · have hlt : g < f := by
          have hle : ¬ f < g := fun hfg => hfirst f hf hfg h
          omega
        let mm' : Mm := { mm with physMem := Function.update mm.physMem g .usedFrame }
        have hstep : (allocFrame mm).2 = mm' := congrArg Prod.snd hr
        have hfree : mm'.physMem f = .freeFrame := by
          show Function.update mm.physMem g .usedFrame f = _
          rw [Function.update_apply, if_neg (Ne.symm e)]
          exact h
        -- `g` is free no more
        have hless : ((freeEven mm'.physMem).filter (· < f)).card <
            ((freeEven mm.physMem).filter (· < f)).card := by
          refine Finset.card_lt_card (Finset.ssubset_iff_of_subset (fun x hx => ?_) |>.mpr
            ⟨g, Finset.mem_filter.mpr ⟨mem_freeEven.mpr ⟨hg, hm⟩, hlt⟩, fun hx => ?_⟩)
          · obtain ⟨hx1, hx2⟩ := Finset.mem_filter.mp hx
            obtain ⟨hs, hx3⟩ := mem_freeEven.mp hx1
            refine Finset.mem_filter.mpr ⟨mem_freeEven.mpr ⟨hs, ?_⟩, hx2⟩
            change Function.update mm.physMem g .usedFrame x = _ at hx3
            rw [Function.update_apply] at hx3
            by_cases hxg : x = g
            · rw [if_pos hxg] at hx3
              cases hx3
            · rwa [if_neg hxg] at hx3
          · obtain ⟨-, hx3⟩ := mem_freeEven.mp (Finset.mem_filter.mp hx).1
            change Function.update mm.physMem g .usedFrame g = _ at hx3
            rw [Function.update_self] at hx3
            cases hx3
        obtain ⟨k, hk⟩ := ih _ (hn ▸ hless) hfree rfl
        refine ⟨k + 1, ?_⟩
        show (allocFrame (allocs k (allocFrame mm).2)).1 = f
        rw [hstep]
        exact hk
    · exact absurd h (hno f hf)

theorem allocatable_iff (hf : Scanned f) : Allocatable mm f ↔ mm.physMem f = .freeFrame := by
  refine ⟨fun h => ?_, allocatable_of_free hf⟩
  obtain ⟨n, hn⟩ := h
  by_contra hne
  have hu := allocs_used n (ne_free.mp hne)
  rcases allocFrame_spec (allocs n mm) with ⟨g, -, hm, -, hr⟩ | ⟨-, hr⟩
  · rw [hr] at hn
    have e : g = f := Int.ofNat_inj.mp hn
    rw [e, hu] at hm
    cases hm
  · rw [hr] at hn
    have : (-1 : Int) = f := hn
    omega

theorem Ledger.allocates (h : Ledger mm O) : Allocates (mm, O) := by
  refine ⟨fun hne => ?_, h.kernel, fun f hf hfO => (allocatable_iff hf).mpr (h.free f hf hfO),
    fun he => ?_⟩
  · rcases allocFrame_spec mm with ⟨f, hf, hm, -, hr⟩ | ⟨-, hr⟩
    · refine ⟨f, congrArg Prod.fst hr, hf.1, hf.2.1, fun hfO => ?_⟩
      rw [(h.taken f hfO).2] at hm
      cases hm
    · exact absurd (congrArg Prod.fst hr) hne
  · -- no frame is free, so all of them are given out
    rcases allocFrame_spec mm with ⟨f, hf, hm, -, hr⟩ | ⟨hno, -⟩
    · have : (f : Int) = -1 := (congrArg Prod.fst hr).symm.trans he
      omega
    · have hO : O = (Finset.range 1024).filter Scanned := by
        ext f
        rw [Finset.mem_filter, Finset.mem_range]
        refine ⟨fun hf => ⟨(h.taken f hf).1.2.1, (h.taken f hf).1⟩, fun hf => ?_⟩
        by_contra hfO
        exact hno f hf.2 (h.free f hf.2 hfO)
      exact (congrArg Finset.card hO).trans card_scanned

/-! ## runs -/

/-- `alloc_frame` keeps the books -/
theorem Ledger.alloc_step (h : Ledger mm O) {x : Mm × Finset Nat}
    (hs : frameStep (mm, O) .alloc = some x) : Ledger x.1 x.2 := by
  rcases allocFrame_spec mm with ⟨f, hf, -, -, hr⟩ | ⟨-, hr⟩
  · have h1 : (f : Int) ≠ -1 := by omega
    simp only [frameStep, hr, if_neg h1, uint32_natCast hf.2.1, Option.some.injEq] at hs
    rw [← hs]
    exact h.alloc hf
  · simp only [frameStep, hr, if_true, Option.some.injEq] at hs
    rw [← hs]
    exact h

/-- frame 256 never comes back -/
theorem Ledger.lost (h : Ledger mm O) (hf : 256 ∈ O) :
    ¬ Allocates (freeFrame mm 256, O.erase 256) := by
  intro ha
  have hs := (h.taken 256 hf).1
  have hb := (allocatable_iff hs).mp (ha.back 256 hs (Finset.notMem_erase 256 O))
  rw [freeFrame_apply] at hb
  change (if 256 = 256 ∧ 256 < 256 ∧ 256 < 1024 then FrameMark.freeFrame else mm.physMem 256) = _
    at hb
  rw [if_neg (by decide), (h.taken 256 hf).2] at hb
  cases hb

theorem free_step {x : Mm × Finset Nat} (hs : frameStep (mm, O) (.free f) = some x) :
    f ∈ O ∧ x = (freeFrame mm f, O.erase f) := by
  simp only [frameStep] at hs
  by_cases hf : f ∈ O
  · rw [if_pos hf] at hs
    exact ⟨hf, (Option.some.inj hs).symm⟩
  · rw [if_neg hf] at hs
    cases hs

/-- **When nothing is given twice or lost.**  `free_frame` takes every frame back but the first
one that `alloc_frame` gives. -/
theorem frames_given_once (mm : Mm) (es : List FrameCall) :
    Always frameStep Allocates (initFrames mm, ∅) es ↔
      Guarded frameStep (fun _ e => e ≠ .free numPagKernel) (initFrames mm, ∅) es := by
  let I : Mm × Finset Nat → Prop := fun x => Allocates x → Ledger x.1 x.2
  have hI : I (initFrames mm, ∅) := fun _ => ledger_init mm
  have hboth : ∀ x e x', I x → Allocates x → frameStep x e = some x' →
      (Ledger x'.1 x'.2 ∧ e ≠ .free 256) ∨ (¬ Allocates x' ∧ e = .free 256) := by
    intro x e x' hx hP hs
    have h := hx hP
    cases e with
    | alloc => exact Or.inl ⟨h.alloc_step hs, by decide⟩
    | free f =>
      obtain ⟨hf, rfl⟩ := free_step hs
      by_cases e : f = 256
      · subst e
        exact Or.inr ⟨h.lost hf, rfl⟩
      · exact Or.inl ⟨h.release hf e, fun he => e (FrameCall.free.inj he)⟩
  refine always_iff_guarded hI (ledger_init mm).allocates (fun x e x' hx hP hs => ?_)
    (fun x e x' hx hP hs => ?_) es
  · intro hP'
    rcases hboth x e x' hx hP hs with ⟨h, -⟩ | ⟨hno, -⟩
    · exact h
    · exact absurd hP' hno
  · rcases hboth x e x' hx hP hs with ⟨h, hne⟩ | ⟨hno, he⟩
    · exact iff_of_true h.allocates hne
    · exact iff_of_false hno (not_not.mpr he)

/-- the first frame is given out and taken back -/
theorem frame_lost : ¬ Always frameStep Allocates
    (initFrames ⟨fun _ => 0, fun _ _ => .zero, fun _ => .freeFrame⟩, ∅) [.alloc, .free 256] := by
  intro h
  let mm := initFrames ⟨fun _ => 0, fun _ _ => .zero, fun _ => .freeFrame⟩
  have hl : Ledger mm ∅ := ledger_init _
  have hf : Filled mm 0 := initFrames_filled fun _ => rfl
  obtain ⟨mm', ha, -⟩ := allocFrame_filled hf (by decide)
  have h1 : frameStep (mm, ∅) .alloc = some (mm', {256}) := by
    simp only [frameStep, ha]
    rfl
  have h2 : frameStep (mm', {256}) (.free 256) = some (freeFrame mm' 256, ∅) := rfl
  exact (hl.alloc_step h1).lost (Finset.mem_singleton_self 256) ((h.2 _ h1).2 _ h2)

end
end Zeos
