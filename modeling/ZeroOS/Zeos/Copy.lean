import ZeroOS.Zeos.Space

/-!
# Zeos: kernel copies through a page table

`Maps mm dir lo hi` says that the directory `dir` maps the pages from `lo` up to `hi` to distinct
frames.  Kernel code can then use these addresses as a memory (`kernelBus_window`).
`forkWindow_copy` is the copy (3) of `sys_fork`: the new frames get the bytes of the parent's data
pages, and no other byte of memory changes.
-/

set_option linter.unusedVariables false

namespace Zeos
open Programs

def physOf (mm : Mm) (dir : Task) (a : Nat) : Nat :=
  (mm.pagusrTable (mm.dirPages dir) (a / 4096)).pbaseAddr * 4096 + a % 4096

structure Maps (mm : Mm) (dir : Task) (lo hi : Nat) : Prop where
  lt : hi ≤ 1024
  present : ∀ p, lo ≤ p → p < hi → (mm.pagusrTable (mm.dirPages dir) p).present = true
  inj : ∀ p q, lo ≤ p → p < hi → lo ≤ q → q < hi →
    (mm.pagusrTable (mm.dirPages dir) p).pbaseAddr =
      (mm.pagusrTable (mm.dirPages dir) q).pbaseAddr → p = q

section
variable {mm : Mm} {dir : Task} {lo hi : Nat}

theorem Maps.mmu (h : Maps mm dir lo hi) {s : State} (hm : s.mm = mm) (hc : s.cr3 = dir) {a : Nat}
    (h1 : lo * 4096 ≤ a) (h2 : a < hi * 4096) : Zeos.mmu s (a % 2 ^ 32) = some (physOf mm dir a) := by
  have hlt := h.lt
  have e : a % 2 ^ 32 = a := by omega
  rw [e]
  refine translate_eq_some.mpr ⟨by omega, ?_, ?_⟩
  · rw [hm, hc]
    exact h.present _ (by omega) (by omega)
  · rw [hm, hc]
    rfl

theorem Maps.phys_inj (h : Maps mm dir lo hi) {a b : Nat} (h1 : lo * 4096 ≤ a) (h2 : a < hi * 4096)
    (h3 : lo * 4096 ≤ b) (h4 : b < hi * 4096) (e : physOf mm dir a = physOf mm dir b) : a = b := by
  unfold physOf at e
  have hp := h.inj (a / 4096) (b / 4096) (by omega) (by omega) (by omega) (by omega) (by omega)
  omega

/-- a store to a mapped page, seen through the mapping -/
theorem Maps.update_apply (h : Maps mm dir lo hi) (mem : Nat → Byte) (x : Byte) {a b : Nat}
    (h1 : lo * 4096 ≤ a ∧ a < hi * 4096) (h2 : lo * 4096 ≤ b ∧ b < hi * 4096) :
    Function.update mem (physOf mm dir a) x (physOf mm dir b) =
      if b = a then x else mem (physOf mm dir b) := by
  rw [Function.update_apply]
  by_cases hab : b = a
  · rw [if_pos hab, hab, if_pos rfl]
  · rw [if_neg hab, if_neg fun e => hab (h.phys_inj h2.1 h2.2 h1.1 h1.2 e)]

/-- the mapped pages are a memory -/
theorem kernelBus_window (h : Maps mm dir lo hi) :
    Window kernelBus (fun a => lo * 4096 ≤ a ∧ a < hi * 4096)
      (fun a => lo * 4096 ≤ a ∧ a < hi * 4096)
      (fun s => s.mm = mm ∧ s.cr3 = dir) (fun s a => s.mem (physOf mm dir a)) (fun _ s => s)
      (fun a x s => s.setMem (Function.update s.mem (physOf mm dir a) x)) := by
  refine ⟨?_, ?_, fun _ _ hs _ => hs, fun _ _ _ hs _ => hs, fun _ _ _ _ _ _ => rfl, ?_⟩
  · intro a s hs ha
    show kernelLoad a s = _
    unfold kernelLoad
    rw [h.mmu hs.1 hs.2 ha.1 ha.2]
  · intro a x s hs ha
    show kernelStore a x s = _
    unfold kernelStore
    rw [h.mmu hs.1 hs.2 ha.1 ha.2]
  · intro a x s b _ ha hb
    show Function.update s.mem (physOf mm dir a) x (physOf mm dir b) = _
    exact h.update_apply s.mem x ha (hb.elim id id)

end

/-! ## the copy of fork -/

section
variable {mm : Mm} {L : Task → Prop} {P C : Task} {fs : List Nat}

/-- the frames of the parent's data pages and of its window -/
theorem window_frame (h : Mapped mm L) (hPC : P ≠ C) (hg : Grabbed mm fs) (hlen : fs.length = 20)
    {W : Mm} (hW : W = mapData P C (fs.map fun f : Nat => (f : Int)) (grab (mapCode P C mm) fs)) :
    W.dirPages P = P ∧ (∀ p, DataPage p → W.pagusrTable P p = mm.pagusrTable P p) ∧
      ∀ k (hk : k < fs.length), W.pagusrTable P (284 + k) = ssEntry fs[k] ∧
        W.frame P (284 + k) = fs[k] := by
  subst hW
  refine ⟨?_, fun p hp => ?_, fun k hk => ?_⟩
  · rw [(mapData_apply hPC _ _).1.dirPages, grab_dirPages, (mapCode_apply hPC mm).1.dirPages]
    exact h.dirs P
  · unfold DataPage at hp
    rw [window_apply hPC hg hlen, if_neg (by omega), if_neg fun e => hPC e.1,
      if_neg fun e => hPC e.1]
  · have e : 284 + k - 284 = k := Nat.add_sub_cancel_left 284 k
    have h1 : (mapData P C (fs.map fun f : Nat => (f : Int))
        (grab (mapCode P C mm) fs)).pagusrTable P (284 + k) = ssEntry fs[k] := by
      rw [window_apply hPC hg hlen, if_pos ⟨rfl, by omega, by omega⟩, e,
        List.getD_eq_getElem _ _ hk]
    refine ⟨h1, ?_⟩
    unfold Mm.frame
    rw [h1, ssEntry_frame (hg.free _ (List.getElem_mem hk)).1.2.1]

theorem window_maps (h : Mapped mm L) (hP : L P) (hPC : P ≠ C) (hg : Grabbed mm fs)
    (hlen : fs.length = 20) {W : Mm}
    (hW : W = mapData P C (fs.map fun f : Nat => (f : Int)) (grab (mapCode P C mm) fs)) :
    Maps W P 264 304 := by
  obtain ⟨hd, hold, hnew⟩ := window_frame h hPC hg hlen hW
  -- every page is a data page, or `284 + k`
  have hcase : ∀ p, 264 ≤ p → p < 304 → DataPage p ∨ ∃ k, k < fs.length ∧ p = 284 + k := by
    intro p h1 h2
    by_cases hp : p < 284
    · exact Or.inl ⟨h1, hp⟩
    · exact Or.inr ⟨p - 284, by omega, by omega⟩
  have hfold : ∀ p, DataPage p → (W.pagusrTable P p).pbaseAddr = mm.frame P p := by
    intro p hp
    rw [hold p hp]
    rfl
  have hne : ∀ p k (hk : k < fs.length), DataPage p → mm.frame P p ≠ fs[k] := fun p k hk hp e =>
    h.grabbed_ne hg (e ▸ List.getElem_mem hk) (Or.inr (Or.inr ⟨P, p, hP, hp, rfl⟩))
  refine ⟨by decide, fun p h1 h2 => ?_, fun p q h1 h2 h3 h4 e => ?_⟩
  · rw [hd]
    rcases hcase p h1 h2 with hp | ⟨k, hk, rfl⟩
    · rw [hold p hp, h.data P hP p hp]
      rfl
    · rw [(hnew k hk).1]
      rfl
  · rw [hd] at e
    rcases hcase p h1 h2 with hp | ⟨j, hj, rfl⟩
    · rcases hcase q h3 h4 with hq | ⟨k, hk, rfl⟩
      · rw [hfold p hp, hfold q hq] at e
        exact (h.inj P P hP hP p q hp hq e).2
      · rw [hfold p hp] at e
        exact absurd (e.trans (hnew k hk).2) (hne p k hk hp)
    · rcases hcase q h3 h4 with hq | ⟨k, hk, rfl⟩
      · rw [hfold q hq] at e
        exact absurd (e.symm.trans (hnew j hj).2) (hne q j hj hq)
      · have e' := ((hnew j hj).2.symm.trans e).trans (hnew k hk).2
        have hjk : j = k := (List.Nodup.getElem_inj_iff hg.nodup).mp e'
        rw [hjk]

/-- **The copy (3) of `sys_fork`.**  It ends, it fills the new frames with the parent's data
pages, and it writes nothing else. -/
theorem forkWindow_copy (h : Mapped mm L) (hP : L P) (hPC : P ≠ C) (hg : Grabbed mm fs)
    (hlen : fs.length = 20) {w : State}
    (hW : w.mm = mapData P C (fs.map fun f : Nat => (f : Int)) (grab (mapCode P C mm) fs))
    (hc : w.cr3 = P) :
    ∃ m, copyData kernelBus dirIni dirDest (numPagData * pageSize) w = .ok (w.setMem m) ∧
      (∀ k (hk : k < fs.length) o, o < 4096 →
        m (fs[k] * 4096 + o) = w.mem (mm.frame P (264 + k) * 4096 + o)) ∧
      ∀ x, x / 4096 ∉ fs → m x = w.mem x := by
  obtain ⟨hd, hold, hnew⟩ := window_frame h hPC hg hlen hW
  have hmaps := window_maps h hP hPC hg hlen hW
  have hsrc : ∀ k o, k < 20 → o < 4096 →
      physOf w.mm P (dirIni + (k * 4096 + o)) = mm.frame P (264 + k) * 4096 + o := by
    intro k o hk ho
    unfold physOf
    have h1 : (dirIni + (k * 4096 + o)) / 4096 = 264 + k := by
      simp only [dirIni, lUserStart, numPagCode, pageSize]
      omega
    have h2 : (dirIni + (k * 4096 + o)) % 4096 = o := by
      simp only [dirIni, lUserStart, numPagCode, pageSize]
      omega
    rw [h1, h2, hd, hold (264 + k) ⟨by omega, by omega⟩]
    rfl
  have hdst : ∀ k (hk : k < fs.length) o, o < 4096 →
      physOf w.mm P (dirDest + (k * 4096 + o)) = fs[k] * 4096 + o := by
    intro k hk o ho
    unfold physOf
    have h1 : (dirDest + (k * 4096 + o)) / 4096 = 284 + k := by
      simp only [dirDest, lUserStart, numPagCode, numPagData, pageSize]
      omega
    have h2 : (dirDest + (k * 4096 + o)) % 4096 = o := by
      simp only [dirDest, lUserStart, numPagCode, numPagData, pageSize]
      omega
    rw [h1, h2, hd]
    exact congrArg (fun f => f * 4096 + o) (hnew k hk).2
  have hin : ∀ i, i < 81920 → 264 * 4096 ≤ dirIni + i ∧ dirIni + i < 304 * 4096 := by
    intro i hi
    simp only [dirIni, lUserStart, numPagCode, pageSize]
    omega
  have hin' : ∀ i, i < 81920 → 264 * 4096 ≤ dirDest + i ∧ dirDest + i < 304 * 4096 := by
    intro i hi
    simp only [dirDest, lUserStart, numPagCode, numPagData, pageSize]
    omega
  -- only memory changes, and only in the new frames
  let J : State → Prop := fun s => ∃ m, s = w.setMem m ∧ ∀ x, x / 4096 ∉ fs → m x = w.mem x
  have hJp : ∀ i x s, i < 81920 → s.mm = w.mm ∧ s.cr3 = P → J s →
      J (s.setMem (Function.update s.mem (physOf w.mm P (dirDest + i)) x)) := by
    rintro i x s hi - ⟨m, rfl, hm⟩
    refine ⟨_, rfl, fun y hy => ?_⟩
    show Function.update m (physOf w.mm P (dirDest + i)) x y = w.mem y
    have hk : i / 4096 < fs.length := by omega
    have e : dirDest + i = dirDest + (i / 4096 * 4096 + i % 4096) := by omega
    rw [e, hdst _ hk _ (by omega), Function.update_apply, if_neg, hm y hy]
    rintro rfl
    refine hy ?_
    have e' : (fs[i / 4096] * 4096 + i % 4096) / 4096 = fs[i / 4096] := by omega
    rw [e']
    exact List.getElem_mem hk
  have hpq : dirDest ≤ dirIni ∨ dirIni + 81920 ≤ dirDest := Or.inr (by decide)
  obtain ⟨s', hr, -, ⟨m, rfl, hm⟩, hv⟩ := (kernelBus_window hmaps).copyLoop hin hin' hpq
    (s := w) ⟨rfl, hc⟩ J ⟨w.mem, rfl, fun _ _ => rfl⟩ (fun _ _ _ _ hJ => hJ) hJp
  refine ⟨m, hr, fun k hk o ho => ?_, hm⟩
  have h1 := hv _ (Or.inl (hin' (k * 4096 + o) (by omega)))
  have h2 : dirDest ≤ dirDest + (k * 4096 + o) ∧
      dirDest + (k * 4096 + o) < dirDest + 81920 := by omega
  rw [if_pos h2, Nat.add_sub_cancel_left, hsrc k o (by omega) ho, hdst k hk o ho] at h1
  exact h1

end
end Zeos
