import ZeroOS.Zeos.Frames
import ZeroOS.Zeos.Queues

/-!
# Zeos: `sys_fork`, path by path

* `mapCode_apply`, `mapData_apply`, `unmapData_apply`   the page tables after the loops (3.0),
  (3.2)/(3.3) and (3.4), entry by entry;
* `forkChild`    the state in which the frames are asked for: the PCB is taken and copied;
* `forkFailed`   the state after -ENOMEM;
* `forkWindow`   the state in which the data pages are copied: the window is mapped.

`sysFork_cases` says which of the three ends `sys_fork` takes.
-/

set_option linter.unusedVariables false

namespace Zeos
open Programs Rings Desks

/-! ## page tables -/

section
variable {P C : Task}

theorem setSsPag_apply (mm : Mm) (pt : Task) (page frame : Nat) (t : Task) (p : Nat) :
    (setSsPag mm pt page frame).pagusrTable t p =
      if t = pt ∧ p = page then ssEntry frame else mm.pagusrTable t p :=
  Mm.setEntry_apply ..

/-- two memories that differ in the page tables only -/
structure SameFrames (mm mm' : Mm) : Prop where
  dirPages : mm'.dirPages = mm.dirPages
  physMem : mm'.physMem = mm.physMem

/-- (3.0): the code pages of the child -/
theorem mapCode_apply (hPC : P ≠ C) (mm : Mm) :
    SameFrames mm (mapCode P C mm) ∧ ∀ t p, (mapCode P C mm).pagusrTable t p =
      if t = C ∧ 256 ≤ p ∧ p < 264 then ssEntry (mm.pagusrTable P p).pbaseAddr
      else mm.pagusrTable t p := by
  refine forUp_rule (I := fun n mm' => SameFrames mm mm' ∧ ∀ t p, mm'.pagusrTable t p =
    if t = C ∧ 256 ≤ p ∧ p < 256 + n then ssEntry (mm.pagusrTable P p).pbaseAddr
    else mm.pagusrTable t p) ⟨⟨rfl, rfl⟩, fun t p => ?_⟩ ?_
  · rw [if_neg (by omega)]
  · intro i mm' hi hI
    obtain ⟨⟨h1, h2⟩, h3⟩ := hI
    refine ⟨⟨h1, h2⟩, fun t p => ?_⟩
    have hf : getFrame mm' P (256 + i) = (mm.pagusrTable P (256 + i)).pbaseAddr := by
      unfold getFrame
      rw [h3, if_neg fun h => hPC h.1]
    show (setSsPag mm' C (i + 256) (getFrame mm' P (i + 256))).pagusrTable t p = _
    rw [Nat.add_comm i 256, setSsPag_apply, hf, h3]
    by_cases hC : t = C
    · simp only [hC, true_and]
      exact ite_range_succ (g := fun p => ssEntry (mm.pagusrTable P p).pbaseAddr) rfl
    · simp only [hC, false_and, if_false]

/-- (3.2) and (3.3): the same frames in the window of the parent and as the data of the child -/
theorem mapData_apply (hPC : P ≠ C) (fs : List Int) (mm : Mm) :
    SameFrames mm (mapData P C fs mm) ∧ ∀ t p, (mapData P C fs mm).pagusrTable t p =
      if t = P ∧ 284 ≤ p ∧ p < 304 then ssEntry (uint32 (fs.getD (p - 284) 0))
      else if t = C ∧ 264 ≤ p ∧ p < 284 then ssEntry (uint32 (fs.getD (p - 264) 0))
      else mm.pagusrTable t p := by
  refine forUp_rule (I := fun n mm' => SameFrames mm mm' ∧ ∀ t p, mm'.pagusrTable t p =
    if t = P ∧ 284 ≤ p ∧ p < 284 + n then ssEntry (uint32 (fs.getD (p - 284) 0))
    else if t = C ∧ 264 ≤ p ∧ p < 264 + n then ssEntry (uint32 (fs.getD (p - 264) 0))
    else mm.pagusrTable t p) ⟨⟨rfl, rfl⟩, fun t p => ?_⟩ ?_
  · rw [if_neg (by omega), if_neg (by omega)]
  · intro i mm' hi hI
    obtain ⟨⟨h1, h2⟩, h3⟩ := hI
    refine ⟨⟨h1, h2⟩, fun t p => ?_⟩
    -- the frame `i` goes to the page `264 + i` of the child and to `284 + i` of the parent
    have e0 : 256 + i - 256 = i := Nat.add_sub_cancel_left 256 i
    have e1 : 256 + i + 8 = 264 + i := by omega
    have e2 : 256 + i + (8 + 20) = 284 + i := by omega
    have e3 : ∀ k, ssEntry (uint32 (fs.getD i 0)) = ssEntry (uint32 (fs.getD (k + i - k) 0)) := by
      intro k
      rw [Nat.add_sub_cancel_left]
    simp only [numPagKernel, numPagCode, numPagData, setSsPag_apply, h3, e0, e1, e2]
    by_cases hC : t = C
    · subst hC
      have hP : ¬ t = P := fun e => hPC e.symm
      simp only [hP, false_and, if_false, true_and]
      exact ite_range_succ (g := fun p => ssEntry (uint32 (fs.getD (p - 264) 0))) (e3 264)
    · simp only [hC, false_and, if_false]
      by_cases hP : t = P
      · simp only [hP, true_and]
        exact ite_range_succ (g := fun p => ssEntry (uint32 (fs.getD (p - 284) 0))) (e3 284)
      · simp only [hP, false_and, if_false]

/-- (3.4) -/
theorem unmapData_apply (mm : Mm) :
    SameFrames mm (unmapData P mm) ∧ ∀ t p, (unmapData P mm).pagusrTable t p =
      if t = P ∧ 284 ≤ p ∧ p < 304 then .zero else mm.pagusrTable t p := by
  refine forUp_rule (I := fun n mm' => SameFrames mm mm' ∧ ∀ t p, mm'.pagusrTable t p =
    if t = P ∧ 284 ≤ p ∧ p < 284 + n then .zero else mm.pagusrTable t p)
    ⟨⟨rfl, rfl⟩, fun t p => ?_⟩ ?_
  · rw [if_neg (by omega)]
  · intro i mm' hi hI
    obtain ⟨⟨h1, h2⟩, h3⟩ := hI
    refine ⟨⟨h1, h2⟩, fun t p => ?_⟩
    have e : 256 + i + (8 + 20) = 284 + i := by omega
    simp only [numPagKernel, numPagCode, numPagData, delSsPag, Mm.setEntry_apply, h3, e]
    by_cases hP : t = P
    · simp only [hP, true_and]
      exact ite_range_succ (g := fun _ => PageTableEntry.zero) rfl
    · simp only [hP, false_and, if_false]

end

/-! ## the states on the way -/

/-- (1) and (2) -/
def forkStart (child : Task) (s : State) : State :=
  let s := actTicksUser2kernel s
  copyPCB s.current child (s.setLinks (listDel .null s.links (.list child)))

/-- after `allocate_DIR` -/
def forkChild (child : Task) (s : State) : State := (allocateDIR child (forkStart child s)).2

/-- the page tables when the frames are asked for -/
def forkCode (child : Task) (s : State) : Mm :=
  mapCode (getPT s s.current) (s.mm.dirPages child) s.mm

/-- the state after -ENOMEM -/
def forkFailed (child : Task) (s : State) : State :=
  actTicksKernel2user (freePCB child ((forkChild child s).setMm (forkCode child s)))

/-- the state in which the data pages are copied to the new frames `fs` -/
def forkWindow (child : Task) (fs : List Nat) (s : State) : State :=
  (forkChild child s).setMm (mapData (getPT s s.current) (s.mm.dirPages child)
    (fs.map fun f : Nat => (f : Int)) (grab (forkCode child s) fs))

section
variable (child : Task) (s : State)

theorem forkChild_current : (forkChild child s).current = s.current := rfl
theorem forkChild_idleTask : (forkChild child s).idleTask = s.idleTask := rfl
theorem forkChild_control : (forkChild child s).control = s.control := rfl
theorem forkChild_cr3 : (forkChild child s).cr3 = s.cr3 := rfl
theorem forkChild_mem : (forkChild child s).mem = s.mem := rfl
theorem forkChild_pidMax : (forkChild child s).pidMax = s.pidMax := rfl
theorem forkChild_cpuQuantum : (forkChild child s).cpuQuantum = s.cpuQuantum := rfl
theorem forkChild_tsc : (forkChild child s).tsc = s.tsc := rfl
theorem forkChild_reads : (forkChild child s).reads = s.reads + 1 := rfl

end

theorem copyPCB_task (parent child : Task) (s : State) (u : Task) :
    (copyPCB parent child s).task u = if u = child then s.task parent else s.task u :=
  State.setTask_task ..

theorem forkStart_task (child : Task) (s : State) (u : Task) :
    (forkStart child s).task u =
      if u = child then (actTicksUser2kernel s).task s.current else (actTicksUser2kernel s).task u :=
  copyPCB_task ..

theorem forkChild_task (child : Task) (s : State) (u : Task) :
    (forkChild child s).task u =
      if u = child then
        { (actTicksUser2kernel s).task s.current with dirPagesBaseAddr := child }
      else (actTicksUser2kernel s).task u := by
  unfold forkChild allocateDIR
  rw [State.setTask_task, forkStart_task, forkStart_task, if_pos rfl]
  by_cases h : u = child
  · rw [if_pos h, if_pos h]
  · rw [if_neg h, if_neg h, if_neg h]

section
variable {s : State} {d : Desk Task Queue} {child : Task} {rest : List Task}

theorem allocateDIR_getPT (child : Task) (s : State) :
    getPT (allocateDIR child s).2 child = s.mm.dirPages child := by
  show s.mm.dirPages _ = s.mm.dirPages _
  simp [getDIR, allocateDIR]

/-- `allocate_DIR` never fails -/
theorem allocateDIR_eq (child : Task) (s : State) :
    allocateDIR child s = (1, (allocateDIR child s).2) := rfl

theorem allocateDIR_mm (child : Task) (s : State) : (allocateDIR child s).2.mm = s.mm := rfl

theorem forkSpace_error {parent : Task} {mm : Mm}
    (h : allocChildFrames numPagData [] (mapCode (getPT s parent) (s.mm.dirPages child) s.mm) =
      .error mm) :
    forkSpace parent child s = .ok (-enomem,
      actTicksKernel2user (freePCB child ((allocateDIR child s).2.setMm mm))) := by
  unfold forkSpace
  dsimp only
  rw [allocateDIR_eq]
  dsimp only
  rw [if_neg (by decide), allocateDIR_getPT, allocateDIR_mm, h]

theorem forkSpace_ok {parent : Task} {fs : List Int} {mm : Mm}
    (h : allocChildFrames numPagData [] (mapCode (getPT s parent) (s.mm.dirPages child) s.mm) =
      .ok (fs, mm)) :
    forkSpace parent child s = (copyData kernelBus dirIni dirDest (numPagData * pageSize)
      ((allocateDIR child s).2.setMm (mapData (getPT s parent) (s.mm.dirPages child) fs mm))).bind
        fun s' => .ok (forkDone parent child (getPT s parent) s') := by
  unfold forkSpace
  dsimp only
  rw [allocateDIR_eq]
  dsimp only
  rw [if_neg (by decide), allocateDIR_getPT, allocateDIR_mm, h]

theorem Grabbed.congr {mm mm' : Mm} {fs : List Nat} (h : Grabbed mm fs)
    (hm : mm'.physMem = mm.physMem) : Grabbed mm' fs :=
  ⟨h.nodup, fun f hf => hm ▸ h.free f hf⟩

/-- **The three ends of `sys_fork`**: no PCB, not enough frames, or a copy of the data pages and
then a child. -/
theorem sysFork_cases (h : Rep s d) (hd : ∀ q, d.running ∉ d.queue q)
    (hT : ∀ t, t ≠ s.current → getPT s s.current ≠ s.mm.dirPages t)
    (h256 : s.mm.physMem 256 ≠ .freeFrame) :
    (d.queue .freequeue = [] ∧
        sysFork s = .ok (-eagain, actTicksKernel2user (actTicksUser2kernel s))) ∨
      ∃ child rest, d.queue .freequeue = child :: rest ∧ child ≠ s.current ∧
        (((freeEven s.mm.physMem).card < numPagData ∧
            sysFork s = .ok (-enomem, forkFailed child s)) ∨
          (numPagData ≤ (freeEven s.mm.physMem).card ∧
            ∃ fs, fs.length = numPagData ∧ Grabbed s.mm fs ∧
              sysFork s = (copyData kernelBus dirIni dirDest (numPagData * pageSize)
                (forkWindow child fs s)).bind fun s' =>
                  .ok (forkDone s.current child (getPT s s.current) s'))) := by
  unfold sysFork
  cases hq : d.queue .freequeue with
  | nil =>
    have he : listEmpty (actTicksUser2kernel s).links (.queue .freequeue) = true :=
      (h.linked.empty_iff _).mpr hq
    dsimp only
    rw [if_pos he]
    exact Or.inl ⟨rfl, rfl⟩
  | cons child rest =>
    have hc : child ≠ s.current := by
      rintro rfl
      exact hd .freequeue (by rw [← h.current, hq]; exact List.mem_cons_self)
    refine Or.inr ⟨child, rest, rfl, hc, ?_⟩
    have hne : ¬ listEmpty (actTicksUser2kernel s).links (.queue .freequeue) = true := by
      show ¬ listEmpty s.links (.queue .freequeue) = true
      rw [h.linked.empty_iff, hq]
      exact List.cons_ne_nil child rest
    have hL : Linked (actTicksUser2kernel s).links d.queue := h.linked
    dsimp only
    rw [if_neg hne, takeFirst_eq hL hq]
    show _ ∨ _
    have hP : getPT (forkStart child s) s.current = getPT s s.current := by
      show s.mm.dirPages _ = s.mm.dirPages _
      rw [getDIR, forkStart_task, if_neg hc.symm]
      exact congrArg _ ((actTicks_kept ..).dir _)
    have hcode : mapCode (getPT (forkStart child s) s.current)
        ((forkStart child s).mm.dirPages child) (forkStart child s).mm = forkCode child s := by
      rw [hP]
      rfl
    have hm : (forkCode child s).physMem = s.mm.physMem := (mapCode_apply (hT child hc) _).1.physMem
    have h256 : (forkCode child s).physMem 256 ≠ .freeFrame := by rwa [hm]
    rcases allocChildFrames_cases h256 numPagData with
      ⟨hcard, fs, hlen, hg, hr⟩ | ⟨hcard, hr⟩
    · rw [hm] at hcard
      refine Or.inr ⟨hcard, fs, hlen, hg.congr hm.symm, ?_⟩
      have he := forkSpace_ok ((congrArg _ hcode).trans hr)
      rw [hP] at he
      exact he
    · rw [hm] at hcard
      exact Or.inl ⟨hcard, forkSpace_error ((congrArg _ hcode).trans hr)⟩

/-! ## the queues -/

theorem forkChild_rep (h : Rep s d) (hd : d.Tidy s.idleTask .readyqueue)
    (hc : child ∈ d.queue .freequeue) : Rep (forkChild child s) (d.take .freequeue child) :=
  ⟨(h.linked.del hc).setLinks (fun _ hq => ((hd.mem_take hc).mp hq).2 rfl) _ _, h.current⟩

theorem forkFailed_rep (h : Rep s d) (hd : d.Tidy s.idleTask .readyqueue)
    (hq : d.queue .freequeue = child :: rest) : Rep (forkFailed child s) d := by
  have hc : child ∈ d.queue .freequeue := hq ▸ List.mem_cons_self
  have h1 := forkChild_rep h hd hc
  have h2 := h1.linked.add (fun _ hr => ((hd.mem_take hc).mp hr).2 rfl) .freequeue
  refine ⟨?_, h.current⟩
  have e : Function.update (d.take .freequeue child).queue .freequeue
      (child :: (d.take .freequeue child).queue .freequeue) = d.queue := by
    funext q
    by_cases hf : q = .freequeue
    · subst hf
      simp [Desk.take, hq]
    · simp [Desk.take, hf]
  exact e ▸ h2

section
variable (parent child pp : Task) (w : State)

theorem startChild_current : (startChild child w).2.current = w.current := rfl
theorem startChild_tsc : (startChild child w).2.tsc = w.tsc := rfl
theorem startChild_reads : (startChild child w).2.reads = w.reads + 1 := rfl

theorem forkDone_fst : (forkDone parent child pp w).1 = int32 (w.pidMax + 1) := by
  simp only [forkDone, startChild, State.setMm_pidMax]

theorem forkDone_links : (forkDone parent child pp w).2.links =
    listAddTail w.links (.list child) (.queue .readyqueue) := by
  simp only [forkDone, startChild, setIniStats, actTicksKernel2user, actTicks, account_links,
    State.setLinks_links, State.setTask_links, State.setMm_links]

theorem forkDone_current : (forkDone parent child pp w).2.current = w.current := by
  simp only [forkDone, actTicksKernel2user, actTicks, account_current, startChild_current,
    State.setMm_current]

theorem forkDone_idleTask : (forkDone parent child pp w).2.idleTask = w.idleTask := by
  simp only [forkDone, startChild, setIniStats, actTicksKernel2user, actTicks, account_idleTask,
    State.setLinks_idleTask, State.setTask_idleTask, State.setMm_idleTask]

theorem forkDone_control : (forkDone parent child pp w).2.control = w.control := by
  simp only [forkDone, startChild, setIniStats, actTicksKernel2user, actTicks, account_control,
    State.setLinks_control, State.setTask_control, State.setMm_control]

theorem forkDone_cr3 : (forkDone parent child pp w).2.cr3 = getDIR w parent := by
  simp only [forkDone, startChild, setIniStats, actTicksKernel2user, actTicks, account_cr3,
    State.setLinks_cr3, State.setTask_cr3, getDIR, State.setMm_task]

theorem forkDone_cpuQuantum : (forkDone parent child pp w).2.cpuQuantum = w.cpuQuantum := by
  simp only [forkDone, startChild, setIniStats, actTicksKernel2user, actTicks, account_cpuQuantum,
    State.setLinks_cpuQuantum, State.setTask_cpuQuantum, State.setMm_cpuQuantum]

theorem forkDone_pidMax : (forkDone parent child pp w).2.pidMax = int32 (w.pidMax + 1) := by
  simp only [forkDone, startChild, setIniStats, actTicksKernel2user, actTicks, account_pidMax,
    State.setLinks_pidMax, State.setMm_pidMax]

theorem forkDone_reads : (forkDone parent child pp w).2.reads = w.reads + 2 := by
  simp only [forkDone, actTicksKernel2user, actTicks, account_reads, startChild_reads,
    State.setMm_reads]

theorem forkDone_mem : (forkDone parent child pp w).2.mem = w.mem := by
  simp only [forkDone, startChild, setIniStats, actTicksKernel2user, actTicks, account_mem,
    State.setLinks_mem, State.setTask_mem, State.setMm_mem]

theorem forkDone_mm : (forkDone parent child pp w).2.mm = unmapData pp w.mm := by
  simp only [forkDone, startChild, setIniStats, actTicksKernel2user, actTicks, account_mm,
    State.setLinks_mm, State.setTask_mm, State.setMm_mm]

end

theorem forkDone_rep {w : State} {pp : Task} (h : Rep w d) (hc : ∀ q, child ∉ d.queue q)
    (parent : Task) : Rep (forkDone parent child pp w).2 (d.put .readyqueue child) := by
  refine ⟨?_, (forkDone_current ..).trans h.current⟩
  rw [forkDone_links]
  exact h.linked.addTail hc .readyqueue

/-! ## the PCBs -/

theorem forkFailed_task (hc : child ≠ s.current) (u : Task) :
    (forkFailed child s).task u =
      if u = child then
        { (actTicksUser2kernel s).task s.current with dirPagesBaseAddr := child }
      else if u = s.current then
        ((actTicksUser2kernel s).task s.current).tick .system (s.tsc (s.reads + 1))
      else s.task u := by
  have hcur : (forkChild child s).current = s.current := rfl
  have hnow : getTicks (freePCB child ((forkChild child s).setMm (forkCode child s))) =
      s.tsc (s.reads + 1) := rfl
  unfold forkFailed actTicksKernel2user actTicks
  rw [account_task, hnow]
  unfold freePCB
  rw [State.setLinks_current, State.setMm_current, State.setLinks_task, State.setMm_task, hcur,
    forkChild_task, forkChild_task, if_neg hc.symm]
  by_cases h1 : u = s.current
  · subst h1
    rw [if_pos rfl, if_neg hc.symm, if_pos rfl]
  · rw [if_neg h1]
    by_cases h2 : u = child
    · rw [if_pos h2, if_pos h2]
    · rw [if_neg h2, if_neg h2, if_neg h1]
      unfold actTicksUser2kernel actTicks
      rw [account_task, if_neg h1]

theorem startChild_task (child : Task) (w : State) (u : Task) :
    (startChild child w).2.task u =
      if u = child then
        TaskStruct.iniStats (getTicks w)
          { w.task child with pid := int32 (w.pidMax + 1), kernelEsp := .retFromFork }
      else w.task u := by
  unfold startChild setIniStats
  dsimp only
  rw [State.setLinks_task, account_task, State.setTask_task, if_pos rfl]
  by_cases h : u = child
  · rw [if_pos h, if_pos h]
    rfl
  · rw [if_neg h, if_neg h, State.setTask_task, if_neg h]

theorem forkDone_task {w : State} {pp : Task} (hc : child ≠ w.current) (parent u : Task) :
    (forkDone parent child pp w).2.task u =
      if u = child then
        TaskStruct.iniStats (getTicks w)
          { w.task child with pid := int32 (w.pidMax + 1), kernelEsp := .retFromFork }
      else if u = w.current then (w.task w.current).tick .system (w.tsc (w.reads + 1))
      else w.task u := by
  simp only [forkDone, actTicksKernel2user, actTicks, account_task, startChild_current,
    startChild_task, getTicks, startChild_tsc, startChild_reads, State.setMm_task,
    State.setMm_current, State.setMm_tsc, State.setMm_reads, State.setMm_pidMax]
  rw [if_neg hc.symm]
  by_cases h1 : u = w.current
  · subst h1
    rw [if_pos rfl, if_neg hc.symm, if_pos rfl]
  · rw [if_neg h1, if_neg h1]

end
end Zeos
