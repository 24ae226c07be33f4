import ZeroOS.Zeos.PageOps

/-!
# Zeos: the TLB

The kernel beside a processor that loads translations into its TLB when it likes.  Only `sys_fork`
changes entries after boot: it maps the window in the table of the parent, copies, takes the window out
again and loads `cr3`.

* `kernelOps`        the assignments to entries and the loads of `cr3` of an event;
* `pagedStep`        an event of the kernel with the processor in between, or a step of the processor;
* `kernelOps_apply`  the operations give the tables and the `cr3` of the next state;
* `tlb_exact`        **after every event the processor translates as the page tables say**;
* `tlb_during`       **within an event** too, except for the window;
* `window_exact`     **while `sys_fork` copies** also there;
* `window_stale`     **why `sys_fork` loads `cr3`**.
-/

set_option linter.unusedVariables false

namespace Zeos
open Paging Programs Runs

/-! ## the kernel -/

/-- `sys_fork` from `get_PT (parent)` on -/
def forkSpaceOps (parent child : Task) (s : State) : List PageOp :=
  let parentPage := getPT s parent
  let s := (allocateDIR child s).2
  let childPage := getPT s child
  mapCodeOps parentPage childPage s.mm ++
    match allocChildFrames numPagData [] (mapCode parentPage childPage s.mm) with
    | .error _ => []
    | .ok (childFrames, mm) =>
      mapDataOps parentPage childPage childFrames mm ++
        (unmapDataOps parentPage (mapData parentPage childPage childFrames mm) ++
          [.setCr3 (getDIR s parent)])

def forkOps (s : State) : List PageOp :=
  let s := actTicksUser2kernel s
  if listEmpty s.links (.queue .freequeue) then []
  else
    let (child, s) := takeFirst .freequeue s
    forkSpaceOps s.current child (copyPCB s.current child s)

/-- Apart from `sys_fork` only `inner_task_switch` loads `cr3`; `s'` is the state after the event. -/
def kernelOps (s : State) (e : Event) (s' : State) : List PageOp :=
  match e with
  | .fork => forkOps s
  | _ => if s'.control = .switched then [.setCr3 s'.cr3] else []

inductive PagedEvent where
  /-- `ts` has what the processor does on its own before each operation -/
  | kernel (e : Event) (ts : List (List Touch))
  | touch (t : Touch)

def pagedStep (L : PageArrays) : State × Mmu → PagedEvent → Option (State × Mmu)
  | (s, m), .kernel e ts => (step s e).map fun s' => (s', runOps L (kernelOps s e s') ts m)
  | (s, m), .touch t => some (s, t.exec m)

/-- the page tables of a state, without stale pages -/
def State.tables (s : State) : Tables := ⟨s.mm.pagusrTable, s.cr3, []⟩

/-- a page of the window -/
def WindowPage (p : Nat) : Prop := 284 ≤ p ∧ p < 304

section
variable {s s' : State} {child : Task} {rest : List Task}

/-! ## fork -/

theorem sysFork_child (h : Coherent s) (hq : queue s .freequeue = child :: rest) :
    sysFork s = forkSpace s.current child (forkStart child s) ∧
      forkOps s = forkSpaceOps s.current child (forkStart child s) := by
  have hL : Linked (actTicksUser2kernel s).links (desk s).queue := h.placed.rep.linked
  have hne : ¬ listEmpty (actTicksUser2kernel s).links (.queue .freequeue) = true := by
    rw [hL.empty_iff]
    show queue s .freequeue ≠ []
    rw [hq]
    exact List.cons_ne_nil child rest
  unfold sysFork forkOps
  dsimp only
  rw [if_neg hne, if_neg hne, takeFirst_eq hL hq]
  exact ⟨rfl, rfl⟩

theorem Coherent.forkStart_getDIR (h : Coherent s) (hne : s.current ≠ child) :
    getDIR (forkStart child s) s.current = s.current := by
  unfold getDIR
  rw [forkStart_task, if_neg hne]
  exact ((actTicks_kept ..).dir _).trans (h.base _ (h.placed.running .freequeue))

theorem forkStart_mm (child : Task) (s : State) : (forkStart child s).mm = s.mm := rfl

theorem Coherent.forkStart_getPT (h : Coherent s) (hne : s.current ≠ child) :
    getPT (forkStart child s) s.current = s.current := by
  unfold getPT
  rw [h.forkStart_getDIR hne, forkStart_mm, h.mapped.dirs]

theorem Coherent.forkWindow_mm (h : Coherent s) (child : Task) (fs : List Nat) :
    (forkWindow child fs s).mm = mapData s.current child (fs.map fun f : Nat => (f : Int))
      (grab (mapCode s.current child s.mm) fs) := by
  rw [forkWindow, State.setMm_mm, forkCode, h.getPT_eq, h.mapped.dirs]

/-- up to the copy, with the frames `fs` -/
def windowOps (s : State) (child : Task) (fs : List Nat) : List PageOp :=
  mapCodeOps s.current child s.mm ++
    mapDataOps s.current child (fs.map fun f : Nat => (f : Int))
      (grab (mapCode s.current child s.mm) fs)

/-- a fork that makes a child -/
structure ForkOps (s : State) (child : Task) (fs : List Nat) : Prop where
  ops : forkOps s = windowOps s child fs ++
    unmapDataOps s.current (forkWindow child fs s).mm ++ [.setCr3 s.current]
  fork : sysFork s = (copyData kernelBus dirIni dirDest (numPagData * pageSize)
    (forkWindow child fs s)).bind fun s' => .ok (forkDone s.current child s.current s')
  length : fs.length = numPagData
  grabbed : Grabbed s.mm fs

theorem Inv.fork_ops (h : Inv s) (hq : queue s .freequeue = child :: rest) :
    ∃ fs, ForkOps s child fs := by
  have hchild : child ∈ queue s .freequeue := hq ▸ List.mem_cons_self
  have hne : s.current ≠ child := (h.placed.ne_current hchild).symm
  have hm := (mapCode_apply hne s.mm).1
  have hPT := h.forkStart_getPT hne
  have h256 : (mapCode s.current child s.mm).physMem 256 ≠ .freeFrame := by
    rw [hm.physMem]
    exact h.mapped.used_256
  obtain ⟨-, fs, hlen, hg, hr⟩ | ⟨hlt, -⟩ := allocChildFrames_cases h256 numPagData
  · obtain ⟨hsys, hops⟩ := sysFork_child h.toCoherent hq
    have hcode : mapCode (getPT (forkStart child s) s.current)
        ((forkStart child s).mm.dirPages child) (forkStart child s).mm =
          mapCode s.current child s.mm := by
      rw [hPT, forkStart_mm, h.mapped.dirs]
    have hW : (allocateDIR child (forkStart child s)).2.setMm
        (mapData (getPT (forkStart child s) s.current) ((forkStart child s).mm.dirPages child)
          (fs.map fun f : Nat => (f : Int)) (grab (mapCode s.current child s.mm) fs)) =
            forkWindow child fs s := by
      unfold forkWindow forkCode forkChild
      rw [hPT, h.getPT_eq, forkStart_mm, h.mapped.dirs]
    refine ⟨fs, ?_, ?_, hlen, hg.congr hm.physMem.symm⟩
    · rw [hops]
      unfold forkSpaceOps
      dsimp only
      rw [allocateDIR_getPT, allocateDIR_mm, hPT, forkStart_mm, h.mapped.dirs, hr]
      dsimp only
      rw [← h.forkWindow_mm]
      have hdir : getDIR (allocateDIR child (forkStart child s)).2 s.current = s.current := by
        unfold getDIR allocateDIR
        dsimp only
        rw [State.setTask_task, if_neg hne]
        exact h.forkStart_getDIR hne
      rw [hdir]
      unfold windowOps
      rw [List.append_assoc, List.append_assoc]
    · rw [hsys, forkSpace_ok ((congrArg _ hcode).trans hr), hW, hPT]
  · rw [hm.physMem] at hlt
    exact absurd (h.enough hchild) (Nat.not_le.mpr hlt)

/-- the copy changes no table -/
theorem copyData_passive {p q : Nat} {n : Int} (h : copyData kernelBus p q n s = .ok s') :
    Passive s s' := by
  refine copyLoop_keeps (I := Passive s) ?_ ?_ (Passive.refl s) h
  · intro a s₁ b s₂ hI hr
    rw [kernelLoad_eq hr]
    exact hI
  · intro a b s₁ s₂ hI hr
    exact hI.trans (kernelStore_passive hr)

theorem ForkOps.done {fs : List Nat} (h : ForkOps s child fs) {v : Int}
    (hf : sysFork s = .ok (v, s')) : ∃ w, copyData kernelBus dirIni dirDest (numPagData * pageSize)
      (forkWindow child fs s) = .ok w ∧ s' = (forkDone s.current child s.current w).2 := by
  rw [h.fork] at hf
  cases hc : copyData kernelBus dirIni dirDest (numPagData * pageSize) (forkWindow child fs s) with
  | error w =>
    rw [hc] at hf
    cases hf
  | ok w =>
    rw [hc] at hf
    have hf : (.ok (forkDone s.current child s.current w) : Except State (Int × State)) =
      .ok (v, s') := hf
    exact ⟨w, rfl, congrArg Prod.snd (Except.ok.inj hf.symm)⟩

theorem Coherent.code_writes (h : Coherent s) (hne : s.current ≠ child) :
    Writes (fun _ => False) s.current (mapCodeOps s.current child s.mm) s.mm.pagusrTable
      (mapCode s.current child s.mm).pagusrTable :=
  mapCodeOps_writes hne.symm s.mm

theorem Coherent.data_writes (h : Coherent s) (hne : s.current ≠ child) (fs : List Nat) :
    Writes (fun _ => False) s.current
      (mapDataOps s.current child (fs.map fun f : Nat => (f : Int))
        (grab (mapCode s.current child s.mm) fs))
      (mapCode s.current child s.mm).pagusrTable (forkWindow child fs s).mm.pagusrTable := by
  rw [h.forkWindow_mm]
  have hzero : ∀ p, 284 ≤ p →
      (grab (mapCode s.current child s.mm) fs).pagusrTable s.current p = .zero := by
    intro p hp
    rw [grab_pagusrTable, (mapCode_apply hne s.mm).2, if_neg fun e => hne e.1]
    exact h.mapped.above _ p hp
  exact mapDataOps_writes hne.symm _ hzero

/-- up to the copy -/
theorem Coherent.window_writes (h : Coherent s) (hne : s.current ≠ child) (fs : List Nat) :
    Writes (fun _ => False) s.current (windowOps s child fs) s.mm.pagusrTable
      (forkWindow child fs s).mm.pagusrTable :=
  (h.code_writes hne).append (h.data_writes hne fs)

/-- up to the load of `cr3` -/
theorem Coherent.fork_writes (h : Coherent s) (hne : s.current ≠ child) (fs : List Nat) :
    Writes WindowPage s.current
      (windowOps s child fs ++ unmapDataOps s.current (forkWindow child fs s).mm) s.mm.pagusrTable
      (unmapData s.current (forkWindow child fs s).mm).pagusrTable :=
  ((h.window_writes hne fs).mono fun _ hp => hp.elim).append (unmapDataOps_writes _)

/-! ## events -/

theorem step_loads {e : Event} (h1 : e ≠ .fork) (he : step s e = some s') :
    s'.cr3 = s.cr3 ∨ s'.control = .switched := by
  cases step_cases he with
  | fork hu hf => exact absurd rfl h1
  | exit hu => exact .inr (schedNextRr_switched ..).control
  | read hu => exact .inl rfl
  | service hs hu hserv => exact .inl hserv.unmoved.cr3
  | clock hu => exact .inl rfl
  | block c i hc hne => exact .inr (schedNextRr_switched ..).control
  | unblock c i t hc ht =>
    unfold unblockProcess
    dsimp only
    split
    · exact .inr (schedNextRr_switched ..).control
    · exact .inl rfl
  | ret c hc =>
    cases c with
    | sysRead => exact .inl rfl
    | clockRoutine =>
      show (clockReturn s).cr3 = s.cr3 ∨ (clockReturn s).control = .switched
      rw [clockReturn_eq]
      split
      · split
        · exact .inr (schedNextRr_switched ..).control
        · exact .inr (schedNextRr_switched ..).control
      · exact .inl rfl
  | resume hc => exact .inl (resume_resumed s).cr3

theorem Inv.step_tables (h : Inv s) {e : Event} (h1 : e ≠ .fork) (he : step s e = some s') :
    s'.mm.pagusrTable = s.mm.pagusrTable := by
  by_cases h2 : e = .exit
  · subst h2
    obtain ⟨hu, hx⟩ := guarded_eq_some he
    rw [← Option.some.inj hx, (h.exited hu).mm]
    exact (freeData_apply ..).2.1
  · rw [(step_kept h1 h2 h.cr3 he).1.mm]

theorem Inv.fork_idle (h : Inv s) (hu : inUser s) (hq : queue s .freequeue = []) {v : Int}
    (hf : sysFork s = .ok (v, s')) : forkOps s = [] ∧ s'.tables = s.tables := by
  obtain ⟨-, -, hserv⟩ | ⟨child, rest, fs, hq', -⟩ := h.forked hu hf
  · refine ⟨?_, ?_⟩
    · have hL : Linked (actTicksUser2kernel s).links (desk s).queue := h.placed.rep.linked
      unfold Zeos.forkOps
      dsimp only
      rw [if_pos ((hL.empty_iff _).mpr hq)]
    · unfold State.tables
      rw [hserv.unmoved.kept.mm, hserv.unmoved.cr3]
  · rw [hq] at hq'
    cases hq'

theorem ForkOps.apply (h : Inv s) (hu : inUser s) (hq : queue s .freequeue = child :: rest)
    {fs : List Nat} (ho : ForkOps s child fs) {v : Int} (hf : sysFork s = .ok (v, s')) :
    (Zeos.forkOps s).foldl PageOp.apply s.tables = s'.tables := by
  have hchild : child ∈ queue s .freequeue := hq ▸ List.mem_cons_self
  have hne : s.current ≠ child := (h.placed.ne_current hchild).symm
  obtain ⟨w, hw, rfl⟩ := ho.done hf
  obtain ⟨st, -, hrun⟩ := (h.fork_writes hne fs).run []
  have hcr3 : (forkDone s.current child s.current w).2.cr3 = s.current := by
    obtain ⟨hq', -⟩ | ⟨child', rest', fs', -, -, -, hsp, -⟩ := h.forked hu hf
    · rw [hq] at hq'
      cases hq'
    · exact hsp.cr3
  have hmm : w.mm = (forkWindow child fs s).mm := (copyData_passive hw).unmoved.kept.mm
  unfold State.tables
  rw [ho.ops, List.foldl_append, h.cr3_eq, hrun, apply_setCr3, hcr3, forkDone_mm, hmm]

theorem kernelOps_of_ne {e : Event} (h1 : e ≠ .fork) :
    kernelOps s e s' = if s'.control = .switched then [.setCr3 s'.cr3] else [] := by
  cases e with
  | fork => exact absurd rfl h1
  | _ => rfl

/-- **The operations of an event** give the tables of its next state, and leave no page stale. -/
theorem kernelOps_apply (h : Inv s) {e : Event} (he : step s e = some s') :
    (kernelOps s e s').foldl PageOp.apply s.tables = s'.tables ∧
      ∀ op ∈ kernelOps s e s', op.InRange := by
  by_cases h1 : e = .fork
  · subst h1
    obtain ⟨hu, hx⟩ := guarded_eq_some he
    obtain ⟨v, hf⟩ := returned_eq_some.mp hx
    show (forkOps s).foldl PageOp.apply s.tables = s'.tables ∧ ∀ op ∈ forkOps s, op.InRange
    cases hq : queue s .freequeue with
    | nil =>
      obtain ⟨hnil, hsame⟩ := h.fork_idle hu hq hf
      rw [hnil, hsame]
      exact ⟨rfl, fun op hop => (by cases hop)⟩
    | cons child rest =>
      obtain ⟨fs, ho⟩ := h.fork_ops hq
      have hne : s.current ≠ child := (h.placed.ne_current (hq ▸ List.mem_cons_self)).symm
      refine ⟨ho.apply h hu hq hf, fun op hop => ?_⟩
      rw [ho.ops] at hop
      obtain hop | hop := List.mem_append.mp hop
      · exact (h.fork_writes hne fs).inRange op hop
      · rw [List.mem_singleton.mp hop]
        trivial
  · have htab := h.step_tables h1 he
    rw [kernelOps_of_ne h1]
    unfold State.tables
    by_cases hc : s'.control = .switched
    · rw [if_pos hc, htab]
      refine ⟨rfl, fun op hop => ?_⟩
      rw [List.mem_singleton.mp hop]
      trivial
    · have h3 := (step_loads h1 he).resolve_right hc
      rw [if_neg hc, htab, h3]
      exact ⟨rfl, fun op hop => (by cases hop)⟩

end

/-! ## the points of an event -/

section
variable {s s' : State} {ops pre : List PageOp}

/-- only a load of `cr3` takes a page back -/
theorem stale_mono (hops : ∀ op ∈ ops, ∃ pt page a, op = .assign pt page a ∧ page < totalPages)
    {T : Tables} {p : Nat} (hp : p ∈ T.stale) : p ∈ (ops.foldl PageOp.apply T).stale := by
  induction ops generalizing T with
  | nil => exact hp
  | cons op ops ih =>
    refine ih (fun o ho => hops o (List.mem_cons_of_mem _ ho)) ?_
    obtain ⟨pt, page, a, rfl, -⟩ := hops op List.mem_cons_self
    rw [apply_assign_stale]
    split
    · exact List.mem_cons_of_mem _ hp
    · exact hp

theorem Writes.prefix_stale {S : Nat → Prop} {c : Task} {tab tab' : Task → Nat → PageTableEntry}
    (h : Writes S c ops tab tab') (hpre : pre <+: ops) :
    ∀ p ∈ (pre.foldl PageOp.apply ⟨tab, c, []⟩).stale, S p := by
  intro p hp
  obtain ⟨rest, rfl⟩ := hpre
  obtain ⟨st, hst, hrun⟩ := h.run []
  rw [List.foldl_append] at hrun
  have hmem := stale_mono (fun op hop => h.assigns op (List.mem_append_right pre hop)) hp
  rw [hrun] at hmem
  exact (hst p hmem).resolve_left List.not_mem_nil

/-- a last load of `cr3` leaves nothing stale -/
theorem stale_concat {S : Nat → Prop} {T : Tables} {dir : Task}
    (h : pre <+: ops → ∀ p ∈ (pre.foldl PageOp.apply T).stale, S p)
    (hpre : pre <+: ops ++ [.setCr3 dir]) : ∀ p ∈ (pre.foldl PageOp.apply T).stale, S p := by
  obtain rfl | hpre := List.prefix_concat_iff.mp hpre
  · rw [List.foldl_append]
    exact fun p hp => (by cases hp)
  · exact h hpre

theorem stale_nil {S : Nat → Prop} (hpre : pre <+: ([] : List PageOp)) :
    ∀ p ∈ (pre.foldl PageOp.apply s.tables).stale, S p := by
  rw [List.prefix_nil.mp hpre]
  exact fun p hp => (by cases hp)

theorem kernelOps_stale (h : Inv s) {e : Event} (he : step s e = some s')
    (hpre : pre <+: kernelOps s e s') :
    ∀ p ∈ (pre.foldl PageOp.apply s.tables).stale, WindowPage p := by
  by_cases h1 : e = .fork
  · subst h1
    obtain ⟨hu, hx⟩ := guarded_eq_some he
    obtain ⟨v, hf⟩ := returned_eq_some.mp hx
    have hpre : pre <+: forkOps s := hpre
    cases hq : queue s .freequeue with
    | nil =>
      rw [(h.fork_idle hu hq hf).1] at hpre
      exact stale_nil hpre
    | cons child rest =>
      obtain ⟨fs, ho⟩ := h.fork_ops hq
      have hne : s.current ≠ child := (h.placed.ne_current (hq ▸ List.mem_cons_self)).symm
      have hw := h.fork_writes hne fs
      rw [ho.ops] at hpre
      refine stale_concat (fun hpre => ?_) hpre
      unfold State.tables
      rw [h.cr3_eq]
      exact hw.prefix_stale hpre
  · rw [kernelOps_of_ne h1] at hpre
    by_cases hc : s'.control = .switched
    · rw [if_pos hc, ← List.nil_append [PageOp.setCr3 s'.cr3]] at hpre
      exact stale_concat stale_nil hpre
    · rw [if_neg hc] at hpre
      exact stale_nil hpre

end

/-! ## runs -/

section
variable {L : PageArrays} {s s' : State} {m m₀ : Mmu} {mem : Nat → Byte} {tsc : Nat → DWord}
  {ts₀ : List (List Touch)}

theorem boot_tables (mem : Nat → Byte) (tsc : Nat → DWord) :
    (boot mem tsc).tables = ⟨(setUserPages bootTables 8).pagusrTable, 8, []⟩ := by
  unfold State.tables
  rw [boot_mm, (boot_inv mem tsc).cr3_eq, boot_current]

theorem paged_agrees
    (h : Reachable (pagedStep L) (boot mem tsc, bootMmu L m₀ ts₀) (s, m)) :
    Inv s ∧ Agrees L s.tables m := by
  have hI := h.invariant (I := fun x => Inv x.1 ∧ Agrees L x.1.tables x.2) ?_ ?_
  · exact hI
  · refine ⟨boot_inv mem tsc, ?_⟩
    rw [boot_tables]
    exact bootMmu_agrees L m₀ ts₀
  · rintro ⟨s, m⟩ e ⟨s', m'⟩ ⟨hi, ha⟩ hst
    cases e with
    | touch t =>
      cases hst
      exact ⟨hi, ha.touch t⟩
    | kernel e ts =>
      obtain ⟨s₁, he, hx⟩ := Option.map_eq_some_iff.mp hst
      cases hx
      obtain ⟨hrun, hrange⟩ := kernelOps_apply hi he
      have hr := ha.run hrange ts
      rw [hrun] at hr
      exact ⟨step_inv hi he, hr⟩

/-- a walk of the tables is what the kernel model takes for the MMU -/
theorem tables_translate (hd : ∀ t, s.mm.dirPages t = t) (u w : Bool) (a : Nat) :
    s.tables.translate u w a = translate (permitted u w) s.mm s.cr3 a := by
  unfold Tables.translate translate pageEntry State.tables
  dsimp only
  rw [hd]
  by_cases hlt : a / 4096 < 1024
  · rw [if_pos hlt]
    dsimp only
    by_cases hok : permitted u w (s.mm.pagusrTable s.cr3 (a / 4096)) = true
    · rw [if_pos ⟨hlt, hok⟩, if_pos hok]
    · rw [if_neg fun hc => hok hc.2, if_neg hok]
  · rw [if_neg hlt, if_neg fun hc => hlt hc.1]

theorem translate_kernel (s : State) (w : Bool) (a : Nat) :
    translate (permitted false w) s.mm s.cr3 a = mmu s a := by
  have e : permitted false w = fun e => e.present := by
    funext e
    unfold permitted
    simp
  rw [e]
  rfl

/-- **After every event the processor translates as the page tables say**: accesses of the kernel, and
loads and stores of user code, whatever it keeps in its TLB. -/
theorem tlb_exact (h : Reachable (pagedStep L) (boot mem tsc, bootMmu L m₀ ts₀) (s, m))
    (a : DWord) :
    (∀ w, m.translate false w a = mmu s a.toNat) ∧
      m.translate true false a = userLoadAddr s.mm s.cr3 a.toNat ∧
      m.translate true true a = userStoreAddr s.mm s.cr3 a.toNat := by
  obtain ⟨hi, ha⟩ := paged_agrees h
  have hall : ∀ u w, m.translate u w a = translate (permitted u w) s.mm s.cr3 a.toNat := by
    intro u w
    rw [ha.translate u w (List.not_mem_nil), tables_translate hi.mapped.dirs]
  refine ⟨fun w => ?_, ?_, ?_⟩
  · rw [hall, translate_kernel]
  · rw [hall]
    unfold userLoadAddr permitted
    simp
  · rw [hall]
    unfold userStoreAddr permitted
    simp

/-- the arrays in the pages 48 to 67 -/
def arraysAt48 : PageArrays := ⟨48, 58, by decide, by decide, by decide⟩

def zeroMmu : Mmu := ⟨fun _ => 0, 0, fun _ => none⟩

/-- a fork; behind the 240 assignments that make the window, the processor loads its first page -/
theorem tlb_exact_fork : ∃ (s s' : State) (m : Mmu), step s .fork = some s' ∧
    Reachable (pagedStep arraysAt48) (boot (fun _ => 0) fun _ => 0, bootMmu arraysAt48 zeroMmu [])
      (s', m) ∧
    (∀ w, m.translate false w 0x11c000 = mmu s' (0x11c000 : DWord).toNat) ∧
      m.translate true false 0x11c000 = userLoadAddr s'.mm s'.cr3 (0x11c000 : DWord).toNat ∧
      m.translate true true 0x11c000 = userStoreAddr s'.mm s'.cr3 (0x11c000 : DWord).toNat := by
  obtain ⟨child, rest, s', hq, hs, -⟩ := boot_fork (fun _ => 0) fun _ => 0
  have hst : pagedStep arraysAt48 (boot (fun _ => 0) fun _ => 0, bootMmu arraysAt48 zeroMmu [])
      (.kernel .fork (List.replicate 240 [] ++ [[.walk 284 true]])) =
        some (s', runOps arraysAt48 (kernelOps (boot (fun _ => 0) fun _ => 0) .fork s')
          (List.replicate 240 [] ++ [[.walk 284 true]]) (bootMmu arraysAt48 zeroMmu [])) := by
    unfold pagedStep
    dsimp only
    rw [hs, Option.map_some]
  exact ⟨_, s', _, hs, .step .init hst, tlb_exact (.step .init hst) 0x11c000⟩

/-- **Within an event** the processor translates as the entries say at every point between two
operations, except on the pages of the window. -/
theorem tlb_during (h : Reachable (pagedStep L) (boot mem tsc, bootMmu L m₀ ts₀) (s, m)) {e : Event}
    (he : step s e = some s') {pre : List PageOp} (hpre : pre <+: kernelOps s e s')
    (ts : List (List Touch)) (ts' : List Touch) (u w : Bool) {a : DWord}
    (ha : ¬ WindowPage (a.toNat / pageSize)) :
    (ts'.foldl Touch.exec (runOps L pre ts m)).translate u w a =
      (pre.foldl PageOp.apply s.tables).translate u w a.toNat := by
  obtain ⟨hi, hag⟩ := paged_agrees h
  have hrange : ∀ op ∈ pre, op.InRange := fun op hop =>
    (kernelOps_apply hi he).2 op (hpre.subset hop)
  exact ((hag.run hrange ts).touches ts').translate u w
    fun hmem => ha (kernelOps_stale hi he hpre _ hmem)

theorem forkWindow_cr3 (child : Task) (fs : List Nat) (s : State) :
    (forkWindow child fs s).cr3 = s.cr3 := by
  rw [forkWindow, State.setMm_cr3, forkChild_cr3]

theorem tlb_during_fork : ∃ (s s' : State) (m : Mmu),
    Reachable (pagedStep arraysAt48) (boot (fun _ => 0) fun _ => 0, bootMmu arraysAt48 zeroMmu [])
      (s, m) ∧
    step s .fork = some s' ∧ forkOps s <+: kernelOps s .fork s' ∧
    ¬ WindowPage ((0x100000 : DWord).toNat / pageSize) ∧
    ([].foldl Touch.exec (runOps arraysAt48 (forkOps s) [[.walk 256 true]] m)).translate true true
        0x100000 =
      ((forkOps s).foldl PageOp.apply s.tables).translate true true (0x100000 : DWord).toNat := by
  obtain ⟨child, rest, s', hq, hs, -⟩ := boot_fork (fun _ => 0) fun _ => 0
  have hp : ¬ WindowPage ((0x100000 : DWord).toNat / pageSize) := by
    unfold WindowPage
    decide
  exact ⟨_, s', _, .init, hs, List.prefix_rfl, hp,
    tlb_during .init hs List.prefix_rfl [[.walk 256 true]] [] true true hp⟩

theorem Coherent.forkWindow_tables (h : Coherent s) {child : Task} (hne : s.current ≠ child)
    (fs : List Nat) : (windowOps s child fs).foldl PageOp.apply s.tables =
      (forkWindow child fs s).tables := by
  obtain ⟨st, hst, hrun⟩ := (h.window_writes hne fs).run []
  have hst : st = [] := List.eq_nil_iff_forall_not_mem.mpr fun p hp =>
    (hst p hp).elim List.not_mem_nil id
  unfold State.tables
  rw [forkWindow_cr3, h.cr3_eq, hrun, hst]

theorem Coherent.forkWindow_dirs (h : Coherent s) {child : Task} (hne : s.current ≠ child)
    (fs : List Nat) (t : Task) : (forkWindow child fs s).mm.dirPages t = t := by
  rw [h.forkWindow_mm, (mapData_apply hne _ _).1.dirPages, grab_dirPages,
    (mapCode_apply hne s.mm).1.dirPages]
  exact h.mapped.dirs t

/-- the processor at the copy -/
theorem Agrees.window (hi : Inv s) (h : Agrees L s.tables m) {child : Task}
    (hne : s.current ≠ child) (fs : List Nat) (ts : List (List Touch)) (ts' : List Touch) :
    Agrees L (forkWindow child fs s).tables
      (ts'.foldl Touch.exec (runOps L (windowOps s child fs) ts m)) := by
  have h' := (h.run (hi.window_writes hne fs).inRange ts).touches ts'
  rwa [hi.forkWindow_tables hne] at h'

/-- the window has the pages of the child -/
theorem Coherent.window_entry (h : Coherent s) {child : Task} (hne : s.current ≠ child)
    {fs : List Nat} (hg : Grabbed s.mm fs) (hlen : fs.length = 20) {p : Nat} (hp : WindowPage p) :
    ∃ f, (forkWindow child fs s).mm.pagusrTable s.current p = ssEntry f ∧
      (forkWindow child fs s).mm.pagusrTable child (p - 20) = ssEntry f := by
  obtain ⟨h1, h2⟩ := hp
  have e : p - 20 - 264 = p - 284 := by omega
  refine ⟨fs.getD (p - 284) 0, ?_, ?_⟩
  · rw [h.forkWindow_mm, window_apply hne hg hlen, if_pos ⟨rfl, h1, h2⟩]
  · rw [h.forkWindow_mm, window_apply hne hg hlen, if_neg fun hc => hne hc.1.symm,
      if_pos ⟨rfl, by omega, by omega⟩, e]

/-- an access to the window reaches the frame that the child has for its own page -/
theorem Coherent.window_translate (h : Coherent s) {child : Task} (hne : s.current ≠ child)
    {fs : List Nat} (hg : Grabbed s.mm fs) (hlen : fs.length = 20) {w : State}
    (hw : copyData kernelBus dirIni dirDest (numPagData * pageSize) (forkWindow child fs s) = .ok w)
    {a : Nat} (ha : WindowPage (a / pageSize)) (u wr : Bool) :
    (forkWindow child fs s).tables.translate u wr a =
      some ((forkDone s.current child s.current w).2.mm.frame child (a / pageSize - 20) * pageSize +
        a % pageSize) := by
  obtain ⟨f, hwin, hchild⟩ := h.window_entry hne hg hlen ha
  have hlt : a / pageSize < totalPages := Nat.lt_trans ha.2 (by decide)
  have hphys : (forkWindow child fs s).tables.translate u wr a = some ((ssEntry f).phys a) := by
    refine Tables.translate_of hlt ?_ (by cases u <;> cases wr <;> rfl)
    unfold State.tables
    dsimp only
    rw [forkWindow_cr3, h.cr3_eq, hwin]
  have hframe : (forkDone s.current child s.current w).2.mm.frame child (a / pageSize - 20) =
      (ssEntry f).pbaseAddr := by
    unfold Mm.frame
    rw [forkDone_mm, (copyData_passive hw).unmoved.kept.mm, (unmapData_apply _).2,
      if_neg fun hc => hne hc.1.symm, hchild]
  rw [hphys, hframe, PageTableEntry.phys]

/-- **While `sys_fork` copies**, the processor translates every address as the tables with the window
say, and the addresses of the window to the frames that the child has for its own pages. -/
theorem window_exact (h : Reachable (pagedStep L) (boot mem tsc, bootMmu L m₀ ts₀) (s, m))
    {child : Task} {rest : List Task} (hq : queue s .freequeue = child :: rest)
    (he : step s .fork = some s') :
    ∃ fs w, fs.length = 20 ∧ windowOps s child fs <+: forkOps s ∧
      copyData kernelBus dirIni dirDest (numPagData * pageSize) (forkWindow child fs s) = .ok w ∧
      s' = (forkDone s.current child s.current w).2 ∧
      (∀ (ts : List (List Touch)) (ts' : List Touch) (wr : Bool) (a : DWord),
        (ts'.foldl Touch.exec (runOps L (windowOps s child fs) ts m)).translate false wr a =
          mmu (forkWindow child fs s) a.toNat) ∧
      ∀ a, WindowPage (a / pageSize) → mmu (forkWindow child fs s) a =
        some (s'.mm.frame child (a / pageSize - 20) * pageSize + a % pageSize) := by
  obtain ⟨hi, hag⟩ := paged_agrees h
  obtain ⟨hu, hx⟩ := guarded_eq_some he
  obtain ⟨v, hf⟩ := returned_eq_some.mp hx
  obtain ⟨fs, ho⟩ := hi.fork_ops hq
  have hne : s.current ≠ child := (hi.placed.ne_current (hq ▸ List.mem_cons_self)).symm
  obtain ⟨w, hw, hs'⟩ := ho.done hf
  have hmmu : ∀ wr a, (forkWindow child fs s).tables.translate false wr a =
      mmu (forkWindow child fs s) a := fun wr a => by
    rw [tables_translate (hi.forkWindow_dirs hne fs), translate_kernel]
  refine ⟨fs, w, ho.length, ?_, hw, hs', fun ts ts' wr a => ?_, fun a ha => ?_⟩
  · rw [ho.ops, List.append_assoc]
    exact List.prefix_append _ _
  · rw [(hag.window hi hne fs ts ts').translate false wr List.not_mem_nil, hmmu]
  · rw [← hmmu false, hi.window_translate hne ho.grabbed ho.length hw ha, hs']

theorem window_exact_first : ∃ (s s' : State) (m : Mmu) (child : Task) (rest : List Task),
    Reachable (pagedStep arraysAt48) (boot (fun _ => 0) fun _ => 0, bootMmu arraysAt48 zeroMmu [])
      (s, m) ∧
    queue s .freequeue = child :: rest ∧ step s .fork = some s' ∧
    ∃ fs w, fs.length = 20 ∧ windowOps s child fs <+: forkOps s ∧
      copyData kernelBus dirIni dirDest (numPagData * pageSize) (forkWindow child fs s) = .ok w ∧
      s' = (forkDone s.current child s.current w).2 ∧
      (∀ (ts : List (List Touch)) (ts' : List Touch) (wr : Bool) (a : DWord),
        (ts'.foldl Touch.exec (runOps arraysAt48 (windowOps s child fs) ts m)).translate false wr
          a = mmu (forkWindow child fs s) a.toNat) ∧
      ∀ a, WindowPage (a / pageSize) → mmu (forkWindow child fs s) a =
        some (s'.mm.frame child (a / pageSize - 20) * pageSize + a % pageSize) := by
  obtain ⟨child, rest, s', hq, hs, -⟩ := boot_fork (fun _ => 0) fun _ => 0
  exact ⟨_, s', _, child, rest, .init, hq, hs, window_exact .init hq hs⟩

/-! ## the load of `cr3` in `sys_fork` -/

theorem runOps_append (L : PageArrays) (a b : List PageOp) (ts : List (List Touch)) (m : Mmu) :
    runOps L (a ++ b) (List.replicate a.length [] ++ ts) m = runOps L b ts (runOps L a [] m) := by
  induction a generalizing m with
  | nil => rfl
  | cons op a ih => exact ih (op.exec L m)

/-- assignments do not reach the TLB -/
theorem runOps_tlb {ops : List PageOp}
    (hops : ∀ op ∈ ops, ∃ pt page a, op = .assign pt page a ∧ page < totalPages) (m : Mmu) :
    (runOps L ops [] m).tlb = m.tlb := by
  induction ops generalizing m with
  | nil => rfl
  | cons op ops ih =>
    obtain ⟨pt, page, a, rfl, -⟩ := hops op List.mem_cons_self
    exact ih (fun o ho => hops o (List.mem_cons_of_mem _ ho)) _

theorem runOps_touch {L : PageArrays} {ops : List PageOp} (hne : ops ≠ []) (t : List Touch)
    (m : Mmu) : runOps L ops [t] m = runOps L ops [] (t.foldl Touch.exec m) := by
  cases ops with
  | nil => exact absurd rfl hne
  | cons op ops => rfl

theorem unmapDataOps_ne_nil (pt : Task) (mm : Mm) : unmapDataOps pt mm ≠ [] :=
  List.append_ne_nil_of_right_ne_nil _ (List.cons_ne_nil _ _)

/-- **Why `sys_fork` loads `cr3`.**  When it has taken the window out of the table, the processor can
still have it: user code of the parent could store to every data page of the child through it. -/
theorem window_stale (h : Reachable (pagedStep L) (boot mem tsc, bootMmu L m₀ ts₀) (s, m))
    {child : Task} {rest : List Task} (hq : queue s .freequeue = child :: rest)
    (he : step s .fork = some s') {a : DWord} (ha : WindowPage (a.toNat / pageSize)) :
    ∃ fs ts, forkOps s = windowOps s child fs ++
        unmapDataOps s.current (forkWindow child fs s).mm ++ [.setCr3 s.current] ∧
      (runOps L (windowOps s child fs ++ unmapDataOps s.current (forkWindow child fs s).mm) ts
          m).translate true true a =
        some (s'.mm.frame child (a.toNat / pageSize - 20) * pageSize + a.toNat % pageSize) ∧
      userStoreAddr s'.mm s'.cr3 a.toNat = none := by
  obtain ⟨hi, hag⟩ := paged_agrees h
  obtain ⟨hu, hx⟩ := guarded_eq_some he
  obtain ⟨v, hf⟩ := returned_eq_some.mp hx
  obtain ⟨fs, ho⟩ := hi.fork_ops hq
  have hne : s.current ≠ child := (hi.placed.ne_current (hq ▸ List.mem_cons_self)).symm
  obtain ⟨w, hw, rfl⟩ := ho.done hf
  have hmm : (forkDone s.current child s.current w).2.mm =
      unmapData s.current (forkWindow child fs s).mm := by
    rw [forkDone_mm, (copyData_passive hw).unmoved.kept.mm]
  have hcr3 : (forkDone s.current child s.current w).2.cr3 = s.current :=
    congrArg Tables.cr3 (ho.apply hi hu hq hf).symm |>.trans (by
      rw [ho.ops, List.foldl_append]
      rfl)
  -- the translation while `sys_fork` copies
  have hT := hi.window_translate hne ho.grabbed ho.length hw ha true true
  have hag1 := hag.window hi hne fs [] []
  rw [List.foldl_nil] at hag1
  have hres : Mmu.resolve true true a
      ((runOps L (windowOps s child fs) [] m).walk (Mmu.pageOf a)) =
        some ((forkDone s.current child s.current w).2.mm.frame child (a.toNat / pageSize - 20) *
          pageSize + a.toNat % pageSize) := by
    rw [← hag1.tlb.translate_eq true true List.not_mem_nil,
      hag1.translate true true List.not_mem_nil, hT]
  have hwalk : (runOps L (windowOps s child fs) [] m).walk (Mmu.pageOf a) ≠ none := by
    intro hnone
    rw [hnone] at hres
    cases hres
  have htlb := runOps_tlb (L := L) (unmapDataOps_writes (c := s.current) (forkWindow child fs s).mm).assigns
    ((Touch.walk (Mmu.pageOf a) true).exec (runOps L (windowOps s child fs) [] m))
  refine ⟨fs, List.replicate (windowOps s child fs).length [] ++ [[.walk (Mmu.pageOf a) true]],
    ho.ops, ?_, ?_⟩
  · rw [runOps_append, runOps_touch (unmapDataOps_ne_nil _ _), List.foldl_cons, List.foldl_nil,
      translate_loaded hwalk htlb, hres]
  · have hzero : (unmapData s.current (forkWindow child fs s).mm).pagusrTable s.current
        (a.toNat / 4096) = .zero := by
      rw [(unmapData_apply _).2, if_pos ⟨rfl, ha⟩]
    have hdir : (unmapData s.current (forkWindow child fs s).mm).dirPages s.current = s.current := by
      rw [(unmapData_apply _).1.dirPages]
      exact hi.forkWindow_dirs hne fs s.current
    rw [hmm, hcr3]
    refine Option.eq_none_iff_forall_not_mem.mpr fun x hx => ?_
    obtain ⟨-, hok, -⟩ := translate_eq_some.mp hx
    rw [hdir, hzero] at hok
    cases hok

/-- the first page of the window -/
theorem window_stale_first : ∃ (s s' : State) (m : Mmu) (child : Task) (rest : List Task),
    Reachable (pagedStep arraysAt48) (boot (fun _ => 0) fun _ => 0, bootMmu arraysAt48 zeroMmu [])
      (s, m) ∧
    queue s .freequeue = child :: rest ∧ step s .fork = some s' ∧
    WindowPage ((0x11c000 : DWord).toNat / pageSize) ∧
    ∃ fs ts, forkOps s = windowOps s child fs ++
        unmapDataOps s.current (forkWindow child fs s).mm ++ [.setCr3 s.current] ∧
      (runOps arraysAt48 (windowOps s child fs ++
          unmapDataOps s.current (forkWindow child fs s).mm) ts m).translate true true 0x11c000 =
        some (s'.mm.frame child ((0x11c000 : DWord).toNat / pageSize - 20) * pageSize +
          (0x11c000 : DWord).toNat % pageSize) ∧
      userStoreAddr s'.mm s'.cr3 (0x11c000 : DWord).toNat = none := by
  obtain ⟨child, rest, s', hq, hs, -⟩ := boot_fork (fun _ => 0) fun _ => 0
  have hp : WindowPage ((0x11c000 : DWord).toNat / pageSize) := by
    unfold WindowPage
    decide
  exact ⟨_, s', _, child, rest, .init, hq, hs, hp, window_stale .init hq hs hp⟩

end
end Zeos
