import ZeroOS.Lib.Desks
import ZeroOS.Zeos.Kernel

/-!
# Zeos: the queues as sequences

`Rep s d` says that the rings of `struct list_head`s of `s` are the queues of the desk `d`, and
that its running task is `current`.  Each function of the kernel that moves a PCB is a move of
the desk (`schedNextRr_rep`, `blockProcess_rep`, ...); what it does to other data is not seen.
`Rep.desk_eq` reads the desk back from the state.
-/

set_option linter.unusedSectionVars false

namespace Zeos
open Rings Desks

/-- the rings of the queue heads hold the sequences `Q` -/
def Linked (h : Heap ListHead) (Q : Queue → List Task) : Prop :=
  Family h ListHead.queue fun q => (Q q).map ListHead.list

theorem list_injective : Function.Injective ListHead.list := fun _ _ h => ListHead.list.inj h

theorem map_update (Q : Queue → List Task) (i : Queue) (l : List Task) :
    (fun q => (Function.update Q i l q).map ListHead.list) =
      Function.update (fun q => (Q q).map ListHead.list) i (l.map ListHead.list) := by
  funext q
  by_cases h : q = i
  · subst h
    simp
  · simp [h]

section
variable {h : Heap ListHead} {Q : Queue → List Task} {t : Task}

theorem Linked.nodup (hL : Linked h Q) (q : Queue) : (Q q).Nodup :=
  (List.nodup_cons.mp (hL.ring q).2).2.of_map _

/-- the `list` field of a task in no queue is in no ring -/
theorem Linked.out (ht : ∀ q, t ∉ Q q) (q : Queue) :
    ListHead.list t ∉ ListHead.queue q :: (Q q).map ListHead.list := by
  rw [List.mem_cons, List.mem_map_of_injective list_injective]
  rintro (h | h)
  · cases h
  · exact ht q h

theorem Linked.add (hL : Linked h Q) (ht : ∀ q, t ∉ Q q) (q : Queue) :
    Linked (listAdd h (.list t) (.queue q)) (Function.update Q q (t :: Q q)) := by
  unfold Linked
  rw [map_update]
  exact listAdd_family hL (Linked.out ht) q

theorem Linked.addTail (hL : Linked h Q) (ht : ∀ q, t ∉ Q q) (q : Queue) :
    Linked (listAddTail h (.list t) (.queue q)) (Function.update Q q (Q q ++ [t])) := by
  unfold Linked
  rw [map_update, List.map_append]
  exact listAddTail_family hL (Linked.out ht) q

theorem Linked.del (hL : Linked h Q) {q : Queue} (ht : t ∈ Q q) :
    Linked (listDel .null h (.list t)) (Function.update Q q ((Q q).erase t)) := by
  unfold Linked
  rw [map_update, List.map_erase list_injective]
  exact listDel_family hL (List.mem_map_of_mem ht) .null

/-- the links of a task in no queue may be overwritten -/
theorem Linked.setLinks (hL : Linked h Q) (ht : ∀ q, t ∉ Q q) (a b : ListHead) :
    Linked ((h.setNext (.list t) a).setPrev (.list t) b) Q :=
  setLinks_family hL (Linked.out ht) a b

theorem Linked.empty_iff (hL : Linked h Q) (q : Queue) :
    listEmpty h (.queue q) = true ↔ Q q = [] := by
  rw [listEmpty_iff hL q, List.map_eq_nil_iff]

theorem Linked.first (hL : Linked h Q) {q : Queue} {l : List Task} (hq : Q q = t :: l) :
    listFirst h (.queue q) = .list t := by
  rw [listFirst_eq hL q, hq]
  rfl

theorem takeFirst_eq {s : State} (hL : Linked s.links Q) {q : Queue} {l : List Task}
    (hq : Q q = t :: l) :
    takeFirst q s = (t, s.setLinks (listDel .null s.links (.list t))) := by
  unfold takeFirst
  rw [hL.first hq]
  rfl

theorem Linked.del_first (hL : Linked h Q) {q : Queue} {l : List Task} (hq : Q q = t :: l) :
    Linked (listDel .null h (.list t)) (Function.update Q q l) := by
  have h1 := hL.del (q := q) (hq ▸ List.mem_cons_self)
  rwa [hq, List.erase_cons_head] at h1

/-- `list_for_each` finds the sequences -/
theorem Linked.queue_eq {s : State} (hL : Linked s.links Q) : queue s = Q := by
  funext q
  have hn : ((Q q).map ListHead.list).length ≤ nrTasks := by
    rw [List.length_map]
    exact (hL.nodup q).length_le_card.trans_eq (Fintype.card_fin nrTasks)
  unfold queue
  rw [(hL.ring q).walk_eq hn, List.map_map]
  exact List.map_id _

end

/-! ## desks -/

/-- the desk a state stands for, if its rings are well formed -/
def desk (s : State) : Desk Task Queue := ⟨s.current, queue s⟩

structure Rep (s : State) (d : Desk Task Queue) : Prop where
  linked : Linked s.links d.queue
  current : s.current = d.running

theorem Rep.desk_eq {s : State} {d : Desk Task Queue} (h : Rep s d) : desk s = d := by
  unfold desk
  rw [h.linked.queue_eq, h.current]

theorem Rep.of_desk {s : State} {d : Desk Task Queue} (h : Rep s d) : Rep s (desk s) :=
  h.desk_eq ▸ h

theorem Rep.congr {s s' : State} {d : Desk Task Queue} (h : Rep s d) (hl : s'.links = s.links)
    (hc : s'.current = s.current) : Rep s' d :=
  ⟨hl ▸ h.linked, hc.trans h.current⟩

section
variable {s : State} {d : Desk Task Queue} {t : Task}

theorem updateCurrentStateRr_rep (h : Rep s d) (hr : ∀ q, d.running ∉ d.queue q) (q : Queue) :
    Rep (updateCurrentStateRr q s) (d.put q d.running) := by
  refine ⟨?_, h.current⟩
  show Linked (listAddTail s.links (.list s.current) (.queue q)) _
  rw [h.current]
  exact h.linked.addTail hr q

theorem taskSwitch_rep (h : Rep s d) (k : Resume) (t : Task) :
    Rep (taskSwitch k t s) { d with running := t } := ⟨h.linked, rfl⟩

theorem schedNextRr_rep (h : Rep s d) (k : Resume) :
    Rep (schedNextRr k s) (d.dispatch s.idleTask .readyqueue) := by
  unfold schedNextRr Desk.dispatch
  cases hq : d.queue .readyqueue with
  | nil =>
    rw [if_pos ((h.linked.empty_iff _).mpr hq)]
    exact taskSwitch_rep h k s.idleTask
  | cons t l =>
    have hne : ¬ listEmpty s.links (.queue .readyqueue) = true := by
      rw [h.linked.empty_iff, hq]
      exact List.cons_ne_nil t l
    rw [if_neg hne, takeFirst_eq h.linked hq]
    exact ⟨h.linked.del_first hq, rfl⟩

theorem schedNextRr_cpuQuantum (h : Rep s d) {l : List Task} (hq : d.queue .readyqueue = t :: l)
    (k : Resume) : (schedNextRr k s).cpuQuantum = (s.task t).quantum := by
  have hne : ¬ listEmpty s.links (.queue .readyqueue) = true := by
    rw [h.linked.empty_iff, hq]
    exact List.cons_ne_nil t l
  unfold schedNextRr
  rw [if_neg hne, takeFirst_eq h.linked hq]
  rfl

theorem leave_rep (h : Rep s d) (hr : ∀ q, d.running ∉ d.queue q) (k : Resume) (q : Queue) :
    Rep (schedNextRr k (updateCurrentStateRr q s)) (d.after s.idleTask .readyqueue (.leave q)) :=
  schedNextRr_rep (updateCurrentStateRr_rep h hr q) k

theorem blockProcess_rep (h : Rep s d) (hr : ∀ q, d.running ∉ d.queue q) (c : Caller) (q : Queue) :
    Rep (blockProcess c q s) (d.after s.idleTask .readyqueue (.leave q)) := by
  have h1 : Rep (((updateCurrentStateRr q s).account s.current
      TaskStruct.assignSystem).setTState s.current .stBlocked) (d.put q d.running) :=
    (updateCurrentStateRr_rep h hr q).congr rfl rfl
  exact schedNextRr_rep h1 (.console c)

/-- `list_del`, then `list_add_tail` -/
theorem wake_linked (h : Rep s d) (hd : d.Tidy s.idleTask .readyqueue) {i : Queue}
    (ht : t ∈ d.queue i) :
    Linked (listAddTail (listDel .null s.links (.list t)) (.list t) (.queue .readyqueue))
      (d.after s.idleTask .readyqueue (.move i .readyqueue t)).queue :=
  (h.linked.del ht).addTail (fun _ hq => ((hd.mem_take ht).mp hq).2 rfl) .readyqueue

/-- `unblock_process`, up to its `needs_sched` -/
def wake (t : Task) (s : State) : State :=
  let s := s.setLinks (listDel .null s.links (.list t))
  let s := s.setLinks (listAddTail s.links (.list t) (.queue .readyqueue))
  (actTicks .blocked t s).setTState t .stReady

theorem unblockProcess_eq (c : Caller) (t : Task) (s : State) :
    unblockProcess c t s =
      if s.cpuQuantum ≤ 0 then
        schedNextRr (.console c) (updateCurrentStateRr .readyqueue (wake t s))
      else wake t s := by
  have hn : needsSchedRr (wake t s) = decide (s.cpuQuantum ≤ 0) := rfl
  show (if needsSchedRr (wake t s) = true then _ else _) = _
  rw [hn]
  simp only [decide_eq_true_iff]
  rfl

theorem unblockProcess_rep (h : Rep s d) (hd : d.Apart s.idleTask .readyqueue) {i : Queue}
    (ht : t ∈ d.queue i) (hi : t ≠ s.idleTask) (c : Caller) :
    Rep (unblockProcess c t s)
      (if s.cpuQuantum ≤ 0 then
        (d.after s.idleTask .readyqueue (.move i .readyqueue t)).after s.idleTask .readyqueue
          (.leave .readyqueue)
      else d.after s.idleTask .readyqueue (.move i .readyqueue t)) := by
  have h1 : Rep (wake t s) (d.after s.idleTask .readyqueue (.move i .readyqueue t)) :=
    ⟨wake_linked h hd.tidy ht, h.current⟩
  have hd1 := hd.after (m := .move i .readyqueue t) ⟨ht, hi⟩
  rw [unblockProcess_eq]
  by_cases hq : s.cpuQuantum ≤ 0
  · rw [if_pos hq, if_pos hq]
    exact leave_rep h1 hd1.running (.console c) .readyqueue
  · rw [if_neg hq, if_neg hq]
    exact h1

end
end Zeos
