import Mathlib.Data.List.Nodup
import Mathlib.Data.List.Basic
import Mathlib.Logic.Function.Basic

/-!
# Desks: one processor, an idle task, and queues

A desk has one running task and an indexed family of queues.  `ready` is the queue the next task
is taken from, and `idle` runs when it is empty.

* `Desk.dispatch`   give the processor to the first ready task, or to `idle`;
* `Desk.after`      the moves: `move i j t` (a task changes queue), `leave i` (the running task
                    joins the queue `i`, then `dispatch`), `drop` (`dispatch` alone);
* `Desk.Tidy`       no task is twice in the queues, and `idle` waits in `ready` only;
* `Desk.Apart`      moreover the running task is in no queue;
* `Desk.Complete`   every task but `idle` runs or waits.

Every legal move keeps `Apart` (`Desk.Apart.after`).  It keeps `Complete` unless it drops a task
(`Desk.complete_after_iff`), and it does not put `idle` in a queue unless `idle` leaves the
processor with work to do (`Desk.idle_after_iff`).
-/

set_option linter.unusedSectionVars false

namespace Desks

structure Desk (τ ι : Type*) where
  running : τ
  queue : ι → List τ

inductive Move (τ ι : Type*) where
  | move (i j : ι) (t : τ)
  | leave (i : ι)
  | drop

variable {τ ι : Type*} [DecidableEq τ] [DecidableEq ι]

/-- `t` joins the tail of the queue `i` -/
def Desk.put (d : Desk τ ι) (i : ι) (t : τ) : Desk τ ι :=
  { d with queue := Function.update d.queue i (d.queue i ++ [t]) }

/-- `t` leaves the queue `i` -/
def Desk.take (d : Desk τ ι) (i : ι) (t : τ) : Desk τ ι :=
  { d with queue := Function.update d.queue i ((d.queue i).erase t) }

def Desk.dispatch (idle : τ) (ready : ι) (d : Desk τ ι) : Desk τ ι :=
  match d.queue ready with
  | [] => { d with running := idle }
  | t :: l => ⟨t, Function.update d.queue ready l⟩

def Desk.after (idle : τ) (ready : ι) (d : Desk τ ι) : Move τ ι → Desk τ ι
  | .move i j t => (d.take i t).put j t
  | .leave i => (d.put i d.running).dispatch idle ready
  | .drop => d.dispatch idle ready

/-- The idle task does not change queue, and leaves the processor for the ready queue only. -/
def Desk.Legal (idle : τ) (ready : ι) (d : Desk τ ι) : Move τ ι → Prop
  | .move i _ t => t ∈ d.queue i ∧ t ≠ idle
  | .leave i => d.running = idle → i = ready
  | .drop => True

structure Desk.Tidy (idle : τ) (ready : ι) (d : Desk τ ι) : Prop where
  nodup : ∀ i, (d.queue i).Nodup
  once : ∀ i j, i ≠ j → ∀ t ∈ d.queue i, t ∉ d.queue j
  idle : ∀ i, i ≠ ready → idle ∉ d.queue i

structure Desk.Apart (idle : τ) (ready : ι) (d : Desk τ ι) : Prop where
  tidy : d.Tidy idle ready
  running : ∀ i, d.running ∉ d.queue i

def Desk.Complete (idle : τ) (d : Desk τ ι) : Prop :=
  ∀ t, t ≠ idle → t = d.running ∨ ∃ i, t ∈ d.queue i

variable {idle : τ} {ready : ι} {d : Desk τ ι}

/-! ## one queue operation -/

@[simp] theorem Desk.put_running (d : Desk τ ι) (i : ι) (t : τ) : (d.put i t).running = d.running :=
  rfl
@[simp] theorem Desk.take_running (d : Desk τ ι) (i : ι) (t : τ) :
    (d.take i t).running = d.running := rfl

theorem Desk.mem_put {i j : ι} {t u : τ} :
    u ∈ (d.put i t).queue j ↔ u ∈ d.queue j ∨ (j = i ∧ u = t) := by
  unfold Desk.put
  by_cases h : j = i
  · subst h
    simp
  · simp [h]

theorem Desk.Tidy.mem_take (hd : d.Tidy idle ready) {i j : ι} {t u : τ} (ht : t ∈ d.queue i) :
    u ∈ (d.take i t).queue j ↔ u ∈ d.queue j ∧ u ≠ t := by
  unfold Desk.take
  by_cases h : j = i
  · subst h
    show u ∈ Function.update d.queue j ((d.queue j).erase t) j ↔ _
    rw [Function.update_self, (hd.nodup j).mem_erase_iff]
    exact and_comm
  · show u ∈ Function.update d.queue i ((d.queue i).erase t) j ↔ _
    rw [Function.update_of_ne h]
    exact ⟨fun hu => ⟨hu, fun e => hd.once i j (Ne.symm h) t ht (e ▸ hu)⟩, fun hu => hu.1⟩

theorem Desk.Tidy.put (hd : d.Tidy idle ready) {i : ι} {t : τ} (ht : ∀ j, t ∉ d.queue j)
    (hi : t = idle → i = ready) : (d.put i t).Tidy idle ready := by
  refine ⟨fun j => ?_, fun j k hjk u hu => ?_, fun j hj hu => ?_⟩
  · by_cases h : j = i
    · subst h
      show (Function.update d.queue j (d.queue j ++ [t]) j).Nodup
      rw [Function.update_self]
      exact List.nodup_append.mpr ⟨hd.nodup j, by simp, fun a ha b hb =>
        List.mem_singleton.mp hb ▸ fun e => ht j (e ▸ ha)⟩
    · show (Function.update d.queue i (d.queue i ++ [t]) j).Nodup
      rw [Function.update_of_ne h]
      exact hd.nodup j
  · rw [Desk.mem_put] at hu ⊢
    rintro (h1 | ⟨rfl, rfl⟩)
    · rcases hu with h2 | ⟨rfl, rfl⟩
      · exact hd.once j k hjk u h2 h1
      · exact ht k h1
    · rcases hu with h2 | ⟨rfl, _⟩
      · exact ht j h2
      · exact hjk rfl
  · rcases Desk.mem_put.mp hu with h | ⟨rfl, h⟩
    · exact hd.idle j hj h
    · exact hj (hi h.symm)

theorem Desk.Tidy.take (hd : d.Tidy idle ready) {i : ι} {t : τ} (ht : t ∈ d.queue i) :
    (d.take i t).Tidy idle ready := by
  refine ⟨fun j => ?_, fun j k hjk u hu => ?_, fun j hj hu => ?_⟩
  · by_cases h : j = i
    · subst h
      show (Function.update d.queue j ((d.queue j).erase t) j).Nodup
      rw [Function.update_self]
      exact (hd.nodup j).erase t
    · show (Function.update d.queue i ((d.queue i).erase t) j).Nodup
      rw [Function.update_of_ne h]
      exact hd.nodup j
  · rw [hd.mem_take ht] at hu ⊢
    exact fun h => hd.once j k hjk u hu.1 h.1
  · exact hd.idle j hj ((hd.mem_take ht).mp hu).1

/-! ## dispatch -/

theorem Desk.dispatch_running (idle : τ) (ready : ι) (d : Desk τ ι) :
    (d.dispatch idle ready).running = (d.queue ready).headD idle := by
  unfold Desk.dispatch
  cases d.queue ready <;> rfl

theorem Desk.dispatch_cons {t : τ} {l : List τ} (h : d.queue ready = t :: l) :
    d.dispatch idle ready = ⟨t, Function.update d.queue ready l⟩ := by
  unfold Desk.dispatch
  rw [h]

theorem Desk.running_dispatch_mem (idle : τ) (ready : ι) (d : Desk τ ι) :
    (d.queue ready = [] ∧ (d.dispatch idle ready).running = idle) ∨
      (d.dispatch idle ready).running ∈ d.queue ready := by
  rw [Desk.dispatch_running]
  cases d.queue ready <;> simp

/-- the dispatched task leaves the queues, and no other does -/
theorem Desk.Tidy.mem_dispatch (hd : d.Tidy idle ready) {i : ι} {u : τ} :
    u ∈ (d.dispatch idle ready).queue i ↔
      u ∈ d.queue i ∧ u ≠ (d.dispatch idle ready).running := by
  unfold Desk.dispatch
  cases hq : d.queue ready with
  | nil =>
    show u ∈ d.queue i ↔ u ∈ d.queue i ∧ u ≠ idle
    refine ⟨fun hu => ⟨hu, fun e => ?_⟩, fun hu => hu.1⟩
    by_cases hi : i = ready
    · rw [hi, hq] at hu
      exact List.not_mem_nil hu
    · exact hd.idle i hi (e ▸ hu)
  | cons t l =>
    have hnd := hd.nodup ready
    rw [hq, List.nodup_cons] at hnd
    have ht : t ∈ d.queue ready := hq ▸ List.mem_cons_self
    by_cases hi : i = ready
    · subst hi
      show u ∈ Function.update d.queue i l i ↔ u ∈ d.queue i ∧ u ≠ t
      rw [Function.update_self, hq, List.mem_cons]
      constructor
      · exact fun hu => ⟨Or.inr hu, fun e => hnd.1 (e ▸ hu)⟩
      · rintro ⟨h | h, hne⟩
        · exact absurd h hne
        · exact h
    · show u ∈ Function.update d.queue ready l i ↔ u ∈ d.queue i ∧ u ≠ t
      rw [Function.update_of_ne hi]
      exact ⟨fun hu => ⟨hu, fun e => hd.once ready i (Ne.symm hi) t ht (e ▸ hu)⟩, fun hu => hu.1⟩

theorem Desk.Tidy.dispatch (hd : d.Tidy idle ready) : (d.dispatch idle ready).Apart idle ready := by
  refine ⟨⟨fun i => ?_, fun i j hij u hu hu' => ?_, fun i hi hu => ?_⟩, fun i hu => ?_⟩
  · unfold Desk.dispatch
    cases hq : d.queue ready with
    | nil => exact hd.nodup i
    | cons t l =>
      by_cases hi : i = ready
      · subst hi
        have hnd := hd.nodup i
        rw [hq, List.nodup_cons] at hnd
        simpa using hnd.2
      · simpa [hi] using hd.nodup i
  · exact hd.once i j hij u (hd.mem_dispatch.mp hu).1 (hd.mem_dispatch.mp hu').1
  · exact hd.idle i hi (hd.mem_dispatch.mp hu).1
  · exact (hd.mem_dispatch.mp hu).2 rfl

/-! ## moves -/

/-- the queues while the running task leaves -/
theorem Desk.Apart.put_running (hd : d.Apart idle ready) {i : ι}
    (hi : d.running = idle → i = ready) : (d.put i d.running).Tidy idle ready :=
  hd.tidy.put hd.running hi

theorem Desk.Apart.mem_move (hd : d.Apart idle ready) {i j k : ι} {t u : τ} (ht : t ∈ d.queue i) :
    u ∈ (d.after idle ready (.move i j t)).queue k ↔ (u ∈ d.queue k ∧ u ≠ t) ∨ (k = j ∧ u = t) := by
  show u ∈ ((d.take i t).put j t).queue k ↔ _
  rw [Desk.mem_put, hd.tidy.mem_take ht]

/-- **Every legal move keeps the tasks apart.** -/
theorem Desk.Apart.after (hd : d.Apart idle ready) {m : Move τ ι} (hm : d.Legal idle ready m) :
    (d.after idle ready m).Apart idle ready := by
  cases m with
  | move i j t =>
    obtain ⟨ht, hti⟩ := hm
    have hmem := fun k u => hd.tidy.mem_take (j := k) (u := u) ht
    refine ⟨(hd.tidy.take ht).put (fun k hk => ((hmem k t).mp hk).2 rfl) fun e => absurd e hti, ?_⟩
    intro k hk
    rcases (hd.mem_move ht).mp hk with h | ⟨_, h⟩
    · exact hd.running k h.1
    · exact hd.running i (h ▸ ht)
  | leave i => exact (hd.put_running hm).dispatch
  | drop => exact hd.tidy.dispatch

theorem Desk.complete_move (hd : d.Apart idle ready) {i j : ι} {t : τ} (ht : t ∈ d.queue i)
    (hc : d.Complete idle) : (d.after idle ready (.move i j t)).Complete idle := by
  intro u hu
  rcases hc u hu with h | ⟨k, hk⟩
  · exact Or.inl h
  · by_cases e : u = t
    · exact Or.inr ⟨j, (hd.mem_move ht).mpr (Or.inr ⟨rfl, e⟩)⟩
    · exact Or.inr ⟨k, (hd.mem_move ht).mpr (Or.inl ⟨hk, e⟩)⟩

theorem Desk.Tidy.complete_dispatch (hd : d.Tidy idle ready)
    (hc : ∀ u, u ≠ idle → ∃ i, u ∈ d.queue i) : (d.dispatch idle ready).Complete idle := by
  intro u hu
  obtain ⟨i, hi⟩ := hc u hu
  by_cases e : u = (d.dispatch idle ready).running
  · exact Or.inl e
  · exact Or.inr ⟨i, hd.mem_dispatch.mpr ⟨hi, e⟩⟩

/-- **A legal move loses a task exactly when it drops one.** -/
theorem Desk.complete_after_iff (hd : d.Apart idle ready) (hc : d.Complete idle) {m : Move τ ι}
    (hm : d.Legal idle ready m) :
    (d.after idle ready m).Complete idle ↔ (m = .drop → d.running = idle) := by
  cases m with
  | move i j t => exact ⟨fun _ h => (nomatch h), fun _ => Desk.complete_move hd hm.1 hc⟩
  | leave i =>
    refine ⟨fun _ h => (nomatch h), fun _ => (hd.put_running hm).complete_dispatch fun u hu => ?_⟩
    rcases hc u hu with h | ⟨k, hk⟩
    · exact ⟨i, Desk.mem_put.mpr (Or.inr ⟨rfl, h⟩)⟩
    · exact ⟨k, Desk.mem_put.mpr (Or.inl hk)⟩
  | drop =>
    constructor
    · intro hc' _
      by_contra hne
      rcases hc' d.running hne with h | ⟨i, hi⟩
      · rcases d.running_dispatch_mem idle ready with ⟨_, h1⟩ | h1
        · exact hne (h.trans h1)
        · exact hd.running ready (h ▸ h1)
      · exact hd.running i (hd.tidy.mem_dispatch.mp hi).1
    · intro h
      refine hd.tidy.complete_dispatch fun u hu => ?_
      rcases hc u hu with h1 | h1
      · exact absurd (h1.trans (h rfl)) hu
      · exact h1

/-- **The idle task is queued exactly when it leaves the processor and others wait.** -/
theorem Desk.idle_after_iff (hd : d.Apart idle ready) (hi : idle ∉ d.queue ready) {m : Move τ ι}
    (hm : d.Legal idle ready m) :
    idle ∉ (d.after idle ready m).queue ready ↔
      (m = .leave ready → d.running = idle → d.queue ready = []) := by
  cases m with
  | move i j t =>
    refine ⟨fun _ h => (nomatch h), fun _ h => ?_⟩
    rcases (hd.mem_move hm.1).mp h with h1 | ⟨_, h1⟩
    · exact hi h1.1
    · exact hm.2 h1.symm
  | leave i =>
    show idle ∉ ((d.put i d.running).dispatch idle ready).queue ready ↔ _
    rw [(hd.put_running hm).mem_dispatch, Desk.mem_put]
    constructor
    · intro h e hr
      obtain rfl : i = ready := (Move.leave.inj e)
      by_contra hq
      refine h ⟨Or.inr ⟨rfl, hr.symm⟩, ?_⟩
      rw [Desk.dispatch_running]
      show idle ≠ (Function.update d.queue i (d.queue i ++ [d.running]) i).headD idle
      rw [Function.update_self]
      cases hl : d.queue i with
      | nil => exact absurd hl hq
      | cons t l =>
        intro e
        refine hi ?_
        rw [hl, e]
        exact List.mem_cons_self
    · rintro h ⟨h1 | ⟨rfl, h1⟩, hne⟩
      · exact hi h1
      · have hq := h rfl h1.symm
        rw [Desk.dispatch_running] at hne
        refine hne ?_
        show idle = (Function.update d.queue ready (d.queue ready ++ [d.running]) ready).headD idle
        rw [Function.update_self, hq]
        exact h1
  | drop =>
    refine ⟨fun _ h => (nomatch h), fun _ h => hi (hd.tidy.mem_dispatch.mp h).1⟩

theorem Desk.Apart.idle_after (hd : d.Apart idle ready) (hi : idle ∉ d.queue ready) {m : Move τ ι}
    (hm : d.Legal idle ready m) (hn : m = .leave ready → d.running ≠ idle) :
    idle ∉ (d.after idle ready m).queue ready :=
  (Desk.idle_after_iff hd hi hm).mpr fun e he => absurd he (hn e)

/-! ## frames -/

/-- the queue that a move puts a task into -/
def Move.goal : Move τ ι → Option ι
  | .move _ j _ => some j
  | .leave i => some i
  | .drop => none

/-- a queue that is not the goal of a move gets nobody -/
theorem Desk.Apart.of_mem_after (hd : d.Apart idle ready) {m : Move τ ι}
    (hm : d.Legal idle ready m) {k : ι} {u : τ} (hk : m.goal ≠ some k)
    (hu : u ∈ (d.after idle ready m).queue k) : u ∈ d.queue k := by
  cases m with
  | move i j t =>
    rcases (hd.mem_move hm.1).mp hu with h | ⟨h, -⟩
    · exact h.1
    · exact absurd (congrArg some h.symm) hk
  | leave i =>
    rcases Desk.mem_put.mp ((hd.put_running hm).mem_dispatch.mp hu).1 with h | ⟨h, -⟩
    · exact h
    · exact absurd (congrArg some h.symm) hk
  | drop => exact (hd.tidy.mem_dispatch.mp hu).1

theorem Desk.put_queue_of_ne {i k : ι} (h : k ≠ i) (t : τ) : (d.put i t).queue k = d.queue k :=
  Function.update_of_ne h _ _

theorem Desk.put_queue_self (i : ι) (t : τ) : (d.put i t).queue i = d.queue i ++ [t] :=
  Function.update_self ..

theorem Desk.take_queue_of_ne {i k : ι} (h : k ≠ i) (t : τ) : (d.take i t).queue k = d.queue k :=
  Function.update_of_ne h _ _

theorem Desk.dispatch_queue_of_ne {k : ι} (h : k ≠ ready) :
    (d.dispatch idle ready).queue k = d.queue k := by
  unfold Desk.dispatch
  cases d.queue ready with
  | nil => rfl
  | cons t l => exact Function.update_of_ne h _ _

/-- a move writes the ready queue and the queues it names -/
theorem Desk.move_queue_of_ne {i j k : ι} {t : τ} (hi : k ≠ i) (hj : k ≠ j) :
    (d.after idle ready (.move i j t)).queue k = d.queue k :=
  (Desk.put_queue_of_ne hj t).trans (Desk.take_queue_of_ne hi t)

theorem Desk.leave_queue_of_ne {i k : ι} (hi : k ≠ i) (hr : k ≠ ready) :
    (d.after idle ready (.leave i)).queue k = d.queue k :=
  (Desk.dispatch_queue_of_ne hr).trans (Desk.put_queue_of_ne hi _)

theorem Desk.leave_queue_self {i : ι} (hr : i ≠ ready) :
    (d.after idle ready (.leave i)).queue i = d.queue i ++ [d.running] :=
  (Desk.dispatch_queue_of_ne hr).trans (Desk.put_queue_self i _)

/-! ## several moves -/

def Desk.afterAll (idle : τ) (ready : ι) (d : Desk τ ι) (ms : List (Move τ ι)) : Desk τ ι :=
  ms.foldl (Desk.after idle ready) d

def Desk.AllLegal (idle : τ) (ready : ι) (d : Desk τ ι) : List (Move τ ι) → Prop
  | [] => True
  | m :: ms => d.Legal idle ready m ∧ (d.after idle ready m).AllLegal idle ready ms

theorem Desk.Apart.afterAll {ms : List (Move τ ι)} (hd : d.Apart idle ready)
    (hm : d.AllLegal idle ready ms) : (d.afterAll idle ready ms).Apart idle ready := by
  induction ms generalizing d with
  | nil => exact hd
  | cons m ms ih => exact ih (hd.after hm.1) hm.2

/-- moves that drop nobody lose no task -/
theorem Desk.Apart.complete_afterAll {ms : List (Move τ ι)} (hd : d.Apart idle ready)
    (hc : d.Complete idle) (hm : d.AllLegal idle ready ms) (hn : ∀ m ∈ ms, m ≠ .drop) :
    (d.afterAll idle ready ms).Complete idle := by
  induction ms generalizing d with
  | nil => exact hc
  | cons m ms ih =>
    have h1 : m ≠ .drop := hn m List.mem_cons_self
    refine ih (hd.after hm.1) ?_ hm.2 fun m' hm' => hn m' (List.mem_cons_of_mem _ hm')
    exact (Desk.complete_after_iff hd hc hm.1).mpr fun e => absurd e h1

theorem Desk.Apart.of_mem_afterAll {ms : List (Move τ ι)} (hd : d.Apart idle ready)
    (hm : d.AllLegal idle ready ms) {k : ι} {u : τ} (hk : ∀ m ∈ ms, m.goal ≠ some k)
    (hu : u ∈ (d.afterAll idle ready ms).queue k) : u ∈ d.queue k := by
  induction ms generalizing d with
  | nil => exact hu
  | cons m ms ih =>
    have h := ih (hd.after hm.1) hm.2 (fun m' hm' => hk m' (List.mem_cons_of_mem _ hm')) hu
    exact hd.of_mem_after hm.1 (hk m List.mem_cons_self) h

end Desks
