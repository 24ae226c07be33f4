import ZeroOS.Lib.X86
import ZeroOS.Zeos.Libc
import ZeroOS.Zeos.Refinement
import ZeroOS.Zeos.Ticks

/-!
# Zeos: the statistics that `user.c` prints

* `print`, `printAct`, `printStats`   the functions of `user.c`;
* `Books`             the ticks that a process was born with, inherited, and lost;
* `step_settled`      the counters of a process add up to its time, less what is lost;
* `totals_reported`   **what the lines of `print` say**, and the total above all.
-/

set_option linter.unusedVariables false

namespace Zeos
open CStrings Runs Spaces

/-! ## user.c -/

/-- `write (1, text, n)` of a constant -/
def written (text : String) (n : Nat) : List Byte := (ascii text).take n

/-- `print`; `buff k` is what stands in the buffer of the `k`-th `print_int` -/
def print (buff : Nat → Nat → Byte) (st : Stats) : Option (List Byte) := do
  let n := st.userTicks
  let user ← printInt 12 n.toInt (buff 0)
  let t := n
  let n := st.blockedTicks
  let t := t + n
  let blocked ← printInt 12 n.toInt (buff 1)
  let n := st.readyTicks
  let t := t + n
  let ready ← printInt 12 n.toInt (buff 2)
  let n := st.systemTicks
  let t := t + n
  let system ← printInt 12 n.toInt (buff 3)
  let total ← printInt 12 t.toInt (buff 4)
  return written "user:\n" 6 ++ user ++ (written "blocked:\n" 9 ++ blocked) ++
    (written "ready:\n" 7 ++ ready) ++ (written "system:\n" 8 ++ system) ++
    (written "total:\n" 7 ++ total)

/-- `print_act`: `e` is what the first `get_stats` returns -/
def printAct (buff : Nat → Nat → Byte) (pid : DWord) (e : Int) (st st2 : Stats) :
    Option (List Byte) := do
  let line ← printInt 12 pid.toInt (buff 5)
  let head := written "\nPID: " 5 ++ line
  if e ≠ 0 then return head ++ written "error\n" 6
  else
    let act ← print buff st
    if pid.toInt = 1 then
      let idle ← print buff st2
      return head ++ act ++ written "IDLE:\n" 6 ++ idle
    else return head ++ act

/-- The loop of `print_stats`: `e` is what `get_stats (i, &st)` leaves in `st`, if it succeeds. -/
def printStats (buff : Nat → Nat → Byte) : List (Option Stats) → Stats → Option (List Byte)
  | [], _ => some []
  | e :: es, st => do
    let st := e.getD st
    let text ← print buff st
    let rest ← printStats buff es st
    return written "##############\n" 15 ++ text ++ rest

/-! ## the lines -/

def report (st : Stats) (total : DWord) : List Byte :=
  ascii "user:\n" ++ line st.userTicks ++ (ascii "blocked:\n" ++ line st.blockedTicks) ++
    (ascii "ready:\n" ++ line st.readyTicks) ++ (ascii "system:\n" ++ line st.systemTicks) ++
    (ascii "total:\n" ++ line total)

def Stats.total (st : Stats) : DWord :=
  st.userTicks + st.systemTicks + st.blockedTicks + st.readyTicks

theorem print_eq (buff : Nat → Nat → Byte) (st : Stats) :
    print buff st = some (report st st.total) := by
  have htotal : st.userTicks + st.blockedTicks + st.readyTicks + st.systemTicks = st.total := by
    unfold Stats.total
    ring
  unfold print
  simp only [printInt_line, htotal]
  rfl

/-- what `st` holds after each round of `print_stats`: the statistics of the process, or, where
there is none with this PID, those of the round before -/
def held : List (Option Stats) → Stats → List Stats
  | [], _ => []
  | e :: es, st => e.getD st :: held es (e.getD st)

theorem printStats_eq (buff : Nat → Nat → Byte) (es : List (Option Stats)) (st : Stats) :
    printStats buff es st =
      some ((held es st).flatMap fun x => ascii "##############\n" ++ report x x.total) := by
  induction es generalizing st with
  | nil => rfl
  | cons e es ih =>
    unfold printStats
    simp only [print_eq, ih]
    rfl

theorem printAct_eq (buff : Nat → Nat → Byte) (pid : DWord) (e : Int) (st st2 : Stats) :
    printAct buff pid e st st2 = some (ascii "\nPID:" ++ line pid ++
      if e ≠ 0 then ascii "error\n"
      else report st st.total ++
        if pid.toInt = 1 then ascii "IDLE:\n" ++ report st2 st2.total else []) := by
  unfold printAct
  simp only [printInt_line, print_eq, Option.bind_eq_bind, Option.bind_some]
  by_cases he : e ≠ 0
  · rw [if_pos he, if_pos he]
    rfl
  · rw [if_neg he, if_neg he]
    by_cases hp : pid.toInt = 1
    · simp only [if_pos hp, List.append_assoc]
      rfl
    · simp only [if_neg hp, List.append_nil]
      rfl

/-- **What the programs print about the statistics.**  The total is the sum of the four counters;
`print_stats` prints the record of the round before where there is no process with the PID. -/
theorem texts_printed (buff : Nat → Nat → Byte) :
    (∀ n b, printInt 12 (n : DWord).toInt b = some (line n)) ∧
    (∀ st, print buff st = some (report st st.total)) ∧
    (∀ pid e st st2, printAct buff pid e st st2 = some (ascii "\nPID:" ++ line pid ++
      if e ≠ 0 then ascii "error\n"
      else report st st.total ++
        if pid.toInt = 1 then ascii "IDLE:\n" ++ report st2 st2.total else [])) ∧
    ∀ es st, printStats buff es st =
      some ((held es st).flatMap fun x => ascii "##############\n" ++ report x x.total) :=
  ⟨printInt_line, print_eq buff, printAct_eq buff, printStats_eq buff⟩

section
variable {s s' : State} {t : Task}

/-! ## the books -/

/-- the timestamp that a process was born with, the ready ticks that it has then from its parent,
and the system ticks that `block_process` has overwritten since -/
structure Books where
  birth : Task → DWord
  inherited : Task → DWord
  lost : Task → DWord

def Event.blocks : Event → Bool
  | .block _ => true
  | _ => false

def enter (s : State) (e : Event) (s' : State) (h : Books) : Books where
  birth := births s e s' h.birth
  inherited t :=
    if ¬ live s t ∧ live s' t then (s.task s.current).statics.readyTicks else h.inherited t
  lost t :=
    if ¬ live s t ∧ live s' t then 0
    else if e.blocks ∧ t = s.current then h.lost t + (s.task t).statics.systemTicks
    else h.lost t

def bootBooks (s : State) : Books := ⟨bootBirths s, fun _ => 0, fun _ => 0⟩

def Settled (s : State) (h : Books) : Prop :=
  ∀ t, live s t → (s.task t).debt = h.inherited t - h.lost t - h.birth t

/-- the debt of a process changes only where `block_process` overwrites its system ticks -/
theorem step_debt (hi : Inv s) {e : Event} (he : step s e = some s') (ht : live s t)
    (ht' : live s' t) : (s'.task t).debt =
      if e.blocks ∧ t = s.current then (s.task t).debt - (s.task t).statics.systemTicks
      else (s.task t).debt := by
  have hkeep : e.blocks = false → (s'.task t).debt = (s.task t).debt →
      (s'.task t).debt = if e.blocks ∧ t = s.current then
        (s.task t).debt - (s.task t).statics.systemTicks else (s.task t).debt := by
    intro hb hd
    rw [hd, hb]
    exact (if_neg fun h => nomatch h.1).symm
  cases step_cases he with
  | fork hu hf =>
    refine hkeep rfl ?_
    rcases hi.forked hu hf with ⟨-, -, hserv⟩ | ⟨child, rest, fs, hq, -, -, hsp, -⟩
    · exact (hserv.audited t).debt
    · have hne : t ≠ child := fun e => ht.2 (e ▸ hq ▸ List.mem_cons_self)
      rw [hsp.task, if_neg hne]
      by_cases hcur : t = s.current
      · rw [if_pos hcur, tick_debt, tick_debt, hcur]
      · rw [if_neg hcur]
  | exit hu =>
    have hx := hi.exited hu
    rw [hx.live_iff] at ht'
    refine hkeep rfl ?_
    rw [hx.task, if_neg ht'.2]
  | read hu => exact hkeep rfl rfl
  | service hs hu hserv =>
    refine hkeep ?_ (hserv.audited t).debt
    cases e <;> first | rfl | cases hs
  | clock hu => exact hkeep rfl (actTicks_audited .user s.current s t).debt
  | block c i hc hne =>
    rw [blockProcess_task]
    by_cases hcur : t = s.current
    · rw [if_pos hcur, if_pos ⟨rfl, hcur⟩]
      exact (tick_debt ..).trans (assignSystem_debt ..)
    · rw [if_neg hcur, if_neg fun h => hcur h.2]
  | unblock c i u hc hu =>
    refine hkeep rfl ?_
    rcases unblock_cases c (hi.placed.ne_current hu) with ⟨-, -, -, h3⟩ | ⟨-, -, h3⟩
    · rw [h3]
      split
      · exact woken_debt ..
      · rfl
    · rw [h3]
      split
      · exact woken_debt ..
      · split
        · exact tick_debt ..
        · rfl
  | ret c hc =>
    refine hkeep rfl ?_
    rcases ret_cases hc with ⟨-, -, -, -, h3⟩ | ⟨-, -, h3, h4⟩
    · exact (h3 t).debt
    · by_cases hcur : t = s.current
      · rw [hcur]
        exact h4.debt
      · exact (h3 t hcur).debt
  | resume hc =>
    refine hkeep rfl ?_
    rw [resume_task]
    split
    · exact resumed_debt ..
    · rfl

/-- a process is born with the ready ticks of its parent -/
theorem step_inherits (hi : Inv s) {e : Event} (he : step s e = some s') (hn : ¬ live s t)
    (ht : live s' t) : (s'.task t).debt =
      (s.task s.current).statics.readyTicks - (s'.task t).statics.elapsedTotalTicks := by
  cases step_evolves hi he with
  | still hk hr hf =>
    rw [live_congr hk.idleTask hf] at ht
    exact absurd ht hn
  | fork child rest fs hu hq hlen hg hsp =>
    rw [hsp.live_iff hi (hq ▸ List.mem_cons_self)] at ht
    obtain rfl := ht.resolve_left hn
    rw [hsp.task, if_pos rfl, iniStats_debt]
    rfl
  | exit hu hx =>
    rw [hx.live_iff] at ht
    exact absurd ht.1 hn

theorem step_settled {h : Books} (hi : Inv s) (hs : Settled s h) {e : Event}
    (he : step s e = some s') : Settled s' (enter s e s' h) := by
  intro t ht'
  by_cases ht : live s t
  · have hold : ¬ (¬ live s t ∧ live s' t) := fun h1 => h1.1 ht
    unfold enter births
    dsimp only
    rw [if_neg hold, if_neg hold, if_neg hold, step_debt hi he ht ht', hs t ht]
    by_cases hb : e.blocks ∧ t = s.current
    · rw [if_pos hb, if_pos hb]
      ring
    · rw [if_neg hb, if_neg hb]
  · have hnew : ¬ live s t ∧ live s' t := ⟨ht, ht'⟩
    unfold enter births
    dsimp only
    rw [if_pos hnew, if_pos hnew, if_pos hnew, step_inherits hi he ht ht', sub_zero]

theorem reachable_settled (mem : Nat → Byte) (tsc : Nat → DWord) {h : Books}
    (hr : Reachable (tagged step enter) (boot mem tsc, bootBooks (boot mem tsc)) (s, h)) :
    Inv s ∧ Settled s h := by
  apply hr.tagged (I := fun s h => Inv s ∧ Settled s h)
  · refine ⟨boot_inv mem tsc, fun t ht => ?_⟩
    rw [balanced_iff.mp (boot_balanced mem tsc) t ht]
    show _ = (0 : DWord) - 0 - _
    rw [sub_zero, zero_sub]
    rfl
  · intro s h e s' hx he
    exact ⟨step_inv hx.1 he, step_settled hx.1 hx.2 he⟩

/-! ## what is reported -/

/-- the PCB of `t` when `sys_get_stats` copies the statistics: the ticks of the caller have been
charged up to then -/
def upToDate (s : State) (t : Task) : TaskStruct :=
  (actTicksKernel2user (actTicksUser2kernel s)).task t

theorem upToDate_audited (s : State) (t : Task) : Audited (s.task t) (upToDate s t) :=
  (actTicks_audited .user s.current s t).trans (actTicks_audited .system s.current _ t)

/-- the record of `sys_get_stats` is the statistics of a task with the PID -/
theorem statsBytes_found {pid : Int} (hex : ¬ ∀ t, (s.task t).pid ≠ pid) :
    ∃ t, (s.task t).pid = pid ∧ statsBytes s pid = (upToDate s t).statics.bytes := by
  have hpid := user2kernel_pid s
  unfold statsBytes
  dsimp only
  by_cases hcur : ((actTicksUser2kernel s).task (actTicksUser2kernel s).current).pid = pid
  · rw [if_pos hcur]
    exact ⟨s.current, (hpid s.current).symm.trans hcur, rfl⟩
  · rw [if_neg hcur]
    cases hf : (List.finRange nrTasks).find? fun i => ((actTicksUser2kernel s).task i).pid = pid with
    | none =>
      exact absurd (find_pid_none hpid hf) hex
    | some t =>
      have ht := find_pid_some hpid hf
      have hne : t ≠ s.current := fun h => hcur ((hpid s.current).trans (h ▸ ht))
      have hup : upToDate s t = (actTicksUser2kernel s).task t := by
        unfold upToDate actTicksKernel2user actTicks
        rw [account_task]
        exact if_neg hne
      exact ⟨t, ht, by rw [hup]⟩

theorem total_eq (x : TaskStruct) : x.statics.total = x.debt + x.statics.elapsedTotalTicks := by
  unfold Stats.total TaskStruct.debt
  ring

/-- a word of user memory -/
def wordAt (b : Nat → Byte) (a : Nat) : DWord := b (a + 3) ++ b (a + 2) ++ b (a + 1) ++ b a

/-- the record that user code finds at `a` -/
def statsAt (b : Nat → Byte) (a : Nat) : Stats :=
  ⟨wordAt b a, wordAt b (a + 4), wordAt b (a + 8), wordAt b (a + 12), wordAt b (a + 16),
    wordAt b (a + 20), wordAt b (a + 24)⟩

theorem wordAt_bytes {b : Nat → Byte} {a : Nat} {w : DWord}
    (h : ∀ i, i < 4 → b (a + i) = (w >>> (8 * i)).setWidth 8) : wordAt b a = w := by
  have h0 := h 0 (by decide)
  have h1 := h 1 (by decide)
  have h2 := h 2 (by decide)
  have h3 := h 3 (by decide)
  rw [BitVec.setWidth_ushiftRight_eq_extractLsb] at h0 h1 h2 h3
  unfold wordAt
  rw [h3, h2, h1, show b a = _ from h0]
  exact X86.Mem.bytes_append w

theorem statsAt_bytes {b : Nat → Byte} {a : Nat} {st : Stats}
    (h : ∀ i, i < sizeofStats → b (a + i) = st.bytes i) : statsAt b a = st := by
  have hword : ∀ k (w : DWord), k < 7 → (∀ i, i < 4 → st.bytes (4 * k + i) =
      (w >>> (8 * i)).setWidth 8) → wordAt b (a + 4 * k) = w := by
    intro k w hk hw
    refine wordAt_bytes fun i hi => ?_
    rw [Nat.add_assoc, h (4 * k + i) (by simp only [sizeofStats]; omega), hw i hi]
  have hbytes : ∀ k i, i < 4 → st.bytes (4 * k + i) =
      ((([st.userTicks, st.systemTicks, st.blockedTicks, st.readyTicks, st.elapsedTotalTicks,
        st.totalTrans, st.remainingTicks].getD k 0) >>> (8 * i)).setWidth 8 : Byte) := by
    intro k i hi
    unfold Stats.bytes
    rw [show (4 * k + i) / 4 = k by omega, show (4 * k + i) % 4 = i by omega]
  unfold statsAt
  have h0 := hword 0 st.userTicks (by decide) (hbytes 0)
  have h1 := hword 1 st.systemTicks (by decide) (hbytes 1)
  have h2 := hword 2 st.blockedTicks (by decide) (hbytes 2)
  have h3 := hword 3 st.readyTicks (by decide) (hbytes 3)
  have h4 := hword 4 st.elapsedTotalTicks (by decide) (hbytes 4)
  have h5 := hword 5 st.totalTrans (by decide) (hbytes 5)
  have h6 := hword 6 st.remainingTicks (by decide) (hbytes 6)
  rw [show wordAt b a = _ from h0, h1, h2, h3, h4, h5, h6]

/-- what a call of `get_stats` for `pid` puts in the user memory at `st` -/
structure Reported (s : State) (h : Books) (pid : Int) (st : DWord) (s' : State) (t : Task)
    (x : Stats) : Prop where
  pid : (s.task t).pid = pid
  statics : x = (upToDate s t).statics
  record : statsAt (fun a => (userByte s' s.current a).getD 0) st.toNat = x
  total : live s t → x.total = x.elapsedTotalTicks - h.birth t + h.inherited t - h.lost t

/-- **What the statistics say.**  In every run, when `get_stats` has returned 0 the record in user
memory is the statistics of a task with the PID, and the total that `print` prints of it is the time
of the process up to its last accounting, with the ready ticks that it has inherited from its parent
and without the system ticks that were lost where it blocked. -/
theorem totals_reported (mem : Nat → Byte) (tsc : Nat → DWord) {h : Books}
    (hr : Reachable (tagged step enter) (boot mem tsc, bootBooks (boot mem tsc)) (s, h))
    (hu : inUser s) {pid : Int} {st : DWord} (hg : sysGetStats pid st s = .ok (0, s')) :
    ∃ t x, Reported s h pid st s' t x ∧ ∀ buff, print buff x = some (report x x.total) := by
  obtain ⟨hi, hs⟩ := reachable_settled mem tsc hr
  have hc := hi.live_current hu
  have hans := (sysGetStats_cases hg).answer
  obtain ⟨hp, hst, hex⟩ := statsAnswer_eq_zero.mp hans.symm
  obtain ⟨t, ht, hx⟩ := statsBytes_found hex
  have he : step s (.getStats pid st) = some s' := by
    show (if inUser s then returned (sysGetStats pid st s) else none) = some s'
    rw [if_pos hu, hg]
    rfl
  have hfit := (hi.getStats_rewritten hc hg).2 hans.symm
  have hlo := (statsAddr hst (j := 0) (by decide)).2
  refine ⟨t, _, ⟨ht, rfl, statsAt_bytes fun i hi28 => ?_, fun hl => ?_⟩, fun buff => print_eq buff _⟩
  · have ha : UserAddr (st.toNat + i) := by
      simp only [sizeofStats] at hi28 hfit
      exact ⟨by omega, by omega⟩
    have hlive : live s' s.current := by
      have hl := step_live hi he (by simp) (by simp)
      rw [hl]
      exact hc
    have hpatch : patchOf s (.getStats pid st) (st.toNat + i) =
        some ((upToDate s t).statics.bytes i) := by
      unfold patchOf fill
      dsimp only
      rw [if_pos hans.symm, if_pos (by omega), hx, Nat.add_sub_cancel_left]
    rw [hi.step_reads he (by simp) hlive ha (hi.userByte_eq hc ha), if_pos (Or.inr rfl), hpatch]
    rfl
  · rw [total_eq, (upToDate_audited s t).debt, hs t hl]
    ring

theorem totals_reported_boot :
    ∃ s', sysGetStats 1 0x108000 (boot (fun _ => 0) fun _ => 0) = .ok (0, s') ∧
      ∃ t x, Reported (boot (fun _ => 0) fun _ => 0) (bootBooks (boot (fun _ => 0) fun _ => 0)) 1
        0x108000 s' t x ∧ ∀ buff, print buff x = some (report x x.total) := by
  have hi := boot_inv (fun _ => 0) fun _ => 0
  have hid := (boot_numbered (fun _ => 0) fun _ => 0).identified hi (by decide)
  have hu := boot_inUser (fun _ => 0) fun _ => 0
  have hans := (@statsAnswered_iff _ _ 1 0x108000 hi hid hu (by decide)
    (by decide)).mpr (Or.inr (by decide))
  have h8 : live (boot (fun _ => 0) fun _ => 0) 8 := (boot_live _ _ 8).mpr rfl
  obtain ⟨s', hg, -⟩ := hans.found 8 h8.2 (by rw [boot_init])
  exact ⟨s', hg, totals_reported (fun _ => 0) (fun _ => 0) .init hu hg⟩

end
end Zeos
