import ZeroOS.Lib.Threads
import ZeroOS.Zeos.Reports

/-!
# Zeos: user programs on the kernel

A `User` program makes the calls of `libc.c`.  Beside every run of the kernel `userStep` follows
the program of each process: the events of the running process are the next call of its program,
stores, and clock interrupts.

* `contract spec`    what the kernel promises to a program, and what the program promises: what a
                     process with the PID `pid` has printed at its end meets `spec pid`;
* `Served`           the invariant: every process meets its precondition, the PIDs of the processes
                     are different, and those that have exited have kept their promise;
* `users_served`     **a program that is right against the contract is right on the kernel.**

`read` is a routine of the library: it is taken to leave the variables of the program alone, and
`keyboard_routine`, which prints the key, is no event.
-/

set_option linter.unusedVariables false

namespace Zeos
open Runs Threads

/-! ## programs -/

inductive UserCall where
  | write (text : List Byte)
  | getpid
  | getStats (pid : Int)
  | read

/-- the results; for `get_stats` with what is in the record after the call -/
def UserCall.Result : UserCall → Type
  | .write _ => Unit
  | .getpid => Int
  | .getStats _ => Int × Stats
  | .read => Unit

abbrev User := Code UserCall UserCall.Result

/-- what the processes still have to do, what each has written (by its PID), and what the calls of
`fork` have returned -/
structure Users where
  code : Task → Option (User Unit)
  log : List (Int × List Byte)
  forks : List Int

instance (a : Nat) : Decidable (UserAddr a) := inferInstanceAs (Decidable (_ ∧ _))

/-- the text is in the memory of `t` at `a` -/
def HasText (s : State) (t : Task) (a : Nat) (text : List Byte) : Prop :=
  UserAddr a ∧ ∀ i < text.length, UserAddr (a + i) ∧ userByte s t (a + i) = text[i]?

instance (s : State) (t : Task) (a : Nat) (text : List Byte) : Decidable (HasText s t a text) :=
  inferInstanceAs (Decidable (_ ∧ _))

/-- a variable of the type `struct stats`, among the data of a program -/
def StatsVariable (st : DWord) : Prop :=
  264 * 4096 ≤ st.toNat ∧ st.toNat + sizeofStats ≤ 284 * 4096

instance (st : DWord) : Decidable (StatsVariable st) := inferInstanceAs (Decidable (_ ∧ _))

/-- what the process `pid` has written -/
def said (log : List (Int × List Byte)) (pid : Int) : List Byte :=
  (log.filter (·.1 = pid)).flatMap Prod.snd

namespace Users

/-- the programs after the event `e` from `s` to `s'`; `none` if the running process does not make
this call now -/
def next (s : State) (e : Event) (s' : State) (u : Users) : Option Users :=
  let t := s.current
  match e, u.code t with
  | .fork, some (.fork k) =>
    let r := reply s .fork
    let code := match queue s .freequeue with
      | child :: _ => if r < 0 then u.code else Function.update u.code child (some (k 0))
      | [] => u.code
    some ⟨Function.update code t (some (k r)), u.log, u.forks ++ [r]⟩
  | .exit, some .halt => some { u with code := Function.update u.code t none }
  | .write fd buffer size, some (.call (.write text) k) =>
    if fd = 1 ∧ size = text.length ∧ HasText s t buffer.toNat text then
      some ⟨Function.update u.code t (some (k ())), u.log ++ [((s.task t).pid, text)], u.forks⟩
    else none
  | .getpid, some (.call .getpid k) =>
    some { u with code := Function.update u.code t (some (k (reply s .getpid))) }
  | .getStats pid st, some (.call (.getStats p) k) =>
    if p = pid ∧ StatsVariable st then
      let r := (Libc.answer (reply s (.getStats pid st)) 0 0).result
      let record := statsAt (fun a => (userByte s' t a).getD 0) st.toNat
      some { u with code := Function.update u.code t (some (k (r, record))) }
    else none
  | .read, some (.call .read k) => some { u with code := Function.update u.code t (some (k ())) }
  | .store _ _, _ | .clock, _ | .block _, _ | .unblock _ _, _ | .ret, _ | .resume, _ => some u
  | _, _ => none

end Users

/-- a process, and what it has written -/
structure Voice where
  pid : Int
  said : List Byte

def contract (spec : Int → List Byte → Prop) : Contract UserCall UserCall.Result Voice where
  answers
    | .write text, x, _, x' => x' = ⟨x.pid, x.said ++ text⟩
    | .getpid, x, r, x' => 0 < x.pid ∧ x.pid < 2147483648 ∧ r = x.pid ∧ x' = x
    | .getStats pid, x, r, x' => (pid = x.pid ∨ pid = 0 → r.1 = 0) ∧ x' = x
    | .read, x, _, x' => x' = x
  born x r x' := 1 < r ∧ r < 2147483648 ∧ x' = ⟨r, []⟩
  finished x := spec x.pid x.said

/-- what the program promises where it has returned, and loops -/
def looping (spec : Int → List Byte → Prop) (_ : Nat) (x : Voice) (_ : Unit) : Prop :=
  spec x.pid x.said

section
variable {s s' : State} {u u' : Users} {t : Task} {e : Event} {spec : Int → List Byte → Prop}

/-- what an event does to the programs -/
inductive Follows (s : State) (u : Users) : Event → State → Users → Prop where
  | quiet {e : Event} {s' : State} : e ≠ .fork → e ≠ .exit → printed s e = [] →
      Follows s u e s' u
  | fork {s' : State} (k : Int → User Unit) (child : Task) (rest : List Task) :
      u.code s.current = some (.fork k) → queue s .freequeue = child :: rest →
      ¬ reply s .fork < 0 →
      Follows s u .fork s' ⟨Function.update (Function.update u.code child (some (k 0))) s.current
        (some (k (reply s .fork))), u.log, u.forks ++ [reply s .fork]⟩
  | full {s' : State} (k : Int → User Unit) : u.code s.current = some (.fork k) →
      (queue s .freequeue = [] ∨ reply s .fork < 0) →
      Follows s u .fork s' ⟨Function.update u.code s.current (some (k (reply s .fork))), u.log,
        u.forks ++ [reply s .fork]⟩
  | exit {s' : State} : u.code s.current = some .halt →
      Follows s u .exit s' { u with code := Function.update u.code s.current none }
  | write {s' : State} (buffer : DWord) (text : List Byte) (k : Unit → User Unit) :
      u.code s.current = some (.call (.write text) k) → HasText s s.current buffer.toNat text →
      Follows s u (.write 1 buffer text.length) s'
        ⟨Function.update u.code s.current (some (k ())),
          u.log ++ [((s.task s.current).pid, text)], u.forks⟩
  | getpid {s' : State} (k : Int → User Unit) : u.code s.current = some (.call .getpid k) →
      Follows s u .getpid s'
        { u with code := Function.update u.code s.current (some (k (reply s .getpid))) }
  | getStats {s' : State} (pid : Int) (st : DWord) (record : Stats)
      (k : Int × Stats → User Unit) : u.code s.current = some (.call (.getStats pid) k) →
      StatsVariable st →
      Follows s u (.getStats pid st) s'
        ⟨Function.update u.code s.current
          (some (k ((Libc.answer (reply s (.getStats pid st)) 0 0).result, record))), u.log,
          u.forks⟩
  | read {s' : State} (k : Unit → User Unit) : u.code s.current = some (.call .read k) →
      Follows s u .read s' { u with code := Function.update u.code s.current (some (k ())) }

/-- the voice of the process in a PCB -/
def voice (s : State) (u : Users) (t : Task) : Voice := ⟨(s.task t).pid, said u.log (s.task t).pid⟩

structure Served (spec : Int → List Byte → Prop) (n : Nat) (s : State) (u : Users) : Prop where
  alive : ∀ t, live s t ↔ u.code t ≠ none
  sound : Sound (contract spec) (looping spec) 1 (n - u.forks.length) u.code (voice s u)
  forks : u.forks = (List.range u.forks.length).map fun i : Nat => (i : Int) + 2
  few : u.forks.length ≤ n ∧ n ≤ 8
  pidMax : s.pidMax = 1 + u.forks.length
  pids : ∀ t, live s t → 0 < (s.task t).pid ∧ (s.task t).pid ≤ s.pidMax
  distinct : ∀ t v, live s t → live s v → (s.task t).pid = (s.task v).pid → t = v
  idle : (s.task s.idleTask).pid = 0
  ended : ∀ pid, 0 < pid → pid ≤ s.pidMax →
    (∃ t, live s t ∧ (s.task t).pid = pid) ∨ spec pid (said u.log pid)
  unborn : ∀ pid, s.pidMax < pid → said u.log pid = []

theorem said_append (log : List (Int × List Byte)) (p : Int) (text : List Byte) (pid : Int) :
    said (log ++ [(p, text)]) pid = if pid = p then said log pid ++ text else said log pid := by
  unfold said
  rw [List.filter_append, List.flatMap_append]
  by_cases h : pid = p
  · have hl : [(p, text)].filter (·.1 = pid) = [(p, text)] :=
      List.filter_cons_of_pos (decide_eq_true h.symm)
    rw [if_pos h, hl, List.flatMap_singleton]
  · have hl : [(p, text)].filter (·.1 = pid) = [] :=
      List.filter_cons_of_neg fun e => h (of_decide_eq_true e).symm
    rw [if_neg h, hl, List.flatMap_nil, List.append_nil]

variable {n : Nat}

/-- a step that leaves the processes as they are -/
theorem Served.still (h : Served spec n s u) (hk : Kept s s')
    (hq : queue s' .freequeue = queue s .freequeue) : Served spec n s' u := by
  have hl : live s' = live s := live_congr hk.idleTask hq
  have hv : voice s' u = voice s u := by
    funext t
    unfold voice
    rw [hk.pid]
  refine ⟨?_, ?_, h.forks, h.few, ?_, ?_, ?_, ?_, ?_, ?_⟩
  · rw [hl]
    exact h.alive
  · rw [hv]
    exact h.sound
  · rw [hk.pidMax]
    exact h.pidMax
  · simp only [hl, hk.pid, hk.pidMax]
    exact h.pids
  · simp only [hl, hk.pid]
    exact h.distinct
  · rw [hk.idleTask, hk.pid]
    exact h.idle
  · simp only [hl, hk.pid, hk.pidMax]
    exact h.ended
  · rw [hk.pidMax]
    exact h.unborn

/-- the running process gets the answer to its call, and has written `text` -/
theorem Served.answered (h : Served spec n s u) {c : UserCall} {k : c.Result → User Unit}
    (hc : u.code t = some (.call c k)) {r : c.Result} {text : List Byte}
    (hr : (contract spec).answers c (voice s u t) r
      ⟨(s.task t).pid, said u.log (s.task t).pid ++ text⟩)
    {log : List (Int × List Byte)} (hlog : ∀ pid, said log pid =
      if pid = (s.task t).pid then said u.log pid ++ text else said u.log pid) :
    Served spec n s ⟨Function.update u.code t (some (k r)), log, u.forks⟩ := by
  have ht : live s t := (h.alive t).mpr (by rw [hc]; exact Option.some_ne_none _)
  have hsome : ∀ v, Function.update u.code t (some (k r)) v ≠ none ↔ u.code v ≠ none := by
    intro v
    by_cases e : v = t
    · rw [e, Function.update_self, hc]
      exact iff_of_true (Option.some_ne_none _) (Option.some_ne_none _)
    · rw [Function.update_of_ne e]
  refine ⟨fun v => (h.alive v).trans (hsome v).symm, ?_, h.forks, h.few, h.pidMax, h.pids,
    h.distinct, h.idle, fun pid h1 h2 => ?_, fun pid hpid => ?_⟩
  · refine (h.sound.call hc hr).congr fun v hv => ?_
    have hlv : live s v := (h.alive v).mpr ((hsome v).mp hv)
    unfold voice
    dsimp only
    rw [hlog]
    by_cases e : v = t
    · subst e
      rw [if_pos rfl, Function.update_self]
    · rw [if_neg fun e' => e (h.distinct v t hlv ht e'), Function.update_of_ne e]
  · by_cases e : pid = (s.task t).pid
    · exact Or.inl ⟨t, ht, e.symm⟩
    · rw [hlog, if_neg e]
      exact h.ended pid h1 h2
  · have hle := (h.pids t ht).2
    rw [hlog, if_neg (by omega)]
    exact h.unborn pid hpid

/-- a call without a text -/
theorem Served.silent (h : Served spec n s u) {c : UserCall} {k : c.Result → User Unit}
    (hc : u.code t = some (.call c k)) {r : c.Result}
    (hr : (contract spec).answers c (voice s u t) r (voice s u t)) :
    Served spec n s { u with code := Function.update u.code t (some (k r)) } := by
  have hnil : (contract spec).answers c (voice s u t) r
      ⟨(s.task t).pid, said u.log (s.task t).pid ++ []⟩ := by
    rw [List.append_nil]
    exact hr
  refine h.answered hc hnil fun pid => ?_
  rw [List.append_nil]
  exact (ite_self _).symm

/-- the number of a new process -/
theorem Served.next_pid (h : Served spec n s u) (hlt : u.forks.length < n) :
    int32 (s.pidMax + 1) = (u.forks.length : Int) + 2 := by
  have hp := h.pidMax
  have hf := h.few
  rw [int32_eq (by omega) (by omega)]
  omega

/-- **A fork never fails.** -/
theorem Served.room (h : Served spec n s u) {k : Int → User Unit}
    (hc : u.code t = some (.fork k)) : queue s .freequeue ≠ [] ∧ u.forks.length < n := by
  obtain ⟨h1, h2⟩ := h.sound.room hc
  obtain ⟨v, hne, hv⟩ := another_free h1 s.idleTask
  refine ⟨fun hq => ?_, by omega⟩
  have hnl : ¬ live s v := fun hl => (h.alive v).mp hl hv
  exact hnl ⟨hne, by rw [hq]; exact List.not_mem_nil⟩

theorem Served.fork (h : Served spec n s u) (hi : Inv s) {child : Task} {rest : List Task}
    {fs : List Nat} (hq : queue s .freequeue = child :: rest) (hsp : Spawned s s' child fs)
    {k : Int → User Unit} (hc : u.code t = some (.fork k)) :
    Served spec n s' ⟨Function.update (Function.update u.code child (some (k 0))) t
      (some (k (int32 (s.pidMax + 1)))), u.log, u.forks ++ [int32 (s.pidMax + 1)]⟩ := by
  have hmem : child ∈ queue s .freequeue := hq ▸ List.mem_cons_self
  have hdead : ¬ live s child := fun hl => hl.2 hmem
  have hnone : u.code child = none := not_not.mp fun hne => hdead ((h.alive child).mpr hne)
  have hlt := (h.room hc).2
  have hpid := h.next_pid hlt
  have hmax : s'.pidMax = (u.forks.length : Int) + 2 := hsp.pidMax.trans hpid
  have hs := h.pidMax
  have hfew := h.few
  have hl : ∀ v, live s' v ↔ live s v ∨ v = child := fun v => by rw [hsp.live_iff hi hmem]
  have hp : ∀ v, live s v → (s'.task v).pid = (s.task v).pid := by
    intro v hv
    have hne : v ≠ child := fun e => hdead (e ▸ hv)
    rw [hsp.pid, if_neg hne]
  have hpc : (s'.task child).pid = (u.forks.length : Int) + 2 := by
    rw [hsp.pid, if_pos rfl, hpid]
  rw [hpid]
  refine ⟨fun v => ?_, ?_, ?_, ?_, ?_, fun v hv => ?_, fun v w hv hw e => ?_, ?_,
    fun pid h1 h2 => ?_, fun pid hlt => ?_⟩
  · rw [hl, h.alive]
    dsimp only
    by_cases e : v = t
    · rw [e, Function.update_self, hc]
      exact iff_of_true (Or.inl (Option.some_ne_none _)) (Option.some_ne_none _)
    · rw [Function.update_of_ne e]
      by_cases e' : v = child
      · rw [e', Function.update_self]
        exact iff_of_true (Or.inr rfl) (Option.some_ne_none _)
      · rw [Function.update_of_ne e', or_iff_left e']
  · have hleft : n - u.forks.length =
        n - (u.forks ++ [(u.forks.length : Int) + 2]).length + 1 := by
      rw [List.length_append, List.length_singleton]
      omega
    have hsound := h.sound
    rw [hleft] at hsound
    have hborn : (contract spec).born (voice s u t) ((u.forks.length : Int) + 2)
        ⟨(u.forks.length : Int) + 2, []⟩ := ⟨by omega, by omega, rfl⟩
    refine (hsound.fork hc hnone hborn).congr fun v hv => ?_
    unfold voice
    by_cases e' : v = child
    · subst e'
      rw [Function.update_self, hpc, h.unborn _ (by omega)]
    · have hlv : live s v := by
        rw [h.alive]
        by_cases e : v = t
        · rw [e, hc]
          exact Option.some_ne_none _
        · rwa [Function.update_of_ne e, Function.update_of_ne e'] at hv
      rw [Function.update_of_ne e', hp v hlv]
  · rw [List.length_append, List.length_singleton, List.range_succ, List.map_append, ← h.forks]
    rfl
  · rw [List.length_append, List.length_singleton]
    omega
  · rw [hmax, List.length_append, List.length_singleton]
    push_cast
    omega
  · rcases (hl v).mp hv with hv | rfl
    · rw [hp v hv, hmax]
      have := h.pids v hv
      omega
    · rw [hpc, hmax]
      omega
  · have hold : ∀ v, live s v → (s'.task v).pid < (u.forks.length : Int) + 2 := by
      intro v hv
      rw [hp v hv]
      have := (h.pids v hv).2
      omega
    rcases (hl v).mp hv with hv | rfl <;> rcases (hl w).mp hw with hw | rfl
    · rw [hp v hv, hp w hw] at e
      exact h.distinct v w hv hw e
    · have := hold v hv
      omega
    · have := hold w hw
      omega
    · rfl
  · have hne : s.idleTask ≠ child := fun e =>
      hi.placed.apart.tidy.idle .freequeue (by decide) (e ▸ hmem)
    rw [hsp.idleTask, hsp.pid, if_neg hne]
    exact h.idle
  · by_cases e : pid = (u.forks.length : Int) + 2
    · exact Or.inl ⟨child, (hl child).mpr (Or.inr rfl), hpc.trans e.symm⟩
    · rcases h.ended pid h1 (by omega) with ⟨v, hv, e'⟩ | hend
      · exact Or.inl ⟨v, (hl v).mpr (Or.inl hv), (hp v hv).trans e'⟩
      · exact Or.inr hend
  · exact h.unborn pid (by omega)

theorem Served.exit (h : Served spec n s u) (hx : Exited s s')
    (hc : u.code s.current = some .halt) :
    Served spec n s' { u with code := Function.update u.code s.current none } := by
  obtain ⟨hover, hsound⟩ := h.sound.halt hc
  have hl : ∀ v, live s' v ↔ live s v ∧ v ≠ s.current := fun v => by rw [hx.live_iff]
  have hcur : live s s.current := (h.alive _).mpr (by rw [hc]; exact Option.some_ne_none _)
  have hp : ∀ v, v ≠ s.current → (s'.task v).pid = (s.task v).pid :=
    fun v hv => by rw [hx.pid, if_neg hv]
  refine ⟨fun v => ?_, hsound.congr fun v hv => ?_, h.forks, h.few, hx.pidMax.trans h.pidMax,
    fun v hv => ?_, fun v w hv hw e => ?_, ?_, fun pid h1 h2 => ?_, fun pid hlt => ?_⟩
  · rw [hl, h.alive]
    dsimp only
    by_cases e : v = s.current
    · rw [e, Function.update_self]
      exact iff_of_false (fun h => h.2 rfl) fun h => h rfl
    · rw [Function.update_of_ne e, and_iff_left e]
  · have hne : v ≠ s.current := fun e => by
      rw [e, Function.update_self] at hv
      exact hv rfl
    unfold voice
    rw [hp v hne]
  · obtain ⟨hv, hne⟩ := (hl v).mp hv
    rw [hp v hne, hx.pidMax]
    exact h.pids v hv
  · obtain ⟨hv, hne⟩ := (hl v).mp hv
    obtain ⟨hw, hne'⟩ := (hl w).mp hw
    rw [hp v hne, hp w hne'] at e
    exact h.distinct v w hv hw e
  · rw [hx.idleTask, hp _ fun e => hcur.1 e.symm]
    exact h.idle
  · rw [hx.pidMax] at h2
    rcases h.ended pid h1 h2 with ⟨v, hv, e⟩ | hend
    · by_cases hne : v = s.current
      · rw [hne] at e
        rw [← e]
        exact Or.inr hover
      · exact Or.inl ⟨v, (hl v).mpr ⟨hv, hne⟩, (hp v hne).trans e⟩
    · exact Or.inr hend
  · exact h.unborn pid (hx.pidMax ▸ hlt)

/-! ## runs -/

/-- `sys_write` prints the text that the program has in its memory. -/
theorem HasText.writeText (hi : Inv s) (hc : live s s.current) {buffer : DWord} {text : List Byte}
    (h : HasText s s.current buffer.toNat text) : writeText s 1 buffer text.length = text := by
  obtain ⟨ha, hbytes⟩ := h
  have hne : ¬ ((1 : Int) ≠ 1 ∨ buffer = 0 ∨ (text.length : Int) < 0) := by
    rintro (h1 | rfl | h1)
    · exact h1 rfl
    · exact absurd ha.1 (by decide)
    · omega
  unfold Zeos.writeText bytesAt
  rw [if_neg hne, Int.toNat_natCast]
  refine List.ext_getElem? fun i => ?_
  rw [List.getElem?_map]
  by_cases hlt : i < text.length
  · obtain ⟨hu, hb⟩ := hbytes i hlt
    rw [List.getElem?_range hlt, ← hb, hi.byteAt_eq hc hu]
    rfl
  · have hout : (List.range text.length)[i]? = none :=
      List.getElem?_eq_none (by rw [List.length_range]; omega)
    rw [hout, List.getElem?_eq_none (not_lt.mp hlt)]
    rfl

/-- what a step prints is what it adds to the log -/
theorem Follows.printed (hi : Inv s) (he : step s e = some s') (hf : Follows s u e s' u') :
    ∃ l, u'.log = u.log ++ l ∧ Zeos.printed s e = l.flatMap Prod.snd := by
  have hsilent : Zeos.printed s e = [] → u'.log = u.log →
      ∃ l, u'.log = u.log ++ l ∧ Zeos.printed s e = l.flatMap Prod.snd :=
    fun h1 h2 => ⟨[], by rw [h2, List.append_nil], h1⟩
  cases hf with
  | write buffer text k hc hh =>
    have hu : inUser s := (guarded_eq_some he).1
    refine ⟨[((s.task s.current).pid, text)], rfl, ?_⟩
    rw [List.flatMap_singleton]
    exact hh.writeText hi (hi.live_current hu)
  | quiet _ _ hp => exact hsilent hp rfl
  | fork | full | exit | getpid | getStats | read => exact hsilent rfl rfl

/-- a step in which no process begins or ends -/
theorem Inv.stays (hi : Inv s) (he : step s e = some s') (hf : e ≠ .fork) (hx : e ≠ .exit) :
    Kept s s' ∧ queue s' .freequeue = queue s .freequeue := by
  cases step_evolves hi he with
  | still hk hr hq => exact ⟨hk, hq⟩
  | fork => exact absurd rfl hf
  | exit => exact absurd rfl hx

/-- `get_stats` succeeds for the PID of a task, with a variable of the program. -/
theorem reply_getStats_zero {pid : Int} {st : DWord} (he : step s (.getStats pid st) = some s')
    (hst : StatsVariable st) (hp : 0 ≤ pid) (ht : (s.task t).pid = pid) :
    (Libc.answer (reply s (.getStats pid st)) 0 0).result = 0 := by
  have hans : (shown s).statsAnswer pid st = 0 := by
    refine statsAnswer_eq_zero.mpr ⟨by omega, ?_, fun hno => hno t ht⟩
    unfold StatsVariable at hst
    unfold StatsRefused
    simp only [lUserStart, numPagData, numPagCode, pageSize, sizeofStats] at hst ⊢
    rintro (h1 | h1 | h1)
    · rw [h1] at hst
      exact absurd hst.1 (by decide)
    all_goals omega
  rw [reply_getStats he, hans]
  rfl

theorem Served.step (h : Served spec n s u) (hi : Inv s) (he : Zeos.step s e = some s')
    (hf : Follows s u e s' u') : Served spec n s' u' := by
  -- the running process is alive if it makes a call
  have hpid : ∀ {c : UserCall} {k : c.Result → User Unit}, u.code s.current = some (.call c k) →
      0 < (s.task s.current).pid ∧ (s.task s.current).pid ≤ s.pidMax := fun hc =>
    h.pids _ ((h.alive _).mpr (by rw [hc]; exact Option.some_ne_none _))
  cases hf with
  | quiet hf hx hp =>
    obtain ⟨hk, hq⟩ := hi.stays he hf hx
    exact h.still hk hq
  | fork k child rest hc hq hr =>
    obtain ⟨hu, hcall⟩ := step_fork_iff.mp he
    rcases hi.forked hu hcall with ⟨hq', -⟩ | ⟨child', rest', fs, hq', -, -, hsp, hreply⟩
    · exact absurd (hq.symm.trans hq') (List.cons_ne_nil child rest)
    · obtain ⟨rfl, rfl⟩ := List.cons.inj (hq.symm.trans hq')
      rw [hreply]
      exact h.fork hi hq hsp hc
  | full k hc hno =>
    obtain ⟨hne, hlt⟩ := h.room hc
    obtain ⟨hu, hcall⟩ := step_fork_iff.mp he
    rcases hi.forked hu hcall with ⟨hq', -⟩ | ⟨child, rest, fs, hq', -, -, hsp, hreply⟩
    · exact absurd hq' hne
    · rw [hreply, h.next_pid hlt] at hno
      rcases hno with hno | hno
      · exact absurd hno hne
      · omega
  | exit hc =>
    obtain ⟨hu, hx⟩ := guarded_eq_some he
    cases hx
    exact h.exit (hi.exited hu) hc
  | write buffer text k hc hh =>
    obtain ⟨hk, hq⟩ := hi.stays he (by simp) (by simp)
    exact (h.answered hc (r := ()) rfl (said_append u.log _ text)).still hk hq
  | getpid k hc =>
    obtain ⟨hk, hq⟩ := hi.stays he (by simp) (by simp)
    have hp := hpid hc
    have hmax := h.pidMax
    have hfew := h.few
    refine (h.silent hc ⟨?_, ?_, reply_getpid s, rfl⟩).still hk hq
    · exact hp.1
    · show (s.task s.current).pid < _
      omega
  | getStats pid st record k hc hst =>
    obtain ⟨hk, hq⟩ := hi.stays he (by simp) (by simp)
    refine (h.silent hc ⟨fun hwho => ?_, rfl⟩).still hk hq
    rcases hwho with rfl | rfl
    · exact reply_getStats_zero he hst (Int.le_of_lt (hpid hc).1) rfl
    · exact reply_getStats_zero he hst le_rfl h.idle
  | read k hc =>
    obtain ⟨hk, hq⟩ := hi.stays he (by simp) (by simp)
    exact (h.silent hc (r := ()) rfl).still hk hq

end
end Zeos
