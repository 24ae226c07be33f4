import ZeroOS.Sockets.Conversation

/-!
# Sockets: conversations without failures

* `Healthy s e`              a system call fails only where the other program is gone;
* `conversation_completes`   **a conversation without failures ends, after all its rounds**;
* `Prompt s e`               a `read` gets all that was written;
* `Phase`                    what both programs do then, one after the other;
* `lockstep_in_buffers`      **where messages arrive whole, both programs stay in their buffers**.
-/

set_option linter.unusedVariables false

namespace Sockets.Conversation
open CStrings Runs

variable {x : Session} {s s' : Conn} {e : Event} {es : List Event}

/-! ## conversations without failures -/

/-- a system call fails only where the other program is gone -/
def Healthy (s : Conn) : Event → Prop
  | .client ret => 0 ≤ ret ∨ s.serverOpen = false
  | .server ret => 0 ≤ ret ∨ s.client = .closed
  | .hangup => True

structure Sound (numIt : Int) (s : Conn) : Prop where
  ended : s.server = .ended → s.client = .closed
  hungUp : s.serverOpen = false → s.server = .ended
  closed : s.client = .closed → numIt ≤ s.i
  lines : ∀ p ∈ s.clientGot, p ≠ []

/-- a client that is still there has its connection -/
theorem Sound.open (hI : Sound x.numIt s) (hc : s.client ≠ .closed) : s.serverOpen = true := by
  by_contra ho
  exact hc (hI.ended (hI.hungUp (Bool.eq_false_iff.mpr ho)))

theorem step_sound (hI : Sound x.numIt s) (hh : Healthy s e) (h : Step x s e s') :
    Sound x.numIt s' := by
  cases h with
  | hello hp _ =>
    exact ⟨fun hs => (by cases (hI.ended hs).symm.trans hp), hI.hungUp, fun h => (by cases h),
      hI.lines⟩
  | finish _ _ hi => exact ⟨fun _ => rfl, hI.hungUp, fun _ => hi, hI.lines⟩
  | got n hp _ hlen h0 =>
    have hopen := hI.open (by simp [hp])
    refine ⟨fun hs => (by cases (hI.ended hs).symm.trans hp), hI.hungUp, fun h => (by cases h),
      fun p hmem => ?_⟩
    obtain h | h := List.mem_append.mp hmem
    · exact hI.lines p h
    · rw [List.mem_singleton.mp h, ← List.length_pos_iff, List.length_take_of_le hlen]
      exact Nat.pos_of_ne_zero fun hn => Bool.noConfusion ((h0 hn).2.symm.trans hopen)
  | clientFails _ hr hp =>
    -- its connection is still there
    have hc : s.client ≠ .closed := by
      obtain ⟨hp, -⟩ | hp := hp <;> simp [hp]
    have ho : s.serverOpen = false := hh.resolve_left (by omega)
    exact Bool.noConfusion (ho.symm.trans (hI.open hc))
  | clientBreaks _ hp _ _ =>
    exact ⟨fun hs => (by cases (hI.ended hs).symm.trans hp), hI.hungUp, fun h => (by cases h),
      hI.lines⟩
  | heard _ hs _ _ _ | serviceBreaks _ hs _ _ | reply hs =>
    exact ⟨fun h => (by cases h), fun ho => (by cases (hI.hungUp ho).symm.trans hs), hI.closed,
      hI.lines⟩
  | ends _ _ hc => exact ⟨fun _ => hc, fun _ => rfl, hI.closed, hI.lines⟩
  | serverFails _ hr _ =>
    have hc : s.client = .closed := hh.resolve_left (by omega)
    exact ⟨fun _ => hc, fun _ => rfl, hI.closed, hI.lines⟩
  | hangup hs _ => exact ⟨hI.ended, fun _ => hs, hI.closed, hI.lines⟩

theorem start_sound : Sound x.numIt start :=
  ⟨fun h => (by cases h), fun h => (by cases h), fun h => (by cases h),
    fun p hp => absurd hp List.not_mem_nil⟩

/-- no system call fails -/
def NoFailure (s : Conn) : Event → Prop
  | .client ret => 0 ≤ ret
  | .server ret => 0 ≤ ret
  | .hangup => True

theorem step_drained (hI : s.server = .ended → s.client = .closed ∧ s.toServer = [])
    (hf : NoFailure s e) (h : Step x s e s') :
    s'.server = .ended → s'.client = .closed ∧ s'.toServer = [] := by
  cases h with
  | hello hp _ | got _ hp _ _ _ | clientBreaks _ hp _ _ =>
    exact fun hs => by cases (hI hs).1.symm.trans hp
  | finish _ _ _ => exact fun hs => ⟨rfl, (hI hs).2⟩
  | heard _ _ _ _ _ | serviceBreaks _ _ _ _ | reply _ => exact fun hs => by cases hs
  | ends _ hnil hc => exact fun _ => ⟨hc, hnil⟩
  | clientFails _ hr _ | serverFails _ hr _ => exact absurd hr (Int.not_lt.mpr hf)
  | hangup _ _ => exact hI

/-- **A conversation without failures ends, after all its rounds.**  Whatever the pieces are in
which the bytes arrive, as long as the buffers have room for them: when neither program can go on,
the client has made its rounds and has printed a line with at least one byte in each, and the
service is over; where no call has failed, also after the client was gone, the service has read
every message to its end. -/
theorem conversation_completes (h : run (step x) start es = some s)
    (hh : Guarded (step x) Healthy start es) (hst : ¬ Moves x s) (hb : ¬ Broken s) :
    Finished s ∧ s.i = x.numIt.toNat ∧ s.clientGot.length = x.numIt.toNat ∧
      (∀ p ∈ s.clientGot, p ≠ []) ∧ (Guarded (step x) NoFailure start es →
        s.serverGot.flatten = (List.replicate x.numIt.toNat hola).flatten) := by
  have hsound : Sound x.numIt s := run_of_guarded start_sound
    (fun s e s' hI hA he => step_sound hI hA (step_cases he).2) hh h
  obtain ⟨⟨w, hw⟩, k, hk⟩ := run_exact h
  have hfin : Finished s := by
    obtain hfin | ⟨hc, -, -, hs⟩ | hbr := (moves_cases (run_answered h)).resolve_left hst
    · exact hfin
    · cases (hsound.ended hs).symm.trans hc
    · exact absurd hbr hb
  have hi := hsound.closed hfin.1
  have hr := hw.rounds
  have hn : s.i = x.numIt.toNat := by omega
  refine ⟨hfin, hn, hk.lines.trans hn, hsound.lines, fun hf => ?_⟩
  have hnil := run_of_guarded (I := fun s => s.server = .ended → s.client = .closed ∧ s.toServer = [])
    (fun h => (by cases h)) (fun s e s' hI hA he => step_drained hI hA (step_cases he).2) hf h hfin.2
  have hcar : s.serverGot.flatten ++ s.toServer = (List.replicate w hola).flatten := hw.carries
  rw [hnil.2, List.append_nil] at hcar
  rw [hcar, show w = x.numIt.toNat by omega]

theorem conversation_completes_once :
    run (step ⟨7, 8, 1⟩) start
      [.client 5, .server 5, .server 8, .client 8, .client 0, .server 0] =
        some ⟨.closed, 1, .ended, true, [], [], [hola], [caracola]⟩ ∧
    Guarded (step ⟨7, 8, 1⟩) Healthy start
      [.client 5, .server 5, .server 8, .client 8, .client 0, .server 0] ∧
    ¬ Moves ⟨7, 8, 1⟩ ⟨.closed, 1, .ended, true, [], [], [hola], [caracola]⟩ ∧
    Finished ⟨.closed, 1, .ended, true, [], [], [hola], [caracola]⟩ ∧
      1 = (1 : Int).toNat ∧ [caracola].length = (1 : Int).toNat ∧ (∀ p ∈ [caracola], p ≠ []) ∧
      (Guarded (step ⟨7, 8, 1⟩) NoFailure start
        [.client 5, .server 5, .server 8, .client 8, .client 0, .server 0] →
        [hola].flatten = (List.replicate (1 : Int).toNat hola).flatten) := by
  have hrun : run (step ⟨7, 8, 1⟩) start
      [.client 5, .server 5, .server 8, .client 8, .client 0, .server 0] =
        some ⟨.closed, 1, .ended, true, [], [], [hola], [caracola]⟩ := by decide +kernel
  have hh : Guarded (step ⟨7, 8, 1⟩) Healthy start
      [.client 5, .server 5, .server 8, .client 8, .client 0, .server 0] :=
    fun _ _ => ⟨.inl (by decide), fun _ _ => ⟨.inl (by decide), fun _ _ => ⟨.inl (by decide),
      fun _ _ => ⟨.inl (by decide), fun _ _ => ⟨.inl (by decide), fun _ _ => ⟨.inl (by decide),
        trivial⟩⟩⟩⟩⟩⟩
  have hst : ¬ Moves ⟨7, 8, 1⟩ ⟨.closed, 1, .ended, true, [], [], [hola], [caracola]⟩ :=
    not_moves (.inl ⟨rfl, rfl⟩)
  exact ⟨hrun, hh, hst, conversation_completes hrun hh hst (by decide)⟩

/-! ## lockstep -/

/-- A `read` gets all that was written, as far as its buffer goes. -/
def Prompt (s : Conn) : Event → Prop
  | .client ret => s.client = .read → 0 ≤ ret → ret = min sizeofBuff s.toClient.length
  | .server ret => s.server = .read → 0 ≤ ret → ret = min sizeofBuff s.toServer.length
  | .hangup => True

/-- the places of the client and of the service, and what is in flight to the one and to the other -/
inductive Phase : ClientPlace → ServerPlace → List Byte → List Byte → Prop where
  | idle : Phase .loop .read [] []
  | asked : Phase .read .read hola []
  | heard : Phase .read .write [] []
  | answered : Phase .read .read [] caracola
  | left (p : List Byte) : Phase .closed .read [] p
  | leftAsking (p : List Byte) : Phase .closed .read hola p
  | leftHeard (p : List Byte) : Phase .closed .write [] p
  | ended (c : ClientPlace) (q : List Byte) : c ≠ .broken → Phase c .ended q []
  | overAnswered (q : List Byte) : Phase .read .ended q caracola
  | overLeft (p q : List Byte) : Phase .closed .ended q p

structure Lockstep (s : Conn) : Prop where
  phase : Phase s.client s.server s.toServer s.toClient
  hungUp : s.serverOpen = false → s.server = .ended
  serverGot : ∀ p ∈ s.serverGot, p = hola
  clientGot : ∀ p ∈ s.clientGot, p = caracola ∨ p = []

/-- a `read` of the client: the whole reply, or the end of the stream -/
theorem Phase.got {v : ServerPlace} {q p : List Byte} {n : Nat} (h : Phase .read v q p)
    (hn : n = min sizeofBuff p.length) (h0 : n = 0 → v = .ended) :
    (p.take n = caracola ∨ p.take n = []) ∧ Phase .loop v q (p.drop n) := by
  subst hn
  cases h with
  | asked | heard => cases h0 rfl
  | answered => exact ⟨.inl rfl, .idle⟩
  | ended _ q _ => exact ⟨.inr rfl, .ended .loop q (by decide)⟩
  | overAnswered q => exact ⟨.inl rfl, .ended .loop q (by decide)⟩

/-- a `read` of the service that finds something -/
theorem Phase.hear {c : ClientPlace} {q p : List Byte} {n : Nat} (h : Phase c .read q p)
    (hn : n = min sizeofBuff q.length) (hpos : 0 < n) :
    q.take n = hola ∧ Phase c .write (q.drop n) p := by
  subst hn
  cases h with
  | idle | answered | left p => exact absurd hpos (by decide)
  | asked => exact ⟨rfl, .heard⟩
  | leftAsking p => exact ⟨rfl, .leftHeard p⟩

theorem Phase.close {c : ClientPlace} {v : ServerPlace} {q p : List Byte} (h : Phase c v q p) :
    Phase .closed v q p := by
  cases h with
  | idle | answered | left p => exact .left _
  | asked | leftAsking p => exact .leftAsking _
  | heard | leftHeard p => exact .leftHeard _
  | ended _ q _ | overAnswered q | overLeft p q => exact .overLeft _ q

theorem Phase.end {c : ClientPlace} {v : ServerPlace} {q p : List Byte} (h : Phase c v q p) :
    Phase c .ended q p := by
  cases h with
  | idle | asked | heard => exact .ended _ _ (by decide)
  | answered => exact .overAnswered _
  | left p | leftAsking p | leftHeard p => exact .overLeft p _
  | ended c q hc => exact .ended c q hc
  | overAnswered q => exact .overAnswered q
  | overLeft p q => exact .overLeft p q

theorem Phase.not_broken (h : Phase s.client s.server s.toServer s.toClient) : ¬ Broken s := by
  unfold Broken
  generalize s.client = c, s.server = v, s.toServer = q, s.toClient = p at h ⊢
  cases h with
  | idle | asked | heard | answered | left p | leftAsking p | leftHeard p | overAnswered q
  | overLeft p q => simp
  | ended c q hc => simpa using hc

theorem Phase.reply_le {v : ServerPlace} {q p : List Byte} (h : Phase .read v q p) :
    p.length ≤ 8 := by
  cases h <;> decide

theorem Phase.message_le {c : ClientPlace} {q p : List Byte} (h : Phase c .read q p) :
    q.length ≤ 5 := by
  cases h <;> decide

theorem step_lockstep (hI : Lockstep s) (hpr : Prompt s e) (h : Step x s e s') :
    Lockstep s' := by
  obtain ⟨hph, ho, hs, hc⟩ := hI
  cases h with
  | hello hp _ =>
    rw [hp] at hph
    refine ⟨?_, ho, hs, hc⟩
    show Phase .read s.server (s.toServer ++ hola) s.toClient
    generalize s.server = v, s.toServer = q, s.toClient = p at hph ⊢
    cases hph with
    | idle => exact .asked
    | ended _ q _ => exact .ended _ _ (by decide)
  | finish _ _ _ | clientFails _ _ _ => exact ⟨hph.close, ho, hs, hc⟩
  | clientBreaks n hp _ hno =>
    -- a reply has room, and so has the end of the stream
    rw [hp] at hph
    have hle : (s.toClient.take n).length ≤ 8 := Nat.le_trans (List.length_take_le' ..) hph.reply_le
    exact absurd (room_of_short (by omega) _).1 hno
  | serviceBreaks n hp _ hno =>
    rw [hp] at hph
    have hle : (s.toServer.take n).length ≤ 5 :=
      Nat.le_trans (List.length_take_le' ..) hph.message_le
    exact absurd (room_of_short (by omega) _).2 hno
  | got n hp _ _ h0 =>
    have hn : (n : Int) = min sizeofBuff s.toClient.length := hpr hp (Int.natCast_nonneg n)
    rw [hp] at hph
    obtain ⟨hpiece, hnext⟩ := hph.got (by omega) fun hz => ho (h0 hz).2
    refine ⟨hnext, ho, hs, fun p hmem => ?_⟩
    obtain h | h := List.mem_append.mp hmem
    · exact hc p h
    · rw [List.mem_singleton.mp h]
      exact hpiece
  | heard n hp hpos _ _ =>
    have hn : (n : Int) = min sizeofBuff s.toServer.length := hpr hp (Int.natCast_nonneg n)
    rw [hp] at hph
    obtain ⟨hpiece, hnext⟩ := hph.hear (by omega) hpos
    refine ⟨hnext, fun h => (by cases (ho h).symm.trans hp), fun p hmem => ?_, hc⟩
    obtain h | h := List.mem_append.mp hmem
    · exact hs p h
    · rw [List.mem_singleton.mp h]
      exact hpiece
  | reply hp =>
    rw [hp] at hph
    refine ⟨?_, fun h => (by cases (ho h).symm.trans hp), hs, hc⟩
    show Phase s.client .read s.toServer (s.toClient ++ caracola)
    generalize s.client = c, s.toServer = q, s.toClient = p at hph ⊢
    cases hph with
    | heard => exact .answered
    | leftHeard p => exact .left _
  | ends _ _ _ | serverFails _ _ _ => exact ⟨hph.end, fun _ => rfl, hs, hc⟩
  | hangup hp _ => exact ⟨hph, fun _ => hp, hs, hc⟩

theorem start_lockstep : Lockstep start :=
  ⟨.idle, fun h => (by cases h), fun p hp => absurd hp List.not_mem_nil,
    fun p hp => absurd hp List.not_mem_nil⟩

/-! ## the buffers -/

/-- a piece that is a message of the client fits, whatever the process id -/
theorem fits_hola (pid : BitVec 32) {piece : Piece} (h : piece.bytes = hola) : Fits pid piece := by
  have hlen : piece.bytes.length ≤ 47 := by
    rw [h]
    decide
  have hroom := (room_of_short hlen pid).2
  exact ⟨hroom.1, receivedText_fits.mp hroom.2⟩

/-- the line of a piece without terminators -/
theorem clientReceived_line {piece : List Byte} (h0 : (0 : Byte) ∉ piece) (hl : piece.length ≤ 47)
    (pid : BitVec 32) (b : Buffers) :
    ∃ b', clientReceived pid piece b = .ok (clientText pid piece, b') := by
  have hall : piece.takeWhile (· ≠ 0) = piece := by
    apply List.takeWhile_eq_self_iff.mpr
    intro c hc
    rw [decide_eq_true_eq]
    exact fun e => h0 (e ▸ hc)
  have h := clientReceived_eq (room_of_short hl pid).1 b
  rw [hall] at h
  exact h

theorem readPieces_subset {pieces : List (Piece × Int)} {piece : Piece}
    (h : piece ∈ readPieces pieces) : piece ∈ pieces.map Prod.fst := by
  induction pieces with
  | nil => exact h
  | cons p pieces ih =>
    obtain ⟨q, ret⟩ := p
    unfold readPieces at h
    rw [List.mem_cons] at h
    rw [List.map_cons, List.mem_cons]
    refine h.imp_right fun h => ?_
    split at h
    · exact absurd h List.not_mem_nil
    · exact ih h

/-- **Where messages arrive whole, both programs stay in their buffers.**  Every `read` gets all
that was written: then the service reads one message a piece, the client one reply, or the end of
the stream, and with these pieces neither writes behind the end of a buffer, whatever the process
ids and whatever the writes return; so neither is broken. -/
theorem lockstep_in_buffers (h : run (step x) start es = some s)
    (hp : Guarded (step x) Prompt start es) :
    ¬ Broken s ∧ (∀ p ∈ s.serverGot, p = hola) ∧ (∀ p ∈ s.clientGot, p = caracola ∨ p = []) ∧
      (∀ (pieces : List (Piece × Int)), pieces.map (fun x => x.1.bytes) = s.serverGot →
        ∀ pid b, doService pid pieces b = .ok (transcript pid pieces)) ∧
      ∀ p ∈ s.clientGot, ∀ pid b, ∃ b', clientReceived pid p b = .ok (clientText pid p, b') := by
  have hlock : Lockstep s := run_of_guarded start_lockstep
    (fun s e s' hI hA he => step_lockstep hI hA (step_cases he).2) hp h
  refine ⟨hlock.phase.not_broken, hlock.serverGot, hlock.clientGot,
    fun pieces hpieces pid b => ?_, fun p hmem pid b => ?_⟩
  · apply doService_eq
    intro piece hmem
    obtain ⟨x, hx, rfl⟩ := List.mem_map.mp (readPieces_subset hmem)
    apply fits_hola
    apply hlock.serverGot
    rw [← hpieces]
    exact List.mem_map_of_mem hx
  · obtain rfl | rfl := hlock.clientGot p hmem
    · exact clientReceived_line (by decide) (by decide) pid b
    · exact clientReceived_line List.not_mem_nil (by decide) pid b

theorem lockstep_in_buffers_once :
    run (step ⟨7, 8, 1⟩) start [.client 5, .server 5, .server 8, .client 8] =
      some ⟨.loop, 1, .read, true, [], [], [hola], [caracola]⟩ ∧
    Guarded (step ⟨7, 8, 1⟩) Prompt start [.client 5, .server 5, .server 8, .client 8] ∧
    ¬ Broken ⟨.loop, 1, .read, true, [], [], [hola], [caracola]⟩ ∧ (∀ p ∈ [hola], p = hola) ∧ (∀ p ∈ [caracola], p = caracola ∨ p = []) ∧
      (∀ (pieces : List (Piece × Int)), pieces.map (fun x => x.1.bytes) = [hola] →
        ∀ pid b, doService pid pieces b = .ok (transcript pid pieces)) ∧
      ∀ p ∈ [caracola], ∀ pid b, ∃ b', clientReceived pid p b = .ok (clientText pid p, b') := by
  have hrun : run (step ⟨7, 8, 1⟩) start [.client 5, .server 5, .server 8, .client 8] =
      some ⟨.loop, 1, .read, true, [], [], [hola], [caracola]⟩ := by decide +kernel
  have hp : Guarded (step ⟨7, 8, 1⟩) Prompt start [.client 5, .server 5, .server 8, .client 8] := by
    intro s₁ h₁
    cases h₁
    refine ⟨fun h => (by cases h), fun s₂ h₂ => ?_⟩
    cases h₂
    refine ⟨fun _ _ => rfl, fun s₃ h₃ => ?_⟩
    cases h₃
    refine ⟨fun h => (by cases h), fun s₄ h₄ => ?_⟩
    cases h₄
    exact ⟨fun _ _ => rfl, trivial⟩
  exact ⟨hrun, hp, lockstep_in_buffers hrun hp⟩

end Sockets.Conversation
