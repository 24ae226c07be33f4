import ZeroOS.Lib.CStrings
import ZeroOS.Lib.Runs
import ZeroOS.Sockets.Service

/-!
# Sockets: a client and its service

`main` of `clientSocket.c` and `doService`, one system call at a time, with the two byte streams of
the connection between them.  A stream keeps its bytes in order and has no limit; a `read` takes any
non-empty part of what has arrived, as far as its buffer goes, so that messages are split and merged
in every way.  A system call may also fail at any time.

A piece that the buffers of its program have no room for ends the description: the program is
`broken`, as what it does after a store behind the end of a buffer is not in the source.

* `clientReceived`           a round of the client between `read` and the next `write`;
* `Room`                     the stores into `buff` and `buff2` stay inside;
* `Conn`                     the places of both programs, and the bytes in flight;
* `step`                     a system call of one of them, with the stores behind it;
* `Exact w k s`              `w` messages and `k` replies have been written;
* `conversation_bytes`       **no byte is lost, doubled or reordered**;
* `conversation_stuck_iff`   **when neither program can go on**.
-/

set_option linter.unusedVariables false

namespace Sockets.Conversation
open CStrings Runs

/-! ## a line of the client -/

/-- `"Client [%d] received: %s\n"` -/
def clientText (pid : BitVec 32) (s : List Byte) : List Byte :=
  ascii "Client [" ++ Decimal.text pid.toInt ++ ascii "] received: " ++ s ++ ascii "\n"

/-- a round of the client after its `read`: what goes to 1, and the buffers -/
def clientReceived (pid : BitVec 32) (piece : List Byte) (b : Buffers) :
    Except Overflow (List Byte × Buffers) := do
  let b := { b with buff := put 0 piece b.buff }
  let b ← storeBuff b piece.length 0
  let s ← buffString b
  let b ← sprintf b (clientText pid s)
  let out ← writeBuff2 b
  .ok (out, b)

/-- `buff` has room for the terminator behind the piece, and `buff2` for the line around it -/
def Room (text : List Byte → List Byte) (piece : List Byte) : Prop :=
  piece.length < sizeofBuff ∧ (text (piece.takeWhile (· ≠ 0))).length + 1 ≤ sizeofBuff2

instance (text : List Byte → List Byte) (piece : List Byte) : Decidable (Room text piece) :=
  inferInstanceAs (Decidable (_ ∧ _))

section
variable {pid : BitVec 32} {t piece : List Byte}

theorem clientText_length (pid : BitVec 32) (t : List Byte) :
    (clientText pid t).length = 21 + (Decimal.text pid.toInt).length + t.length := by
  have h1 : (ascii "Client [").length = 8 := rfl
  have h2 : (ascii "] received: ").length = 12 := rfl
  have h3 : (ascii "\n").length = 1 := rfl
  unfold clientText
  simp only [List.length_append, h1, h2, h3]
  omega

theorem zero_notMem_clientText (ht : (0 : Byte) ∉ t) : (0 : Byte) ∉ clientText pid t := by
  have h1 : (0 : Byte) ∉ ascii "Client [" := by decide
  have h2 : (0 : Byte) ∉ ascii "] received: " := by decide
  have h3 : (0 : Byte) ∉ ascii "\n" := by decide
  unfold clientText
  simp only [List.mem_append, not_or]
  exact ⟨⟨⟨⟨h1, Decimal.zero_notMem_text _⟩, h2⟩, ht⟩, h3⟩

/-- a piece that leaves 33 bytes free has room, whatever the process id -/
theorem room_of_short (hl : piece.length ≤ 47) (pid : BitVec 32) :
    Room (clientText pid) piece ∧ Room (receivedText pid) piece := by
  have hpid := Decimal.text_length_toInt pid
  have hle := (List.takeWhile_sublist (· ≠ (0 : Byte)) (l := piece)).length_le
  refine ⟨⟨?_, ?_⟩, ?_, ?_⟩
  · show _ < 80
    omega
  · rw [clientText_length]
    show _ ≤ 80
    omega
  · show _ < 80
    omega
  · rw [receivedText_length]
    show _ ≤ 80
    omega

theorem clientReceived_eq (h : Room (clientText pid) piece) (b : Buffers) :
    ∃ b', clientReceived pid piece b = .ok (clientText pid (piece.takeWhile (· ≠ 0)), b') := by
  have hz : (0 : Byte) ∉ piece.takeWhile (· ≠ 0) := notMem_takeWhile 0 piece
  unfold clientReceived
  dsimp only
  rw [storeBuff_of_lt h.1]
  refine ⟨⟨Function.update (put 0 piece b.buff) piece.length 0,
    put 0 (clientText pid (piece.takeWhile (· ≠ 0)) ++ [0]) b.buff2⟩, ?_⟩
  show (buffString _ >>= _) = _
  rw [buffString_terminated h.1]
  show (sprintf _ (clientText pid (piece.takeWhile (· ≠ 0))) >>= _) = _
  rw [sprintf_of_le h.2]
  show (writeBuff2 _ >>= _) = _
  rw [writeBuff2_printed (zero_notMem_clientText hz) h.2]
  rfl

theorem clientReceived_error (h : ¬ Room (clientText pid) piece) (b : Buffers) :
    ∃ o, clientReceived pid piece b = .error o := by
  unfold clientReceived
  dsimp only
  by_cases hl : piece.length < sizeofBuff
  · have hgt : ¬ (clientText pid (piece.takeWhile (· ≠ 0))).length + 1 ≤ sizeofBuff2 :=
      fun hle => h ⟨hl, hle⟩
    refine ⟨.buff2, ?_⟩
    rw [storeBuff_of_lt hl]
    show (buffString _ >>= _) = _
    rw [buffString_terminated hl]
    show (sprintf _ (clientText pid (piece.takeWhile (· ≠ 0))) >>= _) = _
    rw [sprintf_of_gt hgt]
    rfl
  · refine ⟨.buff, ?_⟩
    rw [storeBuff_of_ge hl]
    rfl

/-- **The stores of a round stay inside the buffers exactly where there is room**, in the client
and in the service. -/
theorem room_iff (pid : BitVec 32) (b : Buffers) :
    (∀ piece, Room (clientText pid) piece ↔ ∃ x, clientReceived pid piece b = .ok x) ∧
      ∀ piece : Piece, Room (receivedText pid) piece.bytes ↔ ∃ x, received pid piece b = .ok x := by
  refine ⟨fun piece => ⟨fun h => ?_, fun h => ?_⟩, fun piece => ⟨fun h => ?_, fun h => ?_⟩⟩
  · obtain ⟨b', hb⟩ := clientReceived_eq h b
    exact ⟨_, hb⟩
  · by_contra hno
    obtain ⟨x, hx⟩ := h
    obtain ⟨o, ho⟩ := clientReceived_error hno b
    cases hx.symm.trans ho
  · exact ⟨_, received_eq ⟨h.1, receivedText_fits.mp h.2⟩ b⟩
  · by_contra hno
    obtain ⟨x, hx⟩ := h
    obtain ⟨o, ho⟩ := received_error (fun hf => hno ⟨hf.terminator, receivedText_fits.mpr hf.text⟩) b
    cases hx.symm.trans ho

end

/-! ## the system -/

/-- `"hola "` -/
def hola : List Byte := ascii "hola "

/-- the first 8 bytes of `"caracola "` -/
def caracola : List Byte := ascii "caracola"

inductive ClientPlace where
  /-- `i < num_it`, and `write(connectionFD, "hola ", 5)` -/
  | loop
  /-- `read(connectionFD, buff, sizeof (buff))` -/
  | read
  /-- after `deleteSocket` or `exit(1)` -/
  | closed
  /-- it has stored behind the end of `buff` or `buff2` -/
  | broken
  deriving DecidableEq

inductive ServerPlace where
  /-- `read(socket_fd, buff, sizeof(buff))` -/
  | read
  /-- `write(fd, "caracola ", 8)` -/
  | write
  /-- `doService` has returned, or called `exit(1)` -/
  | ended
  /-- it has stored behind the end of `buff` or `buff2` -/
  | broken
  deriving DecidableEq

structure Conn where
  client : ClientPlace
  /-- the rounds that the client has made -/
  i : Nat
  server : ServerPlace
  /-- a process has the server's descriptor open: `doService` does not close it -/
  serverOpen : Bool
  toServer : List Byte
  toClient : List Byte
  /-- what the service has read, piece by piece -/
  serverGot : List (List Byte)
  clientGot : List (List Byte)
  deriving DecidableEq

/-- `ret` is what the system call returns. -/
inductive Event where
  | client (ret : Int)
  | server (ret : Int)
  /-- the last process that has the server's descriptor open ends -/
  | hangup
  deriving DecidableEq

/-- The piece that a `read` gets, which returns `ret`.  It returns 0 when nothing more can come. -/
def readPiece (inFlight : List Byte) (isOpen : Prop) [Decidable isOpen] (ret : Nat) :
    Option (List Byte) :=
  if ret ≤ sizeofBuff ∧ ret ≤ inFlight.length ∧ (ret = 0 → inFlight = [] ∧ ¬ isOpen) then
    some (inFlight.take ret)
  else none

/-- The socket blocks: a `write` writes all its bytes or fails. -/
def clientMain (pid : BitVec 32) (numIt : Int) (s : Conn) (ret : Int) : Option Conn :=
  match s.client with
  | .loop =>
    if s.i < numIt then
      if ret < 0 then some { s with client := .closed }
      else if ret = 5 then some { s with client := .read, toServer := s.toServer ++ hola }
      else none
    else some { s with client := .closed }
  | .read =>
    if ret < 0 then some { s with client := .closed }
    else (readPiece s.toClient (s.serverOpen = true) ret.toNat).map fun piece =>
      -- `buff[ret] = '\0'`, and the `sprintf` into `buff2`
      if Room (clientText pid) piece then { s with
        client := .loop
        i := s.i + 1
        toClient := s.toClient.drop piece.length
        clientGot := s.clientGot ++ [piece] }
      else { s with client := .broken }
  | .closed | .broken => none

def doServiceStep (pid : BitVec 32) (s : Conn) (ret : Int) : Option Conn :=
  match s.server with
  | .read =>
    if ret < 0 then some { s with server := .ended }
    else (readPiece s.toServer (s.client ≠ .closed) ret.toNat).map fun piece =>
      if piece = [] then { s with server := .ended }
      -- `buff[ret]='\0'`, and the `sprintf` into `buff2`
      else if Room (receivedText pid) piece then { s with
        server := .write
        toServer := s.toServer.drop piece.length
        serverGot := s.serverGot ++ [piece] }
      else { s with server := .broken }
  | .write =>
    if ret < 0 then some { s with server := .ended }
    else if ret = 8 then some { s with server := .read, toClient := s.toClient ++ caracola }
    else none
  | .ended | .broken => none

/-- the process ids of the client and of the service, and `num_it` -/
structure Session where
  clientPid : BitVec 32
  servicePid : BitVec 32
  numIt : Int

/-- What the programs do behind an overflow is not known. -/
def Broken (s : Conn) : Prop := s.client = .broken ∨ s.server = .broken

instance (s : Conn) : Decidable (Broken s) := inferInstanceAs (Decidable (_ ∨ _))

def step (x : Session) (s : Conn) (e : Event) : Option Conn :=
  if Broken s then none
  else match e with
  | .client ret => clientMain x.clientPid x.numIt s ret
  | .server ret => doServiceStep x.servicePid s ret
  | .hangup =>
    if s.server = .ended ∧ s.serverOpen = true then some { s with serverOpen := false } else none

/-- the connection is established -/
def start : Conn := ⟨.loop, 0, .read, true, [], [], [], []⟩

variable {x : Session} {s s' : Conn} {e : Event} {ret : Int} {w k : Nat}
  {es : List Event}

/-! ## one step -/

/-- what a step does, and what its system call returns -/
inductive Step (x : Session) (s : Conn) : Event → Conn → Prop where
  | hello : s.client = .loop → s.i < x.numIt →
      Step x s (.client 5) { s with client := .read, toServer := s.toServer ++ hola }
  | finish (ret : Int) : s.client = .loop → x.numIt ≤ s.i →
      Step x s (.client ret) { s with client := .closed }
  | got (n : Nat) : s.client = .read → Room (clientText x.clientPid) (s.toClient.take n) →
      n ≤ s.toClient.length → (n = 0 → s.toClient = [] ∧ s.serverOpen = false) →
      Step x s (.client n)
        { s with
          client := .loop
          i := s.i + 1
          toClient := s.toClient.drop n
          clientGot := s.clientGot ++ [s.toClient.take n] }
  | clientBreaks (n : Nat) : s.client = .read → n ≤ s.toClient.length →
      ¬ Room (clientText x.clientPid) (s.toClient.take n) →
      Step x s (.client n) { s with client := .broken }
  | clientFails (ret : Int) : ret < 0 → (s.client = .loop ∧ s.i < x.numIt) ∨ s.client = .read →
      Step x s (.client ret) { s with client := .closed }
  | heard (n : Nat) : s.server = .read → 0 < n →
      Room (receivedText x.servicePid) (s.toServer.take n) → n ≤ s.toServer.length →
      Step x s (.server n)
        { s with
          server := .write
          toServer := s.toServer.drop n
          serverGot := s.serverGot ++ [s.toServer.take n] }
  | serviceBreaks (n : Nat) : s.server = .read → n ≤ s.toServer.length →
      ¬ Room (receivedText x.servicePid) (s.toServer.take n) →
      Step x s (.server n) { s with server := .broken }
  | reply : s.server = .write →
      Step x s (.server 8) { s with server := .read, toClient := s.toClient ++ caracola }
  | ends : s.server = .read → s.toServer = [] → s.client = .closed →
      Step x s (.server 0) { s with server := .ended }
  | serverFails (ret : Int) : ret < 0 → s.server = .read ∨ s.server = .write →
      Step x s (.server ret) { s with server := .ended }
  | hangup : s.server = .ended → s.serverOpen = true →
      Step x s .hangup { s with serverOpen := false }

theorem readPiece_eq_some {inFlight piece : List Byte} {p : Prop} [Decidable p] {n : Nat} :
    readPiece inFlight p n = some piece ↔ piece = inFlight.take n ∧ n ≤ sizeofBuff ∧
      n ≤ inFlight.length ∧ (n = 0 → inFlight = [] ∧ ¬ p) := by
  unfold readPiece
  rw [Option.ite_none_right_eq_some, Option.some.injEq]
  exact ⟨fun h => ⟨h.2.symm, h.1⟩, fun h => ⟨h.2, h.1.symm⟩⟩

theorem clientMain_cases (h : clientMain x.clientPid x.numIt s ret = some s') :
    Step x s (.client ret) s' := by
  cases hp : s.client with
  | loop =>
    simp only [clientMain, hp] at h
    by_cases hi : s.i < x.numIt
    · rw [if_pos hi] at h
      by_cases hr : ret < 0
      · rw [if_pos hr] at h
        cases h
        exact .clientFails ret hr (.inl ⟨hp, hi⟩)
      · rw [if_neg hr, Option.ite_none_right_eq_some] at h
        obtain ⟨rfl, h⟩ := h
        cases h
        exact .hello hp hi
    · rw [if_neg hi] at h
      cases h
      exact .finish ret hp (by omega)
  | read =>
    simp only [clientMain, hp] at h
    by_cases hr : ret < 0
    · rw [if_pos hr] at h
      cases h
      exact .clientFails ret hr (.inr hp)
    · rw [if_neg hr, Option.map_eq_some_iff] at h
      obtain ⟨piece, hpiece, h⟩ := h
      obtain ⟨rfl, -, hlen, h0⟩ := readPiece_eq_some.mp hpiece
      obtain ⟨n, rfl⟩ : ∃ n : Nat, ret = n := ⟨ret.toNat, by omega⟩
      rw [Int.toNat_natCast] at *
      by_cases hroom : Room (clientText x.clientPid) (s.toClient.take n)
      · rw [if_pos hroom] at h
        rw [← h, List.length_take_of_le hlen]
        exact .got n hp hroom hlen fun hn => ⟨(h0 hn).1, Bool.eq_false_iff.mpr (h0 hn).2⟩
      · rw [if_neg hroom] at h
        exact h ▸ .clientBreaks n hp hlen hroom
  | closed | broken =>
    simp only [clientMain, hp] at h
    cases h

theorem doServiceStep_cases (h : doServiceStep x.servicePid s ret = some s') :
    Step x s (.server ret) s' := by
  cases hp : s.server with
  | read =>
    simp only [doServiceStep, hp] at h
    by_cases hr : ret < 0
    · rw [if_pos hr] at h
      cases h
      exact .serverFails ret hr (.inl hp)
    · rw [if_neg hr, Option.map_eq_some_iff] at h
      obtain ⟨piece, hpiece, h⟩ := h
      obtain ⟨rfl, -, hlen, h0⟩ := readPiece_eq_some.mp hpiece
      obtain ⟨n, rfl⟩ : ∃ n : Nat, ret = n := ⟨ret.toNat, by omega⟩
      rw [Int.toNat_natCast] at *
      rcases Nat.eq_zero_or_pos n with rfl | hn
      · obtain ⟨hnil, hc⟩ := h0 rfl
        rw [if_pos List.take_zero] at h
        exact h ▸ .ends hp hnil (not_not.mp hc)
      · have hne : s.toServer.take n ≠ [] := by
          rw [← List.length_pos_iff, List.length_take_of_le hlen]
          exact hn
        rw [if_neg hne] at h
        by_cases hroom : Room (receivedText x.servicePid) (s.toServer.take n)
        · rw [if_pos hroom] at h
          rw [← h, List.length_take_of_le hlen]
          exact .heard n hp hn hroom hlen
        · rw [if_neg hroom] at h
          exact h ▸ .serviceBreaks n hp hlen hroom
  | write =>
    simp only [doServiceStep, hp] at h
    by_cases hr : ret < 0
    · rw [if_pos hr] at h
      cases h
      exact .serverFails ret hr (.inr hp)
    · rw [if_neg hr, Option.ite_none_right_eq_some] at h
      obtain ⟨rfl, h⟩ := h
      cases h
      exact .reply hp
  | ended | broken =>
    simp only [doServiceStep, hp] at h
    cases h

theorem step_of_not_broken (hb : ¬ Broken s) : step x s e = match e with
    | .client ret => clientMain x.clientPid x.numIt s ret
    | .server ret => doServiceStep x.servicePid s ret
    | .hangup =>
      if s.server = .ended ∧ s.serverOpen = true then some { s with serverOpen := false }
      else none := if_neg hb

theorem step_cases (h : step x s e = some s') : ¬ Broken s ∧ Step x s e s' := by
  by_cases hb : Broken s
  · unfold step at h
    rw [if_pos hb] at h
    cases h
  refine ⟨hb, ?_⟩
  rw [step_of_not_broken hb] at h
  cases e with
  | client ret => exact clientMain_cases h
  | server ret => exact doServiceStep_cases h
  | hangup =>
    rw [Option.ite_none_right_eq_some] at h
    obtain ⟨⟨hs, ho⟩, h⟩ := h
    cases h
    exact .hangup hs ho

/-! ## the bytes -/

section
variable {α : Type*} {msg inFlight : List α} {got : List (List α)} {n : Nat}

/-- The pieces and what is still in flight are `n` times `msg`, in order. -/
def Carries (msg : List α) (n : Nat) (got : List (List α)) (inFlight : List α) : Prop :=
  got.flatten ++ inFlight = (List.replicate n msg).flatten

theorem Carries.write (h : Carries msg n got inFlight) :
    Carries msg (n + 1) got (inFlight ++ msg) := by
  unfold Carries at *
  rw [← List.append_assoc, h, List.replicate_succ', List.flatten_append, List.flatten_singleton]

theorem Carries.read (h : Carries msg n got inFlight) (k : Nat) :
    Carries msg n (got ++ [inFlight.take k]) (inFlight.drop k) := by
  unfold Carries at *
  rw [List.flatten_append, List.flatten_singleton, List.append_assoc, List.take_append_drop, h]

theorem Carries.length (h : Carries msg n got inFlight) :
    got.flatten.length + inFlight.length = n * msg.length := by
  rw [← List.length_append, h, List.length_flatten, List.map_replicate,
    List.sum_replicate_nat]

/-- pieces that are not empty -/
theorem length_le_flatten (h : ∀ p ∈ got, p ≠ []) : got.length ≤ got.flatten.length := by
  induction got with
  | nil => exact Nat.le_refl 0
  | cons p got ih =>
    have hp : 0 < p.length := List.length_pos_iff.mpr (h p List.mem_cons_self)
    have hrest := ih fun q hq => h q (List.mem_cons_of_mem p hq)
    rw [List.length_cons, List.flatten_cons, List.length_append]
    omega

end

/-- `w` messages of the client: what is in flight to the service, and what the service has got -/
structure Sent (numIt : Int) (w : Nat) (s : Conn) : Prop where
  carries : Carries hola w s.serverGot s.toServer
  pieces : ∀ p ∈ s.serverGot, p ≠ [] ∧ p.length < sizeofBuff
  rounds : s.i ≤ w ∧ w ≤ s.i + 1 ∧ w ≤ numIt.toNat
  loop : s.client = .loop → w = s.i
  read : s.client = .read → w = s.i + 1

/-- `k` replies of the service -/
structure Replied (k : Nat) (s : Conn) : Prop where
  carries : Carries caracola k s.clientGot s.toClient
  lines : s.clientGot.length = s.i
  pieces : ∀ p ∈ s.clientGot, p.length < sizeofBuff ∧ (s.serverOpen = true → p ≠ [])
  one_each : k ≤ s.serverGot.length ∧ s.serverGot.length ≤ k + 1
  read : s.server = .read → k = s.serverGot.length
  write : s.server = .write → k + 1 = s.serverGot.length

theorem step_sent (hI : Sent x.numIt w s) (h : Step x s e s') : ∃ w', Sent x.numIt w' s' := by
  obtain ⟨hc, hp, hr, hl, hrd⟩ := hI
  cases h with
  | hello hp' hi =>
    have hw := hl hp'
    refine ⟨w + 1, hc.write, hp, ?_, fun h => (by cases h), fun _ => congrArg (· + 1) hw⟩
    show s.i ≤ w + 1 ∧ w + 1 ≤ s.i + 1 ∧ _
    omega
  | finish _ _ _ | clientBreaks _ _ _ _ | clientFails _ _ _ =>
    exact ⟨w, hc, hp, hr, fun h => (by cases h), fun h => (by cases h)⟩
  | got n hp' _ _ _ =>
    have hw := hrd hp'
    refine ⟨w, hc, hp, ?_, fun _ => hw, fun h => (by cases h)⟩
    show s.i + 1 ≤ w ∧ w ≤ s.i + 1 + 1 ∧ _
    omega
  | heard n _ hn hroom hlen =>
    refine ⟨w, hc.read n, fun p hmem => ?_, hr, hl, hrd⟩
    obtain h | h := List.mem_append.mp hmem
    · exact hp p h
    · rw [List.mem_singleton.mp h, ← List.length_pos_iff]
      refine ⟨?_, hroom.1⟩
      rw [List.length_take_of_le hlen]
      exact hn
  | serviceBreaks _ _ _ _ | reply _ | ends _ _ _ | serverFails _ _ _ | hangup _ _ =>
    exact ⟨w, hc, hp, hr, hl, hrd⟩

theorem step_replied (hI : Replied k s) (h : Step x s e s') : ∃ k', Replied k' s' := by
  obtain ⟨hc, hlines, hp, hone, hr, hw⟩ := hI
  cases h with
  | hello _ _ | finish _ _ _ | clientBreaks _ _ _ _ | clientFails _ _ _ =>
    exact ⟨k, hc, hlines, hp, hone, hr, hw⟩
  | got n _ hroom hlen h0 =>
    refine ⟨k, hc.read n, ?_, fun p hmem => ?_, hone, hr, hw⟩
    · rw [List.length_append, hlines]
      rfl
    · obtain h | h := List.mem_append.mp hmem
      · exact hp p h
      · rw [List.mem_singleton.mp h]
        refine ⟨hroom.1, fun ho => ?_⟩
        rw [← List.length_pos_iff, List.length_take_of_le hlen]
        refine Nat.pos_of_ne_zero fun hn => ?_
        exact Bool.noConfusion ((h0 hn).2.symm.trans ho)
  | heard n hs _ _ _ =>
    have hk := hr hs
    have hlen : (s.serverGot ++ [s.toServer.take n]).length = k + 1 := by
      rw [List.length_append, hk]
      rfl
    refine ⟨k, hc, hlines, hp, ?_, fun h => (by cases h), fun _ => hlen.symm⟩
    show k ≤ (s.serverGot ++ _).length ∧ (s.serverGot ++ _).length ≤ k + 1
    omega
  | reply hs =>
    have hk := hw hs
    refine ⟨k + 1, hc.write, hlines, hp, ?_, fun _ => hk, fun h => (by cases h)⟩
    show k + 1 ≤ s.serverGot.length ∧ s.serverGot.length ≤ k + 1 + 1
    omega
  | serviceBreaks _ _ _ _ | ends _ _ _ | serverFails _ _ _ =>
    exact ⟨k, hc, hlines, hp, hone, fun h => (by cases h), fun h => (by cases h)⟩
  | hangup _ _ =>
    exact ⟨k, hc, hlines, fun p hmem => ⟨(hp p hmem).1, fun h => Bool.noConfusion h⟩, hone, hr, hw⟩

theorem start_sent : Sent x.numIt 0 start :=
  ⟨rfl, fun p hp => absurd hp List.not_mem_nil, ⟨Nat.le_refl 0, Nat.zero_le _, Nat.zero_le _⟩,
    fun _ => rfl, fun h => (by cases h)⟩

theorem start_replied : Replied 0 start :=
  ⟨rfl, rfl, fun p hp => absurd hp List.not_mem_nil, ⟨Nat.le_refl 0, Nat.zero_le _⟩,
    fun _ => rfl, fun h => (by cases h)⟩

theorem run_exact (h : run (step x) start es = some s) :
    (∃ w, Sent x.numIt w s) ∧ ∃ k, Replied k s := by
  apply run_of_guarded (I := fun s => (∃ w, Sent x.numIt w s) ∧ ∃ k, Replied k s)
    (A := fun _ _ => True) ⟨⟨0, start_sent⟩, 0, start_replied⟩ ?_
    (guarded_of_forall (fun _ _ => trivial) start es) h
  intro s e s' hI _ he
  obtain ⟨⟨w, hw⟩, k, hk⟩ := hI
  exact ⟨step_sent hw (step_cases he).2, step_replied hk (step_cases he).2⟩

/-- **Both streams are exact.**  What the service has read and what is on the way to it are the
messages of the client, and so the other way round; the service answers every piece that it reads
with one reply, and the client prints one line a round.  A run ends where a piece has no room. -/
theorem conversation_bytes (h : run (step x) start es = some s) :
    ∃ w k, Sent x.numIt w s ∧ Replied k s ∧ s.serverGot.length + s.toServer.length ≤ 5 * w := by
  obtain ⟨⟨w, hw⟩, k, hk⟩ := run_exact h
  have hlen := hw.carries.length
  have hle := length_le_flatten fun p hp => (hw.pieces p hp).1
  have h5 : hola.length = 5 := rfl
  rw [h5] at hlen
  exact ⟨w, k, hw, hk, by omega⟩

/-- a message that arrives in two pieces -/
theorem conversation_bytes_split :
    run (step ⟨7, 8, 1⟩) start [.client 5, .server 2, .server 8, .server 3] =
      some ⟨.read, 0, .write, true, [], caracola, [ascii "ho", ascii "la "], []⟩ ∧
    ∃ w k, Sent 1 w ⟨.read, 0, .write, true, [], caracola, [ascii "ho", ascii "la "], []⟩ ∧
      Replied k ⟨.read, 0, .write, true, [], caracola, [ascii "ho", ascii "la "], []⟩ ∧
      [ascii "ho", ascii "la "].length + ([] : List Byte).length ≤ 5 * w := by
  have h : run (step ⟨7, 8, 1⟩) start [.client 5, .server 2, .server 8, .server 3] =
      some ⟨.read, 0, .write, true, [], caracola, [ascii "ho", ascii "la "], []⟩ := rfl
  exact ⟨h, conversation_bytes (x := ⟨7, 8, 1⟩) h⟩

/-! ## the end -/

/-- an upper bound for the steps that are left -/
def work (numIt : Int) (s : Conn) : Nat :=
  (match s.client with
  | .loop => 12 * (numIt.toNat - s.i) + 1
  | .read => 12 * (numIt.toNat - s.i - 1) + 2
  | .closed | .broken => 0) + 2 * s.toServer.length +
  (match s.server with
  | .read => 1
  | .write => 2
  | .ended | .broken => 0) + if s.serverOpen then 1 else 0

theorem step_work (hI : Sent x.numIt w s) (h : Step x s e s') :
    work x.numIt s' < work x.numIt s := by
  have hr := hI.rounds
  cases h with
  | hello hp hi =>
    have h5 : hola.length = 5 := rfl
    simp only [work, hp, List.length_append, h5]
    omega
  | finish _ hp _ =>
    simp only [work, hp]
    omega
  | got n hp _ _ _ =>
    have hw := hI.read hp
    simp only [work, hp]
    omega
  | clientBreaks _ hp _ _ =>
    simp only [work, hp]
    omega
  | clientFails _ _ hp =>
    obtain ⟨hp, -⟩ | hp := hp <;> simp only [work, hp] <;> omega
  | heard n hs hn _ hlen =>
    simp only [work, hs, List.length_drop]
    omega
  | reply hs =>
    simp only [work, hs]
    omega
  | ends hs _ _ =>
    simp only [work, hs]
    omega
  | serviceBreaks _ hs _ _ =>
    simp only [work, hs]
    omega
  | serverFails _ _ hs =>
    obtain hs | hs := hs <;> simp only [work, hs] <;> omega
  | hangup hs ho =>
    simp only [work, hs, ho, if_true, Bool.false_eq_true, if_false]
    omega

theorem run_work (h : run (step x) start es = some s) : es.length ≤ 12 * x.numIt.toNat + 3 := by
  have hle := run_length_le (I := fun s => ∃ w, Sent x.numIt w s) (μ := work x.numIt)
    ⟨0, start_sent⟩ (fun s e s' hI he => by
      obtain ⟨w, hw⟩ := hI
      exact ⟨step_sent hw (step_cases he).2, step_work hw (step_cases he).2⟩) h
  have h0 : work x.numIt start = 12 * x.numIt.toNat + 3 := rfl
  omega

/-- One of the programs can go on, with a system call that does not fail. -/
def Moves (x : Session) (s : Conn) : Prop :=
  ∃ ret : Int, 0 ≤ ret ∧ ((step x s (.client ret)).isSome ∨ (step x s (.server ret)).isSome)

def Finished (s : Conn) : Prop := s.client = .closed ∧ s.server = .ended

/-- The client waits for a reply of a service that is over, on a connection that is still open. -/
def Hangs (s : Conn) : Prop :=
  s.client = .read ∧ s.toClient = [] ∧ s.serverOpen = true ∧ s.server = .ended

/-- The programs do not both wait in a `read`. -/
def Answered (s : Conn) : Prop :=
  s.client = .read → s.server = .read → s.toServer ≠ [] ∨ s.toClient ≠ []

theorem step_answered (hI : Answered s) (h : Step x s e s') : Answered s' := by
  cases h with
  | hello _ _ => exact fun _ _ => .inl (List.append_ne_nil_of_right_ne_nil _ (by decide))
  | finish _ _ _ | got _ _ _ _ _ | clientBreaks _ _ _ _ | clientFails _ _ _ =>
    exact fun h => by cases h
  | heard _ _ _ _ _ | serviceBreaks _ _ _ _ | ends _ _ _ | serverFails _ _ _ =>
    exact fun _ h => by cases h
  | reply _ => exact fun _ _ => .inr (List.append_ne_nil_of_right_ne_nil _ (by decide))
  | hangup _ _ => exact hI

/-- a `read` that finds something -/
theorem readPiece_one {inFlight : List Byte} {p : Prop} [Decidable p] (h : inFlight ≠ []) :
    readPiece inFlight p 1 = some (inFlight.take 1) :=
  readPiece_eq_some.mpr ⟨rfl, by decide, List.length_pos_iff.mpr h, fun h => by cases h⟩

/-- a `read` at the end of the stream -/
theorem readPiece_zero {p : Prop} [Decidable p] (h : ¬ p) : readPiece [] p 0 = some [] :=
  readPiece_eq_some.mpr ⟨rfl, Nat.zero_le _, Nat.le_refl 0, fun _ => ⟨rfl, h⟩⟩

theorem client_moves_read (hb : ¬ Broken s) (hp : s.client = .read)
    (h : s.toClient ≠ [] ∨ s.serverOpen = false) : Moves x s := by
  by_cases hq : s.toClient = []
  · have ho : ¬ s.serverOpen = true := by simpa [hq] using h
    refine ⟨0, by decide, .inl ?_⟩
    simp only [step_of_not_broken hb, clientMain, hp, Int.toNat_zero, hq, readPiece_zero ho]
    rfl
  · refine ⟨1, by decide, .inl ?_⟩
    simp only [step_of_not_broken hb, clientMain, hp, Int.toNat_one, readPiece_one hq]
    rfl

theorem client_moves_loop (hb : ¬ Broken s) (hp : s.client = .loop) : Moves x s := by
  refine ⟨5, by decide, .inl ?_⟩
  by_cases hi : s.i < x.numIt
  · simp only [step_of_not_broken hb, clientMain, hp, if_pos hi]
    rfl
  · simp only [step_of_not_broken hb, clientMain, hp, if_neg hi]
    rfl

theorem server_moves_read (hb : ¬ Broken s) (hp : s.server = .read)
    (h : s.toServer ≠ [] ∨ s.client = .closed) : Moves x s := by
  by_cases hq : s.toServer = []
  · have hc : ¬ s.client ≠ .closed := by simpa [hq] using h
    refine ⟨0, by decide, .inr ?_⟩
    simp only [step_of_not_broken hb, doServiceStep, hp, Int.toNat_zero, hq, readPiece_zero hc]
    rfl
  · refine ⟨1, by decide, .inr ?_⟩
    simp only [step_of_not_broken hb, doServiceStep, hp, Int.toNat_one, readPiece_one hq]
    rfl

theorem server_moves_write (hb : ¬ Broken s) (hp : s.server = .write) : Moves x s := by
  refine ⟨8, by decide, .inr ?_⟩
  simp only [step_of_not_broken hb, doServiceStep, hp]
  rfl

/-- what a program that is stuck leaves out -/
theorem moves_cases (h : Answered s) : Moves x s ∨ Finished s ∨ Hangs s ∨ Broken s := by
  by_cases hb : Broken s
  · exact .inr (.inr (.inr hb))
  cases hc : s.client with
  | loop => exact .inl (client_moves_loop hb hc)
  | closed =>
    cases hs : s.server with
    | read => exact .inl (server_moves_read hb hs (.inr hc))
    | write => exact .inl (server_moves_write hb hs)
    | ended => exact .inr (.inl ⟨hc, hs⟩)
    | broken => exact absurd (.inr hs) hb
  | read =>
    by_cases hq : s.toClient ≠ [] ∨ s.serverOpen = false
    · exact .inl (client_moves_read hb hc hq)
    obtain ⟨hnil, ho⟩ := not_or.mp hq
    cases hs : s.server with
    | read => exact .inl (server_moves_read hb hs (.inl ((h hc hs).resolve_right hnil)))
    | write => exact .inl (server_moves_write hb hs)
    | ended => exact .inr (.inr (.inl ⟨hc, not_not.mp hnil, Bool.not_eq_false _ ▸ ho, hs⟩))
    | broken => exact absurd (.inr hs) hb
  | broken => exact absurd (.inl hc) hb

theorem not_moves (h : Finished s ∨ Hangs s ∨ Broken s) : ¬ Moves x s := by
  rintro ⟨ret, hret, hst⟩
  rw [Option.isSome_iff_exists, Option.isSome_iff_exists] at hst
  have hb : ¬ Broken s := by
    obtain ⟨s', hst⟩ | ⟨s', hst⟩ := hst <;> exact (step_cases hst).1
  have h := h.imp_right fun h => h.resolve_right hb
  have hover : s.server = .ended := by
    obtain ⟨-, h⟩ | ⟨-, -, -, h⟩ := h <;> exact h
  obtain ⟨s', hst⟩ | ⟨s', hst⟩ := hst
  · cases (step_cases hst).2 with
    | hello hp _ | finish _ hp _ =>
      obtain ⟨hc, -⟩ | ⟨hc, -⟩ := h <;> cases hc.symm.trans hp
    | got n hp _ hlen h0 =>
      obtain ⟨hc, -⟩ | ⟨-, hnil, ho, -⟩ := h
      · cases hc.symm.trans hp
      · rw [hnil] at hlen
        cases (h0 (Nat.le_zero.mp hlen)).2.symm.trans ho
    | clientBreaks n hp hlen hno =>
      obtain ⟨hc, -⟩ | ⟨-, hnil, -, -⟩ := h
      · cases hc.symm.trans hp
      · -- the empty piece has room
        rw [hnil, List.take_nil] at hno
        exact hno (room_of_short (Nat.zero_le _) _).1
    | clientFails _ hr _ => omega
  · cases (step_cases hst).2 with
    | heard _ hs _ _ _ | serviceBreaks _ hs _ _ | reply hs | ends hs _ _ =>
      cases hover.symm.trans hs
    | serverFails _ hr _ => omega

theorem run_answered (h : run (step x) start es = some s) : Answered s :=
  run_of_guarded (A := fun _ _ => True) (fun h => by cases h)
    (fun s e s' hI _ he => step_answered hI (step_cases he).2)
    (guarded_of_forall (fun _ _ => trivial) start es) h

/-- **When neither program can go on.**  Every run has a bounded length, also with failures.  It
stops when both programs have finished, or with the client waiting for ever (for a service that
has failed, while some process still has the descriptor that `doService` does not close), or where
a program has stored behind the end of a buffer. -/
theorem conversation_stuck_iff (h : run (step x) start es = some s) :
    es.length ≤ 12 * x.numIt.toNat + 3 ∧ (¬ Moves x s ↔ Finished s ∨ Hangs s ∨ Broken s) := by
  exact ⟨run_work h, (moves_cases (run_answered h)).resolve_left, not_moves⟩

/-- the service fails, and its descriptor stays open in the parent -/
theorem conversation_stuck_read :
    run (step ⟨7, 8, 1⟩) start [.client 5, .server (-1)] =
      some ⟨.read, 0, .ended, true, hola, [], [], []⟩ ∧
    ([.client 5, .server (-1)] : List Event).length ≤ 12 * (1 : Int).toNat + 3 ∧
      (¬ Moves ⟨7, 8, 1⟩ ⟨.read, 0, .ended, true, hola, [], [], []⟩ ↔
        Finished ⟨.read, 0, .ended, true, hola, [], [], []⟩ ∨
          Hangs ⟨.read, 0, .ended, true, hola, [], [], []⟩ ∨
            Broken ⟨.read, 0, .ended, true, hola, [], [], []⟩) :=
  ⟨rfl, conversation_stuck_iff (x := ⟨7, 8, 1⟩) rfl⟩

end Sockets.Conversation
