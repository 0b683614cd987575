/-
  q2client.c with its two threads, q2server.c and the network between them, as one machine.

  The main thread stamps and sends packets as long as the clock is within the duration, then clears
  `running`, joins the receiver thread and prints the report. The receiver tests `running`, does one
  `recvfrom` into a buffer of its own and adds what it got to `stats`. Their steps, those of the
  server and of the network come in any order; the readings of `gettimeofday` are arbitrary and part
  of the actions, and need not go forward.

  `Datagram.sent` and everything in `History` are not read by any step: the reading of the clock in
  the pass that sent a datagram, both readings of each echo received, and every index used on
  `stats`. `seq` is an exact integer; its low 32 bits are sent.

  The size of the packets is any number here. What is proved for the sizes that hold a header is in
  the modules that assume one.
-/
import NetLab.Lib.Machine
import NetLab.Lib.Network
import NetLab.Throughput.Report

namespace NetLab.Throughput

open NetLab.Lib
open NetLab.Ping (Timeval Packethead sizeofPackethead storeHead loadHead echo rtt)

/-! ## States -/

/-- The arguments of a run, and the reading of the clock before its threads start. -/
structure Args where
  duration : Int32
  packetsz : Nat
  start_test_time : Timeval

/-- The size of the receiver's buffer. -/
def rcvBufSize : Nat := 65535

structure Datagram where
  /-- The reading of the clock that was stamped on it. -/
  sent : Timeval
  bytes : Bytes
deriving DecidableEq, Repr

inductive MainPhase where
  /-- About to read the clock into `current_time`. -/
  | clock
  /-- At the head of the loop. -/
  | head
  /-- In `pthread_join`. -/
  | joining
  /-- The report is printed. -/
  | done
deriving DecidableEq, Repr

inductive ReceiverPhase where
  /-- At the head of the loop. -/
  | head
  /-- In `recvfrom`. -/
  | waiting
  /-- The thread has returned. -/
  | ended
deriving DecidableEq, Repr

structure History where
  /-- The reading after each echo received, and the one stamped on it. -/
  echoes : List (Timeval × Timeval)
  /-- Every index used on `stats`. -/
  indices : List Int
deriving DecidableEq, Repr

structure Sys where
  main : MainPhase
  current_time : Timeval
  seq : Nat
  /-- The buffer of the main thread. -/
  buffer : Bytes
  running : Bool
  receiver : ReceiverPhase
  /-- The buffer of the receiver. -/
  recvbuf : Bytes
  stats : List Secondsts
  /-- Packets on their way to the server or in its queue. -/
  requests : List Datagram
  /-- Echoes on their way back. -/
  replies : List Datagram
  /-- Unread echoes in the client's socket. -/
  queue : List Datagram
  out : List (Nat × Line)
  hist : History
deriving DecidableEq, Repr

def Sys.init (a : Args) : Sys where
  main := .clock
  current_time := a.start_test_time
  seq := 1
  buffer := List.replicate a.packetsz 65
  running := true
  receiver := .head
  recvbuf := List.replicate rcvBufSize 0
  stats := List.replicate MAXI Secondsts.zero
  requests := []
  replies := []
  queue := []
  out := []
  hist := ⟨[], []⟩

/-! ## Steps -/

inductive Act where
  | clock (t : Timeval)
  | send (t : Timeval)
  | sendFail (t : Timeval)
  | stop
  | join
  | enter
  | leave
  | recv (rcvtime : Timeval)
  | recvFail
  | serve (k : Nat)
  | deliver (k : Nat)
  | loseRequest (k : Nat)
  | loseReply (k : Nat)
  | dupRequest (k : Nat)
  | dupReply (k : Nat)
deriving DecidableEq, Repr

/-- Steps of the client's threads, not of the network or the server. -/
def Act.OfClient : Act → Bool
  | .clock _ | .send _ | .sendFail _ | .stop | .join | .enter | .leave | .recv _ | .recvFail => true
  | .serve _ | .deliver _ | .loseRequest _ | .loseReply _ | .dupRequest _ | .dupReply _ => false

/-- `(current_time.tv_sec - start_test_time.tv_sec) < duration`. -/
def Sys.InTest (a : Args) (s : Sys) : Prop :=
  (s.current_time.tv_sec - a.start_test_time.tv_sec).toInt < (capped a.duration).toInt

instance (a : Args) (s : Sys) : Decidable (s.InTest a) := inferInstanceAs (Decidable (_ < _))

/-- `header->seq_num = seq++; gettimeofday (&header->send_time)`. -/
def Sys.stamp (s : Sys) (t : Timeval) : Bytes := storeHead s.buffer ⟨Int32.ofNat s.seq, t⟩

/-- The main thread after the header is stamped and `sendto` has returned. -/
def Sys.stamped (s : Sys) (t : Timeval) : Sys :=
  { s with main := .clock, seq := s.seq + 1, buffer := s.stamp t }

/-- What the receiver makes of the `n` bytes it has read. -/
def reception (recvbuf : Bytes) (n : Nat) (rcvtime : Timeval) : Reception :=
  ⟨rcvtime, n, rtt rcvtime (loadHead recvbuf).send_time⟩

/-- The receiver reads `d`. -/
def Sys.receive (a : Args) (s : Sys) (d : Datagram) (rest : List Datagram) (rcvtime : Timeval) :
    Sys :=
  let n := (d.bytes.take rcvBufSize).length
  let recvbuf := recvInto rcvBufSize s.recvbuf d.bytes
  let i := secindex a.start_test_time rcvtime
  if 0 < n then
    { s with
      receiver := .head
      recvbuf := recvbuf
      queue := rest
      stats := account a.start_test_time s.stats (reception recvbuf n rcvtime)
      hist :=
        { echoes := s.hist.echoes ++ [(rcvtime, d.sent)]
          indices := if InTable i then s.hist.indices ++ [i.toInt] else s.hist.indices } }
  else { s with receiver := .head, recvbuf := recvbuf, queue := rest }

/-- The indices the report uses. -/
def reportIndices (duration : Int32) : List Int := (List.range duration.toInt.toNat).map Int.ofNat

def step (a : Args) (s : Sys) : Act → Option Sys
  | .clock t =>
    if s.main = .clock then some { s with main := .head, current_time := t } else none
  | .send t =>
    if s.main = .head ∧ s.InTest a ∧ a.packetsz ≤ maxDatagram then
      some { s.stamped t with requests := s.requests ++ [⟨t, s.stamp t⟩] }
    else none
  | .sendFail t =>
    -- the result of `sendto` is not looked at
    if s.main = .head ∧ s.InTest a then some (s.stamped t) else none
  | .stop =>
    if s.main = .head ∧ ¬ s.InTest a then some { s with main := .joining, running := false }
    else none
  | .join =>
    if s.main = .joining ∧ s.receiver = .ended then
      some { s with
        main := .done
        out := report (capped a.duration) s.stats
        hist := { s.hist with indices := s.hist.indices ++ reportIndices (capped a.duration) } }
    else none
  | .enter =>
    if s.receiver = .head ∧ s.running = true then some { s with receiver := .waiting } else none
  | .leave =>
    if s.receiver = .head ∧ s.running = false then some { s with receiver := .ended } else none
  | .recv rcvtime =>
    match s.receiver, s.queue with
    | .waiting, d :: rest => some (s.receive a d rest rcvtime)
    | _, _ => none
  | .recvFail =>
    if s.receiver = .waiting then some { s with receiver := .head } else none
  | .serve k =>
    (takeAt k s.requests).map fun p =>
      { s with requests := p.2, replies := s.replies ++ [⟨p.1.sent, echo p.1.bytes⟩] }
  | .deliver k =>
    (takeAt k s.replies).map fun p => { s with replies := p.2, queue := s.queue ++ [p.1] }
  | .loseRequest k => (lose k s.requests).map fun l => { s with requests := l }
  | .loseReply k => (lose k s.replies).map fun l => { s with replies := l }
  | .dupRequest k => (duplicate k s.requests).map fun l => { s with requests := l }
  | .dupReply k => (duplicate k s.replies).map fun l => { s with replies := l }

def system (a : Args) : Machine Sys Act := ⟨step a⟩

/-! ## What each step can do -/

variable {a : Args} {s s' : Sys}

theorem step_send {t : Timeval} (h : step a s (.send t) = some s') :
    s.main = .head ∧ a.packetsz ≤ maxDatagram ∧
      s' = { s.stamped t with requests := s.requests ++ [⟨t, s.stamp t⟩] } := by
  simp only [step, Option.ite_none_right_eq_some, Option.some.injEq] at h
  exact ⟨h.1.1, h.1.2.2, h.2.symm⟩

theorem step_sendFail {t : Timeval} (h : step a s (.sendFail t) = some s') :
    s.main = .head ∧ s' = s.stamped t := by
  simp only [step, Option.ite_none_right_eq_some, Option.some.injEq] at h
  exact ⟨h.1.1, h.2.symm⟩

theorem step_join (h : step a s .join = some s') :
    s.main = .joining ∧ s.receiver = .ended ∧
      s' = { s with
        main := .done
        out := report (capped a.duration) s.stats
        hist := { s.hist with
          indices := s.hist.indices ++ reportIndices (capped a.duration) } } := by
  simp only [step, Option.ite_none_right_eq_some, Option.some.injEq] at h
  exact ⟨h.1.1, h.1.2, h.2.symm⟩

theorem step_recv {t : Timeval} (h : step a s (.recv t) = some s') :
    ∃ d rest, s.receiver = .waiting ∧ s.queue = d :: rest ∧ s' = s.receive a d rest t := by
  simp only [step] at h
  split at h
  · rename_i d rest hp hq
    exact ⟨d, rest, hp, hq, (Option.some.inj h).symm⟩
  · cases h

theorem stats_receive (a : Args) (s : Sys) (d : Datagram) (rest : List Datagram) (t : Timeval) :
    (s.receive a d rest t).stats =
      if 0 < (d.bytes.take rcvBufSize).length then
        account a.start_test_time s.stats (reception (recvInto rcvBufSize s.recvbuf d.bytes)
          (d.bytes.take rcvBufSize).length t)
      else s.stats := by
  unfold Sys.receive
  dsimp only
  split <;> rfl

/-- Only a reception changes the table. -/
theorem stats_step {x : Act} (h : step a s x = some s') :
    s'.stats = s.stats ∨ ∃ r, s'.stats = account a.start_test_time s.stats r := by
  cases x with
  | recv t =>
    obtain ⟨d, rest, _, _, rfl⟩ := step_recv h
    rw [stats_receive]
    split
    · exact .inr ⟨_, rfl⟩
    · exact .inl rfl
  | clock t | send t | sendFail t | stop | join | enter | leave | recvFail =>
    simp only [step, Option.ite_none_right_eq_some, Option.some.injEq] at h
    obtain ⟨_, rfl⟩ := h
    exact .inl rfl
  | serve k | deliver k | loseRequest k | loseReply k | dupRequest k | dupReply k =>
    simp only [step, Option.map_eq_some_iff] at h
    obtain ⟨_, _, rfl⟩ := h
    exact .inl rfl

end NetLab.Throughput
