/-
  q1client.c, q1server.c and the network between them, as one machine.

  The client goes through its loop in the order of the source: assign the header in the buffer,
  `sendto`, `recvfrom` into the same buffer, compare, `usleep`. The server sends every request
  back. Datagrams in flight are lists of bytes; the network takes them in any order, loses them
  and duplicates them, and puts echoes into the queue of the client's socket, which outlives the
  pass that waited for them. Time is a counter of microseconds that any action may be followed by
  more of; the readings of `gettimeofday` are arbitrary and part of the actions.

  `Datagram.origin` and everything in `History` are not read by any step. They record what the
  properties are about: which pass sent a datagram, when it was sent, which echoes reached the
  socket before the wait of their own pass would have ended, and what each `recvfrom` returned.
-/
import NetLab.Lib.Network
import NetLab.Ping.Statistics

namespace NetLab.Ping

open NetLab.Lib

/-! ## States -/

/-- The arguments of a run past the checks of `main`. -/
structure Args where
  msgcount : Int32
  packetsz : Nat
  size_ok : sizeofPackethead ≤ packetsz

/-- `SO_RCVTIMEO`, in microseconds. -/
def rcvTimeout : Nat := 1000000

structure Datagram where
  /-- The pass whose `sendto` it comes from. -/
  origin : Int32
  bytes : Bytes
deriving DecidableEq, Repr

inductive Phase where
  /-- At the head of the loop. -/
  | head
  /-- `sendto` has returned. -/
  | sent
  /-- In `recvfrom`, which times out at `deadline`. -/
  | waiting (deadline : Nat)
  /-- In `usleep`. -/
  | asleep
  /-- The loop has ended. -/
  | done
deriving DecidableEq, Repr

structure Client where
  phase : Phase
  i : Int32
  buffer : Bytes
  stats : Stats
deriving DecidableEq, Repr

structure History where
  /-- Pass and send time of each probe sent. -/
  sends : List (Int32 × Timeval)
  /-- Pass and deadline of each `recvfrom`. -/
  waits : List (Int32 × Nat)
  /-- Probes whose echo reached the socket before their wait would have ended. -/
  timely : List Int32
  /-- Pass of each `recvfrom` that returned a datagram, and the pass that datagram comes from. -/
  took : List (Int32 × Int32)
  /-- The origin of the datagram behind each increment of `recvcnt`. -/
  counted : List Int32
  outcomes : List Outcome
deriving DecidableEq, Repr

structure Sys where
  client : Client
  now : Nat
  /-- Requests on their way to the server or in its queue. -/
  requests : List Datagram
  /-- Echoes on their way back. -/
  echoes : List Datagram
  /-- Unread echoes in the client's socket. -/
  queue : List Datagram
  hist : History
deriving DecidableEq, Repr

def Client.init (a : Args) : Client :=
  ⟨.head, 1, List.replicate a.packetsz 65, Stats.init⟩

def Sys.init (a : Args) : Sys := ⟨Client.init a, 0, [], [], [], ⟨[], [], [], [], [], []⟩⟩

/-! ## Steps -/

inductive Act where
  | send (t : Timeval)
  | sendFail (t : Timeval)
  | wait
  | recv (rcvtime : Timeval)
  | timeout
  | wake
  | finish
  | tick (d : Nat)
  | serve (k : Nat)
  | deliver (k : Nat)
  | loseRequest (k : Nat)
  | loseEcho (k : Nat)
  | dupRequest (k : Nat)
  | dupEcho (k : Nat)
deriving DecidableEq, Repr

/-- The echo of probe `j` is in time: the wait of pass `j` has not ended, if it has begun. -/
def InTime (s : Sys) (j : Int32) : Prop := ∀ w ∈ s.hist.waits, w.1 = j → s.now < w.2

instance (s : Sys) (j : Int32) : Decidable (InTime s j) :=
  List.decidableBAll (fun w : Int32 × Nat => w.1 = j → s.now < w.2) s.hist.waits

/-- `head->seq_num = i; gettimeofday(&head->send_time)`. -/
def Client.stamp (c : Client) (t : Timeval) : Bytes := storeHead c.buffer ⟨c.i, t⟩

/-- What `recvfrom` and the comparison after it make of a datagram. -/
def readReply (buffer : Bytes) (rcvtime : Timeval) : Outcome :=
  .reply (loadHead buffer).seq_num (rtt rcvtime (loadHead buffer).send_time)

/-- The client reads `d` from its socket. -/
def Sys.receive (a : Args) (s : Sys) (d : Datagram) (rest : List Datagram) (rcvtime : Timeval) :
    Sys :=
  let buffer := recvInto a.packetsz s.client.buffer d.bytes
  let o := readReply buffer rcvtime
  let stats := s.client.stats.account s.client.i o
  { s with
    client := { s.client with phase := .asleep, buffer := buffer, stats := stats }
    queue := rest
    hist := { s.hist with
      took := s.hist.took ++ [(s.client.i, d.origin)]
      counted := if stats.recvcnt = s.client.stats.recvcnt then s.hist.counted
        else s.hist.counted ++ [d.origin]
      outcomes := s.hist.outcomes ++ [o] } }

/-- An echo reaches the client's socket. -/
def Sys.arrive (s : Sys) (d : Datagram) (rest : List Datagram) : Sys :=
  { s with
    echoes := rest
    queue := s.queue ++ [d]
    hist := { s.hist with
      timely := if InTime s d.origin then s.hist.timely ++ [d.origin] else s.hist.timely } }

def step (a : Args) (s : Sys) : Act → Option Sys
  | .send t =>
    if s.client.phase = .head ∧ s.client.i ≤ a.msgcount ∧ a.packetsz ≤ maxDatagram then
      some { s with
        client := { s.client with phase := .sent, buffer := s.client.stamp t }
        requests := s.requests ++ [⟨s.client.i, s.client.stamp t⟩]
        hist := { s.hist with sends := s.hist.sends ++ [(s.client.i, t)] } }
    else none
  | .sendFail t =>
    -- `continue` skips `usleep` and goes to `i++`
    if s.client.phase = .head ∧ s.client.i ≤ a.msgcount ∧ s.client.i ≠ Int32.maxValue then
      some { s with
        client := { s.client with
          i := s.client.i + 1
          buffer := s.client.stamp t
          stats := s.client.stats.account s.client.i .sendFailed }
        hist := { s.hist with outcomes := s.hist.outcomes ++ [.sendFailed] } }
    else none
  | .wait =>
    if s.client.phase = .sent then
      some { s with
        client := { s.client with phase := .waiting (s.now + rcvTimeout) }
        hist := { s.hist with
          waits := s.hist.waits ++ [(s.client.i, s.now + rcvTimeout)] } }
    else none
  | .recv rcvtime =>
    match s.client.phase, s.queue with
    | .waiting _, d :: rest => some (s.receive a d rest rcvtime)
    | _, _ => none
  | .timeout =>
    match s.client.phase, s.queue with
    | .waiting deadline, [] =>
      if deadline ≤ s.now then
        some { s with
          client := { s.client with
            phase := .asleep
            stats := s.client.stats.account s.client.i .timedOut }
          hist := { s.hist with outcomes := s.hist.outcomes ++ [.timedOut] } }
      else none
    | _, _ => none
  | .wake =>
    if s.client.phase = .asleep ∧ s.client.i ≠ Int32.maxValue then
      some { s with client := { s.client with phase := .head, i := s.client.i + 1 } }
    else none
  | .finish =>
    if s.client.phase = .head ∧ ¬ s.client.i ≤ a.msgcount then
      some { s with client := { s.client with phase := .done } }
    else none
  | .tick d => some { s with now := s.now + d }
  | .serve k =>
    (takeAt k s.requests).map fun p =>
      { s with requests := p.2, echoes := s.echoes ++ [⟨p.1.origin, echo p.1.bytes⟩] }
  | .deliver k => (takeAt k s.echoes).map fun p => s.arrive p.1 p.2
  | .loseRequest k => (lose k s.requests).map fun l => { s with requests := l }
  | .loseEcho k => (lose k s.echoes).map fun l => { s with echoes := l }
  | .dupRequest k => (duplicate k s.requests).map fun l => { s with requests := l }
  | .dupEcho k => (duplicate k s.echoes).map fun l => { s with echoes := l }

def system (a : Args) : Machine Sys Act := ⟨step a⟩

/-! ## The stamped buffer -/

section Stamp

variable {a : Args} {c : Client}

theorem length_stamp (h : c.buffer.length = a.packetsz) (t : Timeval) :
    (c.stamp t).length = a.packetsz := by
  unfold Client.stamp
  rw [length_storeHead (h.symm ▸ a.size_ok), h]

/-- The header the client is about to send. -/
theorem loadHead_stamp (h : c.buffer.length = a.packetsz) (t : Timeval) :
    loadHead (c.stamp t) = ⟨c.i, t⟩ :=
  loadHead_storeHead (h.symm ▸ a.size_ok) _

end Stamp

/-! ## What each step can do -/

theorem step_send {a : Args} {s s' : Sys} {t : Timeval} (h : step a s (.send t) = some s') :
    s.client.phase = .head ∧ s.client.i ≤ a.msgcount ∧ a.packetsz ≤ maxDatagram ∧
      s' = { s with
        client := { s.client with phase := .sent, buffer := s.client.stamp t }
        requests := s.requests ++ [⟨s.client.i, s.client.stamp t⟩]
        hist := { s.hist with sends := s.hist.sends ++ [(s.client.i, t)] } } := by
  simp only [step, Option.ite_none_right_eq_some, Option.some.injEq] at h
  obtain ⟨⟨hp, hi, hsz⟩, rfl⟩ := h
  exact ⟨hp, hi, hsz, rfl⟩

theorem step_sendFail {a : Args} {s s' : Sys} {t : Timeval}
    (h : step a s (.sendFail t) = some s') :
    s.client.phase = .head ∧ s.client.i ≤ a.msgcount ∧ s.client.i ≠ Int32.maxValue ∧
      s' = { s with
        client := { s.client with
          i := s.client.i + 1
          buffer := s.client.stamp t
          stats := s.client.stats.account s.client.i .sendFailed }
        hist := { s.hist with outcomes := s.hist.outcomes ++ [.sendFailed] } } := by
  simp only [step, Option.ite_none_right_eq_some, Option.some.injEq] at h
  obtain ⟨⟨hp, hi, hmax⟩, rfl⟩ := h
  exact ⟨hp, hi, hmax, rfl⟩

theorem step_wait {a : Args} {s s' : Sys} (h : step a s .wait = some s') :
    s.client.phase = .sent ∧
      s' = { s with
        client := { s.client with phase := .waiting (s.now + rcvTimeout) }
        hist := { s.hist with
          waits := s.hist.waits ++ [(s.client.i, s.now + rcvTimeout)] } } := by
  simp only [step, Option.ite_none_right_eq_some, Option.some.injEq] at h
  exact ⟨h.1, h.2.symm⟩

theorem step_recv {a : Args} {s s' : Sys} {t : Timeval} (h : step a s (.recv t) = some s') :
    ∃ deadline d rest, s.client.phase = .waiting deadline ∧ s.queue = d :: rest ∧
      s' = s.receive a d rest t := by
  simp only [step] at h
  split at h
  · rename_i deadline d rest hp hq
    exact ⟨deadline, d, rest, hp, hq, (Option.some.inj h).symm⟩
  · cases h

theorem step_timeout {a : Args} {s s' : Sys} (h : step a s .timeout = some s') :
    ∃ deadline, s.client.phase = .waiting deadline ∧ s.queue = [] ∧ deadline ≤ s.now ∧
      s' = { s with
        client := { s.client with
          phase := .asleep
          stats := s.client.stats.account s.client.i .timedOut }
        hist := { s.hist with outcomes := s.hist.outcomes ++ [.timedOut] } } := by
  simp only [step] at h
  split at h
  · rename_i deadline hp hq
    rw [Option.ite_none_right_eq_some, Option.some.injEq] at h
    exact ⟨deadline, hp, hq, h.1, h.2.symm⟩
  · cases h

theorem step_wake {a : Args} {s s' : Sys} (h : step a s .wake = some s') :
    s.client.phase = .asleep ∧ s.client.i ≠ Int32.maxValue ∧
      s' = { s with client := { s.client with phase := .head, i := s.client.i + 1 } } := by
  simp only [step, Option.ite_none_right_eq_some, Option.some.injEq] at h
  exact ⟨h.1.1, h.1.2, h.2.symm⟩

theorem step_finish {a : Args} {s s' : Sys} (h : step a s .finish = some s') :
    s.client.phase = .head ∧ ¬ s.client.i ≤ a.msgcount ∧
      s' = { s with client := { s.client with phase := .done } } := by
  simp only [step, Option.ite_none_right_eq_some, Option.some.injEq] at h
  exact ⟨h.1.1, h.1.2, h.2.symm⟩

theorem step_deliver {a : Args} {s s' : Sys} {k : Nat} (h : step a s (.deliver k) = some s') :
    ∃ d rest, takeAt k s.echoes = some (d, rest) ∧ s' = s.arrive d rest := by
  simp only [step, Option.map_eq_some_iff] at h
  obtain ⟨⟨d, rest⟩, hk, rfl⟩ := h
  exact ⟨d, rest, hk, rfl⟩

end NetLab.Ping
