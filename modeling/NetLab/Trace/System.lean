/-
  q3traceroute.c, the routers and the network between them, as one machine.

  The program goes through its two loops in the order of the source: the TTL of a hop, then for
  each of its probes the port, the reading of the clock, `sendto`, and `recvfrom` into `recv_buf`
  until a packet is accepted or the wait times out. A router (or the destination) answers a probe
  with an ICMP message that quotes it. Probes and messages in flight are taken in any order, lost
  and duplicated; what has reached the raw socket stays in its queue across probes and hops. The
  readings of the clock and the messages are part of the actions.

  `Probe.pass` and `Message.quoted` are not read by the program: which pass of the loops a datagram
  was sent in, and which datagram a message quotes.
-/
import NetLab.Lib.Network
import NetLab.Lib.Machine
import NetLab.Ping.Packet
import NetLab.Trace.Parser

namespace NetLab.Trace

open NetLab.Lib
open NetLab.Ping (Timeval)

def MAXHOPS : Nat := 64
def PROBESPERHOP : Nat := 3
def DESTPORT : Nat := 33434

/-- `RECVTIMEOUT`, in microseconds. -/
def RECVTIMEOUT : Nat := 3000000

/-! ## States -/

/-- A pass through the inner loop. -/
structure Pass where
  ttl : Nat
  probe : Nat
deriving DecidableEq, Repr

/-- The destination port of the pass, an `int`. -/
def Pass.port (p : Pass) : Nat := DESTPORT + p.ttl + p.probe

/-- A UDP datagram of the program. -/
structure Probe where
  /-- The pass whose `sendto` it comes from. -/
  pass : Pass
  /-- The TTL it left with. -/
  ip_ttl : Nat
  /-- The destination port, as `htons` wrote it. -/
  dport : UInt16
deriving DecidableEq, Repr

/-- An ICMP message on its way or in the raw socket's queue. -/
structure Message where
  quoted : Probe
  router_addr : UInt32
  bytes : Bytes
deriving DecidableEq, Repr

/-- What is printed. -/
inductive Out where
  | hop (ttl : Nat)
  | star
  | addr (router : UInt32)
  | rtt (ms : ℚ)
  | newline
deriving DecidableEq, Repr

inductive Phase where
  /-- At the head of the outer loop. -/
  | hop
  /-- At the head of the inner loop. -/
  | probe
  /-- In the `recvfrom` that times out at `deadline`. -/
  | waiting (start_time : Timeval) (deadline : Nat)
  /-- Both loops are over. -/
  | done
  /-- `error` has ended the process. -/
  | exited
deriving DecidableEq, Repr

/-- The process. -/
structure Tracer where
  phase : Phase
  pass : Pass
  destreached : Bool
  /-- The `IP_TTL` of `sendsock`. -/
  ip_ttl : Nat
  /-- `none` for the empty string. -/
  lastrouterip : Option UInt32
  recv_buf : Bytes
  out : List Out
deriving DecidableEq, Repr

structure Sys where
  tracer : Tracer
  now : Nat
  /-- Probes on their way. -/
  flight : List Probe
  /-- ICMP messages on their way back. -/
  replies : List Message
  /-- Unread messages of the raw socket. -/
  queue : List Message
deriving DecidableEq, Repr

def Tracer.init : Tracer :=
  ⟨.hop, ⟨1, 0⟩, false, 64, none, List.replicate recvBufSize 0, []⟩

def Sys.init : Sys := ⟨Tracer.init, 0, [], [], []⟩

/-! ## Steps -/

inductive Act where
  | hop
  | finish
  | send (start_time : Timeval)
  | fail
  | newline
  | recv (end_time : Timeval)
  | timeout
  | tick (d : Nat)
  | answer (k : Nat) (router_addr : UInt32) (e : ErrorMessage)
  | deliver (k : Nat)
  | loseProbe (k : Nat)
  | loseReply (k : Nat)
  | dupProbe (k : Nat)
  | dupReply (k : Nat)
deriving DecidableEq, Repr

/-- `ttl <= MAXHOPS && !destreached`. -/
def Tracer.More (c : Tracer) : Prop := c.pass.ttl ≤ MAXHOPS ∧ c.destreached = false

instance (c : Tracer) : Decidable c.More := inferInstanceAs (Decidable (_ ∧ _))

def getrtt (start_time end_time : Timeval) : ℚ :=
  ((end_time.tv_sec.toInt - start_time.tv_sec.toInt : Int) : ℚ) * 1000 +
    ((end_time.tv_usec.toInt - start_time.tv_usec.toInt : Int) : ℚ) / 1000

/-- `setsockopt (.., IP_TTL, ..)` and the start of line `ttl`. -/
def Tracer.hop (c : Tracer) : Tracer :=
  { c with
    phase := .probe
    pass := ⟨c.pass.ttl, 0⟩
    ip_ttl := c.pass.ttl
    lastrouterip := none
    out := c.out ++ [.hop c.pass.ttl] }

/-- The datagram of the pass: `htons (DESTPORT + ttl + probe)` takes 16 bits of the `int`. -/
def Tracer.datagram (c : Tracer) : Probe := ⟨c.pass, c.ip_ttl, UInt16.ofNat c.pass.port⟩

/-- `probe++`. -/
def Tracer.nextProbe (c : Tracer) : Tracer :=
  { c with phase := .probe, pass := ⟨c.pass.ttl, c.pass.probe + 1⟩ }

/-- What is printed for an accepted reply. -/
def Tracer.report (c : Tracer) (router_addr : UInt32) (ms : ℚ) : List Out :=
  if c.lastrouterip = some router_addr then [.rtt ms] else [.addr router_addr, .rtt ms]

/-- The rest of the pass once `check` is set. -/
def Tracer.accept (c : Tracer) (start_time end_time : Timeval) (router_addr : UInt32) : Tracer :=
  { c.nextProbe with
    lastrouterip := some router_addr
    out := c.out ++ c.report router_addr (getrtt start_time end_time)
    destreached := c.destreached || decide (portUnreachable c.recv_buf) }

/-- `printf ("* "); continue`. -/
def Tracer.giveUp (c : Tracer) : Tracer := { c.nextProbe with out := c.out ++ [.star] }

/-- The program reads `m` from the raw socket, in the pass that began at `start_time`. -/
def Sys.receive (s : Sys) (m : Message) (rest : List Message) (start_time end_time : Timeval) :
    Sys :=
  let c := { s.tracer with recv_buf := recvInto recvBufSize s.tracer.recv_buf m.bytes }
  if check c.pass.port c.recv_buf then
    { s with tracer := c.accept start_time end_time m.router_addr, queue := rest }
  else
    { s with
      tracer := { c with phase := .waiting start_time (s.now + RECVTIMEOUT) }
      queue := rest }

def step (s : Sys) : Act → Option Sys
  | .hop =>
    if s.tracer.phase = .hop ∧ s.tracer.More then some { s with tracer := s.tracer.hop } else none
  | .finish =>
    if s.tracer.phase = .hop ∧ ¬ s.tracer.More then
      some { s with tracer := { s.tracer with phase := .done } }
    else none
  | .send start_time =>
    if s.tracer.phase = .probe ∧ s.tracer.pass.probe < PROBESPERHOP then
      some { s with
        tracer := { s.tracer with phase := .waiting start_time (s.now + RECVTIMEOUT) }
        flight := s.flight ++ [s.tracer.datagram] }
    else none
  | .fail =>
    -- `setsockopt` or `sendto` fails
    if s.tracer.phase = .hop ∧ s.tracer.More ∨
        s.tracer.phase = .probe ∧ s.tracer.pass.probe < PROBESPERHOP then
      some { s with tracer := { s.tracer with phase := .exited } }
    else none
  | .newline =>
    if s.tracer.phase = .probe ∧ ¬ s.tracer.pass.probe < PROBESPERHOP then
      some { s with
        tracer := { s.tracer with
          phase := .hop
          pass := ⟨s.tracer.pass.ttl + 1, s.tracer.pass.probe⟩
          out := s.tracer.out ++ [.newline] } }
    else none
  | .recv end_time =>
    match s.tracer.phase, s.queue with
    | .waiting start_time _, m :: rest => some (s.receive m rest start_time end_time)
    | _, _ => none
  | .timeout =>
    match s.tracer.phase, s.queue with
    | .waiting _ deadline, [] =>
      if deadline ≤ s.now then
        some { s with tracer := s.tracer.giveUp }
      else none
    | _, _ => none
  | .tick d => some { s with now := s.now + d }
  | .answer k router_addr e =>
    (takeAt k s.flight).map fun p =>
      { s with
        flight := p.2
        replies := s.replies ++ [⟨p.1, router_addr, e.bytes p.1.dport⟩] }
  | .deliver k =>
    (takeAt k s.replies).map fun p => { s with replies := p.2, queue := s.queue ++ [p.1] }
  | .loseProbe k => (lose k s.flight).map fun l => { s with flight := l }
  | .loseReply k => (lose k s.replies).map fun l => { s with replies := l }
  | .dupProbe k => (duplicate k s.flight).map fun l => { s with flight := l }
  | .dupReply k => (duplicate k s.replies).map fun l => { s with replies := l }

def system : Machine Sys Act := ⟨step⟩

/-! ## What each step can do -/

theorem step_hop {s s' : Sys} (h : step s .hop = some s') :
    s.tracer.phase = .hop ∧ s.tracer.More ∧ s' = { s with tracer := s.tracer.hop } := by
  simp only [step, Option.ite_none_right_eq_some, Option.some.injEq] at h
  exact ⟨h.1.1, h.1.2, h.2.symm⟩

theorem step_send {s s' : Sys} {t : Timeval} (h : step s (.send t) = some s') :
    s.tracer.phase = .probe ∧ s.tracer.pass.probe < PROBESPERHOP ∧
      s' = { s with
        tracer := { s.tracer with phase := .waiting t (s.now + RECVTIMEOUT) }
        flight := s.flight ++ [s.tracer.datagram] } := by
  simp only [step, Option.ite_none_right_eq_some, Option.some.injEq] at h
  exact ⟨h.1.1, h.1.2, h.2.symm⟩

theorem step_newline {s s' : Sys} (h : step s .newline = some s') :
    s.tracer.phase = .probe ∧ ¬ s.tracer.pass.probe < PROBESPERHOP ∧
      s' = { s with
        tracer := { s.tracer with
          phase := .hop
          pass := ⟨s.tracer.pass.ttl + 1, s.tracer.pass.probe⟩
          out := s.tracer.out ++ [.newline] } } := by
  simp only [step, Option.ite_none_right_eq_some, Option.some.injEq] at h
  exact ⟨h.1.1, h.1.2, h.2.symm⟩

theorem step_recv {s s' : Sys} {t : Timeval} (h : step s (.recv t) = some s') :
    ∃ start_time deadline m rest, s.tracer.phase = .waiting start_time deadline ∧
      s.queue = m :: rest ∧ s' = s.receive m rest start_time t := by
  simp only [step] at h
  split at h
  · rename_i start_time deadline m rest hp hq
    exact ⟨start_time, deadline, m, rest, hp, hq, (Option.some.inj h).symm⟩
  · cases h

theorem step_timeout {s s' : Sys} (h : step s .timeout = some s') :
    ∃ start_time deadline, s.tracer.phase = .waiting start_time deadline ∧ s.queue = [] ∧
      deadline ≤ s.now ∧ s' = { s with tracer := s.tracer.giveUp } := by
  simp only [step] at h
  split at h
  · rename_i start_time deadline hp hq
    rw [Option.ite_none_right_eq_some, Option.some.injEq] at h
    exact ⟨start_time, deadline, hp, hq, h.1, h.2.symm⟩
  · cases h

end NetLab.Trace
