/-
  `MyApp`, the traffic source of Assignment7/Part2/as7_que2.cc (lines 65-186), under the ns-3
  simulator.

  The application sends `m_nPackets` packets on a socket that `main` has created. `StartApplication`
  sends the first one; `SendPacket` schedules the next `SendPacket` until the number is reached, and
  `ScheduleTx` keeps the id of that event in `m_sendEvent`, for `StopApplication` to cancel.

  The simulator is the scheduler of `Lib.Scheduler`: an event fires once unless it is cancelled.
  It fires `StartApplication` once, then pending `SendPacket` events and at most one
  `StopApplication`; the order is free, so the delays are kept but decide nothing. `m_socket` is the
  socket of `Setup`, which is not null; what the application calls on it is recorded in `calls`.
-/
import NetLab.Lib.Machine
import NetLab.Lib.Scheduler

namespace NetLab.App

open NetLab.Lib

/-! ## Data -/

inductive Address where
  | inetSocket (ipv4 : UInt32) (port : UInt16)
  | inet6Socket (ipv6 : BitVec 128) (port : UInt16)
deriving DecidableEq, Repr

/-- `InetSocketAddress::IsMatchingType`. -/
def Address.IsInetSocket : Address → Prop
  | .inetSocket _ _ => True
  | .inet6Socket _ _ => False

instance : DecidablePred Address.IsInetSocket := fun a => by
  unfold Address.IsInetSocket
  split <;> infer_instance

/-- A call on the socket. -/
inductive SocketCall where
  | bind
  | bind6
  | connect (peer : Address)
  | send (size : UInt32)
  | close
deriving DecidableEq, Repr

/-- A delay in seconds, as the two sides of the division that computes it. -/
structure TxTime where
  bits : UInt32
  bitRate : UInt64
deriving DecidableEq, Repr

structure MyApp where
  peer : Address
  packetSize : UInt32
  nPackets : UInt32
  dataRate : UInt64
  sendEvent : Option Nat
  running : Bool
  packetsSent : UInt32
deriving DecidableEq, Repr

/-- `MyApp ()` and `Setup`. -/
def MyApp.setup (peer : Address) (packetSize nPackets : UInt32) (dataRate : UInt64) : MyApp where
  peer := peer
  packetSize := packetSize
  nPackets := nPackets
  dataRate := dataRate
  sendEvent := none
  running := false
  packetsSent := 0

/-- `tNext` of `ScheduleTx`. -/
def MyApp.tNext (app : MyApp) : TxTime := ⟨app.packetSize * 8, app.dataRate⟩

/-- How far the simulator has come with the application. -/
inductive Phase where
  | installed
  | started
  | stopped
deriving DecidableEq, Repr

/-- The application and what is around it. All events of `simulator` are calls of `SendPacket`. -/
structure Simulation where
  app : MyApp
  simulator : Scheduler TxTime
  /-- The calls on the socket, in order. -/
  calls : List SocketCall
  phase : Phase

def Simulation.init (app : MyApp) : Simulation := ⟨app, .empty, [], .installed⟩

/-! ## The methods -/

namespace Simulation

/-- A call on `m_socket`. -/
def call (s : Simulation) (c : SocketCall) : Simulation := { s with calls := s.calls ++ [c] }

def scheduleTx (s : Simulation) : Simulation :=
  if s.app.running = true then
    let (simulator, id) := s.simulator.schedule s.app.tNext
    { s with simulator := simulator, app := { s.app with sendEvent := some id } }
  else s

def sendPacket (s : Simulation) : Simulation :=
  let s := s.call (.send s.app.packetSize)
  let s := { s with app := { s.app with packetsSent := s.app.packetsSent + 1 } }
  if s.app.packetsSent < s.app.nPackets then s.scheduleTx else s

def startApplication (s : Simulation) : Simulation :=
  let s := { s with app := { s.app with running := true, packetsSent := 0 } }
  let s := if s.app.peer.IsInetSocket then s.call .bind else s.call .bind6
  let s := s.call (.connect s.app.peer)
  s.sendPacket

/-- `m_sendEvent.IsPending ()`, false for the id of no event. -/
def SendEventPending (s : Simulation) : Prop := ∃ id ∈ s.app.sendEvent, s.simulator.IsPending id

/-- `Simulator::Cancel (m_sendEvent)`. -/
def cancelSendEvent (s : Simulation) : Simulation :=
  match s.app.sendEvent with
  | none => s
  | some id => { s with simulator := s.simulator.cancel id }

instance (s : Simulation) : Decidable s.SendEventPending := by
  unfold SendEventPending
  infer_instance

def stopApplication (s : Simulation) : Simulation :=
  let s := { s with app := { s.app with running := false } }
  let s := if s.SendEventPending then s.cancelSendEvent else s
  s.call .close

end Simulation

/-! ## The simulator -/

/-- What the simulator fires. -/
inductive Act where
  | startApplication
  | sendPacket (id : Nat)
  | stopApplication
deriving DecidableEq, Repr

def step (s : Simulation) : Act → Option Simulation
  | .startApplication =>
    if s.phase = .installed then some { s with phase := .started }.startApplication else none
  | .sendPacket id =>
    (s.simulator.fire id).map fun fired => { s with simulator := fired.1 }.sendPacket
  | .stopApplication =>
    if s.phase = .started then some { s with phase := .stopped }.stopApplication else none

def system : Machine Simulation Act := ⟨step⟩

/-- The calls of `Send`. -/
def sends (calls : List SocketCall) : Nat :=
  calls.countP fun
    | .send _ => true
    | _ => false

end NetLab.App
