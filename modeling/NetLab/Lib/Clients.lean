/-
  Machines of one client with an echo server, and many such clients with one server.

  A `ClientSystem` is such a machine taken apart: the client, what is in flight between it and the
  server, and which of its steps are whose. `host` is the client without the network, and a lawful
  system is the `link` of that host. So whatever many hosts with one server do is to each of them a
  run of its own machine.

  `Framing.echoServer` is the server that reads every datagram into one buffer and sends as many
  bytes back from there; around the bytes goes what `Framing.withBytes` keeps of the datagram.

  * `Framing.echoServer_answers`: what the buffer held before does not show.
  * `ClientSystem.link_step`: the link makes the steps of the machine.
  * `ClientSystem.exists_own_run`: runs with many clients are runs of each machine.
-/
import NetLab.Lib.Bytes
import NetLab.Lib.Hosts

namespace NetLab.Lib

open Machine

/-! ## An echo server -/

/-- The bytes of a datagram, and the datagram with other bytes in their place. -/
structure Framing (δ : Type) where
  bytes : δ → Bytes
  withBytes : δ → Bytes → δ

/-- The variables of an echo server. Of `last` the bytes are not read. -/
structure EchoVars (δ : Type) (size : Nat) where
  buffer : Bytes
  n : Nat
  last : δ
  length_eq : buffer.length = size

/-- A server that has not received anything. -/
def EchoVars.fresh {δ : Type} {size : Nat} (d : δ) : EchoVars δ size :=
  ⟨List.replicate size 0, 0, d, List.length_replicate⟩

section Echo

variable {δ : Type} (f : Framing δ) (size : Nat)

/-- `n = recvfrom (.., buffer, size, ..)` and `sendto (.., buffer, n, ..)`. -/
def Framing.echoServer : Server (EchoVars δ size) δ where
  recv v d :=
    { buffer := recvInto size v.buffer (f.bytes d)
      n := ((f.bytes d).take size).length
      last := d
      length_eq := (length_recvInto v.length_eq.ge (f.bytes d)).trans v.length_eq }
  reply v := f.withBytes v.last (v.buffer.take v.n)

/-- What it sends back for `d`. -/
def Framing.echoed (d : δ) : δ := f.withBytes d ((f.bytes d).take size)

theorem Framing.echoServer_answers : (f.echoServer size).Answers (f.echoed size) := by
  intro v d
  exact congrArg (f.withBytes d) (take_recvInto size v.buffer (f.bytes d))

end Echo

/-! ## The system of one client -/

/-- A machine with states `τ` and actions `α` of a client `σ` that exchanges datagrams `δ` with a
    server. -/
structure ClientSystem (τ σ α δ : Type) where
  machine : Machine τ α
  /-- The client with what is in flight to the server and back. -/
  sys : σ → List δ → List δ → τ
  peer : τ → σ
  requests : τ → List δ
  /-- A datagram reaches the client's socket. -/
  arrive : σ → δ → σ
  /-- What the server sends back. -/
  answer : δ → δ
  /-- The steps of the client, not of the network or the server. -/
  ofClient : α → Bool
  act : LinkAct α → α

variable {τ σ α δ : Type}

namespace ClientSystem

/-- The client by itself: its steps with nothing in flight. -/
def host (C : ClientSystem τ σ α δ) : Host σ α δ where
  move p x :=
    if C.ofClient x then
      (C.machine.step (C.sys p [] []) x).map fun s => (C.peer s, C.requests s)
    else none
  arrive := C.arrive

/-- A link as the system of the one client. -/
def ofLink (C : ClientSystem τ σ α δ) (t : Link σ δ) : τ := C.sys t.host t.requests t.replies

structure Lawful (C : ClientSystem τ σ α δ) : Prop where
  /-- The client's steps add to the requests in flight, and do not look at them. -/
  step_client : ∀ {p x s}, C.ofClient x = true → C.machine.step (C.sys p [] []) x = some s →
    ∀ requests replies, C.machine.step (C.sys p requests replies) x =
      some (C.sys (C.peer s) (requests ++ C.requests s) replies)
  act_host : ∀ x, C.act (.host x) = x
  /-- The others are those of the server and the network. -/
  step_network : ∀ {t t' x}, (∀ y, x ≠ .host y) → Link.step C.host C.answer t x = some t' →
    C.machine.step (C.ofLink t) (C.act x) = some (C.ofLink t')

theorem host_move {C : ClientSystem τ σ α δ} {p p' : σ} {x : α} {ds : List δ}
    (h : C.host.move p x = some (p', ds)) :
    C.ofClient x = true ∧ ∃ s, C.machine.step (C.sys p [] []) x = some s ∧ C.peer s = p' ∧
      C.requests s = ds := by
  simp only [host, Option.ite_none_right_eq_some, Option.map_eq_some_iff, Prod.mk.injEq] at h
  obtain ⟨hx, s, hs, hpeer, hds⟩ := h
  exact ⟨hx, s, hs, hpeer, hds⟩

/-- **The link makes the steps of the machine.** -/
theorem link_step {C : ClientSystem τ σ α δ} (hC : C.Lawful) {t t' : Link σ δ} {x : LinkAct α}
    (hstep : (link C.host C.answer).step t x = some t') :
    C.machine.step (C.ofLink t) (C.act x) = some (C.ofLink t') := by
  by_cases hx : ∃ y, x = .host y
  · obtain ⟨y, rfl⟩ := hx
    obtain ⟨⟨p, ds⟩, hmove, rfl⟩ := Option.map_eq_some_iff.mp hstep
    obtain ⟨hy, s, hs, rfl, rfl⟩ := host_move hmove
    rw [hC.act_host]
    exact hC.step_client hy hs t.requests t.replies
  · exact hC.step_network (fun y hy => hx ⟨y, hy⟩) hstep

theorem link_simulates {C : ClientSystem τ σ α δ} (hC : C.Lawful) :
    (link C.host C.answer).Simulates C.machine fun t u => C.ofLink t = u := by
  rintro t u x t' rfl hstep
  exact matched_by_one (N := C.machine) (link_step hC hstep) rfl

end ClientSystem

/-! ## Many clients -/

section Deployment

variable {ι μ : Type} [DecidableEq ι]

/-- Clients at the addresses `ι` and their server. -/
def deployment (C : ι → ClientSystem τ σ α δ) (S : Server μ δ) :
    Machine (Shared ι σ δ μ) (SharedAct ι α) :=
  shared (fun c => (C c).host) S

/-- **The run is to each client a run of its own machine**, to a state with the same client and the
    same datagrams in flight, in some order. -/
theorem ClientSystem.exists_own_run {C : ι → ClientSystem τ σ α δ} {S : Server μ δ}
    {init : ι → σ} {memory : μ} {acts : List (SharedAct ι α)} {s : Shared ι σ δ μ}
    (hrun : (deployment C S).run (Shared.init init memory) acts = some s) (c : ι)
    (hC : (C c).Lawful) (hS : S.Answers (C c).answer) :
    ∃ own t, (C c).machine.run ((C c).sys (init c) [] []) own = some ((C c).ofLink t) ∧
      Shared.Seen c s t := by
  obtain ⟨bs, t, hlink, hseen⟩ := shared_run hS init memory c hrun
  obtain ⟨own, u, hown, rfl⟩ := (link_simulates hC).run rfl hlink
  exact ⟨own, t, hown, hseen⟩

end Deployment

end NetLab.Lib
