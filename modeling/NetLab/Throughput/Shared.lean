/-
  q2server.c with any number of clients.

  The loop of the server is that of q1server.c: one buffer, one `cli_addr`, one reply before the
  next `recvfrom`. The clients are q2client processes with arguments of their own, at distinct
  addresses, each with its two threads; the steps of all of them, of the server and of the network
  come in any order.

  * `exists_own_run`: to one client such a run is a run of that client alone with its server.
  * `recorded_shared_step`: what is recorded for a client is what it receives itself.
  * `shared_report`: so the report of each client agrees with the echoes it has received itself, row
    by row, whatever the other clients send.
-/
import NetLab.Lib.Clients
import NetLab.Throughput.Sound

namespace NetLab.Throughput

open NetLab.Lib
open NetLab.Lib.Machine
open NetLab.Ping (Timeval echo)

/-! ## The server -/

/-- A packet or an echo. The reading stamped on it goes with it and is not read. -/
def framing : Framing Datagram := ⟨Datagram.bytes, fun d bytes => ⟨d.sent, bytes⟩⟩

/-- The variables of the server's loop. -/
abbrev ServerVars := EchoVars Datagram 65535

/-- `n = recvfrom (sockfd, buffer, 65535, ..)` and `sendto (sockfd, buffer, n, ..)`. -/
def echoServer : Server ServerVars Datagram := framing.echoServer 65535

/-- The datagram the server sends back for `d`. -/
def echoed (d : Datagram) : Datagram := ⟨d.sent, echo d.bytes⟩

theorem echoServer_answers : echoServer.Answers echoed := framing.echoServer_answers 65535

/-! ## A client -/

/-- What a client has for itself: the variables of its threads and its socket. -/
structure Peer where
  main : MainPhase
  current_time : Timeval
  seq : Nat
  buffer : Bytes
  running : Bool
  receiver : ReceiverPhase
  recvbuf : Bytes
  stats : List Secondsts
  queue : List Datagram
  out : List (Nat × Line)
  hist : History
deriving DecidableEq, Repr

def Sys.peer (s : Sys) : Peer where
  main := s.main
  current_time := s.current_time
  seq := s.seq
  buffer := s.buffer
  running := s.running
  receiver := s.receiver
  recvbuf := s.recvbuf
  stats := s.stats
  queue := s.queue
  out := s.out
  hist := s.hist

/-- The client with what is in flight between it and the server. -/
def Peer.sys (p : Peer) (requests replies : List Datagram) : Sys where
  main := p.main
  current_time := p.current_time
  seq := p.seq
  buffer := p.buffer
  running := p.running
  receiver := p.receiver
  recvbuf := p.recvbuf
  stats := p.stats
  requests := requests
  replies := replies
  queue := p.queue
  out := p.out
  hist := p.hist

/-- The same step in the system of the one client. -/
def ownAct : LinkAct Act → Act
  | .host x => x
  | .serve k => .serve k
  | .deliver k => .deliver k
  | .loseRequest k => .loseRequest k
  | .loseReply k => .loseReply k
  | .dupRequest k => .dupRequest k
  | .dupReply k => .dupReply k

/-- The system of the one client, taken apart. -/
def clientSystem (a : Args) : ClientSystem Sys Peer Act Datagram where
  machine := system a
  sys := Peer.sys
  peer := Sys.peer
  requests := Sys.requests
  arrive p d := { p with queue := p.queue ++ [d] }
  answer := echoed
  ofClient := Act.OfClient
  act := ownAct

/-- The client's steps add to the requests in flight, and do not look at them. -/
theorem step_client {a : Args} {x : Act} (hx : x.OfClient = true) {p : Peer} {s : Sys}
    (h : step a (p.sys [] []) x = some s) (requests replies : List Datagram) :
    step a (p.sys requests replies) x = some (s.peer.sys (requests ++ s.requests) replies) := by
  cases x with
  | clock t | sendFail t | stop | join | enter | leave | recvFail =>
    simp only [step, Option.ite_none_right_eq_some, Option.some.injEq] at h ⊢
    obtain ⟨hguard, rfl⟩ := h
    exact ⟨hguard, by simp [Sys.peer, Peer.sys, Sys.stamped, Sys.stamp]⟩
  | send t =>
    simp only [step, Option.ite_none_right_eq_some, Option.some.injEq] at h ⊢
    obtain ⟨hguard, rfl⟩ := h
    exact ⟨hguard, rfl⟩
  | recv t =>
    obtain ⟨d, rest, hp, hq, rfl⟩ := step_recv h
    have hp' : p.receiver = .waiting := hp
    have hq' : p.queue = d :: rest := hq
    have hrecv : step a (p.sys requests replies) (.recv t) =
        some ((p.sys requests replies).receive a d rest t) := by
      simp only [step, Peer.sys, hp', hq']
    have hrequests : ((p.sys [] []).receive a d rest t).requests = [] := by
      unfold Sys.receive
      dsimp only
      split <;> rfl
    rw [hrecv, hrequests, List.append_nil, Option.some.injEq]
    unfold Sys.receive
    dsimp only
    split <;> rfl
  | serve k | deliver k | loseRequest k | loseReply k | dupRequest k | dupReply k => cases hx

theorem clientSystem_lawful (a : Args) : (clientSystem a).Lawful where
  step_client hx h := step_client hx h
  act_host _ := rfl
  step_network {t t' x} hx hstep := by
    cases x with
    | host y => exact absurd rfl (hx y)
    | serve k | deliver k | loseRequest k | loseReply k | dupRequest k | dupReply k =>
      simp only [Link.step, Option.map_eq_some_iff] at hstep
      obtain ⟨_, hk, rfl⟩ := hstep
      exact congrArg (Option.map _) hk

/-! ## The deployment -/

section Deployment

variable {ι : Type} [DecidableEq ι] {args : ι → Args} {memory : ServerVars}
  {s s' : Shared ι Peer Datagram ServerVars}

/-- The clients at addresses `ι` with their arguments, and the server. -/
def deployment (args : ι → Args) :
    Machine (Shared ι Peer Datagram ServerVars) (SharedAct ι Act) :=
  Lib.deployment (fun c => clientSystem (args c)) echoServer

/-- All clients before their first packet; the server's buffer holds anything. -/
def deploymentInit (args : ι → Args) (memory : ServerVars) :
    Shared ι Peer Datagram ServerVars :=
  Shared.init (fun c => (Sys.init (args c)).peer) memory

/-- The deployment as `c` sees it. -/
def view (s : Shared ι Peer Datagram ServerVars) (c : ι) : Sys :=
  (s.host c).sys (s.outstanding c) (ofHost c s.replies)

/-- The run is to `c` a run of its own system, to a state with the same client and the same
    datagrams in flight, in some order. -/
theorem exists_own_run {acts : List (SharedAct ι Act)}
    (hrun : (deployment args).run (deploymentInit args memory) acts = some s) (c : ι) :
    ∃ own t, (system (args c)).run (Sys.init (args c)) own = some t ∧ t.peer = s.host c ∧
      t.requests.Perm (s.outstanding c) ∧ t.replies.Perm (ofHost c s.replies) := by
  obtain ⟨own, t, hown, hseen⟩ :=
    ClientSystem.exists_own_run hrun c (clientSystem_lawful (args c)) echoServer_answers
  exact ⟨own, (clientSystem (args c)).ofLink t, hown, hseen.host, hseen.requests, hseen.replies⟩

theorem inv_view {c : ι} (hsz : (args c).Sized) {acts : List (SharedAct ι Act)}
    (hrun : (deployment args).run (deploymentInit args memory) acts = some s) :
    Inv (args c) (view s c) := by
  obtain ⟨own, t, hown, hpeer, hreq, hrep⟩ := exists_own_run hrun c
  have hI := inv_run hsz hown
  have hv : view s c = t.peer.sys (s.outstanding c) (ofHost c s.replies) := by rw [hpeer]; rfl
  rw [hv]
  refine hI.frame rfl rfl rfl rfl (fun d hd => hI.genuine d ?_) fun hdone => ⟨hdone, rfl, rfl⟩
  rcases hd with hd | hd | hd
  · exact .inl (hreq.mem_iff.mpr hd)
  · exact .inr (.inl (hrep.mem_iff.mpr hd))
  · exact .inr (.inr hd)

/-! ## Reports -/

/-- The step records for `c` what it receives itself. -/
def RecordedBy (c : ι) (s : Shared ι Peer Datagram ServerVars) (x : SharedAct ι Act)
    (s' : Shared ι Peer Datagram ServerVars) : Prop :=
  (s'.host c).hist.echoes = (s.host c).hist.echoes ++ (x.own c).elim [] (view s c).receives

theorem recorded_shared_step (c : ι) {x : SharedAct ι Act}
    (hstep : (deployment args).step s x = some s') : RecordedBy c s x s' := by
  unfold RecordedBy
  rcases host_step c hstep with ⟨y, ds, rfl, hmove⟩ | ⟨hown, heq | ⟨d, heq⟩⟩
  · obtain ⟨hy, u, hu, hpeer, _⟩ := ClientSystem.host_move hmove
    have hstep := step_client hy hu (s.outstanding c) (ofHost c s.replies)
    rw [SharedAct.own, if_pos rfl, ← hpeer]
    exact recorded_step hstep
  · rw [hown, heq]
    exact (List.append_nil _).symm
  · rw [hown, heq]
    exact (List.append_nil _).symm

/-- An echo is recorded with the reading of a `recvfrom` of the same client. -/
theorem echoes_shared_step {c : ι} {x : SharedAct ι Act}
    (hstep : (deployment args).step s x = some s') :
    ∀ e ∈ (s'.host c).hist.echoes, e ∈ (s.host c).hist.echoes ∨ x = .host c (.recv e.1) := by
  intro e he
  rw [recorded_shared_step c hstep] at he
  rcases List.mem_append.mp he with he | he
  · exact .inl he
  · cases x with
    | host c' y =>
      rw [SharedAct.own] at he
      split at he
      · rename_i hc
        exact .inr (by rw [hc, mem_receives he])
      · cases he
    | arrive k | recvfrom | recvFail | sendto | sendFail | deliver k => cases he
    | loseRequest k | loseReply k | dupRequest k | dupReply k => cases he

theorem echoes_shared_fit {c : ι} {acts : List (SharedAct ι Act)}
    (hfit : ∀ t, .host c (.recv t) ∈ acts → Fits (args c).start_test_time t)
    (hrun : (deployment args).run (deploymentInit args memory) acts = some s) :
    ∀ e ∈ (s.host c).hist.echoes, Fits (args c).start_test_time e.1 := by
  induction acts using List.reverseRecOn generalizing s with
  | nil =>
    obtain rfl := Option.some.inj hrun
    nofun
  | append_singleton acts x ih =>
    obtain ⟨u, hu, hstep⟩ := (deployment args).run_concat.mp hrun
    intro e he
    rcases echoes_shared_step hstep e he with he | rfl
    · exact ih (fun t ht => hfit t (List.mem_append_left _ ht)) hu e he
    · exact hfit e.1 (List.mem_append_right _ (List.mem_singleton_self _))

/-- **Reports of many clients.** In every run of the deployment, whatever the other clients send,
    the run is to a client one of its own with the server, the echoes recorded for it are those it
    received, each row of its table agrees with the echoes of that second, and its report prints the
    lines of these rows. Only its own packets need to hold a header. -/
theorem shared_report (args : ι → Args) (memory : ServerVars) (acts : List (SharedAct ι Act))
    (s : Shared ι Peer Datagram ServerVars)
    (hrun : (deployment args).run (deploymentInit args memory) acts = some s) (c : ι)
    (hsz : (args c).Sized)
    (hfit : ∀ t, .host c (.recv t) ∈ acts → Fits (args c).start_test_time t) :
    (∃ own t, (system (args c)).run (Sys.init (args c)) own = some t ∧ t.peer = s.host c ∧
      t.requests.Perm (s.outstanding c) ∧ t.replies.Perm (ofHost c s.replies)) ∧
    (deployment args).Along (RecordedBy c) (deploymentInit args memory) acts ∧
    (∀ i < MAXI, ∃ row, (s.host c).stats[i]? = some row ∧
      Agrees (args c) ((view s c).echoesIn (args c) i) row) ∧
    ((s.host c).main = .done → (s.host c).out.length = (capped (args c).duration).toInt.toNat ∧
      ∀ i : Nat, (i : Int) < (capped (args c).duration).toInt → ∃ row,
        (s.host c).out[i]? = some (i + 1, row.line) ∧
        Agrees (args c) ((view s c).echoesIn (args c) i) row) := by
  have hI : Inv (args c) (view s c) := inv_view hsz hrun
  have hrow := fun {i : Nat} (hi : i < MAXI) => hI.row (echoes_shared_fit hfit hrun) hi
  have hrecorded : (deployment args).Along (RecordedBy c) (deploymentInit args memory) acts :=
    (deployment args).along_of_inv (I := fun _ => True) (fun _ _ _ _ _ => trivial)
      (fun _ _ _ _ hst => recorded_shared_step c hst) trivial acts
  refine ⟨exists_own_run hrun c, hrecorded, fun i hi => ⟨_, hrow hi, agrees_total _ _⟩,
    fun hdone => ?_⟩
  have hout : (s.host c).out = report (capped (args c).duration) (s.host c).stats :=
    (hI.out hdone).2
  have hcap := capped_le (args c).duration
  refine ⟨by rw [hout, length_report], fun i hi => ⟨_, ?_, agrees_total _ _⟩⟩
  rw [hout]
  exact getElem?_report hi (hrow (by omega))

/-- A second client whose packets hold no header. -/
def withShortPackets : Bool → Args
  | false => ⟨1, 64, ⟨10, 0⟩⟩
  | true => ⟨1, 4, ⟨10, 0⟩⟩

/-- A server that has not received anything. -/
def ServerVars.fresh : ServerVars := EchoVars.fresh ⟨⟨0, 0⟩, []⟩

/-- Both send; the first client receives its echo and ends. -/
def besideShort : List (SharedAct Bool Act) :=
  [.host true (.clock ⟨10, 1⟩), .host true (.send ⟨10, 2⟩), .host false (.clock ⟨10, 1⟩),
    .host false (.send ⟨10, 3⟩), .arrive 0, .arrive 0, .recvfrom, .sendto, .recvfrom, .sendto,
    .host false .enter, .deliver 1, .host false (.recv ⟨10, 9⟩), .host false (.clock ⟨11, 0⟩),
    .host false .stop, .host false .leave, .host false .join]

theorem besideShort_report :
    ∃ s, (deployment withShortPackets).run (deploymentInit withShortPackets .fresh) besideShort =
        some s ∧
      (∃ own t, (system (withShortPackets false)).run (Sys.init (withShortPackets false)) own =
          some t ∧ t.peer = s.host false ∧ t.requests.Perm (s.outstanding false) ∧
        t.replies.Perm (ofHost false s.replies)) ∧
      (deployment withShortPackets).Along (RecordedBy false)
        (deploymentInit withShortPackets .fresh) besideShort ∧
      (∀ i < MAXI, ∃ row, (s.host false).stats[i]? = some row ∧
        Agrees (withShortPackets false) ((view s false).echoesIn (withShortPackets false) i) row) ∧
      ((s.host false).main = .done →
        (s.host false).out.length = (capped (withShortPackets false).duration).toInt.toNat ∧
        ∀ i : Nat, (i : Int) < (capped (withShortPackets false).duration).toInt → ∃ row,
          (s.host false).out[i]? = some (i + 1, row.line) ∧
          Agrees (withShortPackets false) ((view s false).echoesIn (withShortPackets false) i)
            row) := by
  have hfit : ∀ t, .host false (.recv t) ∈ besideShort →
      Fits (withShortPackets false).start_test_time t := by
    intro t ht
    simp only [besideShort, List.mem_cons, SharedAct.host.injEq, Act.recv.injEq, reduceCtorEq,
      List.not_mem_nil, or_false, false_or, and_false, true_and] at ht
    subst ht
    decide
  obtain ⟨s, hs⟩ := Option.isSome_iff_exists.mp (show ((deployment withShortPackets).run
    (deploymentInit withShortPackets .fresh) besideShort).isSome by decide +kernel)
  exact ⟨s, hs, shared_report withShortPackets .fresh besideShort s hs false
    ⟨by decide, by decide⟩ hfit⟩

end Deployment

end NetLab.Throughput
