/-
  q1server.c with any number of clients.

  The server reads every request into one 65535-byte buffer and one `cli_addr`, and sends the reply
  from there before it reads the next one; a `recvfrom` or `sendto` that fails is reported and the
  loop goes on. Requests wait in its socket in the order they arrive. The clients are q1client
  processes with arguments of their own, at distinct addresses; network and clients move in any
  order. Each client has a clock of its own here, which allows more runs than one clock for all.

  * `shared_refines`: what such a run is to one client is a run of that client alone with its
    server. Neither the buffer, nor `cli_addr`, nor the other clients show.
  * `shared_matched`: so each client matches its replies soundly in every run of the deployment, and
    whatever it reads is an echo of a probe of its own.
-/
import NetLab.Lib.Clients
import NetLab.Ping.Sound

namespace NetLab.Ping

open NetLab.Lib
open NetLab.Lib.Machine

/-! ## The server -/

/-- A request or an echo. Its origin goes with it and is not read. -/
def framing : Framing Datagram := ⟨Datagram.bytes, fun d bytes => ⟨d.origin, bytes⟩⟩

/-- The variables of the server's loop. -/
abbrev ServerVars := EchoVars Datagram 65535

/-- `n = recvfrom (sockfd, buffer, 65535, ..)` and `sendto (sockfd, buffer, n, ..)`. -/
def echoServer : Server ServerVars Datagram := framing.echoServer 65535

/-- The datagram the server sends back for `d`. -/
def echoed (d : Datagram) : Datagram := ⟨d.origin, echo d.bytes⟩

theorem echoServer_answers : echoServer.Answers echoed := framing.echoServer_answers 65535

/-! ## A client -/

/-- What a client has for itself: its variables, its clock and its socket. -/
structure Peer where
  client : Client
  now : Nat
  queue : List Datagram
  hist : History
deriving DecidableEq, Repr

def Sys.peer (s : Sys) : Peer := ⟨s.client, s.now, s.queue, s.hist⟩

/-- The client with what is in flight between it and the server. -/
def Peer.sys (p : Peer) (requests echoes : List Datagram) : Sys :=
  ⟨p.client, p.now, requests, echoes, p.queue, p.hist⟩

/-- Steps of the client, not of the network or the server. -/
def Act.OfClient : Act → Bool
  | .send _ | .sendFail _ | .wait | .recv _ | .timeout | .wake | .finish | .tick _ => true
  | .serve _ | .deliver _ | .loseRequest _ | .loseEcho _ | .dupRequest _ | .dupEcho _ => false

/-- The same step in the system of the one client. -/
def ownAct : LinkAct Act → Act
  | .host x => x
  | .serve k => .serve k
  | .deliver k => .deliver k
  | .loseRequest k => .loseRequest k
  | .loseReply k => .loseEcho k
  | .dupRequest k => .dupRequest k
  | .dupReply k => .dupEcho k

/-- The system of the one client, taken apart. -/
def clientSystem (a : Args) : ClientSystem Sys Peer Act Datagram where
  machine := system a
  sys := Peer.sys
  peer := Sys.peer
  requests := Sys.requests
  arrive p d := ((p.sys [] [d]).arrive d []).peer
  answer := echoed
  ofClient := Act.OfClient
  act := ownAct

/-- The client's steps add to the requests in flight, and do not look at them. -/
theorem step_client {a : Args} {x : Act} (hx : x.OfClient = true) {p : Peer} {s : Sys}
    (h : step a (p.sys [] []) x = some s) (requests echoes : List Datagram) :
    step a (p.sys requests echoes) x = some (s.peer.sys (requests ++ s.requests) echoes) := by
  cases x with
  | sendFail t | wait | wake | finish =>
    simp only [step, Option.ite_none_right_eq_some, Option.some.injEq] at h ⊢
    obtain ⟨hguard, rfl⟩ := h
    exact ⟨hguard, by simp [Sys.peer, Peer.sys]⟩
  | send t =>
    simp only [step, Option.ite_none_right_eq_some, Option.some.injEq] at h ⊢
    obtain ⟨hguard, rfl⟩ := h
    exact ⟨hguard, rfl⟩
  | recv t =>
    obtain ⟨deadline, d, rest, hp, hq, rfl⟩ := step_recv h
    replace hp : p.client.phase = .waiting deadline := hp
    replace hq : p.queue = d :: rest := hq
    simp [step, Peer.sys, hp, hq, Sys.receive, Sys.peer]
  | timeout =>
    obtain ⟨deadline, hp, hq, hdead, rfl⟩ := step_timeout h
    replace hp : p.client.phase = .waiting deadline := hp
    replace hq : p.queue = [] := hq
    replace hdead : deadline ≤ p.now := hdead
    simp [step, Peer.sys, hp, hq, hdead, Sys.peer]
  | tick d =>
    obtain rfl := Option.some.inj h
    simp [step, Peer.sys, Sys.peer]
  | serve k | deliver k | loseRequest k | loseEcho k | dupRequest k | dupEcho k => cases hx

theorem clientSystem_lawful (a : Args) : (clientSystem a).Lawful where
  step_client hx h := step_client hx h
  act_host _ := rfl
  step_network {t t' x} hx hstep := by
    cases x with
    | host y => exact absurd rfl (hx y)
    | serve k | deliver k | loseRequest k | loseReply k | dupRequest k | dupReply k =>
      simp only [Link.step, Option.map_eq_some_iff] at hstep
      obtain ⟨_, hk, rfl⟩ := hstep
      exact congrArg (Option.map _) hk

/-! ## The deployment -/

section Deployment

variable {ι : Type} [DecidableEq ι] {args : ι → Args} {memory : ServerVars}
  {s s' : Shared ι Peer Datagram ServerVars}

/-- The clients at addresses `ι` with their arguments, and the server. -/
def deployment (args : ι → Args) :
    Machine (Shared ι Peer Datagram ServerVars) (SharedAct ι Act) :=
  Lib.deployment (fun c => clientSystem (args c)) echoServer

/-- All clients before their first pass; the server's buffer holds anything. -/
def deploymentInit (args : ι → Args) (memory : ServerVars) :
    Shared ι Peer Datagram ServerVars :=
  Shared.init (fun c => (Sys.init (args c)).peer) memory

/-- The run is to `c` a run of its own system, to a state with the same client and the same
    datagrams in flight, in some order. -/
theorem exists_own_run {acts : List (SharedAct ι Act)}
    (hrun : (deployment args).run (deploymentInit args memory) acts = some s) (c : ι) :
    ∃ own t, (system (args c)).run (Sys.init (args c)) own = some t ∧ t.peer = s.host c ∧
      t.requests.Perm (s.outstanding c) ∧ t.echoes.Perm (ofHost c s.replies) := by
  obtain ⟨own, t, hown, hseen⟩ :=
    ClientSystem.exists_own_run hrun c (clientSystem_lawful (args c)) echoServer_answers
  exact ⟨own, (clientSystem (args c)).ofLink t, hown, hseen.host, hseen.requests, hseen.replies⟩

/-- **Every client is as if alone with the server.** -/
theorem shared_refines (args : ι → Args) (memory : ServerVars) (acts : List (SharedAct ι Act))
    (s : Shared ι Peer Datagram ServerVars)
    (hrun : (deployment args).run (deploymentInit args memory) acts = some s) (c : ι) :
    ∃ own t, (system (args c)).run (Sys.init (args c)) own = some t ∧ t.peer = s.host c ∧
      t.requests.Perm (s.outstanding c) ∧ t.echoes.Perm (ofHost c s.replies) :=
  exists_own_run hrun c

/-- Two clients with packets of different sizes. -/
def twoClients : Bool → Args
  | false => ⟨2, 24, oneProbe.size_ok⟩
  | true => ⟨1, 40, by decide⟩

/-- A server that has not received anything. -/
def ServerVars.fresh : ServerVars := EchoVars.fresh ⟨0, []⟩

/-- Both send; their echoes come back in the other order. -/
def crossed : List (SharedAct Bool Act) :=
  [.host false (.send ⟨10, 0⟩), .host true (.send ⟨10, 5⟩), .arrive 1, .arrive 0, .recvfrom,
    .sendto, .recvfrom, .sendto, .host false .wait, .host true .wait, .deliver 1, .deliver 0,
    .host false (.recv ⟨10, 900⟩), .host true (.recv ⟨10, 700⟩)]

theorem crossed_refines :
    ∃ s, (deployment twoClients).run (deploymentInit twoClients .fresh) crossed = some s ∧
      ∃ own t, (system (twoClients true)).run (Sys.init (twoClients true)) own = some t ∧
        t.peer = s.host true ∧ t.requests.Perm (s.outstanding true) ∧
        t.echoes.Perm (ofHost true s.replies) := by
  obtain ⟨s, hs⟩ := Option.isSome_iff_exists.mp (show ((deployment twoClients).run
    (deploymentInit twoClients .fresh) crossed).isSome by decide +kernel)
  exact ⟨s, hs, shared_refines twoClients .fresh crossed s hs true⟩

/-! ## Replies -/

/-- The deployment as `c` sees it. -/
def view (s : Shared ι Peer Datagram ServerVars) (c : ι) : Sys :=
  (s.host c).sys (s.outstanding c) (ofHost c s.replies)

/-- The step of `c` in a step of the deployment, if it is one of its own. -/
def seenBy (c : ι) : SharedAct ι Act → Act
  | .host c' x => if c' = c then x else .tick 0
  | _ => .tick 0

theorem inv_view {acts : List (SharedAct ι Act)}
    (hrun : (deployment args).run (deploymentInit args memory) acts = some s) (c : ι) :
    Inv (args c) (view s c) := by
  obtain ⟨own, t, hown, hpeer, hreq, hech⟩ := exists_own_run hrun c
  have hI := inv_run (args c) hown
  have hclient : (s.host c).client = t.client := hpeer ▸ rfl
  have hhist : (s.host c).hist = t.hist := hpeer ▸ rfl
  have hqueue : (s.host c).queue = t.queue := hpeer ▸ rfl
  refine hI.network hclient (congrArg History.sends hhist) (congrArg History.counted hhist)
    (congrArg History.outcomes hhist) fun d hd => hI.genuine d ?_
  rcases hd with hd | hd | hd
  · exact .inl (hreq.mem_iff.mpr hd)
  · exact .inr (.inl (hech.mem_iff.mpr hd))
  · exact .inr (.inr (hqueue ▸ hd))

/-- `Matched` does not look at what is in flight after the step. -/
theorem Matched.congr {s t t' : Sys} {x : Act} (h : Matched s x t) (hclient : t'.client = t.client)
    (hhist : t'.hist = t.hist) : Matched s x t' := by
  unfold Matched at h ⊢
  rw [hclient, hhist]
  exact h

theorem matched_of_unchanged {s t : Sys} {x : Act} (hclient : t.client = s.client)
    (hcounted : t.hist.counted = s.hist.counted) : Matched s x t :=
  .inl ⟨by rw [hclient], by rw [hclient], hcounted⟩

theorem matched_view (c : ι) (hI : Inv (args c) (view s c)) {x : SharedAct ι Act}
    (hstep : (deployment args).step s x = some s') :
    Matched (view s c) (seenBy c x) (view s' c) := by
  rcases host_step c hstep with ⟨y, ds, rfl, hmove⟩ | ⟨_, heq | ⟨d, heq⟩⟩
  · obtain ⟨hx, u, hu, hpeer, _⟩ := ClientSystem.host_move hmove
    have hown := step_client hx hu (s.outstanding c) (ofHost c s.replies)
    rw [seenBy, if_pos rfl]
    exact (matched_step hI hown).congr (congrArg Peer.client hpeer.symm)
      (congrArg Peer.hist hpeer.symm)
  · exact matched_of_unchanged (congrArg Peer.client heq)
      (congrArg (fun p : Peer => p.hist.counted) heq)
  · have hclient : (s'.host c).client = (s.host c).client := by
      rw [heq]
      rfl
    have hcounted : (s'.host c).hist.counted = (s.host c).hist.counted := by
      rw [heq]
      rfl
    exact matched_of_unchanged hclient hcounted

/-- **Replies are matched soundly among many clients.** In every run of the deployment, each client
    with at least one message to send and whatever the others do, each increment of a client's
    `recvcnt` comes from the echo of the probe of its pass; no probe is counted twice and the
    counters stay within the probes asked for; and every echo in its socket is of a whole probe that
    it has sent itself. -/
theorem shared_matched (args : ι → Args) (hcount : ∀ c, 1 ≤ (args c).msgcount.toInt)
    (memory : ServerVars) (acts : List (SharedAct ι Act)) :
    (deployment args).Along (fun s x s' => ∀ c, Matched (view s c) (seenBy c x) (view s' c))
        (deploymentInit args memory) acts ∧
      ∀ s, (deployment args).run (deploymentInit args memory) acts = some s → ∀ c,
        (s.host c).hist.counted.Nodup ∧
        (s.host c).hist.counted.length = (s.host c).client.stats.recvcnt ∧
        ((s.host c).client.stats.recvcnt : Int) + (s.host c).client.stats.lost_count ≤
          (args c).msgcount.toInt ∧
        ∀ d ∈ (s.host c).queue, Genuine (args c) (s.host c).hist.sends d := by
  constructor
  · rw [along_iff]
    intro pre x post _ s s' hpre hstep c
    exact matched_view c (inv_view hpre c) hstep
  · intro s hrun c
    have hI := inv_view hrun c
    have hpos := hcount c
    exact ⟨hI.counted_nodup, hI.counted_length, hI.counters_le (by omega),
      fun d hd => hI.genuine d (.inr (.inr hd))⟩

theorem crossed_matched :
    (deployment twoClients).Along (fun s x s' => ∀ c, Matched (view s c) (seenBy c x) (view s' c))
        (deploymentInit twoClients .fresh) crossed ∧
      ∀ s, (deployment twoClients).run (deploymentInit twoClients .fresh) crossed = some s → ∀ c,
        (s.host c).hist.counted.Nodup ∧
        (s.host c).hist.counted.length = (s.host c).client.stats.recvcnt ∧
        ((s.host c).client.stats.recvcnt : Int) + (s.host c).client.stats.lost_count ≤
          (twoClients c).msgcount.toInt ∧
        ∀ d ∈ (s.host c).queue, Genuine (twoClients c) (s.host c).hist.sends d :=
  shared_matched twoClients (by decide) .fresh crossed

end Deployment

end NetLab.Ping
