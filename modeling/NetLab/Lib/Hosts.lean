/-
  Hosts of a datagram network that talk to one server.

  A `Host` is any component with a socket: it makes moves of its own, by which it may send, and
  datagrams reach it. `link` is one host alone with its server: the server answers any request it
  is sent, in any order, and the network between them loses, repeats and reorders. `shared` is any
  number of hosts with one server, which has a queue, keeps the address a request came from and a
  memory that all requests are read into, and sends one reply before it reads the next request.

  * `Server.Answers`: what the memory held before does not show in a reply.
  * `host_step`: what a step of `shared` does to one host.
  * `shared_simulates`, `shared_run`: with such a server, what `shared` does is to every host what
    its own `link` does. No host can tell that there are others.
-/
import NetLab.Lib.Network
import NetLab.Lib.Simulation

namespace NetLab.Lib

open Machine

/-! ## One host -/

/-- A component with a socket. `move` is a step of its own and the datagrams sent by it; `arrive` is
    a datagram reaching the socket. -/
structure Host (σ α δ : Type) where
  move : σ → α → Option (σ × List δ)
  arrive : σ → δ → σ

/-- A host and what is in flight between it and the server. -/
structure Link (σ δ : Type) where
  host : σ
  requests : List δ
  replies : List δ

inductive LinkAct (α : Type) where
  | host (a : α)
  | serve (k : Nat)
  | deliver (k : Nat)
  | loseRequest (k : Nat)
  | loseReply (k : Nat)
  | dupRequest (k : Nat)
  | dupReply (k : Nat)

section Link

variable {σ α δ : Type}

def Link.init (s : σ) : Link σ δ := ⟨s, [], []⟩

def Link.step (h : Host σ α δ) (answer : δ → δ) (s : Link σ δ) : LinkAct α → Option (Link σ δ)
  | .host a =>
    (h.move s.host a).map fun p => { s with host := p.1, requests := s.requests ++ p.2 }
  | .serve k =>
    (takeAt k s.requests).map fun p =>
      { s with requests := p.2, replies := s.replies ++ [answer p.1] }
  | .deliver k =>
    (takeAt k s.replies).map fun p => { s with host := h.arrive s.host p.1, replies := p.2 }
  | .loseRequest k => (lose k s.requests).map fun l => { s with requests := l }
  | .loseReply k => (lose k s.replies).map fun l => { s with replies := l }
  | .dupRequest k => (duplicate k s.requests).map fun l => { s with requests := l }
  | .dupReply k => (duplicate k s.replies).map fun l => { s with replies := l }

def link (h : Host σ α δ) (answer : δ → δ) : Machine (Link σ δ) (LinkAct α) := ⟨Link.step h answer⟩

end Link

/-! ## Many hosts -/

/-- A server that reads each request into its memory and sends the reply from there. -/
structure Server (μ δ : Type) where
  recv : μ → δ → μ
  reply : μ → δ

/-- Whatever was served before, what is sent back is `answer` of what was read last. -/
def Server.Answers {μ δ : Type} (S : Server μ δ) (answer : δ → δ) : Prop :=
  ∀ m d, S.reply (S.recv m d) = answer d

/-- The hosts, by their addresses, the server and what is in flight. A datagram goes with the
    address of the host it comes from or is sent to. -/
structure Shared (ι σ δ μ : Type) where
  host : ι → σ
  requests : List (ι × δ)
  /-- Unread requests in the server's socket. -/
  inbox : List (ι × δ)
  memory : μ
  /-- Between reading a request and sending the reply: the address it came from. The request is
      only recorded, the reply comes from the memory. -/
  serving : Option (ι × δ)
  replies : List (ι × δ)

inductive SharedAct (ι α : Type) where
  | host (c : ι) (a : α)
  | arrive (k : Nat)
  | recvfrom
  | recvFail
  | sendto
  | sendFail
  | deliver (k : Nat)
  | loseRequest (k : Nat)
  | loseReply (k : Nat)
  | dupRequest (k : Nat)
  | dupReply (k : Nat)

section Shared

variable {ι σ α δ μ : Type} [DecidableEq ι]

def Shared.init (s : ι → σ) (memory : μ) : Shared ι σ δ μ := ⟨s, [], [], memory, none, []⟩

def Shared.step (h : ι → Host σ α δ) (S : Server μ δ) (s : Shared ι σ δ μ) :
    SharedAct ι α → Option (Shared ι σ δ μ)
  | .host c a =>
    ((h c).move (s.host c) a).map fun p =>
      { s with
        host := Function.update s.host c p.1
        requests := s.requests ++ p.2.map (Prod.mk c) }
  | .arrive k =>
    (takeAt k s.requests).map fun p => { s with requests := p.2, inbox := s.inbox ++ [p.1] }
  | .recvfrom =>
    match s.serving, s.inbox with
    | none, p :: rest =>
      some { s with inbox := rest, memory := S.recv s.memory p.2, serving := some p }
    | _, _ => none
  | .recvFail => if s.serving = none then some s else none
  | .sendto =>
    s.serving.map fun p =>
      { s with serving := none, replies := s.replies ++ [(p.1, S.reply s.memory)] }
  | .sendFail => s.serving.map fun _ => { s with serving := none }
  | .deliver k =>
    (takeAt k s.replies).map fun p =>
      { s with
        host := Function.update s.host p.1.1 ((h p.1.1).arrive (s.host p.1.1) p.1.2)
        replies := p.2 }
  | .loseRequest k => (lose k s.requests).map fun l => { s with requests := l }
  | .loseReply k => (lose k s.replies).map fun l => { s with replies := l }
  | .dupRequest k => (duplicate k s.requests).map fun l => { s with requests := l }
  | .dupReply k => (duplicate k s.replies).map fun l => { s with replies := l }

def shared (h : ι → Host σ α δ) (S : Server μ δ) : Machine (Shared ι σ δ μ) (SharedAct ι α) :=
  ⟨Shared.step h S⟩

/-! ## One host among them -/

/-- The datagrams of `c`. -/
def ofHost (c : ι) (net : List (ι × δ)) : List δ := (net.filter (·.1 = c)).map Prod.snd

@[simp] theorem ofHost_nil (c : ι) : ofHost c ([] : List (ι × δ)) = [] := rfl

theorem ofHost_append (c : ι) (net net' : List (ι × δ)) :
    ofHost c (net ++ net') = ofHost c net ++ ofHost c net' := by
  unfold ofHost
  rw [List.filter_append, List.map_append]

theorem ofHost_cons_self (c : ι) (d : δ) (net : List (ι × δ)) :
    ofHost c ((c, d) :: net) = d :: ofHost c net := by
  unfold ofHost
  rw [List.filter_cons_of_pos (by simp), List.map_cons]

theorem ofHost_cons_of_ne {c : ι} {p : ι × δ} (h : p.1 ≠ c) (net : List (ι × δ)) :
    ofHost c (p :: net) = ofHost c net := by
  unfold ofHost
  rw [List.filter_cons_of_neg (by simpa using h)]

theorem ofHost_map_self (c : ι) (ds : List δ) : ofHost c (ds.map (Prod.mk c)) = ds := by
  induction ds with
  | nil => rfl
  | cons d ds ih => rw [List.map_cons, ofHost_cons_self, ih]

theorem ofHost_map_of_ne {c c' : ι} (h : c' ≠ c) (ds : List δ) :
    ofHost c (ds.map (Prod.mk c')) = [] := by
  induction ds with
  | nil => rfl
  | cons d ds ih => rw [List.map_cons, ofHost_cons_of_ne h, ih]

theorem perm_ofHost {net net' : List (ι × δ)} (h : net.Perm net') (c : ι) :
    (ofHost c net).Perm (ofHost c net') :=
  (h.filter _).map _

theorem mem_ofHost {c : ι} {d : δ} {net : List (ι × δ)} : d ∈ ofHost c net ↔ (c, d) ∈ net := by
  unfold ofHost
  rw [List.mem_map]
  constructor
  · rintro ⟨p, hfilter, rfl⟩
    obtain ⟨hmem, hc⟩ := List.mem_filter.mp hfilter
    exact of_decide_eq_true hc ▸ hmem
  · intro h
    exact ⟨(c, d), List.mem_filter.mpr ⟨h, decide_eq_true rfl⟩, rfl⟩

/-- The requests without a reply yet: in flight, unread, and the one being served. -/
def Shared.pending (s : Shared ι σ δ μ) : List (ι × δ) :=
  s.requests ++ (s.serving.toList ++ s.inbox)

/-- Those of `c`. -/
def Shared.outstanding (s : Shared ι σ δ μ) (c : ι) : List δ := ofHost c s.pending

/-- What the deployment is to `c`, up to the order of datagrams. -/
structure Shared.Seen (c : ι) (s : Shared ι σ δ μ) (t : Link σ δ) : Prop where
  host : t.host = s.host c
  requests : t.requests.Perm (s.outstanding c)
  replies : t.replies.Perm (ofHost c s.replies)

/-- The memory holds the reply to the request being served. -/
def Shared.Ready (S : Server μ δ) (answer : δ → δ) (s : Shared ι σ δ μ) : Prop :=
  ∀ p ∈ s.serving, S.reply s.memory = answer p.2

/-! ## The hosts are as if alone -/

section Simulation

variable {h : ι → Host σ α δ} {S : Server μ δ} {answer : δ → δ}
  {s s' : Shared ι σ δ μ}

/-- The memory changes only when a request is read, and then holds the reply to it. -/
theorem ready_step (hS : S.Answers answer) (hI : s.Ready S answer) {x : SharedAct ι α}
    (hstep : Shared.step h S s x = some s') : s'.Ready S answer := by
  cases x with
  | recvfrom =>
    simp only [Shared.step] at hstep
    split at hstep
    · rename_i p rest _ _
      obtain rfl := Option.some.inj hstep
      intro q hq
      obtain rfl := Option.some.inj hq
      exact hS s.memory p.2
    · cases hstep
  | recvFail =>
    simp only [Shared.step, Option.ite_none_right_eq_some, Option.some.injEq] at hstep
    exact hstep.2 ▸ hI
  | sendto | sendFail =>
    simp only [Shared.step, Option.map_eq_some_iff] at hstep
    obtain ⟨_, _, rfl⟩ := hstep
    exact fun q hq => by cases hq
  | host c a | arrive k | deliver k | loseRequest k | loseReply k | dupRequest k | dupReply k =>
    simp only [Shared.step, Option.map_eq_some_iff] at hstep
    obtain ⟨_, _, rfl⟩ := hstep
    exact hI

variable {c : ι} {t : Link σ δ}

/-- The move of `c` in the step, if it is one. -/
def SharedAct.own (c : ι) : SharedAct ι α → Option α
  | .host c' a => if c' = c then some a else none
  | _ => none

/-- What a step of the deployment does to a host: a move of its own, or else nothing or a datagram
    that reaches it. -/
theorem host_step (c : ι) {x : SharedAct ι α} (hstep : Shared.step h S s x = some s') :
    (∃ a ds, x = .host c a ∧ (h c).move (s.host c) a = some (s'.host c, ds)) ∨
      x.own c = none ∧
        (s'.host c = s.host c ∨ ∃ d, s'.host c = (h c).arrive (s.host c) d) := by
  cases x with
  | host c' a =>
    simp only [Shared.step, Option.map_eq_some_iff] at hstep
    obtain ⟨p, hmove, rfl⟩ := hstep
    by_cases hc : c' = c
    · subst hc
      have hself : Function.update s.host c' p.1 c' = p.1 := Function.update_self ..
      exact .inl ⟨a, p.2, rfl, hmove.trans (congrArg (fun q => some (q, p.2)) hself.symm)⟩
    · exact .inr ⟨if_neg hc, .inl (Function.update_of_ne (Ne.symm hc) ..)⟩
  | deliver k =>
    simp only [Shared.step, Option.map_eq_some_iff] at hstep
    obtain ⟨p, _, rfl⟩ := hstep
    by_cases hc : p.1.1 = c
    · subst hc
      exact .inr ⟨rfl, .inr ⟨p.1.2, Function.update_self ..⟩⟩
    · exact .inr ⟨rfl, .inl (Function.update_of_ne (Ne.symm hc) ..)⟩
  | recvfrom =>
    simp only [Shared.step] at hstep
    split at hstep
    · obtain rfl := Option.some.inj hstep
      exact .inr ⟨rfl, .inl rfl⟩
    · cases hstep
  | recvFail =>
    simp only [Shared.step, Option.ite_none_right_eq_some, Option.some.injEq] at hstep
    exact .inr ⟨rfl, .inl (hstep.2 ▸ rfl)⟩
  | arrive k | sendto | sendFail | loseRequest k | loseReply k | dupRequest k | dupReply k =>
    simp only [Shared.step, Option.map_eq_some_iff] at hstep
    obtain ⟨_, _, rfl⟩ := hstep
    exact .inr ⟨rfl, .inl rfl⟩

/-- What `c` does not see. -/
theorem Shared.Seen.frame (hseen : Shared.Seen c s t) (hhost : s'.host c = s.host c)
    (hpending : s.pending.Perm s'.pending) (hreplies : s.replies = s'.replies) :
    Shared.Seen c s' t where
  host := hseen.host.trans hhost.symm
  requests := hseen.requests.trans (perm_ofHost hpending c)
  replies := hreplies ▸ hseen.replies

/-- A request goes away, and a reply to it is sent. -/
theorem matched_serve (hseen : Shared.Seen c s t) {p : ι × δ} (hhost : s'.host = s.host)
    (hpending : s.pending.Perm (p :: s'.pending))
    (hreplies : s'.replies = s.replies ++ [(p.1, answer p.2)]) :
    ∃ bs t', (link (h c) answer).run t bs = some t' ∧ Shared.Seen c s' t' := by
  have hreq := hseen.requests.trans (perm_ofHost hpending c)
  obtain ⟨c', d⟩ := p
  by_cases hc : c' = c
  · subst hc
    rw [ofHost_cons_self] at hreq
    obtain ⟨k, rest, hk, hrest⟩ := exists_takeAt hreq
    refine matched_by_one (b := .serve k) (congrArg (Option.map _) hk)
      ⟨hseen.host.trans (congrFun hhost c').symm, hrest, ?_⟩
    rw [hreplies, ofHost_append, ofHost_cons_self]
    exact hseen.replies.append_right _
  · rw [ofHost_cons_of_ne hc] at hreq
    refine matched_by_none ⟨hseen.host.trans (congrFun hhost c).symm, hreq, ?_⟩
    rw [hreplies, ofHost_append, ofHost_cons_of_ne hc, ofHost_nil, List.append_nil]
    exact hseen.replies

/-- A request goes away. -/
theorem matched_loseRequest (hseen : Shared.Seen c s t) {p : ι × δ} (hhost : s'.host = s.host)
    (hpending : s.pending.Perm (p :: s'.pending)) (hreplies : s'.replies = s.replies) :
    ∃ bs t', (link (h c) answer).run t bs = some t' ∧ Shared.Seen c s' t' := by
  have hreq := hseen.requests.trans (perm_ofHost hpending c)
  have hhost' := hseen.host.trans (congrFun hhost c).symm
  obtain ⟨c', d⟩ := p
  by_cases hc : c' = c
  · subst hc
    rw [ofHost_cons_self] at hreq
    obtain ⟨k, rest, hk, hrest⟩ := exists_lose hreq
    exact matched_by_one (b := .loseRequest k) (congrArg (Option.map _) hk)
      ⟨hhost', hrest, hreplies ▸ hseen.replies⟩
  · rw [ofHost_cons_of_ne hc] at hreq
    exact matched_by_none ⟨hhost', hreq, hreplies ▸ hseen.replies⟩

/-- A request is there once more. -/
theorem matched_dupRequest (hseen : Shared.Seen c s t) {p : ι × δ} (hhost : s'.host = s.host)
    (hmem : p ∈ s.pending) (hpending : s'.pending.Perm (p :: s.pending))
    (hreplies : s'.replies = s.replies) :
    ∃ bs t', (link (h c) answer).run t bs = some t' ∧ Shared.Seen c s' t' := by
  have hreq := perm_ofHost hpending c
  have hhost' := hseen.host.trans (congrFun hhost c).symm
  obtain ⟨c', d⟩ := p
  by_cases hc : c' = c
  · subst hc
    rw [ofHost_cons_self] at hreq
    have hd : d ∈ t.requests := hseen.requests.mem_iff.mpr (mem_ofHost.mpr hmem)
    obtain ⟨k, net', hk, hnet'⟩ := exists_duplicate hd
    exact matched_by_one (b := .dupRequest k) (congrArg (Option.map _) hk)
      ⟨hhost', (hnet'.trans (hseen.requests.cons d)).trans hreq.symm, hreplies ▸ hseen.replies⟩
  · rw [ofHost_cons_of_ne hc] at hreq
    exact matched_by_none ⟨hhost', hseen.requests.trans hreq.symm, hreplies ▸ hseen.replies⟩

/-- A reply goes away. -/
theorem matched_loseReply (hseen : Shared.Seen c s t) {p : ι × δ} (hhost : s'.host = s.host)
    (hpending : s.pending = s'.pending) (hreplies : s.replies.Perm (p :: s'.replies)) :
    ∃ bs t', (link (h c) answer).run t bs = some t' ∧ Shared.Seen c s' t' := by
  have hrep := hseen.replies.trans (perm_ofHost hreplies c)
  have hhost' := hseen.host.trans (congrFun hhost c).symm
  have hreq : t.requests.Perm (s'.outstanding c) :=
    hseen.requests.trans (perm_ofHost (hpending ▸ List.Perm.refl _) c)
  obtain ⟨c', d⟩ := p
  by_cases hc : c' = c
  · subst hc
    rw [ofHost_cons_self] at hrep
    obtain ⟨k, rest, hk, hrest⟩ := exists_lose hrep
    exact matched_by_one (b := .loseReply k) (congrArg (Option.map _) hk) ⟨hhost', hreq, hrest⟩
  · rw [ofHost_cons_of_ne hc] at hrep
    exact matched_by_none ⟨hhost', hreq, hrep⟩

/-- A reply is there once more. -/
theorem matched_dupReply (hseen : Shared.Seen c s t) {p : ι × δ} (hhost : s'.host = s.host)
    (hpending : s.pending = s'.pending) (hmem : p ∈ s.replies)
    (hreplies : s'.replies.Perm (p :: s.replies)) :
    ∃ bs t', (link (h c) answer).run t bs = some t' ∧ Shared.Seen c s' t' := by
  have hrep := perm_ofHost hreplies c
  have hhost' := hseen.host.trans (congrFun hhost c).symm
  have hreq : t.requests.Perm (s'.outstanding c) :=
    hseen.requests.trans (perm_ofHost (hpending ▸ List.Perm.refl _) c)
  obtain ⟨c', d⟩ := p
  by_cases hc : c' = c
  · subst hc
    rw [ofHost_cons_self] at hrep
    have hd : d ∈ t.replies := hseen.replies.mem_iff.mpr (mem_ofHost.mpr hmem)
    obtain ⟨k, net', hk, hnet'⟩ := exists_duplicate hd
    exact matched_by_one (b := .dupReply k) (congrArg (Option.map _) hk)
      ⟨hhost', hreq, (hnet'.trans (hseen.replies.cons d)).trans hrep.symm⟩
  · rw [ofHost_cons_of_ne hc] at hrep
    exact matched_by_none ⟨hhost', hreq, hseen.replies.trans hrep.symm⟩

/-- A reply reaches a host. -/
theorem matched_deliver (hseen : Shared.Seen c s t) {p : ι × δ}
    (hhost : s'.host = Function.update s.host p.1 ((h p.1).arrive (s.host p.1) p.2))
    (hpending : s.pending = s'.pending) (hreplies : s.replies.Perm (p :: s'.replies)) :
    ∃ bs t', (link (h c) answer).run t bs = some t' ∧ Shared.Seen c s' t' := by
  have hrep := hseen.replies.trans (perm_ofHost hreplies c)
  have hreq : t.requests.Perm (s'.outstanding c) :=
    hseen.requests.trans (perm_ofHost (hpending ▸ List.Perm.refl _) c)
  obtain ⟨c', d⟩ := p
  by_cases hc : c' = c
  · subst hc
    rw [ofHost_cons_self] at hrep
    obtain ⟨k, rest, hk, hrest⟩ := exists_takeAt hrep
    refine matched_by_one (b := .deliver k) (congrArg (Option.map _) hk) ⟨?_, hreq, hrest⟩
    rw [hhost, Function.update_self, hseen.host]
  · rw [ofHost_cons_of_ne hc] at hrep
    refine matched_by_none ⟨?_, hreq, hrep⟩
    rw [hhost, Function.update_of_ne (Ne.symm hc), hseen.host]

/-- A host moves. -/
theorem matched_host (hseen : Shared.Seen c s t) {c' : ι} {a : α} {p : σ × List δ}
    (hmove : (h c').move (s.host c') a = some p)
    (hhost : s'.host = Function.update s.host c' p.1)
    (hpending : s'.pending.Perm (s.pending ++ p.2.map (Prod.mk c')))
    (hreplies : s'.replies = s.replies) :
    ∃ bs t', (link (h c) answer).run t bs = some t' ∧ Shared.Seen c s' t' := by
  have hreq := perm_ofHost hpending c
  rw [ofHost_append] at hreq
  by_cases hc : c' = c
  · subst hc
    rw [ofHost_map_self] at hreq
    rw [← hseen.host] at hmove
    refine matched_by_one (b := .host a) (congrArg (Option.map _) hmove)
      ⟨?_, (hseen.requests.append_right _).trans hreq.symm, hreplies ▸ hseen.replies⟩
    rw [hhost, Function.update_self]
  · rw [ofHost_map_of_ne hc, List.append_nil] at hreq
    refine matched_by_none ⟨?_, hseen.requests.trans hreq.symm, hreplies ▸ hseen.replies⟩
    rw [hhost, Function.update_of_ne (Ne.symm hc), hseen.host]

/-- One step of the deployment is a step of the link of `c`, or none. -/
theorem seen_step (hI : s.Ready S answer) (hseen : Shared.Seen c s t) {x : SharedAct ι α}
    (hstep : Shared.step h S s x = some s') :
    ∃ bs t', (link (h c) answer).run t bs = some t' ∧ Shared.Seen c s' t' := by
  cases x with
  | host c' a =>
    simp only [Shared.step, Option.map_eq_some_iff] at hstep
    obtain ⟨p, hmove, rfl⟩ := hstep
    refine matched_host hseen hmove rfl ?_ rfl
    unfold Shared.pending
    dsimp only
    rw [List.append_assoc, List.append_assoc]
    exact List.perm_append_comm.append_left _
  | arrive k =>
    simp only [Shared.step, Option.map_eq_some_iff] at hstep
    obtain ⟨⟨p, rest⟩, hk, rfl⟩ := hstep
    refine matched_by_none (hseen.frame rfl ?_ rfl)
    unfold Shared.pending
    dsimp only
    rw [← List.append_assoc, ← List.append_assoc, ← List.append_assoc]
    refine (((perm_of_takeAt hk).append_right _).append_right _).trans ?_
    exact (List.perm_append_singleton p _).symm
  | recvfrom =>
    simp only [Shared.step] at hstep
    split at hstep
    · rename_i p rest hnone hinbox
      obtain rfl := Option.some.inj hstep
      refine matched_by_none (hseen.frame rfl ?_ rfl)
      unfold Shared.pending
      dsimp only
      rw [hnone, hinbox]
      exact List.Perm.refl _
    · cases hstep
  | recvFail =>
    simp only [Shared.step, Option.ite_none_right_eq_some, Option.some.injEq] at hstep
    exact matched_by_none (hstep.2 ▸ hseen)
  | sendto =>
    simp only [Shared.step, Option.map_eq_some_iff] at hstep
    obtain ⟨p, hserving, rfl⟩ := hstep
    have hreply : S.reply s.memory = answer p.2 := hI p hserving
    refine matched_serve hseen (p := p) rfl ?_ (by rw [hreply])
    unfold Shared.pending
    dsimp only
    rw [hserving]
    exact List.perm_middle
  | sendFail =>
    simp only [Shared.step, Option.map_eq_some_iff] at hstep
    obtain ⟨p, hserving, rfl⟩ := hstep
    refine matched_loseRequest hseen (p := p) rfl ?_ rfl
    unfold Shared.pending
    dsimp only
    rw [hserving]
    exact List.perm_middle
  | deliver k =>
    simp only [Shared.step, Option.map_eq_some_iff] at hstep
    obtain ⟨⟨p, rest⟩, hk, rfl⟩ := hstep
    exact matched_deliver hseen (p := p) rfl rfl (perm_of_takeAt hk)
  | loseRequest k =>
    simp only [Shared.step, Option.map_eq_some_iff] at hstep
    obtain ⟨rest, hk, rfl⟩ := hstep
    obtain ⟨p, htake⟩ := lose_eq_some.mp hk
    exact matched_loseRequest hseen (p := p) rfl ((perm_of_takeAt htake).append_right _) rfl
  | loseReply k =>
    simp only [Shared.step, Option.map_eq_some_iff] at hstep
    obtain ⟨rest, hk, rfl⟩ := hstep
    obtain ⟨p, htake⟩ := lose_eq_some.mp hk
    exact matched_loseReply hseen (p := p) rfl rfl (perm_of_takeAt htake)
  | dupRequest k =>
    simp only [Shared.step, Option.map_eq_some_iff] at hstep
    obtain ⟨net', hk, rfl⟩ := hstep
    obtain ⟨p, hmem, hperm⟩ := perm_of_duplicate hk
    exact matched_dupRequest hseen (p := p) rfl (List.mem_append_left _ hmem)
      (hperm.append_right _) rfl
  | dupReply k =>
    simp only [Shared.step, Option.map_eq_some_iff] at hstep
    obtain ⟨net', hk, rfl⟩ := hstep
    obtain ⟨p, hmem, hperm⟩ := perm_of_duplicate hk
    exact matched_dupReply hseen (p := p) rfl rfl hmem hperm

/-- **Each host is as if alone.** -/
theorem shared_simulates (hS : S.Answers answer) (c : ι) :
    (shared h S).Simulates (link (h c) answer) fun s t =>
      s.Ready S answer ∧ Shared.Seen c s t := by
  rintro s t x s' ⟨hI, hseen⟩ hstep
  obtain ⟨bs, t', hrun, hseen'⟩ := seen_step hI hseen hstep
  exact ⟨bs, t', hrun, ready_step hS hI hstep, hseen'⟩

theorem seen_init (init : ι → σ) (memory : μ) (c : ι) :
    (Shared.init init memory : Shared ι σ δ μ).Ready S answer ∧
      Shared.Seen c (Shared.init init memory : Shared ι σ δ μ) (Link.init (init c)) :=
  ⟨nofun, ⟨rfl, List.Perm.refl _, List.Perm.refl _⟩⟩

/-- Runs of the deployment are runs of each link. -/
theorem shared_run (hS : S.Answers answer) (init : ι → σ) (memory : μ) (c : ι)
    {acts : List (SharedAct ι α)}
    (hrun : (shared h S).run (Shared.init init memory) acts = some s) :
    ∃ bs t, (link (h c) answer).run (Link.init (init c)) bs = some t ∧ Shared.Seen c s t := by
  obtain ⟨bs, t, hbs, _, hseen⟩ := (shared_simulates hS c).run (seen_init init memory c) hrun
  exact ⟨bs, t, hbs, hseen⟩

end Simulation

end Shared

end NetLab.Lib
