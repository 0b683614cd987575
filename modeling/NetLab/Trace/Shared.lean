/-
  q3traceroute.c beside others on one host.

  Every raw ICMP socket of a host gets a copy of every message that comes in, whichever process sent
  the datagram it quotes; and all processes use the same ports, `DESTPORT + ttl + probe`. The
  processes share the host's clock and move in any order, with the network between.

  * `hostInv_step`: what reaches a socket quotes a probe of some process, with the port of its pass.
  * `attributed_among_iff`: in every run all processes report the replies to their own probes alone
    exactly when none reads a message, of another process or another hop, whose sum `ttl + probe` is
    that of its own pass.
-/
import NetLab.Trace.Attribution

namespace NetLab.Trace

open NetLab.Lib
open NetLab.Ping (Timeval)

variable {ι : Type} [DecidableEq ι]

/-! ## The host -/

/-- What is in flight goes with the process whose probe it is or quotes. -/
structure Host (ι : Type) where
  tracer : ι → Tracer
  now : Nat
  flight : List (ι × Probe)
  replies : List (ι × Message)
  /-- The raw socket of each process. -/
  queue : ι → List (ι × Message)

def Host.init (ι : Type) : Host ι := ⟨fun _ => Tracer.init, 0, [], [], fun _ => []⟩

/-- The process and its socket. -/
def Host.own (s : Host ι) (c : ι) : Sys := ⟨s.tracer c, s.now, [], [], (s.queue c).map Prod.snd⟩

/-- Process `c` has come to `t`: what it has sent is in flight, what it has read is gone. -/
def Host.after (s : Host ι) (c : ι) (t : Sys) : Host ι :=
  { s with
    tracer := Function.update s.tracer c t.tracer
    flight := s.flight ++ t.flight.map (Prod.mk c)
    queue := Function.update s.queue c
      ((s.queue c).drop ((s.queue c).length - t.queue.length)) }

inductive HostAct (ι : Type) where
  | process (c : ι) (x : Act)
  | tick (d : Nat)
  | answer (k : Nat) (router_addr : UInt32) (e : ErrorMessage)
  | deliver (k : Nat)
  | loseProbe (k : Nat)
  | loseReply (k : Nat)
  | dupProbe (k : Nat)
  | dupReply (k : Nat)
deriving DecidableEq

/-- The steps of the program itself. -/
def Act.OfProcess : Act → Bool
  | .hop | .finish | .send _ | .fail | .newline | .recv _ | .timeout => true
  | _ => false

def hostStep (s : Host ι) : HostAct ι → Option (Host ι)
  | .process c x => if x.OfProcess then (step (s.own c) x).map (s.after c) else none
  | .tick d => some { s with now := s.now + d }
  | .answer k router_addr e =>
    (takeAt k s.flight).map fun p =>
      { s with
        flight := p.2
        replies := s.replies ++ [(p.1.1, ⟨p.1.2, router_addr, e.bytes p.1.2.dport⟩)] }
  | .deliver k =>
    -- a copy for every raw socket
    (takeAt k s.replies).map fun p =>
      { s with replies := p.2, queue := fun c => s.queue c ++ [p.1] }
  | .loseProbe k => (lose k s.flight).map fun l => { s with flight := l }
  | .loseReply k => (lose k s.replies).map fun l => { s with replies := l }
  | .dupProbe k => (duplicate k s.flight).map fun l => { s with flight := l }
  | .dupReply k => (duplicate k s.replies).map fun l => { s with replies := l }

def host (ι : Type) [DecidableEq ι] : Machine (Host ι) (HostAct ι) := ⟨hostStep⟩

/-! ## The invariant -/

structure HostInv (s : Host ι) : Prop where
  flight : ∀ p ∈ s.flight, p.2.Sent
  replies : ∀ m ∈ s.replies, m.2.Faithful
  queue : ∀ c, ∀ m ∈ s.queue c, m.2.Faithful
  ttl_le : ∀ c, (s.tracer c).phase.Inner → (s.tracer c).pass.ttl ≤ MAXHOPS
  ip_ttl : ∀ c, (s.tracer c).phase.Inner → (s.tracer c).ip_ttl = (s.tracer c).pass.ttl

omit [DecidableEq ι] in
theorem hostInv_init : HostInv (Host.init ι) where
  flight _ h := by cases h
  replies _ h := by cases h
  queue _ _ h := by cases h
  ttl_le _ h := absurd h id
  ip_ttl _ h := absurd h id

variable {s s' : Host ι}

omit [DecidableEq ι] in
/-- What a process has is what it could have alone. -/
theorem HostInv.own (h : HostInv s) (c : ι) : Inv (s.own c) where
  flight _ hp := by cases hp
  replies _ hm := by cases hm
  queue m hm := by
    obtain ⟨p, hp, rfl⟩ := List.mem_map.mp hm
    exact h.queue c p hp
  ttl_le := h.ttl_le c
  ip_ttl := h.ip_ttl c

theorem hostInv_after (h : HostInv s) (c : ι) {t : Sys} (ht : Inv t) : HostInv (s.after c t) where
  flight p hp := by
    rcases List.mem_append.mp hp with hp | hp
    · exact h.flight p hp
    · obtain ⟨q, hq, rfl⟩ := List.mem_map.mp hp
      exact ht.flight q hq
  replies := h.replies
  queue d m hm := by
    unfold Host.after at hm
    dsimp only at hm
    by_cases hd : d = c
    · subst hd
      rw [Function.update_self] at hm
      exact h.queue d m (List.mem_of_mem_drop hm)
    · rw [Function.update_of_ne hd] at hm
      exact h.queue d m hm
  ttl_le d := by
    unfold Host.after
    dsimp only
    by_cases hd : d = c
    · subst hd
      rw [Function.update_self]
      exact ht.ttl_le
    · rw [Function.update_of_ne hd]
      exact h.ttl_le d
  ip_ttl d := by
    unfold Host.after
    dsimp only
    by_cases hd : d = c
    · subst hd
      rw [Function.update_self]
      exact ht.ip_ttl
    · rw [Function.update_of_ne hd]
      exact h.ip_ttl d

theorem hostInv_step (h : HostInv s) {x : HostAct ι} (hstep : hostStep s x = some s') :
    HostInv s' := by
  cases x with
  | process c x =>
    simp only [hostStep, Option.ite_none_right_eq_some, Option.map_eq_some_iff] at hstep
    obtain ⟨_, t, ht, rfl⟩ := hstep
    exact hostInv_after h c (inv_step (h.own c) ht)
  | tick d =>
    obtain rfl := Option.some.inj hstep
    exact ⟨h.flight, h.replies, h.queue, h.ttl_le, h.ip_ttl⟩
  | answer k router_addr e =>
    simp only [hostStep, Option.map_eq_some_iff] at hstep
    obtain ⟨⟨p, rest⟩, hk, rfl⟩ := hstep
    refine ⟨fun q hq => h.flight q (mem_of_mem_rest hk hq), fun m hm => ?_, h.queue, h.ttl_le,
      h.ip_ttl⟩
    rcases List.mem_append.mp hm with hm | hm
    · exact h.replies m hm
    · rw [List.mem_singleton.mp hm]
      exact ⟨h.flight p (mem_of_takeAt hk), e, rfl⟩
  | deliver k =>
    simp only [hostStep, Option.map_eq_some_iff] at hstep
    obtain ⟨⟨m, rest⟩, hk, rfl⟩ := hstep
    refine ⟨h.flight, fun n hn => h.replies n (mem_of_mem_rest hk hn), fun c n hn => ?_, h.ttl_le,
      h.ip_ttl⟩
    rcases List.mem_append.mp hn with hn | hn
    · exact h.queue c n hn
    · exact List.mem_singleton.mp hn ▸ h.replies m (mem_of_takeAt hk)
  | loseProbe k =>
    simp only [hostStep, Option.map_eq_some_iff] at hstep
    obtain ⟨l, hk, rfl⟩ := hstep
    exact ⟨fun p hp => h.flight p (mem_of_lose hk hp), h.replies, h.queue, h.ttl_le, h.ip_ttl⟩
  | loseReply k =>
    simp only [hostStep, Option.map_eq_some_iff] at hstep
    obtain ⟨l, hk, rfl⟩ := hstep
    exact ⟨h.flight, fun m hm => h.replies m (mem_of_lose hk hm), h.queue, h.ttl_le, h.ip_ttl⟩
  | dupProbe k =>
    simp only [hostStep, Option.map_eq_some_iff] at hstep
    obtain ⟨l, hk, rfl⟩ := hstep
    exact ⟨fun p hp => h.flight p (mem_of_duplicate hk hp), h.replies, h.queue, h.ttl_le,
      h.ip_ttl⟩
  | dupReply k =>
    simp only [hostStep, Option.map_eq_some_iff] at hstep
    obtain ⟨l, hk, rfl⟩ := hstep
    exact ⟨h.flight, fun m hm => h.replies m (mem_of_duplicate hk hm), h.queue, h.ttl_le,
      h.ip_ttl⟩

/-! ## Attribution -/

/-- A process that reports what it reads has read an answer to the probe of its own pass. -/
def AttributedAmong (s : Host ι) (x : HostAct ι) (s' : Host ι) : Prop :=
  match x with
  | .process c (.recv _) => ∀ m ∈ (s.queue c).head?, Reports (s.own c) (s'.own c) →
      m.1 = c ∧ m.2.quoted.pass = (s.tracer c).pass ∧
        m.2.quoted.ip_ttl = (s.tracer c).pass.ttl
  | _ => True

/-- A message that is read, if the sum `ttl + probe` of the pass it quotes is that of the reader's,
    quotes a probe of the reader and of this hop. -/
def Unmixed (s : Host ι) (x : HostAct ι) (_ : Host ι) : Prop :=
  match x with
  | .process c (.recv _) => ∀ m ∈ (s.queue c).head?,
      m.2.quoted.pass.ttl + m.2.quoted.pass.probe =
          (s.tracer c).pass.ttl + (s.tracer c).pass.probe →
        m.1 = c ∧ m.2.quoted.pass.ttl = (s.tracer c).pass.ttl
  | _ => True

theorem attributed_among_step_iff (h : HostInv s) {x : HostAct ι}
    (hstep : hostStep s x = some s') : AttributedAmong s x s' ↔ Unmixed s x s' := by
  cases x with
  | process c x =>
    cases x with
    | recv t =>
      simp only [hostStep, Option.ite_none_right_eq_some, Option.map_eq_some_iff] at hstep
      obtain ⟨_, u, hu, rfl⟩ := hstep
      obtain ⟨start_time, _, n, rest, _, hq, rfl⟩ := step_recv hu
      obtain ⟨m, queue, hqueue, rfl, _⟩ := List.map_eq_cons_iff.mp hq
      have hm : m.2.Faithful := h.queue c m (hqueue ▸ List.mem_cons_self)
      -- a report is one of the process itself
      have hown := receive_reports_iff (s.own c) hm rest start_time t
      have hreports : Reports (s.own c)
          ((s.after c ((s.own c).receive m.2 rest start_time t)).own c) ↔
            m.2.quoted.pass.port = (s.tracer c).pass.port := by
        rw [show (s.tracer c).pass.port = (s.own c).tracer.pass.port from rfl, ← hown]
        unfold Reports Host.own Host.after
        dsimp only
        rw [Function.update_self]
      unfold AttributedAmong Unmixed
      dsimp only
      rw [hqueue, List.head?_cons]
      simp only [Option.mem_def, Option.some.injEq, forall_eq', hreports, port_eq_iff]
      refine forall_congr' fun hsum => and_congr_right fun _ => ?_
      constructor
      · rintro ⟨hpass, _⟩
        rw [hpass]
      · intro httl
        refine ⟨?_, by rw [hm.sent.ip_ttl, httl]⟩
        cases hqp : m.2.quoted.pass
        cases hsp : (s.tracer c).pass
        simp only [hqp, hsp] at hsum httl
        rw [Pass.mk.injEq]
        omega
    | _ => exact Iff.rfl
  | _ => exact Iff.rfl

/-- **Among processes.** In every run of any number of processes on a host, each reports only the
    answers to its own probes, under their own passes, exactly when no message is read, of another
    process or of another hop, whose sum is that of the reader's pass. -/
theorem attributed_among_iff (acts : List (HostAct ι)) :
    (host ι).Along AttributedAmong (Host.init ι) acts ↔
      (host ι).Along Unmixed (Host.init ι) acts :=
  (host ι).along_congr_of_inv (fun _ _ _ hI hst => attributed_among_step_iff hI hst)
    (fun _ _ _ hI hst _ => hostInv_step hI hst) hostInv_init acts

/-- Two processes trace at once. The answer to the probe of the one reaches the other first. -/
def besideAnother : List (HostAct Bool) :=
  [.process true .hop, .process true (.send ⟨0, 0⟩), .tick 2000, .process false .hop,
    .process false (.send ⟨0, 2000⟩), .tick 1500, .answer 0 3232235777 exceeded, .deliver 0,
    .process false (.recv ⟨0, 3500⟩)]

-- the time printed is from the send of the one to the answer of the other
example : ((host Bool).run (Host.init Bool) besideAnother).map (fun s =>
      ((s.tracer false).pass, (s.tracer false).out)) =
    some (⟨1, 1⟩, [.hop 1, .addr 3232235777, .rtt (3 / 2)]) := by decide +kernel

end NetLab.Trace
