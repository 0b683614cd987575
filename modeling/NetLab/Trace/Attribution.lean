/-
  Which probe a reply of q3traceroute.c is attributed to.

  The program knows its probes by the destination port alone, `DESTPORT + ttl + probe`. Within a hop
  the ports differ, but probe 1 of one hop and probe 0 of the next have the same one, and a message
  that comes late is still in the socket's queue when the next hop waits.

  * `Inv`, `inv_step`: every message quotes a datagram of the program, with the port and the TTL of
    its pass.
  * `receive_reports_iff`: a message is accepted exactly where the ports agree, that is, the sums
    `ttl + probe`.
  * `attributed_iff`: in every run every accepted reply quotes the probe of its own pass exactly
    when no message is read that quotes a probe of another hop with the same sum.
  * `lateRouter_misattributed`: the late answer of the first router is printed on line 2.
-/
import NetLab.Trace.System

namespace NetLab.Trace

open NetLab.Lib
open NetLab.Ping (Timeval)

/-! ## The invariant -/

/-- A datagram as one pass of the loops sends it. -/
structure Probe.Sent (p : Probe) : Prop where
  ttl_le : p.pass.ttl ≤ MAXHOPS
  probe_lt : p.pass.probe < PROBESPERHOP
  ip_ttl : p.ip_ttl = p.pass.ttl
  dport : p.dport = UInt16.ofNat p.pass.port

/-- An error message about such a datagram. -/
structure Message.Faithful (m : Message) : Prop where
  sent : m.quoted.Sent
  bytes : ∃ e : ErrorMessage, m.bytes = e.bytes m.quoted.dport

/-- The program is in the inner loop. -/
def Phase.Inner : Phase → Prop
  | .probe => True
  | .waiting _ _ => True
  | _ => False

structure Inv (s : Sys) : Prop where
  flight : ∀ p ∈ s.flight, p.Sent
  replies : ∀ m ∈ s.replies, m.Faithful
  queue : ∀ m ∈ s.queue, m.Faithful
  ttl_le : s.tracer.phase.Inner → s.tracer.pass.ttl ≤ MAXHOPS
  ip_ttl : s.tracer.phase.Inner → s.tracer.ip_ttl = s.tracer.pass.ttl

theorem inv_init : Inv Sys.init where
  flight := nofun
  replies := nofun
  queue := nofun
  ttl_le h := absurd h id
  ip_ttl h := absurd h id

variable {s s' : Sys}

/-- The ports fit 16 bits. -/
theorem Probe.Sent.dport_toNat {p : Probe} (h : p.Sent) : p.dport.toNat = p.pass.port := by
  have httl := h.ttl_le
  have hprobe := h.probe_lt
  unfold MAXHOPS at httl
  unfold PROBESPERHOP at hprobe
  rw [h.dport, UInt16.toNat_ofNat']
  unfold Pass.port DESTPORT
  omega

/-- What is in flight can change without the program. -/
theorem Inv.network (h : Inv s) (htracer : s'.tracer = s.tracer) (hflight : ∀ p ∈ s'.flight, p.Sent)
    (hreplies : ∀ m ∈ s'.replies, m.Faithful) (hqueue : ∀ m ∈ s'.queue, m.Faithful) : Inv s' where
  flight := hflight
  replies := hreplies
  queue := hqueue
  ttl_le := htracer ▸ h.ttl_le
  ip_ttl := htracer ▸ h.ip_ttl

/-- A step of the program that sends nothing and reads no message but those of the queue. -/
theorem Inv.tracer (h : Inv s) {c : Tracer} {queue : List Message}
    (hqueue : ∀ m ∈ queue, m ∈ s.queue) (httl : c.phase.Inner → c.pass.ttl ≤ MAXHOPS)
    (hip : c.phase.Inner → c.ip_ttl = c.pass.ttl) : Inv { s with tracer := c, queue := queue } where
  flight := h.flight
  replies := h.replies
  queue m hm := h.queue m (hqueue m hm)
  ttl_le := httl
  ip_ttl := hip

theorem Inv.datagram_sent (h : Inv s) (hp : s.tracer.phase = .probe)
    (hlt : s.tracer.pass.probe < PROBESPERHOP) : s.tracer.datagram.Sent :=
  have hin : s.tracer.phase.Inner := by rw [hp]; trivial
  ⟨h.ttl_le hin, hlt, h.ip_ttl hin, rfl⟩

/-- Reading a message leaves the pass's TTL alone, accepted or not. -/
theorem receive_frame (s : Sys) (m : Message) (rest : List Message)
    (start_time end_time : Timeval) :
    ∃ c, s.receive m rest start_time end_time = { s with tracer := c, queue := rest } ∧
      c.pass.ttl = s.tracer.pass.ttl ∧ c.ip_ttl = s.tracer.ip_ttl := by
  unfold Sys.receive
  dsimp only
  split
  · exact ⟨_, rfl, rfl, rfl⟩
  · exact ⟨_, rfl, rfl, rfl⟩

theorem inv_step (h : Inv s) {x : Act} (hstep : step s x = some s') : Inv s' := by
  have hsame : ∀ m ∈ s.queue, m ∈ s.queue := fun _ hm => hm
  cases x with
  | hop =>
    obtain ⟨_, hmore, rfl⟩ := step_hop hstep
    exact h.tracer hsame (fun _ => hmore.1) fun _ => rfl
  | finish | fail =>
    simp only [step, Option.ite_none_right_eq_some, Option.some.injEq] at hstep
    obtain ⟨_, rfl⟩ := hstep
    exact h.tracer hsame (fun hin => absurd hin id) fun hin => absurd hin id
  | send t =>
    obtain ⟨hp, hlt, rfl⟩ := step_send hstep
    have hin : s.tracer.phase.Inner := by rw [hp]; trivial
    refine ⟨fun p hmem => ?_, h.replies, h.queue, fun _ => h.ttl_le hin, fun _ => h.ip_ttl hin⟩
    rcases List.mem_append.mp hmem with hmem | hmem
    · exact h.flight p hmem
    · exact List.mem_singleton.mp hmem ▸ h.datagram_sent hp hlt
  | newline =>
    obtain ⟨_, _, rfl⟩ := step_newline hstep
    exact h.tracer hsame (fun hin => absurd hin id) fun hin => absurd hin id
  | recv t =>
    obtain ⟨start_time, deadline, m, rest, hp, hq, rfl⟩ := step_recv hstep
    have hin : s.tracer.phase.Inner := by rw [hp]; trivial
    obtain ⟨c, hc, httl, hip⟩ := receive_frame s m rest start_time t
    rw [hc]
    refine h.tracer (fun n hn => hq ▸ List.mem_cons_of_mem m hn) (fun _ => ?_) fun _ => ?_
    · rw [httl]
      exact h.ttl_le hin
    · rw [httl, hip]
      exact h.ip_ttl hin
  | timeout =>
    obtain ⟨_, _, hp, _, _, rfl⟩ := step_timeout hstep
    have hin : s.tracer.phase.Inner := by rw [hp]; trivial
    exact h.tracer hsame (fun _ => h.ttl_le hin) fun _ => h.ip_ttl hin
  | tick d =>
    obtain rfl := Option.some.inj hstep
    exact h.network rfl h.flight h.replies h.queue
  | answer k router_addr e =>
    simp only [step, Option.map_eq_some_iff] at hstep
    obtain ⟨⟨p, rest⟩, hk, rfl⟩ := hstep
    refine h.network rfl (fun q hq => h.flight q (mem_of_mem_rest hk hq)) (fun m hm => ?_) h.queue
    rcases List.mem_append.mp hm with hm | hm
    · exact h.replies m hm
    · rw [List.mem_singleton.mp hm]
      exact ⟨h.flight p (mem_of_takeAt hk), e, rfl⟩
  | deliver k =>
    simp only [step, Option.map_eq_some_iff] at hstep
    obtain ⟨⟨m, rest⟩, hk, rfl⟩ := hstep
    refine h.network rfl h.flight (fun n hn => h.replies n (mem_of_mem_rest hk hn)) fun n hn => ?_
    rcases List.mem_append.mp hn with hn | hn
    · exact h.queue n hn
    · exact List.mem_singleton.mp hn ▸ h.replies m (mem_of_takeAt hk)
  | loseProbe k =>
    simp only [step, Option.map_eq_some_iff] at hstep
    obtain ⟨l, hk, rfl⟩ := hstep
    exact h.network rfl (fun p hp => h.flight p (mem_of_lose hk hp)) h.replies h.queue
  | loseReply k =>
    simp only [step, Option.map_eq_some_iff] at hstep
    obtain ⟨l, hk, rfl⟩ := hstep
    exact h.network rfl h.flight (fun m hm => h.replies m (mem_of_lose hk hm)) h.queue
  | dupProbe k =>
    simp only [step, Option.map_eq_some_iff] at hstep
    obtain ⟨l, hk, rfl⟩ := hstep
    exact h.network rfl (fun p hp => h.flight p (mem_of_duplicate hk hp)) h.replies h.queue
  | dupReply k =>
    simp only [step, Option.map_eq_some_iff] at hstep
    obtain ⟨l, hk, rfl⟩ := hstep
    exact h.network rfl h.flight (fun m hm => h.replies m (mem_of_duplicate hk hm)) h.queue

/-! ## Attribution -/

/-- The program prints or notes something about the destination: it has accepted what it read. -/
def Reports (s s' : Sys) : Prop :=
  s'.tracer.out ≠ s.tracer.out ∨ s'.tracer.destreached ≠ s.tracer.destreached

/-- A message whose reading is reported quotes the datagram of this pass, sent with its TTL. -/
def Attributed (s : Sys) (x : Act) (s' : Sys) : Prop :=
  match x with
  | .recv _ => ∀ m ∈ s.queue.head?, Reports s s' →
      m.quoted.pass = s.tracer.pass ∧ m.quoted.ip_ttl = s.tracer.pass.ttl
  | _ => True

/-- A message that is read, if the sum `ttl + probe` of the pass it quotes is that of this pass,
    quotes a probe of this hop. -/
def SameHop (s : Sys) (x : Act) (_ : Sys) : Prop :=
  match x with
  | .recv _ => ∀ m ∈ s.queue.head?,
      m.quoted.pass.ttl + m.quoted.pass.probe = s.tracer.pass.ttl + s.tracer.pass.probe →
        m.quoted.pass.ttl = s.tracer.pass.ttl
  | _ => True

instance (s s' : Sys) : Decidable (Reports s s') := inferInstanceAs (Decidable (_ ∨ _))

instance (s : Sys) (x : Act) (s' : Sys) : Decidable (Attributed s x s') := by
  unfold Attributed
  split <;> infer_instance

instance (s : Sys) (x : Act) (s' : Sys) : Decidable (SameHop s x s') := by
  unfold SameHop
  split <;> infer_instance

theorem report_ne_nil (c : Tracer) (router_addr : UInt32) (ms : ℚ) :
    c.report router_addr ms ≠ [] := by
  unfold Tracer.report
  split <;> exact List.cons_ne_nil _ _

/-- A message read is reported exactly where the port it quotes is that of the pass. -/
theorem receive_reports_iff (s : Sys) {m : Message} (hm : m.Faithful) (rest : List Message)
    (start_time end_time : Timeval) :
    Reports s (s.receive m rest start_time end_time) ↔ m.quoted.pass.port = s.tracer.pass.port := by
  obtain ⟨e, he⟩ := hm.bytes
  have hport := hm.sent.dport_toNat
  have hcheck := check_recvInto e m.quoted.dport s.tracer.pass.port s.tracer.recv_buf
  rw [← he, hport] at hcheck
  rw [← hcheck]
  unfold Sys.receive Reports
  dsimp only
  split
  · rename_i hacc
    refine iff_of_true (.inl fun hout => ?_) hacc
    exact report_ne_nil _ _ _ (List.append_right_eq_self.mp hout)
  · rename_i hrej
    exact iff_of_false (fun h => h.elim (fun hout => hout rfl) fun hdest => hdest rfl) hrej

theorem port_eq_iff (p q : Pass) : p.port = q.port ↔ p.ttl + p.probe = q.ttl + q.probe := by
  unfold Pass.port
  omega

/-- One transition from an invariant state. -/
theorem attributed_step_iff (h : Inv s) {x : Act} (hstep : step s x = some s') :
    Attributed s x s' ↔ SameHop s x s' := by
  cases x with
  | recv t =>
    obtain ⟨start_time, deadline, m, rest, _, hq, rfl⟩ := step_recv hstep
    have hm : m.Faithful := h.queue m (hq ▸ List.mem_cons_self)
    unfold Attributed SameHop
    dsimp only
    rw [hq, List.head?_cons]
    simp only [Option.mem_def, Option.some.injEq, forall_eq', receive_reports_iff s hm,
      port_eq_iff]
    constructor
    · intro hatt hsum
      rw [(hatt hsum).1]
    · intro hhop hsum
      have httl := hhop hsum
      refine ⟨?_, by rw [hm.sent.ip_ttl, httl]⟩
      cases hqp : m.quoted.pass
      cases hsp : s.tracer.pass
      simp only [hqp, hsp] at hsum httl
      rw [Pass.mk.injEq]
      omega
  | _ => exact Iff.rfl

/-- **Every accepted reply is that of its own probe exactly when no message read quotes a probe of
    another hop with the same sum.** -/
theorem attributed_iff (acts : List Act) :
    system.Along Attributed Sys.init acts ↔ system.Along SameHop Sys.init acts :=
  system.along_congr_of_inv (fun _ _ _ hI hst => attributed_step_iff hI hst)
    (fun _ _ _ hI hst _ => inv_step hI hst) inv_init acts

/-- The headers of a Time Exceeded message without options. -/
def exceeded : ErrorMessage where
  outer := ⟨5, List.replicate 19 0, by decide, by decide, by decide⟩
  type := .timeExceeded
  code := 0
  checksum := List.replicate 6 0
  inner := ⟨5, List.replicate 19 0, by decide, by decide, by decide⟩
  sport := 40000
  tail := [0, 60, 0, 0]
  length_checksum := by decide

/-- The probes of the first hop time out. The answer to the second of them comes in the first pass
    of the second hop. -/
def lateRouter : List Act :=
  [.hop, .send ⟨0, 0⟩, .tick 3000000, .timeout, .send ⟨3, 0⟩, .tick 3000000, .timeout,
    .send ⟨6, 0⟩, .tick 3000000, .timeout, .newline, .hop, .send ⟨9, 0⟩,
    .answer 1 3232235777 exceeded, .deliver 0, .recv ⟨9, 1500⟩]

/-- The router one hop away stands on line 2, with a time its probe did not take. -/
theorem lateRouter_misattributed :
    ¬ system.Along Attributed Sys.init lateRouter ∧
      (system.run Sys.init lateRouter).map (fun s => (s.tracer.pass, s.tracer.out)) =
        some (⟨2, 1⟩, [.hop 1, .star, .star, .star, .newline, .hop 2, .addr 3232235777,
          .rtt (3 / 2)]) := by
  constructor <;> decide +kernel

end NetLab.Trace
