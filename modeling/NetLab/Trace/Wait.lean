/-
  The time q3traceroute.c waits for its probes.

  `SO_RCVTIMEO` limits one `recvfrom`. The wait loop begins another one after every packet that is
  not accepted, with the whole timeout again, and a raw ICMP socket gets every ICMP packet of the
  host. So a packet about something else that comes during a wait makes it longer than the timeout,
  and packets that keep coming make it endless.

  * `waits_le`: never more than three waits for each of 64 hops.
  * `reaches_ended`: if every wait is settled, the trace ends.
  * `timely_iff`: every wait keeps to the timeout, and the trace ends, exactly if every wait is
    settled in time.
-/
import NetLab.Trace.Timed
import NetLab.Trace.Accept

namespace NetLab.Trace

open NetLab.Lib
open NetLab.Ping (Timeval)
open StateTransition (Reaches)

variable {w : World} {r₀ r r' : Run} {n j : Nat}

/-! ## Whole runs -/

/-- A waiting state is one of a wait that began at a state of the run. -/
theorem reached_inWait (h : Reached w r) (hwaiting : r.Waiting) :
    ∃ r₀ n, Reached w r₀ ∧ r₀.Sends w ∧ InWait w r₀ n r := by
  unfold Reached at h
  induction h with
  | refl => cases hwaiting
  | @tail q r hq hstep ih =>
    by_cases hqw : q.Waiting
    · obtain ⟨r₀, n, hr₀, hsends, hin⟩ := ih hqw
      refine ⟨r₀, n + 1, hr₀, hsends, ?_⟩
      exact (hin.step_cases hstep).resolve_right fun hleft => hleft.not_waiting hwaiting
    · cases quiet_step hqw hstep with
      | send hsends =>
        obtain ⟨_, hin⟩ := inWait_send hsends
        exact ⟨q, 0, hq, hsends, hin⟩
      | fail | hop | finish | newline => cases hwaiting

/-- The probes that have been waited for, by phase. -/
def Counted (r : Run) : Prop :=
  match r.tracer.phase with
  | .hop => 1 ≤ r.tracer.pass.ttl ∧ r.tracer.pass.ttl ≤ MAXHOPS + 1 ∧
      r.waits = (r.tracer.pass.ttl - 1) * PROBESPERHOP
  | .probe => 1 ≤ r.tracer.pass.ttl ∧ r.tracer.pass.ttl ≤ MAXHOPS ∧
      r.tracer.pass.probe ≤ PROBESPERHOP ∧
      r.waits = (r.tracer.pass.ttl - 1) * PROBESPERHOP + r.tracer.pass.probe
  | .waiting _ _ => 1 ≤ r.tracer.pass.ttl ∧ r.tracer.pass.ttl ≤ MAXHOPS ∧
      r.tracer.pass.probe < PROBESPERHOP ∧
      r.waits = (r.tracer.pass.ttl - 1) * PROBESPERHOP + r.tracer.pass.probe + 1
  | .done => r.waits ≤ MAXHOPS * PROBESPERHOP
  | .exited => r.waits ≤ MAXHOPS * PROBESPERHOP

theorem counted_le (h : Counted r) : r.waits ≤ MAXHOPS * PROBESPERHOP := by
  unfold Counted at h
  unfold PROBESPERHOP MAXHOPS at *
  cases hphase : r.tracer.phase <;> simp only [hphase] at h <;> omega

/-- A `recvfrom` waits on in its pass or goes to the next. -/
theorem recvfrom_frame (start_time : Timeval) :
    (r.recvfrom w start_time).waits = r.waits ∧
      ((r.recvfrom w start_time).Waiting ∧
          (r.recvfrom w start_time).tracer.pass = r.tracer.pass ∨
        LeftWait r (r.recvfrom w start_time)) := by
  unfold Run.recvfrom
  cases w.arrivals.get? r.next with
  | none => exact ⟨rfl, .inr ⟨rfl, rfl⟩⟩
  | some a =>
    dsimp only
    split
    · unfold Run.receive
      dsimp only
      split
      · exact ⟨rfl, .inr ⟨rfl, rfl⟩⟩
      · exact ⟨rfl, .inl ⟨rfl, rfl⟩⟩
    · exact ⟨rfl, .inr ⟨rfl, rfl⟩⟩

theorem counted_step (h : Counted r) (hstep : w.step r = some r') : Counted r' := by
  have hle := counted_le h
  unfold Counted at h
  by_cases hwaiting : r.Waiting
  · obtain ⟨_, _, hphase⟩ := exists_waiting hwaiting
    obtain ⟨start_time, hrecv⟩ := step_waiting (w := w) hwaiting
    obtain rfl := Option.some.inj (hrecv.symm.trans hstep)
    rw [hphase] at h
    obtain ⟨h1, h2, h3, h4⟩ := h
    obtain ⟨hwaits, ⟨hwaiting', hpass⟩ | hleft⟩ := recvfrom_frame (w := w) (r := r) start_time
    · obtain ⟨_, _, hphase'⟩ := exists_waiting hwaiting'
      unfold Counted
      rw [hphase', hpass, hwaits]
      exact ⟨h1, h2, h3, h4⟩
    · unfold Counted
      rw [hleft.phase, hleft.pass, hwaits]
      exact ⟨h1, h2, h3, h4⟩
  · cases quiet_step hwaiting hstep with
    | fail hphase => exact hle
    | hop hphase hmore =>
      rw [hphase] at h
      obtain ⟨h1, _, h3⟩ := h
      exact ⟨h1, hmore.1, Nat.zero_le _, h3⟩
    | finish hphase => exact hle
    | send hsends =>
      rw [hsends.1] at h
      obtain ⟨h1, h2, _, h4⟩ := h
      exact ⟨h1, h2, hsends.2.1, congrArg (· + 1) h4⟩
    | newline hphase hprobe =>
      rw [hphase] at h
      obtain ⟨h1, h2, h3, h4⟩ := h
      refine ⟨Nat.le_add_left 1 _, Nat.add_le_add_right h2 1, ?_⟩
      show r.waits = (r.tracer.pass.ttl + 1 - 1) * PROBESPERHOP
      unfold PROBESPERHOP at *
      omega

theorem counted_reached (h : Reached w r) : Counted r := by
  unfold Reached at h
  induction h with
  | refl => exact ⟨Nat.le_refl 1, by decide, rfl⟩
  | tail _ hstep ih => exact counted_step ih hstep

/-- **Never more than three waits a hop.** -/
theorem waits_le (h : Reached w r) : r.waits ≤ MAXHOPS * PROBESPERHOP :=
  counted_le (counted_reached h)

/-- What is left of the two loops, between the waits. -/
def Run.remaining (r : Run) : Nat :=
  match r.tracer.phase with
  | .hop => (MAXHOPS + 1 - r.tracer.pass.ttl) * (PROBESPERHOP + 2) + 1
  | .probe => (MAXHOPS + 1 - r.tracer.pass.ttl) * (PROBESPERHOP + 2) - r.tracer.pass.probe
  | _ => 0

theorem ended_of_step_none (h : w.step r = none) : r.Ended := by
  unfold World.step at h
  split at h
  · split at h
    · split at h <;> cases h
    · cases h
  · split at h
    · split at h <;> cases h
    · cases h
  · cases h
  · exact .inl ‹_›
  · exact .inr ‹_›

/-- **If every wait is settled, the trace ends.** -/
theorem reaches_ended (hall : ∀ r, Reached w r → r.Sends w → r.Settles w) (h : Reached w r)
    (hquiet : ¬ r.Waiting) : ∃ r', Reached w r' ∧ r'.Ended := by
  induction hm : r.remaining using Nat.strong_induction_on generalizing r with
  | _ m ih =>
    have hcounted := counted_reached h
    unfold Counted at hcounted
    unfold Run.remaining MAXHOPS PROBESPERHOP at *
    cases hstep : w.step r with
    | none => exact ⟨r, h, ended_of_step_none hstep⟩
    | some r' =>
      have h' : Reached w r' := h.tail hstep
      cases quiet_step hquiet hstep with
      | fail => exact ⟨_, h', .inr rfl⟩
      | finish => exact ⟨_, h', .inl rfl⟩
      | hop hphase hmore =>
        refine ih _ ?_ h' Bool.false_ne_true rfl
        simp only [hphase] at hm
        show (64 + 1 - r.tracer.pass.ttl) * (3 + 2) - 0 < m
        omega
      | send hsends =>
        obtain ⟨hphase, hprobe, _⟩ := id hsends
        obtain ⟨j, hj⟩ := hall r h hsends
        obtain ⟨hsend, hin⟩ := inWait_send hsends
        obtain ⟨q, hreach, hleft⟩ := hin.reaches_left hj
        have hq : Reached w q := h'.trans hreach
        refine ih _ ?_ hq hleft.not_waiting rfl
        simp only [hphase] at hm hcounted
        rw [hleft.phase, hleft.pass]
        show (64 + 1 - r.tracer.pass.ttl) * (3 + 2) - (r.tracer.pass.probe + 1) < m
        unfold PROBESPERHOP at hprobe
        omega
      | newline hphase hprobe =>
        refine ih _ ?_ h' Bool.false_ne_true rfl
        simp only [hphase] at hm hcounted
        unfold PROBESPERHOP at hprobe
        show (64 + 1 - (r.tracer.pass.ttl + 1)) * (3 + 2) + 1 < m
        omega

/-- A wait of a trace that keeps to the timeout and ends is settled. -/
theorem settles_of_reaches {e : Run} (ht : Timely w) (he : e.Ended) (h : Reached w r)
    (hin : InWait w r₀ n r) (hreach : Reaches w.step r e) : r₀.Settles w := by
  unfold Reaches at hreach
  induction hreach using Relation.ReflTransGen.head_induction_on generalizing n with
  | refl => exact absurd hin.waiting he.not_waiting
  | @head r r' hstep _ ih =>
    obtain ⟨hnow, hnow'⟩ := ht.calls r r' h hin.waiting hstep
    rw [hin.sentAt] at hnow hnow'
    have hpassed : ∀ i < n, ∃ a, w.arrivals.get? (r₀.next + i) = some a ∧
        a.time ≤ r₀.sendTime w + RECVTIMEOUT ∧ ¬ r₀.Accepts w i := by
      intro i hi
      obtain ⟨a, ha, _, hno⟩ := hin.passed i hi
      rw [hin.now, callBegin_le_iff] at hnow
      exact ⟨a, ha, hnow.2 i hi a ha, hno⟩
    rcases recvfrom_cases hin hstep with
      ⟨a, ha, _, haccepts, heq, _⟩ | ⟨hin', _⟩ | ⟨hlate, heq, _⟩
    · refine ⟨n, hpassed, .inl ⟨a, ha, ?_, haccepts⟩⟩
      omega
    · exact ih (h.tail hstep) hin'
    · have hbegin : r.now ≤ r₀.sendTime w := by omega
      have hlow : r₀.sendTime w ≤ r.now := by
        rw [hin.now]
        exact (callBegin_le_iff.mp (Nat.le_refl _)).1
      refine ⟨n, hpassed, .inr ⟨fun a ha => ?_, ?_⟩⟩
      · have hlt := hlate a ha
        omega
      · rw [hin.now, callBegin_le_iff] at hbegin
        exact hbegin.2

/-- **When every wait keeps to the timeout.** In every world: exactly if every wait that the run
    begins is settled in time, by an accepted packet, or by the timeout with no packet during it. -/
theorem timely_iff (w : World) :
    Timely w ↔ ∀ r, Reached w r → r.Sends w → r.Settles w := by
  constructor
  · intro ht r hr hsends
    obtain ⟨e, he, hended⟩ := ht.ends
    obtain ⟨hsend, hin⟩ := inWait_send hsends
    have hr' : Reached w (r.send w) := hr.tail hsend
    rcases StateTransition.reaches_total hr' he with hreach | hreach
    · exact settles_of_reaches ht hended hr' hin hreach
    · -- the run does not go on from its end
      rcases Relation.ReflTransGen.cases_head hreach with rfl | ⟨q, hstep, _⟩
      · exact absurd hin.waiting hended.not_waiting
      · rw [hended.step_eq_none] at hstep
        cases hstep
  · intro hall
    refine ⟨fun r r' hr hwaiting hstep => ?_, ?_, fun r hr => waits_le hr⟩
    · obtain ⟨r₀, n, hr₀, hsends, hin⟩ := reached_inWait hr hwaiting
      obtain ⟨j, hj⟩ := hall r₀ hr₀ hsends
      rw [hin.sentAt]
      exact ⟨hin.now_le hj, hin.step_now_le hj hstep⟩
    · exact reaches_ended hall .refl nofun

/-- An echo reply. -/
def echoReply : Bytes := 69 :: List.replicate 27 0

/-- A host that gets the reply to a `ping` of its own every second. -/
def pingedHost : World where
  arrivals := ⟨fun n => some ⟨(n + 1) * 1000000, 0, echoReply⟩, nofun⟩
  sorted := by
    rintro i a b ha hb
    obtain rfl := Option.some.inj ha
    obtain rfl := Option.some.inj hb
    show (i + 1) * 1000000 ≤ (i + 1 + 1) * 1000000
    omega
  clock t := ⟨Int64.ofNat (t / 1000000), Int64.ofNat (t % 1000000)⟩
  delay _ := 0
  fails _ := false

theorem echoReply_not_check (port : Nat) (recv_buf : Bytes) :
    ¬ check port (recvInto recvBufSize recv_buf echoReply) := by
  rintro ⟨herror, _⟩
  have hbuf : ∀ i < echoReply.length,
      byteAt (recvInto recvBufSize recv_buf echoReply) i = byteAt echoReply i :=
    fun i hi => byteAt_recvInto recv_buf (Nat.lt_trans hi (by decide)) hi
  rw [icmp_type_overlay hbuf (by decide)] at herror
  exact absurd herror (by decide)

/-- The first wait goes on. -/
def Endless (r : Run) : Prop :=
  r.tracer.phase = .hop ∧ r.tracer.More ∧ r.now = 0 ∧ r.next = 0 ∨
    r.tracer.phase = .probe ∧ r.tracer.pass.probe < PROBESPERHOP ∧ r.now = 0 ∧ r.next = 0 ∨
    r.Waiting ∧ r.now = r.next * 1000000

theorem endless_step (h : Endless r) (hstep : pingedHost.step r = some r') : Endless r' := by
  rcases h with ⟨hphase, hmore, hnow, hnext⟩ | ⟨hphase, hprobe, hnow, hnext⟩ | ⟨hwaiting, hnow⟩
  · unfold World.step at hstep
    rw [hphase] at hstep
    dsimp only at hstep
    rw [if_pos hmore, if_neg (show ¬ pingedHost.fails r.tracer = true from nofun)] at hstep
    obtain rfl := Option.some.inj hstep
    exact .inr (.inl ⟨rfl, (by decide : 0 < PROBESPERHOP), hnow, hnext⟩)
  · unfold World.step at hstep
    rw [hphase] at hstep
    dsimp only at hstep
    rw [if_pos hprobe, if_neg (show ¬ pingedHost.fails r.tracer = true from nofun)] at hstep
    obtain rfl := Option.some.inj hstep
    refine .inr (.inr ⟨rfl, ?_⟩)
    show r.now + 0 = r.next * 1000000
    rw [hnow, hnext]
  · obtain ⟨start_time, hrecv⟩ := step_waiting (w := pingedHost) hwaiting
    obtain rfl := Option.some.inj (hrecv.symm.trans hstep)
    have htime : (r.next + 1) * 1000000 ≤ r.now + RECVTIMEOUT := by
      unfold RECVTIMEOUT
      omega
    have hrecv : r.recvfrom pingedHost start_time =
        r.receive pingedHost start_time ⟨(r.next + 1) * 1000000, 0, echoReply⟩ := if_pos htime
    rw [hrecv]
    unfold Run.receive
    dsimp only
    rw [if_neg (echoReply_not_check _ _)]
    refine .inr (.inr ⟨rfl, ?_⟩)
    show max r.now ((r.next + 1) * 1000000) = (r.next + 1) * 1000000
    omega

/-- The wait for the first probe never ends. -/
theorem pingedHost_never_ends :
    (∀ r, Reached pingedHost r → ¬ r.Ended) ∧ ¬ Timely pingedHost := by
  have hendless : ∀ r, Reached pingedHost r → ¬ r.Ended := by
    intro r hr
    have h : Endless r := by
      unfold Reached at hr
      induction hr with
      | refl => exact .inl ⟨rfl, by decide, rfl, rfl⟩
      | tail _ hstep ih => exact endless_step ih hstep
    intro hended
    rcases h with ⟨hphase, _⟩ | ⟨hphase, _⟩ | ⟨hwaiting, _⟩
    · simp [Run.Ended, hphase] at hended
    · simp [Run.Ended, hphase] at hended
    · exact hended.not_waiting hwaiting
  refine ⟨hendless, fun ht => ?_⟩
  obtain ⟨e, he, hended⟩ := ht.ends
  exact hendless e he hended

end NetLab.Trace
