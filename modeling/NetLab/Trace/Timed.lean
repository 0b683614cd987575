/-
  q3traceroute.c in time (lines 64-69 and 83-149).

  A `World` is what the program meets: the packets that reach its raw socket, one after the other,
  finitely many or without end, and its clock. In one world there is one run. Time is in
  microseconds and passes in `recvfrom` and in front of a `sendto`; a packet that arrives at the very
  end of the timeout is still read.

  `Run.sentAt` and `Run.waits` are not read by the program.

  * `recvfrom_cases`: what a `recvfrom` of a wait can do; `quiet_step`: what any other step can do.
  * `InWait.now_le`, `InWait.step_now_le`: a wait that is settled in time (`Settles`) keeps to the
    timeout; `InWait.reaches_left`: and it ends.
-/
import NetLab.Trace.System

namespace NetLab.Trace

open NetLab.Lib
open NetLab.Ping (Timeval)
open StateTransition (Reaches)

/-! ## Timed runs -/

/-- A packet that reaches the raw socket. -/
structure Arrival where
  time : Nat
  router_addr : UInt32
  bytes : Bytes
deriving DecidableEq, Repr

structure World where
  /-- The packets, in the order they arrive. -/
  arrivals : Stream'.Seq Arrival
  sorted : ∀ i a b, arrivals.get? i = some a → arrivals.get? (i + 1) = some b → a.time ≤ b.time
  /-- What `gettimeofday` reads at a time. -/
  clock : Nat → Timeval
  /-- The time until the `sendto` of a pass. -/
  delay : Pass → Nat
  /-- `setsockopt` or `sendto` fails. -/
  fails : Tracer → Bool

structure Run where
  tracer : Tracer
  now : Nat
  /-- The packets read so far; the next one is of that number. -/
  next : Nat
  /-- The time of the last `sendto`. -/
  sentAt : Nat
  /-- The probes waited for so far. -/
  waits : Nat
deriving DecidableEq, Repr

def Run.init : Run := ⟨Tracer.init, 0, 0, 0, 0⟩

def Phase.isWaiting : Phase → Bool
  | .waiting _ _ => true
  | _ => false

/-- In front of a `recvfrom`, or in it. -/
def Run.Waiting (r : Run) : Prop := r.tracer.phase.isWaiting = true

/-- The trace is over. -/
def Run.Ended (r : Run) : Prop := r.tracer.phase = .done ∨ r.tracer.phase = .exited

instance (r : Run) : Decidable r.Waiting := inferInstanceAs (Decidable (_ = _))

variable (w : World)

/-- When the probe of the pass is sent. -/
def Run.sendTime (r : Run) : Nat := r.now + w.delay r.tracer.pass

/-- `sendto`. -/
def Run.send (r : Run) : Run :=
  { r with
    tracer := { r.tracer with
      phase := .waiting (w.clock (r.sendTime w)) (r.sendTime w + RECVTIMEOUT) }
    now := r.sendTime w
    sentAt := r.sendTime w
    waits := r.waits + 1 }

/-- `recvfrom` returns with a packet. -/
def Run.receive (r : Run) (start_time : Timeval) (a : Arrival) : Run :=
  let now := max r.now a.time
  let c := { r.tracer with recv_buf := recvInto recvBufSize r.tracer.recv_buf a.bytes }
  if check c.pass.port c.recv_buf then
    { r with
      tracer := c.accept start_time (w.clock now) a.router_addr
      now := now
      next := r.next + 1 }
  else
    { r with
      tracer := { c with phase := .waiting start_time (now + RECVTIMEOUT) }
      now := now
      next := r.next + 1 }

/-- `recvfrom` returns with no packet. -/
def Run.timeout (r : Run) : Run :=
  { r with tracer := r.tracer.giveUp, now := r.now + RECVTIMEOUT }

def Run.recvfrom (r : Run) (start_time : Timeval) : Run :=
  match w.arrivals.get? r.next with
  | some a => if a.time ≤ r.now + RECVTIMEOUT then r.receive w start_time a else r.timeout
  | none => r.timeout

/-- What the program does next. -/
def World.step (r : Run) : Option Run :=
  match r.tracer.phase with
  | .hop =>
    if r.tracer.More then
      if w.fails r.tracer then some { r with tracer := { r.tracer with phase := .exited } }
      else some { r with tracer := r.tracer.hop }
    else some { r with tracer := { r.tracer with phase := .done } }
  | .probe =>
    if r.tracer.pass.probe < PROBESPERHOP then
      if w.fails r.tracer then some { r with tracer := { r.tracer with phase := .exited } }
      else some (r.send w)
    else
      some { r with
        tracer := { r.tracer with
          phase := .hop
          pass := ⟨r.tracer.pass.ttl + 1, r.tracer.pass.probe⟩
          out := r.tracer.out ++ [.newline] } }
  | .waiting start_time _ => some (r.recvfrom w start_time)
  | .done => none
  | .exited => none

/-- The states of the run. -/
def Reached (r : Run) : Prop := Reaches w.step Run.init r

/-- The next step is a `sendto` that succeeds. -/
def Run.Sends (r : Run) : Prop :=
  r.tracer.phase = .probe ∧ r.tracer.pass.probe < PROBESPERHOP ∧ w.fails r.tracer = false

/-- **Every wait keeps to the timeout.** No `recvfrom` begins or goes on later than `RECVTIMEOUT`
    after the probe was sent, and the trace ends, with three waits a hop at most. -/
structure Timely : Prop where
  calls : ∀ r r', Reached w r → r.Waiting → w.step r = some r' →
    r.now ≤ r.sentAt + RECVTIMEOUT ∧ r'.now ≤ r.sentAt + RECVTIMEOUT
  ends : ∃ r, Reached w r ∧ r.Ended
  waits : ∀ r, Reached w r → r.waits ≤ MAXHOPS * PROBESPERHOP

/-! ## One wait -/

/-- `recv_buf` after `n` packets from number `k` on. -/
def bufAfter (k : Nat) (recv_buf : Bytes) : Nat → Bytes
  | 0 => recv_buf
  | n + 1 =>
    match w.arrivals.get? (k + n) with
    | some a => recvInto recvBufSize (bufAfter k recv_buf n) a.bytes
    | none => bufAfter k recv_buf n

/-- The time after `n` packets from number `k` on have been read, from `start` on. -/
def callBegin (k start : Nat) : Nat → Nat
  | 0 => start
  | n + 1 =>
    match w.arrivals.get? (k + n) with
    | some a => max (callBegin k start n) a.time
    | none => callBegin k start n

/-- Packet `n` of the wait would be accepted. -/
def Run.Accepts (r : Run) (n : Nat) : Prop :=
  check r.tracer.pass.port (bufAfter w r.next r.tracer.recv_buf (n + 1))

/-- The wait is over with packet `j`, or without one when `j` have come. The packets before it are
    not accepted and arrive within the timeout. Packet `j` is accepted within the timeout, or it
    comes later, if at all, and those before it had arrived when the probe was sent. -/
def Run.SettledBy (r : Run) (j : Nat) : Prop :=
  (∀ i < j, ∃ a, w.arrivals.get? (r.next + i) = some a ∧
      a.time ≤ r.sendTime w + RECVTIMEOUT ∧ ¬ r.Accepts w i) ∧
    ((∃ a, w.arrivals.get? (r.next + j) = some a ∧
        a.time ≤ r.sendTime w + RECVTIMEOUT ∧ r.Accepts w j) ∨
      (∀ a ∈ w.arrivals.get? (r.next + j), r.sendTime w + RECVTIMEOUT < a.time) ∧
        ∀ i < j, ∀ a ∈ w.arrivals.get? (r.next + i), a.time ≤ r.sendTime w)

/-- The wait that begins with this `sendto` is settled in time. -/
def Run.Settles (r : Run) : Prop := ∃ j, r.SettledBy w j

/-- `n` packets of the wait that began at `r₀` have been read, and none was accepted. -/
structure InWait (r₀ : Run) (n : Nat) (r : Run) : Prop where
  waiting : r.Waiting
  pass : r.tracer.pass = r₀.tracer.pass
  recv_buf : r.tracer.recv_buf = bufAfter w r₀.next r₀.tracer.recv_buf n
  next : r.next = r₀.next + n
  now : r.now = callBegin w r₀.next (r₀.sendTime w) n
  sentAt : r.sentAt = r₀.sendTime w
  passed : ∀ i < n, ∃ a, w.arrivals.get? (r₀.next + i) = some a ∧
    a.time ≤ callBegin w r₀.next (r₀.sendTime w) i + RECVTIMEOUT ∧ ¬ r₀.Accepts w i

/-- The wait that began at `r₀` is over. -/
structure LeftWait (r₀ r : Run) : Prop where
  phase : r.tracer.phase = .probe
  pass : r.tracer.pass = ⟨r₀.tracer.pass.ttl, r₀.tracer.pass.probe + 1⟩

variable {w} {r₀ r r' : Run} {n j : Nat}

theorem callBegin_le_iff {k start b : Nat} :
    callBegin w k start n ≤ b ↔
      start ≤ b ∧ ∀ i < n, ∀ a ∈ w.arrivals.get? (k + i), a.time ≤ b := by
  induction n with
  | zero => exact (and_iff_left fun i hi => absurd hi (Nat.not_lt_zero i)).symm
  | succ n ih =>
    have hsplit : (∀ i < n + 1, ∀ a ∈ w.arrivals.get? (k + i), a.time ≤ b) ↔
        (∀ i < n, ∀ a ∈ w.arrivals.get? (k + i), a.time ≤ b) ∧
          ∀ a ∈ w.arrivals.get? (k + n), a.time ≤ b := Nat.forall_lt_succ_right
    rw [hsplit, ← and_assoc, ← ih, callBegin]
    cases w.arrivals.get? (k + n) with
    | none => exact (and_iff_left nofun).symm
    | some a =>
      rw [max_le_iff]
      apply and_congr_right
      intro _
      exact ⟨fun h b' hb' => Option.some.inj hb' ▸ h, fun h => h a rfl⟩

theorem exists_waiting (h : r.Waiting) :
    ∃ start_time deadline, r.tracer.phase = .waiting start_time deadline := by
  unfold Run.Waiting at h
  cases hphase : r.tracer.phase with
  | waiting start_time deadline => exact ⟨start_time, deadline, rfl⟩
  | hop | probe | done | exited =>
    rw [hphase] at h
    cases h

theorem Run.Ended.not_waiting (h : r.Ended) : ¬ r.Waiting := by
  unfold Run.Waiting
  rcases h with h | h <;> rw [h] <;> decide

theorem Run.Ended.step_eq_none (h : r.Ended) : w.step r = none := by
  unfold World.step
  rcases h with h | h <;> rw [h]

theorem LeftWait.not_waiting (h : LeftWait r₀ r) : ¬ r.Waiting := by
  rw [Run.Waiting, h.phase]
  decide

theorem step_waiting (h : r.Waiting) : ∃ start_time, w.step r = some (r.recvfrom w start_time) := by
  obtain ⟨start_time, deadline, hphase⟩ := exists_waiting h
  refine ⟨start_time, ?_⟩
  unfold World.step
  rw [hphase]

/-- The first `recvfrom` of a wait. -/
theorem inWait_send (h : r₀.Sends w) :
    w.step r₀ = some (r₀.send w) ∧ InWait w r₀ 0 (r₀.send w) := by
  obtain ⟨hphase, hprobe, hok⟩ := h
  constructor
  · unfold World.step
    rw [hphase]
    dsimp only
    rw [if_pos hprobe, hok, if_neg Bool.false_ne_true]
  · exact ⟨rfl, rfl, rfl, rfl, rfl, rfl, fun i hi => absurd hi (Nat.not_lt_zero i)⟩

/-- A packet that is read and not accepted. -/
theorem InWait.read (h : InWait w r₀ n r) {a : Arrival} (ha : w.arrivals.get? (r₀.next + n) = some a)
    (htime : a.time ≤ r.now + RECVTIMEOUT) (hno : ¬ r₀.Accepts w n) (start_time : Timeval) :
    InWait w r₀ (n + 1)
      { r with
        tracer := { r.tracer with
          recv_buf := recvInto recvBufSize r.tracer.recv_buf a.bytes
          phase := .waiting start_time (max r.now a.time + RECVTIMEOUT) }
        now := max r.now a.time
        next := r.next + 1 } where
  waiting := rfl
  pass := h.pass
  recv_buf := by
    rw [bufAfter, ha, ← h.recv_buf]
  next := congrArg (· + 1) h.next
  now := by
    rw [callBegin, ha, ← h.now]
  sentAt := h.sentAt
  passed := by
    intro i hi
    rcases Nat.lt_succ_iff_lt_or_eq.mp hi with hi | rfl
    · exact h.passed i hi
    · exact ⟨a, ha, h.now ▸ htime, hno⟩

/-- **What a `recvfrom` of a wait can do**: return with an accepted packet, with another one, or time
    out. -/
theorem recvfrom_cases (h : InWait w r₀ n r) (hstep : w.step r = some r') :
    (∃ a, w.arrivals.get? (r₀.next + n) = some a ∧ a.time ≤ r.now + RECVTIMEOUT ∧ r₀.Accepts w n ∧
        r'.now = max r.now a.time ∧ LeftWait r₀ r') ∨
      (InWait w r₀ (n + 1) r' ∧ ∃ a, w.arrivals.get? (r₀.next + n) = some a ∧
        a.time ≤ r.now + RECVTIMEOUT ∧ ¬ r₀.Accepts w n ∧ r'.now = max r.now a.time) ∨
      ((∀ a ∈ w.arrivals.get? (r₀.next + n), r.now + RECVTIMEOUT < a.time) ∧
        r'.now = r.now + RECVTIMEOUT ∧ LeftWait r₀ r') := by
  have hpass : (⟨r.tracer.pass.ttl, r.tracer.pass.probe + 1⟩ : Pass) =
      ⟨r₀.tracer.pass.ttl, r₀.tracer.pass.probe + 1⟩ := by rw [h.pass]
  obtain ⟨start_time, hrecv⟩ := step_waiting h.waiting
  obtain rfl := Option.some.inj (hrecv.symm.trans hstep)
  unfold Run.recvfrom
  rw [h.next]
  cases ha : w.arrivals.get? (r₀.next + n) with
  | none => exact .inr (.inr ⟨nofun, rfl, rfl, hpass⟩)
  | some a =>
    dsimp only
    by_cases htime : a.time ≤ r.now + RECVTIMEOUT
    · rw [if_pos htime]
      have haccepts : check r.tracer.pass.port (recvInto recvBufSize r.tracer.recv_buf a.bytes) ↔
          r₀.Accepts w n := by
        unfold Run.Accepts
        rw [bufAfter, ha, ← h.recv_buf, h.pass]
      unfold Run.receive
      dsimp only
      by_cases hc : r₀.Accepts w n
      · rw [if_pos (haccepts.mpr hc)]
        exact .inl ⟨a, rfl, htime, hc, rfl, rfl, hpass⟩
      · rw [if_neg (fun hc' => hc (haccepts.mp hc'))]
        exact .inr (.inl ⟨h.read ha htime hc start_time, a, rfl, htime, hc, rfl⟩)
    · rw [if_neg htime]
      refine .inr (.inr ⟨fun b hb => ?_, rfl, rfl, hpass⟩)
      obtain rfl := Option.some.inj hb
      exact Nat.lt_of_not_le htime

/-- Packets that had arrived when the probe was sent take no time. -/
theorem callBegin_queued (h : ∀ i < n, ∀ a ∈ w.arrivals.get? (r₀.next + i), a.time ≤ r₀.sendTime w) :
    callBegin w r₀.next (r₀.sendTime w) n ≤ r₀.sendTime w :=
  callBegin_le_iff.mpr ⟨Nat.le_refl _, h⟩

/-- A wait that is settled by packet `j` reads no packet behind it. -/
theorem InWait.le (h : InWait w r₀ n r) (hj : r₀.SettledBy w j) : n ≤ j := by
  by_contra hlt
  obtain ⟨a, ha, htime, hno⟩ := h.passed j (by omega)
  rcases hj.2 with ⟨b, _, _, haccepts⟩ | ⟨hlate, hqueued⟩
  · exact hno haccepts
  · have hlate := hlate a ha
    have hbegin := callBegin_queued hqueued
    omega

/-- While the wait goes on, it is within the timeout. -/
theorem InWait.now_le (h : InWait w r₀ n r) (hj : r₀.SettledBy w j) :
    r.now ≤ r₀.sendTime w + RECVTIMEOUT := by
  have hle := h.le hj
  rw [h.now, callBegin_le_iff]
  refine ⟨Nat.le_add_right _ _, fun i hi a ha => ?_⟩
  obtain ⟨b, hb, htime, _⟩ := hj.1 i (by omega)
  obtain rfl := Option.some.inj (ha.symm.trans hb)
  exact htime

/-- And its `recvfrom` returns within the timeout. -/
theorem InWait.step_now_le (h : InWait w r₀ n r) (hj : r₀.SettledBy w j)
    (hstep : w.step r = some r') : r'.now ≤ r₀.sendTime w + RECVTIMEOUT := by
  have hle := h.le hj
  have hnow := h.now_le hj
  have hqueued : n = j → (∀ i < j, ∀ a ∈ w.arrivals.get? (r₀.next + i), a.time ≤ r₀.sendTime w) →
      r.now ≤ r₀.sendTime w := by
    intro hn hqueued
    rw [h.now, hn]
    exact callBegin_queued hqueued
  rcases recvfrom_cases h hstep with
    ⟨a, ha, htime, haccepts, hnow', _⟩ | ⟨h', _⟩ | ⟨hlate, hnow', _⟩
  · rw [hnow']
    apply max_le hnow
    rcases Nat.lt_or_eq_of_le hle with hlt | hn
    · obtain ⟨_, _, _, hno⟩ := hj.1 n hlt
      exact absurd haccepts hno
    · subst hn
      rcases hj.2 with ⟨b, hb, hin, _⟩ | ⟨_, hq⟩
      · obtain rfl := Option.some.inj (ha.symm.trans hb)
        exact hin
      · have hbegin := hqueued rfl hq
        omega
  · exact h'.now_le hj
  · rw [hnow']
    rcases Nat.lt_or_eq_of_le hle with hlt | hn
    · obtain ⟨b, hb, htime, _⟩ := hj.1 n hlt
      have hlate := hlate b hb
      omega
    · subst hn
      rcases hj.2 with ⟨b, hb, htime, _⟩ | ⟨_, hq⟩
      · have hlate := hlate b hb
        omega
      · have hbegin := hqueued rfl hq
        omega

/-- A step of a wait goes on with it or ends it. -/
theorem InWait.step_cases (h : InWait w r₀ n r) (hstep : w.step r = some r') :
    InWait w r₀ (n + 1) r' ∨ LeftWait r₀ r' := by
  rcases recvfrom_cases h hstep with ⟨_, _, _, _, _, hleft⟩ | ⟨hin, _⟩ | ⟨_, _, hleft⟩
  · exact .inr hleft
  · exact .inl hin
  · exact .inr hleft

/-- A wait that is settled is over after finitely many packets. -/
theorem InWait.reaches_left (h : InWait w r₀ n r) (hj : r₀.SettledBy w j) :
    ∃ r', Reaches w.step r r' ∧ LeftWait r₀ r' := by
  induction hm : j - n using Nat.strong_induction_on generalizing n r with
  | _ m ih =>
    have hle := h.le hj
    obtain ⟨start_time, hstep⟩ := step_waiting h.waiting
    rcases h.step_cases hstep with hin | hleft
    · have hle' := hin.le hj
      obtain ⟨r'', hreach, hleft⟩ := ih (j - (n + 1)) (by omega) hin rfl
      exact ⟨r'', hreach.head hstep, hleft⟩
    · exact ⟨_, .single hstep, hleft⟩

/-! ## Between the waits -/

/-- The steps outside a wait. -/
inductive QuietStep (w : World) (r : Run) : Run → Prop where
  | fail (h : r.tracer.phase = .hop ∧ r.tracer.More ∨
        r.tracer.phase = .probe ∧ r.tracer.pass.probe < PROBESPERHOP) :
      QuietStep w r { r with tracer := { r.tracer with phase := .exited } }
  | hop (h : r.tracer.phase = .hop) (hmore : r.tracer.More) :
      QuietStep w r { r with tracer := r.tracer.hop }
  | finish (h : r.tracer.phase = .hop) :
      QuietStep w r { r with tracer := { r.tracer with phase := .done } }
  | send (h : r.Sends w) : QuietStep w r (r.send w)
  | newline (h : r.tracer.phase = .probe) (hprobe : ¬ r.tracer.pass.probe < PROBESPERHOP) :
      QuietStep w r
        { r with
          tracer := { r.tracer with
            phase := .hop
            pass := ⟨r.tracer.pass.ttl + 1, r.tracer.pass.probe⟩
            out := r.tracer.out ++ [.newline] } }

/-- **What a step outside a wait can do.** -/
theorem quiet_step (hquiet : ¬ r.Waiting) (hstep : w.step r = some r') : QuietStep w r r' := by
  unfold World.step at hstep
  split at hstep
  · rename_i hphase
    split at hstep
    · rename_i hmore
      split at hstep
      · obtain rfl := Option.some.inj hstep
        exact .fail (.inl ⟨hphase, hmore⟩)
      · obtain rfl := Option.some.inj hstep
        exact .hop hphase hmore
    · obtain rfl := Option.some.inj hstep
      exact .finish hphase
  · rename_i hphase
    split at hstep
    · rename_i hprobe
      split at hstep
      · obtain rfl := Option.some.inj hstep
        exact .fail (.inr ⟨hphase, hprobe⟩)
      · rename_i hok
        obtain rfl := Option.some.inj hstep
        exact .send ⟨hphase, hprobe, Bool.eq_false_iff.mpr hok⟩
    · rename_i hprobe
      obtain rfl := Option.some.inj hstep
      exact .newline hphase hprobe
  · rename_i hphase
    exact absurd (by rw [Run.Waiting, hphase]; rfl) hquiet
  · cases hstep
  · cases hstep

end NetLab.Trace
