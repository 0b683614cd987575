/-
  `TcpAshish`, the congestion control of Assignment8/as8_que1.cc (lines 20-78), and the connection
  it runs on.

  The class keeps three fields next to those of `TcpNewReno`: the smallest round-trip time seen
  (`delayMin`, `Time::Max` before the first sample), the last one (`currRtt`) and a latch
  (`thresholdFound`). `PktsAcked` feeds the first two; `IncreaseWindow` re-implements slow start
  with the HyStart delay test and leaves congestion avoidance to `TcpNewReno`.

  What is outside the repository: `TcpNewReno` is a parameter (`TcpNewReno`, its two hooks that
  `TcpAshish` calls), and the socket that owns the `TcpSocketState` is the event `socket`, with an
  interpretation `react` of its reactions. What ns-3 documents of the two hooks is stated as
  predicates on the parameter (`PktsAckedIdle`, `AvoidanceKeepsSsThresh`, `AvoidanceAdds`) and
  assumed by the theorem that needs it. `newReno` is a concrete pair of hooks that meets all three.
-/
import NetLab.Lib.Machine

namespace NetLab.Tcp

open NetLab.Lib

/-! ## ns-3 types -/

/-- ns-3 `Time`: signed 64-bit nanoseconds. -/
abbrev Time := Int64

/-- `Time::Max ()`. -/
def timeMax : Time := Int64.maxValue

/-- `MilliSeconds (ms)`. -/
def milliSeconds (ms : Int64) : Time := ms * 1000000

/-- The fields of `TcpSocketState` that the window code reads or writes. -/
structure TcpSocketState where
  cWnd : UInt32
  ssThresh : UInt32
  segmentSize : UInt32
deriving DecidableEq, Repr

/-- The two hooks of ns-3's `TcpNewReno` that `TcpAshish` calls. -/
structure TcpNewReno where
  pktsAcked : TcpSocketState → UInt32 → Time → TcpSocketState
  increaseWindow : TcpSocketState → UInt32 → TcpSocketState

/-! ## The class -/

structure TcpAshish where
  delayMin : Time
  currRtt : Time
  thresholdFound : Bool
deriving DecidableEq, Repr

namespace TcpAshish

/-- `TcpAshish ()`. `m_currRtt` has the default `Time ()`, which is zero. -/
def init : TcpAshish := ⟨timeMax, 0, false⟩

/-- The copy constructor, which `Fork` calls. -/
def fork (sock : TcpAshish) : TcpAshish :=
  ⟨sock.delayMin, sock.currRtt, sock.thresholdFound⟩

/-- A forked control goes on where its original stands, latch included. -/
theorem fork_eq (sock : TcpAshish) : sock.fork = sock := rfl

/-- What `PktsAcked` does to the fields of the class. -/
def pktsAcked (cc : TcpAshish) (rtt : Time) : TcpAshish :=
  if 0 < rtt then
    { cc with
      delayMin := if cc.delayMin = timeMax ∨ rtt < cc.delayMin then rtt else cc.delayMin
      currRtt := rtt }
  else cc

/-- `IncreaseWindow`. -/
def increaseWindow (base : TcpNewReno) (cc : TcpAshish) (tcb : TcpSocketState)
    (segmentsAcked : UInt32) : TcpAshish × TcpSocketState :=
  if tcb.cWnd < tcb.ssThresh then
    let (cc, tcb) :=
      if cc.thresholdFound = false ∧ cc.delayMin ≠ timeMax then
        let threshold := milliSeconds 4
        if cc.currRtt > cc.delayMin + threshold then
          ({ cc with thresholdFound := true }, { tcb with ssThresh := tcb.cWnd })
        else (cc, tcb)
      else (cc, tcb)
    if cc.thresholdFound = false then
      (cc, { tcb with cWnd := tcb.cWnd + tcb.segmentSize })
    else (cc, tcb)
  else (cc, base.increaseWindow tcb segmentsAcked)

/-- The delay test of `IncreaseWindow`: a sample was seen, and the last one is above the smallest
    by more than the threshold. -/
def DelayExceeded (cc : TcpAshish) : Prop :=
  cc.delayMin ≠ timeMax ∧ cc.currRtt > cc.delayMin + milliSeconds 4

instance (cc : TcpAshish) : Decidable cc.DelayExceeded :=
  inferInstanceAs (Decidable (_ ∧ _))

theorem pktsAcked_thresholdFound (cc : TcpAshish) (rtt : Time) :
    (cc.pktsAcked rtt).thresholdFound = cc.thresholdFound := by
  unfold pktsAcked
  split <;> rfl

/-! The four ways through `IncreaseWindow`. -/

variable {base : TcpNewReno} {cc : TcpAshish} {tcb : TcpSocketState} {n : UInt32}

theorem increaseWindow_avoidance (h : ¬ tcb.cWnd < tcb.ssThresh) :
    cc.increaseWindow base tcb n = (cc, base.increaseWindow tcb n) := by
  simp only [increaseWindow, if_neg h]

theorem increaseWindow_latched (h : tcb.cWnd < tcb.ssThresh) (hf : cc.thresholdFound = true) :
    cc.increaseWindow base tcb n = (cc, tcb) := by
  simp [increaseWindow, h, hf]

theorem increaseWindow_trigger (h : tcb.cWnd < tcb.ssThresh) (hf : cc.thresholdFound = false)
    (hd : cc.DelayExceeded) :
    cc.increaseWindow base tcb n =
      ({ cc with thresholdFound := true }, { tcb with ssThresh := tcb.cWnd }) := by
  obtain ⟨hmin, hrtt⟩ := hd
  simp only [increaseWindow, if_pos h, hf, if_pos hrtt, ne_eq, hmin, not_false_eq_true, and_self,
    if_true, Bool.true_eq_false, if_false]

theorem increaseWindow_slowStart (h : tcb.cWnd < tcb.ssThresh) (hf : cc.thresholdFound = false)
    (hd : ¬ cc.DelayExceeded) :
    cc.increaseWindow base tcb n = (cc, { tcb with cWnd := tcb.cWnd + tcb.segmentSize }) := by
  simp only [increaseWindow, if_pos h, hf, true_and]
  by_cases hmin : cc.delayMin = timeMax
  · simp [hmin, hf]
  · have hrtt : ¬ cc.currRtt > cc.delayMin + milliSeconds 4 := fun hr => hd ⟨hmin, hr⟩
    simp only [ne_eq, hmin, not_false_eq_true, if_true, if_neg hrtt, hf]

/-- What a call of `IncreaseWindow` can do. -/
theorem increaseWindow_cases (base : TcpNewReno) (cc : TcpAshish) (tcb : TcpSocketState)
    (n : UInt32) :
    (¬ tcb.cWnd < tcb.ssThresh ∧
      cc.increaseWindow base tcb n = (cc, base.increaseWindow tcb n)) ∨
    (tcb.cWnd < tcb.ssThresh ∧ cc.thresholdFound = true ∧
      cc.increaseWindow base tcb n = (cc, tcb)) ∨
    (tcb.cWnd < tcb.ssThresh ∧ cc.thresholdFound = false ∧ cc.DelayExceeded ∧
      cc.increaseWindow base tcb n =
        ({ cc with thresholdFound := true }, { tcb with ssThresh := tcb.cWnd })) ∨
    (tcb.cWnd < tcb.ssThresh ∧ cc.thresholdFound = false ∧ ¬ cc.DelayExceeded ∧
      cc.increaseWindow base tcb n = (cc, { tcb with cWnd := tcb.cWnd + tcb.segmentSize })) := by
  by_cases hs : tcb.cWnd < tcb.ssThresh
  · cases hf : cc.thresholdFound with
    | true => exact .inr (.inl ⟨hs, rfl, increaseWindow_latched hs hf⟩)
    | false =>
      by_cases hd : cc.DelayExceeded
      · exact .inr (.inr (.inl ⟨hs, rfl, hd, increaseWindow_trigger hs hf hd⟩))
      · exact .inr (.inr (.inr ⟨hs, rfl, hd, increaseWindow_slowStart hs hf hd⟩))
  · exact .inl ⟨hs, increaseWindow_avoidance hs⟩

end TcpAshish

/-! ## What ns-3 documents of `TcpNewReno` -/

namespace TcpNewReno

/-- The window increment of congestion avoidance, `max (1, ⌊segmentSize² / cWnd⌋)`. -/
def adder (tcb : TcpSocketState) : Nat :=
  max 1 (tcb.segmentSize.toNat * tcb.segmentSize.toNat / tcb.cWnd.toNat)

/-- A window of at least one segment grows by at most one segment, or by one byte. -/
theorem adder_le {tcb : TcpSocketState} (h : tcb.segmentSize ≤ tcb.cWnd) :
    adder tcb ≤ max 1 tcb.segmentSize.toNat := by
  have hdiv : tcb.segmentSize.toNat * tcb.segmentSize.toNat / tcb.cWnd.toNat ≤
      tcb.segmentSize.toNat :=
    Nat.div_le_of_le_mul (Nat.mul_le_mul_right _ (UInt32.le_iff_toNat_le.mp h))
  exact max_le_max (Nat.le_refl 1) hdiv

/-- `PktsAcked` is an empty hook. -/
def PktsAckedIdle (base : TcpNewReno) : Prop :=
  ∀ tcb n rtt, base.pktsAcked tcb n rtt = tcb

/-- Congestion avoidance does not write `ssThresh`. -/
def AvoidanceKeepsSsThresh (base : TcpNewReno) : Prop :=
  ∀ tcb n, ¬ tcb.cWnd < tcb.ssThresh → (base.increaseWindow tcb n).ssThresh = tcb.ssThresh

/-- Congestion avoidance adds `adder` to a 32-bit window where segments were acked, and touches
    nothing else. -/
def AvoidanceAdds (base : TcpNewReno) : Prop :=
  ∀ tcb n, ¬ tcb.cWnd < tcb.ssThresh →
    base.increaseWindow tcb n =
      if 0 < n then { tcb with cWnd := tcb.cWnd + UInt32.ofNat (adder tcb) } else tcb

theorem AvoidanceAdds.keepsSsThresh {base : TcpNewReno} (h : base.AvoidanceAdds) :
    base.AvoidanceKeepsSsThresh := by
  intro tcb n htcb
  rw [h tcb n htcb]
  split <;> rfl

end TcpNewReno

/-- No way through `IncreaseWindow` writes the segment size. -/
theorem TcpAshish.increaseWindow_segmentSize {base : TcpNewReno} (hadd : base.AvoidanceAdds)
    (cc : TcpAshish) (tcb : TcpSocketState) (n : UInt32) :
    (cc.increaseWindow base tcb n).2.segmentSize = tcb.segmentSize := by
  rcases cc.increaseWindow_cases base tcb n with
    ⟨hs, he⟩ | ⟨_, _, he⟩ | ⟨_, _, _, he⟩ | ⟨_, _, _, he⟩ <;> rw [he]
  show (base.increaseWindow tcb n).segmentSize = tcb.segmentSize
  rw [hadd tcb n hs]
  split <;> rfl

/-- `TcpNewReno::SlowStart`: one segment for an ack of at least one, which it uses up. -/
def slowStart (tcb : TcpSocketState) (n : UInt32) : TcpSocketState × UInt32 :=
  if 0 < n then ({ tcb with cWnd := tcb.cWnd + tcb.segmentSize }, n - 1) else (tcb, 0)

/-- `TcpNewReno::CongestionAvoidance`. -/
def congestionAvoidance (tcb : TcpSocketState) (n : UInt32) : TcpSocketState :=
  if 0 < n then { tcb with cWnd := tcb.cWnd + UInt32.ofNat (TcpNewReno.adder tcb) } else tcb

/-- The hooks as ns-3 documents them. -/
def newReno : TcpNewReno where
  pktsAcked tcb _ _ := tcb
  increaseWindow tcb n :=
    let (tcb, n) := if tcb.cWnd < tcb.ssThresh then slowStart tcb n else (tcb, n)
    if tcb.cWnd < tcb.ssThresh then tcb else congestionAvoidance tcb n

theorem newReno_pktsAckedIdle : newReno.PktsAckedIdle := fun _ _ _ => rfl

theorem newReno_avoidanceAdds : newReno.AvoidanceAdds := by
  intro tcb n h
  simp only [newReno, if_neg h, congestionAvoidance]

/-! ## A connection -/

/-- One connection: the fields of the class and the socket's state. -/
structure Conn where
  cc : TcpAshish
  tcb : TcpSocketState
deriving DecidableEq, Repr

/-- A connection as it leaves the handshake: ten segments of 536 bytes, no threshold yet. -/
def opening : Conn := ⟨TcpAshish.init, ⟨5360, 4294967295, 536⟩⟩

/-- What happens to a connection: the socket calls a hook of the class, or changes its own state
    behind the class's back. `ρ` is the type of the socket's reactions. -/
inductive Event (ρ : Type) where
  | pktsAcked (segmentsAcked : UInt32) (rtt : Time)
  | increaseWindow (segmentsAcked : UInt32)
  | socket (reaction : ρ)
deriving DecidableEq, Repr

variable {ρ : Type}

def step (base : TcpNewReno) (react : ρ → TcpSocketState → TcpSocketState) (c : Conn) :
    Event ρ → Conn
  | .pktsAcked n rtt => ⟨c.cc.pktsAcked rtt, base.pktsAcked c.tcb n rtt⟩
  | .increaseWindow n =>
    let (cc, tcb) := c.cc.increaseWindow base c.tcb n
    ⟨cc, tcb⟩
  | .socket r => ⟨c.cc, react r c.tcb⟩

/-- The connection after a list of events. -/
def after (base : TcpNewReno) (react : ρ → TcpSocketState → TcpSocketState) (c : Conn)
    (es : List (Event ρ)) : Conn :=
  es.foldl (step base react) c

/-- The connection as a machine. Every event is enabled in every state. -/
def connection (base : TcpNewReno) (react : ρ → TcpSocketState → TcpSocketState) :
    Machine Conn (Event ρ) :=
  .ofFun (step base react)

theorem after_append (base : TcpNewReno) (react : ρ → TcpSocketState → TcpSocketState) (c : Conn)
    (es fs : List (Event ρ)) :
    after base react c (es ++ fs) = after base react (after base react c es) fs :=
  List.foldl_append

theorem after_concat (base : TcpNewReno) (react : ρ → TcpSocketState → TcpSocketState) (c : Conn)
    (es : List (Event ρ)) (e : Event ρ) :
    after base react c (es ++ [e]) = step base react (after base react c es) e := by
  rw [after_append]
  rfl

theorem after_cons (base : TcpNewReno) (react : ρ → TcpSocketState → TcpSocketState) (c : Conn)
    (e : Event ρ) (es : List (Event ρ)) :
    after base react c (e :: es) = after base react (step base react c e) es := rfl

/-! ## Statements about the events of a run -/

/-- `P` holds of every part of the run up to some event. -/
def Throughout (P : List (Event ρ) → Prop) (es : List (Event ρ)) : Prop :=
  ∀ p q, es = p ++ q → P p

/-- `P` holds at every call of `IncreaseWindow`, of the events before it and the segments acked. -/
def AtCalls (P : List (Event ρ) → UInt32 → Prop) (es : List (Event ρ)) : Prop :=
  ∀ p n q, es = p ++ .increaseWindow n :: q → P p n

theorem throughout_concat {P : List (Event ρ) → Prop} {es : List (Event ρ)} {e : Event ρ} :
    Throughout P (es ++ [e]) ↔ Throughout P es ∧ P (es ++ [e]) := by
  constructor
  · intro h
    exact ⟨fun p q hpq => h p (q ++ [e]) (by rw [hpq, List.append_assoc]),
      h _ [] (List.append_nil _).symm⟩
  · intro ⟨h, hlast⟩ p q hpq
    rcases List.eq_nil_or_concat q with rfl | ⟨q, f, rfl⟩
    · rw [List.append_nil] at hpq
      exact hpq ▸ hlast
    · rw [List.concat_eq_append, ← List.append_assoc] at hpq
      exact h p q (List.append_singleton_inj.mp hpq).1

/-- A run's last event is none of the calls before it. -/
theorem atCalls_concat {P : List (Event ρ) → UInt32 → Prop} {es : List (Event ρ)} {e : Event ρ} :
    AtCalls P (es ++ [e]) ↔ AtCalls P es ∧ ∀ n, e = .increaseWindow n → P es n := by
  constructor
  · intro h
    refine ⟨fun p n q hpq => h p n (q ++ [e]) ?_, fun n he => h es n [] (by rw [he])⟩
    rw [hpq, List.append_assoc, List.cons_append]
  · intro ⟨h, hlast⟩ p n q hpq
    rcases List.eq_nil_or_concat q with rfl | ⟨q, f, rfl⟩
    · obtain ⟨rfl, he⟩ := List.append_singleton_inj.mp hpq
      exact hlast n he
    · rw [List.concat_eq_append, ← List.cons_append, ← List.append_assoc] at hpq
      exact h p n q (List.append_singleton_inj.mp hpq).1

theorem atCalls_concat_call {P : List (Event ρ) → UInt32 → Prop} {es : List (Event ρ)}
    {n : UInt32} : AtCalls P (es ++ [.increaseWindow n]) ↔ AtCalls P es ∧ P es n := by
  simp only [atCalls_concat, Event.increaseWindow.injEq, forall_eq']

theorem atCalls_concat_of_not_call {P : List (Event ρ) → UInt32 → Prop} {es : List (Event ρ)}
    {e : Event ρ} (he : ∀ n, e ≠ .increaseWindow n) : AtCalls P (es ++ [e]) ↔ AtCalls P es := by
  rw [atCalls_concat]
  exact and_iff_left fun n h => absurd h (he n)

end NetLab.Tcp
