/-
  When `TcpAshish` stops growing its window in slow start.

  `thresholdFound` is set by the delay trigger and never cleared. The trigger itself is safe: it
  sets `ssThresh` to `cWnd`, so the next call runs congestion avoidance, and congestion avoidance
  and the end of fast recovery keep `ssThresh ≤ cWnd`. A retransmission timeout does not: it puts
  `cWnd` at one segment and `ssThresh` at two or more, so the connection is back in slow start with
  the latch set, where `IncreaseWindow` does nothing. It stays there until a fast recovery ends.

  * `Frozen`: slow start with the latch set. Nothing but the end of a fast recovery leaves it
    (`frozen_step`), and `IncreaseWindow` is the identity on it (`increaseWindow_frozen`).
  * `settled_or_stalled`: once the latch is set, the window is not below `ssThresh`, or a timeout
    came after the latch and no fast recovery since.
  * `neverFreezes_iff`: a run makes progress at every call exactly when no call comes in between
    such a timeout and the end of the next fast recovery.
-/
import NetLab.Tcp.Ashish

namespace NetLab.Tcp

open NetLab.Lib

/-! ## The socket's loss reactions -/

/-- What the socket does on a loss. `bytesInFlight` is what `GetSsThresh` is given. -/
inductive Loss where
  | fastRecovery (bytesInFlight : UInt32)
  | timeout (bytesInFlight : UInt32)
deriving DecidableEq, Repr

/-- `TcpNewReno::GetSsThresh`. -/
def getSsThresh (tcb : TcpSocketState) (bytesInFlight : UInt32) : UInt32 :=
  max (2 * tcb.segmentSize) (bytesInFlight / 2)

/-- The window after the end of a fast recovery, and after a retransmission timeout. -/
def Loss.react : Loss → TcpSocketState → TcpSocketState
  | .fastRecovery b, tcb => { tcb with cWnd := getSsThresh tcb b, ssThresh := getSsThresh tcb b }
  | .timeout b, tcb => { tcb with cWnd := tcb.segmentSize, ssThresh := getSsThresh tcb b }

/-- The event is the end of a fast recovery. -/
def Event.IsFastRecovery : Event Loss → Prop
  | .socket (.fastRecovery _) => True
  | _ => False

instance : DecidablePred Event.IsFastRecovery := fun e => by
  unfold Event.IsFastRecovery
  split <;> infer_instance

/-! ## The property, its range and the condition -/

/-- A call of `IncreaseWindow` in slow start raises `cWnd`, or leaves `ssThresh` at `cWnd`. -/
def Progress (c : Conn) : Event Loss → Conn → Prop
  | .increaseWindow _, d =>
    c.tcb.cWnd < c.tcb.ssThresh → c.tcb.cWnd < d.tcb.cWnd ∨ d.tcb.ssThresh = d.tcb.cWnd
  | _, _ => True

instance (c : Conn) (e : Event Loss) (d : Conn) : Decidable (Progress c e d) := by
  unfold Progress
  split <;> infer_instance

/-- Every call of the run makes progress. -/
def NeverFreezes (base : TcpNewReno) (c : Conn) (es : List (Event Loss)) : Prop :=
  (connection base Loss.react).Along Progress c es

instance (base : TcpNewReno) (c : Conn) (es : List (Event Loss)) :
    Decidable (NeverFreezes base c es) :=
  inferInstanceAs (Decidable (Machine.Along _ _ _ _))

/-- Neither kind of growth wraps around from this state: the window stays below
    `2^32 - segmentSize`, and so does what congestion avoidance makes of it below `2^32`. -/
def TcpSocketState.NoWrap (tcb : TcpSocketState) : Prop :=
  tcb.cWnd.toNat + tcb.segmentSize.toNat < 2 ^ 32 ∧
    (¬ tcb.cWnd < tcb.ssThresh → tcb.cWnd.toNat + TcpNewReno.adder tcb < 2 ^ 32)

instance (tcb : TcpSocketState) : Decidable tcb.NoWrap := by
  unfold TcpSocketState.NoWrap
  infer_instance

/-- Every state the run visits is one from which growth does not wrap around. -/
def InRange (base : TcpNewReno) (c : Conn) (es : List (Event Loss)) : Prop :=
  ∀ p, p <+: es → (after base Loss.react c p).tcb.NoWrap

/-- After `es`, a timeout came while the latch was set and no fast recovery has ended since. -/
def Stalled (base : TcpNewReno) (c : Conn) (es : List (Event Loss)) : Prop :=
  ∃ p b q, es = p ++ .socket (.timeout b) :: q ∧
    (after base Loss.react c p).cc.thresholdFound = true ∧ ∀ e ∈ q, ¬ e.IsFastRecovery

/-- Some call of the run comes while it is stalled. -/
def StalledCall (base : TcpNewReno) (c : Conn) (es : List (Event Loss)) : Prop :=
  ∃ p n q, es = p ++ .increaseWindow n :: q ∧ Stalled base c p

/-! ## Frozen states -/

/-- Slow start with the latch set. -/
def Frozen (c : Conn) : Prop :=
  c.cc.thresholdFound = true ∧ c.tcb.cWnd < c.tcb.ssThresh

/-- `IncreaseWindow` does nothing on a frozen connection. -/
theorem increaseWindow_frozen {base : TcpNewReno} {react : Loss → TcpSocketState → TcpSocketState}
    {c : Conn} (h : Frozen c) (n : UInt32) : step base react c (.increaseWindow n) = c := by
  simp only [step, TcpAshish.increaseWindow_latched h.2 h.1]

theorem two_segments_le (tcb : TcpSocketState) (b : UInt32) :
    2 * tcb.segmentSize ≤ getSsThresh tcb b := by
  unfold getSsThresh
  show _ ≤ (if _ then _ else _)
  split
  · assumption
  · exact UInt32.le_refl _

/-- With room for two segments, a timeout leaves the window below `ssThresh`. -/
theorem timeout_lt {tcb : TcpSocketState} (b : UInt32) (hseg : 0 < tcb.segmentSize)
    (hroom : tcb.segmentSize.toNat + tcb.segmentSize.toNat < 2 ^ 32) :
    (Loss.react (.timeout b) tcb).cWnd < (Loss.react (.timeout b) tcb).ssThresh := by
  have htwo : (2 * tcb.segmentSize).toNat = 2 * tcb.segmentSize.toNat := by
    rw [UInt32.toNat_mul, show (2 : UInt32).toNat = 2 from rfl]
    exact Nat.mod_eq_of_lt (by omega)
  have hle := two_segments_le tcb b
  rw [UInt32.le_iff_toNat_le, htwo] at hle
  rw [UInt32.lt_iff_toNat_lt, show (0 : UInt32).toNat = 0 from rfl] at hseg
  show tcb.segmentSize < getSsThresh tcb b
  rw [UInt32.lt_iff_toNat_lt]
  omega

theorem segmentSize_step {base : TcpNewReno} (hidle : base.PktsAckedIdle)
    (hadd : base.AvoidanceAdds) (c : Conn) (e : Event Loss) :
    (step base Loss.react c e).tcb.segmentSize = c.tcb.segmentSize := by
  cases e with
  | pktsAcked n rtt => simp only [step, hidle c.tcb n rtt]
  | increaseWindow n => exact c.cc.increaseWindow_segmentSize hadd c.tcb n
  | socket r => cases r <;> rfl

theorem segmentSize_after {base : TcpNewReno} (hidle : base.PktsAckedIdle)
    (hadd : base.AvoidanceAdds) (c : Conn) (es : List (Event Loss)) :
    (after base Loss.react c es).tcb.segmentSize = c.tcb.segmentSize := by
  induction es generalizing c with
  | nil => rfl
  | cons e es ih =>
    rw [after_cons, ih, segmentSize_step hidle hadd]

/-- Only the end of a fast recovery leaves the frozen states. -/
theorem frozen_step {base : TcpNewReno} (hidle : base.PktsAckedIdle) {c : Conn}
    (hseg : 0 < c.tcb.segmentSize)
    (hroom : c.tcb.segmentSize.toNat + c.tcb.segmentSize.toNat < 2 ^ 32) (h : Frozen c)
    {e : Event Loss} (he : ¬ e.IsFastRecovery) : Frozen (step base Loss.react c e) := by
  cases e with
  | pktsAcked n rtt =>
    refine ⟨?_, ?_⟩
    · exact (TcpAshish.pktsAcked_thresholdFound c.cc rtt).trans h.1
    · simp only [step, hidle c.tcb n rtt]
      exact h.2
  | increaseWindow n => rwa [increaseWindow_frozen h n]
  | socket r =>
    cases r with
    | fastRecovery b => exact absurd trivial he
    | timeout b => exact ⟨h.1, timeout_lt b hseg hroom⟩

theorem frozen_after {base : TcpNewReno} (hidle : base.PktsAckedIdle) (hadd : base.AvoidanceAdds)
    {c : Conn} (hseg : 0 < c.tcb.segmentSize)
    (hroom : c.tcb.segmentSize.toNat + c.tcb.segmentSize.toNat < 2 ^ 32) (h : Frozen c)
    {es : List (Event Loss)} (hes : ∀ e ∈ es, ¬ e.IsFastRecovery) :
    Frozen (after base Loss.react c es) := by
  induction es generalizing c with
  | nil => exact h
  | cons e es ih =>
    have hstep := frozen_step hidle hseg hroom h (hes e List.mem_cons_self)
    have hkeep := segmentSize_step hidle hadd c e
    rw [after_cons]
    exact ih (by rw [hkeep]; exact hseg) (by rw [hkeep]; exact hroom) hstep
      fun f hf => hes f (List.mem_cons_of_mem e hf)

/-- A stalled run is in a frozen state. -/
theorem frozen_of_stalled {base : TcpNewReno} (hidle : base.PktsAckedIdle)
    (hadd : base.AvoidanceAdds) {c : Conn} (hseg : 0 < c.tcb.segmentSize)
    {es : List (Event Loss)} (hrange : InRange base c es) (h : Stalled base c es) :
    Frozen (after base Loss.react c es) := by
  obtain ⟨p, b, q, rfl, hfound, hq⟩ := h
  set d := after base Loss.react c p
  have hsegd : d.tcb.segmentSize = c.tcb.segmentSize := segmentSize_after hidle hadd c p
  set e := step base Loss.react d (.socket (.timeout b))
  have hwin : e.tcb.NoWrap := by
    have := hrange (p ++ [.socket (.timeout b)]) ⟨q, by simp⟩
    rwa [after_concat] at this
  -- the window of `e` is one segment, so the range leaves room for two
  have hroom : d.tcb.segmentSize.toNat + d.tcb.segmentSize.toNat < 2 ^ 32 := hwin.1
  have hfrozen : Frozen e := ⟨hfound, timeout_lt b (hsegd ▸ hseg) hroom⟩
  rw [after_append, after_cons]
  exact frozen_after hidle hadd (c := e) (hsegd ▸ hseg) hroom hfrozen hq

/-! ## After the latch -/

theorem Stalled.concat {base : TcpNewReno} {c : Conn} {es : List (Event Loss)}
    (h : Stalled base c es) {e : Event Loss} (he : ¬ e.IsFastRecovery) :
    Stalled base c (es ++ [e]) := by
  obtain ⟨p, b, q, rfl, hfound, hq⟩ := h
  refine ⟨p, b, q ++ [e], by simp, hfound, fun f hf => ?_⟩
  rcases List.mem_append.mp hf with hf | hf
  · exact hq f hf
  · exact List.mem_singleton.mp hf ▸ he

/-- Congestion avoidance does not lower a window that has room to grow. -/
theorem avoidance_le {base : TcpNewReno} (hadd : base.AvoidanceAdds) {tcb : TcpSocketState}
    (hs : ¬ tcb.cWnd < tcb.ssThresh) (hwrap : tcb.NoWrap) (n : UInt32) :
    tcb.cWnd ≤ (base.increaseWindow tcb n).cWnd := by
  rw [hadd tcb n hs]
  split
  · have hsum := hwrap.2 hs
    have hlt : TcpNewReno.adder tcb < 2 ^ 32 := by omega
    rw [UInt32.le_iff_toNat_le, UInt32.toNat_add, UInt32.toNat_ofNat_of_lt' hlt,
      Nat.mod_eq_of_lt hsum]
    exact Nat.le_add_right _ _
  · exact UInt32.le_refl _

/-- One step: once the latch is set, the window is not below `ssThresh` or the run is stalled. -/
theorem settled_or_stalled_step {base : TcpNewReno} (hidle : base.PktsAckedIdle)
    (hadd : base.AvoidanceAdds) {c : Conn} {es : List (Event Loss)} {e : Event Loss}
    (hwrap : (after base Loss.react c es).tcb.NoWrap)
    (ih : (after base Loss.react c es).cc.thresholdFound = true →
      ¬ (after base Loss.react c es).tcb.cWnd < (after base Loss.react c es).tcb.ssThresh ∨
        Stalled base c es)
    (hfound : (after base Loss.react c (es ++ [e])).cc.thresholdFound = true) :
    ¬ (after base Loss.react c (es ++ [e])).tcb.cWnd <
        (after base Loss.react c (es ++ [e])).tcb.ssThresh ∨
      Stalled base c (es ++ [e]) := by
  rw [after_concat] at hfound ⊢
  set d := after base Loss.react c es with hd
  cases e with
  | pktsAcked n rtt =>
    have hf : d.cc.thresholdFound = true := by
      rw [← TcpAshish.pktsAcked_thresholdFound d.cc rtt]
      exact hfound
    rcases ih hf with hs | hs
    · left
      simp only [step, hidle d.tcb n rtt]
      exact hs
    · exact .inr (hs.concat id)
  | increaseWindow n =>
    rw [step] at hfound ⊢
    rcases d.cc.increaseWindow_cases base d.tcb n with
      ⟨hs, he⟩ | ⟨hs, hf, he⟩ | ⟨_, _, _, he⟩ | ⟨_, hf, _, he⟩ <;> rw [he] at hfound ⊢
    · left
      show ¬ (base.increaseWindow d.tcb n).cWnd < (base.increaseWindow d.tcb n).ssThresh
      rw [hadd.keepsSsThresh d.tcb n hs]
      exact UInt32.not_lt.mpr (UInt32.le_trans (UInt32.not_lt.mp hs) (avoidance_le hadd hs hwrap n))
    · exact .inr (((ih hf).resolve_left (not_not_intro hs)).concat id)
    · exact .inl (UInt32.lt_irrefl _)
    · rw [hf] at hfound
      cases hfound
  | socket r =>
    cases r with
    | fastRecovery b => exact .inl (UInt32.lt_irrefl _)
    | timeout b => exact .inr ⟨es, b, [], rfl, hfound, by simp⟩

theorem settled_or_stalled {base : TcpNewReno} (hidle : base.PktsAckedIdle)
    (hadd : base.AvoidanceAdds) {c : Conn} (hfresh : c.cc = TcpAshish.init)
    (es : List (Event Loss)) (hrange : InRange base c es)
    (hfound : (after base Loss.react c es).cc.thresholdFound = true) :
    ¬ (after base Loss.react c es).tcb.cWnd < (after base Loss.react c es).tcb.ssThresh ∨
      Stalled base c es := by
  induction es using List.reverseRecOn with
  | nil =>
    have : c.cc.thresholdFound = true := hfound
    rw [hfresh] at this
    cases this
  | append_singleton es e ih =>
    have hpre : InRange base c es := fun p hp => hrange p (hp.trans (List.prefix_append es [e]))
    exact settled_or_stalled_step hidle hadd (hpre es (List.prefix_refl es)) (ih hpre) hfound

/-! ## The whole run -/

/-- A call made with the latch clear raises the window or triggers. -/
theorem progress_of_clear {base : TcpNewReno} {react : Loss → TcpSocketState → TcpSocketState}
    {c : Conn} (hf : c.cc.thresholdFound = false) (hseg : 0 < c.tcb.segmentSize)
    (hwrap : c.tcb.NoWrap) (n : UInt32) :
    Progress c (.increaseWindow n) (step base react c (.increaseWindow n)) := by
  intro hs
  rw [step]
  by_cases hx : c.cc.DelayExceeded
  · right
    rw [TcpAshish.increaseWindow_trigger hs hf hx]
  · left
    rw [TcpAshish.increaseWindow_slowStart hs hf hx]
    show c.tcb.cWnd < c.tcb.cWnd + c.tcb.segmentSize
    rw [UInt32.lt_iff_toNat_lt, UInt32.toNat_add, Nat.mod_eq_of_lt hwrap.1]
    exact Nat.lt_add_of_pos_right (UInt32.lt_iff_toNat_lt.mp hseg)

/-- A call made on a frozen connection makes no progress. -/
theorem not_progress_of_frozen {base : TcpNewReno}
    {react : Loss → TcpSocketState → TcpSocketState} {c : Conn} (h : Frozen c) (n : UInt32) :
    ¬ Progress c (.increaseWindow n) (step base react c (.increaseWindow n)) := by
  rw [increaseWindow_frozen h n]
  intro hcall
  rcases hcall h.2 with hlt | heq
  · exact UInt32.lt_irrefl _ hlt
  · exact absurd h.2 (by rw [heq]; exact UInt32.lt_irrefl _)

/-- **Progress of a run.** A fresh connection makes progress at every call of `IncreaseWindow`
    exactly when no call comes between a retransmission timeout that followed the trigger and the
    end of the next fast recovery. -/
theorem neverFreezes_iff (base : TcpNewReno) (hidle : base.PktsAckedIdle)
    (hadd : base.AvoidanceAdds) (c : Conn) (hfresh : c.cc = TcpAshish.init)
    (hseg : 0 < c.tcb.segmentSize) (es : List (Event Loss)) (hrange : InRange base c es) :
    NeverFreezes base c es ↔ ¬ StalledCall base c es := by
  unfold NeverFreezes connection
  rw [Machine.along_ofFun_iff]
  constructor
  · rintro hall ⟨p, n, q, rfl, hstalled⟩
    have hp : InRange base c p := fun r hr => hrange r (hr.trans (List.prefix_append p _))
    exact not_progress_of_frozen (frozen_of_stalled hidle hadd hseg hp hstalled) n
      (hall p (.increaseWindow n) q rfl)
  · rintro hno pre e post rfl
    have hp : InRange base c pre := fun r hr => hrange r (hr.trans (List.prefix_append pre _))
    cases e with
    | pktsAcked n rtt => trivial
    | socket r => trivial
    | increaseWindow n =>
      intro hs
      have hf : (after base Loss.react c pre).cc.thresholdFound = false := by
        by_contra hf
        rw [Bool.not_eq_false] at hf
        rcases settled_or_stalled hidle hadd hfresh pre hp hf with h | h
        · exact h hs
        · exact hno ⟨pre, n, post, rfl, h⟩
      have hsegd : 0 < (after base Loss.react c pre).tcb.segmentSize :=
        (segmentSize_after hidle hadd c pre).symm ▸ hseg
      exact progress_of_clear hf hsegd (hp pre (List.prefix_refl pre)) n hs

/-- The trigger fires at the first call, then a timeout and a fast recovery, then a call. -/
def recoveredRun : List (Event Loss) :=
  [.pktsAcked 1 10000000, .pktsAcked 1 15000000, .increaseWindow 1, .socket (.timeout 5360),
    .socket (.fastRecovery 5360), .increaseWindow 1]

/-- The same without the fast recovery. -/
def frozenRun : List (Event Loss) :=
  [.pktsAcked 1 10000000, .pktsAcked 1 15000000, .increaseWindow 1, .socket (.timeout 5360),
    .increaseWindow 1]

theorem recoveredRun_progress :
    NeverFreezes newReno opening recoveredRun ↔ ¬ StalledCall newReno opening recoveredRun :=
  neverFreezes_iff newReno newReno_pktsAckedIdle newReno_avoidanceAdds opening rfl (by decide)
    recoveredRun fun p hp => by
      rw [← List.mem_inits] at hp
      revert p
      decide

/-- After the trigger and a timeout the next call leaves both variables as they are. -/
theorem frozenRun_freezes :
    InRange newReno opening frozenRun ∧ ¬ NeverFreezes newReno opening frozenRun := by
  refine ⟨fun p hp => ?_, by decide⟩
  rw [← List.mem_inits] at hp
  revert p
  decide

end NetLab.Tcp
