/-
  `TcpAshish` is never ahead of `TcpNewReno`.

  Both controls get the same acks and the same losses, from the same state. The delay trigger ends
  slow start early, the latch may hold the window where it is, and an ack of several segments counts
  as one; so the window of `TcpAshish` stays at or below that of `TcpNewReno`, whatever round-trip
  times it sees. In slow start with the latch clear the two sockets are the same; past it the one
  that is ahead stays ahead, since congestion avoidance keeps the order of windows.

  * `avoidance_mono`: what congestion avoidance makes of a window of at least a segment grows with
    the window.
  * `Behind`: the invariant; `behind_call` for a call, `behind_loss` for a loss.
  * `dominated`: every run.
-/
import NetLab.Tcp.Refinement
import NetLab.Tcp.Growth

namespace NetLab.Tcp

open NetLab.Lib

/-! ## Congestion avoidance keeps the order -/

/-- One byte more of window costs one byte of the increment at most. -/
theorem div_le_div_succ_add_one {s y : Nat} (h : s ≤ y) : s * s / y ≤ s * s / (y + 1) + 1 := by
  rcases Nat.eq_zero_or_pos y with rfl | hy
  · obtain rfl := Nat.le_zero.mp h
    decide
  have hq : s * s / y ≤ y := Nat.div_le_of_le_mul (Nat.mul_le_mul h h)
  have hmul : s * s / y * y ≤ s * s := Nat.div_mul_le_self _ _
  rcases Nat.eq_zero_or_pos (s * s / y) with hzero | hpos
  · rw [hzero]
    exact Nat.zero_le _
  · obtain ⟨q, hq'⟩ := Nat.exists_eq_add_of_lt hpos
    rw [Nat.zero_add] at hq'
    rw [hq'] at hq hmul ⊢
    refine Nat.add_le_add_right ((Nat.le_div_iff_mul_le (Nat.succ_pos y)).mpr ?_) 1
    calc q * (y + 1) = q * y + q := Nat.mul_succ q y
      _ ≤ q * y + y := by omega
      _ = (q + 1) * y := (Nat.succ_mul q y).symm
      _ ≤ s * s := hmul

/-- **Congestion avoidance keeps the order of windows.** -/
theorem avoidance_mono {s x y : Nat} (hs : s ≤ x) (h : x ≤ y) :
    x + max 1 (s * s / x) ≤ y + max 1 (s * s / y) := by
  induction y, h using Nat.le_induction with
  | base => exact Nat.le_refl _
  | succ y hxy ih =>
    have hdiv := div_le_div_succ_add_one (hs.trans hxy)
    omega

/-! ## One call of `TcpNewReno` -/

/-- Two segments more fit 32 bits. -/
def TcpSocketState.RoomForTwo (tcb : TcpSocketState) : Prop :=
  tcb.cWnd.toNat + 2 * tcb.segmentSize.toNat < 2 ^ 32

instance (tcb : TcpSocketState) : Decidable tcb.RoomForTwo := inferInstanceAs (Decidable (_ < _))

variable {tcb : TcpSocketState} {n : UInt32}

theorem grown_toNat (hroom : tcb.RoomForTwo) :
    tcb.grown.cWnd.toNat = tcb.cWnd.toNat + tcb.segmentSize.toNat := by
  unfold TcpSocketState.RoomForTwo at hroom
  show (tcb.cWnd + tcb.segmentSize).toNat = _
  rw [UInt32.toNat_add]
  exact Nat.mod_eq_of_lt (by omega)

theorem segmented_grown (h : tcb.Segmented) (hroom : tcb.RoomForTwo) : tcb.grown.Segmented := by
  refine ⟨h.1, ?_⟩
  show tcb.segmentSize ≤ tcb.grown.cWnd
  rw [UInt32.le_iff_toNat_le, grown_toNat hroom]
  exact Nat.le_add_left _ _

/-- What congestion avoidance makes of the window, where a segment more fits. -/
theorem congestionAvoidance_toNat (h : tcb.Segmented)
    (hfit : tcb.cWnd.toNat + tcb.segmentSize.toNat < 2 ^ 32) (hn : 0 < n) :
    (congestionAvoidance tcb n).cWnd.toNat = tcb.cWnd.toNat + TcpNewReno.adder tcb := by
  obtain ⟨hnat, hle⟩ := toNat_adder h
  rw [congestionAvoidance, if_pos hn]
  show (tcb.cWnd + UInt32.ofNat (TcpNewReno.adder tcb)).toNat = _
  rw [UInt32.toNat_add, hnat]
  exact Nat.mod_eq_of_lt (by omega)

theorem newReno_avoidance (hs : ¬ tcb.cWnd < tcb.ssThresh) :
    newReno.increaseWindow tcb n = congestionAvoidance tcb n := newReno_avoidanceAdds tcb n hs

/-- A call in slow start adds a segment at least. -/
theorem newReno_slowStart_le (h : tcb.Segmented) (hroom : tcb.RoomForTwo)
    (hs : tcb.cWnd < tcb.ssThresh) (hn : 0 < n) :
    tcb.grown.cWnd.toNat ≤ (newReno.increaseWindow tcb n).cWnd.toNat := by
  by_cases hg : tcb.grown.cWnd < tcb.ssThresh
  · rw [newReno_below hs hn hg]
  · rw [newReno_reached hs hn hg]
    by_cases hmore : 0 < n - 1
    · have hfit : tcb.grown.cWnd.toNat + tcb.segmentSize.toNat < 2 ^ 32 := by
        have hgrown := grown_toNat hroom
        unfold TcpSocketState.RoomForTwo at hroom
        omega
      rw [congestionAvoidance_toNat (segmented_grown h hroom) hfit hmore]
      exact Nat.le_add_right _ _
    · rw [congestionAvoidance, if_neg hmore]

/-- No call lowers the window. -/
theorem newReno_le (h : tcb.Segmented) (hroom : tcb.RoomForTwo) (hn : 0 < n) :
    tcb.cWnd.toNat ≤ (newReno.increaseWindow tcb n).cWnd.toNat := by
  by_cases hs : tcb.cWnd < tcb.ssThresh
  · have hle := newReno_slowStart_le h hroom hs hn
    rw [grown_toNat hroom] at hle
    omega
  · unfold TcpSocketState.RoomForTwo at hroom
    rw [newReno_avoidance hs, congestionAvoidance_toNat h (by omega) hn]
    exact Nat.le_add_right _ _

theorem congestionAvoidance_rest (tcb : TcpSocketState) (n : UInt32) :
    (congestionAvoidance tcb n).segmentSize = tcb.segmentSize ∧
      (congestionAvoidance tcb n).ssThresh = tcb.ssThresh := by
  rw [congestionAvoidance]
  split <;> exact ⟨rfl, rfl⟩

theorem newReno_segmentSize (tcb : TcpSocketState) (hn : 0 < n) :
    (newReno.increaseWindow tcb n).segmentSize = tcb.segmentSize := by
  by_cases hs : tcb.cWnd < tcb.ssThresh
  · by_cases hg : tcb.grown.cWnd < tcb.ssThresh
    · rw [newReno_below hs hn hg]
      rfl
    · rw [newReno_reached hs hn hg]
      exact (congestionAvoidance_rest _ _).1
  · rw [newReno_avoidance hs]
    exact (congestionAvoidance_rest _ _).1

/-! ## Behind -/

/-- The window of the connection is at or below that of `tcb`, a socket under `TcpNewReno`. -/
structure Behind (c : Conn) (tcb : TcpSocketState) : Prop where
  segmentSize : c.tcb.segmentSize = tcb.segmentSize
  segmented : c.tcb.Segmented
  le : c.tcb.cWnd.toNat ≤ tcb.cWnd.toNat
  /-- In slow start, before the trigger. -/
  same : c.tcb.cWnd < c.tcb.ssThresh → c.cc.thresholdFound = false → c.tcb = tcb

variable {c : Conn}

/-- The socket that is ahead holds a segment too. -/
theorem Behind.ahead (h : Behind c tcb) : tcb.Segmented := by
  obtain ⟨hseg, hle⟩ := h.segmented
  rw [h.segmentSize] at hseg hle
  exact ⟨hseg, UInt32.le_iff_toNat_le.mpr ((UInt32.le_iff_toNat_le.mp hle).trans h.le)⟩

/-- The connection in congestion avoidance, `TcpNewReno` in either phase. -/
theorem behind_avoidance (h : Behind c tcb) (hroom : tcb.RoomForTwo) (hn : 0 < n)
    (hs : ¬ c.tcb.cWnd < c.tcb.ssThresh) :
    Behind ⟨c.cc, congestionAvoidance c.tcb n⟩ (newReno.increaseWindow tcb n) := by
  have hlt := hroom
  unfold TcpSocketState.RoomForTwo at hlt
  have hseg : c.tcb.segmentSize.toNat = tcb.segmentSize.toNat := congrArg _ h.segmentSize
  have hle := h.le
  have hnow := congestionAvoidance_toNat h.segmented (by omega) hn
  obtain ⟨hsize, hss⟩ := congestionAvoidance_rest c.tcb n
  refine ⟨?_, ⟨?_, ?_⟩, ?_, ?_⟩
  · exact hsize.trans (h.segmentSize.trans (newReno_segmentSize tcb hn).symm)
  · exact hsize ▸ h.segmented.1
  · have hfull := UInt32.le_iff_toNat_le.mp h.segmented.2
    show (congestionAvoidance c.tcb n).segmentSize ≤ (congestionAvoidance c.tcb n).cWnd
    rw [hsize, UInt32.le_iff_toNat_le, hnow]
    omega
  · show (congestionAvoidance c.tcb n).cWnd.toNat ≤ _
    rw [hnow]
    by_cases hslow : tcb.cWnd < tcb.ssThresh
    · have hgrow := newReno_slowStart_le h.ahead hroom hslow hn
      have hadder := (toNat_adder h.segmented).2
      rw [grown_toNat hroom] at hgrow
      omega
    · rw [newReno_avoidance hslow, congestionAvoidance_toNat h.ahead (by omega) hn]
      unfold TcpNewReno.adder
      rw [← hseg]
      exact avoidance_mono (UInt32.le_iff_toNat_le.mp h.segmented.2) h.le
  · -- it is still in congestion avoidance
    intro hslow
    refine absurd hslow ?_
    show ¬ (congestionAvoidance c.tcb n).cWnd < (congestionAvoidance c.tcb n).ssThresh
    rw [hss, UInt32.lt_iff_toNat_lt, hnow]
    rw [UInt32.lt_iff_toNat_lt] at hs
    omega

/-- **One call of `IncreaseWindow`** on both. -/
theorem behind_call {base : TcpNewReno} (hbase : base.IncreasesAsDocumented) (h : Behind c tcb)
    (hroom : tcb.RoomForTwo) (hn : 0 < n) :
    Behind ⟨(c.cc.increaseWindow base c.tcb n).1, (c.cc.increaseWindow base c.tcb n).2⟩
      (base.increaseWindow tcb n) := by
  rw [hbase tcb n]
  have hsize := newReno_segmentSize tcb hn
  have hgrow := newReno_le h.ahead hroom hn
  rcases c.cc.increaseWindow_cases base c.tcb n with
    ⟨hs, he⟩ | ⟨hs, hf, he⟩ | ⟨hs, hf, _, he⟩ | ⟨hs, hf, _, he⟩ <;> rw [he]
  · rw [hbase c.tcb n, newReno_avoidance hs]
    exact behind_avoidance h hroom hn hs
  · exact ⟨h.segmentSize.trans hsize.symm, h.segmented, h.le.trans hgrow,
      fun _ hclear => absurd (hf.symm.trans hclear) (by decide)⟩
  · exact ⟨h.segmentSize.trans hsize.symm, h.segmented, h.le.trans hgrow,
      fun _ hclear => absurd hclear (by simp)⟩
  · -- the sockets are the same
    obtain rfl := h.same hs hf
    have hslow := newReno_slowStart_le h.ahead hroom hs hn
    refine ⟨hsize.symm, segmented_grown h.segmented hroom, hslow, fun hs' _ => ?_⟩
    exact (newReno_below hs hn hs').symm

/-- A loss puts both sockets at the same window. -/
theorem behind_loss (h : Behind c tcb) (hroom : tcb.RoomForTwo) (r : Loss) :
    Behind ⟨c.cc, r.react c.tcb⟩ (r.react tcb) := by
  have hseg := h.segmentSize
  have hsegmented := h.ahead
  have hsame : r.react c.tcb = r.react tcb := by
    cases r <;> simp only [Loss.react, getSsThresh, hseg]
  refine ⟨congrArg _ hsame, ?_, ?_, fun _ _ => hsame⟩
  · rw [hsame]
    cases r with
    | timeout b => exact ⟨hsegmented.1, UInt32.le_refl _⟩
    | fastRecovery b =>
      refine ⟨hsegmented.1, ?_⟩
      show tcb.segmentSize ≤ getSsThresh tcb b
      refine UInt32.le_trans ?_ (two_segments_le tcb b)
      unfold TcpSocketState.RoomForTwo at hroom
      rw [UInt32.le_iff_toNat_le, UInt32.toNat_mul, show (2 : UInt32).toNat = 2 from rfl,
        Nat.mod_eq_of_lt (by omega)]
      omega
  · rw [hsame]

/-! ## Every run -/

/-- In every state `TcpNewReno` comes to there is room for two segments more. -/
def RoomAlong (base : TcpNewReno) (tcb : TcpSocketState) (es : List (Event Loss)) : Prop :=
  ∀ p, p <+: es → (renoAfter base Loss.react tcb p).RoomForTwo

theorem behind_concat {base : TcpNewReno} (hidle : base.PktsAckedIdle)
    (hbase : base.IncreasesAsDocumented) {es : List (Event Loss)} {e : Event Loss}
    (h : Behind (after base Loss.react c es) (renoAfter base Loss.react c.tcb es))
    (hroom : (renoAfter base Loss.react c.tcb es).RoomForTwo)
    (hacked : ∀ n, e = .increaseWindow n → 0 < n) :
    Behind (after base Loss.react c (es ++ [e])) (renoAfter base Loss.react c.tcb (es ++ [e])) := by
  rw [after_concat, renoAfter_concat]
  cases e with
  | pktsAcked n rtt =>
    rw [step, renoStep, hidle, hidle]
    refine ⟨h.segmentSize, h.segmented, h.le, fun hs hf => h.same hs ?_⟩
    exact (TcpAshish.pktsAcked_thresholdFound _ rtt).symm.trans hf
  | increaseWindow n => exact behind_call hbase h hroom (hacked n rfl)
  | socket r => exact behind_loss h hroom r

/-- **`TcpAshish` is never ahead of `TcpNewReno`.** In every run of round-trip samples of any size,
    acks of at least one segment and losses, from a window of at least one segment, the window of
    `TcpAshish` is after every event at or below that of a `TcpNewReno` that got the same events from
    the same state, as long as the window of the latter stays two segments below `2 ^ 32`. -/
theorem dominated (base : TcpNewReno) (hidle : base.PktsAckedIdle)
    (hbase : base.IncreasesAsDocumented) (c : Conn) (hsegmented : c.tcb.Segmented)
    (es : List (Event Loss)) (hacked : ∀ n, .increaseWindow n ∈ es → 0 < n)
    (hroom : RoomAlong base c.tcb es) :
    Throughout (fun p => (after base Loss.react c p).tcb.cWnd ≤
      (renoAfter base Loss.react c.tcb p).cWnd) es := by
  suffices h : ∀ p, p <+: es →
      Behind (after base Loss.react c p) (renoAfter base Loss.react c.tcb p) by
    intro p q hpq
    exact UInt32.le_iff_toNat_le.mpr (h p (hpq ▸ List.prefix_append p q)).le
  intro p hp
  induction p using List.reverseRecOn with
  | nil => exact ⟨rfl, hsegmented, Nat.le_refl _, fun _ _ => rfl⟩
  | append_singleton p e ih =>
    have hpre : p <+: es := (List.prefix_append p [e]).trans hp
    refine behind_concat hidle hbase (ih hpre) (hroom p hpre) fun n he => hacked n ?_
    exact he ▸ hp.subset (List.mem_append_right p List.mem_cons_self)

/-- The trigger fires at the third ack; one of two segments, a timeout and a fast recovery. -/
def earlyExit : List (Event Loss) :=
  [.pktsAcked 1 10000000, .increaseWindow 1, .increaseWindow 2, .pktsAcked 1 15000000,
    .increaseWindow 1, .increaseWindow 1, .socket (.timeout 5360), .increaseWindow 1,
    .socket (.fastRecovery 5360), .increaseWindow 1]

theorem earlyExit_dominated :
    Throughout (fun p => (after newReno Loss.react opening p).tcb.cWnd ≤
      (renoAfter newReno Loss.react opening.tcb p).cWnd) earlyExit :=
  dominated newReno newReno_pktsAckedIdle (fun _ _ => rfl) opening (by decide) earlyExit
    (fun n hn => by
      simp only [earlyExit, List.mem_cons, reduceCtorEq, Event.increaseWindow.injEq,
        List.not_mem_nil, false_or, or_false] at hn
      rcases hn with rfl | rfl | rfl | rfl | rfl | rfl <;> decide)
    fun p hp => by
      rw [← List.mem_inits] at hp
      revert p
      decide

-- after the first three acks, and after the next
example : ((after newReno Loss.react opening (earlyExit.take 5)).tcb.cWnd,
      (renoAfter newReno Loss.react opening.tcb (earlyExit.take 5)).cWnd) = (6432, 6968) ∧
    ((after newReno Loss.react opening (earlyExit.take 6)).tcb.cWnd,
      (renoAfter newReno Loss.react opening.tcb (earlyExit.take 6)).cWnd) = (6476, 7504) := by
  decide

end NetLab.Tcp
