/-
  How `IncreaseWindow` moves the window in 32-bit arithmetic.

  The window is a `uint32_t` and neither kind of growth checks its addition. Slow start only asks
  for `cWnd < ssThresh`, and `ssThresh` starts at `2^32 - 1`, so the window passes the top of the
  range as soon as it is within a segment of it.

  * `Segmented`: the window holds at least one segment. Losses leave it so, and so does growth
    that has room (`segmented_step`). On such a window congestion avoidance adds no more than a
    segment.
  * `grows_iff_hasRoom`: a call neither lowers the window nor adds more than a segment exactly
    when its addition stays below `2^32`.
  * `windowGrows_iff`: the same for every call of a run.
  * `slowStart_climbs`: without a delay jump `k` calls add `k` segments, which takes the ordinary
    opening window to the top of the range.
-/
import NetLab.Tcp.Freeze

namespace NetLab.Tcp

open NetLab.Lib

variable {ρ : Type}

/-! ## The property and the condition -/

/-- A call of `IncreaseWindow` does not lower the window, and adds at most one segment to it. -/
def Grows (c : Conn) : Event ρ → Conn → Prop
  | .increaseWindow _, d =>
    c.tcb.cWnd ≤ d.tcb.cWnd ∧ d.tcb.cWnd.toNat ≤ c.tcb.cWnd.toNat + c.tcb.segmentSize.toNat
  | _, _ => True

instance (c : Conn) (e : Event ρ) (d : Conn) : Decidable (Grows c e d) := by
  unfold Grows
  split <;> infer_instance

/-- What the call adds to the window, if it adds anything, keeps it below `2^32`. -/
def HasRoom (c : Conn) : Event ρ → Conn → Prop
  | .increaseWindow n, _ =>
    if c.tcb.cWnd < c.tcb.ssThresh then
      c.cc.thresholdFound = false → ¬ c.cc.DelayExceeded →
        c.tcb.cWnd.toNat + c.tcb.segmentSize.toNat < 2 ^ 32
    else 0 < n → c.tcb.cWnd.toNat + TcpNewReno.adder c.tcb < 2 ^ 32
  | _, _ => True

instance (c : Conn) (e : Event ρ) (d : Conn) : Decidable (HasRoom c e d) := by
  unfold HasRoom
  split <;> infer_instance

/-- Segments are not empty, and the window holds at least one. -/
def TcpSocketState.Segmented (tcb : TcpSocketState) : Prop :=
  0 < tcb.segmentSize ∧ tcb.segmentSize ≤ tcb.cWnd

instance (tcb : TcpSocketState) : Decidable tcb.Segmented :=
  inferInstanceAs (Decidable (_ ∧ _))

/-- The socket's reaction leaves a window of at least one segment. -/
def LeavesSegment (_ : Conn) : Event ρ → Conn → Prop
  | .socket _, d => d.tcb.Segmented
  | _, _ => True

instance (c : Conn) (e : Event ρ) (d : Conn) : Decidable (LeavesSegment c e d) := by
  unfold LeavesSegment
  split <;> infer_instance

/-! ## One call -/

/-- An addition to a 32-bit number neither lowers it nor adds more than `s` exactly when it does
    not wrap around. -/
theorem grows_add_iff {x d s : UInt32} (hd : d.toNat ≤ s.toNat) :
    (x ≤ x + d ∧ (x + d).toNat ≤ x.toNat + s.toNat) ↔ x.toNat + d.toNat < 2 ^ 32 := by
  have hx := x.toNat_lt
  have hlt := d.toNat_lt
  rw [UInt32.le_iff_toNat_le, UInt32.toNat_add]
  omega

/-- A window that a call leaves as it is. -/
theorem grows_same (x s : UInt32) : x ≤ x ∧ x.toNat ≤ x.toNat + s.toNat :=
  ⟨UInt32.le_refl x, Nat.le_add_right _ _⟩

theorem toNat_adder {tcb : TcpSocketState} (h : tcb.Segmented) :
    (UInt32.ofNat (TcpNewReno.adder tcb)).toNat = TcpNewReno.adder tcb ∧
      TcpNewReno.adder tcb ≤ tcb.segmentSize.toNat := by
  have hseg : 0 < tcb.segmentSize.toNat := UInt32.lt_iff_toNat_lt.mp h.1
  have hle : TcpNewReno.adder tcb ≤ tcb.segmentSize.toNat := by
    have := TcpNewReno.adder_le h.2
    rwa [max_eq_right hseg] at this
  exact ⟨UInt32.toNat_ofNat_of_lt' (hle.trans_lt tcb.segmentSize.toNat_lt), hle⟩

/-- One call, on a window of at least one segment. -/
theorem grows_iff_hasRoom {base : TcpNewReno} (hadd : base.AvoidanceAdds)
    {react : ρ → TcpSocketState → TcpSocketState} {c : Conn} (h : c.tcb.Segmented) (n : UInt32) :
    Grows c (.increaseWindow n : Event ρ) (step base react c (.increaseWindow n)) ↔
      HasRoom c (.increaseWindow n : Event ρ) (step base react c (.increaseWindow n)) := by
  simp only [Grows, HasRoom, step]
  rcases c.cc.increaseWindow_cases base c.tcb n with
    ⟨hs, he⟩ | ⟨hs, hf, he⟩ | ⟨hs, hf, hd, he⟩ | ⟨hs, hf, hd, he⟩ <;> rw [he]
  · rw [if_neg hs, hadd c.tcb n hs]
    by_cases hn : 0 < n
    · obtain ⟨hnat, hle⟩ := toNat_adder h
      rw [if_pos hn, forall_prop_of_true hn]
      have := grows_add_iff (x := c.tcb.cWnd) (hnat.trans_le hle)
      rwa [hnat] at this
    · rw [if_neg hn]
      exact iff_of_true (grows_same _ _) fun hpos => absurd hpos hn
  · rw [if_pos hs]
    exact iff_of_true (grows_same _ _) fun hclear => absurd (hf.symm.trans hclear) (by decide)
  · rw [if_pos hs]
    exact iff_of_true (grows_same _ _) fun _ hno => absurd hd hno
  · rw [if_pos hs, forall_prop_of_true hf, forall_prop_of_true hd]
    exact grows_add_iff (Nat.le_refl _)

/-! ## A whole run -/

/-- A call that has room and a reaction that leaves a segment keep the window segmented. -/
theorem segmented_step {base : TcpNewReno} (hidle : base.PktsAckedIdle)
    (hadd : base.AvoidanceAdds) {react : ρ → TcpSocketState → TcpSocketState} {c : Conn}
    (h : c.tcb.Segmented) {e : Event ρ} (hroom : HasRoom c e (step base react c e))
    (hleaves : LeavesSegment c e (step base react c e)) :
    (step base react c e).tcb.Segmented := by
  cases e with
  | pktsAcked n rtt =>
    simp only [step, hidle c.tcb n rtt]
    exact h
  | increaseWindow n =>
    have hgrows := (grows_iff_hasRoom hadd h n).mpr hroom
    have hseg : (step base react c (.increaseWindow n)).tcb.segmentSize = c.tcb.segmentSize :=
      c.cc.increaseWindow_segmentSize hadd c.tcb n
    unfold TcpSocketState.Segmented
    rw [hseg]
    exact ⟨h.1, UInt32.le_trans h.2 hgrows.1⟩
  | socket r => exact hleaves

/-- The socket's reactions leave a segment where there is room for two. -/
theorem leavesSegment_loss {base : TcpNewReno} (hidle : base.PktsAckedIdle)
    (hadd : base.AvoidanceAdds) {c : Conn} (hseg : 0 < c.tcb.segmentSize)
    (hroom : c.tcb.segmentSize.toNat + c.tcb.segmentSize.toNat < 2 ^ 32)
    (es : List (Event Loss)) : (connection base Loss.react).Along LeavesSegment c es := by
  refine Machine.along_of_inv _ (I := fun d => d.tcb.segmentSize = c.tcb.segmentSize) ?_ ?_ rfl es
  · intro d e f hd hstep
    obtain rfl : step base Loss.react d e = f := Option.some.inj hstep
    exact (segmentSize_step hidle hadd d e).trans hd
  · intro d e f hd hstep
    obtain rfl : step base Loss.react d e = f := Option.some.inj hstep
    rw [← hd] at hseg hroom
    cases e with
    | pktsAcked n rtt => trivial
    | increaseWindow n => trivial
    | socket r =>
      cases r with
      | fastRecovery b => exact ⟨hseg, UInt32.le_of_lt (timeout_lt b hseg hroom)⟩
      | timeout b => exact ⟨hseg, UInt32.le_refl _⟩

/-- **Growth of a run.** From a window of at least one segment, and under losses that leave one,
    no call of `IncreaseWindow` lowers the window or adds more than a segment exactly when no
    call's addition reaches `2^32`. -/
theorem windowGrows_iff (base : TcpNewReno) (hidle : base.PktsAckedIdle)
    (hadd : base.AvoidanceAdds) (react : ρ → TcpSocketState → TcpSocketState) (c : Conn)
    (hwin : c.tcb.Segmented) (es : List (Event ρ))
    (hleaves : (connection base react).Along LeavesSegment c es) :
    (connection base react).Along Grows c es ↔ (connection base react).Along HasRoom c es := by
  refine Machine.along_congr_of_inv_of_along _ (I := fun c => c.tcb.Segmented) ?_ ?_ hwin hleaves
  · intro c e d hc hstep
    obtain rfl : step base react c e = d := Option.some.inj hstep
    cases e with
    | pktsAcked n rtt => exact Iff.rfl
    | increaseWindow n => exact grows_iff_hasRoom hadd hc n
    | socket r => exact Iff.rfl
  · intro c e d hc hstep hroom hl
    obtain rfl : step base react c e = d := Option.some.inj hstep
    exact segmented_step hidle hadd hc hroom hl

theorem windowGrows_iff_recoveredRun :
    (connection newReno Loss.react).Along Grows opening recoveredRun ↔
      (connection newReno Loss.react).Along HasRoom opening recoveredRun :=
  windowGrows_iff newReno newReno_pktsAckedIdle newReno_avoidanceAdds Loss.react opening
    (by decide) recoveredRun (by decide)

/-! ## The top of the range -/

/-- `k` calls of slow start with the latch clear and no delay jump add `k` segments, up to
    `ssThresh`. -/
theorem slowStart_climbs (base : TcpNewReno) (react : ρ → TcpSocketState → TcpSocketState)
    (n : UInt32) {c : Conn} (hf : c.cc.thresholdFound = false) (hd : ¬ c.cc.DelayExceeded)
    (hseg : 0 < c.tcb.segmentSize) (k : Nat)
    (hk : c.tcb.cWnd.toNat + k * c.tcb.segmentSize.toNat ≤ c.tcb.ssThresh.toNat) :
    after base react c (List.replicate k (.increaseWindow n)) =
      ⟨c.cc, { c.tcb with
        cWnd := UInt32.ofNat (c.tcb.cWnd.toNat + k * c.tcb.segmentSize.toNat) }⟩ := by
  induction k with
  | zero => simp [after]
  | succ k ih =>
    have hpos : 0 < c.tcb.segmentSize.toNat := UInt32.lt_iff_toNat_lt.mp hseg
    rw [Nat.succ_mul] at hk ⊢
    have hlt : UInt32.ofNat (c.tcb.cWnd.toNat + k * c.tcb.segmentSize.toNat) < c.tcb.ssThresh := by
      have hthresh := c.tcb.ssThresh.toNat_lt
      rw [UInt32.lt_iff_toNat_lt, UInt32.toNat_ofNat', Nat.mod_eq_of_lt (by omega)]
      omega
    have hsum : UInt32.ofNat (c.tcb.cWnd.toNat + k * c.tcb.segmentSize.toNat) +
          c.tcb.segmentSize =
        UInt32.ofNat (c.tcb.cWnd.toNat +
          (k * c.tcb.segmentSize.toNat + c.tcb.segmentSize.toNat)) := by
      rw [← Nat.add_assoc, UInt32.ofNat_add _ c.tcb.segmentSize.toNat, UInt32.ofNat_toNat]
    rw [List.replicate_succ', after_concat, ih (by omega), step,
      TcpAshish.increaseWindow_slowStart hlt hf hd]
    exact congrArg (fun w => (⟨c.cc, { c.tcb with cWnd := w }⟩ : Conn)) hsum

/-- 8012989 calls for one segment each, and nothing else. -/
def climbingRun : List (Event Loss) :=
  List.replicate 8012989 (.increaseWindow 1)

theorem climbingRun_top :
    after newReno Loss.react opening (List.replicate 8012988 (.increaseWindow 1)) =
      ⟨TcpAshish.init, ⟨4294966928, 4294967295, 536⟩⟩ :=
  slowStart_climbs newReno Loss.react 1 (c := opening) rfl (by decide) (by decide) 8012988
    (by decide)

/-- The last call of an ordinary connection's climb takes the window from `4294966928` to 168. -/
theorem climbingRun_wraps :
    opening.tcb.Segmented ∧ opening.tcb.ssThresh = 4294967295 ∧
      (connection newReno Loss.react).Along LeavesSegment opening climbingRun ∧
      (after newReno Loss.react opening climbingRun).tcb.cWnd = 168 ∧
      ¬ (connection newReno Loss.react).Along Grows opening climbingRun := by
  have hrun : climbingRun = List.replicate 8012988 (.increaseWindow 1) ++ [.increaseWindow 1] :=
    List.replicate_succ'
  refine ⟨by decide, rfl, leavesSegment_loss newReno_pktsAckedIdle newReno_avoidanceAdds
    (by decide) (by decide) climbingRun, ?_, fun hall => ?_⟩
  · rw [hrun, after_concat, climbingRun_top]
    decide
  · have hlast := (Machine.along_ofFun_iff _).mp hall _ _ [] hrun
    have hbad : ¬ Grows ⟨TcpAshish.init, ⟨4294966928, 4294967295, 536⟩⟩
        (.increaseWindow 1 : Event Loss)
        (step newReno Loss.react ⟨TcpAshish.init, ⟨4294966928, 4294967295, 536⟩⟩
          (.increaseWindow 1)) := by
      decide
    rw [← climbingRun_top] at hbad
    exact hbad hlast

end NetLab.Tcp
