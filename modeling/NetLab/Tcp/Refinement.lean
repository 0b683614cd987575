/-
  `TcpAshish` against `TcpNewReno` on runs without a delay jump.

  Both controls get the same calls and the same reactions of the socket, from the same state.
  Without a jump the latch stays clear, and what is left of `TcpAshish::IncreaseWindow` in slow
  start is one segment for every call. `TcpNewReno` adds it only where segments were acked, and
  hands what is left of them to congestion avoidance where the window has reached `ssThresh`.

  * `newReno_slowStart_iff`: the two agree on a call in slow start exactly where some segment was
    acked, and no more than one unless the window stays below `ssThresh` (`FullAck`).
  * `delayExceeded_iff_not_fits`: without a jump the test of the code can only be met where the
    threshold `m_delayMin + 4 ms` does not fit 64 bits.
  * `sameWindows_iff`: over a whole run the windows are the same exactly when every call in slow
    start is such a call; until one is not, the sockets are in lockstep (`InLockstep`).
  * `emptyAck_differs`: an ack of no full segment, and one of three that reaches `ssThresh`.
-/
import NetLab.Tcp.HyStart

namespace NetLab.Tcp

open NetLab.Lib

variable {ρ : Type}

/-! ## `TcpNewReno` alone -/

/-- `TcpNewReno::IncreaseWindow` is slow start and congestion avoidance, as ns-3 documents them. -/
def TcpNewReno.IncreasesAsDocumented (base : TcpNewReno) : Prop :=
  ∀ tcb n, base.increaseWindow tcb n = newReno.increaseWindow tcb n

def renoStep (base : TcpNewReno) (react : ρ → TcpSocketState → TcpSocketState)
    (tcb : TcpSocketState) : Event ρ → TcpSocketState
  | .pktsAcked n rtt => base.pktsAcked tcb n rtt
  | .increaseWindow n => base.increaseWindow tcb n
  | .socket r => react r tcb

/-- The socket of a connection under `TcpNewReno` after a list of events. -/
def renoAfter (base : TcpNewReno) (react : ρ → TcpSocketState → TcpSocketState)
    (tcb : TcpSocketState) (es : List (Event ρ)) : TcpSocketState :=
  es.foldl (renoStep base react) tcb

theorem renoAfter_concat (base : TcpNewReno) (react : ρ → TcpSocketState → TcpSocketState)
    (tcb : TcpSocketState) (es : List (Event ρ)) (e : Event ρ) :
    renoAfter base react tcb (es ++ [e]) = renoStep base react (renoAfter base react tcb es) e := by
  unfold renoAfter
  rw [List.foldl_append]
  rfl

/-! ## One call in slow start -/

/-- Some segment was acked, and no more than one where it takes the window to `ssThresh`. With
    segments of no bytes there is nothing to add. -/
def FullAck (tcb : TcpSocketState) (n : UInt32) : Prop :=
  (0 < n ∨ tcb.segmentSize = 0) ∧ (n ≤ 1 ∨ tcb.cWnd + tcb.segmentSize < tcb.ssThresh)

instance (tcb : TcpSocketState) (n : UInt32) : Decidable (FullAck tcb n) :=
  inferInstanceAs (Decidable (_ ∧ _))

/-- What slow start in `TcpAshish` leaves. -/
def TcpSocketState.grown (tcb : TcpSocketState) : TcpSocketState :=
  { tcb with cWnd := tcb.cWnd + tcb.segmentSize }

/-- Where slow start reaches `ssThresh` the window has not wrapped around, so congestion avoidance
    adds between 1 and `segmentSize` bytes. -/
theorem adder_ne_zero {tcb : TcpSocketState} (hs : tcb.cWnd < tcb.ssThresh)
    (hg : ¬ tcb.grown.cWnd < tcb.ssThresh) :
    UInt32.ofNat (TcpNewReno.adder tcb.grown) ≠ 0 := by
  have hseg := tcb.segmentSize.toNat_lt
  have hcwnd := tcb.cWnd.toNat_lt
  have hgrown : tcb.grown.cWnd.toNat = (tcb.cWnd.toNat + tcb.segmentSize.toNat) % 2 ^ 32 :=
    UInt32.toNat_add _ _
  rw [UInt32.lt_iff_toNat_lt] at hs hg
  have hge : tcb.grown.segmentSize ≤ tcb.grown.cWnd := by
    rw [UInt32.le_iff_toNat_le]
    show tcb.segmentSize.toNat ≤ tcb.grown.cWnd.toNat
    omega
  have hadder : TcpNewReno.adder tcb.grown ≤ max 1 tcb.segmentSize.toNat :=
    TcpNewReno.adder_le hge
  have hpos : 1 ≤ TcpNewReno.adder tcb.grown := le_max_left _ _
  intro hzero
  have hnat := congrArg UInt32.toNat hzero
  rw [UInt32.toNat_ofNat', UInt32.toNat_zero, Nat.mod_eq_of_lt (by omega)] at hnat
  omega

/-- The three ways of `TcpNewReno` through a call in slow start. -/
theorem newReno_empty {tcb : TcpSocketState} (hs : tcb.cWnd < tcb.ssThresh) :
    newReno.increaseWindow tcb 0 = tcb := by
  simp [newReno, slowStart, hs]

theorem newReno_below {tcb : TcpSocketState} (hs : tcb.cWnd < tcb.ssThresh) {n : UInt32}
    (hn : 0 < n) (hg : tcb.grown.cWnd < tcb.ssThresh) :
    newReno.increaseWindow tcb n = tcb.grown := by
  have hg' : tcb.cWnd + tcb.segmentSize < tcb.ssThresh := hg
  simp [newReno, slowStart, hs, hn, hg', TcpSocketState.grown]

theorem newReno_reached {tcb : TcpSocketState} (hs : tcb.cWnd < tcb.ssThresh) {n : UInt32}
    (hn : 0 < n) (hg : ¬ tcb.grown.cWnd < tcb.ssThresh) :
    newReno.increaseWindow tcb n = congestionAvoidance tcb.grown (n - 1) := by
  have hg' : ¬ tcb.cWnd + tcb.segmentSize < tcb.ssThresh := hg
  simp [newReno, slowStart, hs, hn, hg', TcpSocketState.grown]

theorem sub_one_pos_iff {n : UInt32} (hn : 0 < n) : 0 < n - 1 ↔ ¬ n ≤ 1 := by
  have hlt := n.toNat_lt
  rw [UInt32.lt_iff_toNat_lt] at hn ⊢
  rw [UInt32.le_iff_toNat_le, UInt32.toNat_sub_of_le _ _ (by rw [UInt32.le_iff_toNat_le]; exact hn)]
  show 0 < n.toNat - 1 ↔ ¬ n.toNat ≤ 1
  omega

theorem not_pos_iff {n : UInt32} : ¬ 0 < n ↔ n = 0 := by
  rw [UInt32.lt_iff_toNat_lt, UInt32.toNat_zero, ← UInt32.toNat_inj, UInt32.toNat_zero]
  omega

/-- On a full ack `TcpNewReno` adds the segment and stops. -/
theorem newReno_of_fullAck {tcb : TcpSocketState} (hs : tcb.cWnd < tcb.ssThresh) {n : UInt32}
    (hn : FullAck tcb n) : newReno.increaseWindow tcb n = tcb.grown := by
  obtain ⟨hacked, hone⟩ := hn
  by_cases hpos : 0 < n
  · by_cases hg : tcb.grown.cWnd < tcb.ssThresh
    · exact newReno_below hs hpos hg
    · have hle := hone.resolve_right hg
      rw [newReno_reached hs hpos hg, congestionAvoidance,
        if_neg fun h => (sub_one_pos_iff hpos).mp h hle]
  · have hseg := hacked.resolve_left hpos
    rw [not_pos_iff.mp hpos, newReno_empty hs, TcpSocketState.grown, hseg, UInt32.add_zero, ← hseg]

/-- **A call in slow start adds one segment under `TcpNewReno` exactly on a full ack.** -/
theorem newReno_slowStart_iff {tcb : TcpSocketState} (hs : tcb.cWnd < tcb.ssThresh) (n : UInt32) :
    (newReno.increaseWindow tcb n).cWnd = tcb.grown.cWnd ↔ FullAck tcb n := by
  refine ⟨fun hw => ?_, fun hn => congrArg _ (newReno_of_fullAck hs hn)⟩
  by_cases hpos : 0 < n
  · refine ⟨.inl hpos, ?_⟩
    by_cases hg : tcb.grown.cWnd < tcb.ssThresh
    · exact .inr hg
    · left
      by_contra hle
      rw [newReno_reached hs hpos hg, congestionAvoidance, if_pos ((sub_one_pos_iff hpos).mpr hle)]
        at hw
      exact adder_ne_zero hs hg (UInt32.add_eq_left.mp hw)
  · rw [not_pos_iff.mp hpos] at hw ⊢
    rw [newReno_empty hs] at hw
    exact ⟨.inr (UInt32.add_eq_left.mp hw.symm), .inl (by decide)⟩

/-- `TcpNewReno` does not write `ssThresh`. -/
theorem newReno_ssThresh {tcb : TcpSocketState} (hs : tcb.cWnd < tcb.ssThresh) (n : UInt32) :
    (newReno.increaseWindow tcb n).ssThresh = tcb.ssThresh := by
  by_cases hpos : 0 < n
  · by_cases hg : tcb.grown.cWnd < tcb.ssThresh
    · rw [newReno_below hs hpos hg]
      rfl
    · rw [newReno_reached hs hpos hg, congestionAvoidance]
      split <;> rfl
  · rw [not_pos_iff.mp hpos, newReno_empty hs]

/-! ## The delay test without a jump -/

/-- The threshold `m_delayMin + 4 ms` is a `Time`, or there is no sample. -/
def ThresholdFits (cc : TcpAshish) : Prop :=
  cc.delayMin = timeMax ∨ cc.delayMin.toInt + 4000000 ≤ timeMax.toInt

/-- Without a jump the test is met exactly where the threshold wraps around. -/
theorem delayExceeded_iff_not_fits {cc : TcpAshish} {xs : List Time} (h : cc.Tracks xs)
    (hpos : ∀ x ∈ xs, 0 < x.toInt) (hjump : ¬ DelayJump xs) :
    cc.DelayExceeded ↔ ¬ ThresholdFits cc := by
  unfold TcpAshish.DelayExceeded ThresholdFits
  by_cases hmax : cc.delayMin = timeMax
  · exact iff_of_false (fun hd => hd.1 hmax) (not_not_intro (.inl hmax))
  · have hne : xs ≠ [] := fun hnil => hmax (h.none_seen hnil)
    have hlast := List.getLast?_eq_some_getLast hne
    have hrtt := h.last _ hlast
    have hrtt_pos := hpos _ (List.getLast_mem hne)
    have hmin_pos := hpos _ (h.least_mem hne)
    have hmin_lt := cc.delayMin.toInt_lt
    have hle : (xs.getLast hne).toInt ≤ cc.delayMin.toInt + 4000000 := by
      by_contra hgt
      exact hjump ⟨cc.delayMin, _, h.least_mem hne, h.least_le, hlast, by omega⟩
    have hsum : (cc.delayMin + milliSeconds 4).toInt =
        (cc.delayMin.toInt + 4000000).bmod (2 ^ 64) := by
      rw [Int64.toInt_add]
      rfl
    rw [and_iff_right (show cc.delayMin ≠ timeMax from hmax), or_iff_right hmax, gt_iff_lt,
      Int64.lt_iff_toInt_lt, hrtt, hsum, Int.bmod_def, timeMax, Int64.toInt_maxValue]
    split <;> omega

/-! ## Runs -/

/-- No positive sample exceeds the smallest so far by more than 4 ms. -/
def Steady (es : List (Event ρ)) : Prop := Throughout (fun p => ¬ DelayJump (samples p)) es

/-- After every event the windows and thresholds of the two controls are the same. -/
def SameWindows (base : TcpNewReno) (react : ρ → TcpSocketState → TcpSocketState) (c : Conn)
    (es : List (Event ρ)) : Prop :=
  Throughout (fun p => (after base react c p).tcb.cWnd = (renoAfter base react c.tcb p).cWnd ∧
    (after base react c p).tcb.ssThresh = (renoAfter base react c.tcb p).ssThresh) es

/-- Every call in slow start is a full ack, at a threshold that fits 64 bits. -/
def FullAcks (base : TcpNewReno) (react : ρ → TcpSocketState → TcpSocketState) (c : Conn)
    (es : List (Event ρ)) : Prop :=
  AtCalls (fun p n =>
    (after base react c p).tcb.cWnd < (after base react c p).tcb.ssThresh →
      ThresholdFits (after base react c p).cc ∧ FullAck (after base react c p).tcb n) es

variable {base : TcpNewReno} {react : ρ → TcpSocketState → TcpSocketState} {c : Conn}

/-- As long as every call is a full ack, the sockets are the same and the latch is clear. -/
structure InLockstep (base : TcpNewReno) (react : ρ → TcpSocketState → TcpSocketState) (c : Conn)
    (es : List (Event ρ)) : Prop where
  tcb : (after base react c es).tcb = renoAfter base react c.tcb es
  latch : (after base react c es).cc.thresholdFound = false

/-- One call, from sockets that are the same. -/
theorem call_iff (hbase : base.IncreasesAsDocumented) {cc : TcpAshish} {xs : List Time}
    (htracks : cc.Tracks xs) (hpos : ∀ x ∈ xs, 0 < x.toInt) (hjump : ¬ DelayJump xs)
    (hlatch : cc.thresholdFound = false) (tcb : TcpSocketState) (n : UInt32) :
    ((cc.increaseWindow base tcb n).2.cWnd = (base.increaseWindow tcb n).cWnd ∧
        (cc.increaseWindow base tcb n).2.ssThresh = (base.increaseWindow tcb n).ssThresh ↔
      (tcb.cWnd < tcb.ssThresh → ThresholdFits cc ∧ FullAck tcb n)) ∧
    ((tcb.cWnd < tcb.ssThresh → ThresholdFits cc ∧ FullAck tcb n) →
      (cc.increaseWindow base tcb n).2 = base.increaseWindow tcb n ∧
        (cc.increaseWindow base tcb n).1.thresholdFound = false) := by
  have hfits := delayExceeded_iff_not_fits htracks hpos hjump
  rcases cc.increaseWindow_cases base tcb n with
    ⟨hs, he⟩ | ⟨hs, hf, he⟩ | ⟨hs, hf, hd, he⟩ | ⟨hs, hf, hd, he⟩ <;> rw [he]
  · exact ⟨iff_of_true ⟨rfl, rfl⟩ fun h => absurd h hs, fun _ => ⟨rfl, hlatch⟩⟩
  · rw [hlatch] at hf
    cases hf
  · -- the threshold has wrapped around: `ssThresh` is written
    have hnot := hfits.mp hd
    refine ⟨iff_of_false ?_ fun h => hnot (h hs).1, fun h => absurd (h hs).1 hnot⟩
    intro ⟨_, hss⟩
    rw [hbase, newReno_ssThresh hs] at hss
    exact absurd (hss ▸ hs) (UInt32.lt_irrefl _)
  · have hyes := not_not.mp fun h => hd (hfits.mpr h)
    rw [hbase]
    constructor
    · rw [newReno_ssThresh hs, and_iff_left rfl, forall_prop_of_true hs, and_iff_right hyes,
        ← newReno_slowStart_iff hs]
      exact eq_comm
    · intro h
      exact ⟨(newReno_of_fullAck hs (h hs).2).symm, hlatch⟩

theorem InLockstep.windows {es : List (Event ρ)} (h : InLockstep base react c es) :
    (after base react c es).tcb.cWnd = (renoAfter base react c.tcb es).cWnd ∧
      (after base react c es).tcb.ssThresh = (renoAfter base react c.tcb es).ssThresh := by
  rw [h.tcb]
  exact ⟨rfl, rfl⟩

/-- Samples and the socket's reactions do the same to both. -/
theorem InLockstep.quiet (hidle : base.PktsAckedIdle) {es : List (Event ρ)}
    (h : InLockstep base react c es) {e : Event ρ} (he : ∀ n, e ≠ .increaseWindow n) :
    InLockstep base react c (es ++ [e]) := by
  cases e with
  | pktsAcked n rtt =>
    refine ⟨?_, ?_⟩
    · rw [after_concat, renoAfter_concat, step, renoStep, hidle, hidle]
      exact h.tcb
    · rw [after_concat, step]
      exact (TcpAshish.pktsAcked_thresholdFound _ rtt).trans h.latch
  | increaseWindow n => exact absurd rfl (he n)
  | socket r =>
    refine ⟨?_, ?_⟩
    · rw [after_concat, renoAfter_concat, step, renoStep, h.tcb]
    · rw [after_concat, step]
      exact h.latch

/-- One event more. -/
theorem lockstep_concat (hidle : base.PktsAckedIdle) (hbase : base.IncreasesAsDocumented)
    (hfresh : c.cc = TcpAshish.init) {es : List (Event ρ)} (hjump : ¬ DelayJump (samples es))
    (hiff : SameWindows base react c es ↔ FullAcks base react c es)
    (hlock : FullAcks base react c es → InLockstep base react c es) (e : Event ρ) :
    (SameWindows base react c (es ++ [e]) ↔ FullAcks base react c (es ++ [e])) ∧
      (FullAcks base react c (es ++ [e]) → InLockstep base react c (es ++ [e])) := by
  by_cases he : ∀ n, e ≠ .increaseWindow n
  · have hcalls : FullAcks base react c (es ++ [e]) ↔ FullAcks base react c es :=
      atCalls_concat_of_not_call he
    have hnext := fun h => (hlock h).quiet hidle he
    rw [hcalls]
    refine ⟨?_, hnext⟩
    rw [SameWindows, throughout_concat]
    exact ⟨fun h => hiff.mp h.1, fun h => ⟨hiff.mpr h, (hnext h).windows⟩⟩
  · obtain ⟨n, hn⟩ := not_forall.mp he
    obtain rfl := not_not.mp hn
    have hcall := fun h : FullAcks base react c es =>
      call_iff hbase (tracks_after base react hfresh es) (samples_pos es) hjump (hlock h).latch
        (after base react c es).tcb n
    rw [SameWindows, FullAcks, throughout_concat, atCalls_concat_call, after_concat,
      renoAfter_concat]
    constructor
    · refine (and_congr_left' hiff).trans (and_congr_right fun h => ?_)
      rw [← (hcall h).1, renoStep, ← (hlock h).tcb]
      rfl
    · intro ⟨h, hcond⟩
      obtain ⟨htcb, hlatch⟩ := (hcall h).2 hcond
      refine ⟨?_, ?_⟩
      · rw [after_concat, renoAfter_concat, renoStep, ← (hlock h).tcb]
        exact htcb
      · rw [after_concat]
        exact hlatch

/-- **The windows are the same exactly when every call in slow start is a full ack.** -/
theorem sameWindows_iff (base : TcpNewReno) (hidle : base.PktsAckedIdle)
    (hbase : base.IncreasesAsDocumented) (react : ρ → TcpSocketState → TcpSocketState) (c : Conn)
    (hfresh : c.cc = TcpAshish.init) (es : List (Event ρ)) (hsteady : Steady es) :
    SameWindows base react c es ↔ FullAcks base react c es := by
  suffices h : (SameWindows base react c es ↔ FullAcks base react c es) ∧
      (FullAcks base react c es → InLockstep base react c es) from h.1
  induction es using List.reverseRecOn with
  | nil =>
    refine ⟨iff_of_true ?_ ?_, fun _ => ⟨rfl, ?_⟩⟩
    · intro p q hpq
      obtain ⟨rfl, rfl⟩ := List.append_eq_nil_iff.mp hpq.symm
      exact ⟨rfl, rfl⟩
    · intro p n q hpq
      exact absurd hpq (by simp)
    · show c.cc.thresholdFound = false
      rw [hfresh]
      rfl
  | append_singleton es e ih =>
    have hpre := (throughout_concat.mp hsteady).1
    obtain ⟨hiff, hlock⟩ := ih hpre
    exact lockstep_concat hidle hbase hfresh (hpre es [] (List.append_nil es).symm) hiff hlock e

/-! ## Calls that are no full acks -/

/-- A run is steady whose samples are all within 4 ms of each other. -/
theorem steady_of_close {es : List (Event ρ)}
    (h : ∀ x ∈ samples es, ∀ y ∈ samples es, y.toInt ≤ x.toInt + 4000000) : Steady es := by
  intro p q hpq ⟨least, last, hleast, _, hlast, hjump⟩
  have hsub : ∀ x ∈ samples p, x ∈ samples es := by
    intro x hx
    rw [hpq, samples, List.filterMap_append]
    exact List.mem_append_left _ hx
  have hclose := h least (hsub least hleast) last (hsub last (List.mem_of_getLast? hlast))
  omega

/-- A socket whose one reaction is to halve the window it has reached. -/
def halve (_ : Unit) (tcb : TcpSocketState) : TcpSocketState :=
  { tcb with ssThresh := tcb.cWnd / 2, cWnd := tcb.segmentSize }

/-- Samples between 100 and 103 ms and a loss at twelve segments; then acks of one segment and of
    three below `ssThresh`. -/
def sampledLoss : List (Event Unit) :=
  [.pktsAcked 1 100000000, .increaseWindow 1, .pktsAcked 1 103000000, .increaseWindow 1,
    .socket (), .pktsAcked 1 101000000, .increaseWindow 1, .pktsAcked 3 102000000,
    .increaseWindow 3]

theorem sameWindows_iff_sampledLoss :
    SameWindows newReno halve opening sampledLoss ↔ FullAcks newReno halve opening sampledLoss := by
  have hsamples : samples sampledLoss = [100000000, 103000000, 101000000, 102000000] := by
    decide +kernel
  have hsteady : Steady sampledLoss := by
    apply steady_of_close
    rw [hsamples]
    simp only [List.forall_mem_cons, List.not_mem_nil, IsEmpty.forall_iff, implies_true, and_true]
    decide
  exact sameWindows_iff newReno newReno_pktsAckedIdle (fun _ _ => rfl) halve opening rfl
    sampledLoss hsteady

/-- An ack of one segment and one of none. -/
def emptyAck : List (Event Unit) := [.increaseWindow 1, .increaseWindow 0]

/-- A loss at ten segments; acks of one segment up to four; an ack of three that reaches
    `ssThresh`. -/
def crossingAck : List (Event Unit) :=
  [.socket (), .increaseWindow 1, .increaseWindow 1, .increaseWindow 1, .increaseWindow 3]

/-- `TcpAshish` adds a segment for the empty ack, and drops two of the three that cross. -/
theorem emptyAck_differs :
    Steady emptyAck ∧ ¬ SameWindows newReno halve opening emptyAck ∧
      (after newReno halve opening emptyAck).tcb.cWnd = 6432 ∧
      (renoAfter newReno halve opening.tcb emptyAck).cWnd = 5896 ∧
      Steady crossingAck ∧ ¬ SameWindows newReno halve opening crossingAck ∧
      (after newReno halve opening crossingAck).tcb.cWnd = 2680 ∧
      (renoAfter newReno halve opening.tcb crossingAck).cWnd = 2787 := by
  refine ⟨steady_of_close (List.forall_mem_nil _), ?_, by decide, by decide,
    steady_of_close (List.forall_mem_nil _), ?_, by decide, by decide⟩
  · intro h
    exact absurd (h emptyAck [] rfl).1 (by decide)
  · intro h
    exact absurd (h crossingAck [] rfl).1 (by decide)

end NetLab.Tcp
