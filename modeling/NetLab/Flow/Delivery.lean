/-
  The packet delivery ratio of as6_que2.cc (lines 191-208) and its average over ten seeds in
  runner.sh (lines 20-40).

  The program sums the packets sent and received of all flows in 32 bits and prints their ratio with
  six digits. The script adds the ratios up with awk, which prints every partial sum with six digits
  again, and divides by ten; a run that prints no ratio counts as 0.

  * `pdr_eq`: the ratio is that of the exact sums, between 0 and 1, and 1 only if nothing was lost.
  * `avgPdr_close`: what the script writes is the mean of the ratios, to within a ten-thousandth.
-/
import NetLab.Lib.Significant

namespace NetLab.Flow

open NetLab.Lib

/-! ## The ratio -/

/-- What the program reads of `FlowMonitor::FlowStats`. -/
structure PacketCounts where
  txPackets : UInt32
  rxPackets : UInt32
deriving DecidableEq, Repr

/-- `totaltx` and `totalrx`. -/
def totals (stats : List PacketCounts) : UInt32 × UInt32 :=
  stats.foldl (fun t flow => (t.1 + flow.txPackets, t.2 + flow.rxPackets)) (0, 0)

def pdr (stats : List PacketCounts) : ℚ :=
  if (totals stats).1 > 0 then ((totals stats).2.toNat : ℚ) / ((totals stats).1.toNat : ℚ) else 0

/-- What is sent and received in all. -/
def sent (stats : List PacketCounts) : Nat := (stats.map fun flow => flow.txPackets.toNat).sum

def delivered (stats : List PacketCounts) : Nat := (stats.map fun flow => flow.rxPackets.toNat).sum

/-- FlowMonitor counts a packet as received only where it has seen it sent. The packets of all flows
    fit 32 bits. -/
structure Monitored (stats : List PacketCounts) : Prop where
  received_le : ∀ flow ∈ stats, flow.rxPackets ≤ flow.txPackets
  sent_lt : sent stats < 2 ^ 32

theorem totals_concat (stats : List PacketCounts) (flow : PacketCounts) :
    totals (stats ++ [flow]) =
      ((totals stats).1 + flow.txPackets, (totals stats).2 + flow.rxPackets) := by
  unfold totals
  rw [List.foldl_append]
  rfl

theorem delivered_le_sent {stats : List PacketCounts}
    (h : ∀ flow ∈ stats, flow.rxPackets ≤ flow.txPackets) : delivered stats ≤ sent stats :=
  List.sum_le_sum fun flow hflow => UInt32.le_iff_toNat_le.mp (h flow hflow)

theorem delivered_eq_sent_iff {stats : List PacketCounts}
    (h : ∀ flow ∈ stats, flow.rxPackets ≤ flow.txPackets) :
    delivered stats = sent stats ↔ ∀ flow ∈ stats, flow.rxPackets = flow.txPackets := by
  induction stats with
  | nil => exact iff_of_true rfl fun _ hflow => absurd hflow List.not_mem_nil
  | cons flow stats ih =>
    obtain ⟨hflow, hrest⟩ := List.forall_mem_cons.mp h
    have hle := UInt32.le_iff_toNat_le.mp hflow
    have hrestle := delivered_le_sent hrest
    have hsent : sent (flow :: stats) = flow.txPackets.toNat + sent stats := List.sum_cons
    have hdelivered : delivered (flow :: stats) = flow.rxPackets.toNat + delivered stats :=
      List.sum_cons
    rw [List.forall_mem_cons, ← ih hrest, ← UInt32.toNat_inj, hsent, hdelivered]
    omega

/-- The sums do not wrap. -/
theorem totals_eq {stats : List PacketCounts} (h : Monitored stats) :
    (totals stats).1.toNat = sent stats ∧ (totals stats).2.toNat = delivered stats := by
  have hmod : ∀ l : List PacketCounts, (totals l).1.toNat = sent l % 2 ^ 32 ∧
      (totals l).2.toNat = delivered l % 2 ^ 32 := by
    intro l
    induction l using List.reverseRecOn with
    | nil => exact ⟨rfl, rfl⟩
    | append_singleton l flow ih =>
      rw [totals_concat]
      unfold sent delivered at ih ⊢
      simp only [List.map_append, List.sum_append, List.map_singleton, List.sum_singleton,
        UInt32.toNat_add, ih.1, ih.2]
      omega
  have hle := delivered_le_sent h.received_le
  have hlt := h.sent_lt
  rw [(hmod stats).1, (hmod stats).2]
  exact ⟨Nat.mod_eq_of_lt hlt, Nat.mod_eq_of_lt (by omega)⟩

/-- **The ratio** is that of the exact sums; it is 0 where nothing was sent. -/
theorem pdr_eq {stats : List PacketCounts} (h : Monitored stats) :
    pdr stats = delivered stats / sent stats ∧ 0 ≤ pdr stats ∧ pdr stats ≤ 1 ∧
      (pdr stats = 1 ↔ 0 < sent stats ∧
        ∀ flow ∈ stats, flow.rxPackets = flow.txPackets) := by
  obtain ⟨htx, hrx⟩ := totals_eq h
  have hle := delivered_le_sent h.received_le
  have heq : pdr stats = delivered stats / sent stats := by
    unfold pdr
    rw [hrx, htx]
    split
    · rfl
    · rename_i hzero
      have hsent : sent stats = 0 := by
        rw [gt_iff_lt, UInt32.lt_iff_toNat_lt, htx] at hzero
        exact Nat.eq_zero_of_not_pos hzero
      rw [hsent, Nat.cast_zero, div_zero]
  refine ⟨heq, ?_, ?_, ?_⟩
  · rw [heq]
    positivity
  · rw [heq]
    exact div_le_one_of_le₀ (Nat.cast_le.mpr hle) (Nat.cast_nonneg _)
  · rw [heq]
    rcases Nat.eq_zero_or_pos (sent stats) with hzero | hpos
    · rw [hzero, Nat.cast_zero, div_zero]
      exact iff_of_false (by norm_num) fun hall => absurd hall.1 (lt_irrefl 0)
    · have hcast : (0 : ℚ) < sent stats := Nat.cast_pos.mpr hpos
      rw [div_eq_one_iff_eq hcast.ne', Nat.cast_inj, and_iff_right hpos]
      exact delivered_eq_sent_iff h.received_le

/-! ## The average -/

/-- `pdr_val`: what is printed behind `PDR_RESULT:`, or 0 where a run prints nothing. -/
def pdrVal : Option (List PacketCounts) → ℚ
  | none => 0
  | some stats => significant 6 (pdr stats)

/-- `avg_pdr`, over the seeds. -/
def avgPdr (runs : List (Option (List PacketCounts))) : ℚ :=
  significant 6 (runningSum 6 (runs.map pdrVal) / 10)

/-- The exact ratio of a run, 0 for one that prints nothing. -/
def ratio : Option (List PacketCounts) → ℚ
  | none => 0
  | some stats => (delivered stats : ℚ) / sent stats

section Average

variable {r : Option (List PacketCounts)} (h : ∀ stats ∈ r, Monitored stats)
include h

theorem ratio_bounds : 0 ≤ ratio r ∧ ratio r ≤ 1 := by
  cases r with
  | none => exact ⟨le_refl 0, zero_le_one⟩
  | some stats =>
    obtain ⟨heq, hnonneg, hle, _⟩ := pdr_eq (h stats rfl)
    rw [heq] at hnonneg hle
    exact ⟨hnonneg, hle⟩

/-- Six digits of a ratio. -/
theorem abs_pdrVal_sub_le : |pdrVal r - ratio r| ≤ roundoff 6 := by
  have hr := roundoff_nonneg 6
  cases r with
  | none => simpa [pdrVal, ratio] using hr
  | some stats =>
    obtain ⟨heq, hnonneg, hle, _⟩ := pdr_eq (h stats rfl)
    have hround := abs_significant_sub_le 6 (pdr stats)
    rw [abs_of_nonneg hnonneg] at hround
    show |significant 6 (pdr stats) - (delivered stats : ℚ) / sent stats| ≤ roundoff 6
    rw [← heq]
    calc |significant 6 (pdr stats) - pdr stats| ≤ roundoff 6 * pdr stats := hround
      _ ≤ roundoff 6 * 1 := mul_le_mul_of_nonneg_left hle hr
      _ = roundoff 6 := mul_one _

theorem pdrVal_bounds : 0 ≤ pdrVal r ∧ pdrVal r ≤ 1 + roundoff 6 := by
  constructor
  · cases r with
    | none => exact le_refl 0
    | some stats => exact significant_nonneg (pdr_eq (h stats rfl)).2.1
  · have hval := (abs_le.mp (abs_pdrVal_sub_le h)).2
    have hratio := (ratio_bounds h).2
    linarith

end Average

theorem abs_sum_map_sub_le {runs : List (Option (List PacketCounts))}
    (h : ∀ r ∈ runs, ∀ stats ∈ r, Monitored stats) :
    |(runs.map pdrVal).sum - (runs.map ratio).sum| ≤ roundoff 6 * runs.length := by
  induction runs with
  | nil => simp
  | cons r runs ih =>
    obtain ⟨hr, hrest⟩ := List.forall_mem_cons.mp h
    have hlast := abs_le.mp (ih hrest)
    have hfirst := abs_le.mp (abs_pdrVal_sub_le hr)
    rw [List.map_cons, List.map_cons, List.sum_cons, List.sum_cons, List.length_cons, abs_le]
    push_cast
    constructor <;> linarith

/-- **The average is the mean of the ratios**, each that of the exact sums of its run, to within a
    ten-thousandth: for any results of ten runs that FlowMonitor can have, failed ones included. -/
theorem avgPdr_close (runs : List (Option (List PacketCounts))) (hlen : runs.length = 10)
    (h : ∀ r ∈ runs, ∀ stats ∈ r, Monitored stats) :
    |avgPdr runs - (runs.map ratio).sum / 10| ≤ 1 / 10000 ∧
      ∀ r ∈ runs, 0 ≤ ratio r ∧ ratio r ≤ 1 ∧ ∀ stats ∈ r, pdr stats = ratio r := by
  have hroundoff : roundoff 6 = 1 / 200000 := by norm_num [roundoff]
  have hvals : ∀ v ∈ runs.map pdrVal, 0 ≤ v ∧ v ≤ 1 + roundoff 6 := by
    intro v hv
    obtain ⟨r, hr, rfl⟩ := List.mem_map.mp hv
    exact pdrVal_bounds (h r hr)
  have hsum := abs_runningSum_sub_le 6 hvals (by rw [List.length_map, hlen, hroundoff]; norm_num)
  have hexact := abs_sum_map_sub_le h
  have hnonneg := runningSum_nonneg 6 fun v hv => (hvals v hv).1
  have hbound : (runs.map ratio).sum ≤ 10 := by
    have hcard := List.sum_le_card_nsmul (runs.map ratio) 1 fun v hv => by
      obtain ⟨r, hr, rfl⟩ := List.mem_map.mp hv
      exact (ratio_bounds (h r hr)).2
    rw [List.length_map, hlen] at hcard
    simpa using hcard
  rw [List.length_map, hlen, hroundoff] at hsum
  rw [hlen, hroundoff] at hexact
  have hlast := abs_significant_sub_le 6 (runningSum 6 (runs.map pdrVal) / 10)
  rw [abs_of_nonneg (div_nonneg hnonneg (by norm_num)), hroundoff] at hlast
  constructor
  · unfold avgPdr
    have h1 := abs_le.mp hsum
    have h2 := abs_le.mp hexact
    have h3 := abs_le.mp hlast
    push_cast at h1 h2
    rw [abs_le]
    constructor <;> linarith
  · intro r hr
    refine ⟨(ratio_bounds (h r hr)).1, (ratio_bounds (h r hr)).2, fun stats hstats => ?_⟩
    obtain rfl : r = some stats := hstats
    exact (pdr_eq (h _ hr stats rfl)).1

/-- A run in which one of four hundred packets is lost, and nine that print nothing. -/
def oneRun : List (Option (List PacketCounts)) :=
  some [⟨100, 100⟩, ⟨100, 100⟩, ⟨100, 100⟩, ⟨100, 99⟩] :: List.replicate 9 none

theorem avgPdr_oneRun :
    |avgPdr oneRun - (oneRun.map ratio).sum / 10| ≤ 1 / 10000 ∧
      ∀ r ∈ oneRun, 0 ≤ ratio r ∧ ratio r ≤ 1 ∧ ∀ stats ∈ r, pdr stats = ratio r := by
  refine avgPdr_close oneRun rfl fun r hr stats hstats => ?_
  rcases List.mem_cons.mp hr with rfl | hr
  · obtain rfl := Option.some.inj hstats
    exact ⟨by decide, by decide⟩
  · rw [List.eq_of_mem_replicate hr] at hstats
    cases hstats

end NetLab.Flow
