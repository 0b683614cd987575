/-
  The report of as6_que1.cc (lines 201-253) against the packets of the flows.

  The throughput is computed from `rxBytes`. The goodput is not computed from bytes: it is the number
  of packets times 984 or 996 bytes, whatever was in them. Bare SYNs and ACKs count as full segments,
  and segments of another size as segments of this one, so the goodput can exceed the throughput.

  * `report_iff`: when a flow is reported.
  * `payloadPart_iff`: the goodput is that of the payload exactly if the packets of every reported
    flow carry, all together, 984 (996) bytes each.
-/
import NetLab.Flow.Monitor

namespace NetLab.Flow

/-! ## The report -/

/-- A line of flowresults.dat, and what is printed for it. -/
structure Row where
  flowid : FlowId
  sourceAddress : Ipv4Address
  destinationAddress : Ipv4Address
  throughput : ℚ
  goodput : ℚ
  lostPackets : Nat
deriving DecidableEq, Repr

/-- The ports of the four sinks. -/
def SinkPort (destinationPort : UInt16) : Prop :=
  destinationPort = 8770 ∨ destinationPort = 8780 ∨ destinationPort = 8790 ∨ destinationPort = 8800

instance (destinationPort : UInt16) : Decidable (SinkPort destinationPort) :=
  inferInstanceAs (Decidable (_ ∨ _))

def payloadSize (destinationPort : UInt16) : ℚ :=
  if destinationPort = 8770 ∨ destinationPort = 8790 ∨ destinationPort = 8800 then 984 else 996

/-- `fstats.timeLastRxPacket.GetSeconds () - fstats.timeFirstTxPacket.GetSeconds ()`. -/
def FlowStats.duration (fstats : FlowStats) : ℚ :=
  getSeconds fstats.timeLastRxPacket - getSeconds fstats.timeFirstTxPacket

/-- A pass through the loop. -/
def reportFlow (flowid : FlowId) (t : FiveTuple) (fstats : FlowStats) : Option Row :=
  if SinkPort t.destinationPort then
    let duration := fstats.duration
    if duration ≤ 0 then none
    else
      some {
        flowid := flowid
        sourceAddress := t.sourceAddress
        destinationAddress := t.destinationAddress
        throughput := fstats.rxBytes * 8 / duration / 1024
        goodput := fstats.rxPackets * payloadSize t.destinationPort * 8 / duration / 1024
        lostPackets := fstats.lostPackets }
  else none

/-- The loop over the map. -/
def report (FindFlow : FlowId → FiveTuple) (stats : List (FlowId × FlowStats)) : List Row :=
  stats.filterMap fun flow => reportFlow flow.1 (FindFlow flow.1) flow.2

/-! ## The packets of a flow -/

/-- A packet that was received. -/
structure Packet where
  header : Nat
  payload : Nat
deriving DecidableEq, Repr

/-- What happened to a flow. -/
structure Traffic where
  packets : List Packet
  timeFirstTxPacket : Int64
  timeLastRxPacket : Int64
  lostPackets : Nat
deriving DecidableEq, Repr

/-- What FlowMonitor makes of it: `rxBytes` is the sum of the packets' sizes. -/
def Traffic.stats (f : Traffic) : FlowStats where
  timeFirstTxPacket := f.timeFirstTxPacket
  timeLastRxPacket := f.timeLastRxPacket
  rxBytes := (f.packets.map fun p => p.header + p.payload).sum
  rxPackets := f.packets.length
  lostPackets := f.lostPackets

/-- The payload bytes received. -/
def Traffic.payloadBytes (f : Traffic) : Nat := (f.packets.map Packet.payload).sum

/-- The flow goes to one of the sinks, and its duration is positive. -/
def Reported (t : FiveTuple) (f : Traffic) : Prop :=
  SinkPort t.destinationPort ∧ 0 < f.stats.duration

/-- **Goodput is the payload part of throughput**, for every flow that is reported. -/
def PayloadPart (FindFlow : FlowId → FiveTuple) (flows : List (FlowId × Traffic)) : Prop :=
  ∀ flow ∈ flows, ∀ row ∈ reportFlow flow.1 (FindFlow flow.1) flow.2.stats,
    row.goodput = 8 * flow.2.payloadBytes / flow.2.stats.duration / 1024 ∧
      row.goodput ≤ row.throughput

theorem payloadBytes_le (f : Traffic) : f.payloadBytes ≤ f.stats.rxBytes := by
  apply List.sum_le_sum
  intro p _
  exact Nat.le_add_left p.payload p.header

variable {t : FiveTuple} {f : Traffic} {flowid : FlowId} {row : Row}

/-- When a flow is reported, and with what. -/
theorem report_iff :
    reportFlow flowid t f.stats = some row ↔ Reported t f ∧
      { flowid := flowid
        sourceAddress := t.sourceAddress
        destinationAddress := t.destinationAddress
        throughput := f.stats.rxBytes * 8 / f.stats.duration / 1024
        goodput := f.packets.length * payloadSize t.destinationPort * 8 / f.stats.duration / 1024
        lostPackets := f.lostPackets : Row } = row := by
  unfold reportFlow Reported
  dsimp only
  by_cases hport : SinkPort t.destinationPort
  · rw [if_pos hport, and_iff_right hport]
    by_cases hduration : f.stats.duration ≤ 0
    · rw [if_pos hduration]
      exact iff_of_false nofun fun h => absurd h.1 (not_lt.mpr hduration)
    · rw [if_neg hduration, Option.some.injEq]
      exact (and_iff_right (not_le.mp hduration)).symm
  · rw [if_neg hport]
    exact iff_of_false nofun fun h => hport h.1.1

/-- **When goodput is the payload part.** Exactly if the packets of every reported flow carry the
    constant of its port each, in the sum. -/
theorem payloadPart_iff (FindFlow : FlowId → FiveTuple) (flows : List (FlowId × Traffic)) :
    PayloadPart FindFlow flows ↔ ∀ flow ∈ flows, Reported (FindFlow flow.1) flow.2 →
      (flow.2.payloadBytes : ℚ) =
        payloadSize (FindFlow flow.1).destinationPort * flow.2.packets.length := by
  unfold PayloadPart
  apply forall₂_congr
  intro flow _
  have hgoodput : ∀ {x y d : ℚ}, 0 < d → (x * 8 / d / 1024 = 8 * y / d / 1024 ↔ y = x) := by
    intro x y d hd
    field_simp
    exact eq_comm
  constructor
  · intro h hreported
    obtain ⟨hpart, _⟩ := h _ (report_iff.mpr ⟨hreported, rfl⟩)
    rw [hgoodput hreported.2] at hpart
    rw [hpart, mul_comm]
  · intro h row hrow
    obtain ⟨hreported, rfl⟩ := report_iff.mp hrow
    have hpart := h hreported
    dsimp only
    have hsame := (hgoodput hreported.2).mpr (hpart.trans (mul_comm _ _))
    refine ⟨hsame, ?_⟩
    rw [hsame]
    have hle : (flow.2.payloadBytes : ℚ) ≤ flow.2.stats.rxBytes :=
      Nat.cast_le.mpr (payloadBytes_le flow.2)
    have hpos := hreported.2
    rw [mul_comm (flow.2.stats.rxBytes : ℚ) 8]
    gcongr

/-- A TCP flow to port 8770 that received a SYN of 60 bytes and a segment of 984 bytes in a
    second. -/
def synAndSegment : Traffic := ⟨[⟨60, 0⟩, ⟨52, 984⟩], 0, 1000000000, 0⟩

def tcpTuple (_ : FlowId) : FiveTuple := ⟨⟨10, 1, 4, 2⟩, ⟨10, 1, 3, 1⟩, 8770⟩

/-- Its goodput is above its throughput. -/
theorem synAndSegment_overstated :
    (∃ row ∈ report tcpTuple [(1, synAndSegment.stats)], row.throughput < row.goodput) ∧
      ¬ PayloadPart tcpTuple [(1, synAndSegment)] := by
  have hrow : reportFlow 1 (tcpTuple 1) synAndSegment.stats = some
      ⟨1, ⟨10, 1, 4, 2⟩, ⟨10, 1, 3, 1⟩, 1096 * 8 / 1 / 1024, 2 * 984 * 8 / 1 / 1024, 0⟩ := by
    decide +kernel
  constructor
  · refine ⟨_, List.mem_filterMap.mpr ⟨_, List.mem_singleton_self _, hrow⟩, ?_⟩
    norm_num
  · intro h
    obtain ⟨_, hle⟩ := h _ (List.mem_singleton_self _) _ hrow
    norm_num at hle

end NetLab.Flow
