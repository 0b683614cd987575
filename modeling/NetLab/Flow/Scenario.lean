/-
  The scenario of as8_que1.cc (lines 94-109, 111-188) and the flows its index is about.

  `main` builds a dumbbell: left leaves, a left and a right router, right leaves. Flow `i` goes from
  the first host of `10.2.(i+1).0` to port 9000 of the first host of `10.3.(i+1).0`, and its
  acknowledgements come back as a flow of their own. Subnets are printed as text and parsed by ns-3,
  which also numbers their hosts: a parameter here, `Addressing`, assumed to do so as documented. For
  more than 255 flows the third octet does not fit a byte; nothing is assumed of such a text.

  * `interfaces_eq`, `interfaces_nodup`: the addresses of up to 255 flows, no two of them the same.
  * `map_algo`: which flows run TcpAshish; `attachTraces_right_iff`: when the traces are labelled
    right; `setUp`: all of the set-up.
  * `printed_pairs`: the index printed is that of the pairs of leaves, whatever else FlowMonitor
    has, with `1 / nFlows` and 1 as its bounds.
-/
import NetLab.Flow.Fairness
import NetLab.Lib.Dotted

namespace NetLab.Flow

open NetLab.Lib

/-! ## Addresses -/

/-- What the set-up uses of ns-3's addresses. -/
structure Addressing where
  /-- `Ipv4Address (text)`. -/
  ofText : List Char → UInt32
  /-- What `SetBase (network, "255.255.255.0")` and `Assign` give the devices of a container. -/
  assign : UInt32 → Nat → List UInt32

/-- What ns-3 documents of them: a text in dotted decimal is the address it shows, and the hosts of a
    subnet are numbered from 1 on, as far as it has hosts. -/
structure Addressing.AsDocumented (ns3 : Addressing) : Prop where
  ofText : ∀ addr, ns3.ofText (inet_ntop addr) = addr
  assign : ∀ network devices, octet network 0 = 0 → devices ≤ 254 →
    ns3.assign network devices = (List.range devices).map fun k => network + UInt32.ofNat (k + 1)

/-- `stream << start << i + 1 << ".0"`. -/
def subnet (start : List Char) (i : Nat) : List Char :=
  start ++ (Nat.toDigits 10 (i + 1) ++ ".0".toList)

def leftSubnet (i : Nat) : List Char := subnet "10.2.".toList i

def rightSubnet (i : Nat) : List Char := subnet "10.3.".toList i

/-- What connects the leaves of a pair: on each side the leaf's interface and the router's. -/
structure LeafInterfaces where
  left : List UInt32
  right : List UInt32
deriving DecidableEq, Repr

structure Interfaces where
  routers : List UInt32
  leaves : List LeafInterfaces
deriving DecidableEq, Repr

/-- A pass through the loop that assigns addresses. -/
def leafInterfaces (ns3 : Addressing) (i : Nat) : LeafInterfaces where
  left := ns3.assign (ns3.ofText (leftSubnet i)) 2
  right := ns3.assign (ns3.ofText (rightSubnet i)) 2

/-- All addresses. -/
def interfaces (ns3 : Addressing) (totflow : Nat) : Interfaces where
  routers := ns3.assign (ns3.ofText "10.1.1.0".toList) 2
  leaves := (List.range totflow).map (leafInterfaces ns3)

def Interfaces.all (I : Interfaces) : List UInt32 :=
  I.routers ++ I.leaves.flatMap fun l => l.left ++ l.right

/-- A subnet is in dotted decimal as long as its third octet is one. -/
theorem subnet_eq (start : List Char) {x : Nat} (hx : x < 256)
    (hstart : start = Nat.toDigits 10 10 ++ '.' :: (Nat.toDigits 10 x ++ ['.'])) {i : Nat}
    (hi : i < 255) : subnet start i = inet_ntop (ofOctets 10 x (i + 1) 0) := by
  unfold inet_ntop
  rw [octets_ofOctets (by decide) hx (by omega) (by decide)]
  unfold subnet joinOn
  rw [hstart]
  simp [List.intercalate, List.intersperse]

/-- The addresses of pair `i`. -/
def leafAddresses (i : Nat) : LeafInterfaces :=
  ⟨[ofOctets 10 2 (i + 1) 1, ofOctets 10 2 (i + 1) 2],
    [ofOctets 10 3 (i + 1) 1, ofOctets 10 3 (i + 1) 2]⟩

section Assigned

variable {ns3 : Addressing} (hns3 : ns3.AsDocumented)
include hns3

theorem assign_ofOctets {a b c : Nat} (ha : a < 256) (hb : b < 256) (hc : c < 256) :
    ns3.assign (ofOctets a b c 0) 2 = [ofOctets a b c 1, ofOctets a b c 2] := by
  have hadd : ∀ k, ofOctets a b c 0 + UInt32.ofNat k = ofOctets a b c k := by
    intro k
    unfold ofOctets
    rw [← UInt32.ofNat_add, Nat.add_zero]
  have hhost : octet (ofOctets a b c 0) 0 = 0 := by
    have hoct := octets_ofOctets ha hb hc (by decide : 0 < 256)
    unfold octets at hoct
    simp only [List.cons.injEq, and_true] at hoct
    exact hoct.2.2.2
  rw [hns3.assign _ 2 hhost (by decide), show List.range 2 = [0, 1] from rfl, List.map_cons,
    List.map_cons, List.map_nil, hadd, hadd]

theorem leafInterfaces_eq {i : Nat} (hi : i < 255) : leafInterfaces ns3 i = leafAddresses i := by
  have hleft := subnet_eq "10.2.".toList (x := 2) (by decide) (by decide) hi
  have hright := subnet_eq "10.3.".toList (x := 3) (by decide) (by decide) hi
  unfold leafInterfaces leftSubnet rightSubnet
  rw [hleft, hright, hns3.ofText, hns3.ofText,
    assign_ofOctets hns3 (by decide) (by decide) (by omega),
    assign_ofOctets hns3 (by decide) (by decide) (by omega)]
  rfl

/-- **The addresses of up to 255 flows.** -/
theorem interfaces_eq {totflow : Nat} (h : totflow ≤ 255) :
    interfaces ns3 totflow = ⟨[ofOctets 10 1 1 1, ofOctets 10 1 1 2],
      (List.range totflow).map leafAddresses⟩ := by
  have hbase : "10.1.1.0".toList = inet_ntop (ofOctets 10 1 1 0) := by decide +kernel
  have hleaves : (List.range totflow).map (leafInterfaces ns3) =
      (List.range totflow).map leafAddresses := by
    apply List.map_congr_left
    intro i hi
    have hlt := List.mem_range.mp hi
    exact leafInterfaces_eq hns3 (by omega)
  unfold interfaces
  rw [hbase, hns3.ofText, assign_ofOctets hns3 (by decide) (by decide) (by decide), hleaves]

/-- The octets of all addresses. -/
theorem octets_all {totflow : Nat} (h : totflow ≤ 255) :
    (interfaces ns3 totflow).all.map octets =
      [[10, 1, 1, 1], [10, 1, 1, 2]] ++ (List.range totflow).flatMap fun i =>
        [[10, 2, i + 1, 1], [10, 2, i + 1, 2], [10, 3, i + 1, 1], [10, 3, i + 1, 2]] := by
  rw [interfaces_eq hns3 h]
  unfold Interfaces.all
  rw [List.map_append, List.flatMap_map, List.map_flatMap]
  congr 1
  apply List.flatMap_congr
  intro i hi
  have hlt := List.mem_range.mp hi
  have hoct : ∀ {x k : Nat}, x < 256 → k < 256 →
      octets (ofOctets 10 x (i + 1) k) = [10, x, i + 1, k] := fun hx hk =>
    octets_ofOctets (by decide) hx (by omega) hk
  unfold leafAddresses
  simp [hoct]

/-- **No address is given twice.** -/
theorem interfaces_nodup {totflow : Nat} (h : totflow ≤ 255) :
    (interfaces ns3 totflow).all.Nodup := by
  apply List.Nodup.of_map octets
  rw [octets_all hns3 h, List.nodup_append']
  refine ⟨by decide, List.nodup_flatMap.mpr ⟨fun i _ => by simp, ?_⟩, ?_⟩
  · refine List.Nodup.pairwise_of_forall_ne (List.nodup_range) fun i _ j _ hne => ?_
    intro o hi hj
    simp only [List.mem_cons, List.not_mem_nil, or_false] at hi hj
    rcases hi with rfl | rfl | rfl | rfl <;> simp [hne] at hj
  · intro o hrouter hleaf
    obtain ⟨i, _, hi⟩ := List.mem_flatMap.mp hleaf
    simp only [List.mem_cons, List.not_mem_nil, or_false] at hrouter hi
    rcases hrouter with rfl | rfl <;> simp at hi

theorem length_all {totflow : Nat} (h : totflow ≤ 255) :
    (interfaces ns3 totflow).all.length = 2 + 4 * totflow := by
  rw [← List.length_map octets, octets_all hns3 h, List.length_append, List.length_flatMap]
  simp [Nat.mul_comm]

end Assigned

/-! ## Flows -/

/-- The octets of an address. -/
def Ipv4Address.ofUInt32 (addr : UInt32) : Ipv4Address where
  a := UInt8.ofNat (octet addr 3)
  b := UInt8.ofNat (octet addr 2)
  c := UInt8.ofNat (octet addr 1)
  d := UInt8.ofNat (octet addr 0)

/-- The flow of a pair: `rightInterfaces[i].GetAddress (0)`, from the leaf on the left. -/
def LeafInterfaces.dataTuple (l : LeafInterfaces) : FiveTuple :=
  ⟨.ofUInt32 (l.left.headD 0), .ofUInt32 (l.right.headD 0), sinkPort⟩

/-- Its acknowledgements, to the port the left leaf has picked. -/
def LeafInterfaces.ackTuple (l : LeafInterfaces) (port : UInt16) : FiveTuple :=
  ⟨.ofUInt32 (l.right.headD 0), .ofUInt32 (l.left.headD 0), port⟩

/-- FlowMonitor has flows of the scenario only, each of them once. -/
structure OfScenario (I : Interfaces) (FindFlow : FlowId → FiveTuple)
    (stats : List (FlowId × FlowStats)) : Prop where
  flow : ∀ f ∈ stats, ∃ l ∈ I.leaves, FindFlow f.1 = l.dataTuple ∨
    ∃ port, FindFlow f.1 = l.ackTuple port
  nodup : (stats.map fun f => FindFlow f.1).Nodup

/-- The flow of a pair, if it has sent anything. -/
def pairFlow (FindFlow : FlowId → FiveTuple) (stats : List (FlowId × FlowStats))
    (l : LeafInterfaces) : Option (FlowId × FlowStats) :=
  stats.find? fun f => FindFlow f.1 = l.dataTuple

/-- The throughput of a pair. -/
def pairThroughput (FindFlow : FlowId → FiveTuple) (stats : List (FlowId × FlowStats))
    (l : LeafInterfaces) : ℚ := ((pairFlow FindFlow stats l).map fun f => throughput f.2).getD 0

theorem ofUInt32_ofOctets {a b c d : Nat} (ha : a < 256) (hb : b < 256) (hc : c < 256)
    (hd : d < 256) : Ipv4Address.ofUInt32 (ofOctets a b c d) =
      ⟨UInt8.ofNat a, UInt8.ofNat b, UInt8.ofNat c, UInt8.ofNat d⟩ := by
  have hoct := octets_ofOctets ha hb hc hd
  unfold octets at hoct
  simp only [List.cons.injEq, and_true] at hoct
  obtain ⟨h3, h2, h1, h0⟩ := hoct
  unfold Ipv4Address.ofUInt32
  rw [h3, h2, h1, h0]

section Pair

variable {i : Nat} (hi : i < 255)
include hi

theorem dataTuple_leafAddresses : (leafAddresses i).dataTuple =
    ⟨⟨10, 2, UInt8.ofNat (i + 1), 1⟩, ⟨10, 3, UInt8.ofNat (i + 1), 1⟩, sinkPort⟩ := by
  have hof : ∀ {x : Nat}, x < 256 → Ipv4Address.ofUInt32 (ofOctets 10 x (i + 1) 1) =
      ⟨10, UInt8.ofNat x, UInt8.ofNat (i + 1), 1⟩ := fun hx =>
    ofUInt32_ofOctets (by decide) hx (by omega) (by decide)
  unfold LeafInterfaces.dataTuple leafAddresses
  rw [List.headD_cons, List.headD_cons, hof (by decide), hof (by decide)]
  rfl

/-- Acknowledgements go to `10.2`. -/
theorem not_sinkBound_ackTuple (port : UInt16) :
    ¬ SinkBound ((leafAddresses i).ackTuple port) := by
  have hof := ofUInt32_ofOctets (a := 10) (b := 2) (c := i + 1) (d := 1) (by decide) (by decide)
    (by omega) (by decide)
  unfold LeafInterfaces.ackTuple leafAddresses SinkBound
  rw [List.headD_cons, List.headD_cons, hof]
  intro h
  have htwo : (2 : UInt8) = 3 := h.2.1
  exact absurd htwo (by decide)

theorem sinkBound_dataTuple : SinkBound (leafAddresses i).dataTuple := by
  rw [dataTuple_leafAddresses hi]
  exact ⟨rfl, rfl, rfl⟩

theorem dataTuple_inj {j : Nat} (hj : j < 255)
    (h : (leafAddresses i).dataTuple = (leafAddresses j).dataTuple) : i = j := by
  rw [dataTuple_leafAddresses hi, dataTuple_leafAddresses hj] at h
  simp only [FiveTuple.mk.injEq, Ipv4Address.mk.injEq, and_true, true_and] at h
  have hnat := congrArg UInt8.toNat h.1
  rw [UInt8.toNat_ofNat', UInt8.toNat_ofNat'] at hnat
  omega

end Pair

section Index

variable {str : AddressText} {ns3 : Addressing} {totflow : Nat} {FindFlow : FlowId → FiveTuple}
  {stats : List (FlowId × FlowStats)}

theorem mem_leaves (hns3 : ns3.AsDocumented) (hle : totflow ≤ 255) {l : LeafInterfaces} :
    l ∈ (interfaces ns3 totflow).leaves ↔ ∃ i < totflow, l = leafAddresses i := by
  rw [interfaces_eq hns3 hle, List.mem_map]
  constructor
  · rintro ⟨i, hi, rfl⟩
    exact ⟨i, List.mem_range.mp hi, rfl⟩
  · rintro ⟨i, hlt, rfl⟩
    exact ⟨i, List.mem_range.mpr hlt, rfl⟩

/-- A flow is bound for a sink exactly if it is that of a pair. -/
theorem sinkBound_iff (hns3 : ns3.AsDocumented) (hle : totflow ≤ 255)
    (h : OfScenario (interfaces ns3 totflow) FindFlow stats) {f : FlowId × FlowStats}
    (hf : f ∈ stats) :
    SinkBound (FindFlow f.1) ↔
      ∃ l ∈ (interfaces ns3 totflow).leaves, FindFlow f.1 = l.dataTuple := by
  constructor
  · intro hsink
    obtain ⟨l, hl, hdata | ⟨port, hack⟩⟩ := h.flow f hf
    · exact ⟨l, hl, hdata⟩
    · obtain ⟨i, hi, rfl⟩ := (mem_leaves hns3 hle).mp hl
      rw [hack] at hsink
      exact absurd hsink (not_sinkBound_ackTuple (by omega) port)
  · rintro ⟨l, hl, hdata⟩
    obtain ⟨i, hi, rfl⟩ := (mem_leaves hns3 hle).mp hl
    rw [hdata]
    exact sinkBound_dataTuple (by omega)

theorem pairFlow_eq_some {I : Interfaces} (h : OfScenario I FindFlow stats) {l : LeafInterfaces}
    {f : FlowId × FlowStats} :
    pairFlow FindFlow stats l = some f ↔ f ∈ stats ∧ FindFlow f.1 = l.dataTuple := by
  unfold pairFlow
  constructor
  · intro hf
    exact ⟨List.mem_of_find?_eq_some hf, by simpa using List.find?_some hf⟩
  · rintro ⟨hf, hdata⟩
    have hsome : (stats.find? fun f => decide (FindFlow f.1 = l.dataTuple)).isSome :=
      List.find?_isSome.mpr ⟨f, hf, decide_eq_true hdata⟩
    obtain ⟨g, hg⟩ := Option.isSome_iff_exists.mp hsome
    have hsame : FindFlow g.1 = FindFlow f.1 := by
      have hfound := List.find?_some hg
      exact (of_decide_eq_true hfound).trans hdata.symm
    rw [hg, List.inj_on_of_nodup_map h.nodup (List.mem_of_find?_eq_some hg) hf hsame]

/-- The flows to the sinks are those of the pairs, in another order. -/
theorem perm_pairFlows (hns3 : ns3.AsDocumented) (hle : totflow ≤ 255)
    (h : OfScenario (interfaces ns3 totflow) FindFlow stats) :
    (stats.filter fun f => SinkBound (FindFlow f.1)).Perm
      ((interfaces ns3 totflow).leaves.filterMap (pairFlow FindFlow stats)) := by
  have hleaves : (interfaces ns3 totflow).leaves = (List.range totflow).map leafAddresses := by
    rw [interfaces_eq hns3 hle]
  have hnodup : ((interfaces ns3 totflow).leaves.filterMap (pairFlow FindFlow stats)).Nodup := by
    rw [hleaves, List.filterMap_map]
    refine List.pairwise_filterMap.mpr (List.Nodup.pairwise_of_forall_ne List.nodup_range ?_)
    intro i hi j hj hne f hf g hg hfg
    have hi := List.mem_range.mp hi
    have hj := List.mem_range.mp hj
    have hfi := ((pairFlow_eq_some h).mp hf).2
    have hgj := ((pairFlow_eq_some h).mp hg).2
    rw [hfg, hgj] at hfi
    exact hne (dataTuple_inj (by omega) (by omega) hfi.symm)
  have hstats := List.Nodup.of_map _ h.nodup
  refine (List.perm_ext_iff_of_nodup (hstats.filter _) hnodup).mpr fun f => ?_
  rw [List.mem_filter, List.mem_filterMap]
  simp only [pairFlow_eq_some h, decide_eq_true_eq]
  constructor
  · rintro ⟨hf, hsink⟩
    obtain ⟨l, hl, hdata⟩ := (sinkBound_iff hns3 hle h hf).mp hsink
    exact ⟨l, hl, hf, hdata⟩
  · rintro ⟨l, hl, hf, hdata⟩
    exact ⟨hf, (sinkBound_iff hns3 hle h hf).mpr ⟨l, hl, hdata⟩⟩

/-- A pair without a flow has no share. -/
theorem filter_pos_map {α β : Type} (g : α → Option β) (share : β → ℚ) (l : List α) :
    (l.map fun x => ((g x).map share).getD 0).filter (0 < ·) =
      ((l.filterMap g).map share).filter (0 < ·) := by
  induction l with
  | nil => rfl
  | cons x l ih =>
    rw [List.map_cons, List.filter_cons, ih]
    cases hx : g x with
    | none =>
      rw [List.filterMap_cons_none hx]
      rfl
    | some y =>
      rw [List.filterMap_cons_some hx, List.map_cons, List.filter_cons]
      rfl

/-- **The index is that of the pairs.** In the scenario of up to 255 flows, and for whatever part of
    them FlowMonitor has in whatever order, with whatever acknowledgements beside them, the value
    printed is Jain's index of the throughputs of the pairs that received anything. It is at most 1,
    and at least `1 / nFlows` if there is such a pair. -/
theorem printed_pairs (hstr : str.DottedDecimal) (hns3 : ns3.AsDocumented) (totflow : Nat)
    (hle : totflow ≤ 255) (FindFlow : FlowId → FiveTuple) (stats : List (FlowId × FlowStats))
    (h : OfScenario (interfaces ns3 totflow) FindFlow stats) :
    (interfaces ns3 totflow).leaves.length = totflow ∧
      printed str FindFlow stats =
        jain (((interfaces ns3 totflow).leaves.map (pairThroughput FindFlow stats)).filter
          (0 < ·)) ∧
      printed str FindFlow stats ≤ 1 ∧
      ((∃ l ∈ (interfaces ns3 totflow).leaves, 0 < pairThroughput FindFlow stats l) →
        1 / (totflow : ℚ) ≤ printed str FindFlow stats) := by
  have hlen : (interfaces ns3 totflow).leaves.length = totflow := by
    rw [interfaces_eq hns3 hle, List.length_map, List.length_range]
  have hperm := perm_pairFlows hns3 hle h
  generalize (interfaces ns3 totflow).leaves = leaves at hlen hperm
  have hprinted : printed str FindFlow stats =
      jain ((leaves.map (pairThroughput FindFlow stats)).filter (0 < ·)) := by
    rw [printed_eq_jain, counted_eq_served _ _ hstr]
    apply jain_perm
    unfold served throughputs pairThroughput
    rw [filter_pos_map]
    exact (hperm.map _).filter _
  refine ⟨hlen, hprinted, hprinted ▸ jain_le_one _, ?_⟩
  rintro ⟨l, hl, hpos⟩
  have hmem : pairThroughput FindFlow stats l ∈
      (leaves.map (pairThroughput FindFlow stats)).filter (0 < ·) :=
    List.mem_filter.mpr ⟨List.mem_map_of_mem hl, decide_eq_true hpos⟩
  have hne := List.ne_nil_of_mem hmem
  have hcount : ((leaves.map (pairThroughput FindFlow stats)).filter (0 < ·)).length ≤ totflow := by
    refine (List.length_filter_le _ _).trans ?_
    rw [List.length_map, hlen]
  rw [hprinted]
  calc 1 / (totflow : ℚ)
      ≤ 1 / (((leaves.map (pairThroughput FindFlow stats)).filter (0 < ·)).length : ℚ) :=
        one_div_le_one_div_of_le (Nat.cast_pos.mpr (List.length_pos_of_ne_nil hne))
          (Nat.cast_le.mpr hcount)
    _ ≤ _ := inv_length_le_jain hne fun x hx => of_decide_eq_true (List.mem_filter.mp hx).2

/-- Addresses as they are documented. -/
def plainAddressing : Addressing where
  ofText text := (inet_pton text).getD 0
  assign network devices := (List.range devices).map fun k => network + UInt32.ofNat (k + 1)

theorem plainAddressing_asDocumented : plainAddressing.AsDocumented where
  ofText addr := by
    unfold plainAddressing
    dsimp only
    rw [inet_pton_inet_ntop, Option.getD_some]
  assign _ _ _ _ := rfl

/-- Of two pairs one has sent anything; FlowMonitor has its acknowledgements first. -/
def twoPairs : FlowId → FiveTuple
  | 1 => ⟨⟨10, 3, 2, 1⟩, ⟨10, 2, 2, 1⟩, 49153⟩
  | _ => ⟨⟨10, 2, 2, 1⟩, ⟨10, 3, 2, 1⟩, 9000⟩

def secondPair : List (FlowId × FlowStats) :=
  [(1, ⟨0, 9000000000, 52000, 1000, 0⟩), (2, ⟨0, 9000000000, 1076000, 1000, 3⟩)]

theorem secondPair_printed :
    (interfaces plainAddressing 2).leaves.length = 2 ∧
      printed Ipv4Address.dotted twoPairs secondPair =
        jain (((interfaces plainAddressing 2).leaves.map
          (pairThroughput twoPairs secondPair)).filter (0 < ·)) ∧
      printed Ipv4Address.dotted twoPairs secondPair ≤ 1 ∧
      ((∃ l ∈ (interfaces plainAddressing 2).leaves, 0 < pairThroughput twoPairs secondPair l) →
        1 / ((2 : Nat) : ℚ) ≤ printed Ipv4Address.dotted twoPairs secondPair) := by
  refine printed_pairs (fun _ => rfl) plainAddressing_asDocumented 2 (by decide) twoPairs secondPair
    ⟨fun f hf => ?_, by decide⟩
  refine ⟨leafAddresses 1, (mem_leaves plainAddressing_asDocumented (by decide)).mpr
    ⟨1, by decide, rfl⟩, ?_⟩
  simp only [secondPair, List.mem_cons, List.not_mem_nil, or_false] at hf
  rcases hf with rfl | rfl
  · exact .inr ⟨49153, by decide +kernel⟩
  · exact .inl (by decide +kernel)

end Index

/-! ## Algorithms and traces -/

/-- `std::string algo`. -/
inductive Algo where
  | tcpNewReno
  | tcpAshish
deriving DecidableEq, Repr

/-- `(mix && i >= totflow / 2) ? "ns3::TcpAshish" : "ns3::TcpNewReno"`. -/
def algo (mix : Bool) (totflow i : Nat) : Algo :=
  if mix = true ∧ totflow / 2 ≤ i then .tcpAshish else .tcpNewReno

/-- `AttachTraces`: the algorithm in the names of the files, and the leaf on the left whose socket
    they are about. -/
def attachTraces (mix : Bool) (totflow : Nat) : List (Algo × Nat) :=
  (.tcpNewReno, 0) :: if mix = true then [(.tcpAshish, totflow - 1)] else []

/-- **Who runs TcpAshish.** In a mixed run the second half of the flows, the larger if their number is
    odd; in any other run no flow. -/
theorem map_algo (mix : Bool) (totflow : Nat) :
    (List.range totflow).map (algo mix totflow) =
      if mix = true then
        List.replicate (totflow / 2) .tcpNewReno ++
          List.replicate (totflow - totflow / 2) .tcpAshish
      else List.replicate totflow .tcpNewReno := by
  cases mix with
  | false =>
    rw [if_neg Bool.false_ne_true, List.eq_replicate_iff]
    refine ⟨by simp, fun a ha => ?_⟩
    obtain ⟨i, _, rfl⟩ := List.mem_map.mp ha
    exact if_neg fun h => Bool.false_ne_true h.1
  | true =>
    have hsplit : List.range totflow =
        List.range (totflow / 2) ++ (List.range (totflow - totflow / 2)).map (totflow / 2 + ·) := by
      rw [← List.range_add, Nat.add_sub_cancel' (Nat.div_le_self _ _)]
    rw [if_pos rfl, hsplit, List.map_append, List.map_map]
    congr 1
    · rw [List.eq_replicate_iff]
      refine ⟨by simp, fun a ha => ?_⟩
      obtain ⟨i, hi, rfl⟩ := List.mem_map.mp ha
      have hlt := List.mem_range.mp hi
      exact if_neg fun h => by omega
    · rw [List.eq_replicate_iff]
      refine ⟨by simp, fun a ha => ?_⟩
      obtain ⟨i, _, rfl⟩ := List.mem_map.mp ha
      exact if_pos ⟨rfl, Nat.le_add_right _ _⟩

/-- The files are named after what they trace, but for a single flow that runs TcpAshish. -/
theorem attachTraces_right_iff {mix : Bool} {totflow : Nat} (hpos : 1 ≤ totflow) :
    (∀ p ∈ attachTraces mix totflow, algo mix totflow p.2 = p.1) ↔ mix = false ∨ 2 ≤ totflow := by
  cases mix with
  | false => simp [attachTraces, algo]
  | true =>
    have hfirst : algo true totflow 0 = .tcpNewReno ↔ 2 ≤ totflow := by
      unfold algo
      by_cases h : 2 ≤ totflow
      · rw [if_neg (by omega)]
        exact iff_of_true rfl h
      · rw [if_pos ⟨rfl, by omega⟩]
        exact iff_of_false (by decide) h
    have hlast : algo true totflow (totflow - 1) = .tcpAshish := if_pos ⟨rfl, by omega⟩
    simp [attachTraces, hfirst, hlast]

/-- **The set-up.** For up to 255 flows every interface gets an address, and no two the same. In a
    mixed run the second half of the flows, the larger if the number is odd, runs TcpAshish, and all
    others run TcpNewReno; and the two traced flows run what their files are named after, but where
    a single flow is all of the mix. -/
theorem setUp (ns3 : Addressing) (hns3 : ns3.AsDocumented) (mix : Bool) (totflow : Nat)
    (hpos : 1 ≤ totflow) :
    (totflow ≤ 255 → (interfaces ns3 totflow).all.Nodup ∧
        (interfaces ns3 totflow).all.length = 2 + 4 * totflow) ∧
      (List.range totflow).map (algo mix totflow) =
        (if mix = true then
          List.replicate (totflow / 2) .tcpNewReno ++
            List.replicate (totflow - totflow / 2) .tcpAshish
        else List.replicate totflow .tcpNewReno) ∧
      ((∀ p ∈ attachTraces mix totflow, algo mix totflow p.2 = p.1) ↔
        mix = false ∨ 2 ≤ totflow) :=
  ⟨fun h => ⟨interfaces_nodup hns3 h, length_all hns3 h⟩, map_algo mix totflow,
    attachTraces_right_iff hpos⟩

theorem setUp_mixedFive :
    (5 ≤ 255 → (interfaces plainAddressing 5).all.Nodup ∧
        (interfaces plainAddressing 5).all.length = 2 + 4 * 5) ∧
      (List.range 5).map (algo true 5) =
        (if true = true then
          List.replicate (5 / 2) .tcpNewReno ++ List.replicate (5 - 5 / 2) .tcpAshish
        else List.replicate 5 .tcpNewReno) ∧
      ((∀ p ∈ attachTraces true 5, algo true 5 p.2 = p.1) ↔ true = false ∨ 2 ≤ 5) :=
  setUp plainAddressing plainAddressing_asDocumented true 5 (by decide)

end NetLab.Flow
