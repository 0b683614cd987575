/-
  The fairness index of as8_que1.cc (lines 196-222).

  The loop takes the flows to port 9000 of an address that prints as `10.3.`something, skips those
  that received nothing, and sums the throughputs, their squares and their number. What is printed is
  Jain's index of the flows it has counted: a flow that is starved completely is left out of the
  population. How an address prints is ns-3's and a parameter, `str`.

  * `accumulate_eq`: the three sums are those of the throughputs counted; `printed_eq_jain`: the
    value printed is the index of these.
  * `jainLaws`: so it has the laws of the index, however addresses print.
  * `selected_iff`: in dotted decimal the test on the printed address is one on its first two octets.
  * `printed_served`: the value printed against the index of all flows of the sinks.
-/
import NetLab.Lib.Jain
import NetLab.Flow.Monitor

namespace NetLab.Flow

open NetLab.Lib

/-! ## The program -/

/-- `uint16_t sinkPort = 9000`. -/
def sinkPort : UInt16 := 9000

/-- How `destStream << t.destinationAddress` prints. -/
abbrev AddressText := Ipv4Address → List Char

/-- The octets in decimal, with dots between them. -/
def Ipv4Address.dotted (addr : Ipv4Address) : List Char :=
  Nat.toDigits 10 addr.a.toNat ++ '.' :: (Nat.toDigits 10 addr.b.toNat ++ '.' ::
    (Nat.toDigits 10 addr.c.toNat ++ '.' :: Nat.toDigits 10 addr.d.toNat))

/-- What ns-3 documents of printing an address. -/
def AddressText.DottedDecimal (str : AddressText) : Prop := ∀ addr, str addr = addr.dotted

/-- `std::string::find`: the first place `pattern` occurs at. -/
def find (pattern s : List Char) : Option Nat := s.tails.findIdx? (pattern.isPrefixOf ·)

/-- `destStream.str ().find ("10.3.") == 0 && t.destinationPort == sinkPort`. -/
def Selected (str : AddressText) (t : FiveTuple) : Prop :=
  find ['1', '0', '.', '3', '.'] (str t.destinationAddress) = some 0 ∧ t.destinationPort = sinkPort

instance (str : AddressText) (t : FiveTuple) : Decidable (Selected str t) :=
  inferInstanceAs (Decidable (_ ∧ _))

def throughput (stats : FlowStats) : ℚ := stats.rxBytes * 8 / (10 - 2) / 1000000

/-- The variables of the loop. -/
structure Sums where
  sthroghput : ℚ
  sthroghputSq : ℚ
  validFlows : Nat
deriving DecidableEq, Repr

/-- A pass through the loop. -/
def Sums.pass (str : AddressText) (FindFlow : FlowId → FiveTuple) (sums : Sums)
    (i : FlowId × FlowStats) : Sums :=
  if Selected str (FindFlow i.1) then
    if throughput i.2 > 0 then
      { sthroghput := sums.sthroghput + throughput i.2
        sthroghputSq := sums.sthroghputSq + throughput i.2 * throughput i.2
        validFlows := sums.validFlows + 1 }
    else sums
  else sums

def accumulate (str : AddressText) (FindFlow : FlowId → FiveTuple)
    (stats : List (FlowId × FlowStats)) : Sums :=
  stats.foldl (Sums.pass str FindFlow) ⟨0, 0, 0⟩

/-- `validFlows > 0 && sthroghputSq > 0`. -/
def Sums.Valid (sums : Sums) : Prop := sums.validFlows > 0 ∧ sums.sthroghputSq > 0

instance (sums : Sums) : Decidable sums.Valid := inferInstanceAs (Decidable (_ ∧ _))

def Sums.divisor (sums : Sums) : ℚ := sums.validFlows * sums.sthroghputSq

def Sums.jainsIndex (sums : Sums) : ℚ := sums.sthroghput * sums.sthroghput / sums.divisor

/-- What is printed. -/
def printed (str : AddressText) (FindFlow : FlowId → FiveTuple)
    (stats : List (FlowId × FlowStats)) : ℚ :=
  let sums := accumulate str FindFlow stats
  if sums.Valid then sums.jainsIndex else 0

/-! ## The flows that are counted -/

/-- The flow goes into the sums. -/
def Counted (str : AddressText) (FindFlow : FlowId → FiveTuple) (i : FlowId × FlowStats) : Prop :=
  Selected str (FindFlow i.1) ∧ throughput i.2 > 0

/-- The throughputs that are counted. -/
def counted (str : AddressText) (FindFlow : FlowId → FiveTuple)
    (stats : List (FlowId × FlowStats)) : List ℚ :=
  ((stats.filter fun i => Selected str (FindFlow i.1)).map fun i => throughput i.2).filter (0 < ·)

variable (str : AddressText) (FindFlow : FlowId → FiveTuple) (stats : List (FlowId × FlowStats))

theorem foldl_pass (sums : Sums) :
    stats.foldl (Sums.pass str FindFlow) sums =
      ⟨sums.sthroghput + (counted str FindFlow stats).sum,
        sums.sthroghputSq + sumSq (counted str FindFlow stats),
        sums.validFlows + (counted str FindFlow stats).length⟩ := by
  induction stats generalizing sums with
  | nil => simp [counted]
  | cons i stats ih =>
    rw [List.foldl_cons, ih]
    unfold Sums.pass counted
    by_cases hsel : Selected str (FindFlow i.1)
    · rw [if_pos hsel, List.filter_cons_of_pos (by simpa using hsel), List.map_cons]
      by_cases hpos : 0 < throughput i.2
      · rw [if_pos hpos, List.filter_cons_of_pos (by simpa using hpos), List.sum_cons, sumSq_cons,
          List.length_cons, add_assoc, add_assoc, Nat.add_assoc, Nat.add_comm 1]
      · rw [if_neg hpos, List.filter_cons_of_neg (by simpa using hpos)]
    · rw [if_neg hsel, List.filter_cons_of_neg (by simpa using hsel)]

/-- **The sums of the loop.** -/
theorem accumulate_eq :
    accumulate str FindFlow stats =
      ⟨(counted str FindFlow stats).sum, sumSq (counted str FindFlow stats),
        (counted str FindFlow stats).length⟩ := by
  simp [accumulate, foldl_pass]

theorem throughput_pos_iff (stats : FlowStats) : 0 < throughput stats ↔ 0 < stats.rxBytes := by
  unfold throughput
  constructor
  · intro h
    apply Nat.pos_of_ne_zero
    intro hzero
    simp [hzero] at h
  · intro h
    have hcast : (0 : ℚ) < stats.rxBytes := Nat.cast_pos.mpr h
    positivity

theorem throughput_eq_zero_iff (stats : FlowStats) : throughput stats = 0 ↔ stats.rxBytes = 0 := by
  norm_num [throughput]

theorem mem_counted {x : ℚ} : x ∈ counted str FindFlow stats ↔
    ∃ i ∈ stats, Counted str FindFlow i ∧ throughput i.2 = x := by
  unfold counted Counted
  rw [List.mem_filter, List.mem_map]
  constructor
  · rintro ⟨⟨i, hi, rfl⟩, hpos⟩
    obtain ⟨hi, hsel⟩ := List.mem_filter.mp hi
    exact ⟨i, hi, ⟨by simpa using hsel, by simpa using hpos⟩, rfl⟩
  · rintro ⟨i, hi, ⟨hsel, hpos⟩, rfl⟩
    exact ⟨⟨i, List.mem_filter.mpr ⟨hi, by simpa using hsel⟩, rfl⟩, by simpa using hpos⟩

theorem counted_pos : ∀ x ∈ counted str FindFlow stats, 0 < x :=
  fun x hx => by simpa using (List.mem_filter.mp hx).2

/-- The final test is that a flow was counted. -/
theorem valid_iff : (accumulate str FindFlow stats).Valid ↔ counted str FindFlow stats ≠ [] := by
  rw [accumulate_eq]
  constructor
  · intro h
    exact List.ne_nil_of_length_pos h.1
  · intro h
    exact ⟨List.length_pos_of_ne_nil h, sumSq_pos h (counted_pos str FindFlow stats)⟩

/-- **The value printed is the index of the flows that were counted.** -/
theorem printed_eq_jain : printed str FindFlow stats = jain (counted str FindFlow stats) := by
  unfold printed
  dsimp only
  split
  · rw [accumulate_eq]
    rfl
  · rename_i h
    have hnil := not_not.mp (fun hne => h ((valid_iff str FindFlow stats).mpr hne))
    rw [hnil]
    simp [jain]

/-! ## The laws of the index -/

/-- The flow has received `c` times as many bytes. -/
def scaleBytes (c : Nat) (i : FlowId × FlowStats) : FlowId × FlowStats :=
  (i.1, { i.2 with rxBytes := c * i.2.rxBytes })

/-- Jain's laws for what the program computes. -/
structure JainLaws : Prop where
  zero : (¬ ∃ i ∈ stats, Counted str FindFlow i) → printed str FindFlow stats = 0
  ge_inv : (∃ i ∈ stats, Counted str FindFlow i) →
    1 / ((accumulate str FindFlow stats).validFlows : ℚ) ≤ printed str FindFlow stats
  le_one : printed str FindFlow stats ≤ 1
  eq_one_iff : (∃ i ∈ stats, Counted str FindFlow i) →
    (printed str FindFlow stats = 1 ↔ ∀ i ∈ stats, ∀ j ∈ stats, Counted str FindFlow i →
      Counted str FindFlow j → throughput i.2 = throughput j.2)
  eq_inv : (∃ i ∈ stats, Counted str FindFlow i) →
    printed str FindFlow stats = 1 / ((accumulate str FindFlow stats).validFlows : ℚ) →
    (accumulate str FindFlow stats).validFlows = 1
  perm : ∀ stats', stats'.Perm stats → printed str FindFlow stats' = printed str FindFlow stats
  scale : ∀ c, 0 < c →
    printed str FindFlow (stats.map (scaleBytes c)) = printed str FindFlow stats
  divisor_ne_zero : (accumulate str FindFlow stats).Valid →
    (accumulate str FindFlow stats).divisor ≠ 0

theorem counted_ne_nil_iff :
    counted str FindFlow stats ≠ [] ↔ ∃ i ∈ stats, Counted str FindFlow i := by
  constructor
  · intro h
    obtain ⟨x, hx⟩ := List.exists_mem_of_ne_nil _ h
    obtain ⟨i, hi, hcounted, _⟩ := (mem_counted str FindFlow stats).mp hx
    exact ⟨i, hi, hcounted⟩
  · rintro ⟨i, hi, hcounted⟩
    exact List.ne_nil_of_mem ((mem_counted str FindFlow stats).mpr ⟨i, hi, hcounted, rfl⟩)

theorem counted_perm {stats stats' : List (FlowId × FlowStats)} (h : stats'.Perm stats) :
    (counted str FindFlow stats').Perm (counted str FindFlow stats) :=
  ((h.filter _).map _).filter _

/-- Scaled flows have scaled throughputs. -/
theorem counted_scale {c : Nat} (hc : 0 < c) :
    counted str FindFlow (stats.map (scaleBytes c)) =
      (counted str FindFlow stats).map ((c : ℚ) * ·) := by
  have hcast : (0 : ℚ) < c := Nat.cast_pos.mpr hc
  have hthroughput : ∀ i : FlowId × FlowStats,
      throughput (scaleBytes c i).2 = c * throughput i.2 := by
    intro i
    unfold throughput scaleBytes
    push_cast
    ring
  have hselected : ((stats.map (scaleBytes c)).filter fun i => Selected str (FindFlow i.1)).map
      (fun i => throughput i.2) =
      ((stats.filter fun i => Selected str (FindFlow i.1)).map fun i => throughput i.2).map
        ((c : ℚ) * ·) := by
    rw [List.filter_map, List.map_map, List.map_map]
    exact List.map_congr_left fun i _ => hthroughput i
  unfold counted
  rw [hselected, List.filter_map]
  congr 2
  funext x
  exact decide_eq_decide.mpr (mul_pos_iff_of_pos_left hcast)

/-- **Jain's laws** hold of the value printed, for every family of flow statistics. -/
theorem jainLaws : JainLaws str FindFlow stats := by
  have hpos := counted_pos str FindFlow stats
  have hne := counted_ne_nil_iff str FindFlow stats
  have hvalid : (accumulate str FindFlow stats).validFlows =
      (counted str FindFlow stats).length := by
    rw [accumulate_eq]
  refine ⟨fun h => ?_, fun h => ?_, ?_, fun h => ?_, fun h => ?_, fun stats' h => ?_,
    fun c hc => ?_, fun h => ?_⟩
  · rw [printed_eq_jain, not_not.mp (mt hne.mp h)]
    simp [jain]
  · rw [printed_eq_jain, hvalid]
    exact inv_length_le_jain (hne.mpr h) hpos
  · rw [printed_eq_jain]
    exact jain_le_one _
  · rw [printed_eq_jain, jain_eq_one_iff (hne.mpr h) hpos]
    simp only [mem_counted]
    constructor
    · intro heq i hi j hj hci hcj
      exact heq _ ⟨i, hi, hci, rfl⟩ _ ⟨j, hj, hcj, rfl⟩
    · rintro heq _ ⟨i, hi, hci, rfl⟩ _ ⟨j, hj, hcj, rfl⟩
      exact heq i hi j hj hci hcj
  · rw [printed_eq_jain, hvalid]
    exact (jain_eq_inv_length_iff (hne.mpr h) hpos).mp
  · rw [printed_eq_jain, printed_eq_jain]
    exact jain_perm (counted_perm str FindFlow h)
  · rw [printed_eq_jain, printed_eq_jain, counted_scale str FindFlow stats hc]
    exact jain_map_mul (Nat.cast_ne_zero.mpr hc.ne') _
  · unfold Sums.divisor
    exact (mul_pos (Nat.cast_pos.mpr h.1) h.2).ne'

/-! ## The flows of the sinks -/

/-- The destination is port 9000 of 10.3.*. -/
def SinkBound (t : FiveTuple) : Prop :=
  t.destinationAddress.a = 10 ∧ t.destinationAddress.b = 3 ∧ t.destinationPort = 9000

instance (t : FiveTuple) : Decidable (SinkBound t) := inferInstanceAs (Decidable (_ ∧ _))

theorem find_eq_zero_iff {pattern s : List Char} : find pattern s = some 0 ↔ pattern <+: s := by
  have htails : ∃ rest, s.tails = s :: rest := by
    cases s with
    | nil => exact ⟨[], rfl⟩
    | cons c s => exact ⟨s.tails, List.tails_cons c s⟩
  obtain ⟨rest, htails⟩ := htails
  unfold find
  rw [htails, List.findIdx?_cons, ← List.isPrefixOf_iff_prefix]
  split
  · rename_i h
    exact iff_of_true rfl h
  · rename_i h
    refine iff_of_false ?_ h
    simp

/-- Digits have no dot, and tell the octet. -/
theorem toDigits_octet (b : UInt8) :
    '.' ∉ Nat.toDigits 10 b.toNat ∧ (['1', '0'] = Nat.toDigits 10 b.toNat ↔ b = 10) ∧
      (['3'] = Nat.toDigits 10 b.toNat ↔ b = 3) := by
  have hall : ∀ n < 256, '.' ∉ Nat.toDigits 10 n ∧ (['1', '0'] = Nat.toDigits 10 n ↔ n = 10) ∧
      (['3'] = Nat.toDigits 10 n ↔ n = 3) := by decide +kernel
  obtain ⟨hdot, h10, h3⟩ := hall b.toNat b.toNat_lt
  exact ⟨hdot, h10.trans (UInt8.toNat_inj (b := 10)), h3.trans (UInt8.toNat_inj (b := 3))⟩

/-- The part in front of the first dot. -/
theorem prefix_append_dot {p w : List Char} (q r : List Char) (hp : '.' ∉ p) (hw : '.' ∉ w) :
    p ++ '.' :: q <+: w ++ '.' :: r ↔ p = w ∧ q <+: r := by
  induction p generalizing w with
  | nil =>
    cases w with
    | nil => simp
    | cons c w =>
      have hc : '.' ≠ c := List.ne_of_not_mem_cons hw
      simp [List.cons_prefix_cons, hc]
  | cons c p ih =>
    have hc : '.' ≠ c := List.ne_of_not_mem_cons hp
    cases w with
    | nil => simp [List.cons_prefix_cons, hc.symm]
    | cons d w =>
      have ih := ih (List.not_mem_of_not_mem_cons hp) (List.not_mem_of_not_mem_cons hw)
      rw [List.cons_append, List.cons_append, List.cons_prefix_cons, ih, List.cons.injEq, and_assoc]

/-- The throughputs of the flows of the sinks. -/
def throughputs (FindFlow : FlowId → FiveTuple) (stats : List (FlowId × FlowStats)) : List ℚ :=
  (stats.filter fun i => SinkBound (FindFlow i.1)).map fun i => throughput i.2

/-- Those of the flows that received anything. -/
def served (FindFlow : FlowId → FiveTuple) (stats : List (FlowId × FlowStats)) : List ℚ :=
  (throughputs FindFlow stats).filter (0 < ·)

theorem forall_throughputs {p : ℚ → Prop} : (∀ x ∈ throughputs FindFlow stats, p x) ↔
    ∀ i ∈ stats, SinkBound (FindFlow i.1) → p (throughput i.2) := by
  unfold throughputs
  constructor
  · intro h i hi hsink
    exact h _ (List.mem_map.mpr ⟨i, List.mem_filter.mpr ⟨hi, by simpa using hsink⟩, rfl⟩)
  · intro h x hx
    obtain ⟨i, hi, rfl⟩ := List.mem_map.mp hx
    obtain ⟨hi, hsink⟩ := List.mem_filter.mp hi
    exact h i hi (by simpa using hsink)

theorem throughputs_nonneg : ∀ x ∈ throughputs FindFlow stats, 0 ≤ x := by
  intro x hx
  obtain ⟨i, _, rfl⟩ := List.mem_map.mp hx
  unfold throughput
  positivity

variable {str}

/-- **The test on the printed address** is one on its first two octets. -/
theorem selected_iff (hstr : str.DottedDecimal) (t : FiveTuple) :
    Selected str t ↔ SinkBound t := by
  obtain ⟨ha, h10, _⟩ := toDigits_octet t.destinationAddress.a
  obtain ⟨hb, _, h3⟩ := toDigits_octet t.destinationAddress.b
  have hfirst := fun r => prefix_append_dot ['3', '.'] r (by decide : '.' ∉ ['1', '0']) ha
  have hsecond := fun r => prefix_append_dot [] r (by decide : '.' ∉ ['3']) hb
  unfold Selected SinkBound sinkPort
  rw [find_eq_zero_iff, hstr, Ipv4Address.dotted]
  have hboth := fun r => (hfirst _).trans (and_congr h10 ((hsecond r).trans
    (and_congr h3 (iff_true_intro List.nil_prefix))))
  rw [← and_assoc]
  exact and_congr_left fun _ => (hboth _).trans (by rw [and_true])

/-- So the flows counted are those of the sinks that received anything. -/
theorem counted_eq_served (hstr : str.DottedDecimal) :
    counted str FindFlow stats = served FindFlow stats := by
  unfold counted served throughputs
  congr 2
  exact List.filter_congr fun i _ => decide_eq_decide.mpr (selected_iff hstr _)

/-! ## The population -/

/-- What is not bound for a sink does not matter. -/
theorem printed_congr (hstr : str.DottedDecimal) {stats stats' : List (FlowId × FlowStats)}
    (h : stats'.filter (fun i => SinkBound (FindFlow i.1)) =
      stats.filter fun i => SinkBound (FindFlow i.1)) :
    printed str FindFlow stats' = printed str FindFlow stats := by
  rw [printed_eq_jain, printed_eq_jain, counted_eq_served _ _ hstr, counted_eq_served _ _ hstr]
  unfold served throughputs
  rw [h]

/-- **The index is that of the flows that received anything.** For every map, the value printed is
    Jain's index of these, 0 if there are none. It is the index of all flows of the sinks but for the
    number it is divided by, so it is never below that one, and equal to it only if no flow of the
    sinks is starved or all of them are. Other flows do not contribute. -/
theorem printed_served (hstr : str.DottedDecimal) :
    printed str FindFlow stats = jain (served FindFlow stats) ∧
      ((∀ i ∈ stats, SinkBound (FindFlow i.1) → i.2.rxBytes = 0) →
        printed str FindFlow stats = 0) ∧
      (served FindFlow stats).length * printed str FindFlow stats =
        (throughputs FindFlow stats).length * jain (throughputs FindFlow stats) ∧
      jain (throughputs FindFlow stats) ≤ printed str FindFlow stats ∧
      (printed str FindFlow stats = jain (throughputs FindFlow stats) ↔
        (∀ i ∈ stats, SinkBound (FindFlow i.1) → 0 < i.2.rxBytes) ∨
          ∀ i ∈ stats, SinkBound (FindFlow i.1) → i.2.rxBytes = 0) ∧
      ∀ stats', (stats'.filter fun i => SinkBound (FindFlow i.1)) =
          (stats.filter fun i => SinkBound (FindFlow i.1)) →
        printed str FindFlow stats' = printed str FindFlow stats := by
  have hnonneg := throughputs_nonneg FindFlow stats
  have hall : (∀ x ∈ throughputs FindFlow stats, 0 < x) ↔
      ∀ i ∈ stats, SinkBound (FindFlow i.1) → 0 < i.2.rxBytes := by
    rw [forall_throughputs]
    simp only [throughput_pos_iff]
  have hnone : (∀ x ∈ throughputs FindFlow stats, x = 0) ↔
      ∀ i ∈ stats, SinkBound (FindFlow i.1) → i.2.rxBytes = 0 := by
    rw [forall_throughputs]
    simp only [throughput_eq_zero_iff]
  have hprinted : printed str FindFlow stats = jain (served FindFlow stats) := by
    rw [printed_eq_jain, counted_eq_served _ _ hstr]
  rw [hprinted, ← hall, ← hnone]
  refine ⟨rfl, fun h => ?_, length_mul_jain_filter hnonneg, jain_le_jain_filter hnonneg,
    jain_filter_eq_iff hnonneg, fun stats' h => ?_⟩
  · have hnil : served FindFlow stats = [] := by
      apply List.filter_eq_nil_iff.mpr
      intro x hx
      simp [h x hx]
    rw [hnil]
    simp [jain]
  · rw [← hprinted]
    exact printed_congr FindFlow hstr h

def sinkTuple (_ : FlowId) : FiveTuple := ⟨⟨10, 2, 1, 1⟩, ⟨10, 3, 1, 1⟩, 9000⟩

/-- Two flows of the sinks, one of which received nothing. -/
def starvedPair : List (FlowId × FlowStats) :=
  [(1, ⟨0, 10000000000, 1000000, 1000, 0⟩), (2, ⟨0, 0, 0, 0, 900⟩)]

theorem printed_served_starved :
    printed Ipv4Address.dotted sinkTuple starvedPair = jain (served sinkTuple starvedPair) ∧
      ((∀ i ∈ starvedPair, SinkBound (sinkTuple i.1) → i.2.rxBytes = 0) →
        printed Ipv4Address.dotted sinkTuple starvedPair = 0) ∧
      (served sinkTuple starvedPair).length * printed Ipv4Address.dotted sinkTuple starvedPair =
        (throughputs sinkTuple starvedPair).length * jain (throughputs sinkTuple starvedPair) ∧
      jain (throughputs sinkTuple starvedPair) ≤
        printed Ipv4Address.dotted sinkTuple starvedPair ∧
      (printed Ipv4Address.dotted sinkTuple starvedPair =
          jain (throughputs sinkTuple starvedPair) ↔
        (∀ i ∈ starvedPair, SinkBound (sinkTuple i.1) → 0 < i.2.rxBytes) ∨
          ∀ i ∈ starvedPair, SinkBound (sinkTuple i.1) → i.2.rxBytes = 0) ∧
      ∀ stats', (stats'.filter fun i => SinkBound (sinkTuple i.1)) =
          (starvedPair.filter fun i => SinkBound (sinkTuple i.1)) →
        printed Ipv4Address.dotted sinkTuple stats' =
          printed Ipv4Address.dotted sinkTuple starvedPair :=
  printed_served sinkTuple starvedPair fun _ => rfl

/-- The index printed is 1, the index of the two flows one half. -/
theorem starvedPair_fair :
    printed Ipv4Address.dotted sinkTuple starvedPair = 1 ∧
      jain (throughputs sinkTuple starvedPair) = 1 / 2 := by
  have hshares : throughputs sinkTuple starvedPair = [1, 0] := by decide +kernel
  constructor
  · rw [printed_eq_jain, counted_eq_served _ _ fun _ => rfl]
    unfold served
    rw [hshares]
    norm_num [jain]
  · rw [hshares]
    norm_num [jain]

end NetLab.Flow
