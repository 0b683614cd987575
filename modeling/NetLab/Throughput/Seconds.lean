/-
  The rows of q2client.c against the seconds of the test.

  The index of a row is the difference of the `tv_sec` parts only. The start of the test is hardly
  ever at the start of a second of the clock, so a reception whose `tv_usec` is below the one of the
  start is added one row too late: the first row holds less than a second of the test.

  * `rowOf_eq_some_iff_mod`: the index of a reception, whatever the clock readings are.
  * `inItsRow_iff`: when a reception is added to the row of its elapsed second.
  * `fullSeconds_iff`: the rows are full elapsed seconds exactly if every reception is.

  Times are in microseconds here.
-/
import NetLab.Throughput.Report

namespace NetLab.Throughput

open NetLab.Lib
open NetLab.Ping (Timeval)

/-! ## Elapsed time -/

/-- A reading of the clock: the microseconds are below a second. -/
def Normal (t : Timeval) : Prop := 0 ≤ t.tv_usec.toInt ∧ t.tv_usec.toInt < 1000000

instance (t : Timeval) : Decidable (Normal t) := inferInstanceAs (Decidable (_ ∧ _))

/-- The difference of the seconds. -/
def secondsSince (start_test_time t : Timeval) : Int :=
  t.tv_sec.toInt - start_test_time.tv_sec.toInt

/-- The time since the start. -/
def elapsed (start_test_time t : Timeval) : Int :=
  secondsSince start_test_time t * 1000000 + (t.tv_usec.toInt - start_test_time.tv_usec.toInt)

/-- The reception is in second `i` of the test. -/
def InSecond (start_test_time : Timeval) (i : Nat) (r : Reception) : Prop :=
  i * 1000000 ≤ elapsed start_test_time r.rcvtime ∧
    elapsed start_test_time r.rcvtime < (i + 1) * 1000000

instance (start_test_time : Timeval) (i : Nat) (r : Reception) :
    Decidable (InSecond start_test_time i r) := inferInstanceAs (Decidable (_ ∧ _))

/-- Readings of a clock, none before the start. -/
structure Timed (start_test_time : Timeval) (rs : List Reception) : Prop where
  start : Normal start_test_time
  normal : ∀ r ∈ rs, Normal r.rcvtime
  notBefore : ∀ r ∈ rs, 0 ≤ elapsed start_test_time r.rcvtime

/-- The index keeps 32 bits of the difference. -/
theorem rowOf_eq_some_iff_mod {start_test_time : Timeval} {r : Reception} {i : Nat} :
    rowOf start_test_time r = some i ↔
      secondsSince start_test_time r.rcvtime % 2 ^ 32 = i ∧ i < MAXI := by
  rw [rowOf_eq_some]
  apply and_congr_left
  intro hi
  have hmax : MAXI = 3600 := rfl
  have hindex : (secindex start_test_time r.rcvtime).toInt =
      (secondsSince start_test_time r.rcvtime).bmod (2 ^ 32) := by
    unfold secindex secondsSince
    rw [Int64.toInt_toInt32, Int64.toInt_sub, Int.bmod_bmod_of_dvd (by decide)]
  rw [hindex, Int.bmod_def]
  omega

/-! ## Rows and seconds -/

/-- The reception is added to the row of its second, if it is one of the duration. -/
def InItsRow (start_test_time : Timeval) (duration : Int32) (r : Reception) : Prop :=
  ∀ i : Nat, (i : Int) < (capped duration).toInt →
    (rowOf start_test_time r = some i ↔ InSecond start_test_time i r)

/-- What `InItsRow` says of the clock readings. Within the duration the reading has not wrapped to
    microseconds below those of the start; after it the index has not come round to the table. -/
def NoBorrow (start_test_time : Timeval) (duration : Int32) (r : Reception) : Prop :=
  if elapsed start_test_time r.rcvtime < (capped duration).toInt * 1000000 then
    start_test_time.tv_usec.toInt ≤ r.rcvtime.tv_usec.toInt
  else (capped duration).toInt ≤ secondsSince start_test_time r.rcvtime % 2 ^ 32

theorem inItsRow_iff {start_test_time : Timeval} {duration : Int32} {r : Reception}
    (hstart : Normal start_test_time) (hr : Normal r.rcvtime)
    (hbefore : 0 ≤ elapsed start_test_time r.rcvtime) :
    InItsRow start_test_time duration r ↔ NoBorrow start_test_time duration r := by
  have hcap := capped_le duration
  have hmax : MAXI = 3600 := rfl
  unfold Normal at hstart hr
  unfold InItsRow NoBorrow
  simp only [rowOf_eq_some_iff_mod]
  unfold InSecond
  unfold elapsed at hbefore ⊢
  generalize secondsSince start_test_time r.rcvtime = d at *
  generalize (capped duration).toInt = n at *
  split
  · constructor
    · intro h
      -- the second the reception is in
      have hrow := h ((d * 1000000 + (r.rcvtime.tv_usec.toInt - start_test_time.tv_usec.toInt)) /
        1000000).toNat (by omega)
      omega
    · intro h i hi
      omega
  · constructor
    · intro h
      by_contra hlt
      have hrow := h (d % 2 ^ 32).toNat (by omega)
      omega
    · intro h i hi
      omega

/-- **Row `i` holds second `i` of the test**, after every reception, and its line is the throughput
    of that second. -/
def FullSeconds (start_test_time : Timeval) (duration : Int32) (rs : List Reception) : Prop :=
  ∀ p, p <+: rs → ∀ i : Nat, (i : Int) < (capped duration).toInt →
    (received start_test_time p)[i]? = some (total (p.filter (InSecond start_test_time i))) ∧
      ∃ line, (report (capped duration) (received start_test_time p))[i]? = some (i + 1, line) ∧
        line.mbps = ((p.filter (InSecond start_test_time i)).map Reception.n).sum * 8 / 1000000

/-- The number of packets a further reception adds. -/
theorem length_filter_concat {q : Reception → Prop} [DecidablePred q] (p : List Reception)
    (r : Reception) :
    ((p ++ [r]).filter (q ·)).length = (p.filter (q ·)).length + if q r then 1 else 0 := by
  rw [List.filter_append, List.length_append, List.filter_cons, List.filter_nil]
  by_cases hq : q r
  · rw [if_pos hq, if_pos (decide_eq_true hq)]
    rfl
  · rw [if_neg hq, if_neg (by simpa using hq)]
    rfl

/-- The rows count the receptions of their seconds only if each is added to its own. -/
theorem FullSeconds.inItsRow {start_test_time : Timeval} {duration : Int32} {rs : List Reception}
    (h : FullSeconds start_test_time duration rs) :
    ∀ r ∈ rs, InItsRow start_test_time duration r := by
  intro r hr i hi
  obtain ⟨p, q, rfl⟩ := List.append_of_mem hr
  have hcap := capped_le duration
  have hcount : ∀ p', p' <+: p ++ r :: q →
      (p'.filter (rowOf start_test_time · = some i)).length =
        (p'.filter (InSecond start_test_time i)).length := by
    intro p' hp'
    have hrow := (h p' hp' i hi).1
    rw [received_row start_test_time p' (by omega), Option.some.injEq] at hrow
    exact congrArg Secondsts.packetsrcv hrow
  have hbefore := hcount p (List.prefix_append p _)
  have hafter := hcount (p ++ [r]) ⟨q, by rw [List.append_assoc, List.singleton_append]⟩
  rw [length_filter_concat, length_filter_concat, hbefore, Nat.add_left_cancel_iff] at hafter
  by_cases hrow : rowOf start_test_time r = some i
  · rw [if_pos hrow] at hafter
    refine iff_of_true hrow ?_
    by_contra hsecond
    rw [if_neg hsecond] at hafter
    cases hafter
  · rw [if_neg hrow] at hafter
    refine iff_of_false hrow fun hsecond => ?_
    rw [if_pos hsecond] at hafter
    cases hafter

theorem fullSeconds_of_inItsRow {start_test_time : Timeval} {duration : Int32}
    {rs : List Reception} (h : ∀ r ∈ rs, InItsRow start_test_time duration r) :
    FullSeconds start_test_time duration rs := by
  intro p hp i hi
  have hcap := capped_le duration
  have hfilter : p.filter (rowOf start_test_time · = some i) =
      p.filter (InSecond start_test_time i) := by
    apply List.filter_congr
    intro r hr
    exact decide_eq_decide.mpr (h r (hp.subset hr) i hi)
  have hrow := received_row start_test_time p (i := i) (by omega)
  rw [hfilter] at hrow
  exact ⟨hrow, _, getElem?_report hi hrow, rfl⟩

/-- **When the rows are full seconds of the test.** Exactly if every reception within the duration
    has microseconds from those of the start on, and none after it has an index that has come round
    to the duration. -/
theorem fullSeconds_iff (start_test_time : Timeval) (duration : Int32) (rs : List Reception)
    (h : Timed start_test_time rs) :
    FullSeconds start_test_time duration rs ↔ ∀ r ∈ rs, NoBorrow start_test_time duration r := by
  have hiff : ∀ r ∈ rs, InItsRow start_test_time duration r ↔ NoBorrow start_test_time duration r :=
    fun r hr => inItsRow_iff h.start (h.normal r hr) (h.notBefore r hr)
  constructor
  · intro hfull r hr
    exact (hiff r hr).mp (hfull.inItsRow r hr)
  · intro hall
    apply fullSeconds_of_inItsRow
    intro r hr
    exact (hiff r hr).mpr (hall r hr)

/-- The start of a test, half a second into a second of the clock. -/
def halfPast : Timeval := ⟨10, 500000⟩

/-- Echoes of all three seconds of a test, two of them in the first, and one after it. -/
def threeSeconds : List Reception :=
  [⟨⟨10, 600000⟩, 64, 30⟩, ⟨⟨10, 900000⟩, 64, 25⟩, ⟨⟨11, 500000⟩, 64, 40⟩, ⟨⟨12, 999999⟩, 64, 35⟩,
    ⟨⟨13, 700000⟩, 64, 30⟩]

theorem fullSeconds_iff_threeSeconds :
    FullSeconds halfPast 3 threeSeconds ↔ ∀ r ∈ threeSeconds, NoBorrow halfPast 3 r :=
  fullSeconds_iff halfPast 3 threeSeconds
    { start := by decide, normal := by decide, notBefore := by decide }

/-- An echo 0.7 seconds after the start. -/
def lateEcho : Reception := ⟨⟨11, 200000⟩, 64, 30⟩

theorem timed_lateEcho : Timed halfPast [lateEcho] where
  start := by decide
  normal := by decide
  notBefore := by decide

/-- The first row of the report of a second is empty. -/
theorem lateEcho_misplaced :
    Timed halfPast [lateEcho] ∧ List.Pairwise (elapsed halfPast · ≤ elapsed halfPast ·)
      ([lateEcho].map Reception.rcvtime) ∧ ¬ FullSeconds halfPast 1 [lateEcho] := by
  refine ⟨timed_lateEcho, List.pairwise_singleton _ _, fun hfull => ?_⟩
  have hsecond := (hfull.inItsRow lateEcho (List.mem_singleton_self _) 0 (by decide)).mpr (by decide)
  exact absurd hsecond (by decide)

end NetLab.Throughput
