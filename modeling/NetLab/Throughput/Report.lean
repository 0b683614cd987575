/-
  The per-second statistics of q2client.c (lines 19-25, 36-59 and 116-125).

  Every echo that is received is added to one row of `stats`, the one of the second it came in, and
  the report prints the rows of the duration. The second is the difference of the `tv_sec` parts of
  two clock readings, as an `int`. A clock that was turned back, or that is past the end of the
  table, gives no row.

  * `account`: what one reception does to the table; `account_eq_post`: it posts to one row.
  * `received_row`: a row holds the totals of the receptions with its index.
  * `getElem?_report`: the report prints the rows of the duration, all of them inside the table.

  The counters are exact integers and `double` is exact here.
-/
import NetLab.Lib.Table
import NetLab.Ping.Packet

namespace NetLab.Throughput

open NetLab.Lib
open NetLab.Ping (Timeval)

def MAXI : Nat := 3600

/-- `secondsts`. -/
structure Secondsts where
  bytesrcv : Nat
  trtt : ℚ
  packetsrcv : Nat
deriving DecidableEq, Repr

/-- What `memset` leaves. -/
def Secondsts.zero : Secondsts := ⟨0, 0, 0⟩

/-- What a `recvfrom` with `n > 0` gives: the reading of the clock after it, its length and the
    round-trip time. -/
structure Reception where
  rcvtime : Timeval
  n : Nat
  rtt : ℚ
deriving DecidableEq, Repr

/-! ## The table -/

/-- `int secindex = rcvtime.tv_sec - start_test_time.tv_sec`. -/
def secindex (start_test_time rcvtime : Timeval) : Int32 :=
  (rcvtime.tv_sec - start_test_time.tv_sec).toInt32

/-- The index is one of the table. -/
def InTable (i : Int32) : Prop := 0 ≤ i.toInt ∧ i.toInt < MAXI

instance (i : Int32) : Decidable (InTable i) := inferInstanceAs (Decidable (_ ∧ _))

/-- `bytesrcv += n; trtt += rtt; packetsrcv++`. -/
def Secondsts.add (r : Reception) (row : Secondsts) : Secondsts :=
  ⟨row.bytesrcv + r.n, row.trtt + r.rtt, row.packetsrcv + 1⟩

/-- `stats` after a reception. -/
def account (start_test_time : Timeval) (stats : List Secondsts) (r : Reception) :
    List Secondsts :=
  let i := secindex start_test_time r.rcvtime
  if InTable i then stats.modify i.toInt.toNat (Secondsts.add r) else stats

/-- `stats` after a list of receptions. -/
def received (start_test_time : Timeval) (rs : List Reception) : List Secondsts :=
  rs.foldl (account start_test_time) (List.replicate MAXI Secondsts.zero)

/-- The row a reception is added to. -/
def rowOf (start_test_time : Timeval) (r : Reception) : Option Nat :=
  let i := secindex start_test_time r.rcvtime
  if InTable i then some i.toInt.toNat else none

/-- What a row holds after these receptions. -/
def total (rs : List Reception) : Secondsts :=
  ⟨(rs.map Reception.n).sum, (rs.map Reception.rtt).sum, rs.length⟩

theorem account_eq_post (start_test_time : Timeval) :
    account start_test_time = post (rowOf start_test_time) Secondsts.add := by
  funext stats r
  unfold account post rowOf
  dsimp only
  split <;> rfl

/-- A reception changes one row at most. -/
theorem account_one_row (start_test_time : Timeval) (stats : List Secondsts) (r : Reception) :
    ∃ i : Nat, ∀ j : Nat, j ≠ i → (account start_test_time stats r)[j]? = stats[j]? := by
  rw [account_eq_post]
  refine ⟨(rowOf start_test_time r).getD 0, fun j hj => ?_⟩
  refine getElem?_post_of_ne _ _ (fun hrow => hj ?_) stats
  rw [hrow, Option.getD_some]

theorem length_account (start_test_time : Timeval) (stats : List Secondsts) (r : Reception) :
    (account start_test_time stats r).length = stats.length := by
  rw [account_eq_post, length_post]

/-- A reception leaves the table as it is only if it has no row. -/
theorem account_eq_self_iff {stats : List Secondsts} (hlen : stats.length = MAXI)
    (start_test_time : Timeval) (r : Reception) :
    account start_test_time stats r = stats ↔ ¬ InTable (secindex start_test_time r.rcvtime) := by
  constructor
  · intro heq hin
    obtain ⟨hlo, hhi⟩ := id hin
    have hrow : rowOf start_test_time r =
        some (secindex start_test_time r.rcvtime).toInt.toNat := if_pos hin
    have hlt : (secindex start_test_time r.rcvtime).toInt.toNat < stats.length := by omega
    have hsame := congrArg (·[(secindex start_test_time r.rcvtime).toInt.toNat]?) heq
    simp only [account_eq_post, getElem?_post_self _ _ hrow, List.getElem?_eq_getElem hlt,
      Option.map_some, Option.some.injEq] at hsame
    exact Nat.succ_ne_self _ (congrArg Secondsts.packetsrcv hsame)
  · intro hout
    exact if_neg hout

theorem rowOf_eq_some {start_test_time : Timeval} {r : Reception} {i : Nat} :
    rowOf start_test_time r = some i ↔
      (secindex start_test_time r.rcvtime).toInt = i ∧ i < MAXI := by
  unfold rowOf
  dsimp only
  rw [Option.ite_none_right_eq_some, Option.some.injEq]
  unfold InTable
  omega

theorem foldl_add (rs : List Reception) (row : Secondsts) :
    rs.foldl (fun row r => Secondsts.add r row) row =
      ⟨row.bytesrcv + (total rs).bytesrcv, row.trtt + (total rs).trtt,
        row.packetsrcv + (total rs).packetsrcv⟩ := by
  induction rs generalizing row with
  | nil => simp [total]
  | cons r rs ih =>
    rw [List.foldl_cons, ih]
    simp only [total, Secondsts.add, List.map_cons, List.sum_cons, List.length_cons, add_assoc,
      Nat.add_comm 1]

/-- **A row holds the totals of the receptions with its index.** -/
theorem received_row (start_test_time : Timeval) (rs : List Reception) {i : Nat} (hi : i < MAXI) :
    (received start_test_time rs)[i]? =
      some (total (rs.filter (rowOf start_test_time · = some i))) := by
  unfold received
  rw [account_eq_post, getElem?_foldl_post, List.getElem?_replicate, if_pos hi, Option.map_some,
    foldl_add]
  simp [Secondsts.zero]

/-- The difference of the seconds is an `int`. -/
def Fits (start_test_time t : Timeval) : Prop :=
  -2 ^ 31 ≤ t.tv_sec.toInt - start_test_time.tv_sec.toInt ∧
    t.tv_sec.toInt - start_test_time.tv_sec.toInt < 2 ^ 31

instance (start_test_time t : Timeval) : Decidable (Fits start_test_time t) :=
  inferInstanceAs (Decidable (_ ∧ _))

theorem secindex_toInt {start_test_time t : Timeval} (h : Fits start_test_time t) :
    (secindex start_test_time t).toInt = t.tv_sec.toInt - start_test_time.tv_sec.toInt := by
  obtain ⟨hlo, hhi⟩ := h
  have hsub : (t.tv_sec.toInt - start_test_time.tv_sec.toInt).bmod (2 ^ 64) =
      t.tv_sec.toInt - start_test_time.tv_sec.toInt := Int.bmod_eq_of_le (by omega) (by omega)
  unfold secindex
  rw [Int64.toInt_toInt32, Int64.toInt_sub, hsub]
  exact Int.bmod_eq_of_le (by omega) (by omega)

/-! ## The report -/

/-- `if (duration > MAXI) duration = MAXI`. -/
def capped (duration : Int32) : Int32 := if duration.toInt > MAXI then Int32.ofNat MAXI else duration

/-- A line of the report, without its number. -/
structure Line where
  mbps : ℚ
  avgsrtt : ℚ
deriving DecidableEq, Repr

def Secondsts.line (row : Secondsts) : Line where
  mbps := row.bytesrcv * 8 / 1000000
  avgsrtt := if row.packetsrcv > 0 then row.trtt / row.packetsrcv else 0

/-- `for (int i = 0; i < duration; i++)`: the number `i + 1` and the line of each row. -/
def report (duration : Int32) (stats : List Secondsts) : List (Nat × Line) :=
  (List.range duration.toInt.toNat).map fun i => (i + 1, (stats.getD i Secondsts.zero).line)

theorem capped_le (duration : Int32) : (capped duration).toInt ≤ MAXI := by
  unfold capped
  split
  · decide
  · omega

theorem length_report (duration : Int32) (stats : List Secondsts) :
    (report duration stats).length = duration.toInt.toNat := by
  unfold report
  rw [List.length_map, List.length_range]

/-- The line of a row of the duration. -/
theorem getElem?_report {duration : Int32} {stats : List Secondsts} {i : Nat} {row : Secondsts}
    (hi : (i : Int) < duration.toInt) (hrow : stats[i]? = some row) :
    (report duration stats)[i]? = some (i + 1, row.line) := by
  unfold report
  rw [List.getElem?_map, List.getElem?_range (by omega), Option.map_some,
    List.getD_eq_getElem?_getD, hrow, Option.getD_some]

end NetLab.Throughput
