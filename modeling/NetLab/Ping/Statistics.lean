/-
  The counters of q1client.c (lines 65-121).

  One pass through the loop has one of four outcomes: `sendto` fails, `recvfrom` times out, or a
  datagram is received whose sequence number is the expected one or another. `Stats.account` is
  what the pass does to the three counters, and `probeLoop` the loop as a machine whose actions are
  outcomes. A reply with another sequence number touches no counter, so a probe is accounted for
  exactly where the pass does not take that branch:

  * `probeLoop_total`: received, lost and unexpected replies add up to the passes made;
  * `accounts_iff`: `recvcnt + lost_count = msgcount` at the end, and the printed percentage is
    that of the probes not received, exactly when every reply had the expected number.

  The counters are exact here. In the source they are `int`; none exceeds the number of passes
  (`probeLoop_total`), which is at most `msgcount`, so they do not overflow.
-/
import NetLab.Lib.Machine
import NetLab.Ping.Packet

namespace NetLab.Ping

open NetLab.Lib

structure Stats where
  recvcnt : Nat
  lost_count : Nat
  trtt : ℚ
deriving DecidableEq, Repr

def Stats.init : Stats := ⟨0, 0, 0⟩

/-- How a pass through the loop ends. -/
inductive Outcome where
  | sendFailed
  | timedOut
  | reply (seq_num : Int32) (rtt : ℚ)
deriving DecidableEq, Repr

/-- The counters after pass `i`. -/
def Stats.account (i : Int32) (s : Stats) : Outcome → Stats
  | .sendFailed => { s with lost_count := s.lost_count + 1 }
  | .timedOut => { s with lost_count := s.lost_count + 1 }
  | .reply seq_num rtt =>
    if seq_num = i then { s with recvcnt := s.recvcnt + 1, trtt := s.trtt + rtt } else s

/-- The loop variable and the counters at the head of the loop. -/
structure Loop where
  i : Int32
  stats : Stats
deriving DecidableEq, Repr

def Loop.init : Loop := ⟨1, Stats.init⟩

/-- `for (int i = 1; i <= msgcount; i++)`. No pass where `i++` would overflow: C leaves that
    undefined. -/
def probeLoop (msgcount : Int32) : Machine Loop Outcome where
  step l o :=
    if l.i ≤ msgcount ∧ l.i ≠ Int32.maxValue then some ⟨l.i + 1, l.stats.account l.i o⟩ else none

/-- The loop ends after passes with these outcomes, with these counters. -/
def Ends (msgcount : Int32) (os : List Outcome) (s : Stats) : Prop :=
  ∃ l, (probeLoop msgcount).run Loop.init os = some l ∧ ¬ l.i ≤ msgcount ∧ l.stats = s

/-- `((double) lost_count / msgcount) * 100.0`. -/
def lossp (lost_count : Nat) (msgcount : Int32) : ℚ := (lost_count : ℚ) / msgcount.toInt * 100

/-! ## Passes -/

theorem toInt_succ {i : Int32} (h : i ≠ Int32.maxValue) : (i + 1).toInt = i.toInt + 1 := by
  have hne : i.toInt ≠ 2147483647 := fun he => h (Int32.toInt_inj.mp he)
  have hlt := i.toInt_lt
  have hle := i.le_toInt
  rw [Int32.toInt_add, show (1 : Int32).toInt = 1 from rfl]
  exact Int.bmod_eq_of_le (by omega) (by omega)

/-- The passes before the next one are those before this one and this one. -/
theorem toInt_lt_succ_iff {i j : Int32} (h : i ≠ Int32.maxValue) :
    j.toInt < (i + 1).toInt ↔ j.toInt < i.toInt ∨ j = i := by
  rw [toInt_succ h]
  constructor
  · intro hlt
    rcases Int.lt_or_eq_of_le (Int.lt_add_one_iff.mp hlt) with hlt | heq
    · exact .inl hlt
    · exact .inr (Int32.toInt_inj.mp heq)
  · rintro (hlt | rfl) <;> omega

theorem probeLoop_step {msgcount : Int32} {l l' : Loop} {o : Outcome} :
    (probeLoop msgcount).step l o = some l' ↔
      l.i.toInt ≤ msgcount.toInt ∧ l.i ≠ Int32.maxValue ∧
        l' = ⟨l.i + 1, l.stats.account l.i o⟩ := by
  unfold probeLoop
  rw [← Int32.le_iff_toInt_le]
  constructor
  · intro h
    dsimp only at h
    split at h
    · rename_i hgo
      exact ⟨hgo.1, hgo.2, (Option.some.inj h).symm⟩
    · cases h
  · rintro ⟨hle, hmax, rfl⟩
    exact if_pos ⟨hle, hmax⟩

/-- The loop variable counts the passes. -/
theorem probeLoop_i {msgcount : Int32} {l : Loop} {os : List Outcome}
    (h : (probeLoop msgcount).run Loop.init os = some l) : l.i.toInt = os.length + 1 := by
  induction os using List.reverseRecOn generalizing l with
  | nil =>
    obtain rfl := Option.some.inj h
    rfl
  | append_singleton os o ih =>
    obtain ⟨m, hm, hstep⟩ := (probeLoop msgcount).run_concat.mp h
    obtain ⟨_, hmax, rfl⟩ := probeLoop_step.mp hstep
    rw [toInt_succ hmax, ih hm, List.length_append, List.length_singleton, Nat.cast_add,
      Nat.cast_one]

/-- Passes are made only up to `msgcount`. -/
theorem probeLoop_length_le {msgcount : Int32} {l : Loop} {os : List Outcome}
    (h : (probeLoop msgcount).run Loop.init os = some l) (hpos : 0 ≤ msgcount.toInt) :
    (os.length : Int) ≤ msgcount.toInt := by
  rcases List.eq_nil_or_concat os with rfl | ⟨os, o, rfl⟩
  · exact hpos
  · rw [List.concat_eq_append] at h ⊢
    obtain ⟨m, hm, hstep⟩ := (probeLoop msgcount).run_concat.mp h
    obtain ⟨hle, _, _⟩ := probeLoop_step.mp hstep
    rw [probeLoop_i hm] at hle
    rw [List.length_append, List.length_singleton, Nat.cast_add, Nat.cast_one]
    exact hle

/-- A loop that ends has made one pass for each probe. -/
theorem Ends.length_eq {msgcount : Int32} (hpos : 0 ≤ msgcount.toInt) {os : List Outcome}
    {s : Stats} (h : Ends msgcount os s) : (os.length : Int) = msgcount.toInt := by
  obtain ⟨l, hrun, hend, _⟩ := h
  have hi := probeLoop_i hrun
  have hle := probeLoop_length_le hrun hpos
  rw [Int32.le_iff_toInt_le] at hend
  omega

/-- Below the largest `int` the loop makes every pass up to `msgcount`. -/
theorem probeLoop_runs {msgcount : Int32} (hmax : msgcount ≠ Int32.maxValue) {os : List Outcome}
    (hlen : (os.length : Int) ≤ msgcount.toInt) :
    ∃ l, (probeLoop msgcount).run Loop.init os = some l := by
  induction os using List.reverseRecOn with
  | nil => exact ⟨Loop.init, rfl⟩
  | append_singleton os o ih =>
    rw [List.length_append, List.length_singleton, Nat.cast_add, Nat.cast_one] at hlen
    obtain ⟨m, hm⟩ := ih (by omega)
    have hi := probeLoop_i hm
    have hlast : m.i ≠ Int32.maxValue := by
      intro he
      rw [he, Int32.toInt_maxValue] at hi
      have hlt := msgcount.toInt_lt
      exact hmax (Int32.toInt_inj.mp (by rw [Int32.toInt_maxValue]; omega))
    exact ⟨_, (probeLoop msgcount).run_concat.mpr
      ⟨m, hm, probeLoop_step.mpr ⟨by omega, hlast, rfl⟩⟩⟩

/-- The loop ends for every list of as many outcomes as there are probes. -/
theorem probeLoop_ends {msgcount : Int32} (hmax : msgcount ≠ Int32.maxValue) {os : List Outcome}
    (hlen : (os.length : Int) = msgcount.toInt) : ∃ s, Ends msgcount os s := by
  obtain ⟨l, hl⟩ := probeLoop_runs hmax hlen.le
  have hi := probeLoop_i hl
  refine ⟨l.stats, l, hl, ?_, rfl⟩
  rw [Int32.le_iff_toInt_le]
  omega

/-! ## The partition of the passes -/

/-- The reply has another sequence number than that of pass `i`. -/
def Outcome.Unexpected (i : Int) : Outcome → Prop
  | .reply seq_num _ => seq_num.toInt ≠ i
  | _ => False

instance (i : Int) : DecidablePred (Outcome.Unexpected i) := fun o => by
  unfold Outcome.Unexpected
  split <;> infer_instance

/-- The passes with an unexpected reply, the first of them being pass `i`. -/
def unexpected : Int → List Outcome → Nat
  | _, [] => 0
  | i, o :: os => (if o.Unexpected i then 1 else 0) + unexpected (i + 1) os

theorem unexpected_concat (i : Int) (os : List Outcome) (o : Outcome) :
    unexpected i (os ++ [o]) =
      unexpected i os + if o.Unexpected (i + os.length) then 1 else 0 := by
  induction os generalizing i with
  | nil => simp [unexpected]
  | cons p os ih =>
    rw [List.cons_append, unexpected, unexpected, ih, List.length_cons, Nat.cast_add, Nat.cast_one,
      show i + ((os.length : Int) + 1) = i + 1 + os.length by ring]
    exact (Nat.add_assoc _ _ _).symm

theorem unexpected_eq_zero_iff {i : Int} {os : List Outcome} :
    unexpected i os = 0 ↔ ∀ (k : Nat) (o : Outcome), os[k]? = some o → ¬ o.Unexpected (i + k) := by
  induction os generalizing i with
  | nil => exact iff_of_true rfl (by simp)
  | cons p os ih =>
    have hp : (if p.Unexpected i then 1 else 0) = 0 ↔ ¬ p.Unexpected i := by split <;> simp_all
    rw [unexpected, Nat.add_eq_zero_iff, ih, hp]
    constructor
    · rintro ⟨hhead, hrest⟩ k o hk
      cases k with
      | zero =>
        obtain rfl : p = o := Option.some.inj hk
        simpa using hhead
      | succ k =>
        rw [Nat.cast_add, Nat.cast_one, add_comm (k : Int) 1, ← add_assoc]
        exact hrest k o hk
    · intro h
      refine ⟨by simpa using h 0 p rfl, fun k o hk => ?_⟩
      have := h (k + 1) o hk
      rwa [Nat.cast_add, Nat.cast_one, add_comm (k : Int) 1, ← add_assoc] at this

/-- One pass is counted once: as received, as lost or as unexpected. -/
theorem account_total (i : Int32) (s : Stats) (o : Outcome) :
    (s.account i o).recvcnt + (s.account i o).lost_count +
      (if o.Unexpected i.toInt then 1 else 0) = s.recvcnt + s.lost_count + 1 := by
  cases o with
  | sendFailed => exact (add_assoc s.recvcnt s.lost_count 1).symm
  | timedOut => exact (add_assoc s.recvcnt s.lost_count 1).symm
  | reply seq_num rtt =>
    by_cases h : seq_num = i
    · have hexp : ¬ (Outcome.reply seq_num rtt).Unexpected i.toInt :=
        not_not_intro (congrArg Int32.toInt h)
      rw [if_neg hexp, Stats.account, if_pos h]
      dsimp only
      omega
    · have hunexp : (Outcome.reply seq_num rtt).Unexpected i.toInt :=
        fun he => h (Int32.toInt_inj.mp he)
      rw [if_pos hunexp, Stats.account, if_neg h]

/-- **The partition.** After any number of passes, received, lost and unexpected replies add up
    to the passes made. -/
theorem probeLoop_total {msgcount : Int32} {l : Loop} {os : List Outcome}
    (h : (probeLoop msgcount).run Loop.init os = some l) :
    l.stats.recvcnt + l.stats.lost_count + unexpected 1 os = os.length := by
  induction os using List.reverseRecOn generalizing l with
  | nil =>
    obtain rfl := Option.some.inj h
    rfl
  | append_singleton os o ih =>
    obtain ⟨m, hm, hstep⟩ := (probeLoop msgcount).run_concat.mp h
    obtain ⟨_, _, rfl⟩ := probeLoop_step.mp hstep
    have hone := account_total m.i m.stats o
    have hrest := ih hm
    have hi : m.i.toInt = 1 + os.length := by rw [probeLoop_i hm, add_comm]
    rw [unexpected_concat, ← hi, List.length_append, List.length_singleton]
    dsimp only
    omega

/-! ## The summary -/

/-- Every probe is counted as received or lost, and the percentage printed is that of the probes
    not received. -/
def Accounts (msgcount : Int32) (s : Stats) : Prop :=
  (s.recvcnt : Int) + s.lost_count = msgcount.toInt ∧
    lossp s.lost_count msgcount = 100 * (msgcount.toInt - s.recvcnt) / msgcount.toInt

/-- Every reply of the run has the sequence number of its pass. -/
def AllExpected (os : List Outcome) : Prop :=
  ∀ (k : Nat) seq_num rtt, os[k]? = some (.reply seq_num rtt) → seq_num.toInt = k + 1

theorem allExpected_iff {os : List Outcome} : AllExpected os ↔ unexpected 1 os = 0 := by
  rw [unexpected_eq_zero_iff]
  constructor
  · intro h k o hk hun
    cases o with
    | sendFailed => exact hun
    | timedOut => exact hun
    | reply seq_num rtt => exact hun (by rw [h k seq_num rtt hk, add_comm])
  · intro h k seq_num rtt hk
    have := not_not.mp (h k _ hk)
    rw [this, add_comm]

/-- **The summary accounts for every probe exactly when no reply was unexpected.** -/
theorem accounts_iff (msgcount : Int32) (hcount : 1 ≤ msgcount.toInt) (os : List Outcome)
    (s : Stats) (h : Ends msgcount os s) : Accounts msgcount s ↔ AllExpected os := by
  have hlen := h.length_eq (by omega)
  obtain ⟨l, hrun, _, rfl⟩ := h
  have htotal := probeLoop_total hrun
  rw [allExpected_iff]
  constructor
  · rintro ⟨hsum, _⟩
    omega
  · intro hzero
    have hsum : (l.stats.recvcnt : Int) + l.stats.lost_count = msgcount.toInt := by omega
    refine ⟨hsum, ?_⟩
    have hlost : (l.stats.lost_count : ℚ) = msgcount.toInt - l.stats.recvcnt := by
      rw [← hsum]
      push_cast
      ring
    unfold lossp
    rw [hlost]
    ring

/-- Two probes: the first times out, the second receives the echo of the first. -/
def lateEcho : List Outcome := [.timedOut, .reply 1 1500]

theorem accounts_iff_lateEcho :
    Accounts 2 ⟨0, 1, 0⟩ ↔ AllExpected lateEcho :=
  accounts_iff 2 (by decide) lateEcho ⟨0, 1, 0⟩
    ⟨⟨3, ⟨0, 1, 0⟩⟩, by decide, by decide, rfl⟩

/-- The run ends with nothing received, one probe lost and the other uncounted, and prints half
    of the loss. -/
theorem lateEcho_unaccounted :
    Ends 2 lateEcho ⟨0, 1, 0⟩ ∧ ¬ Accounts 2 ⟨0, 1, 0⟩ ∧ lossp 1 2 = 50 := by
  refine ⟨⟨⟨3, ⟨0, 1, 0⟩⟩, by decide, by decide, rfl⟩, ?_, ?_⟩
  · rintro ⟨h, _⟩
    exact absurd h (by decide)
  · unfold lossp
    rw [show (2 : Int32).toInt = 2 from rfl]
    norm_num

end NetLab.Ping
