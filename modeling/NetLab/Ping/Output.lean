/-
  What q1client.c prints (lines 79-121).

  A pass that reads a datagram prints a line, and one that times out another; a pass whose `sendto`
  fails prints nothing to the standard output. Behind the loop comes the summary of the counters.

  * `Tallied`: what the lines printed have to do with the counters; `tallied_concat`: one pass.
  * `Ordered`: the lines are in the order of the passes, of whole datagrams.
  * `summary_of_lines`: in every run to the end the summary is that of the lines above it, as far as
    they are printed.
-/
import NetLab.Ping.InStep
import NetLab.Lib.Decimal

namespace NetLab.Ping

open NetLab.Lib

variable {a : Args}

/-! ## Lines -/

inductive Line where
  /-- `%d bytes from %s: seq=%d time=%.3f ms`, with the number that is printed. -/
  | reply (n : Nat) (seq_num : Int32) (time : ℚ)
  /-- `Request timeout for icmp_seq %d`. -/
  | timeout (i : Int32)
  /-- `Received out-of-order packet. Expected seq=%d, got seq=%d`. -/
  | outOfOrder (i seq_num : Int32)
deriving DecidableEq, Repr

/-- The pass that prints the line. -/
def Line.pass : Line → Int32
  | .reply _ seq_num _ => seq_num
  | .timeout i => i
  | .outOfOrder i _ => i

def Line.time? : Line → Option ℚ
  | .reply _ _ time => some time
  | _ => none

def Line.IsTimeout : Line → Bool
  | .timeout _ => true
  | _ => false

/-- A line of a reply names the size of a whole datagram. -/
def Line.Whole (a : Args) : Line → Prop
  | .reply n _ _ => n = a.packetsz
  | _ => True

/-- What pass `i` prints of its outcome, a reply being of `n` bytes. -/
def Outcome.lines (i : Int32) (n : Nat) : Outcome → List Line
  | .sendFailed => []
  | .timedOut => [.timeout i]
  | .reply seq_num rtt =>
    if seq_num = i then [.reply n seq_num (rounded 3 rtt)] else [.outOfOrder i seq_num]

/-- What a step prints. -/
def printed (a : Args) (s : Sys) : Act → List Line
  | .recv rcvtime =>
    match s.queue with
    | [] => []
    | d :: _ =>
      (readReply (recvInto a.packetsz s.client.buffer d.bytes) rcvtime).lines s.client.i
        (min d.bytes.length a.packetsz)
  | .timeout => Outcome.timedOut.lines s.client.i 0
  | _ => []

/-- The system with the lines printed so far. -/
structure Printing where
  sys : Sys
  out : List Line
deriving DecidableEq, Repr

def printing (a : Args) : Machine Printing Act where
  step v x := (step a v.sys x).map fun s => ⟨s, v.out ++ printed a v.sys x⟩

structure Summary where
  transmitted : Int32
  received : Nat
  /-- `%.1f%% packet loss`. -/
  loss : ℚ
  /-- `Average RTT: %.3f ms`, if a reply was received. -/
  average : Option ℚ
deriving DecidableEq, Repr

def summary (a : Args) (st : Stats) : Summary where
  transmitted := a.msgcount
  received := st.recvcnt
  loss := rounded 1 (lossp st.lost_count a.msgcount)
  average := if 0 < st.recvcnt then some (rounded 3 (st.trtt / st.recvcnt)) else none

/-! ## Lines and counters -/

/-- The times in the lines. -/
def printedTimes (out : List Line) : List ℚ := out.filterMap Line.time?

/-- The passes whose `sendto` has failed. -/
def failed (os : List Outcome) : Nat := os.countP (· = .sendFailed)

structure Tallied (out : List Line) (st : Stats) (os : List Outcome) : Prop where
  /-- The times printed are those added up, rounded. -/
  times : ∃ rtts : List ℚ, printedTimes out = rtts.map (rounded 3) ∧ rtts.length = st.recvcnt ∧
    rtts.sum = st.trtt
  lost : out.countP Line.IsTimeout + failed os = st.lost_count
  lines : out.length + failed os = os.length

theorem tallied_nil : Tallied [] Stats.init [] := ⟨⟨[], rfl, rfl, rfl⟩, rfl, rfl⟩

theorem failed_concat (os : List Outcome) (o : Outcome) :
    failed (os ++ [o]) = failed os + if o = .sendFailed then 1 else 0 := by
  unfold failed
  rw [List.countP_append, List.countP_singleton]
  simp

/-- A pass that is sent prints a line. -/
theorem Tallied.lines_concat {out : List Line} {st : Stats} {os : List Outcome}
    (h : Tallied out st os) (l : Line) {o : Outcome} (ho : o ≠ .sendFailed) :
    (out ++ [l]).length + failed (os ++ [o]) = (os ++ [o]).length := by
  rw [failed_concat, if_neg ho, List.length_append, List.length_append, ← h.lines]
  exact Nat.add_right_comm _ 1 _

/-- **A pass more.** -/
theorem tallied_concat {out : List Line} {st : Stats} {os : List Outcome} (h : Tallied out st os)
    (i : Int32) (n : Nat) (o : Outcome) :
    Tallied (out ++ o.lines i n) (st.account i o) (os ++ [o]) := by
  obtain ⟨rtts, htimes, hlen, hsum⟩ := h.times
  have hsame : ∀ l : Line, l.time? = none → printedTimes (out ++ [l]) = rtts.map (rounded 3) := by
    intro l hl
    rw [printedTimes, List.filterMap_append, List.filterMap_cons_none hl, List.filterMap_nil,
      List.append_nil]
    exact htimes
  cases o with
  | sendFailed =>
    rw [Outcome.lines, List.append_nil]
    refine ⟨⟨rtts, htimes, hlen, hsum⟩, ?_, ?_⟩
    · rw [failed_concat, if_pos rfl, ← Nat.add_assoc, h.lost]
      rfl
    · rw [failed_concat, if_pos rfl, List.length_append, List.length_singleton, ← h.lines,
        Nat.add_assoc]
  | timedOut =>
    have hsent : Outcome.timedOut ≠ .sendFailed := by simp
    refine ⟨⟨rtts, hsame _ rfl, hlen, hsum⟩, ?_, h.lines_concat _ hsent⟩
    rw [Stats.account, ← h.lost, failed_concat, if_neg hsent, Outcome.lines, List.countP_append]
    exact Nat.add_right_comm _ 1 _
  | reply seq_num rtt =>
    have hsent : Outcome.reply seq_num rtt ≠ .sendFailed := by simp
    have hlost : ∀ l : Line, l.IsTimeout = false →
        (out ++ [l]).countP Line.IsTimeout + failed (os ++ [Outcome.reply seq_num rtt]) =
          st.lost_count := by
      intro l hl
      rw [failed_concat, if_neg hsent, List.countP_append, List.countP_singleton, hl, ← h.lost]
      rfl
    by_cases hseq : seq_num = i
    · rw [Outcome.lines, if_pos hseq, Stats.account, if_pos hseq]
      refine ⟨⟨rtts ++ [rtt], ?_, ?_, ?_⟩, hlost _ rfl, h.lines_concat _ hsent⟩
      · rw [List.map_append, ← htimes]
        exact List.filterMap_append
      · rw [List.length_append, hlen]
        rfl
      · rw [List.sum_append, hsum, List.sum_singleton]
    · rw [Outcome.lines, if_neg hseq, Stats.account, if_neg hseq]
      exact ⟨⟨rtts, hsame _ rfl, hlen, hsum⟩, hlost _ rfl, h.lines_concat _ hsent⟩

/-! ## The system -/

variable {v w : Printing}

theorem printing_eq_some {x : Act} (h : (printing a).step v x = some w) :
    step a v.sys x = some w.sys ∧ w.out = v.out ++ printed a v.sys x := by
  simp only [printing, Option.map_eq_some_iff] at h
  obtain ⟨s, hs, rfl⟩ := h
  exact ⟨hs, rfl⟩

/-- The step prints and counts nothing. -/
structure Silent (a : Args) (s : Sys) (x : Act) (s' : Sys) : Prop where
  out : printed a s x = []
  stats : s'.client.stats = s.client.stats
  outcomes : s'.hist.outcomes = s.hist.outcomes
  le : s.client.i.toInt ≤ s'.client.i.toInt
  /-- A client that sleeps sleeps on, or goes to the next pass. -/
  asleep : s.client.phase = .asleep →
    s'.client.i = s.client.i ∧ s'.client.phase = .asleep ∨ s.client.i.toInt < s'.client.i.toInt

/-- The step ends what pass `i` waits for: `sendto` fails, or the client goes to sleep. -/
structure Settles (a : Args) (s : Sys) (x : Act) (s' : Sys) (o : Outcome) : Prop where
  out : printed a s x = o.lines s.client.i a.packetsz
  stats : s'.client.stats = s.client.stats.account s.client.i o
  outcomes : s'.hist.outcomes = s.hist.outcomes ++ [o]
  awake : s.client.phase ≠ .asleep
  next : o = .sendFailed ∧ s.client.i.toInt < s'.client.i.toInt ∧ s'.client.phase ≠ .asleep ∨
    s'.client.i = s.client.i ∧ s'.client.phase = .asleep

/-- A step of the network or the clock. -/
theorem silent_of_client {s s' : Sys} {x : Act} (hout : printed a s x = [])
    (hclient : s'.client = s.client) (houtcomes : s'.hist.outcomes = s.hist.outcomes) :
    Silent a s x s' where
  out := hout
  stats := by rw [hclient]
  outcomes := houtcomes
  le := by rw [hclient]
  asleep hp := by
    rw [hclient]
    exact .inl ⟨rfl, hp⟩

theorem step_prints {s s' : Sys} {x : Act} (hI : Inv a s) (h : step a s x = some s') :
    Silent a s x s' ∨ ∃ o, Settles a s x s' o := by
  cases x with
  | send t =>
    obtain ⟨hp, _, _, rfl⟩ := step_send h
    exact .inl ⟨rfl, rfl, rfl, Int.le_refl _, fun hs => by cases hp.symm.trans hs⟩
  | sendFail t =>
    obtain ⟨hp, _, hmax, rfl⟩ := step_sendFail h
    refine .inr ⟨.sendFailed, rfl, rfl, rfl, by rw [hp]; nofun, .inl ⟨rfl, ?_, ?_⟩⟩
    · show s.client.i.toInt < (s.client.i + 1).toInt
      rw [toInt_succ hmax]
      omega
    · show s.client.phase ≠ .asleep
      rw [hp]
      nofun
  | wait =>
    obtain ⟨hp, rfl⟩ := step_wait h
    exact .inl ⟨rfl, rfl, rfl, Int.le_refl _, fun hs => by cases hp.symm.trans hs⟩
  | recv t =>
    obtain ⟨deadline, d, rest, hp, hq, rfl⟩ := step_recv h
    have hlen := (hI.genuine d (.inr (.inr (hq ▸ List.mem_cons_self)))).1
    refine .inr ⟨readReply (recvInto a.packetsz s.client.buffer d.bytes) t, ?_, rfl, rfl,
      by rw [hp]; nofun, .inr ⟨rfl, rfl⟩⟩
    simp only [printed, hq, hlen, Nat.min_self]
  | timeout =>
    obtain ⟨deadline, hp, _, _, rfl⟩ := step_timeout h
    exact .inr ⟨.timedOut, rfl, rfl, rfl, by rw [hp]; nofun, .inr ⟨rfl, rfl⟩⟩
  | wake =>
    obtain ⟨_, hmax, rfl⟩ := step_wake h
    have hlt : s.client.i.toInt < (s.client.i + 1).toInt := by
      rw [toInt_succ hmax]
      omega
    exact .inl ⟨rfl, rfl, rfl, hlt.le, fun _ => .inr hlt⟩
  | finish =>
    obtain ⟨hp, _, rfl⟩ := step_finish h
    exact .inl ⟨rfl, rfl, rfl, Int.le_refl _, fun hs => by cases hp.symm.trans hs⟩
  | tick d =>
    obtain rfl := Option.some.inj h
    exact .inl (silent_of_client rfl rfl rfl)
  | deliver k =>
    obtain ⟨_, _, _, rfl⟩ := step_deliver h
    exact .inl (silent_of_client rfl rfl rfl)
  | serve k | loseRequest k | loseEcho k | dupRequest k | dupEcho k =>
    simp only [step, Option.map_eq_some_iff] at h
    obtain ⟨_, _, rfl⟩ := h
    exact .inl (silent_of_client rfl rfl rfl)

/-! ## The order of the lines -/

structure Ordered (a : Args) (v : Printing) : Prop where
  sorted : (v.out.map fun l => l.pass.toInt).Pairwise (· < ·)
  whole : ∀ l ∈ v.out, l.Whole a
  before : ∀ l ∈ v.out, l.pass.toInt < v.sys.client.i.toInt ∨
    l.pass = v.sys.client.i ∧ v.sys.client.phase = .asleep

/-- A pass prints one line at most, its own. -/
theorem lines_cases (a : Args) (i : Int32) (o : Outcome) :
    o.lines i a.packetsz = [] ∨
      ∃ l : Line, o.lines i a.packetsz = [l] ∧ l.pass = i ∧ l.Whole a ∧ o ≠ .sendFailed := by
  cases o with
  | sendFailed => exact .inl rfl
  | timedOut => exact .inr ⟨.timeout i, rfl, rfl, trivial, nofun⟩
  | reply seq_num rtt =>
    right
    by_cases h : seq_num = i
    · exact ⟨_, if_pos h, h, rfl, nofun⟩
    · exact ⟨_, if_neg h, rfl, trivial, nofun⟩

theorem ordered_step (hI : Inv a v.sys) (h : Ordered a v) {x : Act}
    (hstep : (printing a).step v x = some w) : Ordered a w := by
  obtain ⟨hstep, hout⟩ := printing_eq_some hstep
  rcases step_prints hI hstep with hsilent | ⟨o, hsettles⟩
  · rw [hsilent.out, List.append_nil] at hout
    refine ⟨hout ▸ h.sorted, hout ▸ h.whole, fun l hl => ?_⟩
    have hle := hsilent.le
    rcases h.before l (hout ▸ hl) with hlt | ⟨hpass, hp⟩
    · exact .inl (by omega)
    · rcases hsilent.asleep hp with ⟨hi, hp'⟩ | hlt
      · exact .inr ⟨hpass.trans hi.symm, hp'⟩
      · exact .inl (hpass ▸ hlt)
  · -- the lines before are of earlier passes
    have hlt : ∀ l ∈ v.out, l.pass.toInt < v.sys.client.i.toInt := fun l hl =>
      (h.before l hl).resolve_right fun hb => hsettles.awake hb.2
    have hle : v.sys.client.i.toInt ≤ w.sys.client.i.toInt := by
      rcases hsettles.next with ⟨_, hlt, _⟩ | ⟨hi, _⟩
      · exact hlt.le
      · rw [hi]
    rw [hsettles.out] at hout
    rcases lines_cases a v.sys.client.i o with hnone | ⟨l, hl, hpass, hwhole, ho⟩
    · rw [hnone, List.append_nil] at hout
      exact ⟨hout ▸ h.sorted, hout ▸ h.whole,
        fun l hl => .inl ((hlt l (hout ▸ hl)).trans_le hle)⟩
    · rw [hl] at hout
      refine ⟨?_, fun k hk => ?_, fun k hk => ?_⟩
      · rw [hout, List.map_append, List.map_singleton, List.pairwise_append]
        refine ⟨h.sorted, List.pairwise_singleton _ _, fun x hx y hy => ?_⟩
        obtain ⟨k, hk, rfl⟩ := List.mem_map.mp hx
        rw [List.mem_singleton.mp hy, hpass]
        exact hlt k hk
      · rcases List.mem_append.mp (hout ▸ hk) with hk | hk
        · exact h.whole k hk
        · exact List.mem_singleton.mp hk ▸ hwhole
      · rcases List.mem_append.mp (hout ▸ hk) with hk | hk
        · exact .inl ((hlt k hk).trans_le hle)
        · obtain ⟨hi, hp⟩ := hsettles.next.resolve_left fun hs => ho hs.1
          exact .inr ⟨by rw [List.mem_singleton.mp hk, hpass, hi], hp⟩

/-! ## Every run -/

/-- What the lines, the counters and the passes have to do with each other. -/
structure Shown (a : Args) (v : Printing) : Prop where
  inv : Inv a v.sys
  tallied : Tallied v.out v.sys.client.stats v.sys.hist.outcomes
  ordered : Ordered a v

theorem shown_step (h : Shown a v) {x : Act} (hstep : (printing a).step v x = some w) :
    Shown a w where
  inv := inv_step h.inv (printing_eq_some hstep).1
  tallied := by
    obtain ⟨hsys, hout⟩ := printing_eq_some hstep
    rcases step_prints h.inv hsys with hsilent | ⟨o, hsettles⟩
    · rw [hout, hsilent.out, List.append_nil, hsilent.stats, hsilent.outcomes]
      exact h.tallied
    · rw [hout, hsettles.out, hsettles.stats, hsettles.outcomes]
      exact tallied_concat h.tallied _ _ o
  ordered := ordered_step h.inv h.ordered hstep

theorem shown_run {acts : List Act} (h : (printing a).run ⟨Sys.init a, []⟩ acts = some v) :
    Shown a v :=
  (printing a).run_inv (fun _ _ _ hI hst => shown_step hI hst)
    ⟨inv_init a, tallied_nil, List.Pairwise.nil, fun _ hl => absurd hl List.not_mem_nil,
      fun _ hl => absurd hl List.not_mem_nil⟩ h

/-- The average printed against the times printed. -/
theorem Tallied.average {out : List Line} {st : Stats} {os : List Outcome}
    (h : Tallied out st os) (a : Args) :
    ((summary a st).average = none ↔ printedTimes out = []) ∧
      ∀ average ∈ (summary a st).average,
        |average - (printedTimes out).sum / (printedTimes out).length| ≤ 1 / 1000 := by
  obtain ⟨rtts, htimes, hlen, hsum⟩ := h.times
  have hnil : rtts = [] ↔ ¬ 0 < st.recvcnt := by
    rw [← hlen, List.length_pos_iff, not_not]
  unfold summary
  dsimp only
  constructor
  · rw [htimes, List.map_eq_nil_iff, hnil]
    split <;> simp_all
  · intro average haverage
    rw [Option.mem_def, Option.ite_none_right_eq_some, Option.some.injEq] at haverage
    obtain ⟨hpos, rfl⟩ := haverage
    have hne : rtts ≠ [] := fun h => hnil.mp h hpos
    have hmean := abs_rounded_mean_sub_le 3 hne
    rw [htimes, List.length_map, ← hsum, ← hlen]
    exact hmean.trans (by norm_num)

/-- **The summary is that of the lines.** In every run of at least one pass to the end, whatever the
    network loses, repeats and delays, a pass has printed one line, unless its `sendto` failed, in
    the order of the passes and each reply line about a whole datagram. The number received is that
    of the reply lines; the average is that of their times to within a thousandth of a millisecond;
    the loss is the share of the timeouts and failed sends, to within half a tenth of a percent,
    where replies out of order do not count. -/
theorem summary_of_lines (a : Args) (hcount : 1 ≤ a.msgcount.toInt) (acts : List Act)
    (v : Printing) (h : (printing a).run ⟨Sys.init a, []⟩ acts = some v)
    (hdone : v.sys.client.phase = .done) :
    ((v.out.length + failed v.sys.hist.outcomes : Nat) : Int) = a.msgcount.toInt ∧
      (v.out.map fun l => l.pass.toInt).Pairwise (· < ·) ∧ (∀ l ∈ v.out, l.Whole a) ∧
      (summary a v.sys.client.stats).received = (printedTimes v.out).length ∧
      (((summary a v.sys.client.stats).average = none ↔ printedTimes v.out = []) ∧
        ∀ average ∈ (summary a v.sys.client.stats).average,
          |average - (printedTimes v.out).sum / (printedTimes v.out).length| ≤ 1 / 1000) ∧
      |(summary a v.sys.client.stats).loss -
        ((v.out.countP Line.IsTimeout + failed v.sys.hist.outcomes : Nat) : ℚ) /
          a.msgcount.toInt * 100| ≤ 1 / 20 := by
  obtain ⟨hinv, htallied, hordered⟩ := shown_run h
  refine ⟨?_, hordered.sorted, hordered.whole, ?_, htallied.average a, ?_⟩
  · rw [htallied.lines]
    exact (hinv.ends_of_done hdone).length_eq (by omega)
  · obtain ⟨rtts, htimes, hlen, _⟩ := htallied.times
    rw [htimes, List.length_map, hlen]
    rfl
  · rw [htallied.lost]
    exact (abs_rounded_sub_le 1 _).trans (by norm_num)

/-- Six probes of the smallest size. -/
def sixProbes : Args := { oneProbe with msgcount := 6 }

/-- The first echo comes in time and the second late, so that the third pass reads it; the third
    probe is lost, the `sendto` of the fourth pass fails, and the last two echoes come in time. -/
def everyLine : List Act :=
  [.send ⟨10, 0⟩, .serve 0, .deliver 0, .wait, .recv ⟨10, 900⟩, .wake,
    .send ⟨11, 0⟩, .wait, .tick 1000000, .timeout, .serve 0, .deliver 0, .wake,
    .send ⟨13, 0⟩, .wait, .recv ⟨13, 500⟩, .loseRequest 0, .wake,
    .sendFail ⟨14, 0⟩,
    .send ⟨14, 10⟩, .serve 0, .deliver 0, .wait, .recv ⟨14, 1210⟩, .wake,
    .send ⟨15, 0⟩, .serve 0, .deliver 0, .wait, .recv ⟨15, 1301⟩, .wake, .finish]

theorem everyLine_summary :
    ∃ v, (printing sixProbes).run ⟨Sys.init sixProbes, []⟩ everyLine = some v ∧
      ((v.out.length + failed v.sys.hist.outcomes : Nat) : Int) = 6 ∧
      (v.out.map fun l => l.pass.toInt).Pairwise (· < ·) ∧ (∀ l ∈ v.out, l.Whole sixProbes) ∧
      (summary sixProbes v.sys.client.stats).received = (printedTimes v.out).length ∧
      (((summary sixProbes v.sys.client.stats).average = none ↔ printedTimes v.out = []) ∧
        ∀ average ∈ (summary sixProbes v.sys.client.stats).average,
          |average - (printedTimes v.out).sum / (printedTimes v.out).length| ≤ 1 / 1000) ∧
      |(summary sixProbes v.sys.client.stats).loss -
        ((v.out.countP Line.IsTimeout + failed v.sys.hist.outcomes : Nat) : ℚ) / 6 * 100| ≤
          1 / 20 := by
  obtain ⟨v, hv⟩ := Option.isSome_iff_exists.mp
    (by decide +kernel :
      ((printing sixProbes).run ⟨Sys.init sixProbes, []⟩ everyLine).isSome = true)
  have hdone : (((printing sixProbes).run ⟨Sys.init sixProbes, []⟩ everyLine).map
      fun v => v.sys.client.phase) = some .done := by decide +kernel
  rw [hv, Option.map_some, Option.some.injEq] at hdone
  exact ⟨v, hv, summary_of_lines sixProbes (by decide) everyLine v hv hdone⟩

-- three of six probes are received, and a timeout and a failed `sendto` are lost
example : ((printing sixProbes).run ⟨Sys.init sixProbes, []⟩ everyLine).map
    (fun v => (v.out, summary sixProbes v.sys.client.stats)) =
      some ([.reply 24 1 (9 / 10), .timeout 2, .outOfOrder 3 2, .reply 24 5 (12 / 10),
        .reply 24 6 (1301 / 1000)], ⟨6, 3, 333 / 10, some (1134 / 1000)⟩) := by decide +kernel

end NetLab.Ping
