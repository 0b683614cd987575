/-
  Soundness of the reply matching of q1client.c.

  The client keeps one buffer for its own header and for whatever echo arrives, and the socket's
  queue may hold echoes of any earlier probe, more than once. Every datagram there is still the one
  some pass sent (`Genuine`): a full buffer whose header holds that pass and its send time. So the
  comparison `seq_num == i` succeeds only on an echo of the probe of this pass (`receive_cases`).

  * `Inv`, `inv_step`, `inv_run`: the invariant of the whole system. Its loop part says that
    the client runs `probeLoop` on the outcomes of its passes, so what is proved there of the
    counters holds here (`counters_le`, `ends_of_done`).
  * `replies_matched`: in every run, each increment of `recvcnt` comes from an echo of the probe of
    that pass and adds its round-trip time; no probe is counted twice; the two counters never
    exceed `msgcount` together.
-/
import NetLab.Ping.System

namespace NetLab.Ping

open NetLab.Lib

/-! ## The invariant -/

/-- The datagram is in flight or unread. -/
def Sys.InFlight (s : Sys) (d : Datagram) : Prop :=
  d ∈ s.requests ∨ d ∈ s.echoes ∨ d ∈ s.queue

/-- The datagram is a whole buffer as its pass sent it. -/
def Genuine (a : Args) (sends : List (Int32 × Timeval)) (d : Datagram) : Prop :=
  d.bytes.length = a.packetsz ∧ a.packetsz ≤ maxDatagram ∧
    ∃ t, (d.origin, t) ∈ sends ∧ loadHead d.bytes = ⟨d.origin, t⟩

/-- The client is past `sendto` in pass `i`. -/
def Phase.Busy : Phase → Prop
  | .sent => True
  | .waiting _ => True
  | .asleep => True
  | _ => False

structure Inv (a : Args) (s : Sys) : Prop where
  buffer : s.client.buffer.length = a.packetsz
  genuine : ∀ d, s.InFlight d → Genuine a s.hist.sends d
  /-- Between passes and before the outcome of one is known, the client is at a head of the loop. -/
  atHead : s.client.phase ≠ .asleep →
    (probeLoop a.msgcount).run Loop.init s.hist.outcomes = some ⟨s.client.i, s.client.stats⟩
  /-- In `usleep` the counters already hold the outcome of pass `i`. -/
  asleep : s.client.phase = .asleep → ∃ os o st, s.hist.outcomes = os ++ [o] ∧
    (probeLoop a.msgcount).run Loop.init os = some ⟨s.client.i, st⟩ ∧
    s.client.stats = st.account s.client.i o
  busy : s.client.phase.Busy → s.client.i ≤ a.msgcount
  ended : s.client.phase = .done → ¬ s.client.i ≤ a.msgcount
  sends_before : ∀ p ∈ s.hist.sends,
    p.1.toInt < s.client.i.toInt ∨ p.1 = s.client.i ∧ s.client.phase.Busy
  sends_nodup : (s.hist.sends.map Prod.fst).Nodup
  counted_before : ∀ j ∈ s.hist.counted,
    j.toInt < s.client.i.toInt ∨ j = s.client.i ∧ s.client.phase = .asleep
  counted_nodup : s.hist.counted.Nodup
  counted_length : s.hist.counted.length = s.client.stats.recvcnt

theorem inv_init (a : Args) : Inv a (Sys.init a) where
  buffer := List.length_replicate
  genuine := by
    rintro d (h | h | h) <;> cases h
  atHead _ := rfl
  asleep h := by cases h
  busy h := absurd h id
  ended h := by cases h
  sends_before := nofun
  sends_nodup := List.nodup_nil
  counted_before := nofun
  counted_nodup := List.nodup_nil
  counted_length := rfl

variable {a : Args} {s s' : Sys}

/-- More sends make no datagram less genuine. -/
theorem Genuine.mono {sends sends' : List (Int32 × Timeval)} (h : ∀ p ∈ sends, p ∈ sends')
    {d : Datagram} (hd : Genuine a sends d) : Genuine a sends' d := by
  obtain ⟨hlen, hmax, t, ht, hload⟩ := hd
  exact ⟨hlen, hmax, t, h _ ht, hload⟩

/-- A step that leaves the client alone keeps the invariant, if what is in flight after it is
    genuine. -/
theorem Inv.network (h : Inv a s) (hclient : s'.client = s.client)
    (hsends : s'.hist.sends = s.hist.sends) (hcounted : s'.hist.counted = s.hist.counted)
    (houtcomes : s'.hist.outcomes = s.hist.outcomes)
    (hgen : ∀ d, s'.InFlight d → Genuine a s.hist.sends d) : Inv a s' where
  buffer := hclient ▸ h.buffer
  genuine := hsends ▸ hgen
  atHead hp := by rw [hclient] at hp ⊢; rw [houtcomes]; exact h.atHead hp
  asleep hp := by rw [hclient] at hp ⊢; rw [houtcomes]; exact h.asleep hp
  busy hp := by rw [hclient] at hp ⊢; exact h.busy hp
  ended hp := by rw [hclient] at hp ⊢; exact h.ended hp
  sends_before := by rw [hclient, hsends]; exact h.sends_before
  sends_nodup := hsends ▸ h.sends_nodup
  counted_before := by rw [hclient, hcounted]; exact h.counted_before
  counted_nodup := hcounted ▸ h.counted_nodup
  counted_length := by rw [hclient, hcounted]; exact h.counted_length

/-- Outside a pass all sends are of earlier passes. -/
theorem Inv.sends_lt (h : Inv a s) (hidle : ¬ s.client.phase.Busy) :
    ∀ p ∈ s.hist.sends, p.1.toInt < s.client.i.toInt :=
  fun p hmem => (h.sends_before p hmem).resolve_right fun hb => hidle hb.2

/-- Before its `recvfrom` returns a pass has counted nothing. -/
theorem Inv.counted_lt (h : Inv a s) (hp : s.client.phase ≠ .asleep) :
    ∀ j ∈ s.hist.counted, j.toInt < s.client.i.toInt :=
  fun j hj => (h.counted_before j hj).resolve_right fun hs => hp hs.2

/-- The server sends back a genuine request as it is. -/
theorem Genuine.echo_eq {sends : List (Int32 × Timeval)} {d : Datagram} (h : Genuine a sends d) :
    (⟨d.origin, echo d.bytes⟩ : Datagram) = d := by
  have hlen : d.bytes.length ≤ 65507 := h.1.le.trans h.2.1
  rw [NetLab.Ping.echo_eq hlen]

/-! ## The client's steps -/

theorem account_reply_self (i : Int32) (st : Stats) (r : ℚ) :
    st.account i (.reply i r) = { st with recvcnt := st.recvcnt + 1, trtt := st.trtt + r } :=
  if_pos rfl

theorem account_reply_ne {i j : Int32} (hne : j ≠ i) (st : Stats) (r : ℚ) :
    st.account i (.reply j r) = st :=
  if_neg hne

/-- **What a `recvfrom` can do.** The datagram is genuine, so the buffer is that datagram, and the
    reply carries the number of the pass that sent it and the time since that pass sent it. It is
    counted exactly where that pass is this one. -/
theorem receive_cases (h : Inv a s) {d : Datagram} (hd : d ∈ s.queue) (rest : List Datagram)
    (rcvtime : Timeval) :
    ∃ snd, (d.origin, snd) ∈ s.hist.sends ∧
      (s.receive a d rest rcvtime).client.buffer = d.bytes ∧
      (s.receive a d rest rcvtime).hist.outcomes =
        s.hist.outcomes ++ [.reply d.origin (rcvtime.ms - snd.ms)] ∧
      (s.receive a d rest rcvtime).client.stats =
        s.client.stats.account s.client.i (.reply d.origin (rcvtime.ms - snd.ms)) ∧
      (d.origin = s.client.i ∧
          (s.receive a d rest rcvtime).client.stats =
            { s.client.stats with
              recvcnt := s.client.stats.recvcnt + 1
              trtt := s.client.stats.trtt + (rcvtime.ms - snd.ms) } ∧
          (s.receive a d rest rcvtime).hist.counted = s.hist.counted ++ [s.client.i] ∨
        d.origin ≠ s.client.i ∧
          (s.receive a d rest rcvtime).client.stats = s.client.stats ∧
          (s.receive a d rest rcvtime).hist.counted = s.hist.counted) := by
  obtain ⟨hlen, _, snd, hsnd, hload⟩ := h.genuine d (.inr (.inr hd))
  have hbuf : recvInto a.packetsz s.client.buffer d.bytes = d.bytes := recvInto_full h.buffer hlen
  have hreply : readReply d.bytes rcvtime = .reply d.origin (rcvtime.ms - snd.ms) := by
    unfold readReply
    rw [hload, rtt_eq]
  refine ⟨snd, hsnd, hbuf, ?_, ?_, ?_⟩
  · simp only [Sys.receive, hbuf, hreply]
  · simp only [Sys.receive, hbuf, hreply]
  · by_cases hexp : d.origin = s.client.i
    · left
      simp only [Sys.receive, hbuf, hreply, hexp, account_reply_self]
      refine ⟨trivial, trivial, ?_⟩
      rw [if_neg (by omega)]
    · right
      simp only [Sys.receive, hbuf, hreply, account_reply_ne hexp, if_true]
      exact ⟨hexp, trivial, trivial⟩

theorem inv_send (h : Inv a s) {t : Timeval} (hstep : step a s (.send t) = some s') :
    Inv a s' := by
  obtain ⟨hp, hi, hsz, rfl⟩ := step_send hstep
  have hlt := h.sends_lt (by rw [hp]; exact id)
  have hgen : Genuine a (s.hist.sends ++ [(s.client.i, t)]) ⟨s.client.i, s.client.stamp t⟩ :=
    ⟨length_stamp h.buffer t, hsz, t, by simp, loadHead_stamp h.buffer t⟩
  have hold : ∀ d, s.InFlight d → Genuine a (s.hist.sends ++ [(s.client.i, t)]) d :=
    fun d hd => (h.genuine d hd).mono fun p hp => List.mem_append_left _ hp
  refine ⟨length_stamp h.buffer t, ?_, fun _ => ?_, nofun, fun _ => hi, nofun, ?_, ?_, ?_,
    h.counted_nodup, h.counted_length⟩
  · rintro d (hd | hd | hd)
    · rcases List.mem_append.mp hd with hd | hd
      · exact hold d (.inl hd)
      · exact List.mem_singleton.mp hd ▸ hgen
    · exact hold d (.inr (.inl hd))
    · exact hold d (.inr (.inr hd))
  · exact h.atHead (by rw [hp]; nofun)
  · intro p hmem
    rcases List.mem_append.mp hmem with hmem | hmem
    · exact .inl (hlt p hmem)
    · rw [List.mem_singleton.mp hmem]
      exact .inr ⟨rfl, trivial⟩
  · -- no earlier send was in this pass
    show ((s.hist.sends ++ [(s.client.i, t)]).map Prod.fst).Nodup
    rw [List.map_append, List.nodup_append]
    refine ⟨h.sends_nodup, List.nodup_singleton _, ?_⟩
    rintro j hj k hk rfl
    obtain ⟨p, hmem, rfl⟩ := List.mem_map.mp hj
    have hself := hlt p hmem
    rw [List.mem_singleton.mp hk] at hself
    exact absurd hself (lt_irrefl _)
  · exact fun j hj => .inl (h.counted_lt (by rw [hp]; nofun) j hj)

theorem inv_sendFail (h : Inv a s) {t : Timeval} (hstep : step a s (.sendFail t) = some s') :
    Inv a s' := by
  obtain ⟨hp, hi, hmax, rfl⟩ := step_sendFail hstep
  have hrun := h.atHead (by rw [hp]; nofun)
  refine ⟨length_stamp h.buffer t, h.genuine, fun _ => ?_, ?_, ?_, ?_, ?_, h.sends_nodup, ?_,
    h.counted_nodup, h.counted_length⟩
  · exact (probeLoop a.msgcount).run_concat.mpr
      ⟨_, hrun, probeLoop_step.mpr ⟨Int32.le_iff_toInt_le.mp hi, hmax, rfl⟩⟩
  · intro hsl
    rw [show s.client.phase = _ from hsl] at hp
    cases hp
  · intro hbusy
    rw [show s.client.phase = _ from hp] at hbusy
    exact absurd hbusy id
  · intro hd
    rw [show s.client.phase = _ from hd] at hp
    cases hp
  · exact fun p hmem => .inl
      ((toInt_lt_succ_iff hmax).mpr ((h.sends_before p hmem).imp_right And.left))
  · exact fun j hj => .inl
      ((toInt_lt_succ_iff hmax).mpr ((h.counted_before j hj).imp_right And.left))

theorem inv_wait (h : Inv a s) (hstep : step a s .wait = some s') : Inv a s' := by
  obtain ⟨hp, rfl⟩ := step_wait hstep
  have hbusy : s.client.phase.Busy := by rw [hp]; trivial
  refine ⟨h.buffer, h.genuine, fun _ => h.atHead (by rw [hp]; nofun), nofun,
    fun _ => h.busy hbusy, nofun, fun p hmem => ?_, h.sends_nodup, fun j hj => ?_,
    h.counted_nodup, h.counted_length⟩
  · exact (h.sends_before p hmem).imp_right fun hb => ⟨hb.1, trivial⟩
  · exact .inl (h.counted_lt (by rw [hp]; nofun) j hj)

theorem inv_recv (h : Inv a s) {rcvtime : Timeval} (hstep : step a s (.recv rcvtime) = some s') :
    Inv a s' := by
  obtain ⟨deadline, d, rest, hp, hq, rfl⟩ := step_recv hstep
  have hbusy : s.client.phase.Busy := by rw [hp]; trivial
  have hd : d ∈ s.queue := hq ▸ List.mem_cons_self
  have hlt := h.counted_lt (by rw [hp]; nofun)
  obtain ⟨snd, _, hbuf, hout, hstats, hcase⟩ := receive_cases h hd rest rcvtime
  refine ⟨?_, ?_, fun hne => absurd rfl hne, fun _ => ?_, fun _ => h.busy hbusy, nofun, ?_,
    h.sends_nodup, ?_, ?_, ?_⟩
  · rw [hbuf]
    exact (h.genuine d (.inr (.inr hd))).1
  · have hsub : ∀ e ∈ rest, e ∈ s.queue := fun e he => hq ▸ List.mem_cons_of_mem d he
    exact forall_flight_mono h.genuine (fun _ he => he) (fun _ he => he) hsub
  · exact ⟨s.hist.outcomes, _, s.client.stats, hout, h.atHead (by rw [hp]; nofun), hstats⟩
  · exact fun p hmem => (h.sends_before p hmem).imp_right fun hb => ⟨hb.1, trivial⟩
  · intro j hj
    rcases hcase with ⟨_, _, hc⟩ | ⟨_, _, hc⟩ <;> rw [hc] at hj
    · rcases List.mem_append.mp hj with hj | hj
      · exact .inl (hlt j hj)
      · exact .inr ⟨List.mem_singleton.mp hj, rfl⟩
    · exact .inl (hlt j hj)
  · rcases hcase with ⟨_, _, hc⟩ | ⟨_, _, hc⟩ <;> rw [hc]
    · refine List.nodup_append.mpr ⟨h.counted_nodup, List.nodup_singleton _, ?_⟩
      intro j hj k hk hjk
      rw [hjk, List.mem_singleton.mp hk] at hj
      exact absurd (hlt _ hj) (lt_irrefl _)
    · exact h.counted_nodup
  · rcases hcase with ⟨_, hs, hc⟩ | ⟨_, hs, hc⟩ <;> rw [hc, hs]
    · rw [List.length_append, List.length_singleton, h.counted_length]
    · exact h.counted_length

theorem inv_timeout (h : Inv a s) (hstep : step a s .timeout = some s') : Inv a s' := by
  obtain ⟨deadline, hp, _, _, rfl⟩ := step_timeout hstep
  have hbusy : s.client.phase.Busy := by rw [hp]; trivial
  refine ⟨h.buffer, h.genuine, fun hne => absurd rfl hne, fun _ => ?_, fun _ => h.busy hbusy,
    nofun, fun p hmem => ?_, h.sends_nodup, fun j hj => ?_, h.counted_nodup, h.counted_length⟩
  · exact ⟨s.hist.outcomes, .timedOut, s.client.stats, rfl, h.atHead (by rw [hp]; nofun), rfl⟩
  · exact (h.sends_before p hmem).imp_right fun hb => ⟨hb.1, trivial⟩
  · exact .inl (h.counted_lt (by rw [hp]; nofun) j hj)

theorem inv_wake (h : Inv a s) (hstep : step a s .wake = some s') : Inv a s' := by
  obtain ⟨hp, hmax, rfl⟩ := step_wake hstep
  have hle := h.busy (by rw [hp]; trivial)
  obtain ⟨os, o, st, hos, hrun, hst⟩ := h.asleep hp
  refine ⟨h.buffer, h.genuine, fun _ => ?_, nofun, fun hb => absurd hb id, nofun, ?_,
    h.sends_nodup, ?_, h.counted_nodup, h.counted_length⟩
  · -- the pass whose outcome the counters hold is complete
    show (probeLoop a.msgcount).run Loop.init s.hist.outcomes = _
    rw [hos]
    refine (probeLoop a.msgcount).run_concat.mpr ⟨_, hrun, probeLoop_step.mpr
      ⟨Int32.le_iff_toInt_le.mp hle, hmax, ?_⟩⟩
    rw [hst]
  · exact fun p hmem => .inl
      ((toInt_lt_succ_iff hmax).mpr ((h.sends_before p hmem).imp_right And.left))
  · exact fun j hj => .inl
      ((toInt_lt_succ_iff hmax).mpr ((h.counted_before j hj).imp_right And.left))

theorem inv_finish (h : Inv a s) (hstep : step a s .finish = some s') : Inv a s' := by
  obtain ⟨hp, hend, rfl⟩ := step_finish hstep
  refine ⟨h.buffer, h.genuine, fun _ => h.atHead (by rw [hp]; nofun), nofun,
    fun hb => absurd hb id, fun _ => hend, fun p hmem => ?_, h.sends_nodup, fun j hj => ?_,
    h.counted_nodup, h.counted_length⟩
  · exact .inl (h.sends_lt (by rw [hp]; exact id) p hmem)
  · exact .inl (h.counted_lt (by rw [hp]; nofun) j hj)

/-! ## Every step -/

theorem inv_step (h : Inv a s) {x : Act} (hstep : step a s x = some s') : Inv a s' := by
  cases x with
  | send t => exact inv_send h hstep
  | sendFail t => exact inv_sendFail h hstep
  | wait => exact inv_wait h hstep
  | recv t => exact inv_recv h hstep
  | timeout => exact inv_timeout h hstep
  | wake => exact inv_wake h hstep
  | finish => exact inv_finish h hstep
  | tick d =>
    obtain rfl := Option.some.inj hstep
    exact h.network rfl rfl rfl rfl h.genuine
  | serve k =>
    simp only [step, Option.map_eq_some_iff] at hstep
    obtain ⟨⟨d, rest⟩, hk, rfl⟩ := hstep
    have hd := h.genuine d (.inl (mem_of_takeAt hk))
    have hreply : Genuine a s.hist.sends ⟨d.origin, echo d.bytes⟩ := by
      rw [hd.echo_eq]
      exact hd
    exact h.network rfl rfl rfl rfl (forall_flight_serve h.genuine hk hreply)
  | deliver k =>
    obtain ⟨d, rest, hk, rfl⟩ := step_deliver hstep
    exact h.network rfl rfl rfl rfl (forall_flight_deliver h.genuine hk)
  | loseRequest k =>
    simp only [step, Option.map_eq_some_iff] at hstep
    obtain ⟨l, hk, rfl⟩ := hstep
    have hsub : ∀ e ∈ l, e ∈ s.requests := fun e he => mem_of_lose hk he
    exact h.network rfl rfl rfl rfl (forall_flight_mono h.genuine hsub (fun _ he => he) fun _ he => he)
  | loseEcho k =>
    simp only [step, Option.map_eq_some_iff] at hstep
    obtain ⟨l, hk, rfl⟩ := hstep
    have hsub : ∀ e ∈ l, e ∈ s.echoes := fun e he => mem_of_lose hk he
    exact h.network rfl rfl rfl rfl (forall_flight_mono h.genuine (fun _ he => he) hsub fun _ he => he)
  | dupRequest k =>
    simp only [step, Option.map_eq_some_iff] at hstep
    obtain ⟨l, hk, rfl⟩ := hstep
    have hsub : ∀ e ∈ l, e ∈ s.requests := fun e he => mem_of_duplicate hk he
    exact h.network rfl rfl rfl rfl (forall_flight_mono h.genuine hsub (fun _ he => he) fun _ he => he)
  | dupEcho k =>
    simp only [step, Option.map_eq_some_iff] at hstep
    obtain ⟨l, hk, rfl⟩ := hstep
    have hsub : ∀ e ∈ l, e ∈ s.echoes := fun e he => mem_of_duplicate hk he
    exact h.network rfl rfl rfl rfl (forall_flight_mono h.genuine (fun _ he => he) hsub fun _ he => he)

theorem inv_run (a : Args) {acts : List Act} (h : (system a).run (Sys.init a) acts = some s) :
    Inv a s :=
  (system a).run_inv (fun _ _ _ hI hst => inv_step hI hst) (inv_init a) h

/-! ## The counters -/

/-- The outcomes of the passes that are complete, and the counters with that of a pass that has
    one and is still asleep. -/
theorem Inv.stats_eq (h : Inv a s) :
    ∃ l os, (probeLoop a.msgcount).run Loop.init os = some l ∧ l.i = s.client.i ∧
      (s.client.stats = l.stats ∨
        s.client.phase = .asleep ∧ ∃ o, s.client.stats = l.stats.account l.i o) := by
  by_cases hp : s.client.phase = .asleep
  · obtain ⟨os, o, st, _, hrun, hst⟩ := h.asleep hp
    exact ⟨_, os, hrun, rfl, .inr ⟨hp, o, hst⟩⟩
  · exact ⟨_, _, h.atHead hp, rfl, .inl rfl⟩

/-- Received and lost never exceed the probes asked for. -/
theorem Inv.counters_le (h : Inv a s) (hpos : 0 ≤ a.msgcount.toInt) :
    (s.client.stats.recvcnt : Int) + s.client.stats.lost_count ≤ a.msgcount.toInt := by
  obtain ⟨l, os, hrun, hi, hst⟩ := h.stats_eq
  have htotal := probeLoop_total hrun
  have hlen := probeLoop_length_le hrun hpos
  rcases hst with hst | ⟨hp, o, hst⟩
  · rw [hst]
    omega
  · -- pass `i` is one of those asked for, and it counts once at most
    have hle := Int32.le_iff_toInt_le.mp (h.busy (by rw [hp]; trivial))
    have hlt := probeLoop_i hrun
    have hone := account_total l.i l.stats o
    rw [← hi] at hle
    rw [hst]
    omega

/-- A loop that has ended ends with the outcomes of its passes. -/
theorem Inv.ends_of_done (h : Inv a s) (hp : s.client.phase = .done) :
    Ends a.msgcount s.hist.outcomes s.client.stats :=
  ⟨_, h.atHead (by rw [hp]; nofun), h.ended hp, rfl⟩

/-! ## Soundness -/

/-- A transition that counts a reply reads the echo of the probe of its pass, whose send time is
    the only one of that pass, and adds the time from there to `rcvtime`; any other leaves `recvcnt`
    and `trtt` alone. -/
def Matched (s : Sys) (x : Act) (s' : Sys) : Prop :=
  (s'.client.stats.recvcnt = s.client.stats.recvcnt ∧ s'.client.stats.trtt = s.client.stats.trtt ∧
    s'.hist.counted = s.hist.counted) ∨
  ∃ rcvtime d rest snd, x = .recv rcvtime ∧ s.queue = d :: rest ∧ d.origin = s.client.i ∧
    (∀ t, (s.client.i, t) ∈ s.hist.sends ↔ t = snd) ∧
    s'.client.stats.recvcnt = s.client.stats.recvcnt + 1 ∧
    s'.client.stats.trtt = s.client.stats.trtt + (rcvtime.ms - snd.ms) ∧
    s'.hist.counted = s.hist.counted ++ [d.origin]

/-- A pass sends once. -/
theorem Inv.send_unique (h : Inv a s) {j : Int32} {snd : Timeval} (hsnd : (j, snd) ∈ s.hist.sends)
    (t : Timeval) : (j, t) ∈ s.hist.sends ↔ t = snd := by
  constructor
  · intro ht
    exact congrArg Prod.snd (List.inj_on_of_nodup_map h.sends_nodup ht hsnd rfl)
  · rintro rfl
    exact hsnd

/-- Only `recvfrom` counts a reply. -/
theorem matched_of_ne_recv {x : Act} (hstep : step a s x = some s')
    (hx : ∀ rcvtime, x ≠ .recv rcvtime) : Matched s x s' := by
  left
  cases x with
  | recv t => exact absurd rfl (hx t)
  | timeout =>
    obtain ⟨_, _, _, _, rfl⟩ := step_timeout hstep
    exact ⟨rfl, rfl, rfl⟩
  | tick d =>
    obtain rfl := Option.some.inj hstep
    exact ⟨rfl, rfl, rfl⟩
  | send t | sendFail t | wait | wake | finish =>
    simp only [step, Option.ite_none_right_eq_some, Option.some.injEq] at hstep
    obtain ⟨_, rfl⟩ := hstep
    exact ⟨rfl, rfl, rfl⟩
  | serve k | deliver k | loseRequest k | loseEcho k | dupRequest k | dupEcho k =>
    simp only [step, Option.map_eq_some_iff] at hstep
    obtain ⟨_, _, rfl⟩ := hstep
    exact ⟨rfl, rfl, rfl⟩

theorem matched_step (h : Inv a s) {x : Act} (hstep : step a s x = some s') :
    Matched s x s' := by
  by_cases hx : ∃ rcvtime, x = .recv rcvtime
  · obtain ⟨rcvtime, rfl⟩ := hx
    obtain ⟨deadline, d, rest, _, hq, rfl⟩ := step_recv hstep
    have hd : d ∈ s.queue := hq ▸ List.mem_cons_self
    obtain ⟨snd, hsnd, _, _, _, hcase⟩ := receive_cases h hd rest rcvtime
    rcases hcase with ⟨hexp, hst, hc⟩ | ⟨_, hst, hc⟩
    · right
      refine ⟨rcvtime, d, rest, snd, rfl, hq, hexp, h.send_unique (hexp ▸ hsnd), ?_, ?_, ?_⟩
      · rw [hst]
      · rw [hst]
      · rw [hc, hexp]
    · left
      rw [hst]
      exact ⟨rfl, rfl, hc⟩
  · exact matched_of_ne_recv hstep fun rcvtime he => hx ⟨rcvtime, he⟩

/-- **Replies are matched soundly.** In every run each increment of `recvcnt` comes from the echo of
    the probe of its pass and adds the round-trip time of that probe; no probe is counted twice;
    the counters stay within the probes asked for. -/
theorem replies_matched (a : Args) (hcount : 1 ≤ a.msgcount.toInt) (acts : List Act) :
    (system a).Along Matched (Sys.init a) acts ∧
      ∀ s, (system a).run (Sys.init a) acts = some s →
        s.hist.counted.Nodup ∧ s.hist.counted.length = s.client.stats.recvcnt ∧
        (s.client.stats.recvcnt : Int) + s.client.stats.lost_count ≤ a.msgcount.toInt := by
  constructor
  · exact (system a).along_of_inv (fun _ _ _ hI hst => inv_step hI hst)
      (fun _ _ _ hI hst => matched_step hI hst) (inv_init a) acts
  · intro s hrun
    have hI := inv_run a hrun
    exact ⟨hI.counted_nodup, hI.counted_length, hI.counters_le (by omega)⟩

/-- One probe of the smallest size, and its echo twice. -/
def oneProbe : Args := ⟨1, 24, by decide⟩

def duplicatedEcho : List Act :=
  [.send ⟨10, 0⟩, .serve 0, .dupEcho 0, .deliver 0, .wait, .recv ⟨10, 2500⟩, .deliver 0]

theorem duplicatedEcho_matched :
    (system oneProbe).Along Matched (Sys.init oneProbe) duplicatedEcho ∧
      ∀ s, (system oneProbe).run (Sys.init oneProbe) duplicatedEcho = some s →
        s.hist.counted.Nodup ∧ s.hist.counted.length = s.client.stats.recvcnt ∧
        (s.client.stats.recvcnt : Int) + s.client.stats.lost_count ≤ 1 :=
  replies_matched oneProbe (by decide) duplicatedEcho

/-- That run counts its probe once and leaves an echo unread. -/
example : ((system oneProbe).run (Sys.init oneProbe) duplicatedEcho).map
    (fun s => (s.hist.counted, s.client.stats.recvcnt, s.queue.length)) = some ([1], 1, 1) := by
  decide +kernel

end NetLab.Ping
