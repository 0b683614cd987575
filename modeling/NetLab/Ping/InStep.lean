/-
  Whether the client of q1client.c stays in step with its echoes.

  A pass does one `recvfrom` and takes the oldest datagram of the socket's queue. An echo that comes
  after the wait of its own pass is read by a later pass, which drops it and does not wait again
  (q3traceroute.c does, in its `while (!check)`), so that pass misses its own echo even if it comes
  in time.

  * `Fates`: what has become of every timely echo. Its pass has read a datagram, or it is still in
    the queue and its pass has yet to read.
  * `inStep_iff`: in every state of every run, each timely echo of a pass that is over is counted
    exactly when no pass with a timely echo has read another probe's.
  * `lateRun_outOfStep`: two probes, the first echo late, the second in time and not counted.
-/
import NetLab.Ping.Sound

namespace NetLab.Ping

open NetLab.Lib

/-- The `recvfrom` of pass `j` has returned, or its `sendto` has failed. -/
def Sys.Over (s : Sys) (j : Int32) : Prop :=
  j.toInt < s.client.i.toInt ∨ j = s.client.i ∧ s.client.phase = .asleep

instance (s : Sys) (j : Int32) : Decidable (s.Over j) :=
  inferInstanceAs (Decidable (_ ∨ _))

/-- Every timely echo of a pass that is over is counted. -/
def InStep (s : Sys) : Prop := ∀ j ∈ s.hist.timely, s.Over j → j ∈ s.hist.counted

/-- A pass that has read the echo of another probe has no timely echo of its own. -/
def NoStale (s : Sys) : Prop := ∀ p ∈ s.hist.took, p.2 ≠ p.1 → p.1 ∉ s.hist.timely

instance (s : Sys) : Decidable (InStep s) :=
  List.decidableBAll (fun j => s.Over j → j ∈ s.hist.counted) s.hist.timely

instance (s : Sys) : Decidable (NoStale s) :=
  List.decidableBAll (fun p : Int32 × Int32 => p.2 ≠ p.1 → p.1 ∉ s.hist.timely) s.hist.took

/-! ## The fate of an echo -/

/-- Pass `j` has read some datagram. -/
def Sys.HasRead (s : Sys) (j : Int32) : Prop := ∃ o, (j, o) ∈ s.hist.took

/-- An echo of pass `j` is in the queue, and the client is in that pass and has not read yet. -/
def Sys.Pending (s : Sys) (j : Int32) : Prop :=
  j = s.client.i ∧ s.client.phase.Busy ∧ s.client.phase ≠ .asleep ∧ ∃ d ∈ s.queue, d.origin = j

/-- The wait of pass `j` has ended by the clock. -/
def Sys.Expired (s : Sys) (j : Int32) : Prop := ∃ w ∈ s.hist.waits, w.1 = j ∧ w.2 ≤ s.now

structure Fates (s : Sys) : Prop where
  took_over : ∀ p ∈ s.hist.took, s.Over p.1
  took_counted : ∀ p ∈ s.hist.took, p.2 = p.1 ↔ p.1 ∈ s.hist.counted
  timely : ∀ j ∈ s.hist.timely, s.HasRead j ∨ s.Pending j
  sent : ∀ p ∈ s.hist.sends, s.Over p.1 → s.HasRead p.1 ∨ s.Expired p.1
  waiting : ∀ deadline, s.client.phase = .waiting deadline →
    (s.client.i, deadline) ∈ s.hist.waits

theorem fates_init (a : Args) : Fates (Sys.init a) where
  took_over := nofun
  took_counted := nofun
  timely := nofun
  sent := nofun
  waiting _ h := by cases h

variable {a : Args} {s s' : Sys}

/-- A step that leaves the client, its queue and the record of its passes alone, and does not turn
    back the clock, changes no fate. -/
theorem Fates.frame (h : Fates s) (hclient : s'.client = s.client) (hqueue : s'.queue = s.queue)
    (hhist : s'.hist = s.hist) (hnow : s.now ≤ s'.now) : Fates s' := by
  obtain ⟨hover, hcount, htimely, hsent, hwait⟩ := h
  refine ⟨?_, ?_, ?_, ?_, ?_⟩
  · unfold Sys.Over
    rw [hclient, hhist]
    exact hover
  · rw [hhist]
    exact hcount
  · unfold Sys.HasRead Sys.Pending
    rw [hclient, hhist, hqueue]
    exact htimely
  · unfold Sys.Over Sys.HasRead Sys.Expired
    rw [hclient, hhist]
    intro p hp hov
    rcases hsent p hp hov with hr | ⟨w, hw, hj, hle⟩
    · exact .inl hr
    · exact .inr ⟨w, hw, hj, hle.trans hnow⟩
  · rw [hclient, hhist]
    exact hwait

/-- Pass `i` is not over before its `recvfrom` returns. -/
theorem Sys.Over.lt_of_ne_asleep {j : Int32} (h : s.Over j) (hp : s.client.phase ≠ .asleep) :
    j.toInt < s.client.i.toInt := by
  rcases h with hlt | ⟨_, hsl⟩
  · exact hlt
  · exact absurd hsl hp

theorem fates_send (h : Fates s) {t : Timeval} (hstep : step a s (.send t) = some s') :
    Fates s' := by
  obtain ⟨hp, _, _, rfl⟩ := step_send hstep
  have hne : s.client.phase ≠ .asleep := by rw [hp]; nofun
  refine ⟨fun p hmem => ?_, h.took_counted, fun j hj => ?_, fun p hmem hov => ?_, nofun⟩
  · exact .inl ((h.took_over p hmem).lt_of_ne_asleep hne)
  · rcases h.timely j hj with hr | ⟨_, hb, _⟩
    · exact .inl hr
    · rw [hp] at hb
      exact absurd hb id
  · have hlt := hov.lt_of_ne_asleep (by nofun)
    rcases List.mem_append.mp hmem with hmem | hmem
    · exact h.sent p hmem (.inl hlt)
    · rw [List.mem_singleton.mp hmem] at hlt
      exact absurd hlt (lt_irrefl _)

/-- Going on to the next pass: nothing is pending, so no fate changes. -/
theorem fates_next (h : Fates s) (hmax : s.client.i ≠ Int32.maxValue)
    (hsends : ∀ p ∈ s.hist.sends, s.Over p.1) (hpend : ∀ j, ¬ s.Pending j)
    {c : Client} (hc : c.i = s.client.i + 1) (hhead : c.phase = .head) {os : List Outcome} :
    Fates { s with client := c, hist := { s.hist with outcomes := os } } := by
  have hmono : ∀ j, s.Over j → j.toInt < c.i.toInt := by
    intro j hj
    rw [hc, toInt_lt_succ_iff hmax]
    exact hj.imp_right And.left
  refine ⟨fun p hmem => .inl (hmono _ (h.took_over p hmem)), h.took_counted, fun j hj => ?_,
    fun p hmem _ => h.sent p hmem (hsends p hmem), fun deadline hw => ?_⟩
  · rcases h.timely j hj with hr | hpd
    · exact .inl hr
    · exact absurd hpd (hpend j)
  · rw [show c.phase = _ from hw] at hhead
    cases hhead

theorem fates_sendFail (h : Fates s) (hI : Inv a s) {t : Timeval}
    (hstep : step a s (.sendFail t) = some s') : Fates s' := by
  obtain ⟨hp, _, hmax, rfl⟩ := step_sendFail hstep
  have hidle : ¬ s.client.phase.Busy := by rw [hp]; exact id
  refine fates_next h hmax (fun p hmem => .inl (hI.sends_lt hidle p hmem))
    (fun j hpd => hidle hpd.2.1) ?_ ?_
  · rfl
  · exact hp

theorem fates_wake (h : Fates s) (hI : Inv a s) (hstep : step a s .wake = some s') :
    Fates s' := by
  obtain ⟨hp, hmax, rfl⟩ := step_wake hstep
  refine fates_next h hmax (fun p hmem => ?_) (fun j hpd => hpd.2.2.1 hp) rfl rfl
  exact (hI.sends_before p hmem).imp_right fun hb => ⟨hb.1, hp⟩

theorem fates_finish (h : Fates s) (hstep : step a s .finish = some s') : Fates s' := by
  obtain ⟨hp, _, rfl⟩ := step_finish hstep
  have hne : s.client.phase ≠ .asleep := by rw [hp]; nofun
  refine ⟨fun p hmem => ?_, h.took_counted, fun j hj => ?_, fun p hmem hov => ?_, nofun⟩
  · exact .inl ((h.took_over p hmem).lt_of_ne_asleep hne)
  · rcases h.timely j hj with hr | ⟨_, hb, _⟩
    · exact .inl hr
    · rw [hp] at hb
      exact absurd hb id
  · exact h.sent p hmem (.inl (hov.lt_of_ne_asleep nofun))

theorem fates_wait (h : Fates s) (hstep : step a s .wait = some s') : Fates s' := by
  obtain ⟨hp, rfl⟩ := step_wait hstep
  have hne : s.client.phase ≠ .asleep := by rw [hp]; nofun
  refine ⟨fun p hmem => ?_, h.took_counted, fun j hj => ?_, fun p hmem hov => ?_,
    fun deadline hw => ?_⟩
  · exact .inl ((h.took_over p hmem).lt_of_ne_asleep hne)
  · exact (h.timely j hj).imp_right fun hpd => ⟨hpd.1, trivial, nofun, hpd.2.2.2⟩
  · rcases h.sent p hmem (.inl (hov.lt_of_ne_asleep nofun)) with hr | ⟨w, hw, hj, hle⟩
    · exact .inl hr
    · exact .inr ⟨w, List.mem_append_left _ hw, hj, hle⟩
  · obtain rfl := Phase.waiting.inj hw
    exact List.mem_append_right _ (List.mem_singleton_self _)

theorem fates_timeout (h : Fates s) (hstep : step a s .timeout = some s') : Fates s' := by
  obtain ⟨deadline, hp, hq, hdl, rfl⟩ := step_timeout hstep
  have hne : s.client.phase ≠ .asleep := by rw [hp]; nofun
  refine ⟨fun p hmem => ?_, h.took_counted, fun j hj => ?_, fun p hmem hov => ?_, nofun⟩
  · exact .inl ((h.took_over p hmem).lt_of_ne_asleep hne)
  · -- an empty queue holds nothing pending
    rcases h.timely j hj with hr | ⟨_, _, _, d, hd, _⟩
    · exact .inl hr
    · rw [hq] at hd
      cases hd
  · rcases hov with hlt | ⟨heq, _⟩
    · exact h.sent p hmem (.inl hlt)
    · exact .inr ⟨_, h.waiting deadline hp, heq.symm, hdl⟩

theorem fates_recv (h : Fates s) (hI : Inv a s) {rcvtime : Timeval}
    (hstep : step a s (.recv rcvtime) = some s') : Fates s' := by
  obtain ⟨deadline, d, rest, hp, hq, rfl⟩ := step_recv hstep
  have hne : s.client.phase ≠ .asleep := by rw [hp]; nofun
  have hd : d ∈ s.queue := hq ▸ List.mem_cons_self
  have hlt := hI.counted_lt hne
  have hread : (s.receive a d rest rcvtime).HasRead s.client.i :=
    ⟨d.origin, List.mem_append_right _ (List.mem_singleton_self _)⟩
  have hkeep : ∀ j, s.HasRead j → (s.receive a d rest rcvtime).HasRead j :=
    fun j hj => hj.imp fun o ho => List.mem_append_left _ ho
  obtain ⟨_, _, _, _, _, hcase⟩ := receive_cases hI hd rest rcvtime
  refine ⟨fun p hmem => ?_, fun p hmem => ?_, fun j hj => ?_, fun p hmem hov => ?_, nofun⟩
  · rcases List.mem_append.mp hmem with hmem | hmem
    · exact .inl ((h.took_over p hmem).lt_of_ne_asleep hne)
    · rw [List.mem_singleton.mp hmem]
      exact .inr ⟨rfl, rfl⟩
  · rcases List.mem_append.mp hmem with hmem | hmem
    · -- an earlier pass: the count of this one is not its own
      have hearlier := (h.took_over p hmem).lt_of_ne_asleep hne
      have hpi : p.1 ≠ s.client.i := fun he => by rw [he] at hearlier; omega
      rw [h.took_counted p hmem]
      rcases hcase with ⟨_, _, hc⟩ | ⟨_, _, hc⟩ <;> rw [hc]
      rw [List.mem_append, List.mem_singleton, or_iff_left hpi]
    · rw [List.mem_singleton.mp hmem]
      rcases hcase with ⟨hexp, _, hc⟩ | ⟨hexp, _, hc⟩ <;> rw [hc]
      · exact iff_of_true hexp (List.mem_append_right _ (List.mem_singleton_self _))
      · exact iff_of_false hexp fun hmem => lt_irrefl _ (hlt _ hmem)
  · rcases h.timely j hj with hr | ⟨rfl, _⟩
    · exact .inl (hkeep j hr)
    · exact .inl hread
  · rcases hov with hearlier | ⟨heq, _⟩
    · exact (h.sent p hmem (.inl hearlier)).imp_left (hkeep p.1)
    · exact .inl (heq ▸ hread)

/-- An echo that is in time for a pass finds that pass before its read or after it. -/
theorem fates_deliver (h : Fates s) (hI : Inv a s) {k : Nat}
    (hstep : step a s (.deliver k) = some s') : Fates s' := by
  obtain ⟨d, rest, hk, rfl⟩ := step_deliver hstep
  obtain ⟨_, _, t, hsent, _⟩ := hI.genuine d (.inr (.inl (mem_of_takeAt hk)))
  have hkeep : ∀ j, s.Pending j → (s.arrive d rest).Pending j := by
    rintro j ⟨hj, hb, hne, e, he, ho⟩
    exact ⟨hj, hb, hne, e, List.mem_append_left _ he, ho⟩
  have hnew : InTime s d.origin → s.HasRead d.origin ∨ (s.arrive d rest).Pending d.origin := by
    intro hin
    by_cases hov : s.Over d.origin
    · rcases h.sent _ hsent hov with hr | ⟨w, hw, hj, hle⟩
      · exact .inl hr
      · exact absurd (hin w hw hj) (Nat.not_lt.mpr hle)
    · right
      rcases hI.sends_before _ hsent with hlt | ⟨heq, hb⟩
      · exact absurd (.inl hlt) hov
      · exact ⟨heq, hb, fun hp => hov (.inr ⟨heq, hp⟩), d,
          List.mem_append_right _ (List.mem_singleton_self _), rfl⟩
  refine ⟨h.took_over, h.took_counted, fun j hj => ?_, h.sent, h.waiting⟩
  simp only [Sys.arrive] at hj
  split at hj
  · rename_i hin
    rcases List.mem_append.mp hj with hj | hj
    · exact (h.timely j hj).imp_right (hkeep j)
    · rw [List.mem_singleton.mp hj]
      exact hnew hin
  · exact (h.timely j hj).imp_right (hkeep j)

theorem fates_step (h : Fates s) (hI : Inv a s) {x : Act} (hstep : step a s x = some s') :
    Fates s' := by
  cases x with
  | send t => exact fates_send h hstep
  | sendFail t => exact fates_sendFail h hI hstep
  | wait => exact fates_wait h hstep
  | recv t => exact fates_recv h hI hstep
  | timeout => exact fates_timeout h hstep
  | wake => exact fates_wake h hI hstep
  | finish => exact fates_finish h hstep
  | tick d =>
    obtain rfl := Option.some.inj hstep
    exact h.frame rfl rfl rfl (Nat.le_add_right _ _)
  | deliver k => exact fates_deliver h hI hstep
  | serve k | loseRequest k | loseEcho k | dupRequest k | dupEcho k =>
    simp only [step, Option.map_eq_some_iff] at hstep
    obtain ⟨_, _, rfl⟩ := hstep
    exact h.frame rfl rfl rfl le_rfl

theorem fates_run (a : Args) {acts : List Act} (h : (system a).run (Sys.init a) acts = some s) :
    Fates s :=
  ((system a).run_inv (I := fun s => Inv a s ∧ Fates s)
    (fun _ _ _ hI hst => ⟨inv_step hI.1 hst, fates_step hI.2 hI.1 hst⟩)
    ⟨inv_init a, fates_init a⟩ h).2

/-! ## In step -/

/-- **The client is in step exactly when no pass with a timely echo reads another's.** -/
theorem inStep_iff (a : Args) (acts : List Act) (s : Sys)
    (h : (system a).run (Sys.init a) acts = some s) : InStep s ↔ NoStale s := by
  have hF := fates_run a h
  constructor
  · intro hin p hp hstale htimely
    exact hstale ((hF.took_counted p hp).mpr (hin p.1 htimely (hF.took_over p hp)))
  · intro hns j hj hov
    rcases hF.timely j hj with ⟨o, ho⟩ | ⟨heq, _, hne, _⟩
    · by_contra hnc
      exact hns (j, o) ho (fun he => hnc ((hF.took_counted (j, o) ho).mp he)) hj
    · -- a pending echo is that of a pass that is not over
      have hlt := hov.lt_of_ne_asleep hne
      rw [heq] at hlt
      exact absurd hlt (lt_irrefl _)

/-- Two probes of the smallest size. -/
def twoProbes : Args := { oneProbe with msgcount := 2 }

/-- The first echo comes while the client sleeps after its timeout; the second pass reads it, and
    its own echo comes two milliseconds after the send. -/
def lateRun : List Act :=
  [.send ⟨10, 0⟩, .wait, .tick 1000000, .timeout, .serve 0, .deliver 0, .wake,
    .send ⟨12, 0⟩, .wait, .recv ⟨12, 500⟩, .tick 2000, .serve 0, .deliver 0, .wake, .finish]

theorem inStep_iff_lateRun :
    ∃ s, (system twoProbes).run (Sys.init twoProbes) lateRun = some s ∧
      (InStep s ↔ NoStale s) := by
  obtain ⟨s, hs⟩ := Option.isSome_iff_exists.mp
    (by decide +kernel : ((system twoProbes).run (Sys.init twoProbes) lateRun).isSome = true)
  exact ⟨s, hs, inStep_iff twoProbes lateRun s hs⟩

/-- The run ends with the second echo in the queue, in time and not counted. -/
theorem lateRun_outOfStep :
    ((system twoProbes).run (Sys.init twoProbes) lateRun).map
      (fun s => (s.client.phase, s.hist.timely, s.hist.took, s.hist.counted)) =
        some (.done, [2], [(2, 1)], []) ∧
    ∃ s, (system twoProbes).run (Sys.init twoProbes) lateRun = some s ∧ ¬ InStep s := by
  refine ⟨by decide +kernel, ?_⟩
  have hout : ((system twoProbes).run (Sys.init twoProbes) lateRun).any
      (fun s => decide (¬ InStep s)) = true := by decide +kernel
  obtain ⟨s, hs, hout⟩ := (Option.any_eq_true _ _).mp hout
  exact ⟨s, hs, of_decide_eq_true hout⟩

end NetLab.Ping
