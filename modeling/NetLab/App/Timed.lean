/-
  `MyApp` in time (as7_que2.cc, lines 133-186 and 313-316).

  `main` gives the application a start and a stop time, and `ScheduleTx` asks for the next
  `SendPacket` a delay of `tNext` later. Here the simulator keeps to these times: it takes the
  events in the order of their times and, among those of one time, in the order they were
  scheduled in. The start and the stop are scheduled when the application is set up, before any
  `SendPacket`. Times are counted in the simulator's steps; how many steps a `tNext` has is a
  parameter. The stop is not before the start. A run may end anywhere, as with `Simulator::Stop`.

  * `sim_run`: what happens in time is a run of the untimed system.
  * `TimedInv`, `timedInv_step`: the `k`-th packet leaves at the start plus `k` times the delay.
  * `timed_paced`: every run; and each goes on to the stop, where the packets sent are those whose
    times are before it.
-/
import NetLab.Lib.Agenda
import NetLab.Lib.Simulation
import NetLab.App.Sending

namespace NetLab.App

open NetLab.Lib
open NetLab.Lib.Machine

/-! ## The simulator with its clock -/

/-- `SetStartTime`, `SetStopTime`, and the steps of a delay. -/
structure Plan where
  start : Nat
  stop : Nat
  steps : TxTime → Nat
  start_le_stop : start ≤ stop

structure Timed where
  sim : Simulation
  now : Nat
  /-- When the event of an id was scheduled. -/
  born : Nat → Nat
  /-- The calls on the socket with their times. -/
  log : List (Nat × SocketCall)

def Timed.init (app : MyApp) : Timed := ⟨.init app, 0, fun _ => 0, []⟩

/-- What the simulator has to do: start and stop, with the ids before all others, and the pending
    calls of `SendPacket`. -/
def Timed.agenda (T : Plan) (s : Timed) : List (Event Act) :=
  (if s.sim.phase = .installed then [⟨T.start, 0, .startApplication⟩] else []) ++
    (if s.sim.phase = .stopped then [] else [⟨T.stop, 1, .stopApplication⟩]) ++
    s.sim.simulator.pending.map fun p => ⟨s.born p.1 + T.steps p.2, p.1 + 2, .sendPacket p.1⟩

/-- An event at `time` has led to `sim`. -/
def Timed.after (s : Timed) (time : Nat) (sim : Simulation) : Timed where
  sim := sim
  now := time
  born id := if id < s.sim.simulator.nextId then s.born id else time
  log := s.log ++ (sim.calls.drop s.sim.calls.length).map (Prod.mk time)

def timedStep (T : Plan) (s : Timed) (a : Act) : Option Timed :=
  match first (s.agenda T) with
  | none => none
  | some e => if e.what = a then (step s.sim a).map (s.after e.time) else none

def timed (T : Plan) : Machine Timed Act := ⟨timedStep T⟩

/-- The times of the calls of `Send`. -/
def sendTimes (log : List (Nat × SocketCall)) : List Nat :=
  log.filterMap fun
    | (t, .send _) => some t
    | _ => none

theorem timedStep_eq_some {T : Plan} {s t : Timed} {a : Act} (h : timedStep T s a = some t) :
    ∃ e, first (s.agenda T) = some e ∧ e.what = a ∧ ∃ sim, step s.sim a = some sim ∧
      t = s.after e.time sim := by
  unfold timedStep at h
  split at h
  · cases h
  · rename_i e he
    obtain ⟨hwhat, hmap⟩ := Option.ite_none_right_eq_some.mp h
    obtain ⟨sim, hsim, rfl⟩ := Option.map_eq_some_iff.mp hmap
    exact ⟨e, he, hwhat, sim, hsim, rfl⟩

/-- Time leaves out runs, and adds none. -/
theorem sim_run {T : Plan} {s t : Timed} {as : List Act} (h : (timed T).run s as = some t) :
    system.run s.sim as = some t.sim := by
  refine run_view (f := Timed.sim) (fun s a t hstep => ?_) h
  obtain ⟨e, _, _, sim, hsim, rfl⟩ := timedStep_eq_some hstep
  exact hsim

/-! ## Times of calls -/

theorem sendTimes_append (log log' : List (Nat × SocketCall)) :
    sendTimes (log ++ log') = sendTimes log ++ sendTimes log' :=
  List.filterMap_append

/-- Calls of one event are at one time. -/
theorem sendTimes_map (time : Nat) (calls : List SocketCall) :
    sendTimes (calls.map (Prod.mk time)) = List.replicate (sends calls) time := by
  induction calls with
  | nil => rfl
  | cons c calls ih =>
    unfold sendTimes sends at ih ⊢
    cases c <;> simp [List.replicate_succ, ih]

/-! ## What a step does, besides what `Sending` says -/

/-- Calls are only added, `tNext` stays, and what is pending afterwards is new and waits for
    `tNext`. -/
structure Adds (s t : Simulation) (calls : List SocketCall) : Prop where
  calls : t.calls = s.calls ++ calls
  tNext : t.app.tNext = s.app.tNext
  nPackets : t.app.nPackets = s.app.nPackets
  fresh : ∀ p ∈ t.simulator.pending, p.2 = s.app.tNext ∧ s.simulator.nextId ≤ p.1

theorem adds_sendPacket {s : Simulation} (hrun : s.app.running = true)
    (hpend : s.simulator.pending = []) :
    Adds s s.sendPacket [.send s.app.packetSize] := by
  have hsent := sendPacket_spec hrun hpend
  by_cases hmore : s.app.packetsSent + 1 < s.app.nPackets
  · have heq : s.sendPacket.simulator = (s.simulator.schedule s.app.tNext).1 ∧
        s.sendPacket.app.tNext = s.app.tNext := by
      unfold Simulation.sendPacket
      simp only [Simulation.call, Simulation.scheduleTx, hmore, hrun, if_true]
      exact ⟨rfl, rfl⟩
    refine ⟨hsent.calls, heq.2, hsent.nPackets, fun p hp => ?_⟩
    rw [heq.1] at hp
    rcases List.mem_cons.mp hp with rfl | hp
    · exact ⟨rfl, le_refl _⟩
    · rw [hpend] at hp
      cases hp
  · have heq : s.sendPacket.app.tNext = s.app.tNext := by
      unfold Simulation.sendPacket
      simp only [Simulation.call, hmore, if_false]
      rfl
    refine ⟨hsent.calls, heq, hsent.nPackets, fun p hp => ?_⟩
    have hnil : ¬ s.sendPacket.simulator.pending ≠ [] := fun hne =>
      hmore (hsent.packetsSent ▸ hsent.pending_iff.mp hne)
    rw [not_not.mp hnil] at hp
    cases hp

/-- Every step but the stop sends one packet, and adds its calls. -/
theorem adds_step {s t : Simulation} (h : Inv s) {a : Act} (ha : a ≠ .stopApplication)
    (hstep : step s a = some t) : ∃ calls, Adds s t calls ∧ sends calls = 1 := by
  cases a with
  | stopApplication => exact absurd rfl ha
  | sendPacket id =>
    obtain ⟨fired, hfire, rfl⟩ := Option.map_eq_some_iff.mp hstep
    have hready := ready_fire h hfire
    have hadds := adds_sendPacket hready.running hready.pending
    obtain ⟨_, hcancel⟩ := Scheduler.fire_eq_some hfire
    refine ⟨_, ⟨hadds.calls, hadds.tNext, hadds.nPackets, fun p hp => ?_⟩, rfl⟩
    obtain ⟨htx, hid⟩ := hadds.fresh p hp
    have hnext : fired.1.nextId = s.simulator.nextId := by rw [hcancel]; rfl
    exact ⟨htx, hnext ▸ hid⟩
  | startApplication =>
    obtain ⟨hphase, ht⟩ := Option.ite_none_right_eq_some.mp hstep
    obtain rfl := Option.some.inj ht
    rw [startApplication_eq]
    have hpend : s.simulator.pending = [] := h.pending_eq_nil (by rw [hphase]; decide)
    have hadds := adds_sendPacket (s := { s with
      app := { s.app with running := true, packetsSent := 0 }
      calls := s.calls ++ [if s.app.peer.IsInetSocket then .bind else .bind6] ++
        [.connect s.app.peer]
      phase := .started }) rfl hpend
    refine ⟨[if s.app.peer.IsInetSocket then .bind else .bind6] ++ [.connect s.app.peer] ++
      [.send s.app.packetSize], ⟨?_, hadds.tNext, hadds.nPackets, hadds.fresh⟩, ?_⟩
    · rw [← List.append_assoc, ← List.append_assoc]
      exact hadds.calls
    · rw [sends_concat, sends_concat]
      split <;> rfl

/-- The stop cancels what is pending and closes the socket. -/
theorem adds_stop {s t : Simulation} (h : Inv s) (hstep : step s .stopApplication = some t) :
    Adds s t [.close] ∧ s.phase = .started ∧ t.phase = .stopped ∧ t.simulator.pending = [] := by
  rcases step_cases h hstep with ⟨hne, _⟩ | ⟨_, hphase, simulator, hpend, rfl⟩
  · exact absurd rfl hne
  · refine ⟨⟨rfl, rfl, rfl, fun p hp => ?_⟩, hphase, rfl, hpend⟩
    replace hp : p ∈ simulator.pending := hp
    rw [hpend] at hp
    cases hp

/-! ## The invariant -/

/-- What holds of the application `app` in time. The `k`-th packet leaves `k` delays after the
    start, and every one but the first before the stop. -/
structure TimedInv (T : Plan) (app : MyApp) (s : Timed) : Prop where
  inv : Inv s.sim
  nPackets : s.sim.app.nPackets = app.nPackets
  tNext : s.sim.app.tNext = app.tNext
  calls : s.log.map Prod.snd = s.sim.calls
  sendTimes : sendTimes s.log =
    (List.range (sends s.sim.calls)).map fun k => T.start + k * T.steps app.tNext
  /-- The last packet left just now. -/
  now : s.sim.phase = .started → s.now + T.steps app.tNext =
    T.start + sends s.sim.calls * T.steps app.tNext
  /-- What is pending is due one delay from now. -/
  due : ∀ p ∈ s.sim.simulator.pending, s.born p.1 + T.steps p.2 = s.now + T.steps app.tNext
  beforeStop : ∀ k < sends s.sim.calls, k = 0 ∨ T.start + k * T.steps app.tNext < T.stop
  /-- The stop came when all was sent, or before the next packet was due. -/
  stopped : s.sim.phase = .stopped → sends s.sim.calls = app.nPackets.toNat ∨
    T.stop ≤ T.start + sends s.sim.calls * T.steps app.tNext
  begun : s.sim.phase = .installed ∨ sends s.sim.calls ≠ 0

theorem timedInv_init (T : Plan) (peer : Address) (packetSize : UInt32) {nPackets : UInt32}
    (dataRate : UInt64) (hn : 0 < nPackets) :
    TimedInv T (.setup peer packetSize nPackets dataRate)
      (.init (.setup peer packetSize nPackets dataRate)) where
  inv := inv_init peer packetSize dataRate hn
  nPackets := rfl
  tNext := rfl
  calls := rfl
  sendTimes := rfl
  now h := by cases h
  due p hp := by cases hp
  beforeStop k hk := by cases hk
  stopped h := by cases h
  begun := .inl rfl

/-! ## The next event -/

section Next

variable {T : Plan} {app : MyApp} {s : Timed} {e : Event Act}

theorem mem_agenda : e ∈ s.agenda T ↔
    (s.sim.phase = .installed ∧ e = ⟨T.start, 0, .startApplication⟩) ∨
    (s.sim.phase ≠ .stopped ∧ e = ⟨T.stop, 1, .stopApplication⟩) ∨
    ∃ p ∈ s.sim.simulator.pending,
      e = ⟨s.born p.1 + T.steps p.2, p.1 + 2, .sendPacket p.1⟩ := by
  unfold Timed.agenda
  rw [List.mem_append, List.mem_append, List.mem_map, or_assoc]
  refine or_congr ?_ (or_congr ?_ (exists_congr fun p => and_congr_right fun _ => eq_comm))
  · split <;> simp_all
  · split <;> simp_all

/-- A packet that the simulator lets out is due, and the stop is not. -/
theorem next_send (h : TimedInv T app s) (hfirst : first (s.agenda T) = some e)
    (ha : e.what ≠ .stopApplication) :
    e.time = T.start + sends s.sim.calls * T.steps app.tNext ∧
      (sends s.sim.calls = 0 ∨ e.time < T.stop) := by
  rcases mem_agenda.mp (first_mem hfirst) with ⟨hphase, rfl⟩ | ⟨_, rfl⟩ | ⟨p, hp, rfl⟩
  · have hnone : sends s.sim.calls = 0 := by
      rw [h.inv.installed hphase]
      rfl
    rw [hnone, Nat.zero_mul]
    exact ⟨rfl, .inl rfl⟩
  · exact absurd rfl ha
  · have hrun := (h.inv.pending_iff.mp (List.ne_nil_of_mem hp)).1
    have hphase := h.inv.running_iff.mp hrun
    refine ⟨(h.due p hp).trans (h.now hphase), .inr ?_⟩
    have hstop := first_before hfirst (mem_agenda.mpr (.inr (.inl ⟨by rw [hphase]; decide, rfl⟩)))
    dsimp only at hstop ⊢
    omega

/-- When the stop comes, no packet is due before it. -/
theorem next_stop (h : TimedInv T app s) (hfirst : first (s.agenda T) = some e)
    (ha : e.what = .stopApplication) (hphase : s.sim.phase = .started) :
    sends s.sim.calls = app.nPackets.toNat ∨
      T.stop ≤ T.start + sends s.sim.calls * T.steps app.tNext := by
  have htime : e.time = T.stop := by
    rcases mem_agenda.mp (first_mem hfirst) with ⟨_, rfl⟩ | ⟨_, rfl⟩ | ⟨p, _, rfl⟩
    · cases ha
    · rfl
    · cases ha
  cases hpend : s.sim.simulator.pending with
  | nil =>
    left
    have hroom : ¬ s.sim.app.packetsSent < s.sim.app.nPackets := fun hlt =>
      h.inv.pending_iff.mpr ⟨h.inv.running_iff.mpr hphase, hlt⟩ hpend
    rw [← h.inv.counted, ← h.nPackets]
    exact Nat.le_antisymm (UInt32.le_iff_toNat_le.mp h.inv.bounded)
      (UInt32.le_iff_toNat_le.mp (UInt32.not_lt.mp hroom))
  | cons p rest =>
    right
    have hp : p ∈ s.sim.simulator.pending := hpend ▸ List.mem_cons_self
    have hbefore := first_before hfirst (mem_agenda.mpr (.inr (.inr ⟨p, hp, rfl⟩)))
    have hdue := (h.due p hp).trans (h.now hphase)
    dsimp only at hbefore
    omega

end Next

/-! ## Every step -/

section Step

variable {T : Plan} {app : MyApp} {s t : Timed}

theorem map_log_after (h : s.log.map Prod.snd = s.sim.calls) {sim : Simulation}
    {calls : List SocketCall} (hcalls : sim.calls = s.sim.calls ++ calls) (time : Nat) :
    (s.after time sim).log.map Prod.snd = sim.calls ∧
      sendTimes (s.after time sim).log =
        sendTimes s.log ++ List.replicate (sends calls) time := by
  have hdrop : sim.calls.drop s.sim.calls.length = calls := by rw [hcalls, List.drop_left]
  unfold Timed.after
  dsimp only
  rw [hdrop, List.map_append, h, List.map_map, sendTimes_append, sendTimes_map, hcalls]
  exact ⟨congrArg _ (List.map_id calls), rfl⟩

theorem timedInv_send (h : TimedInv T app s) {e : Event Act}
    (hfirst : first (s.agenda T) = some e) (ha : e.what ≠ .stopApplication) {sim : Simulation}
    (hsim : step s.sim e.what = some sim) : TimedInv T app (s.after e.time sim) := by
  obtain ⟨htime, hstop⟩ := next_send h hfirst ha
  obtain ⟨calls, hadds, hone⟩ := adds_step h.inv ha hsim
  obtain ⟨hsends, hphase⟩ := sends_step h.inv ha hsim
  obtain ⟨hlog, htimes⟩ := map_log_after h.calls hadds.calls e.time
  refine ⟨inv_step h.inv hsim, hadds.nPackets.trans h.nPackets, hadds.tNext.trans h.tNext, hlog,
    ?_, fun _ => ?_, fun p hp => ?_, fun k hk => ?_, fun he => ?_, .inr ?_⟩
  · show NetLab.App.sendTimes (s.after e.time sim).log =
      (List.range (sends sim.calls)).map fun k => T.start + k * T.steps app.tNext
    rw [htimes, h.sendTimes, hone, hsends, List.range_succ, List.map_append, htime]
    rfl
  · show e.time + _ = T.start + sends sim.calls * _
    rw [hsends, htime, Nat.succ_mul, Nat.add_assoc]
  · obtain ⟨htx, hid⟩ := hadds.fresh p hp
    show (if p.1 < s.sim.simulator.nextId then s.born p.1 else e.time) + _ = e.time + _
    rw [if_neg (by omega), htx, h.tNext]
  · replace hk : k < sends sim.calls := hk
    rw [hsends] at hk
    rcases Nat.lt_succ_iff_lt_or_eq.mp hk with hk | rfl
    · exact h.beforeStop k hk
    · exact hstop.imp_right fun hlt => htime ▸ hlt
  · cases hphase.symm.trans he
  · show sends sim.calls ≠ 0
    omega

theorem timedInv_stop (h : TimedInv T app s) {e : Event Act}
    (hfirst : first (s.agenda T) = some e) (ha : e.what = .stopApplication) {sim : Simulation}
    (hsim : step s.sim .stopApplication = some sim) : TimedInv T app (s.after e.time sim) := by
  obtain ⟨hadds, hphase, hstopped, hpend⟩ := adds_stop h.inv hsim
  obtain ⟨hlog, htimes⟩ := map_log_after h.calls hadds.calls e.time
  have hsends : sends sim.calls = sends s.sim.calls := by
    rw [hadds.calls, sends_concat]
    rfl
  refine ⟨inv_step h.inv hsim, hadds.nPackets.trans h.nPackets, hadds.tNext.trans h.tNext, hlog,
    ?_, fun he => ?_, fun p hp => ?_, fun k hk => ?_, fun _ => ?_, .inr ?_⟩
  · show NetLab.App.sendTimes (s.after e.time sim).log =
      (List.range (sends sim.calls)).map fun k => T.start + k * T.steps app.tNext
    rw [htimes, h.sendTimes, hsends]
    exact List.append_nil _
  · cases hstopped.symm.trans he
  · replace hp : p ∈ sim.simulator.pending := hp
    rw [hpend] at hp
    cases hp
  · exact h.beforeStop k (hsends ▸ hk)
  · show sends sim.calls = _ ∨ T.stop ≤ T.start + sends sim.calls * _
    rw [hsends]
    exact next_stop h hfirst ha hphase
  · show sends sim.calls ≠ 0
    rw [hsends]
    exact h.begun.resolve_left fun hinst => by cases hphase.symm.trans hinst

theorem timedInv_step (h : TimedInv T app s) {a : Act} (hstep : timedStep T s a = some t) :
    TimedInv T app t := by
  obtain ⟨e, hfirst, rfl, sim, hsim, rfl⟩ := timedStep_eq_some hstep
  by_cases ha : e.what = .stopApplication
  · exact timedInv_stop h hfirst ha (ha ▸ hsim)
  · exact timedInv_send h hfirst ha hsim

/-- The simulator goes on until the stop. -/
theorem exists_timedStep (T : Plan) (hphase : s.sim.phase ≠ .stopped) :
    ∃ a t, timedStep T s a = some t := by
  have hmem : (⟨T.stop, 1, .stopApplication⟩ : Event Act) ∈ s.agenda T :=
    mem_agenda.mpr (.inr (.inl ⟨hphase, rfl⟩))
  obtain ⟨e, hfirst⟩ := exists_first (List.ne_nil_of_mem hmem)
  have henabled : ∃ sim, step s.sim e.what = some sim := by
    rcases mem_agenda.mp (first_mem hfirst) with ⟨hinst, rfl⟩ | ⟨_, rfl⟩ | ⟨p, hp, rfl⟩
    · exact ⟨_, if_pos hinst⟩
    · cases hp : s.sim.phase with
      | started => exact ⟨_, if_pos hp⟩
      | stopped => exact absurd hp hphase
      | installed =>
        -- the start is on the agenda, and goes before the stop
        have hstart := first_before hfirst (mem_agenda.mpr (.inl ⟨hp, rfl⟩))
        have hle := T.start_le_stop
        dsimp only at hstart
        omega
    · have hfire := Scheduler.fire_isSome_iff.mpr (Scheduler.isPending_of_mem hp)
      obtain ⟨fired, hfired⟩ := Option.isSome_iff_exists.mp hfire
      exact ⟨_, congrArg (Option.map _) hfired⟩
  obtain ⟨sim, hsim⟩ := henabled
  refine ⟨e.what, s.after e.time sim, ?_⟩
  unfold timedStep
  rw [hfirst]
  exact (if_pos rfl).trans (congrArg (Option.map _) hsim)

/-- Packets that are not sent yet, and the stop. -/
def Timed.left (s : Timed) : Nat :=
  (s.sim.app.nPackets.toNat - sends s.sim.calls) + if s.sim.phase = .stopped then 0 else 1

theorem left_step (h : TimedInv T app s) {a : Act} (hstep : timedStep T s a = some t) :
    t.left < s.left := by
  obtain ⟨e, _, rfl, sim, hsim, rfl⟩ := timedStep_eq_some hstep
  show (sim.app.nPackets.toNat - sends sim.calls) + (if sim.phase = .stopped then 0 else 1) < _
  unfold Timed.left
  rw [nPackets_step h.inv hsim]
  by_cases ha : e.what = .stopApplication
  · rw [ha] at hsim
    obtain ⟨hadds, hphase, hstopped, _⟩ := adds_stop h.inv hsim
    have hsends : sends sim.calls = sends s.sim.calls := by
      rw [hadds.calls, sends_concat]
      rfl
    rw [hsends, if_pos hstopped, if_neg (by rw [hphase]; decide)]
    omega
  · obtain ⟨hsends, hphase⟩ := sends_step h.inv ha hsim
    have hle := (inv_step h.inv hsim).sends_le
    have hkeep : s.sim.phase ≠ .stopped := by
      intro hstopped
      cases hsim.symm.trans (step_of_stopped h.inv hstopped _)
    rw [nPackets_step h.inv hsim] at hle
    rw [if_neg hkeep, if_neg (by rw [hphase]; decide)]
    omega

end Step

/-! ## Runs -/

/-- The times at which a packet can leave: the start, and every delay after it up to the stop. -/
def slots (T : Plan) (app : MyApp) : List Nat :=
  ((List.range app.nPackets.toNat).filter fun k =>
    k = 0 ∨ T.start + k * T.steps app.tNext < T.stop).map fun k => T.start + k * T.steps app.tNext

/-- Where a condition holds of the numbers up to `n` and of no more. -/
theorem filter_range {p : Nat → Bool} {n m : Nat} (hle : n ≤ m) (htrue : ∀ k < n, p k = true)
    (hfalse : ∀ k, n ≤ k → k < m → p k = false) : (List.range m).filter p = List.range n := by
  obtain ⟨d, rfl⟩ := Nat.exists_eq_add_of_le hle
  have hfirst : (List.range n).filter p = List.range n :=
    List.filter_eq_self.mpr fun k hk => htrue k (List.mem_range.mp hk)
  have hrest : ((List.range d).map (n + ·)).filter p = [] := by
    refine List.filter_eq_nil_iff.mpr fun k hk => ?_
    obtain ⟨j, hj, rfl⟩ := List.mem_map.mp hk
    have hlt := List.mem_range.mp hj
    rw [hfalse (n + j) (by omega) (by omega)]
    exact Bool.false_ne_true
  rw [List.range_add, List.filter_append, hfirst, hrest, List.append_nil]

/-- One packet for every full delay between start and stop, and one for a rest. -/
theorem length_slots (T : Plan) {app : MyApp} (hn : 0 < app.nPackets)
    (hd : 0 < T.steps app.tNext) :
    (slots T app).length = min app.nPackets.toNat
      (max 1 ((T.stop - T.start + T.steps app.tNext - 1) / T.steps app.tNext)) := by
  have hle := T.start_le_stop
  have hpos : 0 < app.nPackets.toNat := UInt32.lt_iff_toNat_lt.mp hn
  generalize hdelay : T.steps app.tNext = d at hd
  -- delay `k` ends before the stop exactly if `k` is below the quotient
  have hslot : ∀ k, T.start + k * d < T.stop ↔ k < (T.stop - T.start + d - 1) / d := by
    intro k
    refine Iff.trans ?_ (Nat.lt_iff_add_one_le.trans (Nat.le_div_iff_mul_le hd)).symm
    rw [Nat.succ_mul]
    omega
  unfold slots
  rw [List.length_map, hdelay, filter_range (n := min app.nPackets.toNat
    (max 1 ((T.stop - T.start + d - 1) / d))) (Nat.min_le_left _ _), List.length_range]
  · intro k hk
    rw [decide_eq_true_eq, hslot]
    omega
  · intro k hk hlt
    rw [decide_eq_false_iff_not, hslot]
    omega

section Runs

variable {T : Plan} {app : MyApp} {s : Timed}

/-- The packets sent used the first slots. -/
theorem sendTimes_prefix (h : TimedInv T app s) : sendTimes s.log <+: slots T app := by
  rw [h.sendTimes]
  refine List.IsPrefix.map _ ?_
  have hle : sends s.sim.calls ≤ app.nPackets.toNat := h.nPackets ▸ h.inv.sends_le
  obtain ⟨d, hd⟩ := Nat.exists_eq_add_of_le hle
  rw [hd, List.range_add, List.filter_append, List.filter_eq_self.mpr fun k hk =>
    decide_eq_true (h.beforeStop k (List.mem_range.mp hk))]
  exact List.prefix_append _ _

/-- At the stop every slot has been used. -/
theorem sendTimes_of_stopped (h : TimedInv T app s) (hphase : s.sim.phase = .stopped) :
    sendTimes s.log = slots T app := by
  have hle : sends s.sim.calls ≤ app.nPackets.toNat := h.nPackets ▸ h.inv.sends_le
  have hbegun : sends s.sim.calls ≠ 0 :=
    h.begun.resolve_left fun hinst => by cases hphase.symm.trans hinst
  unfold slots
  rw [h.sendTimes, filter_range hle fun k hk => decide_eq_true (h.beforeStop k hk)]
  intro k hk hlt
  have hmul := Nat.mul_le_mul_right (T.steps app.tNext) hk
  have hstop := h.stopped hphase
  rw [decide_eq_false_iff_not]
  omega

/-- What holds in the state `s` after the run `as` in time. -/
structure PacedInTime (T : Plan) (app : MyApp) (as : List Act) (s : Timed) : Prop where
  untimed : system.run (.init app) as = some s.sim
  calls : s.log.map Prod.snd = s.sim.calls
  /-- The packets left at the first slots, in order. -/
  onTime : sendTimes s.log <+: slots T app
  /-- The stop comes in every run that goes on, and then every slot has been used. -/
  stops : ∃ bs t, (timed T).run s bs = some t ∧ t.sim.phase = .stopped
  stopped : s.sim.phase = .stopped → sendTimes s.log = slots T app

/-- **Packets leave on time.** In every run under the simulator's clock of an application with at
    least one packet to send, the packets leave at the start and at every delay `tNext` after it,
    until all are sent or the stop has come; and the stop does come. -/
theorem timed_paced (T : Plan) (peer : Address) (packetSize nPackets : UInt32) (dataRate : UInt64)
    (hn : 1 ≤ nPackets) (as : List Act)
    (hrun : (timed T).run (.init (.setup peer packetSize nPackets dataRate)) as = some s) :
    PacedInTime T (.setup peer packetSize nPackets dataRate) as s := by
  have hstep : ∀ (u : Timed) (a : Act) (v : Timed),
      TimedInv T (.setup peer packetSize nPackets dataRate) u → (timed T).step u a = some v →
      TimedInv T (.setup peer packetSize nPackets dataRate) v :=
    fun _ _ _ hI hst => timedInv_step hI hst
  have h := (timed T).run_inv hstep (timedInv_init T peer packetSize dataRate hn) hrun
  refine ⟨sim_run hrun, h.calls, sendTimes_prefix h, ?_, sendTimes_of_stopped h⟩
  obtain ⟨bs, t, _, hbs, hend⟩ := (timed T).exists_run_of_measure (A := fun _ => True) Timed.left
    (fun u a v hI _ hst => ⟨hstep u a v hI hst, left_step hI hst⟩) h
  refine ⟨bs, t, hbs, by_contra fun hphase => ?_⟩
  obtain ⟨a, u, hu⟩ := exists_timedStep T hphase
  cases (hend a trivial).symm.trans hu

/-- The plan of `main` in nanoseconds: start at 1 s, stop at 20 s. -/
def mainPlan : Plan where
  start := 1000000000
  stop := 20000000000
  steps tx := tx.bits.toNat * 1000000000 / tx.bitRate.toNat
  start_le_stop := by decide

theorem timed_paced_main :
    ∃ s, (timed mainPlan).run (.init (.setup (.inetSocket 0x0a010102 8080) 1040 1000000 100000000))
        [.startApplication, .sendPacket 0] = some s ∧
      PacedInTime mainPlan (.setup (.inetSocket 0x0a010102 8080) 1040 1000000 100000000)
        [.startApplication, .sendPacket 0] s := by
  obtain ⟨s, hs⟩ := Option.isSome_iff_exists.mp (by decide +kernel : ((timed mainPlan).run
    (.init (.setup (.inetSocket 0x0a010102 8080) 1040 1000000 100000000))
    [.startApplication, .sendPacket 0]).isSome = true)
  exact ⟨s, hs, timed_paced mainPlan (.inetSocket 0x0a010102 8080) 1040 1000000 100000000
    (by decide) _ hs⟩

/-- `main` stops its application long before the million packets are sent. -/
example : (slots mainPlan (.setup (.inetSocket 0x0a010102 8080) 1040 1000000 100000000)).length =
    228366 := by
  rw [length_slots _ (by decide) (by decide)]
  decide

end Runs

end NetLab.App
