/-
  Runs of `MyApp`.

  `SendPacket` does not look at `m_running`. What keeps a stopped application silent is that the
  only pending event is the one in `m_sendEvent`, which `StopApplication` cancels; and what makes it
  the only one is that `SendPacket` runs with nothing pending, when its own event has fired.

  * `Ready`: the states in which `SendPacket` is called. It leads back to the invariant
    (`inv_sendPacket`).
  * `inv_step`, `inv_run`: the invariant. `sends_run`: every action but the stop sends one packet.
  * `exists_finished`, `sends_of_finished`: a run that is not stopped comes to an end, where every
    packet has been sent.
  * `step_of_stopped`: nothing is enabled once the application is stopped.
  * `paced`: every run, from `Setup` on.
-/
import NetLab.App.MyApp

namespace NetLab.App

open NetLab.Lib

variable {s t : Simulation}

/-! ## The calls -/

theorem sends_concat (calls : List SocketCall) (c : SocketCall) :
    sends (calls ++ [c]) = sends calls + sends [c] := List.countP_append

/-! ## The methods -/

/-- `SendPacket` of a running application, called with nothing pending. -/
structure Sent (s t : Simulation) : Prop where
  nPackets : t.app.nPackets = s.app.nPackets
  running : t.app.running = true
  packetsSent : t.app.packetsSent = s.app.packetsSent + 1
  calls : t.calls = s.calls ++ [.send s.app.packetSize]
  phase : t.phase = s.phase
  onlyPending : t.simulator.OnlyPending t.app.sendEvent
  pending_iff : t.simulator.pending ≠ [] ↔ t.app.packetsSent < s.app.nPackets

theorem sendPacket_spec (hrun : s.app.running = true) (hpend : s.simulator.pending = []) :
    Sent s s.sendPacket := by
  unfold Simulation.sendPacket
  by_cases hmore : s.app.packetsSent + 1 < s.app.nPackets
  · simp only [Simulation.call, Simulation.scheduleTx, hmore, hrun, if_true]
    exact ⟨rfl, rfl, rfl, rfl, rfl, Scheduler.onlyPending_schedule hpend _,
      iff_of_true (List.cons_ne_nil _ _) hmore⟩
  · simp only [Simulation.call, hmore, if_false]
    exact ⟨rfl, hrun, rfl, rfl, rfl, Scheduler.onlyPending_of_nil hpend _,
      iff_of_false (not_not_intro hpend) hmore⟩

/-- `StartApplication` calls `SendPacket` after it has connected the socket. -/
theorem startApplication_eq (s : Simulation) :
    s.startApplication = Simulation.sendPacket
      { s with
        app := { s.app with running := true, packetsSent := 0 }
        calls := s.calls ++ [if s.app.peer.IsInetSocket then .bind else .bind6] ++
          [.connect s.app.peer] } := by
  unfold Simulation.startApplication
  by_cases hpeer : s.app.peer.IsInetSocket
  · simp only [hpeer, if_true, Simulation.call]
  · simp only [hpeer, if_false, Simulation.call]

/-- Where only `m_sendEvent` can be pending, the test and the cancel leave nothing pending. -/
theorem cancel_sendEvent (h : s.simulator.OnlyPending s.app.sendEvent) :
    ∃ simulator, simulator.pending = [] ∧
      (if s.SendEventPending then s.cancelSendEvent else s) =
        { s with simulator := simulator } := by
  by_cases hp : s.SendEventPending
  · obtain ⟨id, hid, _⟩ := id hp
    rw [Option.mem_def] at hid
    refine ⟨s.simulator.cancel id, Scheduler.OnlyPending.cancel (hid ▸ h), ?_⟩
    rw [if_pos hp]
    simp only [Simulation.cancelSendEvent, hid]
  · refine ⟨s.simulator, Scheduler.pending_eq_nil fun id hid => hp ⟨id, h id hid, hid⟩, ?_⟩
    rw [if_neg hp]

theorem stopApplication_spec (h : s.simulator.OnlyPending s.app.sendEvent) :
    ∃ simulator, simulator.pending = [] ∧
      s.stopApplication =
        { s with
          app := { s.app with running := false }
          simulator := simulator
          calls := s.calls ++ [.close] } := by
  obtain ⟨simulator, hpend, heq⟩ :=
    cancel_sendEvent (s := { s with app := { s.app with running := false } }) h
  exact ⟨simulator, hpend, congrArg (fun u : Simulation => u.call .close) heq⟩

/-! ## The invariant -/

structure Inv (s : Simulation) : Prop where
  nonempty : 0 < s.app.nPackets
  counted : s.app.packetsSent.toNat = sends s.calls
  bounded : s.app.packetsSent ≤ s.app.nPackets
  running_iff : s.app.running = true ↔ s.phase = .started
  onlyPending : s.simulator.OnlyPending s.app.sendEvent
  pending_iff : s.simulator.pending ≠ [] ↔
    s.app.running = true ∧ s.app.packetsSent < s.app.nPackets
  /-- The socket is not used before the start. -/
  installed : s.phase = .installed → s.calls = []

/-- `SendPacket` is called in such a state. -/
structure Ready (s : Simulation) : Prop where
  counted : s.app.packetsSent.toNat = sends s.calls
  room : s.app.packetsSent < s.app.nPackets
  running : s.app.running = true
  started : s.phase = .started
  pending : s.simulator.pending = []

theorem inv_init (peer : Address) (packetSize : UInt32) {nPackets : UInt32} (dataRate : UInt64)
    (hn : 0 < nPackets) : Inv (.init (.setup peer packetSize nPackets dataRate)) where
  nonempty := hn
  counted := rfl
  bounded := UInt32.zero_le
  running_iff := iff_of_false Bool.false_ne_true fun h => by cases h
  onlyPending := Scheduler.onlyPending_of_nil rfl none
  pending_iff := iff_of_false (not_not_intro rfl) fun h => Bool.false_ne_true h.1
  installed _ := rfl

/-- Nothing is pending before the start and after the stop. -/
theorem Inv.pending_eq_nil (h : Inv s) (hphase : s.phase ≠ .started) :
    s.simulator.pending = [] := by
  by_contra hne
  exact hphase (h.running_iff.mp (h.pending_iff.mp hne).1)

/-- `SendPacket` leads from a ready state back to the invariant. -/
theorem inv_sendPacket (h : Ready s) : Inv s.sendPacket := by
  have hsent := sendPacket_spec h.running h.pending
  have hroom := UInt32.lt_iff_toNat_lt.mp h.room
  have hnext : s.sendPacket.app.packetsSent.toNat = s.app.packetsSent.toNat + 1 := by
    have hlt := s.app.nPackets.toNat_lt
    rw [hsent.packetsSent, UInt32.toNat_add, show (1 : UInt32).toNat = 1 from rfl]
    omega
  constructor
  · rw [hsent.nPackets, UInt32.lt_iff_toNat_lt]
    exact (Nat.zero_le _).trans_lt hroom
  · rw [hnext, hsent.calls, sends_concat, h.counted]
    rfl
  · rw [UInt32.le_iff_toNat_le, hnext, hsent.nPackets]
    exact hroom
  · exact iff_of_true hsent.running (hsent.phase.trans h.started)
  · exact hsent.onlyPending
  · rw [hsent.pending_iff, hsent.nPackets, hsent.running]
    exact (and_iff_right rfl).symm
  · intro hphase
    cases (hsent.phase.trans h.started).symm.trans hphase

/-- A pending event fires in a ready state. -/
theorem ready_fire (h : Inv s) {id : Nat} {fired : Scheduler TxTime × TxTime}
    (hfire : s.simulator.fire id = some fired) : Ready { s with simulator := fired.1 } := by
  obtain ⟨e, he⟩ := (Scheduler.fire_eq_some hfire).1
  obtain ⟨hrun, hroom⟩ := h.pending_iff.mp (List.ne_nil_of_mem he)
  exact ⟨h.counted, hroom, hrun, h.running_iff.mp hrun, h.onlyPending.fire hfire⟩

/-- `StartApplication` reaches `SendPacket` in a ready state. -/
theorem ready_start (h : Inv s) (hphase : s.phase = .installed) :
    ∃ u, Ready u ∧ { s with phase := .started }.startApplication = u.sendPacket ∧
      u.app.nPackets = s.app.nPackets ∧ sends u.calls = sends s.calls := by
  have hsends : sends (s.calls ++ [if s.app.peer.IsInetSocket then .bind else .bind6] ++
      [.connect s.app.peer]) = sends s.calls := by
    rw [sends_concat, sends_concat]
    split <;> rfl
  refine ⟨_, ?_, startApplication_eq { s with phase := .started }, rfl, hsends⟩
  refine ⟨?_, h.nonempty, rfl, rfl, ?_⟩
  · show 0 = _
    rw [hsends, h.installed hphase]
    rfl
  · exact h.pending_eq_nil (by rw [hphase]; decide)

/-- What a step does: it sends a packet in a ready state, or stops. -/
theorem step_cases (h : Inv s) {a : Act} (hstep : step s a = some t) :
    (a ≠ .stopApplication ∧ ∃ u, Ready u ∧ t = u.sendPacket ∧
      u.app.nPackets = s.app.nPackets ∧ sends u.calls = sends s.calls) ∨
    (a = .stopApplication ∧ s.phase = .started ∧ ∃ simulator, simulator.pending = [] ∧
      t = { s with
        app := { s.app with running := false }
        simulator := simulator
        calls := s.calls ++ [.close]
        phase := .stopped }) := by
  cases a with
  | startApplication =>
    obtain ⟨hphase, ht⟩ := Option.ite_none_right_eq_some.mp hstep
    obtain ⟨u, hu, heq, hkeep⟩ := ready_start h hphase
    exact .inl ⟨fun he => (by cases he), u, hu, (Option.some.inj ht).symm.trans heq, hkeep⟩
  | sendPacket id =>
    obtain ⟨fired, hfire, ht⟩ := Option.map_eq_some_iff.mp hstep
    exact .inl ⟨fun he => (by cases he), _, ready_fire h hfire, ht.symm, rfl, rfl⟩
  | stopApplication =>
    obtain ⟨hphase, ht⟩ := Option.ite_none_right_eq_some.mp hstep
    obtain ⟨simulator, hpend, heq⟩ :=
      stopApplication_spec (s := { s with phase := .stopped }) h.onlyPending
    exact .inr ⟨rfl, hphase, simulator, hpend, (Option.some.inj ht).symm.trans heq⟩

theorem inv_step (h : Inv s) {a : Act} (hstep : step s a = some t) : Inv t := by
  rcases step_cases h hstep with ⟨_, u, hu, rfl, _⟩ | ⟨_, _, simulator, hpend, rfl⟩
  · exact inv_sendPacket hu
  · refine ⟨h.nonempty, ?_, h.bounded, ?_, Scheduler.onlyPending_of_nil hpend _, ?_, ?_⟩
    · rw [h.counted, sends_concat]
      rfl
    · exact iff_of_false Bool.false_ne_true fun he => by cases he
    · exact iff_of_false (not_not_intro hpend) fun hr => Bool.false_ne_true hr.1
    · intro he
      cases he

/-- No step changes the number of packets to send. -/
theorem nPackets_step (h : Inv s) {a : Act} (hstep : step s a = some t) :
    t.app.nPackets = s.app.nPackets := by
  rcases step_cases h hstep with ⟨_, u, hu, rfl, hkeep, _⟩ | ⟨_, _, simulator, _, rfl⟩
  · exact (sendPacket_spec hu.running hu.pending).nPackets.trans hkeep
  · rfl

/-- Any step but the stop sends one packet, and leaves the application started. -/
theorem sends_step (h : Inv s) {a : Act} (ha : a ≠ .stopApplication)
    (hstep : step s a = some t) : sends t.calls = sends s.calls + 1 ∧ t.phase = .started := by
  rcases step_cases h hstep with ⟨_, u, hu, rfl, _, hsends⟩ | ⟨he, _⟩
  · have hsent := sendPacket_spec hu.running hu.pending
    rw [hsent.calls, sends_concat, hsends]
    exact ⟨rfl, hsent.phase.trans hu.started⟩
  · exact absurd he ha

theorem Inv.sends_le (h : Inv s) : sends s.calls ≤ s.app.nPackets.toNat := by
  rw [← h.counted]
  exact UInt32.le_iff_toNat_le.mp h.bounded

/-- Nothing is enabled once the application is stopped. -/
theorem step_of_stopped (h : Inv s) (hphase : s.phase = .stopped) (a : Act) : step s a = none := by
  have hpend : s.simulator.pending = [] := h.pending_eq_nil (by rw [hphase]; decide)
  cases a with
  | startApplication => exact if_neg (by rw [hphase]; decide)
  | sendPacket id => exact Option.map_eq_none_iff.mpr (Scheduler.fire_of_nil hpend id)
  | stopApplication => exact if_neg (by rw [hphase]; decide)

/-! ## Runs -/

/-- Nothing is left to fire but a stop. -/
def Simulation.Finished (s : Simulation) : Prop :=
  ∀ a, a ≠ .stopApplication → system.step s a = none

theorem inv_run (hs : Inv s) {as : List Act} (h : system.run s as = some t) : Inv t :=
  system.run_inv (fun _ _ _ hI hst => inv_step hI hst) hs h

theorem nPackets_run (hs : Inv s) {as : List Act} (h : system.run s as = some t) :
    t.app.nPackets = s.app.nPackets := by
  have hinv := system.run_inv (I := fun u => Inv u ∧ u.app.nPackets = s.app.nPackets) ?_
    ⟨hs, rfl⟩ h
  · exact hinv.2
  intro u a v ⟨hu, hkeep⟩ hstep
  exact ⟨inv_step hu hstep, (nPackets_step hu hstep).trans hkeep⟩

/-- An unstopped run sends one packet with every action. -/
theorem sends_run (hs : Inv s) {as : List Act} (has : ∀ a ∈ as, a ≠ .stopApplication)
    (h : system.run s as = some t) : sends t.calls = sends s.calls + as.length := by
  induction as generalizing s with
  | nil =>
    obtain rfl : s = t := Option.some.inj h
    rfl
  | cons a as ih =>
    rw [Machine.run_cons] at h
    obtain ⟨u, hstep, hrun⟩ := Option.bind_eq_some_iff.mp h
    obtain ⟨ha, hrest⟩ := List.forall_mem_cons.mp has
    rw [ih (inv_step hs hstep) hrest hrun, (sends_step hs ha hstep).1, List.length_cons]
    omega

/-- A run is not stopped before its stop. -/
theorem phase_run (hs : Inv s) (hphase : s.phase ≠ .stopped) {as : List Act}
    (has : ∀ a ∈ as, a ≠ .stopApplication) (h : system.run s as = some t) :
    t.phase ≠ .stopped := by
  have hinv := system.run_inv_of (A := fun a => a ≠ .stopApplication)
    (I := fun u => Inv u ∧ u.phase ≠ .stopped) ?_ ⟨hs, hphase⟩ has h
  · exact hinv.2
  intro u a v ⟨hu, _⟩ ha hstep
  refine ⟨inv_step hu hstep, fun he => ?_⟩
  cases he.symm.trans (sends_step hu ha hstep).2

/-- What is finished and not stopped has sent every packet. -/
theorem sends_of_finished (h : Inv s) (hphase : s.phase ≠ .stopped) (hfin : s.Finished) :
    sends s.calls = s.app.nPackets.toNat := by
  have hstarted : s.phase = .started := by
    cases hp : s.phase with
    | installed =>
      have hstart := hfin .startApplication fun he => by cases he
      cases (if_pos hp).symm.trans hstart
    | started => rfl
    | stopped => exact absurd hp hphase
  have hpend : s.simulator.pending = [] := by
    refine Scheduler.pending_eq_nil fun id hid => ?_
    have hfire := Option.map_eq_none_iff.mp (hfin (.sendPacket id) fun he => by cases he)
    rw [← Scheduler.fire_isSome_iff, hfire] at hid
    cases hid
  have hroom : ¬ s.app.packetsSent < s.app.nPackets := fun hlt =>
    h.pending_iff.mpr ⟨h.running_iff.mpr hstarted, hlt⟩ hpend
  rw [← h.counted]
  exact Nat.le_antisymm (UInt32.le_iff_toNat_le.mp h.bounded)
    (UInt32.le_iff_toNat_le.mp (UInt32.not_lt.mp hroom))

/-- Any state goes on to a finished one without a stop. -/
theorem exists_finished (h : Inv s) :
    ∃ bs t, (∀ b ∈ bs, b ≠ Act.stopApplication) ∧ system.run s bs = some t ∧ t.Finished := by
  refine system.exists_run_of_measure (I := Inv) (A := fun a => a ≠ .stopApplication)
    (fun t => t.app.nPackets.toNat - sends t.calls) ?_ h
  intro u a v hu ha hstep
  have hv := inv_step hu hstep
  refine ⟨hv, ?_⟩
  have hle := hv.sends_le
  have hsends := (sends_step hu ha hstep).1
  rw [nPackets_step hu hstep] at hle ⊢
  omega

/-- A stop closes the socket, and nothing comes after it. -/
theorem stop_last (hs : Inv s) {pre post : List Act}
    (h : system.run s (pre ++ .stopApplication :: post) = some t) :
    ∃ u, system.run s pre = some u ∧ t.calls = u.calls ++ [.close] := by
  rw [Machine.run_append] at h
  obtain ⟨u, hpre, hpost⟩ := Option.bind_eq_some_iff.mp h
  rw [Machine.run_cons] at hpost
  obtain ⟨v, hstop, hrest⟩ := Option.bind_eq_some_iff.mp hpost
  have hu := inv_run hs hpre
  replace hstop : step u .stopApplication = some v := hstop
  have hv := inv_step hu hstop
  refine ⟨u, hpre, ?_⟩
  rcases step_cases hu hstop with ⟨he, _⟩ | ⟨_, _, simulator, _, rfl⟩
  · exact absurd rfl he
  · cases post with
    | nil =>
      obtain rfl := Option.some.inj hrest
      rfl
    | cons a post =>
      rw [Machine.run_cons, show system.step _ a = none from step_of_stopped hv rfl a] at hrest
      cases hrest

/-! ## The state at the end of a run -/

/-- What holds in the state `s` after the run `as` from `init`. -/
structure Paced (init : Simulation) (as : List Act) (s : Simulation) : Prop where
  onePending : s.simulator.pending.length ≤ 1
  counted : s.app.packetsSent.toNat = sends s.calls
  bounded : s.app.packetsSent ≤ init.app.nPackets
  running_iff : s.app.running = true ↔ s.phase = .started
  pending_iff : s.simulator.pending ≠ [] ↔
    s.app.running = true ∧ s.app.packetsSent < init.app.nPackets
  /-- After a stop the socket is closed, and not used any more. -/
  silent : ∀ pre post, as = pre ++ .stopApplication :: post →
    ∃ u, system.run init pre = some u ∧ s.calls = u.calls ++ [.close]
  /-- An unstopped run comes to an end, and has sent every packet there. -/
  complete : .stopApplication ∉ as →
    as.length ≤ init.app.nPackets.toNat ∧
    (s.Finished → sends s.calls = init.app.nPackets.toNat) ∧
    ∃ bs t, .stopApplication ∉ bs ∧ system.run s bs = some t ∧ t.Finished

/-- **Every run of an application with at least one packet to send.** -/
theorem paced (peer : Address) (packetSize nPackets : UInt32) (dataRate : UInt64)
    (hn : 1 ≤ nPackets) (as : List Act)
    (h : system.run (.init (.setup peer packetSize nPackets dataRate)) as = some s) :
    Paced (.init (.setup peer packetSize nPackets dataRate)) as s := by
  have hinit := inv_init peer packetSize dataRate hn
  have hs := inv_run hinit h
  have hkeep : s.app.nPackets = nPackets := nPackets_run hinit h
  refine ⟨hs.onlyPending.length_le_one, hs.counted, hkeep ▸ hs.bounded, hs.running_iff,
    hkeep ▸ hs.pending_iff, ?_, ?_⟩
  · rintro pre post rfl
    exact stop_last hinit h
  · intro hnot
    have has : ∀ a ∈ as, a ≠ .stopApplication := fun a ha he => hnot (he ▸ ha)
    have hphase := phase_run hinit (fun he => by cases he) has h
    have hsends := sends_run hinit has h
    refine ⟨?_, fun hfin => ?_, ?_⟩
    · have hle := hs.sends_le
      rw [hsends, hkeep] at hle
      exact (Nat.le_add_left _ _).trans hle
    · rw [sends_of_finished hs hphase hfin, hkeep]
      rfl
    · obtain ⟨bs, t, hbs, hrun, hfin⟩ := exists_finished hs
      exact ⟨bs, t, fun hmem => hbs _ hmem rfl, hrun, hfin⟩

/-- The application of `main`, which sends to port 8080 of 10.1.1.2 at 100 Mbps. -/
def mainApp : Simulation :=
  .init (.setup (.inetSocket 0x0a010102 8080) 1040 1000000 100000000)

/-- Two packets, and a stop while the event of the third is pending. -/
def stoppedRun : List Act := [.startApplication, .sendPacket 0, .stopApplication]

theorem paced_stoppedRun :
    ∃ s, system.run mainApp stoppedRun = some s ∧ Paced mainApp stoppedRun s := by
  obtain ⟨s, hs⟩ := Option.isSome_iff_exists.mp
    (by decide : (system.run mainApp stoppedRun).isSome = true)
  exact ⟨s, hs,
    paced (.inetSocket 0x0a010102 8080) 1040 1000000 100000000 (by decide) stoppedRun hs⟩

end NetLab.App
