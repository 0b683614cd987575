/-
  How q2client.c ends (lines 36-59 and 103-127).

  The main thread clears `running` and waits in `pthread_join`. The receiver looks at `running`
  only between two calls of `recvfrom`, so it may take in one more packet; with `SO_RCVTIMEO` set
  the call returns also where no packet comes.

  * `Printed`: the report is printed after the receiver has returned, of the table as it is then.
  * `Stopped`: behind the stop one packet more is accounted at most.
  * `shutdown`: every run; and each can go on to the report, in six steps of the client that need
    nothing of the network.
-/
import NetLab.Throughput.System

namespace NetLab.Throughput

open NetLab.Lib

variable {a : Args} {s s' : Sys}

/-! ## The report -/

structure Printed (a : Args) (s : Sys) : Prop where
  length : s.stats.length = MAXI
  joining : s.main = .joining → s.running = false
  done : s.main = .done → s.receiver = .ended ∧ s.out = report (capped a.duration) s.stats

theorem printed_init (a : Args) : Printed a (Sys.init a) where
  length := List.length_replicate
  joining h := by cases h
  done h := by cases h

/-- A reception is the receiver's alone. -/
theorem receive_main (a : Args) (s : Sys) (d : Datagram) (rest : List Datagram)
    (t : NetLab.Ping.Timeval) :
    (s.receive a d rest t).main = s.main ∧ (s.receive a d rest t).running = s.running ∧
      (s.receive a d rest t).receiver = .head := by
  unfold Sys.receive
  dsimp only
  split <;> exact ⟨rfl, rfl, rfl⟩

theorem printed_step (h : Printed a s) {x : Act} (hstep : step a s x = some s') : Printed a s' := by
  have hlength : s'.stats.length = MAXI := by
    rcases stats_step hstep with heq | ⟨r, heq⟩
    · rw [heq, h.length]
    · rw [heq, length_account, h.length]
  cases x with
  | join =>
    obtain ⟨_, hrec, rfl⟩ := step_join hstep
    exact ⟨hlength, fun hj => (by cases hj), fun _ => ⟨hrec, rfl⟩⟩
  | recv t =>
    obtain ⟨d, rest, hwait, _, rfl⟩ := step_recv hstep
    obtain ⟨hmain, hrunning, _⟩ := receive_main a s d rest t
    refine ⟨hlength, fun hj => ?_, fun hdone => ?_⟩
    · rw [hrunning]
      exact h.joining (hmain ▸ hj)
    · cases hwait.symm.trans (h.done (hmain ▸ hdone)).1
  | clock t | send t | sendFail t =>
    simp only [step, Option.ite_none_right_eq_some, Option.some.injEq] at hstep
    obtain ⟨_, rfl⟩ := hstep
    exact ⟨hlength, fun hj => (by cases hj), fun hdone => by cases hdone⟩
  | stop =>
    simp only [step, Option.ite_none_right_eq_some, Option.some.injEq] at hstep
    obtain ⟨_, rfl⟩ := hstep
    exact ⟨hlength, fun _ => rfl, fun hdone => by cases hdone⟩
  | enter | leave | recvFail =>
    simp only [step, Option.ite_none_right_eq_some, Option.some.injEq] at hstep
    obtain ⟨hrec, rfl⟩ := hstep
    refine ⟨hlength, h.joining, fun hdone => ?_⟩
    have hended := (h.done hdone).1
    simp [hended] at hrec
  | serve k | deliver k | loseRequest k | loseReply k | dupRequest k | dupReply k =>
    simp only [step, Option.map_eq_some_iff] at hstep
    obtain ⟨_, _, rfl⟩ := hstep
    exact ⟨hlength, h.joining, h.done⟩

/-! ## Behind the stop -/

/-- `running` has been cleared when the table was `base`. -/
structure Stopped (a : Args) (base : List Secondsts) (s : Sys) : Prop where
  running : s.running = false
  main : s.main = .joining ∨ s.main = .done
  /-- The `recvfrom` the receiver was in has not returned. -/
  waiting : s.receiver = .waiting → s.stats = base
  stats : s.stats = base ∨ ∃ r, s.stats = account a.start_test_time base r

theorem stopped_stop (h : step a s .stop = some s') : Stopped a s.stats s' := by
  simp only [step, Option.ite_none_right_eq_some, Option.some.injEq] at h
  obtain ⟨_, rfl⟩ := h
  exact ⟨rfl, .inl rfl, fun _ => rfl, .inl rfl⟩

theorem stopped_step {base : List Secondsts} (h : Stopped a base s) {x : Act}
    (hstep : step a s x = some s') : Stopped a base s' := by
  cases x with
  | join =>
    obtain ⟨_, hrec, rfl⟩ := step_join hstep
    exact ⟨h.running, .inr rfl, h.waiting, h.stats⟩
  | recv t =>
    obtain ⟨d, rest, hwait, _, rfl⟩ := step_recv hstep
    obtain ⟨hmain, hrunning, hhead⟩ := receive_main a s d rest t
    refine ⟨hrunning.trans h.running, hmain.symm ▸ h.main, fun hw => ?_, ?_⟩
    · cases hhead.symm.trans hw
    · rw [stats_receive, h.waiting hwait]
      split
      · exact .inr ⟨_, rfl⟩
      · exact .inl rfl
  | clock t | send t | sendFail t | stop =>
    -- the main thread is out of its loop
    simp only [step, Option.ite_none_right_eq_some, Option.some.injEq] at hstep
    rcases h.main with hmain | hmain <;> simp [hmain] at hstep
  | enter =>
    simp only [step, Option.ite_none_right_eq_some, Option.some.injEq] at hstep
    simp [h.running] at hstep
  | leave | recvFail =>
    simp only [step, Option.ite_none_right_eq_some, Option.some.injEq] at hstep
    obtain ⟨_, rfl⟩ := hstep
    exact ⟨h.running, h.main, fun hw => (by cases hw), h.stats⟩
  | serve k | deliver k | loseRequest k | loseReply k | dupRequest k | dupReply k =>
    simp only [step, Option.map_eq_some_iff] at hstep
    obtain ⟨_, _, rfl⟩ := hstep
    exact ⟨h.running, h.main, h.waiting, h.stats⟩

/-! ## To the end -/

/-- The client can come to its end in at most `n` steps of its own, with the table as it is. -/
def EndsIn (a : Args) (n : Nat) (s : Sys) : Prop :=
  ∃ more t, more.length ≤ n ∧ (∀ x ∈ more, x.OfClient = true) ∧ (system a).run s more = some t ∧
    t.main = .done ∧ t.out = report (capped a.duration) s.stats

theorem EndsIn.cons {n : Nat} (h : EndsIn a n s') {x : Act} (hx : x.OfClient = true)
    (hstep : step a s x = some s') (hstats : s'.stats = s.stats) : EndsIn a (n + 1) s := by
  obtain ⟨more, t, hlen, hown, hrun, hdone, hout⟩ := h
  refine ⟨x :: more, t, Nat.succ_le_succ hlen, List.forall_mem_cons.mpr ⟨hx, hown⟩, ?_, hdone,
    hstats ▸ hout⟩
  rw [(system a).run_cons_of_step (show (system a).step s x = some s' from hstep), hrun]

theorem EndsIn.mono {n m : Nat} (h : EndsIn a n s) (hle : n ≤ m) : EndsIn a m s := by
  obtain ⟨more, t, hlen, hend⟩ := h
  exact ⟨more, t, hlen.trans hle, hend⟩

theorem endsIn_done (h : Printed a s) (hmain : s.main = .done) : EndsIn a 0 s :=
  ⟨[], s, Nat.le_refl 0, List.forall_mem_nil _, rfl, hmain, (h.done hmain).2⟩

theorem endsIn_joining (hmain : s.main = .joining) (hrunning : s.running = false) :
    EndsIn a 3 s := by
  have hjoin : ∀ u : Sys, u.main = .joining → u.receiver = .ended → EndsIn a 1 u := by
    intro u hmain hrec
    have hend : EndsIn a 0 { u with
        main := .done
        out := report (capped a.duration) u.stats
        hist := { u.hist with indices := u.hist.indices ++ reportIndices (capped a.duration) } } :=
      ⟨[], _, Nat.le_refl 0, List.forall_mem_nil _, rfl, rfl, rfl⟩
    exact hend.cons (x := .join) rfl (if_pos ⟨hmain, hrec⟩) rfl
  have hleave : ∀ u : Sys, u.main = .joining → u.running = false → u.receiver = .head →
      EndsIn a 2 u := by
    intro u hmain hrunning hrec
    exact (hjoin { u with receiver := .ended } hmain rfl).cons (x := .leave) rfl
      (if_pos ⟨hrec, hrunning⟩) rfl
  cases hrec : s.receiver with
  | head => exact (hleave s hmain hrunning hrec).mono (by decide)
  | waiting =>
    exact (hleave { s with receiver := .head } hmain hrunning rfl).cons (x := .recvFail) rfl
      (if_pos hrec) rfl
  | ended => exact (hjoin s hmain hrec).mono (by decide)

/-- A reading of the clock at which the test is over. -/
def Args.late (a : Args) : NetLab.Ping.Timeval := ⟨Int64.ofNat MAXI + a.start_test_time.tv_sec, 0⟩

theorem not_inTest_late (hcurrent : s.current_time = a.late) : ¬ s.InTest a := by
  have hcap := capped_le a.duration
  have hdiff : (s.current_time.tv_sec - a.start_test_time.tv_sec).toInt = MAXI := by
    rw [hcurrent, Args.late, Int64.add_sub_cancel]
    decide
  unfold Sys.InTest
  omega

theorem endsIn (h : Printed a s) : EndsIn a 6 s := by
  have hstop : ∀ u : Sys, u.main = .head → ¬ u.InTest a → EndsIn a 4 u := by
    intro u hmain htest
    exact (endsIn_joining (s := { u with main := .joining, running := false }) rfl rfl).cons
      (x := .stop) rfl (if_pos ⟨hmain, htest⟩) rfl
  have hclock : ∀ u : Sys, u.main = .clock → EndsIn a 5 u := by
    intro u hmain
    exact (hstop { u with main := .head, current_time := a.late } rfl (not_inTest_late rfl)).cons
      (x := .clock a.late) rfl (if_pos hmain) rfl
  cases hmain : s.main with
  | clock => exact (hclock s hmain).mono (by decide)
  | head =>
    by_cases htest : s.InTest a
    · exact (hclock (s.stamped a.late) rfl).cons (x := .sendFail a.late) rfl
        (if_pos ⟨hmain, htest⟩) rfl
    · exact (hstop s hmain htest).mono (by decide)
  | joining => exact (endsIn_joining hmain (h.joining hmain)).mono (by decide)
  | done => exact (endsIn_done h hmain).mono (by decide)

/-- **The client comes to its end.** From every state of every run at most six steps of its own lead
    to the report of the table as it is. Once the main thread has cleared `running`, whatever comes
    then, the receiver accounts one more packet at most; and a report that is printed is that of the
    table. -/
theorem shutdown (a : Args) (acts : List Act) (t : Sys)
    (hrun : (system a).run (Sys.init a) acts = some t) :
    EndsIn a 6 t ∧ (t.main = .done → t.out = report (capped a.duration) t.stats) ∧
      ∀ pre post, acts = pre ++ .stop :: post → ∃ s, (system a).run (Sys.init a) pre = some s ∧
        (t.stats = s.stats ∨ ∃ r, t.stats = account a.start_test_time s.stats r) := by
  have h := (system a).run_inv (fun _ _ _ hI hst => printed_step hI hst) (printed_init a) hrun
  refine ⟨endsIn h, fun hdone => (h.done hdone).2, fun pre post hacts => ?_⟩
  rw [hacts, (system a).run_append] at hrun
  obtain ⟨s, hpre, hrun⟩ := Option.bind_eq_some_iff.mp hrun
  rw [(system a).run_cons] at hrun
  obtain ⟨u, hstop, hpost⟩ := Option.bind_eq_some_iff.mp hrun
  have hstopped := (system a).run_inv (fun _ _ _ hI hst => stopped_step hI hst)
    (stopped_stop hstop) hpost
  exact ⟨s, hpre, hstopped.stats⟩

/-- A test of a second. The echo comes when `running` has been cleared. -/
def stoppedEcho : List Act :=
  [.enter, .clock ⟨10, 5⟩, .send ⟨10, 10⟩, .serve 0, .deliver 0, .clock ⟨11, 0⟩, .stop,
    .recv ⟨11, 40⟩, .leave]

theorem stoppedEcho_shutdown :
    ∃ t, (system ⟨1, 64, ⟨10, 0⟩⟩).run (Sys.init ⟨1, 64, ⟨10, 0⟩⟩) stoppedEcho = some t ∧
      EndsIn ⟨1, 64, ⟨10, 0⟩⟩ 6 t ∧ (t.main = .done → t.out = report (capped 1) t.stats) ∧
      ∀ pre post, stoppedEcho = pre ++ .stop :: post →
        ∃ s, (system ⟨1, 64, ⟨10, 0⟩⟩).run (Sys.init ⟨1, 64, ⟨10, 0⟩⟩) pre = some s ∧
          (t.stats = s.stats ∨ ∃ r, t.stats = account ⟨10, 0⟩ s.stats r) := by
  obtain ⟨t, ht⟩ := Option.isSome_iff_exists.mp
    (show ((system ⟨1, 64, ⟨10, 0⟩⟩).run (Sys.init ⟨1, 64, ⟨10, 0⟩⟩) stoppedEcho).isSome = true by
      decide +kernel)
  exact ⟨t, ht, shutdown ⟨1, 64, ⟨10, 0⟩⟩ stoppedEcho t ht⟩

end NetLab.Throughput
