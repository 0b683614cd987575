/-
  How q1client.c ends (lines 69-121).

  Whatever is lost, delayed, repeated or sent late, each pass of the loop waits in one `recvfrom`,
  which `SO_RCVTIMEO` ends after a second. So the client makes a bounded number of steps, is never
  stuck before the end, and has an outcome for every pass when it gets there.

  * `left`: the steps the client has still to make; `left_step`: its own steps lower it, no step of
    the network or the clock changes it.
  * `pass_moves`: from every state before the end the client moves on by itself, in a wait after a
    second at most.
  * `terminates`: every run.
-/
import NetLab.Ping.Sound
import NetLab.Lib.Simulation

namespace NetLab.Ping

open NetLab.Lib

variable {a : Args} {s s' : Sys}

/-! ## Steps of the client -/

/-- The steps of the program, as against those of the network and the clock. -/
def Act.OfProgram : Act → Bool
  | .send _ | .sendFail _ | .wait | .recv _ | .timeout | .wake | .finish => true
  | _ => false

/-- The passes from that of the client on. -/
def passes (a : Args) (s : Sys) : Nat := (a.msgcount.toInt + 1 - s.client.i.toInt).toNat

/-- The steps the client has still to make. -/
def left (a : Args) (s : Sys) : Nat :=
  match s.client.phase with
  | .head => 4 * passes a s + 1
  | .sent => 4 * passes a s
  | .waiting _ => 4 * passes a s - 1
  | .asleep => 4 * passes a s - 2
  | .done => 0

/-- The waits it has still before it. -/
def waits (a : Args) (s : Sys) : Nat :=
  match s.client.phase with
  | .head | .sent | .waiting _ => passes a s
  | .asleep => passes a s - 1
  | .done => 0

theorem passes_pos (h : s.client.i ≤ a.msgcount) : 1 ≤ passes a s := by
  unfold passes
  rw [Int32.le_iff_toInt_le] at h
  omega

/-- The next pass. -/
theorem passes_succ (h : s.client.i ≤ a.msgcount) (hmax : s.client.i ≠ Int32.maxValue)
    (hi : s'.client.i = s.client.i + 1) : passes a s' + 1 = passes a s := by
  unfold passes
  rw [Int32.le_iff_toInt_le] at h
  rw [hi, toInt_succ hmax]
  omega

/-- **The client's steps lower `left`**; the network's and the clock's leave it. -/
theorem left_step (h : Inv a s) {x : Act} (hstep : step a s x = some s') :
    left a s' + (if x.OfProgram then 1 else 0) ≤ left a s := by
  cases x with
  | send t =>
    obtain ⟨hp, hi, _, rfl⟩ := step_send hstep
    simp only [left, hp, Act.OfProgram, if_true]
    exact Nat.le_refl _
  | sendFail t =>
    obtain ⟨hp, hi, hmax, hs'⟩ := step_sendFail hstep
    have hi' : s'.client.i = s.client.i + 1 := by rw [hs']
    have hp' : s'.client.phase = .head := by rw [hs']; exact hp
    have hnext := passes_succ hi hmax hi'
    simp only [left, hp, hp', Act.OfProgram, if_true]
    omega
  | wait =>
    obtain ⟨hp, rfl⟩ := step_wait hstep
    have hpos : 1 ≤ passes a s := passes_pos (h.busy (hp ▸ trivial))
    simp only [left, hp, Act.OfProgram, if_true]
    show 4 * passes a s - 1 + 1 ≤ 4 * passes a s
    omega
  | recv t =>
    obtain ⟨deadline, d, rest, hp, _, rfl⟩ := step_recv hstep
    have hpos : 1 ≤ passes a s := passes_pos (h.busy (hp ▸ trivial))
    simp only [left, hp, Act.OfProgram, if_true]
    show 4 * passes a s - 2 + 1 ≤ 4 * passes a s - 1
    omega
  | timeout =>
    obtain ⟨deadline, hp, _, _, rfl⟩ := step_timeout hstep
    have hpos : 1 ≤ passes a s := passes_pos (h.busy (hp ▸ trivial))
    simp only [left, hp, Act.OfProgram, if_true]
    show 4 * passes a s - 2 + 1 ≤ 4 * passes a s - 1
    omega
  | wake =>
    obtain ⟨hp, hmax, hs'⟩ := step_wake hstep
    have hi' : s'.client.i = s.client.i + 1 := by rw [hs']
    have hp' : s'.client.phase = .head := by rw [hs']
    have hnext := passes_succ (h.busy (hp ▸ trivial)) hmax hi'
    simp only [left, hp, hp', Act.OfProgram, if_true]
    omega
  | finish =>
    obtain ⟨hp, _, rfl⟩ := step_finish hstep
    simp only [left, hp, Act.OfProgram, if_true]
    omega
  | tick d =>
    obtain rfl := Option.some.inj hstep
    exact Nat.le_refl _
  | deliver k =>
    obtain ⟨d, rest, _, rfl⟩ := step_deliver hstep
    exact Nat.le_refl _
  | serve k | loseRequest k | loseEcho k | dupRequest k | dupEcho k =>
    simp only [step, Option.map_eq_some_iff] at hstep
    obtain ⟨_, _, rfl⟩ := hstep
    exact Nat.le_refl _

/-! ## Waits -/

/-- A `recvfrom` has a second at most before it. -/
def WaitBounded (s : Sys) : Prop := ∀ d, s.client.phase = .waiting d → d ≤ s.now + rcvTimeout

theorem waitBounded_step (h : WaitBounded s) {x : Act} (hstep : step a s x = some s') :
    WaitBounded s' := by
  intro d hd
  cases x with
  | send t =>
    obtain ⟨_, _, _, rfl⟩ := step_send hstep
    cases hd
  | sendFail t =>
    obtain ⟨hp, _, _, rfl⟩ := step_sendFail hstep
    exact h d hd
  | wait =>
    obtain ⟨_, rfl⟩ := step_wait hstep
    exact (Phase.waiting.inj hd).ge
  | recv t =>
    obtain ⟨_, _, _, _, _, rfl⟩ := step_recv hstep
    cases hd
  | timeout =>
    obtain ⟨_, _, _, _, rfl⟩ := step_timeout hstep
    cases hd
  | wake =>
    obtain ⟨_, _, rfl⟩ := step_wake hstep
    cases hd
  | finish =>
    obtain ⟨_, _, rfl⟩ := step_finish hstep
    cases hd
  | tick e =>
    obtain rfl := Option.some.inj hstep
    have hle := h d hd
    show d ≤ s.now + e + rcvTimeout
    omega
  | deliver k =>
    obtain ⟨_, _, _, rfl⟩ := step_deliver hstep
    exact h d hd
  | serve k | loseRequest k | loseEcho k | dupRequest k | dupEcho k =>
    simp only [step, Option.map_eq_some_iff] at hstep
    obtain ⟨_, _, rfl⟩ := hstep
    exact h d hd

/-! ## Moving on -/

/-- The client can go from `s` to `s'` by itself, after `d` microseconds. -/
def Moves (a : Args) (s s' : Sys) (d : Nat) : Prop :=
  ∃ x, x.OfProgram = true ∧ (system a).run s [.tick d, x] = some s' ∧ s'.now = s.now + d

theorem moves_of_step {d : Nat} {x : Act} (hx : x.OfProgram = true)
    (hstep : step a { s with now := s.now + d } x = some s') (hnow : s'.now = s.now + d) :
    Moves a s s' d := by
  refine ⟨x, hx, ?_, hnow⟩
  have htick : (system a).step s (.tick d) = some { s with now := s.now + d } := rfl
  rw [(system a).run_cons_of_step htick, Machine.run_singleton]
  exact hstep

/-- A pass number is not the largest one. -/
theorem ne_maxValue (hmax : a.msgcount ≠ Int32.maxValue) (hi : s.client.i ≤ a.msgcount) :
    s.client.i ≠ Int32.maxValue := by
  intro heq
  rw [heq, Int32.le_iff_toInt_le] at hi
  exact hmax (Int32.toInt_inj.mp (Int.le_antisymm a.msgcount.toInt_le hi))

/-- At the head of the loop: `sendto`, which may fail, or the end. -/
theorem moves_head (hmax : a.msgcount ≠ Int32.maxValue) (hp : s.client.phase = .head) :
    ∃ s', Moves a s s' 0 ∧ waits a s' ≤ waits a s := by
  by_cases hi : s.client.i ≤ a.msgcount
  · by_cases hsize : a.packetsz ≤ maxDatagram
    · have hstep : step a s (.send ⟨0, 0⟩) = some _ := if_pos ⟨hp, hi, hsize⟩
      refine ⟨_, moves_of_step rfl hstep rfl, ?_⟩
      simp only [waits, hp]
      exact Nat.le_refl _
    · have hne := ne_maxValue hmax hi
      have hstep : step a s (.sendFail ⟨0, 0⟩) = some _ := if_pos ⟨hp, hi, hne⟩
      refine ⟨_, moves_of_step rfl hstep rfl, ?_⟩
      simp only [waits, passes, hp, toInt_succ hne]
      omega
  · have hstep : step a s .finish = some _ := if_pos ⟨hp, hi⟩
    refine ⟨_, moves_of_step rfl hstep rfl, ?_⟩
    simp only [waits]
    exact Nat.zero_le _

/-- In `recvfrom`: the oldest datagram there is, or a timeout after a second. -/
theorem moves_waiting (h : Inv a s) (hW : WaitBounded s) {deadline : Nat}
    (hp : s.client.phase = .waiting deadline) :
    ∃ s' d, Moves a s s' d ∧ d ≤ rcvTimeout ∧ waits a s' + 1 = waits a s := by
  have hpos : 1 ≤ passes a s := passes_pos (h.busy (hp ▸ trivial))
  have hasleep : ∀ t : Sys, t.client.phase = .asleep → t.client.i = s.client.i →
      waits a t + 1 = waits a s := by
    intro t ht hi
    simp only [waits, ht, hp, passes, hi] at hpos ⊢
    omega
  cases hq : s.queue with
  | nil =>
    have hle := hW deadline hp
    have hstep : step a { s with now := s.now + rcvTimeout } .timeout = some { s with
        now := s.now + rcvTimeout
        client := { s.client with
          phase := .asleep
          stats := s.client.stats.account s.client.i .timedOut }
        hist := { s.hist with outcomes := s.hist.outcomes ++ [.timedOut] } } := by
      simp only [step, hp, hq, if_pos hle]
    exact ⟨_, rcvTimeout, moves_of_step rfl hstep rfl, Nat.le_refl _, hasleep _ rfl rfl⟩
  | cons d rest =>
    have hstep : step a s (.recv ⟨0, 0⟩) = some (s.receive a d rest ⟨0, 0⟩) := by
      simp only [step, hp, hq]
    exact ⟨_, 0, moves_of_step rfl hstep rfl, Nat.zero_le _, hasleep _ rfl rfl⟩

/-- **No state before the end is the last.** The client moves on by itself, and only a wait takes
    time, a second at most. -/
theorem pass_moves (hmax : a.msgcount ≠ Int32.maxValue) (h : Inv a s) (hW : WaitBounded s)
    (hdone : s.client.phase ≠ .done) :
    ∃ s' d, Moves a s s' d ∧ d + rcvTimeout * waits a s' ≤ rcvTimeout * waits a s := by
  cases hp : s.client.phase with
  | head =>
    obtain ⟨s', hmoves, hwaits⟩ := moves_head hmax hp
    exact ⟨s', 0, hmoves, by rw [Nat.zero_add]; exact Nat.mul_le_mul_left _ hwaits⟩
  | sent =>
    have hstep : step a s .wait = some _ := if_pos hp
    refine ⟨_, 0, moves_of_step rfl hstep rfl, ?_⟩
    simp only [waits, hp, Nat.zero_add]
    exact Nat.le_refl _
  | waiting deadline =>
    obtain ⟨s', d, hmoves, hd, hwaits⟩ := moves_waiting h hW hp
    refine ⟨s', d, hmoves, ?_⟩
    rw [← hwaits, Nat.mul_succ]
    omega
  | asleep =>
    have hi : s.client.i ≤ a.msgcount := h.busy (hp ▸ trivial)
    have hne := ne_maxValue hmax hi
    have hstep : step a s .wake = some _ := if_pos ⟨hp, hne⟩
    refine ⟨_, 0, moves_of_step rfl hstep rfl, ?_⟩
    simp only [waits, passes, hp, toInt_succ hne, Nat.zero_add]
    exact Nat.mul_le_mul_left _ (by omega)
  | done => exact absurd hp hdone

/-- The client comes to the end by itself, in a second for each wait. -/
theorem comes_to_end (hmax : a.msgcount ≠ Int32.maxValue) (h : Inv a s) (hW : WaitBounded s) :
    ∃ more t, (system a).run s more = some t ∧ (∀ x ∈ more, x.OfProgram = true ∨ ∃ d, x = .tick d) ∧
      t.client.phase = .done ∧ t.now ≤ s.now + rcvTimeout * waits a s := by
  induction hn : left a s using Nat.strong_induction_on generalizing s with
  | _ n ih =>
    by_cases hdone : s.client.phase = .done
    · refine ⟨[], s, rfl, fun _ hx => absurd hx List.not_mem_nil, hdone, Nat.le_add_right _ _⟩
    · obtain ⟨s', d, ⟨x, hx, hrun, hnow⟩, hwaits⟩ := pass_moves hmax h hW hdone
      have hinv : Inv a s' ∧ WaitBounded s' :=
        (system a).run_inv (I := fun s => Inv a s ∧ WaitBounded s)
          (fun _ _ _ hI hst => ⟨inv_step hI.1 hst, waitBounded_step hI.2 hst⟩) ⟨h, hW⟩ hrun
      have hleft := (system a).countP_le_of_measure (I := Inv a) (left a) Act.OfProgram
        (fun _ _ _ hI hst => ⟨inv_step hI hst, left_step hI hst⟩) h hrun
      have hcount : 1 ≤ [Act.tick d, x].countP Act.OfProgram :=
        List.countP_pos_iff.mpr ⟨x, by simp, hx⟩
      obtain ⟨more, t, hmore, hown, htdone, htnow⟩ := ih (left a s') (by omega) hinv.1 hinv.2 rfl
      refine ⟨[.tick d, x] ++ more, t, ?_, ?_, htdone, by omega⟩
      · rw [Machine.run_append_of_run hrun, hmore]
      · intro y hy
        rcases List.mem_append.mp hy with hy | hy
        · rcases List.mem_pair.mp hy with rfl | rfl
          · exact .inr ⟨d, rfl⟩
          · exact .inl hx
        · exact hown y hy

/-! ## Every run -/

/-- **Termination.** With a message count that is not negative nor the largest `int`, in every run,
    whatever the network and the clock do, the client makes at most `4 * msgcount + 1` steps. From
    every state of it the client comes to its end by itself, where each wait it has still before it
    takes a second at most; and at the end it has one outcome for each pass. -/
theorem terminates (a : Args) (hcount : 0 ≤ a.msgcount.toInt) (hmax : a.msgcount ≠ Int32.maxValue)
    (acts : List Act) (s : Sys) (h : (system a).run (Sys.init a) acts = some s) :
    acts.countP Act.OfProgram ≤ 4 * a.msgcount.toInt.toNat + 1 ∧
      (∃ more t, (system a).run s more = some t ∧
        (∀ x ∈ more, x.OfProgram = true ∨ ∃ d, x = .tick d) ∧
        t.client.phase = .done ∧ t.now ≤ s.now + rcvTimeout * waits a s) ∧
      (s.client.phase = .done → (s.hist.outcomes.length : Int) = a.msgcount.toInt) := by
  have hW : WaitBounded s :=
    (system a).run_inv (fun _ _ _ hI hst => waitBounded_step hI hst)
      (fun d hd => by cases hd) h
  refine ⟨?_, comes_to_end hmax (inv_run a h) hW, fun hdone => ?_⟩
  · have hleft := (system a).countP_le_of_measure (I := Inv a) (left a) Act.OfProgram
      (fun _ _ _ hI hst => ⟨inv_step hI hst, left_step hI hst⟩) (inv_init a) h
    have hstart : left a (Sys.init a) = 4 * a.msgcount.toInt.toNat + 1 := by
      have hone : (1 : Int32).toInt = 1 := rfl
      simp only [left, Sys.init, Client.init, passes, hone]
      omega
    omega
  · exact ((inv_run a h).ends_of_done hdone).length_eq hcount

/-- Three probes, of which the first times out and the second is in its wait. -/
def threeProbes : Args := { oneProbe with msgcount := 3 }

def secondWait : List Act :=
  [.send ⟨10, 0⟩, .wait, .loseRequest 0, .tick 1000000, .timeout, .wake, .send ⟨11, 0⟩, .wait,
    .serve 0, .dupEcho 0]

theorem secondWait_terminates :
    ∃ s, (system threeProbes).run (Sys.init threeProbes) secondWait = some s ∧
      secondWait.countP Act.OfProgram ≤ 13 ∧
      (∃ more t, (system threeProbes).run s more = some t ∧
        (∀ x ∈ more, x.OfProgram = true ∨ ∃ d, x = .tick d) ∧
        t.client.phase = .done ∧ t.now ≤ s.now + rcvTimeout * waits threeProbes s) ∧
      (s.client.phase = .done → (s.hist.outcomes.length : Int) = 3) := by
  obtain ⟨s, hs⟩ := Option.isSome_iff_exists.mp
    (by decide +kernel :
      ((system threeProbes).run (Sys.init threeProbes) secondWait).isSome = true)
  exact ⟨s, hs, terminates threeProbes (by decide) (by decide) secondWait s hs⟩

end NetLab.Ping
