/-
  When the video session deadlocks.

  The client waits without a timeout, and the server never sends but in answer to a keep-alive. So a
  waiting client goes on only as long as its one keep-alive, or the frame that answers it, is
  somewhere: on its way, in a socket, or in the server's pass. Nothing puts a lost one back.

  * `Deadlocked`: a client waits and nothing of it is anywhere; `deadlocked_reachable`: no run of
    the parties and the network ends that.
  * `Live`: a waiting client has one token, any other none. It survives every step that loses none.
  * `neverDeadlocked_iff`: a run never deadlocks exactly when no step of it loses a token.
  * `lostKeepAlive_deadlocked`: a lost datagram, and a capture without a frame.
-/
import NetLab.Video.Session

namespace NetLab.Video

open NetLab.Lib

variable {C : Type} [DecidableEq C] {s t : Sys C}

/-- The client waits, none of its datagrams is in flight or queued in either direction, and the
    server is not processing its keep-alive. -/
def Deadlocked (s : Sys C) (c : C) : Prop :=
  s.client c = .waiting ∧ c ∉ s.keepAlives ∧ c ∉ s.serverQueue ∧ s.server ≠ .processing c ∧
    (∀ f ∈ s.frames, f.dest ≠ c) ∧ s.inbox c = []

theorem deadlocked_iff {c : C} :
    Deadlocked s c ↔ s.client c = .waiting ∧ tokens s c = 0 := by
  unfold Deadlocked tokens
  refine and_congr_right fun _ => ?_
  simp only [Nat.add_eq_zero_iff, List.countP_eq_zero, decide_eq_true_eq, List.length_eq_zero_iff,
    ite_eq_right_iff, Nat.one_ne_zero, imp_false]
  constructor
  · rintro ⟨hka, hq, hs, hf, hin⟩
    exact ⟨⟨⟨⟨fun d hd he => hka (he ▸ hd), fun d hd he => hq (he ▸ hd)⟩, hs⟩, hf⟩, hin⟩
  · rintro ⟨⟨⟨⟨hka, hq⟩, hs⟩, hf⟩, hin⟩
    exact ⟨fun hd => hka c hd rfl, fun hd => hq c hd rfl, hs, hf, hin⟩

/-- A deadlock is for good. -/
theorem deadlocked_step (hA : Addressed s) {a : Act C} (h : step s a = some t) {c : C}
    (hd : Deadlocked s c) : Deadlocked t c := by
  obtain ⟨hwait, hzero⟩ := deadlocked_iff.mp hd
  rcases tokens_step hA h c with ⟨hphase, hcount⟩ | ⟨htop, _⟩ | ⟨_, _, hcount, _⟩
  · exact deadlocked_iff.mpr ⟨hphase.trans hwait, by omega⟩
  · rw [hwait] at htop
    cases htop
  · omega

/-- Whatever the parties and the network do from there on. -/
theorem deadlocked_reachable (hA : Addressed s) (h : (session C).Reachable s t) {c : C}
    (hd : Deadlocked s c) : Deadlocked t c :=
  ((session C).reachable_inv (I := fun u => Addressed u ∧ Deadlocked u c)
    (fun _ _ _ hI hst => ⟨addressed_step hI.1 hst, deadlocked_step hI.1 hst hI.2⟩)
    ⟨hA, hd⟩ h).2

/-! ## Tokens of waiting clients -/

/-- A waiting client has one token, any other none. -/
def Live (s : Sys C) : Prop := ∀ c, tokens s c = if s.client c = .waiting then 1 else 0

theorem live_init : Live (Sys.init C) := fun _ => rfl

theorem Live.tokens_eq_one {c : C} (h : Live s) (hpos : 0 < tokens s c) :
    s.client c = .waiting ∧ tokens s c = 1 := by
  have hc := h c
  split at hc
  · rename_i hw
    exact ⟨hw, hc⟩
  · omega

theorem live_step (hA : Addressed s) (hL : Live s) {a : Act C} (h : step s a = some t)
    (hkeep : lost s a = none) : Live t := by
  intro c
  have hc := hL c
  rcases tokens_step hA h c with
    ⟨hphase, hcount⟩ | ⟨htop, hwait, hcount, _⟩ | ⟨hwait, hnot, hcount, _⟩
  · rw [hkeep, if_neg nofun] at hcount
    rw [hphase, ← hc]
    exact hcount
  · rw [htop, if_neg nofun] at hc
    rw [hwait, if_pos rfl]
    omega
  · rw [hwait, if_pos rfl] at hc
    rw [if_neg hnot]
    omega

/-- The client whose token is lost waits for nothing. -/
theorem deadlocked_of_lost (hA : Addressed s) (hL : Live s) {a : Act C} (h : step s a = some t)
    {c : C} (hlost : lost s a = some c) : Deadlocked t c := by
  rcases tokens_step hA h c with ⟨hphase, hcount⟩ | ⟨_, _, _, hnone⟩ | ⟨_, _, _, hnone⟩
  · rw [if_pos hlost] at hcount
    obtain ⟨hwait, hone⟩ := hL.tokens_eq_one (c := c) (by omega)
    exact deadlocked_iff.mpr ⟨hphase.trans hwait, by omega⟩
  · rw [hlost] at hnone
    cases hnone
  · rw [hlost] at hnone
    cases hnone

/-- A live session is not deadlocked. -/
theorem Live.not_deadlocked (h : Live s) (c : C) : ¬ Deadlocked s c := by
  intro hd
  obtain ⟨hwait, hzero⟩ := deadlocked_iff.mp hd
  have hc := h c
  rw [hwait, if_pos rfl] at hc
  omega

/-! ## Runs -/

/-- No client is deadlocked after the step. -/
def NotDeadlocked (_ : Sys C) (_ : Act C) (t : Sys C) : Prop := ∀ c, ¬ Deadlocked t c

/-- The step loses no datagram and no capture. -/
def KeepsTokens (s : Sys C) (a : Act C) (_ : Sys C) : Prop := lost s a = none

theorem notDeadlocked_step_iff (hA : Addressed s) (hL : Live s) {a : Act C}
    (h : step s a = some t) : NotDeadlocked s a t ↔ KeepsTokens s a t := by
  constructor
  · intro hnot
    by_contra hlost
    obtain ⟨c, hc⟩ := Option.ne_none_iff_exists'.mp hlost
    exact hnot c (deadlocked_of_lost hA hL h hc)
  · intro hkeep c
    exact (live_step hA hL h hkeep).not_deadlocked c

/-- **A run never deadlocks exactly when no step of it loses a token**: no datagram in either
    direction, and no capture that the server does not send. -/
theorem neverDeadlocked_iff (acts : List (Act C)) :
    (session C).Along NotDeadlocked (Sys.init C) acts ↔
      (session C).Along KeepsTokens (Sys.init C) acts :=
  (session C).along_congr_of_inv (I := fun s => Addressed s ∧ Live s)
    (fun _ _ _ hI hst => notDeadlocked_step_iff hI.1 hI.2 hst)
    (fun _ _ _ hI hst hkeep => ⟨addressed_step hI.1 hst, live_step hI.1 hI.2 hst hkeep⟩)
    ⟨addressed_init, live_init⟩ acts

/-- The one client of a session waits forever: its keep-alive is lost, or arrives and the capture
    is empty. -/
theorem lostKeepAlive_deadlocked :
    (∃ s, (session Unit).run (Sys.init Unit) [.keepAlive (), .loseKeepAlive 0] = some s ∧
      Deadlocked s ()) ∧
    ∃ s, (session Unit).run (Sys.init Unit)
      [.keepAlive (), .arriveKeepAlive 0, .serverRecv, .capture none] = some s ∧
      Deadlocked s () := by
  refine ⟨⟨_, rfl, rfl, ?_, ?_, ?_, ?_, rfl⟩, _, rfl, rfl, ?_, ?_, ?_, ?_, rfl⟩ <;> exact nofun

end NetLab.Video
