/-
  Which clients of the video session can still get a frame.

  Neither side starts anything of its own once a token is lost, so a deadlocked client has had its
  last frame. Every other client that has not quit can get the next, from whatever state the other
  clients, the server and the network have come to: the server works through the keep-alives in
  front of the client's, and the network brings what is on its way.

  * `served_of_queue`: by induction on the keep-alives in front.
  * `served_iff`: in every reachable state.
-/
import NetLab.Video.Deadlock
import NetLab.Video.FlowControl

namespace NetLab.Video

open NetLab.Lib

variable {C : Type} [DecidableEq C] {s t : Sys C}

/-- The session can go on to a state where `c` has received one more frame. -/
def Served (s : Sys C) (c : C) : Prop :=
  ∃ t, (session C).Reachable s t ∧ s.received c < t.received c

/-! ## From a token to its frame -/

/-- A step in which `c` receives nothing. -/
theorem served_of_step {a : Act C} (h : step s a = some t) {c : C}
    (hreceived : t.received c = s.received c) (hserved : Served t c) : Served s c := by
  obtain ⟨u, ⟨acts, hrun⟩, hlt⟩ := hserved
  refine ⟨u, ⟨a :: acts, ?_⟩, hreceived ▸ hlt⟩
  rw [(session C).run_cons_of_step h, hrun]

theorem served_of_inbox {c : C} (hwait : s.client c = .waiting) (hin : s.inbox c ≠ []) :
    Served s c := by
  obtain ⟨f, rest, hin⟩ := List.exists_cons_of_ne_nil hin
  have hstep : (session C).step s (.receive c false) = some (s.receive c false f rest) := by
    simp only [session, step, hwait, hin]
  refine ⟨_, ⟨[.receive c false], (session C).run_cons_of_step hstep []⟩, ?_⟩
  show s.received c < Function.update s.received c (s.received c + 1) c
  rw [Function.update_self]
  exact Nat.lt_succ_self _

theorem served_of_frame {c : C} (hwait : s.client c = .waiting) {f : Frame C} (hf : f ∈ s.frames)
    (hdest : f.dest = c) : Served s c := by
  obtain ⟨k, rest, hk, _⟩ := exists_takeAt (List.perm_cons_erase hf)
  have hstep : step s (.arriveFrame k) = some { s with
      frames := rest
      inbox := Function.update s.inbox f.dest (s.inbox f.dest ++ [f]) } := by
    simp only [step, hk, Option.map_some]
  refine served_of_step hstep rfl (served_of_inbox hwait ?_)
  dsimp only
  rw [hdest, Function.update_self]
  exact List.append_ne_nil_of_right_ne_nil _ (List.cons_ne_nil _ _)

/-- A capture that is encoded and sent. -/
theorem step_processing (hA : Addressed s) {d : C} (hs : s.server = .processing d) :
    step s (.capture (some [255])) = some { s with
      server := .receiving, frames := s.frames ++ [⟨d, d, [255]⟩] } := by
  have hsend : Sendable (some [255]) := by decide
  simp only [step, hs, hA d hs, Sys.capture, if_pos hsend, Option.getD_some]

theorem served_of_processing (hA : Addressed s) {c : C} (hwait : s.client c = .waiting)
    (hs : s.server = .processing c) : Served s c :=
  served_of_step (step_processing hA hs) rfl
    (served_of_frame hwait (List.mem_append_right _ List.mem_cons_self) rfl)

/-- The server works through the keep-alives in front. -/
theorem served_of_receiving (hA : Addressed s) {c : C} {pre post : List C}
    (hwait : s.client c = .waiting) (hs : s.server = .receiving)
    (hq : s.serverQueue = pre ++ c :: post) : Served s c := by
  induction pre generalizing s with
  | nil =>
    have hstep : step s .serverRecv = some { s with
        server := .processing c, clientAddress := some c, serverQueue := post } := by
      simp only [step, hs, hq, List.nil_append]
    exact served_of_step hstep rfl (served_of_processing (addressed_step hA hstep) hwait rfl)
  | cons d pre ih =>
    have hstep : step s .serverRecv = some { s with
        server := .processing d, clientAddress := some d, serverQueue := pre ++ c :: post } := by
      simp only [step, hs, hq, List.cons_append]
    have hA' := addressed_step hA hstep
    have hcapture := step_processing hA' rfl
    refine served_of_step hstep rfl (served_of_step hcapture rfl ?_)
    exact ih (addressed_step hA' hcapture) hwait rfl rfl

theorem served_of_queue (hA : Addressed s) {c : C} (hwait : s.client c = .waiting)
    (hc : c ∈ s.serverQueue) : Served s c := by
  obtain ⟨pre, post, hq⟩ := List.append_of_mem hc
  cases hs : s.server with
  | receiving => exact served_of_receiving hA hwait hs hq
  | processing d =>
    have hcapture := step_processing hA hs
    refine served_of_step hcapture rfl ?_
    exact served_of_receiving (addressed_step hA hcapture) hwait rfl hq

theorem served_of_keepAlive (hA : Addressed s) {c : C} (hwait : s.client c = .waiting)
    (hc : c ∈ s.keepAlives) : Served s c := by
  obtain ⟨k, rest, hk, _⟩ := exists_takeAt (List.perm_cons_erase hc)
  have hstep : step s (.arriveKeepAlive k) = some { s with
      keepAlives := rest, serverQueue := s.serverQueue ++ [c] } := by
    simp only [step, hk, Option.map_some]
  refine served_of_step hstep rfl (served_of_queue ?_ hwait ?_)
  · exact hA
  · exact List.mem_append_right _ List.mem_cons_self

/-- A waiting client with a token. -/
theorem served_of_tokens (hA : Addressed s) {c : C} (hwait : s.client c = .waiting)
    (hpos : 0 < tokens s c) : Served s c := by
  by_contra hnot
  have hdead : Deadlocked s c := by
    refine ⟨hwait, fun hc => ?_, fun hc => ?_, fun hs => ?_, fun f hf hdest => ?_, ?_⟩
    · exact hnot (served_of_keepAlive hA hwait hc)
    · exact hnot (served_of_queue hA hwait hc)
    · exact hnot (served_of_processing hA hwait hs)
    · exact hnot (served_of_frame hwait hf hdest)
    · by_contra hin
      exact hnot (served_of_inbox hwait hin)
  have hzero := (deadlocked_iff.mp hdead).2
  omega

theorem served_of_top (hA : Addressed s) {c : C} (htop : s.client c = .top) : Served s c := by
  have hstep : step s (.keepAlive c) = some { s with
      client := Function.update s.client c .waiting
      keepAlives := s.keepAlives ++ [c]
      sent := Function.update s.sent c (s.sent c + 1) } := by
    simp only [step, if_pos htop]
  refine served_of_step hstep rfl (served_of_keepAlive ?_ (Function.update_self _ _ _) ?_)
  · exact hA
  · exact List.mem_append_right _ List.mem_cons_self

/-! ## The last frame -/

/-- A client that is done, or deadlocked. -/
def Over (s : Sys C) (c : C) : Prop := s.client c = .done ∨ Deadlocked s c

theorem over_step (hA : Addressed s) {a : Act C} (h : step s a = some t) {c : C}
    (hover : Over s c) : Over t c ∧ t.received c = s.received c := by
  have hk : a ≠ .keepAlive c := by
    rintro rfl
    have htop := (step_keepAlive h).1
    rcases hover with hdone | hdead
    · rw [htop] at hdone
      cases hdone
    · have hwait := hdead.1
      rw [htop] at hwait
      cases hwait
  have hr : ∀ quit, a ≠ .receive c quit := by
    rintro quit rfl
    obtain ⟨f, rest, hwait, hin, _⟩ := step_receive h
    rcases hover with hdone | hdead
    · rw [hwait] at hdone
      cases hdone
    · rw [hdead.2.2.2.2.2] at hin
      cases hin
  obtain ⟨hphase, _, hreceived⟩ := client_step h hk hr
  refine ⟨hover.imp (fun hdone => hphase.trans hdone) fun hdead => ?_, hreceived⟩
  exact deadlocked_step hA h hdead

theorem not_served_of_over (hA : Addressed s) {c : C} (hover : Over s c) : ¬ Served s c := by
  rintro ⟨t, hreach, hlt⟩
  have h := (session C).reachable_inv
    (I := fun u => Addressed u ∧ Over u c ∧ u.received c = s.received c)
    (fun _ _ _ hI hst => ⟨addressed_step hI.1 hst, (over_step hI.1 hst hI.2.1).1,
      (over_step hI.1 hst hI.2.1).2.trans hI.2.2⟩)
    ⟨hA, hover, rfl⟩ hreach
  rw [h.2.2] at hlt
  exact Nat.lt_irrefl _ hlt

/-! ## Every reachable state -/

/-- **Progress.** In every state that any number of clients, the server and the network can reach, a
    client can still receive a frame exactly if it has not quit and is not deadlocked. What happened
    to the others does not matter: their lost datagrams block nobody else. -/
theorem served_iff (acts : List (Act C)) (s : Sys C)
    (h : (session C).run (Sys.init C) acts = some s) (c : C) :
    Served s c ↔ s.client c ≠ .done ∧ ¬ Deadlocked s c := by
  have hA : Addressed s :=
    (session C).run_inv (fun _ _ _ hI hst => addressed_step hI hst) addressed_init h
  constructor
  · intro hserved
    exact ⟨fun hdone => not_served_of_over hA (.inl hdone) hserved,
      fun hdead => not_served_of_over hA (.inr hdead) hserved⟩
  · rintro ⟨hdone, hdead⟩
    cases hphase : s.client c with
    | top => exact served_of_top hA hphase
    | waiting =>
      refine served_of_tokens hA hphase (Nat.pos_of_ne_zero fun hzero => ?_)
      exact hdead (deadlocked_iff.mpr ⟨hphase, hzero⟩)
    | done => exact absurd hphase hdone

/-- The keep-alive of the one client is lost, that of the other waits in the server's socket. -/
def lostBeside : List (Act Bool) :=
  [.keepAlive false, .keepAlive true, .loseKeepAlive 0, .arriveKeepAlive 0]

theorem lostBeside_served :
    ∃ s, (session Bool).run (Sys.init Bool) lostBeside = some s ∧
      (Served s true ↔ s.client true ≠ .done ∧ ¬ Deadlocked s true) := by
  obtain ⟨s, hs⟩ := Option.isSome_iff_exists.mp
    (by decide : ((session Bool).run (Sys.init Bool) lostBeside).isSome = true)
  exact ⟨s, hs, served_iff lostBeside s hs true⟩

end NetLab.Video
