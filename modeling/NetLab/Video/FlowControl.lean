/-
  Flow control of the video session.

  A client sends its next keep-alive only after it has received a frame, and the server sends one
  frame at most for a keep-alive. So a client never has more than one token in the session, whatever
  the other clients do in between, and it cannot receive more often than it has sent. The server
  keeps one `clientAddress` for all clients; it is written by every `recvfrom` and read in the same
  pass only, so the frame goes to the client whose keep-alive the pass has taken (`Addressed`).

  * `flowControl_step`: what one step of any party preserves.
  * `flowControlled`: in every reachable state, of any number of clients, each client has at most
    one token, none when it is about to send; every frame is addressed to the client that asked for
    it; no client has received more frames than it has sent keep-alives.
-/
import NetLab.Video.Session

namespace NetLab.Video

open NetLab.Lib

variable {C : Type} [DecidableEq C] {s t : Sys C}

/-! ## The invariant -/

/-- A frame is addressed to the client whose keep-alive it answers. -/
def Frame.Answers (f : Frame C) : Prop := f.dest = f.trigger

structure FlowControl (s : Sys C) : Prop where
  addressed : Addressed s
  /-- Only a waiting client has a token, and one at most. -/
  token : ∀ c, tokens s c ≤ if s.client c = .waiting then 1 else 0
  flight : ∀ f ∈ s.frames, f.Answers
  inbox : ∀ c, ∀ f ∈ s.inbox c, f.Answers ∧ f.dest = c
  /-- Each frame received, and each token left, was paid for with a keep-alive. -/
  balance : ∀ c, s.received c + tokens s c ≤ s.sent c

theorem flowControl_init : FlowControl (Sys.init C) where
  addressed := addressed_init
  token _ := Nat.zero_le _
  flight := nofun
  inbox _ := nofun
  balance _ := Nat.le_refl 0

/-! ## What each step preserves -/

/-- A step makes a token only for a client that starts to wait, and the client that stops waiting
    uses one up. -/
theorem token_step (hA : Addressed s)
    (htoken : ∀ c, tokens s c ≤ if s.client c = .waiting then 1 else 0) {a : Act C}
    (h : step s a = some t) (c : C) : tokens t c ≤ if t.client c = .waiting then 1 else 0 := by
  have hc := htoken c
  rcases tokens_step hA h c with
    ⟨hphase, hcount⟩ | ⟨htop, hwait, hcount, _⟩ | ⟨hwait, _, hcount, _⟩
  · rw [hphase]
    omega
  · rw [htop, if_neg nofun] at hc
    rw [hwait, if_pos rfl]
    omega
  · rw [hwait, if_pos rfl] at hc
    omega

/-- A client goes on, and is counted, in its own steps only. -/
theorem client_step {a : Act C} (h : step s a = some t) {c : C} (hk : a ≠ .keepAlive c)
    (hr : ∀ quit, a ≠ .receive c quit) :
    t.client c = s.client c ∧ t.sent c = s.sent c ∧ t.received c = s.received c := by
  cases a with
  | keepAlive d =>
    obtain ⟨_, rfl⟩ := step_keepAlive h
    have hne : c ≠ d := fun he => hk (he ▸ rfl)
    exact ⟨Function.update_of_ne hne _ _, Function.update_of_ne hne _ _, rfl⟩
  | receive d quit =>
    obtain ⟨f, rest, _, _, rfl⟩ := step_receive h
    have hne : c ≠ d := fun he => hr quit (he ▸ rfl)
    exact ⟨Function.update_of_ne hne _ _, rfl, Function.update_of_ne hne _ _⟩
  | serverRecv =>
    obtain ⟨d, rest, _, _, rfl⟩ := step_serverRecv h
    exact ⟨rfl, rfl, rfl⟩
  | serverTimeout =>
    rw [step_serverTimeout h]
    exact ⟨rfl, rfl, rfl⟩
  | capture encoded_img =>
    obtain ⟨trigger, addr, _, _, rfl⟩ := step_capture h
    exact ⟨rfl, rfl, rfl⟩
  | arriveKeepAlive k =>
    obtain ⟨d, rest, _, rfl⟩ := step_arriveKeepAlive h
    exact ⟨rfl, rfl, rfl⟩
  | arriveFrame k =>
    obtain ⟨f, rest, _, rfl⟩ := step_arriveFrame h
    exact ⟨rfl, rfl, rfl⟩
  | loseKeepAlive k =>
    obtain ⟨d, rest, _, rfl⟩ := step_loseKeepAlive h
    exact ⟨rfl, rfl, rfl⟩
  | loseFrame k =>
    obtain ⟨f, rest, _, rfl⟩ := step_loseFrame h
    exact ⟨rfl, rfl, rfl⟩

/-- A client pays for a token with a keep-alive, and for a frame with a token. -/
theorem balance_step (hA : Addressed s) {a : Act C} (h : step s a = some t) {c : C}
    (hc : s.received c + tokens s c ≤ s.sent c) : t.received c + tokens t c ≤ t.sent c := by
  by_cases hk : a = .keepAlive c
  · subst hk
    obtain ⟨_, ht⟩ := step_keepAlive h
    have hsent : t.sent c = s.sent c + 1 := by rw [ht]; exact Function.update_self c _ _
    have hreceived : t.received c = s.received c := by rw [ht]
    rcases tokens_keepAlive h c with ⟨_, hcount⟩ | ⟨_, _, hcount, _⟩ <;> omega
  · by_cases hr : ∃ quit, a = .receive c quit
    · obtain ⟨quit, rfl⟩ := hr
      obtain ⟨f, rest, hwait, _, ht⟩ := step_receive h
      have hsent : t.sent c = s.sent c := by rw [ht]; rfl
      have hreceived : t.received c = s.received c + 1 := by
        rw [ht]
        exact Function.update_self c _ _
      rcases tokens_receive h c with ⟨hphase, _⟩ | ⟨_, _, hcount, _⟩
      · -- the client does not wait any more
        rw [hwait, ht] at hphase
        simp only [Sys.receive, Function.update_self] at hphase
        split at hphase <;> cases hphase
      · omega
    · obtain ⟨hphase, hsent, hreceived⟩ := client_step h hk fun quit he => hr ⟨quit, he⟩
      rcases tokens_step hA h c with ⟨_, hcount⟩ | ⟨htop, hwait, _⟩ | ⟨_, _, hcount, _⟩
      · omega
      · rw [hphase, htop] at hwait
        cases hwait
      · omega

/-- Where a frame comes from: a new one goes to the client the server has taken a keep-alive of, and
    one in a client's socket was on its way to that client. -/
theorem frames_step (hA : Addressed s) {a : Act C} (h : step s a = some t) :
    (∀ f ∈ t.frames, f ∈ s.frames ∨ f.Answers) ∧
      ∀ c, ∀ f ∈ t.inbox c, f ∈ s.inbox c ∨ f ∈ s.frames ∧ f.dest = c := by
  cases a with
  | keepAlive c =>
    obtain ⟨_, rfl⟩ := step_keepAlive h
    exact ⟨fun f hf => .inl hf, fun c f hf => .inl hf⟩
  | receive d quit =>
    obtain ⟨g, rest, _, hin, rfl⟩ := step_receive h
    refine ⟨fun f hf => .inl hf, fun c f hf => .inl ?_⟩
    by_cases hc : c = d
    · subst hc
      rw [hin]
      exact List.mem_cons_of_mem g (Function.update_self c rest s.inbox ▸ hf)
    · exact Function.update_of_ne hc rest s.inbox ▸ hf
  | serverRecv =>
    obtain ⟨c, rest, _, _, rfl⟩ := step_serverRecv h
    exact ⟨fun f hf => .inl hf, fun c f hf => .inl hf⟩
  | serverTimeout =>
    obtain rfl := step_serverTimeout h
    exact ⟨fun f hf => .inl hf, fun c f hf => .inl hf⟩
  | capture encoded_img =>
    obtain ⟨trigger, addr, hs, ha, rfl⟩ := step_capture h
    have haddr : addr = trigger := Option.some.inj (ha.symm.trans (hA trigger hs))
    refine ⟨fun f hf => ?_, fun c f hf => .inl hf⟩
    simp only [Sys.capture] at hf
    split at hf
    · rcases List.mem_append.mp hf with hf | hf
      · exact .inl hf
      · rw [List.mem_singleton.mp hf]
        exact .inr haddr
    · exact .inl hf
  | arriveKeepAlive k =>
    obtain ⟨c, rest, _, rfl⟩ := step_arriveKeepAlive h
    exact ⟨fun f hf => .inl hf, fun c f hf => .inl hf⟩
  | arriveFrame k =>
    obtain ⟨g, rest, hk, rfl⟩ := step_arriveFrame h
    refine ⟨fun f hf => .inl (mem_of_mem_rest hk hf), fun c f hf => ?_⟩
    by_cases hc : c = g.dest
    · subst hc
      simp only [Function.update_self] at hf
      rcases List.mem_append.mp hf with hf | hf
      · exact .inl hf
      · rw [List.mem_singleton.mp hf]
        exact .inr ⟨mem_of_takeAt hk, rfl⟩
    · exact .inl (Function.update_of_ne hc _ s.inbox ▸ hf)
  | loseKeepAlive k =>
    obtain ⟨c, rest, _, rfl⟩ := step_loseKeepAlive h
    exact ⟨fun f hf => .inl hf, fun c f hf => .inl hf⟩
  | loseFrame k =>
    obtain ⟨g, rest, hk, rfl⟩ := step_loseFrame h
    exact ⟨fun f hf => .inl (mem_of_mem_rest hk hf), fun c f hf => .inl hf⟩

/-- **One step of any party.** -/
theorem flowControl_step (hF : FlowControl s) {a : Act C} (h : step s a = some t) :
    FlowControl t where
  addressed := addressed_step hF.addressed h
  token := token_step hF.addressed hF.token h
  flight f hf := ((frames_step hF.addressed h).1 f hf).elim (hF.flight f) id
  inbox c f hf := ((frames_step hF.addressed h).2 c f hf).elim (hF.inbox c f)
    fun hflight => ⟨hF.flight f hflight.1, hflight.2⟩
  balance c := balance_step hF.addressed h (hF.balance c)

/-! ## Every run -/

/-- **Flow control.** In every state any number of clients, the server and the network can reach,
    each client has one token at most and none when it is about to send, every frame goes to the
    client that asked for it, and no client has received more than it has asked for. -/
theorem flowControlled (acts : List (Act C)) (s : Sys C)
    (h : (session C).run (Sys.init C) acts = some s) :
    (∀ c, tokens s c ≤ 1 ∧ (s.client c = .top → tokens s c = 0)) ∧
      (∀ f ∈ s.frames, f.Answers) ∧ (∀ c, ∀ f ∈ s.inbox c, f.Answers ∧ f.dest = c) ∧
      ∀ c, s.received c ≤ s.sent c := by
  have hF : FlowControl s :=
    (session C).run_inv (fun _ _ _ hI hst => flowControl_step hI hst) flowControl_init h
  refine ⟨fun c => ⟨?_, fun htop => ?_⟩, hF.flight, hF.inbox, fun c => ?_⟩
  · refine (hF.token c).trans ?_
    split
    · exact Nat.le_refl 1
    · exact Nat.zero_le 1
  · have hc := hF.token c
    rw [htop, if_neg nofun] at hc
    exact Nat.le_zero.mp hc
  · exact (Nat.le_add_right _ _).trans (hF.balance c)

/-- Two clients: the server serves the second while the first is still waiting for its frame. -/
def twoClients : List (Act Bool) :=
  [.keepAlive false, .keepAlive true, .arriveKeepAlive 1, .serverRecv, .capture (some [255]),
    .arriveKeepAlive 0, .arriveFrame 0, .receive true false, .serverRecv, .keepAlive true,
    .capture (some [216]), .arriveFrame 0]

theorem twoClients_flowControlled :
    ∃ s, (session Bool).run (Sys.init Bool) twoClients = some s ∧
      (∀ c, tokens s c ≤ 1 ∧ (s.client c = .top → tokens s c = 0)) ∧
      (∀ f ∈ s.frames, f.Answers) ∧ (∀ c, ∀ f ∈ s.inbox c, f.Answers ∧ f.dest = c) ∧
      ∀ c, s.received c ≤ s.sent c := by
  obtain ⟨s, hs⟩ := Option.isSome_iff_exists.mp
    (by decide : ((session Bool).run (Sys.init Bool) twoClients).isSome = true)
  exact ⟨s, hs, flowControlled twoClients s hs⟩

end NetLab.Video
