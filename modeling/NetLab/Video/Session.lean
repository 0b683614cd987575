/-
  The video session: the streaming loop of client.cpp (lines 100-116), videoserver.cpp (lines 48-69)
  and the network between them.

  A client sends a keep-alive and waits in `recvfrom` for a frame; its socket has no timeout. The
  server takes a keep-alive, captures a frame and sends it to the address the keep-alive came from,
  or sends nothing: if the capture is empty, if the encoding is, or if the datagram is too large.
  There is any number of clients, told apart by their addresses. The network delays and loses
  datagrams and takes them in any order.

  `Frame.trigger`, the argument of `processing`, `sent` and `received` are not read by any step.

  * `tokens s c`: the datagrams of client `c` in either direction, and the server's pass for it.
  * `tokens_step`: a step moves a token of `c`, loses it (`lost`), or is the client's own, which
    makes one or uses it up.
-/
import NetLab.Lib.Bytes
import NetLab.Lib.Machine
import NetLab.Lib.Network

namespace NetLab.Video

open NetLab.Lib

/-! ## States -/

inductive ClientPhase where
  /-- About to send a keep-alive. -/
  | top
  /-- In `recvfrom`. -/
  | waiting
  /-- The loop has ended on `x`. -/
  | done
deriving DecidableEq, Repr

inductive ServerPhase (C : Type) where
  /-- In `recvfrom`. -/
  | receiving
  /-- Past it, with a keep-alive of `trigger`. -/
  | processing (trigger : C)
deriving DecidableEq, Repr

structure Frame (C : Type) where
  dest : C
  /-- The client whose keep-alive the frame answers. -/
  trigger : C
  bytes : Bytes
deriving DecidableEq, Repr

structure Sys (C : Type) where
  client : C → ClientPhase
  server : ServerPhase C
  /-- What the last `recvfrom` of the server has written there. -/
  clientAddress : Option C
  /-- Keep-alives in flight, by their sender, and in the server's socket. -/
  keepAlives : List C
  serverQueue : List C
  /-- Frames in flight, and in the sockets of the clients. -/
  frames : List (Frame C)
  inbox : C → List (Frame C)
  /-- Keep-alives sent and frames received. -/
  sent : C → Nat
  received : C → Nat

def Sys.init (C : Type) : Sys C :=
  ⟨fun _ => .top, .receiving, none, [], [], [], fun _ => [], fun _ => 0, fun _ => 0⟩

/-! ## Steps -/

inductive Act (C : Type) where
  | keepAlive (c : C)
  | receive (c : C) (quit : Bool)
  | serverRecv
  | serverTimeout
  /-- A capture: `none` for an empty frame, else its encoding. -/
  | capture (encoded_img : Option Bytes)
  | arriveKeepAlive (k : Nat)
  | arriveFrame (k : Nat)
  | loseKeepAlive (k : Nat)
  | loseFrame (k : Nat)
deriving DecidableEq, Repr

/-- The capture makes a datagram that `sendto` sends. -/
def Sendable (encoded_img : Option Bytes) : Prop :=
  ∃ b ∈ encoded_img, b ≠ [] ∧ b.length ≤ maxDatagram

instance (encoded_img : Option Bytes) : Decidable (Sendable encoded_img) :=
  match encoded_img with
  | none => isFalse nofun
  | some b => decidable_of_iff (b ≠ [] ∧ b.length ≤ maxDatagram) (by simp [Sendable])

variable {C : Type} [DecidableEq C]

/-- The rest of the server's pass after `recvfrom`. -/
def Sys.capture (s : Sys C) (trigger addr : C) (encoded_img : Option Bytes) : Sys C :=
  { s with
    server := .receiving
    frames := if Sendable encoded_img then s.frames ++ [⟨addr, trigger, encoded_img.getD []⟩]
      else s.frames }

/-- The client reads `f`: a frame that is not empty is shown, and `x` ends the loop. -/
def Sys.receive (s : Sys C) (c : C) (quit : Bool) (f : Frame C) (rest : List (Frame C)) : Sys C :=
  { s with
    client := Function.update s.client c (if f.bytes ≠ [] ∧ quit = true then .done else .top)
    inbox := Function.update s.inbox c rest
    received := Function.update s.received c (s.received c + 1) }

def step (s : Sys C) : Act C → Option (Sys C)
  | .keepAlive c =>
    if s.client c = .top then
      some { s with
        client := Function.update s.client c .waiting
        keepAlives := s.keepAlives ++ [c]
        sent := Function.update s.sent c (s.sent c + 1) }
    else none
  | .receive c quit =>
    match s.client c, s.inbox c with
    | .waiting, f :: rest => some (s.receive c quit f rest)
    | _, _ => none
  | .serverRecv =>
    match s.server, s.serverQueue with
    | .receiving, c :: rest =>
      some { s with server := .processing c, clientAddress := some c, serverQueue := rest }
    | _, _ => none
  | .serverTimeout =>
    -- `SO_RCVTIMEO`: `n < 0`, and the loop starts over
    match s.server, s.serverQueue with
    | .receiving, [] => some s
    | _, _ => none
  | .capture encoded_img =>
    match s.server, s.clientAddress with
    | .processing trigger, some addr => some (s.capture trigger addr encoded_img)
    | _, _ => none
  | .arriveKeepAlive k =>
    (takeAt k s.keepAlives).map fun p =>
      { s with keepAlives := p.2, serverQueue := s.serverQueue ++ [p.1] }
  | .arriveFrame k =>
    (takeAt k s.frames).map fun p =>
      { s with
        frames := p.2
        inbox := Function.update s.inbox p.1.dest (s.inbox p.1.dest ++ [p.1]) }
  | .loseKeepAlive k => (lose k s.keepAlives).map fun l => { s with keepAlives := l }
  | .loseFrame k => (lose k s.frames).map fun l => { s with frames := l }

def session (C : Type) [DecidableEq C] : Machine (Sys C) (Act C) := ⟨step⟩

/-! ## What each step can do -/

variable {s t : Sys C}

theorem step_keepAlive {c : C} (h : step s (.keepAlive c) = some t) :
    s.client c = .top ∧
      t = { s with
        client := Function.update s.client c .waiting
        keepAlives := s.keepAlives ++ [c]
        sent := Function.update s.sent c (s.sent c + 1) } := by
  simp only [step, Option.ite_none_right_eq_some, Option.some.injEq] at h
  exact ⟨h.1, h.2.symm⟩

theorem step_receive {c : C} {quit : Bool} (h : step s (.receive c quit) = some t) :
    ∃ f rest, s.client c = .waiting ∧ s.inbox c = f :: rest ∧ t = s.receive c quit f rest := by
  simp only [step] at h
  split at h
  · rename_i f rest hc hin
    exact ⟨f, rest, hc, hin, (Option.some.inj h).symm⟩
  · cases h

theorem step_serverRecv (h : step s .serverRecv = some t) :
    ∃ c rest, s.server = .receiving ∧ s.serverQueue = c :: rest ∧
      t = { s with server := .processing c, clientAddress := some c, serverQueue := rest } := by
  simp only [step] at h
  split at h
  · rename_i c rest hs hq
    exact ⟨c, rest, hs, hq, (Option.some.inj h).symm⟩
  · cases h

theorem step_serverTimeout (h : step s .serverTimeout = some t) : t = s := by
  simp only [step] at h
  split at h
  · exact (Option.some.inj h).symm
  · cases h

theorem step_capture {encoded_img : Option Bytes} (h : step s (.capture encoded_img) = some t) :
    ∃ trigger addr, s.server = .processing trigger ∧ s.clientAddress = some addr ∧
      t = s.capture trigger addr encoded_img := by
  simp only [step] at h
  split at h
  · rename_i trigger addr hs ha
    exact ⟨trigger, addr, hs, ha, (Option.some.inj h).symm⟩
  · cases h

theorem step_arriveKeepAlive {k : Nat} (h : step s (.arriveKeepAlive k) = some t) :
    ∃ c rest, takeAt k s.keepAlives = some (c, rest) ∧
      t = { s with keepAlives := rest, serverQueue := s.serverQueue ++ [c] } := by
  simp only [step, Option.map_eq_some_iff] at h
  obtain ⟨⟨c, rest⟩, hk, rfl⟩ := h
  exact ⟨c, rest, hk, rfl⟩

theorem step_arriveFrame {k : Nat} (h : step s (.arriveFrame k) = some t) :
    ∃ f rest, takeAt k s.frames = some (f, rest) ∧
      t = { s with
        frames := rest
        inbox := Function.update s.inbox f.dest (s.inbox f.dest ++ [f]) } := by
  simp only [step, Option.map_eq_some_iff] at h
  obtain ⟨⟨f, rest⟩, hk, rfl⟩ := h
  exact ⟨f, rest, hk, rfl⟩

theorem step_loseKeepAlive {k : Nat} (h : step s (.loseKeepAlive k) = some t) :
    ∃ c rest, takeAt k s.keepAlives = some (c, rest) ∧ t = { s with keepAlives := rest } := by
  simp only [step, Option.map_eq_some_iff] at h
  obtain ⟨rest, hk, rfl⟩ := h
  obtain ⟨c, hc⟩ := lose_eq_some.mp hk
  exact ⟨c, rest, hc, rfl⟩

theorem step_loseFrame {k : Nat} (h : step s (.loseFrame k) = some t) :
    ∃ f rest, takeAt k s.frames = some (f, rest) ∧ t = { s with frames := rest } := by
  simp only [step, Option.map_eq_some_iff] at h
  obtain ⟨rest, hk, rfl⟩ := h
  obtain ⟨f, hf⟩ := lose_eq_some.mp hk
  exact ⟨f, rest, hf, rfl⟩

/-! ## Tokens -/

/-- The keep-alives and frames of `c` on their way, and the server's pass for it. -/
def tokens (s : Sys C) (c : C) : Nat :=
  s.keepAlives.countP (· = c) + s.serverQueue.countP (· = c) +
    (if s.server = .processing c then 1 else 0) +
    s.frames.countP (·.dest = c) + (s.inbox c).length

/-- The client whose token the action takes out of the session. -/
def lost (s : Sys C) : Act C → Option C
  | .loseKeepAlive k => s.keepAlives[k]?
  | .loseFrame k => s.frames[k]?.map Frame.dest
  | .capture encoded_img =>
    match s.server with
    | .processing trigger => if Sendable encoded_img then none else some trigger
    | .receiving => none
  | _ => none

/-- The server processes a keep-alive of the client whose address it holds. -/
def Addressed (s : Sys C) : Prop := ∀ c, s.server = .processing c → s.clientAddress = some c

omit [DecidableEq C] in
theorem addressed_init : Addressed (Sys.init C) := fun _ h => by cases h

theorem addressed_step (hA : Addressed s) {a : Act C} (h : step s a = some t) : Addressed t := by
  cases a with
  | keepAlive c =>
    obtain ⟨_, rfl⟩ := step_keepAlive h
    exact hA
  | receive c quit =>
    obtain ⟨f, rest, _, _, rfl⟩ := step_receive h
    exact hA
  | serverRecv =>
    obtain ⟨c, rest, _, _, rfl⟩ := step_serverRecv h
    intro d hd
    rw [ServerPhase.processing.inj hd]
  | serverTimeout => exact step_serverTimeout h ▸ hA
  | capture encoded_img =>
    obtain ⟨trigger, addr, _, _, rfl⟩ := step_capture h
    exact nofun
  | arriveKeepAlive k =>
    obtain ⟨c, rest, _, rfl⟩ := step_arriveKeepAlive h
    exact hA
  | arriveFrame k =>
    obtain ⟨f, rest, _, rfl⟩ := step_arriveFrame h
    exact hA
  | loseKeepAlive k =>
    obtain ⟨c, rest, _, rfl⟩ := step_loseKeepAlive h
    exact hA
  | loseFrame k =>
    obtain ⟨f, rest, _, rfl⟩ := step_loseFrame h
    exact hA

/-- The step is not one of `c`'s own: its tokens move, but for the one that is lost. -/
def Moves (s : Sys C) (a : Act C) (t : Sys C) (c : C) : Prop :=
  t.client c = s.client c ∧ tokens t c + (if lost s a = some c then 1 else 0) = tokens s c

/-- `c` sends a keep-alive. -/
def Makes (s : Sys C) (a : Act C) (t : Sys C) (c : C) : Prop :=
  s.client c = .top ∧ t.client c = .waiting ∧ tokens t c = tokens s c + 1 ∧ lost s a = none

/-- `c` receives a frame. -/
def Uses (s : Sys C) (a : Act C) (t : Sys C) (c : C) : Prop :=
  s.client c = .waiting ∧ t.client c ≠ .waiting ∧ tokens s c = tokens t c + 1 ∧ lost s a = none

theorem tokens_keepAlive {d : C} (h : step s (.keepAlive d) = some t) (c : C) :
    Moves s (.keepAlive d) t c ∨ Makes s (.keepAlive d) t c := by
  obtain ⟨htop, rfl⟩ := step_keepAlive h
  by_cases hc : c = d
  · right
    subst hc
    refine ⟨htop, Function.update_self _ _ _, ?_, rfl⟩
    unfold tokens
    simp only [List.countP_append, List.countP_singleton, decide_true, if_true]
    omega
  · left
    refine ⟨Function.update_of_ne hc _ _, ?_⟩
    unfold tokens lost
    simp only [List.countP_append, List.countP_singleton, decide_eq_true_eq, Ne.symm hc, if_false,
      reduceCtorEq]
    omega

theorem tokens_receive {d : C} {quit : Bool} (h : step s (.receive d quit) = some t) (c : C) :
    Moves s (.receive d quit) t c ∨ Uses s (.receive d quit) t c := by
  obtain ⟨f, rest, hwait, hin, rfl⟩ := step_receive h
  by_cases hc : c = d
  · right
    subst hc
    refine ⟨hwait, ?_, ?_, rfl⟩
    · unfold Sys.receive
      dsimp only
      rw [Function.update_self]
      split <;> nofun
    · unfold tokens Sys.receive
      dsimp only
      rw [Function.update_self, hin, List.length_cons]
      omega
  · left
    refine ⟨Function.update_of_ne hc _ _, ?_⟩
    unfold tokens lost Sys.receive
    dsimp only
    rw [Function.update_of_ne hc]
    rfl

theorem tokens_serverRecv (h : step s .serverRecv = some t) (c : C) :
    Moves s .serverRecv t c := by
  obtain ⟨d, rest, hs, hq, rfl⟩ := step_serverRecv h
  refine ⟨rfl, ?_⟩
  unfold tokens lost
  rw [hs, hq]
  simp only [List.countP_cons, decide_eq_true_eq, ServerPhase.processing.injEq, reduceCtorEq,
    if_false]
  omega

theorem tokens_capture (hA : Addressed s) {encoded_img : Option Bytes}
    (h : step s (.capture encoded_img) = some t) (c : C) : Moves s (.capture encoded_img) t c := by
  obtain ⟨trigger, addr, hs, ha, rfl⟩ := step_capture h
  obtain rfl : addr = trigger := Option.some.inj (ha.symm.trans (hA trigger hs))
  refine ⟨rfl, ?_⟩
  unfold tokens lost Sys.capture
  rw [hs]
  by_cases hsend : Sendable encoded_img
  · simp only [hsend, if_true, List.countP_append, List.countP_singleton, decide_eq_true_eq,
      ServerPhase.processing.injEq, reduceCtorEq, if_false]
    omega
  · simp only [hsend, ServerPhase.processing.injEq, Option.some.injEq, reduceCtorEq, if_false]
    omega

theorem tokens_arriveKeepAlive {k : Nat} (h : step s (.arriveKeepAlive k) = some t) (c : C) :
    Moves s (.arriveKeepAlive k) t c := by
  obtain ⟨d, rest, hk, rfl⟩ := step_arriveKeepAlive h
  have hcount := countP_takeAt hk fun d => decide (d = c)
  refine ⟨rfl, ?_⟩
  unfold tokens lost
  simp only [List.countP_append, List.countP_singleton, decide_eq_true_eq, reduceCtorEq,
    if_false] at hcount ⊢
  omega

theorem tokens_arriveFrame {k : Nat} (h : step s (.arriveFrame k) = some t) (c : C) :
    Moves s (.arriveFrame k) t c := by
  obtain ⟨f, rest, hk, rfl⟩ := step_arriveFrame h
  have hcount := countP_takeAt hk fun f => decide (f.dest = c)
  refine ⟨rfl, ?_⟩
  unfold tokens lost
  dsimp only
  by_cases hc : f.dest = c
  · subst hc
    simp only [decide_true, if_true] at hcount
    rw [Function.update_self, List.length_append, List.length_singleton]
    simp only [reduceCtorEq, if_false]
    omega
  · simp only [hc, decide_false, Bool.false_eq_true, if_false] at hcount
    rw [Function.update_of_ne (Ne.symm hc)]
    simp only [reduceCtorEq, if_false]
    omega

theorem tokens_loseKeepAlive {k : Nat} (h : step s (.loseKeepAlive k) = some t) (c : C) :
    Moves s (.loseKeepAlive k) t c := by
  obtain ⟨d, rest, hk, rfl⟩ := step_loseKeepAlive h
  have hcount := countP_takeAt hk fun d => decide (d = c)
  have hlost : lost s (.loseKeepAlive k) = some d := (takeAt_eq_some.mp hk).1
  refine ⟨rfl, ?_⟩
  rw [hlost]
  unfold tokens
  simp only [decide_eq_true_eq, Option.some.injEq] at hcount ⊢
  omega

theorem tokens_loseFrame {k : Nat} (h : step s (.loseFrame k) = some t) (c : C) :
    Moves s (.loseFrame k) t c := by
  obtain ⟨f, rest, hk, rfl⟩ := step_loseFrame h
  have hcount := countP_takeAt hk fun f => decide (f.dest = c)
  have hlost : lost s (.loseFrame k) = some f.dest :=
    congrArg (Option.map Frame.dest) (takeAt_eq_some.mp hk).1
  refine ⟨rfl, ?_⟩
  rw [hlost]
  unfold tokens
  simp only [decide_eq_true_eq, Option.some.injEq] at hcount ⊢
  omega

/-- **What a step does to the tokens of a client.** -/
theorem tokens_step (hA : Addressed s) {a : Act C} (h : step s a = some t) (c : C) :
    Moves s a t c ∨ Makes s a t c ∨ Uses s a t c := by
  cases a with
  | keepAlive d => exact (tokens_keepAlive h c).imp_right .inl
  | receive d quit => exact (tokens_receive h c).imp_right .inr
  | serverRecv => exact .inl (tokens_serverRecv h c)
  | serverTimeout =>
    obtain rfl := step_serverTimeout h
    exact .inl ⟨rfl, rfl⟩
  | capture encoded_img => exact .inl (tokens_capture hA h c)
  | arriveKeepAlive k => exact .inl (tokens_arriveKeepAlive h c)
  | arriveFrame k => exact .inl (tokens_arriveFrame h c)
  | loseKeepAlive k => exact .inl (tokens_loseKeepAlive h c)
  | loseFrame k => exact .inl (tokens_loseFrame h c)

end NetLab.Video
