/-
  What the clients of the video session get to see, and in which order.

  The network delays, overtakes and loses datagrams, and the clients share one server with one
  `clientAddress`. But a client asks for a frame only when it has read the last, so there is never
  more than one datagram that could be out of order.

  `Viewing` is the session with a record of the server's passes, of what was sent for each client
  and of what each has read. No step reads the record.

  * `delivery_step`: what one step of any party preserves of a client's record.
  * `delivered`: in every run each client reads what was sent for it, once and in order, up to the
    last datagram; and shows the pictures among these.
  * `fair`: while the keep-alive of a client is in the server's socket, the server makes at most one
    pass for each other client.
-/
import NetLab.Video.FlowControl

namespace NetLab.Video

open NetLab.Lib

variable {C : Type} [DecidableEq C] {s t : Sys C}

/-! ## The session with its record -/

structure Viewing (C : Type) where
  sys : Sys C
  /-- The client of each pass of the server. -/
  passes : List C
  /-- What `sendto` has sent for the keep-alives of each client. -/
  sent : C → List Bytes
  /-- What each client has read. -/
  read : C → List Bytes

def Viewing.init (C : Type) : Viewing C := ⟨Sys.init C, [], fun _ => [], fun _ => []⟩

/-- The record of an action. -/
def Viewing.note (v : Viewing C) : Act C → Viewing C
  | .serverRecv => { v with passes := v.passes ++ v.sys.serverQueue.head?.toList }
  | .capture encoded_img =>
    match v.sys.server with
    | .processing c =>
      if Sendable encoded_img then
        { v with sent := Function.update v.sent c (v.sent c ++ [encoded_img.getD []]) }
      else v
    | .receiving => v
  | .receive c _ =>
    { v with
      read := Function.update v.read c
        (v.read c ++ ((v.sys.inbox c).head?.map Frame.bytes).toList) }
  | _ => v

def viewingStep (v : Viewing C) (a : Act C) : Option (Viewing C) :=
  (step v.sys a).map fun t => { v.note a with sys := t }

def viewing (C : Type) [DecidableEq C] : Machine (Viewing C) (Act C) := ⟨viewingStep⟩

theorem viewingStep_eq_some {v w : Viewing C} {a : Act C} (h : viewingStep v a = some w) :
    step v.sys a = some w.sys ∧ w.passes = (v.note a).passes ∧ w.sent = (v.note a).sent ∧
      w.read = (v.note a).read := by
  simp only [viewingStep, Option.map_eq_some_iff] at h
  obtain ⟨t, ht, rfl⟩ := h
  exact ⟨ht, rfl, rfl, rfl⟩

/-- What is sent for a client is recorded in the passes for it only. -/
theorem note_sent (v : Viewing C) {a : Act C} {c : C}
    (h : ∀ encoded_img, a = .capture encoded_img → Sendable encoded_img →
      v.sys.server ≠ .processing c) : (v.note a).sent c = v.sent c := by
  cases a with
  | capture encoded_img =>
    simp only [Viewing.note]
    split
    · rename_i d hd
      split
      · rename_i hsend
        refine Function.update_of_ne (fun hc => ?_) _ _
        exact h encoded_img rfl hsend (hc ▸ hd)
      · rfl
    · rfl
  | _ => rfl

theorem note_read (v : Viewing C) {a : Act C} {c : C} (h : ∀ quit, a ≠ .receive c quit) :
    (v.note a).read c = v.read c := by
  cases a with
  | receive d quit =>
    have hne : c ≠ d := fun hc => h quit (hc ▸ rfl)
    exact Function.update_of_ne hne _ _
  | capture encoded_img =>
    simp only [Viewing.note]
    split
    · split <;> rfl
    · rfl
  | _ => rfl

/-! ## Requests and frames of one client -/

/-- The keep-alives of `c` that are not answered yet. -/
def requests (s : Sys C) (c : C) : Nat :=
  s.keepAlives.countP (· = c) + s.serverQueue.countP (· = c) +
    if s.server = .processing c then 1 else 0

/-- `f` is on its way to `c`, or in its socket. -/
def Coming (s : Sys C) (c : C) (f : Frame C) : Prop := f ∈ s.frames ∧ f.dest = c ∨ f ∈ s.inbox c

theorem tokens_eq (s : Sys C) (c : C) :
    tokens s c = requests s c + (s.frames.countP (·.dest = c) + (s.inbox c).length) := by
  unfold tokens requests
  omega

theorem Coming.pos {c : C} {f : Frame C} (h : Coming s c f) :
    0 < s.frames.countP (·.dest = c) + (s.inbox c).length := by
  rcases h with ⟨hf, hdest⟩ | hf
  · have hpos : 0 < s.frames.countP (·.dest = c) :=
      List.countP_pos_iff.mpr ⟨f, hf, decide_eq_true hdest⟩
    omega
  · have hpos := List.length_pos_of_mem hf
    omega

/-- Only `c` itself makes requests of `c`. -/
theorem requests_step {a : Act C} (h : step s a = some t) {c : C} (hk : a ≠ .keepAlive c) :
    requests t c ≤ requests s c := by
  cases a with
  | keepAlive d =>
    obtain ⟨_, rfl⟩ := step_keepAlive h
    have hne : d ≠ c := fun hd => hk (hd ▸ rfl)
    simp [requests, hne]
  | receive d quit =>
    obtain ⟨f, rest, _, _, rfl⟩ := step_receive h
    exact Nat.le_refl _
  | serverRecv =>
    obtain ⟨d, rest, hs, hq, rfl⟩ := step_serverRecv h
    unfold requests
    simp only [hs, hq, List.countP_cons, decide_eq_true_eq, ServerPhase.processing.injEq,
      reduceCtorEq, if_false]
    omega
  | serverTimeout =>
    obtain rfl := step_serverTimeout h
    exact Nat.le_refl _
  | capture encoded_img =>
    obtain ⟨trigger, addr, hs, _, rfl⟩ := step_capture h
    simp [requests, Sys.capture]
  | arriveKeepAlive k =>
    obtain ⟨d, rest, hd, rfl⟩ := step_arriveKeepAlive h
    have hcount := countP_takeAt hd fun d => decide (d = c)
    unfold requests
    simp only [List.countP_append, List.countP_singleton, decide_eq_true_eq] at hcount ⊢
    omega
  | arriveFrame k =>
    obtain ⟨f, rest, _, rfl⟩ := step_arriveFrame h
    exact Nat.le_refl _
  | loseKeepAlive k =>
    obtain ⟨d, rest, hd, rfl⟩ := step_loseKeepAlive h
    have hcount := countP_takeAt hd fun d => decide (d = c)
    unfold requests
    dsimp only
    omega
  | loseFrame k =>
    obtain ⟨f, rest, _, rfl⟩ := step_loseFrame h
    exact Nat.le_refl _

/-- A frame for `c` comes out of a pass for `c`. -/
theorem coming_step (hA : Addressed s) {a : Act C} (h : step s a = some t) {c : C} {f : Frame C}
    (hf : Coming t c f) : Coming s c f ∨ ∃ encoded_img, a = .capture encoded_img ∧
      Sendable encoded_img ∧ s.server = .processing c ∧ f.bytes = encoded_img.getD [] := by
  cases a with
  | keepAlive d =>
    obtain ⟨_, rfl⟩ := step_keepAlive h
    exact .inl hf
  | receive d quit =>
    obtain ⟨g, rest, _, hin, rfl⟩ := step_receive h
    refine .inl (hf.imp_right fun hmem => ?_)
    simp only [Sys.receive] at hmem
    by_cases hc : c = d
    · subst hc
      rw [Function.update_self] at hmem
      exact hin ▸ List.mem_cons_of_mem g hmem
    · exact Function.update_of_ne hc rest s.inbox ▸ hmem
  | serverRecv =>
    obtain ⟨d, rest, _, _, rfl⟩ := step_serverRecv h
    exact .inl hf
  | serverTimeout => exact .inl (step_serverTimeout h ▸ hf)
  | capture encoded_img =>
    obtain ⟨trigger, addr, hs, ha, rfl⟩ := step_capture h
    have haddr : addr = trigger := Option.some.inj (ha.symm.trans (hA trigger hs))
    rcases hf with ⟨hmem, hdest⟩ | hmem
    · simp only [Sys.capture] at hmem
      split at hmem
      · rename_i hsend
        rcases List.mem_append.mp hmem with hmem | hmem
        · exact .inl (.inl ⟨hmem, hdest⟩)
        · rw [List.mem_singleton.mp hmem] at hdest ⊢
          refine .inr ⟨encoded_img, rfl, hsend, ?_, rfl⟩
          rw [hs, ← haddr]
          exact congrArg _ hdest
      · exact .inl (.inl ⟨hmem, hdest⟩)
    · exact .inl (.inr hmem)
  | arriveKeepAlive k =>
    obtain ⟨d, rest, _, rfl⟩ := step_arriveKeepAlive h
    exact .inl hf
  | arriveFrame k =>
    obtain ⟨g, rest, hg, rfl⟩ := step_arriveFrame h
    left
    rcases hf with ⟨hmem, hdest⟩ | hmem
    · exact .inl ⟨mem_of_mem_rest hg hmem, hdest⟩
    · by_cases hc : c = g.dest
      · subst hc
        simp only [Function.update_self] at hmem
        rcases List.mem_append.mp hmem with hmem | hmem
        · exact .inr hmem
        · rw [List.mem_singleton.mp hmem]
          exact .inl ⟨mem_of_takeAt hg, rfl⟩
      · exact .inr (Function.update_of_ne hc _ s.inbox ▸ hmem)
  | loseKeepAlive k =>
    obtain ⟨d, rest, _, rfl⟩ := step_loseKeepAlive h
    exact .inl hf
  | loseFrame k =>
    obtain ⟨g, rest, hg, rfl⟩ := step_loseFrame h
    exact .inl (hf.imp_left fun hmem => ⟨mem_of_mem_rest hg hmem.1, hmem.2⟩)

/-! ## Delivery -/

/-- The record of `c`: what it has read is what was sent for it, but for the last datagram where
    that is on its way or lost. -/
structure Delivery (v : Viewing C) (c : C) : Prop where
  /-- A client that does not wait has read everything. -/
  idle : v.sys.client c ≠ .waiting → v.sent c = v.read c
  /-- So has one whose request is not answered yet. -/
  asked : 0 < requests v.sys c → v.sent c = v.read c
  /-- A frame that is coming is the next to read. -/
  coming : ∀ f, Coming v.sys c f → v.sent c = v.read c ++ [f.bytes]
  behind : v.sent c = v.read c ∨ ∃ b, v.sent c = v.read c ++ [b]

theorem Delivery.of_eq {v : Viewing C} {c : C} (h : v.sent c = v.read c)
    (hnone : ∀ f, ¬ Coming v.sys c f) : Delivery v c where
  idle _ := h
  asked _ := h
  coming f hf := absurd hf (hnone f)
  behind := .inl h

theorem delivery_init (c : C) : Delivery (Viewing.init C) c :=
  .of_eq rfl fun f hf => hf.elim (fun h => by cases h.1) fun h => by cases h

variable {v w : Viewing C}

/-- Without a token nothing is coming. -/
theorem not_coming_of_tokens {c : C} (h : tokens s c = 0) (f : Frame C) : ¬ Coming s c f := by
  intro hf
  have hpos := hf.pos
  rw [tokens_eq] at h
  omega

theorem delivery_keepAlive (hF : FlowControl v.sys) {c : C} (hD : Delivery v c)
    (h : viewingStep v (.keepAlive c) = some w) : Delivery w c := by
  obtain ⟨hstep, _, hsent, hread⟩ := viewingStep_eq_some h
  obtain ⟨htop, ht⟩ := step_keepAlive hstep
  have hzero : tokens v.sys c = 0 := by
    have hc := hF.token c
    rw [htop, if_neg nofun] at hc
    omega
  refine .of_eq ?_ fun f hf => ?_
  · rw [hsent, hread]
    exact hD.idle (htop ▸ nofun)
  · rw [ht] at hf
    exact not_coming_of_tokens hzero f hf

theorem delivery_receive (hF : FlowControl v.sys) {c : C} {quit : Bool} (hD : Delivery v c)
    (h : viewingStep v (.receive c quit) = some w) : Delivery w c := by
  obtain ⟨hstep, _, hsent, hread⟩ := viewingStep_eq_some h
  obtain ⟨f, rest, hwait, hin, ht⟩ := step_receive hstep
  have hnext := hD.coming f (.inr (hin ▸ List.mem_cons_self))
  have hzero : tokens w.sys c = 0 := by
    have hc := hF.token c
    rw [hwait, if_pos rfl] at hc
    rcases tokens_receive hstep c with ⟨hphase, _⟩ | ⟨_, _, hcount, _⟩
    · rw [hwait, ht] at hphase
      simp only [Sys.receive, Function.update_self] at hphase
      split at hphase <;> cases hphase
    · omega
  refine .of_eq ?_ (not_coming_of_tokens hzero)
  rw [hsent, hread]
  simp only [Viewing.note, Function.update_self, hin, List.head?_cons, Option.map_some,
    Option.toList_some]
  exact hnext

theorem delivery_capture (hF : FlowControl v.sys) {c : C} {encoded_img : Option Bytes}
    (hD : Delivery v c) (hc : v.sys.server = .processing c) (hsend : Sendable encoded_img)
    (h : viewingStep v (.capture encoded_img) = some w) : Delivery w c := by
  obtain ⟨hstep, _, hsent, hread⟩ := viewingStep_eq_some h
  obtain ⟨trigger, addr, hs, _, ht⟩ := step_capture hstep
  obtain rfl : trigger = c := ServerPhase.processing.inj (hs.symm.trans hc)
  have hasked : 0 < requests v.sys trigger := by
    unfold requests
    rw [if_pos hc]
    omega
  have heq := hD.asked hasked
  have hone := hF.token trigger
  have hsum := tokens_eq v.sys trigger
  have hwait : v.sys.client trigger = .waiting := by
    by_contra hnot
    rw [if_neg hnot] at hone
    omega
  rw [hwait, if_pos rfl] at hone
  have hnow : w.sent trigger = w.read trigger ++ [encoded_img.getD []] := by
    rw [hsent, hread]
    simp only [Viewing.note, hc, if_pos hsend, Function.update_self, heq]
  refine ⟨fun hnot => absurd ?_ hnot, fun hpos => absurd hpos ?_, fun f hf => ?_, .inr ⟨_, hnow⟩⟩
  · rw [ht]
    exact hwait
  · -- the one request was that of the pass
    rw [ht]
    unfold requests Sys.capture at *
    rw [if_pos hc] at hsum
    simp only [reduceCtorEq, if_false]
    omega
  · rcases coming_step hF.addressed hstep hf with hf | ⟨img, himg, _, _, hbytes⟩
    · have hpos := hf.pos
      omega
    · rw [hnow, hbytes, Act.capture.inj himg]

/-- **One step of any party** keeps the record of every client. -/
theorem delivery_step (hF : FlowControl v.sys) {a : Act C} {c : C} (hD : Delivery v c)
    (h : viewingStep v a = some w) : Delivery w c := by
  by_cases hk : a = .keepAlive c
  · subst hk
    exact delivery_keepAlive hF hD h
  by_cases hr : ∃ quit, a = .receive c quit
  · obtain ⟨quit, rfl⟩ := hr
    exact delivery_receive hF hD h
  by_cases hcap : ∃ encoded_img, a = .capture encoded_img ∧ Sendable encoded_img ∧
      v.sys.server = .processing c
  · obtain ⟨encoded_img, rfl, hsend, hc⟩ := hcap
    exact delivery_capture hF hD hc hsend h
  -- nothing is recorded of `c`, and what it has on its way can only get less
  obtain ⟨hstep, _, hsent, hread⟩ := viewingStep_eq_some h
  have hsent' : w.sent c = v.sent c := by
    rw [hsent]
    exact note_sent v fun img himg hsend hs => hcap ⟨img, himg, hsend, hs⟩
  have hread' : w.read c = v.read c := by
    rw [hread]
    exact note_read v fun quit he => hr ⟨quit, he⟩
  have hphase := (client_step hstep hk fun quit he => hr ⟨quit, he⟩).1
  have hrequests := requests_step hstep hk
  refine ⟨fun hnot => ?_, fun hpos => ?_, fun f hf => ?_, ?_⟩
  · rw [hsent', hread']
    exact hD.idle (hphase ▸ hnot)
  · rw [hsent', hread']
    exact hD.asked (by omega)
  · rw [hsent', hread']
    rcases coming_step hF.addressed hstep hf with hf | ⟨img, himg, hsend, hs, _⟩
    · exact hD.coming f hf
    · exact absurd ⟨img, himg, hsend, hs⟩ hcap
  · rw [hsent', hread']
    exact hD.behind

/-! ## Every run -/

theorem viewing_inv {acts : List (Act C)} (h : (viewing C).run (Viewing.init C) acts = some v) :
    FlowControl v.sys ∧ ∀ c, Delivery v c :=
  (viewing C).run_inv (I := fun v => FlowControl v.sys ∧ ∀ c, Delivery v c)
    (fun _ _ _ hI hst => ⟨flowControl_step hI.1 (viewingStep_eq_some hst).1,
      fun c => delivery_step hI.1 (hI.2 c) hst⟩)
    ⟨flowControl_init, delivery_init⟩ h

/-- The pictures a client has shown: `imshow` of what `imdecode` makes of a datagram. -/
def Viewing.shown {Mat : Type} (imdecode : Bytes → Option Mat) (v : Viewing C) (c : C) : List Mat :=
  (v.read c).filterMap imdecode

/-- **Delivery.** Whatever the network delays, overtakes and loses and however many clients share
    the server, each client has read what was sent for it, in order and each datagram once, but for
    the last one at most; for that one it waits. So it has shown the pictures that were sent for it,
    in order, up to the last. -/
theorem delivered {Mat : Type} (imdecode : Bytes → Option Mat) (acts : List (Act C))
    (v : Viewing C) (h : (viewing C).run (Viewing.init C) acts = some v) (c : C) :
    (∃ missing, v.sent c = v.read c ++ missing ∧ missing.length ≤ 1 ∧
      (v.sys.client c ≠ .waiting → missing = [])) ∧
    v.shown imdecode c <+: (v.sent c).filterMap imdecode := by
  have hD := (viewing_inv h).2 c
  have hmissing : ∃ missing, v.sent c = v.read c ++ missing ∧ missing.length ≤ 1 ∧
      (v.sys.client c ≠ .waiting → missing = []) := by
    rcases hD.behind with heq | ⟨b, heq⟩
    · exact ⟨[], by rw [heq, List.append_nil], by decide, fun _ => rfl⟩
    · refine ⟨[b], heq, by simp, fun hnot => ?_⟩
      rw [hD.idle hnot] at heq
      exact absurd heq (by simp)
  refine ⟨hmissing, ?_⟩
  obtain ⟨missing, heq, _⟩ := hmissing
  rw [heq, List.filterMap_append]
  exact List.prefix_append _ _

/-- Two frames on their way at once; that of the second client overtakes. -/
def overtaking : List (Act Bool) :=
  [.keepAlive false, .keepAlive true, .arriveKeepAlive 0, .serverRecv, .capture (some [255, 1]),
    .arriveKeepAlive 0, .serverRecv, .capture (some [255, 2]), .arriveFrame 1,
    .receive true false, .arriveFrame 0, .receive false false, .keepAlive false]

theorem overtaking_delivered :
    ∃ v, (viewing Bool).run (Viewing.init Bool) overtaking = some v ∧
      (∃ missing, v.sent false = v.read false ++ missing ∧ missing.length ≤ 1 ∧
        (v.sys.client false ≠ .waiting → missing = [])) ∧
      v.shown List.getLast? false <+: (v.sent false).filterMap List.getLast? := by
  obtain ⟨v, hv⟩ := Option.isSome_iff_exists.mp
    (by decide : ((viewing Bool).run (Viewing.init Bool) overtaking).isSome = true)
  exact ⟨v, hv, delivered List.getLast? overtaking v hv false⟩

/-! ## Turns -/

/-- From `u` to `v` the server has taken out of its socket what was there first. -/
def Queued (u v : Viewing C) : Prop :=
  ∃ new late, v.passes = u.passes ++ new ∧
    u.sys.serverQueue ++ late = new ++ v.sys.serverQueue

omit [DecidableEq C] in
theorem queued_refl (u : Viewing C) : Queued u u :=
  ⟨[], [], (List.append_nil _).symm, List.append_nil _⟩

omit [DecidableEq C] in
/-- A step that leaves the socket alone, or adds to it. -/
theorem queued_append {u : Viewing C} (hQ : Queued u v) (hpasses : w.passes = v.passes)
    {late : List C} (hqueue : w.sys.serverQueue = v.sys.serverQueue ++ late) : Queued u w := by
  obtain ⟨new, before, hnew, heq⟩ := hQ
  refine ⟨new, before ++ late, hpasses.trans hnew, ?_⟩
  rw [hqueue, ← List.append_assoc, heq, List.append_assoc]

theorem queued_step {u : Viewing C} (hQ : Queued u v) {a : Act C} (h : viewingStep v a = some w) :
    Queued u w := by
  obtain ⟨hstep, hpasses, _, _⟩ := viewingStep_eq_some h
  cases a with
  | serverRecv =>
    obtain ⟨c, rest, _, hq, ht⟩ := step_serverRecv hstep
    obtain ⟨new, late, hnew, heq⟩ := hQ
    refine ⟨new ++ [c], late, ?_, ?_⟩
    · rw [hpasses, ← List.append_assoc, ← hnew]
      simp only [Viewing.note, hq, List.head?_cons, Option.toList_some]
    · rw [ht, heq, hq, List.append_assoc]
      rfl
  | arriveKeepAlive k =>
    obtain ⟨c, rest, _, ht⟩ := step_arriveKeepAlive hstep
    exact queued_append hQ hpasses (by rw [ht])
  | keepAlive c =>
    obtain ⟨_, ht⟩ := step_keepAlive hstep
    exact queued_append hQ hpasses (by rw [ht, List.append_nil])
  | receive c quit =>
    obtain ⟨f, rest, _, _, ht⟩ := step_receive hstep
    exact queued_append hQ hpasses (by rw [ht, List.append_nil]; rfl)
  | serverTimeout =>
    exact queued_append hQ hpasses (by rw [step_serverTimeout hstep, List.append_nil])
  | capture encoded_img =>
    obtain ⟨trigger, addr, hs, _, ht⟩ := step_capture hstep
    refine queued_append hQ (hpasses.trans ?_) (by rw [ht, List.append_nil]; rfl)
    simp only [Viewing.note, hs]
    split <;> rfl
  | arriveFrame k =>
    obtain ⟨f, rest, _, ht⟩ := step_arriveFrame hstep
    exact queued_append hQ hpasses (by rw [ht, List.append_nil])
  | loseKeepAlive k =>
    obtain ⟨c, rest, _, ht⟩ := step_loseKeepAlive hstep
    exact queued_append hQ hpasses (by rw [ht, List.append_nil])
  | loseFrame k =>
    obtain ⟨f, rest, _, ht⟩ := step_loseFrame hstep
    exact queued_append hQ hpasses (by rw [ht, List.append_nil])

theorem queued_run {u : Viewing C} {acts : List (Act C)} (h : (viewing C).run u acts = some v) :
    Queued u v :=
  (viewing C).run_inv (I := Queued u) (fun _ _ _ hI hst => queued_step hI hst) (queued_refl u) h

/-- No client has two keep-alives in the server's socket. -/
theorem FlowControl.nodup (hF : FlowControl s) : s.serverQueue.Nodup := by
  refine List.nodup_iff_count_le_one.mpr fun c => ?_
  have hc : tokens s c ≤ 1 := (hF.token c).trans (by split <;> decide)
  have hcount : s.serverQueue.count c = s.serverQueue.countP (· = c) :=
    List.countP_congr fun d _ => by simp
  unfold tokens at hc
  omega

/-- **Turns.** Between two states of a run with a keep-alive of `c` in the server's socket at the
    first, the server's passes either include one for `c`, or they are for clients all different: it
    has been no other client's turn twice. -/
theorem fair (acts acts' : List (Act C)) (u v : Viewing C)
    (hu : (viewing C).run (Viewing.init C) acts = some u) (c : C) (hc : c ∈ u.sys.serverQueue)
    (hv : (viewing C).run u acts' = some v) :
    ∃ new, v.passes = u.passes ++ new ∧ (c ∈ new ∨ new.Nodup ∧ c ∈ v.sys.serverQueue) := by
  obtain ⟨new, late, hnew, heq⟩ := queued_run hv
  refine ⟨new, hnew, ?_⟩
  rcases List.append_eq_append_iff.mp heq with ⟨more, hmore, _⟩ | ⟨left, hleft, hqueue⟩
  · left
    rw [hmore]
    exact List.mem_append_left _ hc
  · -- only keep-alives that were there already have been taken
    have hnodup := (viewing_inv hu).1.nodup
    rw [hleft] at hc hnodup
    refine (List.mem_append.mp hc).imp_right fun hmem => ⟨(List.nodup_append.mp hnodup).1, ?_⟩
    rw [hqueue]
    exact List.mem_append_left _ hmem

/-- The server's queue holds keep-alives of both clients. -/
def bothAsk : List (Act Bool) :=
  [.keepAlive false, .keepAlive true, .arriveKeepAlive 1, .arriveKeepAlive 0]

theorem bothAsk_fair :
    ∃ u v, (viewing Bool).run (Viewing.init Bool) bothAsk = some u ∧
      (viewing Bool).run u [.serverRecv, .capture (some [255])] = some v ∧
      ∃ new, v.passes = u.passes ++ new ∧
        (false ∈ new ∨ new.Nodup ∧ false ∈ v.sys.serverQueue) := by
  obtain ⟨u, hu⟩ := Option.isSome_iff_exists.mp
    (by decide : ((viewing Bool).run (Viewing.init Bool) bothAsk).isSome = true)
  obtain ⟨v, hv⟩ := Option.isSome_iff_exists.mp
    (by decide : ((viewing Bool).run (Viewing.init Bool)
      (bothAsk ++ [.serverRecv, .capture (some [255])])).isSome = true)
  have hqueue : (((viewing Bool).run (Viewing.init Bool) bothAsk).map
      fun u => u.sys.serverQueue) = some [true, false] := by decide
  rw [(viewing Bool).run_append, hu, Option.bind_some] at hv
  rw [hu, Option.map_some, Option.some.injEq] at hqueue
  exact ⟨u, v, hu, hv, fair bothAsk _ u v hu false (by rw [hqueue]; decide) hv⟩

end NetLab.Video
