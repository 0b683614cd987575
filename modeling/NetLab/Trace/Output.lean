/-
  What q3traceroute.c prints (lines 53, 75-149), and what a reader can tell from it.

  The program prints a line a hop, and on it an item for each probe: a star, or the time, with the
  address of the router in front of it unless that of the item before is the same. `Reader` takes
  the items one by one and tells from them what each probe came to.

  * `outcomes`: what the probes of a run came to, in the order of the passes through the inner loop.
  * `shown_step`, `shown_run`: in every run the reader finds them, under the right hop and probe. A
    line that has been ended has all its probes, and a run that has ended has stopped behind line 64
    or behind one on which the destination has answered.
-/
import NetLab.Trace.Attribution

namespace NetLab.Trace

open NetLab.Lib
open NetLab.Ping (Timeval)

/-! ## Outcomes -/

/-- What a probe came to: nothing, or a router and the time. -/
abbrev Outcome := Option (UInt32 × ℚ)

/-- What a step brings to an end. -/
def outcome (s : Sys) : Act → List (Pass × Outcome)
  | .timeout => [(s.tracer.pass, none)]
  | .recv end_time =>
    match s.tracer.phase, s.queue with
    | .waiting start_time _, m :: _ =>
      if check s.tracer.pass.port (recvInto recvBufSize s.tracer.recv_buf m.bytes) then
        [(s.tracer.pass, some (m.router_addr, getrtt start_time end_time))]
      else []
    | _, _ => []
  | _ => []

/-- The outcomes of a run, in the order they came about. -/
def outcomes : Sys → List Act → List (Pass × Outcome)
  | _, [] => []
  | s, x :: acts =>
    match step s x with
    | none => []
    | some t => outcome s x ++ outcomes t acts

/-! ## Reading -/

/-- A reader of the items printed. -/
structure Reader where
  /-- The hop of the line, and how many of its probes have been read. -/
  pass : Pass
  /-- The last address of the line. -/
  router : Option UInt32
  found : List (Pass × Outcome)
deriving DecidableEq

def Reader.init : Reader := ⟨⟨0, 0⟩, none, []⟩

/-- The next probe has come to `o`. -/
def Reader.find (r : Reader) (o : Outcome) : Reader :=
  { r with pass := ⟨r.pass.ttl, r.pass.probe + 1⟩, found := r.found ++ [(r.pass, o)] }

/-- The reader after one more item, unless it is a time without a router. -/
def Reader.item (r : Reader) : Out → Option Reader
  | .hop ttl => some { r with pass := ⟨ttl, 0⟩, router := none }
  | .star => some (r.find none)
  | .addr router => some { r with router := some router }
  | .rtt ms => r.router.map fun router => r.find (some (router, ms))
  | .newline => some r

def readItems (out : List Out) : Option Reader := out.foldlM Reader.item Reader.init

theorem readItems_append {out : List Out} {r : Reader} (h : readItems out = some r)
    (out' : List Out) : readItems (out ++ out') = out'.foldlM Reader.item r := by
  unfold readItems at h ⊢
  rw [List.foldlM_append, h]
  rfl

/-- The items of a reply are read as its router and time. -/
theorem foldlM_report (c : Tracer) {r : Reader} (hrouter : r.router = c.lastrouterip)
    (router : UInt32) (ms : ℚ) :
    (c.report router ms).foldlM Reader.item r =
      some { r.find (some (router, ms)) with router := some router } := by
  unfold Tracer.report
  split
  · rename_i hlast
    have hr : r.router = some router := hrouter.trans hlast
    simp [Reader.item, hr, Reader.find]
  · simp [Reader.item, Reader.find]

/-! ## Runs -/

/-- The first `n` passes through the inner loop. -/
def passes (n : Nat) : List Pass :=
  (List.range n).map fun k => ⟨k / PROBESPERHOP + 1, k % PROBESPERHOP⟩

/-- The reader has found the outcomes so far, which are those of the first passes; within a line it
    is where the program is. -/
structure Shown (s : Sys) (os : List (Pass × Outcome)) (r : Reader) : Prop where
  reads : readItems s.tracer.out = some r
  found : r.found = os
  order : os.map Prod.fst = passes os.length
  inner : s.tracer.phase.Inner → r.pass = s.tracer.pass ∧ r.router = s.tracer.lastrouterip ∧
    s.tracer.pass.ttl ≤ MAXHOPS ∧
    os.length = (s.tracer.pass.ttl - 1) * PROBESPERHOP + s.tracer.pass.probe
  waiting : ∀ t d, s.tracer.phase = .waiting t d → s.tracer.pass.probe < PROBESPERHOP
  probe_le : s.tracer.phase.Inner → s.tracer.pass.probe ≤ PROBESPERHOP
  atHop : s.tracer.phase = .hop ∨ s.tracer.phase = .done →
    os.length = (s.tracer.pass.ttl - 1) * PROBESPERHOP ∧ s.tracer.pass.ttl ≤ MAXHOPS + 1
  ttl_pos : 1 ≤ s.tracer.pass.ttl
  ended : s.tracer.phase = .done → ¬ s.tracer.More

theorem shown_init : Shown Sys.init [] Reader.init where
  reads := rfl
  found := rfl
  order := rfl
  inner h := absurd h id
  waiting t d h := by cases h
  probe_le h := absurd h id
  atHop _ := ⟨rfl, by decide⟩
  ttl_pos := Nat.le_refl 1
  ended h := by cases h

section Step

variable {s s' : Sys} {os : List (Pass × Outcome)} {r : Reader}

/-- A step that prints nothing and leaves the program where it is. -/
theorem Shown.frame (h : Shown s os r) (htracer : s'.tracer = s.tracer) : Shown s' os r := by
  obtain ⟨h1, h2, h3, h4, h5, h6, h7, h8, h9⟩ := h
  rw [← htracer] at h1 h4 h5 h6 h7 h8 h9
  exact ⟨h1, h2, h3, h4, h5, h6, h7, h8, h9⟩

/-- The pass that ends is the next one in the order. -/
theorem Shown.order_concat (h : Shown s os r) {t : Timeval} {d : Nat}
    (hp : s.tracer.phase = .waiting t d) (o : Outcome) :
    (os ++ [(s.tracer.pass, o)]).map Prod.fst = passes (os ++ [(s.tracer.pass, o)]).length := by
  have hin : s.tracer.phase.Inner := by rw [hp]; trivial
  obtain ⟨_, _, _, hlen⟩ := h.inner hin
  have hlt := h.waiting t d hp
  have hpos := h.ttl_pos
  have hpass : (⟨os.length / PROBESPERHOP + 1, os.length % PROBESPERHOP⟩ : Pass) =
      s.tracer.pass := by
    cases hq : s.tracer.pass with
    | mk ttl probe =>
      rw [hq] at hlen hlt hpos
      unfold PROBESPERHOP at hlen hlt ⊢
      dsimp only at hlen hlt hpos
      rw [Pass.mk.injEq]
      omega
  have horder := h.order
  unfold passes at horder ⊢
  rw [List.map_append, horder, List.length_append, List.length_singleton, List.range_succ,
    List.map_append, List.map_singleton, List.map_singleton, hpass]

/-- A pass comes to its end with `o`: the program goes on to the next probe, and the items it
    prints are read as `o`. -/
theorem Shown.pass (h : Shown s os r) {t : Timeval} {d : Nat} (hp : s.tracer.phase = .waiting t d)
    {o : Outcome} {items : List Out} {c : Tracer} {queue : List Message} {r' : Reader}
    (hphase : c.phase = .probe) (hpass : c.pass = s.tracer.nextProbe.pass)
    (hout : c.out = s.tracer.out ++ items) (hitems : items.foldlM Reader.item r = some r')
    (hfind : r'.pass = (r.find o).pass ∧ r'.found = (r.find o).found)
    (hrouter : r'.router = c.lastrouterip) :
    Shown { s with tracer := c, queue := queue } (os ++ [(s.tracer.pass, o)]) r' := by
  have hin : s.tracer.phase.Inner := by rw [hp]; trivial
  obtain ⟨hr, _, httl, hlen⟩ := h.inner hin
  have hlt := h.waiting t d hp
  refine ⟨?_, ?_, h.order_concat hp o, fun _ => ⟨?_, hrouter, ?_, ?_⟩, fun t d hw => ?_,
    fun _ => ?_, fun hh => ?_, ?_, fun hd => ?_⟩
  · show readItems c.out = some r'
    rw [hout, readItems_append h.reads, hitems]
  · rw [hfind.2, Reader.find, h.found, hr]
  · show r'.pass = c.pass
    rw [hfind.1, hpass, Reader.find, hr]
    rfl
  · show c.pass.ttl ≤ MAXHOPS
    rw [hpass]
    exact httl
  · show _ = (c.pass.ttl - 1) * PROBESPERHOP + c.pass.probe
    rw [hpass, List.length_append, List.length_singleton, hlen]
    rfl
  · cases hphase.symm.trans hw
  · show c.pass.probe ≤ PROBESPERHOP
    rw [hpass]
    exact hlt
  · rcases hh with hh | hh <;> cases hphase.symm.trans hh
  · show 1 ≤ c.pass.ttl
    rw [hpass]
    exact h.ttl_pos
  · cases hphase.symm.trans hd

/-- The program waits after the step, and nothing has been printed. -/
theorem Shown.wait (h : Shown s os r) (hin : s.tracer.phase.Inner)
    (hlt : s.tracer.pass.probe < PROBESPERHOP) (t : Timeval) (d : Nat) (recv_buf : Bytes)
    (flight : List Probe) (queue : List Message) :
    Shown { s with
      tracer := { s.tracer with phase := .waiting t d, recv_buf := recv_buf }
      flight := flight
      queue := queue } os r where
  reads := h.reads
  found := h.found
  order := h.order
  inner _ := h.inner hin
  waiting _ _ _ := hlt
  probe_le _ := hlt.le
  atHop hh := by rcases hh with hh | hh <;> cases hh
  ttl_pos := h.ttl_pos
  ended hd := by cases hd

/-- The program is in neither loop's body after the step, and at most a line feed is printed. -/
theorem Shown.outside (h : Shown s os r) {c : Tracer} (hphase : ¬ c.phase.Inner)
    (hout : readItems c.out = some r) (hpos : 1 ≤ c.pass.ttl)
    (hhop : c.phase = .hop ∨ c.phase = .done →
      os.length = (c.pass.ttl - 1) * PROBESPERHOP ∧ c.pass.ttl ≤ MAXHOPS + 1)
    (hended : c.phase = .done → ¬ c.More) : Shown { s with tracer := c } os r where
  reads := hout
  found := h.found
  order := h.order
  inner hin := absurd hin hphase
  waiting t d hw := absurd (show c.phase.Inner by rw [show c.phase = _ from hw]; trivial) hphase
  probe_le hin := absurd hin hphase
  atHop := hhop
  ttl_pos := hpos
  ended := hended

/-- What a step brings to an end is what the reader finds in what it prints. -/
theorem shown_step (h : Shown s os r) {x : Act} (hstep : step s x = some s') :
    ∃ r', Shown s' (os ++ outcome s x) r' := by
  cases x with
  | hop =>
    obtain ⟨hp, hmore, rfl⟩ := step_hop hstep
    obtain ⟨hlen, _⟩ := h.atHop (.inl hp)
    refine ⟨{ r with pass := ⟨s.tracer.pass.ttl, 0⟩, router := none }, ?_⟩
    rw [show outcome s .hop = [] from rfl, List.append_nil]
    refine ⟨?_, h.found, h.order, fun _ => ⟨rfl, rfl, hmore.1, hlen⟩, fun _ _ hw => ?_,
      fun _ => Nat.zero_le _, fun hh => ?_, h.ttl_pos, fun hd => ?_⟩
    · show readItems (s.tracer.out ++ [.hop s.tracer.pass.ttl]) = _
      rw [readItems_append h.reads]
      rfl
    · cases hw
    · rcases hh with hh | hh <;> cases hh
    · cases hd
  | finish =>
    simp only [step, Option.ite_none_right_eq_some, Option.some.injEq] at hstep
    obtain ⟨⟨hp, hmore⟩, rfl⟩ := hstep
    refine ⟨r, ?_⟩
    rw [show outcome s .finish = [] from rfl, List.append_nil]
    exact h.outside id h.reads h.ttl_pos (fun _ => h.atHop (.inl hp)) fun _ => hmore
  | send t =>
    obtain ⟨hp, hlt, rfl⟩ := step_send hstep
    have hin : s.tracer.phase.Inner := by rw [hp]; trivial
    refine ⟨r, ?_⟩
    rw [show outcome s (.send t) = [] from rfl, List.append_nil]
    exact h.wait hin hlt t _ _ _ _
  | fail =>
    simp only [step, Option.ite_none_right_eq_some, Option.some.injEq] at hstep
    obtain ⟨_, rfl⟩ := hstep
    refine ⟨r, ?_⟩
    rw [show outcome s .fail = [] from rfl, List.append_nil]
    refine h.outside id h.reads h.ttl_pos (fun hh => ?_) fun hd => by cases hd
    rcases hh with hh | hh <;> cases hh
  | newline =>
    obtain ⟨hp, hlt, rfl⟩ := step_newline hstep
    have hin : s.tracer.phase.Inner := by rw [hp]; trivial
    obtain ⟨_, _, httl, hlen⟩ := h.inner hin
    have hle := h.probe_le hin
    have hpos := h.ttl_pos
    refine ⟨r, ?_⟩
    rw [show outcome s .newline = [] from rfl, List.append_nil]
    refine h.outside id ?_ (Nat.succ_pos _) (fun _ => ⟨?_, Nat.succ_le_succ httl⟩)
      fun hd => by cases hd
    · show readItems (s.tracer.out ++ [.newline]) = _
      rw [readItems_append h.reads]
      rfl
    · show os.length = (s.tracer.pass.ttl + 1 - 1) * PROBESPERHOP
      unfold PROBESPERHOP at *
      omega
  | recv t =>
    obtain ⟨start_time, deadline, m, rest, hp, hq, rfl⟩ := step_recv hstep
    have hin : s.tracer.phase.Inner := by rw [hp]; trivial
    have hlt := h.waiting _ _ hp
    unfold outcome Sys.receive
    rw [hp, hq]
    dsimp only
    split
    · exact ⟨_, h.pass hp rfl rfl rfl (foldlM_report _ (h.inner hin).2.1 _ _) ⟨rfl, rfl⟩ rfl⟩
    · rw [List.append_nil]
      exact ⟨r, h.wait hin hlt start_time _ _ _ _⟩
  | timeout =>
    obtain ⟨_, _, hp, _, _, rfl⟩ := step_timeout hstep
    have hin : s.tracer.phase.Inner := by rw [hp]; trivial
    exact ⟨r.find none, h.pass hp rfl rfl rfl rfl ⟨rfl, rfl⟩ (h.inner hin).2.1⟩
  | tick d =>
    obtain rfl := Option.some.inj hstep
    refine ⟨r, ?_⟩
    rw [show outcome s (.tick d) = [] from rfl, List.append_nil]
    exact h.frame rfl
  | answer k _ _ | deliver k | loseProbe k | loseReply k | dupProbe k | dupReply k =>
    simp only [step, Option.map_eq_some_iff] at hstep
    obtain ⟨_, _, rfl⟩ := hstep
    refine ⟨r, ?_⟩
    unfold outcome
    rw [List.append_nil]
    exact h.frame rfl

end Step

theorem shown_run {s s' : Sys} {os : List (Pass × Outcome)} {r : Reader} (h : Shown s os r)
    {acts : List Act} (hrun : system.run s acts = some s') :
    ∃ r', Shown s' (os ++ outcomes s acts) r' := by
  induction acts generalizing s os r with
  | nil =>
    obtain rfl := Option.some.inj hrun
    exact ⟨r, by rwa [outcomes, List.append_nil]⟩
  | cons x acts ih =>
    rw [system.run_cons] at hrun
    obtain ⟨t, hstep, hrun⟩ := Option.bind_eq_some_iff.mp hrun
    replace hstep : step s x = some t := hstep
    obtain ⟨r', hr'⟩ := shown_step h hstep
    unfold outcomes
    rw [hstep, ← List.append_assoc]
    exact ih hr' hrun

end NetLab.Trace
