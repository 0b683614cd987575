/-
  The report of q2client.c against the echoes that were received.

  Every datagram in flight is a whole buffer as the main thread stamped it (`Genuine`), so a
  reception adds the size of a packet and the time since that very packet was stamped. The table is
  the one these receptions make (`Inv.stats`), whatever the clock readings are; a row is then a sum
  over the echoes of its second, and the printed average a mean of their round-trip times.

  * `inv_step`, `inv_run`: the invariant of both threads, the server and the network.
  * `oneRow_step`: a step changes one row at most.
  * `recorded_step`: every packet received that is not empty is among the echoes, and no other.
  * `report_consistent`: in every run each row agrees with the echoes received in its second, and
    the report prints these rows.
-/
import NetLab.Throughput.System

namespace NetLab.Throughput

open NetLab.Lib
open NetLab.Ping (Timeval Packethead sizeofPackethead storeHead loadHead echo rtt
  loadHead_storeHead loadHead_recvInto length_storeHead rtt_eq)

/-! ## The invariant -/

/-- The datagram is in flight or unread. -/
def Sys.InFlight (s : Sys) (d : Datagram) : Prop :=
  d ∈ s.requests ∨ d ∈ s.replies ∨ d ∈ s.queue

/-- The datagram is a whole buffer with its own time stamp. -/
def Genuine (a : Args) (d : Datagram) : Prop :=
  d.bytes.length = a.packetsz ∧ (loadHead d.bytes).send_time = d.sent

/-- The packets hold a header and fit a datagram. -/
structure Args.Sized (a : Args) : Prop where
  head_le : sizeofPackethead ≤ a.packetsz
  le_max : a.packetsz ≤ maxDatagram

/-- The round-trip time of an echo. -/
def echoRtt (e : Timeval × Timeval) : ℚ := e.1.ms - e.2.ms

/-- What the reception of an echo is. -/
def echoReception (a : Args) (e : Timeval × Timeval) : Reception := ⟨e.1, a.packetsz, echoRtt e⟩

structure Inv (a : Args) (s : Sys) : Prop where
  buffer : s.buffer.length = a.packetsz
  recvbuf : s.recvbuf.length = rcvBufSize
  genuine : ∀ d, s.InFlight d → Genuine a d
  stats : s.stats = received a.start_test_time (s.hist.echoes.map (echoReception a))
  indices : ∀ i ∈ s.hist.indices, 0 ≤ i ∧ i < MAXI
  /-- The threads are over when the report is printed. -/
  out : s.main = .done → s.receiver = .ended ∧ s.out = report (capped a.duration) s.stats

theorem inv_init (a : Args) : Inv a (Sys.init a) where
  buffer := List.length_replicate
  recvbuf := List.length_replicate
  genuine := by
    rintro d (h | h | h) <;> cases h
  stats := rfl
  indices := nofun
  out h := by cases h

variable {a : Args} {s s' : Sys}

/-- A step that leaves the buffers and the table alone and does not go on from the end. -/
theorem Inv.frame (h : Inv a s) (hbuffer : s'.buffer = s.buffer) (hrecvbuf : s'.recvbuf = s.recvbuf)
    (hstats : s'.stats = s.stats) (hhist : s'.hist = s.hist)
    (hgen : ∀ d, s'.InFlight d → Genuine a d)
    (hout : s'.main = .done → s.main = .done ∧ s'.receiver = s.receiver ∧ s'.out = s.out) :
    Inv a s' where
  buffer := hbuffer ▸ h.buffer
  recvbuf := hrecvbuf ▸ h.recvbuf
  genuine := hgen
  stats := by rw [hstats, hhist]; exact h.stats
  indices := hhist ▸ h.indices
  out hdone := by
    obtain ⟨hmain, hrec, heq⟩ := hout hdone
    rw [hrec, heq, hstats]
    exact h.out hmain

theorem length_stamp (hsz : a.Sized) (h : Inv a s) (t : Timeval) :
    (s.stamp t).length = a.packetsz := by
  unfold Sys.stamp
  rw [length_storeHead (h.buffer.symm ▸ hsz.head_le), h.buffer]

/-- The packet about to be sent carries the reading of its pass. -/
theorem genuine_stamp (hsz : a.Sized) (h : Inv a s) (t : Timeval) : Genuine a ⟨t, s.stamp t⟩ := by
  refine ⟨length_stamp hsz h t, ?_⟩
  unfold Sys.stamp
  rw [loadHead_storeHead (h.buffer.symm ▸ hsz.head_le)]

theorem inv_stamped (hsz : a.Sized) (h : Inv a s) (t : Timeval) : Inv a (s.stamped t) where
  buffer := length_stamp hsz h t
  recvbuf := h.recvbuf
  genuine := h.genuine
  stats := h.stats
  indices := h.indices
  out hdone := by cases hdone

/-- **What a `recvfrom` can do.** The echo is genuine, so it is added with the size of a packet and
    the time since it was stamped. -/
theorem receive_eq (hsz : a.Sized) (h : Inv a s) {d : Datagram} (hd : d ∈ s.queue)
    (rest : List Datagram) (t : Timeval) :
    s.receive a d rest t =
      { s with
        receiver := .head
        recvbuf := recvInto rcvBufSize s.recvbuf d.bytes
        queue := rest
        stats := account a.start_test_time s.stats (echoReception a (t, d.sent))
        hist :=
          { echoes := s.hist.echoes ++ [(t, d.sent)]
            indices := if InTable (secindex a.start_test_time t) then
                s.hist.indices ++ [(secindex a.start_test_time t).toInt]
              else s.hist.indices } } := by
  obtain ⟨hlen, hsent⟩ := h.genuine d (.inr (.inr hd))
  have hmin := hsz.head_le
  have hmax := hsz.le_max
  unfold sizeofPackethead at hmin
  unfold maxDatagram at hmax
  have hn : (d.bytes.take rcvBufSize).length = a.packetsz := by
    rw [List.length_take, hlen]
    unfold rcvBufSize
    omega
  have hload : (loadHead (recvInto rcvBufSize s.recvbuf d.bytes)).send_time = d.sent := by
    rw [← hsent]
    exact congrArg Packethead.send_time
      (loadHead_recvInto s.recvbuf (by decide) (hlen.symm ▸ hsz.head_le))
  have hr : reception (recvInto rcvBufSize s.recvbuf d.bytes) a.packetsz t =
      echoReception a (t, d.sent) := by
    unfold reception echoReception echoRtt
    rw [hload, rtt_eq]
  unfold Sys.receive
  dsimp only
  rw [hn, if_pos (by omega), hr]

/-- The report is printed after the receiver has returned. -/
theorem Inv.not_done (h : Inv a s) (hrec : s.receiver ≠ .ended) : s.main ≠ .done :=
  fun hdone => hrec (h.out hdone).1

theorem inv_recv (hsz : a.Sized) (h : Inv a s) {t : Timeval}
    (hstep : step a s (.recv t) = some s') : Inv a s' := by
  obtain ⟨d, rest, hp, hq, rfl⟩ := step_recv hstep
  have hd : d ∈ s.queue := hq ▸ List.mem_cons_self
  rw [receive_eq hsz h hd]
  refine ⟨h.buffer, ?_, ?_, ?_, ?_, fun hdone => ?_⟩
  · dsimp only
    rw [length_recvInto h.recvbuf.ge, h.recvbuf]
  · have hsub : ∀ e ∈ rest, e ∈ s.queue := fun e he => hq ▸ List.mem_cons_of_mem d he
    exact forall_flight_mono h.genuine (fun _ he => he) (fun _ he => he) hsub
  · dsimp only
    rw [h.stats, List.map_append]
    unfold received
    rw [List.foldl_append]
    rfl
  · intro i hi
    dsimp only at hi
    split at hi
    · rename_i hin
      rcases List.mem_append.mp hi with hi | hi
      · exact h.indices i hi
      · rw [List.mem_singleton.mp hi]
        exact hin
    · exact h.indices i hi
  · exact absurd hdone (h.not_done (by rw [hp]; decide))

theorem inv_join (h : Inv a s) (hstep : step a s .join = some s') : Inv a s' := by
  obtain ⟨_, hrec, rfl⟩ := step_join hstep
  refine ⟨h.buffer, h.recvbuf, h.genuine, h.stats, fun i hi => ?_, fun _ => ⟨hrec, rfl⟩⟩
  rcases List.mem_append.mp hi with hi | hi
  · exact h.indices i hi
  · obtain ⟨j, hj, rfl⟩ := List.mem_map.mp hi
    have hlt := List.mem_range.mp hj
    have hcap := capped_le a.duration
    constructor
    · exact Int.natCast_nonneg j
    · show (j : Int) < MAXI
      omega

theorem inv_step (hsz : a.Sized) (h : Inv a s) {x : Act} (hstep : step a s x = some s') :
    Inv a s' := by
  cases x with
  | clock t =>
    simp only [step, Option.ite_none_right_eq_some, Option.some.injEq] at hstep
    obtain ⟨_, rfl⟩ := hstep
    exact h.frame rfl rfl rfl rfl h.genuine fun hdone => by cases hdone
  | send t =>
    obtain ⟨_, _, rfl⟩ := step_send hstep
    have hstamped := inv_stamped hsz h t
    refine hstamped.frame rfl rfl rfl rfl ?_ fun hdone => by cases hdone
    rintro d (hd | hd | hd)
    · rcases List.mem_append.mp hd with hd | hd
      · exact h.genuine d (.inl hd)
      · exact List.mem_singleton.mp hd ▸ genuine_stamp hsz h t
    · exact h.genuine d (.inr (.inl hd))
    · exact h.genuine d (.inr (.inr hd))
  | sendFail t =>
    obtain ⟨_, rfl⟩ := step_sendFail hstep
    exact inv_stamped hsz h t
  | stop =>
    simp only [step, Option.ite_none_right_eq_some, Option.some.injEq] at hstep
    obtain ⟨_, rfl⟩ := hstep
    exact h.frame rfl rfl rfl rfl h.genuine fun hdone => by cases hdone
  | join => exact inv_join h hstep
  | enter | leave =>
    simp only [step, Option.ite_none_right_eq_some, Option.some.injEq] at hstep
    obtain ⟨⟨hp, _⟩, rfl⟩ := hstep
    exact h.frame rfl rfl rfl rfl h.genuine
      fun hdone => absurd hdone (h.not_done (by rw [hp]; decide))
  | recv t => exact inv_recv hsz h hstep
  | recvFail =>
    simp only [step, Option.ite_none_right_eq_some, Option.some.injEq] at hstep
    obtain ⟨hp, rfl⟩ := hstep
    exact h.frame rfl rfl rfl rfl h.genuine
      fun hdone => absurd hdone (h.not_done (by rw [hp]; decide))
  | serve k =>
    simp only [step, Option.map_eq_some_iff] at hstep
    obtain ⟨⟨d, rest⟩, hk, rfl⟩ := hstep
    have hd := h.genuine d (.inl (mem_of_takeAt hk))
    have hreply : Genuine a ⟨d.sent, echo d.bytes⟩ := by
      rw [show echo d.bytes = d.bytes from Ping.echo_eq (hd.1.le.trans hsz.le_max)]
      exact hd
    exact h.frame rfl rfl rfl rfl (forall_flight_serve h.genuine hk hreply)
      fun hdone => ⟨hdone, rfl, rfl⟩
  | deliver k =>
    simp only [step, Option.map_eq_some_iff] at hstep
    obtain ⟨⟨d, rest⟩, hk, rfl⟩ := hstep
    exact h.frame rfl rfl rfl rfl (forall_flight_deliver h.genuine hk)
      fun hdone => ⟨hdone, rfl, rfl⟩
  | loseRequest k =>
    simp only [step, Option.map_eq_some_iff] at hstep
    obtain ⟨l, hk, rfl⟩ := hstep
    have hsub : ∀ e ∈ l, e ∈ s.requests := fun e he => mem_of_lose hk he
    exact h.frame rfl rfl rfl rfl (forall_flight_mono h.genuine hsub (fun _ he => he) fun _ he => he)
      fun hdone => ⟨hdone, rfl, rfl⟩
  | loseReply k =>
    simp only [step, Option.map_eq_some_iff] at hstep
    obtain ⟨l, hk, rfl⟩ := hstep
    have hsub : ∀ e ∈ l, e ∈ s.replies := fun e he => mem_of_lose hk he
    exact h.frame rfl rfl rfl rfl (forall_flight_mono h.genuine (fun _ he => he) hsub fun _ he => he)
      fun hdone => ⟨hdone, rfl, rfl⟩
  | dupRequest k =>
    simp only [step, Option.map_eq_some_iff] at hstep
    obtain ⟨l, hk, rfl⟩ := hstep
    have hsub : ∀ e ∈ l, e ∈ s.requests := fun e he => mem_of_duplicate hk he
    exact h.frame rfl rfl rfl rfl (forall_flight_mono h.genuine hsub (fun _ he => he) fun _ he => he)
      fun hdone => ⟨hdone, rfl, rfl⟩
  | dupReply k =>
    simp only [step, Option.map_eq_some_iff] at hstep
    obtain ⟨l, hk, rfl⟩ := hstep
    have hsub : ∀ e ∈ l, e ∈ s.replies := fun e he => mem_of_duplicate hk he
    exact h.frame rfl rfl rfl rfl (forall_flight_mono h.genuine (fun _ he => he) hsub fun _ he => he)
      fun hdone => ⟨hdone, rfl, rfl⟩

theorem inv_run (hsz : a.Sized) {acts : List Act}
    (h : (system a).run (Sys.init a) acts = some s) : Inv a s :=
  (system a).run_inv (fun _ _ _ hI hst => inv_step hsz hI hst) (inv_init a) h

/-! ## One row a step -/

/-- One row of `stats` changes at most. -/
def OneRow (s : Sys) (_ : Act) (s' : Sys) : Prop :=
  ∃ i : Nat, ∀ j : Nat, j ≠ i → s'.stats[j]? = s.stats[j]?

theorem oneRow_step {x : Act} (hstep : step a s x = some s') : OneRow s x s' := by
  unfold OneRow
  rcases stats_step hstep with heq | ⟨r, heq⟩
  · rw [heq]
    exact ⟨0, fun _ _ => rfl⟩
  · rw [heq]
    exact account_one_row a.start_test_time s.stats r

/-! ## The rows and the echoes -/

/-- What a step receives: of a packet that is not empty, the reading after its `recvfrom` and the
    one stamped on it. -/
def Sys.receives (s : Sys) : Act → List (Timeval × Timeval)
  | .recv t => (s.queue.head?.filter fun d => d.bytes ≠ []).toList.map fun d => (t, d.sent)
  | _ => []

/-- The step records what it receives, and nothing else. -/
def Recorded (s : Sys) (x : Act) (s' : Sys) : Prop :=
  s'.hist.echoes = s.hist.echoes ++ s.receives x

theorem recorded_step {x : Act} (hstep : step a s x = some s') : Recorded s x s' := by
  unfold Recorded
  cases x with
  | recv t =>
    obtain ⟨d, rest, _, hq, rfl⟩ := step_recv hstep
    have hn : 0 < (d.bytes.take rcvBufSize).length ↔ d.bytes ≠ [] := by
      rw [List.length_pos_iff, ne_eq, ne_eq, List.take_eq_nil_iff]
      exact not_congr (or_iff_right (by decide))
    unfold Sys.receive Sys.receives
    dsimp only
    rw [hq, List.head?_cons]
    by_cases hd : d.bytes = []
    · rw [if_neg fun h => hn.mp h hd]
      simp [hd]
    · rw [if_pos (hn.mpr hd)]
      simp [Option.filter, hd]
  | clock t | send t | sendFail t | stop | join | enter | leave | recvFail =>
    simp only [step, Option.ite_none_right_eq_some, Option.some.injEq] at hstep
    obtain ⟨_, rfl⟩ := hstep
    exact (List.append_nil _).symm
  | serve k | deliver k | loseRequest k | loseReply k | dupRequest k | dupReply k =>
    simp only [step, Option.map_eq_some_iff] at hstep
    obtain ⟨_, _, rfl⟩ := hstep
    exact (List.append_nil _).symm

/-- What is received comes with the reading of its `recvfrom`. -/
theorem mem_receives {x : Act} {e : Timeval × Timeval} (he : e ∈ s.receives x) :
    x = .recv e.1 := by
  cases x with
  | recv t =>
    obtain ⟨d, _, rfl⟩ := List.mem_map.mp he
    rfl
  | clock t | send t | sendFail t | stop | join | enter | leave | recvFail => cases he
  | serve k | deliver k | loseRequest k | loseReply k | dupRequest k | dupReply k => cases he

theorem echoes_step {x : Act} (hstep : step a s x = some s') :
    ∀ e ∈ s'.hist.echoes, e ∈ s.hist.echoes ∨ x = .recv e.1 := by
  intro e he
  rw [recorded_step hstep] at he
  exact (List.mem_append.mp he).imp_right mem_receives

/-- The readings of the receiver are within an `int` of the start. -/
def ClockFits (a : Args) (acts : List Act) : Prop :=
  ∀ t, .recv t ∈ acts → Fits a.start_test_time t

theorem echoes_fit {acts : List Act} (hfit : ClockFits a acts)
    (h : (system a).run (Sys.init a) acts = some s) :
    ∀ e ∈ s.hist.echoes, Fits a.start_test_time e.1 := by
  induction acts using List.reverseRecOn generalizing s with
  | nil =>
    obtain rfl := Option.some.inj h
    nofun
  | append_singleton acts x ih =>
    obtain ⟨t, ht, hstep⟩ := (system a).run_concat.mp h
    intro e he
    rcases echoes_step hstep e he with he | rfl
    · exact ih (fun t ht => hfit t (List.mem_append_left _ ht)) ht e he
    · exact hfit e.1 (List.mem_append_right _ (List.mem_singleton_self _))

/-- The echoes received in second `i` of the clock. -/
def Sys.echoesIn (a : Args) (s : Sys) (i : Nat) : List (Timeval × Timeval) :=
  s.hist.echoes.filter fun e => e.1.tv_sec.toInt - a.start_test_time.tv_sec.toInt = i

/-- What a row and its line should say about the echoes of their second. -/
structure Agrees (a : Args) (es : List (Timeval × Timeval)) (row : Secondsts) : Prop where
  packetsrcv : row.packetsrcv = es.length
  bytesrcv : row.bytesrcv = row.packetsrcv * a.packetsz
  trtt : row.trtt = (es.map echoRtt).sum
  none : es = [] → row.line.avgsrtt = 0
  ge_least : es ≠ [] → ∃ e ∈ es, echoRtt e ≤ row.line.avgsrtt
  le_greatest : es ≠ [] → ∃ e ∈ es, row.line.avgsrtt ≤ echoRtt e

/-- The totals of the receptions of some echoes agree with them. -/
theorem agrees_total (a : Args) (es : List (Timeval × Timeval)) :
    Agrees a es (total (es.map (echoReception a))) := by
  have hrtt : (es.map (echoReception a)).map Reception.rtt = es.map echoRtt := by
    rw [List.map_map]
    rfl
  have hn : (es.map (echoReception a)).map Reception.n = List.replicate es.length a.packetsz := by
    rw [List.map_map, ← List.map_const']
    rfl
  have havg : es ≠ [] → (total (es.map (echoReception a))).line.avgsrtt =
      (es.map echoRtt).sum / ((es.map echoRtt).length : ℚ) := by
    intro hne
    unfold total Secondsts.line
    dsimp only
    rw [hrtt, List.length_map, List.length_map, if_pos (List.length_pos_of_ne_nil hne)]
  have hrtts : es ≠ [] → es.map echoRtt ≠ [] := fun hne he => hne (List.map_eq_nil_iff.mp he)
  refine ⟨List.length_map _, ?_, congrArg List.sum hrtt, ?_, fun hne => ?_, fun hne => ?_⟩
  · unfold total
    dsimp only
    rw [hn, List.sum_replicate, List.length_map, smul_eq_mul]
  · rintro rfl
    rfl
  · obtain ⟨x, hx, hle⟩ := exists_le_mean (hrtts hne)
    obtain ⟨e, he, rfl⟩ := List.mem_map.mp hx
    exact ⟨e, he, (havg hne).symm ▸ hle⟩
  · obtain ⟨x, hx, hle⟩ := exists_ge_mean (hrtts hne)
    obtain ⟨e, he, rfl⟩ := List.mem_map.mp hx
    exact ⟨e, he, (havg hne).symm ▸ hle⟩

/-- The row of a second. -/
theorem Inv.row (h : Inv a s) (hfit : ∀ e ∈ s.hist.echoes, Fits a.start_test_time e.1) {i : Nat}
    (hi : i < MAXI) : s.stats[i]? = some (total ((s.echoesIn a i).map (echoReception a))) := by
  rw [h.stats, received_row _ _ hi, List.filter_map]
  congr 3
  unfold Sys.echoesIn
  refine List.filter_congr fun e he => ?_
  have hiff : rowOf a.start_test_time (echoReception a e) = some i ↔
      e.1.tv_sec.toInt - a.start_test_time.tv_sec.toInt = i := by
    rw [rowOf_eq_some, ← secindex_toInt (hfit e he)]
    exact and_iff_left hi
  exact decide_eq_decide.mpr hiff

/-- **The report agrees with what was received.** In every run, with packets that hold a header and
    clock readings within an `int` of the start, only rows of the table are used, a step changes one
    of them at most and records each packet it receives, each row agrees with the echoes received in
    its second, and the report at the end prints the lines of these rows. -/
theorem report_consistent (a : Args) (hsz : a.Sized) (acts : List Act) (hfit : ClockFits a acts)
    (s : Sys) (h : (system a).run (Sys.init a) acts = some s) :
    (∀ i ∈ s.hist.indices, 0 ≤ i ∧ i < MAXI) ∧
      (system a).Along OneRow (Sys.init a) acts ∧
      (system a).Along Recorded (Sys.init a) acts ∧
      (∀ i < MAXI, ∃ row, s.stats[i]? = some row ∧ Agrees a (s.echoesIn a i) row) ∧
      (s.main = .done → s.out.length = (capped a.duration).toInt.toNat ∧
        ∀ i : Nat, (i : Int) < (capped a.duration).toInt → ∃ row,
          s.out[i]? = some (i + 1, row.line) ∧ Agrees a (s.echoesIn a i) row) := by
  have hI := inv_run hsz h
  have hrow := fun {i : Nat} (hi : i < MAXI) => hI.row (echoes_fit hfit h) hi
  have halong : ∀ {P : Sys → Act → Sys → Prop},
      (∀ {s s' : Sys} {x : Act}, step a s x = some s' → P s x s') →
      (system a).Along P (Sys.init a) acts := fun hP =>
    (system a).along_of_inv (I := fun _ => True) (fun _ _ _ _ _ => trivial)
      (fun _ _ _ _ hst => hP hst) trivial acts
  refine ⟨hI.indices, halong oneRow_step, halong recorded_step,
    fun i hi => ⟨_, hrow hi, agrees_total a _⟩, fun hdone => ⟨?_, ?_⟩⟩
  · rw [(hI.out hdone).2, length_report]
  · intro i hi
    have hcap := capped_le a.duration
    refine ⟨_, ?_, agrees_total a (s.echoesIn a i)⟩
    rw [(hI.out hdone).2]
    exact getElem?_report hi (hrow (by omega))

/-- A test of one second with packets of 64 bytes. -/
def oneSecond : Args := ⟨1, 64, ⟨10, 0⟩⟩

/-- The first packet is echoed twice; the second echo comes when the clock has been turned back. -/
def duplicatedReply : List Act :=
  [.enter, .clock ⟨10, 5⟩, .send ⟨10, 10⟩, .serve 0, .dupReply 0, .deliver 0, .recv ⟨10, 40⟩,
    .deliver 0, .enter, .clock ⟨11, 0⟩, .recv ⟨9, 0⟩, .stop, .leave, .join]

theorem duplicatedReply_consistent :
    ∃ s, (system oneSecond).run (Sys.init oneSecond) duplicatedReply = some s ∧
      (∀ i ∈ s.hist.indices, 0 ≤ i ∧ i < MAXI) ∧
      (system oneSecond).Along OneRow (Sys.init oneSecond) duplicatedReply ∧
      (system oneSecond).Along Recorded (Sys.init oneSecond) duplicatedReply ∧
      (∀ i < MAXI, ∃ row, s.stats[i]? = some row ∧ Agrees oneSecond (s.echoesIn oneSecond i) row) ∧
      (s.main = .done → s.out.length = (capped oneSecond.duration).toInt.toNat ∧
        ∀ i : Nat, (i : Int) < (capped oneSecond.duration).toInt → ∃ row,
          s.out[i]? = some (i + 1, row.line) ∧ Agrees oneSecond (s.echoesIn oneSecond i) row) := by
  have hfit : ClockFits oneSecond duplicatedReply := by
    intro t ht
    simp only [duplicatedReply, List.mem_cons, Act.recv.injEq, reduceCtorEq, List.not_mem_nil,
      or_false, false_or] at ht
    rcases ht with rfl | rfl <;> decide
  obtain ⟨s, hs⟩ := Option.isSome_iff_exists.mp (by decide +kernel :
    ((system oneSecond).run (Sys.init oneSecond) duplicatedReply).isSome = true)
  exact ⟨s, hs, report_consistent oneSecond ⟨by decide, by decide⟩ duplicatedReply hfit s hs⟩

end NetLab.Throughput
