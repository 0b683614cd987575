/-
  The packet header of q2client.c against the bytes that are really there, and both clients together.

  The size of the packets is not checked, so the header is stored in any block that `malloc` gives,
  also in one that is too small for it. The receiver loads the header for any `n > 0`: after a
  datagram shorter than a header the time of the send is one that an earlier datagram left in its
  buffer.

  As for q1client.c, the machine has an environment that puts datagrams of any length and content
  into the queue of the client's socket.

  * `ofArgv_eq_some`: which sizes `malloc` has a block for.
  * `headersInside_iff_sufficient`: when the stores and the statistics use real bytes only.
  * `headers_inside_iff`: the same of both clients, for all sizes they start with.
-/
import NetLab.Ping.Headers
import NetLab.Throughput.System

namespace NetLab.Throughput

open NetLab.Lib
open NetLab.Ping (Timeval Packethead sizeofPackethead loadHead loadHead_recvInto FieldsWithin
  fieldsWithin_iff sizeT malloc malloc_sizeT)

/-! ## The size argument -/

/-- The size is not looked at. If `malloc` fails, `memset` stores through the null pointer and the
    process ends. -/
def Args.ofArgv (duration packetsz : Int32) (start_test_time : Timeval) : Option Args :=
  (malloc (sizeT packetsz)).map fun size => ⟨duration, size, start_test_time⟩

theorem ofArgv_eq_some {duration packetsz : Int32} {start_test_time : Timeval} {a : Args} :
    Args.ofArgv duration packetsz start_test_time = some a ↔
      a.duration = duration ∧ a.start_test_time = start_test_time ∧
        (a.packetsz : Int) = packetsz.toInt := by
  rw [← malloc_sizeT]
  unfold Args.ofArgv
  cases malloc (sizeT packetsz) with
  | none => exact iff_of_false nofun nofun
  | some size =>
    obtain ⟨d, size', start⟩ := a
    simp only [Option.map_some, Option.some.injEq, Args.mk.injEq]
    constructor
    · rintro ⟨rfl, rfl, rfl⟩
      exact ⟨rfl, rfl, rfl⟩
    · rintro ⟨rfl, rfl, rfl⟩
      exact ⟨rfl, rfl, rfl⟩

/-! ## Datagrams from any sender -/

/-- A datagram reaches the client's socket. -/
def Sys.inject (s : Sys) (bytes : Bytes) : Sys :=
  { s with queue := s.queue ++ [⟨⟨0, 0⟩, bytes⟩] }

/-- The machine in an environment that sends it any bytes. -/
def openSystem (a : Args) : Machine Sys (Act ⊕ Bytes) := (system a).exposed Sys.inject

/-- **The headers of a transition are in real bytes.** The header is stored in the buffer, and a
    datagram changes the table only if the header is in the `n` bytes received, and to the same
    whatever the receiver's buffer held. -/
def HeadersInside (a : Args) (s : Sys) : Act ⊕ Bytes → Sys → Prop
  | .inl (.send _), _ => FieldsWithin a.packetsz
  | .inl (.sendFail _), _ => FieldsWithin a.packetsz
  | .inl (.recv rcvtime), s' => ∀ d ∈ s.queue.head?,
    (s'.stats ≠ s.stats → FieldsWithin (d.bytes.take rcvBufSize).length) ∧
      ∀ recvbuf : Bytes, recvbuf.length = rcvBufSize →
        (Sys.receive a { s with recvbuf := recvbuf } d s.queue.tail rcvtime).stats = s'.stats
  | _, _ => True

/-- The datagram is too short for a header, and the table has a row for it. -/
def Misread (a : Args) (rcvtime : Timeval) (bytes : Bytes) : Prop :=
  0 < bytes.length ∧ bytes.length < sizeofPackethead ∧ InTable (secindex a.start_test_time rcvtime)

instance (a : Args) (rcvtime : Timeval) (bytes : Bytes) : Decidable (Misread a rcvtime bytes) :=
  inferInstanceAs (Decidable (_ ∧ _))

/-- The packets hold a header, and no such datagram is received. -/
def Sufficient (a : Args) (s : Sys) : Act ⊕ Bytes → Sys → Prop
  | .inl (.send _), _ => sizeofPackethead ≤ a.packetsz
  | .inl (.sendFail _), _ => sizeofPackethead ≤ a.packetsz
  | .inl (.recv rcvtime), _ => ∀ d ∈ s.queue.head?, ¬ Misread a rcvtime d.bytes
  | _, _ => True

instance (a : Args) (s : Sys) (x : Act ⊕ Bytes) (s' : Sys) : Decidable (Sufficient a s x s') := by
  unfold Sufficient
  split <;> infer_instance

/-! ## Short datagrams -/

variable {a : Args} {s s' : Sys}

/-- The table keeps its length. -/
theorem length_stats_step {x : Act ⊕ Bytes} (h : s.stats.length = MAXI)
    (hstep : (openSystem a).step s x = some s') : s'.stats.length = MAXI := by
  cases x with
  | inr bytes =>
    obtain rfl := Option.some.inj hstep
    exact h
  | inl x =>
    rcases stats_step hstep with heq | ⟨r, heq⟩
    · rw [heq, h]
    · rw [heq, length_account, h]

/-- **What a datagram can do.** One that holds a header, is empty or comes at a time without a row
    is taken by its own bytes only; any other is added to a row. -/
theorem receive_inside_iff (h : s.stats.length = MAXI) (d : Datagram) (rest : List Datagram)
    (t : Timeval) :
    (((s.receive a d rest t).stats ≠ s.stats →
        FieldsWithin (d.bytes.take rcvBufSize).length) ∧
      ∀ recvbuf : Bytes, recvbuf.length = rcvBufSize →
        (Sys.receive a { s with recvbuf := recvbuf } d rest t).stats =
          (s.receive a d rest t).stats) ↔ ¬ Misread a t d.bytes := by
  have hn : (d.bytes.take rcvBufSize).length = min rcvBufSize d.bytes.length := List.length_take
  have hbuf : rcvBufSize = 65535 := rfl
  have hhead : sizeofPackethead = 24 := rfl
  simp only [stats_receive, fieldsWithin_iff]
  by_cases hpos : 0 < (d.bytes.take rcvBufSize).length
  · simp only [if_pos hpos]
    by_cases hlen : sizeofPackethead ≤ d.bytes.length
    · have hload := fun recvbuf => loadHead_recvInto recvbuf (by decide : _ ≤ rcvBufSize) hlen
      refine iff_of_true ⟨fun _ => by omega, fun recvbuf _ => ?_⟩ fun hm => hm.2.1.not_ge hlen
      unfold reception
      rw [hload, hload]
    · by_cases hin : InTable (secindex a.start_test_time t)
      · refine iff_of_false (fun hinside => ?_) (not_not_intro ⟨by omega, by omega, hin⟩)
        have hle := hinside.1 fun heq => (account_eq_self_iff h a.start_test_time _).mp heq hin
        omega
      · have hkeep := fun r (hr : r.rcvtime = t) =>
          (account_eq_self_iff h a.start_test_time r).mpr (hr.symm ▸ hin)
        refine iff_of_true ⟨fun hne => absurd (hkeep _ rfl) hne, fun recvbuf _ => ?_⟩
          fun hm => hin hm.2.2
        rw [hkeep _ rfl, hkeep _ rfl]
  · simp only [if_neg hpos]
    refine iff_of_true ⟨fun hne => absurd rfl hne, fun _ _ => trivial⟩ fun hm => ?_
    have := hm.1
    omega

theorem headersInside_step_iff (h : s.stats.length = MAXI) (x : Act ⊕ Bytes)
    (hstep : (openSystem a).step s x = some s') :
    HeadersInside a s x s' ↔ Sufficient a s x s' := by
  match x, hstep with
  | .inl (.send _), _ | .inl (.sendFail _), _ => exact fieldsWithin_iff
  | .inl (.recv t), hstep =>
    obtain ⟨d, rest, _, hq, rfl⟩ := step_recv hstep
    simp only [HeadersInside, Sufficient, hq, List.head?_cons, List.tail_cons, Option.mem_def,
      Option.some.injEq, forall_eq']
    exact receive_inside_iff h d rest t
  | .inl (.clock _), _ | .inl .stop, _ | .inl .join, _ | .inl .enter, _ | .inl .leave, _
  | .inl .recvFail, _ | .inl (.serve _), _ | .inl (.deliver _), _ | .inl (.loseRequest _), _
  | .inl (.loseReply _), _ | .inl (.dupRequest _), _ | .inl (.dupReply _), _ | .inr _, _ =>
    exact Iff.rfl

/-- When the headers are in real bytes. In every run, whatever datagrams anyone sends: exactly as
    long as the packets hold a header, and no datagram that is too short for one gets a row. -/
theorem headersInside_iff_sufficient (a : Args) (xs : List (Act ⊕ Bytes)) :
    (openSystem a).Along (HeadersInside a) (Sys.init a) xs ↔
      (openSystem a).Along (Sufficient a) (Sys.init a) xs :=
  (openSystem a).along_congr_of_inv (I := fun s => s.stats.length = MAXI)
    (fun _ x _ h hstep => headersInside_step_iff h x hstep)
    (fun _ _ _ h hstep _ => length_stats_step h hstep) List.length_replicate xs

/-! ## Both clients -/

/-- A run of one of the measuring clients, with a size argument it starts with. -/
inductive Measurement where
  | q1client (msgcount packetsz : Int32) (a : Ping.Args)
      (accepted : Ping.Args.ofArgv msgcount packetsz = some a) (xs : List (Ping.Act ⊕ Bytes))
  | q2client (duration packetsz : Int32) (start_test_time : Timeval) (a : Args)
      (accepted : Args.ofArgv duration packetsz start_test_time = some a) (xs : List (Act ⊕ Bytes))

/-- Every transition of the run has its headers in real bytes. -/
def Measurement.HeadersInside : Measurement → Prop
  | .q1client _ _ a _ xs => (Ping.openSystem a).Along (Ping.HeadersInside a) (Ping.Sys.init a) xs
  | .q2client _ _ _ a _ xs =>
    (openSystem a).Along (Throughput.HeadersInside a) (Sys.init a) xs

/-- The packets hold a header, and no datagram that is too short for one matters. -/
def Measurement.Sufficient : Measurement → Prop
  | .q1client _ _ a _ xs => (Ping.openSystem a).Along Ping.NotMistaken (Ping.Sys.init a) xs
  | .q2client _ _ _ a _ xs => (openSystem a).Along (Throughput.Sufficient a) (Sys.init a) xs

/-- **When packet headers stay inside real bytes.** For every size a client starts with and every
    run of it: q1client exactly as long as no datagram too short for a header agrees with the number
    of the pass, q2client exactly as long as its packets hold a header and no shorter datagram gets
    a row. -/
theorem headers_inside_iff (m : Measurement) : m.HeadersInside ↔ m.Sufficient := by
  cases m with
  | q1client _ _ a _ xs => exact Ping.headersInside_iff_notMistaken a xs
  | q2client _ _ _ a _ xs => exact headersInside_iff_sufficient a xs

/-- An empty datagram comes while q1client waits for its first echo. -/
def emptyDatagram : Measurement :=
  .q1client 1 24 Ping.oneProbe (Ping.ofArgv_eq_some.mpr ⟨rfl, rfl⟩)
    [.inl (.send ⟨10, 0⟩), .inl .wait, .inr [], .inl (.recv ⟨10, 2500⟩)]

/-- q2client sends its first packet, of eight bytes. -/
def eightBytes : Measurement :=
  .q2client 1 8 ⟨10, 0⟩ ⟨1, 8, ⟨10, 0⟩⟩ (ofArgv_eq_some.mpr ⟨rfl, rfl, rfl⟩)
    [.inl (.clock ⟨10, 5⟩), .inl (.send ⟨10, 10⟩)]

/-- q1client counts the empty datagram, and q2client stores a header in eight bytes. -/
theorem emptyDatagram_counted : ¬ emptyDatagram.HeadersInside ∧ ¬ eightBytes.HeadersInside := by
  constructor
  · intro h
    have hnot := (Ping.headersInside_iff_notMistaken Ping.oneProbe _).mp h
    revert hnot
    decide +kernel
  · intro h
    have hsufficient := (headersInside_iff_sufficient ⟨1, 8, ⟨10, 0⟩⟩ _).mp h
    revert hsufficient
    decide +kernel

end NetLab.Throughput
