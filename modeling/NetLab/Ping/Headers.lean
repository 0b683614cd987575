/-
  The packet header of q1client.c against the bytes that are really there.

  The client stores its header at the start of the send buffer, receives into the same buffer, and
  looks at the header there whatever `n` is. The size check makes the buffer large enough for the
  header. But a datagram shorter than a header leaves the end of the client's own header in place:
  an empty one leaves all of it, and is counted as the reply, with the time since the send.

  Anyone may send to the client's socket, so the machine has an environment here that puts datagrams
  of any length and content into the queue.

  * `ofArgv_eq_some`: which sizes pass the check and `malloc`.
  * `bufInv_step`: in a wait the buffer starts with the number of the pass.
  * `headersInside_iff_notMistaken`: the statistics change through received fields only, exactly if
    no short datagram agrees with the number of the pass as far as it goes.
-/
import NetLab.Ping.Sound

namespace NetLab.Ping

open NetLab.Lib

/-! ## The header -/

/-- Offset and size of the fields of a `packethead`. -/
def headerFields : List (Nat × Nat) := [(0, 4), (8, 8), (16, 8)]

/-- All fields lie within the first `n` bytes. -/
def FieldsWithin (n : Nat) : Prop := ∀ f ∈ headerFields, f.1 + f.2 ≤ n

theorem fieldsWithin_iff {n : Nat} : FieldsWithin n ↔ sizeofPackethead ≤ n := by
  unfold FieldsWithin headerFields sizeofPackethead
  simp
  omega

/-- A store of the header stays in the buffer exactly if the fields do. -/
theorem length_storeHead_eq_iff (buffer : Bytes) (head : Packethead) :
    (storeHead buffer head).length = buffer.length ↔ FieldsWithin buffer.length := by
  rw [fieldsWithin_iff]
  refine ⟨fun h => ?_, fun h => length_storeHead h head⟩
  unfold storeHead overwrite at h
  simp only [List.length_append, List.length_take, List.length_drop, length_int32Bytes,
    length_int64Bytes] at h
  unfold sizeofPackethead
  omega

/-- The stored number. -/
theorem slice_storeHead {buffer : Bytes} (h : sizeofPackethead ≤ buffer.length)
    (head : Packethead) : slice (storeHead buffer head) 0 4 = int32Bytes head.seq_num := by
  have hload := congrArg Packethead.seq_num (loadHead_storeHead h head)
  have hlen := length_storeHead h head
  unfold sizeofPackethead at h
  rw [← int32Bytes_int32Of (length_slice (by omega))]
  exact congrArg int32Bytes hload

/-! ## The size argument -/

/-- `packetsz` as a `size_t`. -/
def sizeT (packetsz : Int32) : UInt64 := packetsz.toInt64.toUInt64

/-- `malloc (size)`: no block is larger than half of the address space. -/
def malloc (size : UInt64) : Option Nat := if size.toNat < 2 ^ 63 then some size.toNat else none

/-- The checks of `main`: `packetsz < sizeof (packethead)` compares as `size_t`, and a failed
    `malloc` ends the process. -/
def Args.ofArgv (msgcount packetsz : Int32) : Option Args :=
  match malloc (sizeT packetsz) with
  | none => none
  | some size => if h : sizeofPackethead ≤ size then some ⟨msgcount, size, h⟩ else none

theorem sizeT_toNat (packetsz : Int32) :
    ((sizeT packetsz).toNat : Int) = packetsz.toInt % 2 ^ 64 := by
  have hlt := (sizeT packetsz).toNat_lt
  have hbmod : packetsz.toInt = ((sizeT packetsz).toNat : Int).bmod (2 ^ 64) := by
    rw [← Int32.toInt_toInt64]
    exact BitVec.toInt_eq_toNat_bmod _
  rw [hbmod, Int.bmod_def]
  omega

/-- A negative size is larger than any as a `size_t`, and cannot be allocated. -/
theorem malloc_sizeT {packetsz : Int32} {size : Nat} :
    malloc (sizeT packetsz) = some size ↔ (size : Int) = packetsz.toInt := by
  have hmod := sizeT_toNat packetsz
  have hlt := packetsz.toInt_lt
  have hle := packetsz.le_toInt
  unfold malloc
  rw [Option.ite_none_right_eq_some, Option.some.injEq]
  constructor
  · rintro ⟨hsmall, rfl⟩
    omega
  · intro hsize
    constructor <;> omega

/-- **The sizes a run starts with.** -/
theorem ofArgv_eq_some {msgcount packetsz : Int32} {a : Args} :
    Args.ofArgv msgcount packetsz = some a ↔
      a.msgcount = msgcount ∧ (a.packetsz : Int) = packetsz.toInt := by
  rw [← malloc_sizeT]
  unfold Args.ofArgv
  cases malloc (sizeT packetsz) with
  | none => exact iff_of_false nofun nofun
  | some size =>
    obtain ⟨count, size', hsize⟩ := a
    simp only [Option.dite_none_right_eq_some, Option.some.injEq, Args.mk.injEq]
    constructor
    · rintro ⟨_, rfl, rfl⟩
      exact ⟨rfl, rfl⟩
    · rintro ⟨rfl, rfl⟩
      exact ⟨hsize, rfl, rfl⟩

/-! ## Datagrams from any sender -/

/-- A datagram reaches the client's socket. -/
def Sys.inject (s : Sys) (bytes : Bytes) : Sys := { s with queue := s.queue ++ [⟨0, bytes⟩] }

/-- The machine in an environment that sends it any bytes. -/
def openSystem (a : Args) : Machine Sys (Act ⊕ Bytes) := (system a).exposed Sys.inject

/-- The client with other bytes in its buffer. -/
def Sys.withBuffer (s : Sys) (buffer : Bytes) : Sys :=
  { s with client := { s.client with buffer := buffer } }

/-- **The headers of a transition are in real bytes.** The header is stored in the buffer, and a
    datagram changes the counters only if the header is in the `n` bytes received, and to the same
    whatever the buffer held. -/
def HeadersInside (a : Args) (s : Sys) : Act ⊕ Bytes → Sys → Prop
  | .inl (.send _), _ => FieldsWithin a.packetsz
  | .inl (.sendFail _), _ => FieldsWithin a.packetsz
  | .inl (.recv rcvtime), s' => ∀ d ∈ s.queue.head?,
    (s'.client.stats ≠ s.client.stats → FieldsWithin (d.bytes.take a.packetsz).length) ∧
      ∀ buffer : Bytes, buffer.length = a.packetsz →
        ((s.withBuffer buffer).receive a d s.queue.tail rcvtime).client.stats = s'.client.stats
  | _, _ => True

/-- The datagram is too short for a header, and agrees with the number `i` as far as it goes. -/
def Mistakable (i : Int32) (bytes : Bytes) : Prop :=
  bytes.length < sizeofPackethead ∧ bytes.take 4 <+: int32Bytes i

instance (i : Int32) (bytes : Bytes) : Decidable (Mistakable i bytes) :=
  inferInstanceAs (Decidable (_ ∧ _))

/-- No such datagram is received. -/
def NotMistaken (s : Sys) : Act ⊕ Bytes → Sys → Prop
  | .inl (.recv _), _ => ∀ d ∈ s.queue.head?, ¬ Mistakable s.client.i d.bytes
  | _, _ => True

instance (s : Sys) (x : Act ⊕ Bytes) (s' : Sys) : Decidable (NotMistaken s x s') := by
  unfold NotMistaken
  split <;> infer_instance

/-! ## The buffer -/

/-- The client has stamped its buffer and has not received into it. -/
def Phase.Stamped : Phase → Prop
  | .sent => True
  | .waiting _ => True
  | _ => False

/-- The buffer keeps its size, and holds the number of the pass until a datagram is received. -/
structure BufInv (a : Args) (c : Client) : Prop where
  length : c.buffer.length = a.packetsz
  stamped : c.phase.Stamped → slice c.buffer 0 4 = int32Bytes c.i

variable {a : Args} {s s' : Sys}

theorem bufInv_init (a : Args) : BufInv a (Client.init a) where
  length := List.length_replicate
  stamped := nofun

theorem BufInv.slice_stamp (h : BufInv a s.client) (t : Timeval) :
    slice (s.client.stamp t) 0 4 = int32Bytes s.client.i :=
  slice_storeHead (h.length.symm ▸ a.size_ok) _

theorem BufInv.length_receive (h : BufInv a s.client) (d : Datagram) (rest : List Datagram)
    (t : Timeval) : (s.receive a d rest t).client.buffer.length = a.packetsz := by
  rw [← h.length]
  exact length_recvInto h.length.ge d.bytes

theorem bufInv_step (h : BufInv a s.client) {x : Act ⊕ Bytes}
    (hstep : (openSystem a).step s x = some s') : BufInv a s'.client := by
  cases x with
  | inr bytes =>
    obtain rfl := Option.some.inj hstep
    exact h
  | inl x =>
    replace hstep : step a s x = some s' := hstep
    cases x with
    | send t =>
      obtain ⟨_, _, _, rfl⟩ := step_send hstep
      exact ⟨length_stamp h.length t, fun _ => h.slice_stamp t⟩
    | sendFail t =>
      obtain ⟨hp, _, _, rfl⟩ := step_sendFail hstep
      refine ⟨length_stamp h.length t, fun hs => ?_⟩
      dsimp only at hs
      rw [hp] at hs
      exact hs.elim
    | wait =>
      obtain ⟨hp, rfl⟩ := step_wait hstep
      exact ⟨h.length, fun _ => h.stamped (hp ▸ trivial)⟩
    | recv t =>
      obtain ⟨_, d, rest, _, _, rfl⟩ := step_recv hstep
      exact ⟨h.length_receive d rest t, nofun⟩
    | timeout =>
      obtain ⟨_, _, _, _, rfl⟩ := step_timeout hstep
      exact ⟨h.length, nofun⟩
    | wake =>
      obtain ⟨_, _, rfl⟩ := step_wake hstep
      exact ⟨h.length, nofun⟩
    | finish =>
      obtain ⟨_, _, rfl⟩ := step_finish hstep
      exact ⟨h.length, nofun⟩
    | tick d =>
      obtain rfl := Option.some.inj hstep
      exact h
    | serve k | deliver k | loseRequest k | loseEcho k | dupRequest k | dupEcho k =>
      simp only [step, Option.map_eq_some_iff] at hstep
      obtain ⟨_, _, rfl⟩ := hstep
      exact h

/-! ## Short datagrams -/

/-- A reply has the number `i` only if the datagram agrees with it as far as it goes. -/
theorem take_prefix_of_seq_num {buffer : Bytes} (hb : buffer.length = a.packetsz) (bytes : Bytes)
    {i : Int32} (h : (loadHead (recvInto a.packetsz buffer bytes)).seq_num = i) :
    bytes.take 4 <+: int32Bytes i := by
  have hsize := a.size_ok
  unfold sizeofPackethead at hsize
  have hlen : 0 + 4 ≤ (recvInto a.packetsz buffer bytes).length := by
    rw [length_recvInto hb.ge, hb]
    omega
  have hslice : slice (recvInto a.packetsz buffer bytes) 0 4 = int32Bytes i := by
    rw [← h]
    exact (int32Bytes_int32Of (length_slice hlen)).symm
  rw [← hslice, slice_recvInto_zero buffer bytes (by omega)]
  exact List.prefix_append _ _

/-- In a wait such a datagram is taken for the reply. -/
theorem seq_num_of_take_prefix (a : Args) {buffer bytes : Bytes} {i : Int32}
    (hi : slice buffer 0 4 = int32Bytes i) (h : bytes.take 4 <+: int32Bytes i) :
    (loadHead (recvInto a.packetsz buffer bytes)).seq_num = i := by
  have hsize : 4 ≤ a.packetsz := le_trans (by decide) a.size_ok
  have hkeep := (slice_recvInto_zero_eq_iff buffer bytes hsize).mpr (hi.symm ▸ h)
  show int32Of (slice (recvInto a.packetsz buffer bytes) 0 4) = i
  rw [hkeep, hi, int32Of_int32Bytes]

theorem fieldsWithin_received (a : Args) (bytes : Bytes) :
    FieldsWithin (bytes.take a.packetsz).length ↔ sizeofPackethead ≤ bytes.length := by
  have hsize := a.size_ok
  rw [fieldsWithin_iff, List.length_take]
  omega

/-- What a `recvfrom` does to the counters. -/
theorem stats_receive (a : Args) (s : Sys) (d : Datagram) (rest : List Datagram) (t : Timeval) :
    (s.receive a d rest t).client.stats = s.client.stats.account s.client.i
      (readReply (recvInto a.packetsz s.client.buffer d.bytes) t) := rfl

/-- **What a datagram can do.** One that holds a header, or does not agree with the number of the
    pass, is taken by its own bytes only; any other is counted. -/
theorem receive_inside_iff (h : BufInv a s.client) (hs : s.client.phase.Stamped) (d : Datagram)
    (rest : List Datagram) (t : Timeval) :
    (((s.receive a d rest t).client.stats ≠ s.client.stats →
        FieldsWithin (d.bytes.take a.packetsz).length) ∧
      ∀ buffer : Bytes, buffer.length = a.packetsz →
        ((s.withBuffer buffer).receive a d rest t).client.stats =
          (s.receive a d rest t).client.stats) ↔ ¬ Mistakable s.client.i d.bytes := by
  rw [fieldsWithin_received]
  by_cases hlen : sizeofPackethead ≤ d.bytes.length
  · have hload := fun buffer => loadHead_recvInto buffer a.size_ok hlen
    refine iff_of_true ⟨fun _ => hlen, fun buffer _ => ?_⟩ fun hm => hm.1.not_ge hlen
    rw [stats_receive, stats_receive, readReply, readReply, hload, hload]
    rfl
  · constructor
    · rintro ⟨hchanged, _⟩ ⟨_, hagrees⟩
      refine hlen (hchanged fun heq => ?_)
      have hseq := seq_num_of_take_prefix a (h.stamped hs) hagrees
      have hrecvcnt := congrArg Stats.recvcnt heq
      rw [stats_receive, readReply, hseq, account_reply_self] at hrecvcnt
      exact Nat.succ_ne_self _ hrecvcnt
    · intro hm
      -- the number differs whatever is in the buffer
      have hkeep : ∀ buffer : Bytes, buffer.length = a.packetsz →
          ((s.withBuffer buffer).receive a d rest t).client.stats = s.client.stats :=
        fun buffer hb => account_reply_ne
          (fun hseq => hm ⟨by omega, take_prefix_of_seq_num hb d.bytes hseq⟩) _ _
      have hown : (s.receive a d rest t).client.stats = s.client.stats := hkeep _ h.length
      exact ⟨fun hne => absurd hown hne, fun buffer hb => (hkeep buffer hb).trans hown.symm⟩

theorem headersInside_step_iff (h : BufInv a s.client) (x : Act ⊕ Bytes)
    (hstep : (openSystem a).step s x = some s') : HeadersInside a s x s' ↔ NotMistaken s x s' := by
  have hstore : FieldsWithin a.packetsz := fieldsWithin_iff.mpr a.size_ok
  match x, hstep with
  | .inl (.send _), _ => exact iff_of_true hstore trivial
  | .inl (.sendFail _), _ => exact iff_of_true hstore trivial
  | .inl (.recv t), hstep =>
    obtain ⟨deadline, d, rest, hp, hq, rfl⟩ := step_recv hstep
    simp only [HeadersInside, NotMistaken, hq, List.head?_cons, List.tail_cons, Option.mem_def,
      Option.some.injEq, forall_eq']
    exact receive_inside_iff h (hp ▸ trivial) d rest t
  | .inl .wait, _ | .inl .timeout, _ | .inl .wake, _ | .inl .finish, _ | .inl (.tick _), _
  | .inl (.serve _), _ | .inl (.deliver _), _ | .inl (.loseRequest _), _ | .inl (.loseEcho _), _
  | .inl (.dupRequest _), _ | .inl (.dupEcho _), _ | .inr _, _ => exact Iff.rfl

/-- **When the headers are in real bytes.** In every run, whatever datagrams anyone sends: exactly
    as long as no datagram too short for a header agrees with the number of the pass. -/
theorem headersInside_iff_notMistaken (a : Args) (xs : List (Act ⊕ Bytes)) :
    (openSystem a).Along (HeadersInside a) (Sys.init a) xs ↔
      (openSystem a).Along NotMistaken (Sys.init a) xs :=
  (openSystem a).along_congr_of_inv (I := fun s => BufInv a s.client)
    (fun _ x _ h hstep => headersInside_step_iff h x hstep)
    (fun _ _ _ h hstep _ => bufInv_step h hstep) (bufInv_init a) xs

end NetLab.Ping
