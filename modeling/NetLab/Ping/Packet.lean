/-
  The measuring packet of Assignment10/Part 2 (q1client.c, q2client.c) and the echo servers.

  Both clients send buffers that start with a `packethead`, an `int` sequence number and the
  `struct timeval` of the send, and both servers send back the bytes they receive. The header is
  stored and loaded at the offsets of the C struct on a 64-bit Linux: `seq_num` at 0, four bytes of
  padding, `tv_sec` at 8, `tv_usec` at 16.

  Round-trip times are `double` in the source and rational numbers here: the arithmetic is exact.
-/
import NetLab.Lib.Bytes

namespace NetLab.Ping

open NetLab.Lib

/-- `struct timeval`. -/
structure Timeval where
  tv_sec : Int64
  tv_usec : Int64
deriving DecidableEq, Repr

/-- `packethead`. -/
structure Packethead where
  seq_num : Int32
  send_time : Timeval
deriving DecidableEq, Repr

/-- `sizeof (packethead)`. -/
def sizeofPackethead : Nat := 24

/-- The buffer after both fields of the header at its start are assigned. -/
def storeHead (buffer : Bytes) (head : Packethead) : Bytes :=
  overwrite (overwrite (overwrite buffer 0 (int32Bytes head.seq_num))
    8 (int64Bytes head.send_time.tv_sec)) 16 (int64Bytes head.send_time.tv_usec)

/-- The header at the start of the buffer. -/
def loadHead (buffer : Bytes) : Packethead :=
  ⟨int32Of (slice buffer 0 4), ⟨int64Of (slice buffer 8 8), int64Of (slice buffer 16 8)⟩⟩

theorem length_stores {buffer : Bytes} (h : sizeofPackethead ≤ buffer.length)
    (head : Packethead) :
    (overwrite buffer 0 (int32Bytes head.seq_num)).length = buffer.length ∧
      (overwrite (overwrite buffer 0 (int32Bytes head.seq_num))
        8 (int64Bytes head.send_time.tv_sec)).length = buffer.length := by
  unfold sizeofPackethead at h
  have h0 : (overwrite buffer 0 (int32Bytes head.seq_num)).length = buffer.length :=
    length_overwrite _ (by rw [length_int32Bytes]; omega)
  refine ⟨h0, ?_⟩
  rw [length_overwrite _ (by rw [length_int64Bytes, h0]; omega), h0]

@[simp] theorem length_storeHead {buffer : Bytes} (h : sizeofPackethead ≤ buffer.length)
    (head : Packethead) : (storeHead buffer head).length = buffer.length := by
  obtain ⟨h0, h8⟩ := length_stores h head
  unfold sizeofPackethead at h
  unfold storeHead
  rw [length_overwrite _ (by rw [length_int64Bytes, h8]; omega), h8]

/-- A header is read back as it was stored. -/
theorem loadHead_storeHead {buffer : Bytes} (h : sizeofPackethead ≤ buffer.length)
    (head : Packethead) : loadHead (storeHead buffer head) = head := by
  obtain ⟨h0, h8⟩ := length_stores h head
  unfold sizeofPackethead at h
  have hseq : slice (storeHead buffer head) 0 4 = int32Bytes head.seq_num := by
    unfold storeHead
    rw [slice_overwrite_before (by omega) (by rw [h8]; omega),
      slice_overwrite_before (by omega) (by rw [h0]; omega)]
    exact slice_overwrite_self (int32Bytes head.seq_num) (Nat.zero_le _)
  have hsec : slice (storeHead buffer head) 8 8 = int64Bytes head.send_time.tv_sec := by
    unfold storeHead
    rw [slice_overwrite_before (by omega) (by rw [h8]; omega)]
    exact slice_overwrite_self (int64Bytes head.send_time.tv_sec) (by rw [h0]; omega)
  have husec : slice (storeHead buffer head) 16 8 = int64Bytes head.send_time.tv_usec :=
    slice_overwrite_self (int64Bytes head.send_time.tv_usec) (by rw [h8]; omega)
  unfold loadHead
  rw [hseq, hsec, husec, int32Of_int32Bytes, int64Of_int64Bytes, int64Of_int64Bytes]

/-- The header of a datagram that is long enough is received whole. -/
theorem loadHead_recvInto {size : Nat} (buffer : Bytes) {datagram : Bytes}
    (hsize : sizeofPackethead ≤ size) (hd : sizeofPackethead ≤ datagram.length) :
    loadHead (recvInto size buffer datagram) = loadHead datagram := by
  unfold sizeofPackethead at hsize hd
  unfold loadHead
  rw [slice_recvInto buffer (by omega) (by omega), slice_recvInto buffer (by omega) (by omega),
    slice_recvInto buffer (by omega) (by omega)]

/-- What the servers send back: the bytes `recvfrom` put into their 65535-byte buffer. -/
def echo (datagram : Bytes) : Bytes := datagram.take 65535

/-- A datagram UDP can carry is echoed whole. -/
theorem echo_eq {datagram : Bytes} (h : datagram.length ≤ 65507) : echo datagram = datagram :=
  List.take_of_length_le (by omega)

/-- The clock reading in milliseconds. -/
def Timeval.ms (t : Timeval) : ℚ := t.tv_sec.toInt * 1000 + t.tv_usec.toInt / 1000

/-- `(rcv.tv_sec - snd.tv_sec) * 1000.0 + (rcv.tv_usec - snd.tv_usec) / 1000.0`. -/
def rtt (rcv snd : Timeval) : ℚ :=
  ((rcv.tv_sec.toInt - snd.tv_sec.toInt : Int) : ℚ) * 1000 +
    ((rcv.tv_usec.toInt - snd.tv_usec.toInt : Int) : ℚ) / 1000

theorem rtt_eq (rcv snd : Timeval) : rtt rcv snd = rcv.ms - snd.ms := by
  unfold rtt Timeval.ms
  push_cast
  ring

end NetLab.Ping
