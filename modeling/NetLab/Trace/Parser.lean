/-
  The reply parser of q3traceroute.c (lines 97-126).

  A packet from the raw socket starts with its IPv4 header, whose low nibble of the first byte is
  its length in words. Behind it stands the ICMP header, and in an error message, eight bytes
  further, the header of the quoted datagram and the start of its UDP header. The program reads all
  of it from the 512-byte `recv_buf` at offsets it computes from the bytes, and compares one field,
  the destination port.

  * `inner_udp_le`: whatever the buffer holds, the offsets stay inside it.
  * `ErrorMessage`: a Time Exceeded or Destination Unreachable message as a router writes it.
  * `check_recvInto`: on such a message the parser accepts exactly the port that is quoted.
-/
import NetLab.Lib.Bytes

namespace NetLab.Trace

open NetLab.Lib

def ICMP_DEST_UNREACH : UInt8 := 3
def ICMP_TIME_EXCEEDED : UInt8 := 11
def ICMP_UNREACH_PORT : UInt8 := 3

/-- `sizeof (recv_buf)`. -/
def recvBufSize : Nat := 512

/-! ## Reading -/

/-- The byte at offset `i`. -/
def byteAt (buf : Bytes) (i : Nat) : UInt8 := buf.getD i 0

/-- `ip_hl` of the header at `ip`, the low nibble of its first byte. -/
def ip_hl (buf : Bytes) (ip : Nat) : Nat := (byteAt buf ip).toNat % 16

/-- `ip_hdr->ip_hl << 2`. -/
def ip_hdr_len (buf : Bytes) : Nat := ip_hl buf 0 * 4

def icmp_type (buf : Bytes) : UInt8 := byteAt buf (ip_hdr_len buf)

def icmp_code (buf : Bytes) : UInt8 := byteAt buf (ip_hdr_len buf + 1)

/-- The offset of the quoted IPv4 header. -/
def inner_ip (buf : Bytes) : Nat := ip_hdr_len buf + 8

/-- The offset of the quoted UDP header. -/
def inner_udp (buf : Bytes) : Nat := inner_ip buf + ip_hl buf (inner_ip buf) * 4

/-- `ntohs (inner_udp->uh_dport)`. -/
def uh_dport (buf : Bytes) : Nat :=
  (byteAt buf (inner_udp buf + 2)).toNat * 256 + (byteAt buf (inner_udp buf + 3)).toNat

/-- What sets `check` for a probe sent to `port`. -/
def check (port : Nat) (buf : Bytes) : Prop :=
  (icmp_type buf = ICMP_TIME_EXCEEDED ∨ icmp_type buf = ICMP_DEST_UNREACH) ∧ uh_dport buf = port

instance (port : Nat) (buf : Bytes) : Decidable (check port buf) :=
  inferInstanceAs (Decidable (_ ∧ _))

/-- The reply comes from the destination itself. -/
def portUnreachable (buf : Bytes) : Prop :=
  icmp_type buf = ICMP_DEST_UNREACH ∧ icmp_code buf = ICMP_UNREACH_PORT

instance (buf : Bytes) : Decidable (portUnreachable buf) := inferInstanceAs (Decidable (_ ∧ _))

/-- No byte outside `recv_buf` is read. -/
theorem inner_udp_le (buf : Bytes) : inner_udp buf + 4 ≤ recvBufSize := by
  have hlt : ∀ ip, ip_hl buf ip < 16 := fun ip => Nat.mod_lt _ (by decide)
  have houter := hlt 0
  have hinner := hlt (inner_ip buf)
  unfold inner_udp
  unfold inner_ip ip_hdr_len at *
  unfold recvBufSize
  omega

/-! ## Error messages -/

/-- An IPv4 header of `hl` words. -/
structure IpHeader where
  hl : Nat
  /-- What follows the first byte, options included. -/
  rest : Bytes
  hl_ge : 5 ≤ hl
  hl_le : hl ≤ 15
  length_rest : rest.length + 1 = hl * 4
deriving DecidableEq, Repr

/-- Version 4 in the high nibble, the length in the low one. -/
def IpHeader.bytes (h : IpHeader) : Bytes := UInt8.ofNat (64 + h.hl) :: h.rest

inductive ErrorType where
  | timeExceeded
  | destUnreach
deriving DecidableEq, Repr

def ErrorType.toByte : ErrorType → UInt8
  | .timeExceeded => ICMP_TIME_EXCEEDED
  | .destUnreach => ICMP_DEST_UNREACH

/-- Two bytes in network order. -/
def be16 (x : UInt16) : Bytes := [UInt8.ofNat (x.toNat / 256), UInt8.ofNat x.toNat]

/-- An ICMP error message but for the destination port of the datagram it quotes. -/
structure ErrorMessage where
  outer : IpHeader
  type : ErrorType
  code : UInt8
  /-- Checksum and unused word. -/
  checksum : Bytes
  inner : IpHeader
  sport : UInt16
  /-- Length and checksum of the quoted datagram, and what is quoted of its payload. -/
  tail : Bytes
  length_checksum : checksum.length = 6
deriving DecidableEq, Repr

/-- The ICMP message with the quoted datagram. -/
def ErrorMessage.icmp (e : ErrorMessage) (dport : UInt16) : Bytes :=
  e.type.toByte :: e.code :: (e.checksum ++ (e.inner.bytes ++ (be16 e.sport ++
    (be16 dport ++ e.tail))))

/-- The packet the raw socket delivers. -/
def ErrorMessage.bytes (e : ErrorMessage) (dport : UInt16) : Bytes := e.outer.bytes ++ e.icmp dport

@[simp] theorem IpHeader.length_bytes (h : IpHeader) : h.bytes.length = h.hl * 4 :=
  h.length_rest

theorem IpHeader.byteAt_bytes (h : IpHeader) (r : Bytes) :
    (byteAt (h.bytes ++ r) 0).toNat % 16 = h.hl := by
  have hle := h.hl_le
  show (UInt8.ofNat (64 + h.hl)).toNat % 16 = h.hl
  rw [UInt8.toNat_ofNat']
  omega

theorem be16_value (x : UInt16) :
    (UInt8.ofNat (x.toNat / 256)).toNat * 256 + (UInt8.ofNat x.toNat).toNat = x.toNat := by
  have hlt := x.toNat_lt
  rw [UInt8.toNat_ofNat', UInt8.toNat_ofNat']
  omega

/-- Reading behind a part of known length. -/
theorem byteAt_append {l r : Bytes} {n : Nat} (hl : l.length = n) (i : Nat) :
    byteAt (l ++ r) (n + i) = byteAt r i := by
  subst hl
  unfold byteAt
  rw [List.getD_eq_getElem?_getD, List.getElem?_append_right (Nat.le_add_right _ _),
    Nat.add_sub_cancel_left, List.getD_eq_getElem?_getD]

/-! ## Parsing an error message -/

/-- The datagram's own bytes are read where it reaches. -/
theorem byteAt_recvInto (buf : Bytes) {packet : Bytes} {i : Nat} (hi : i < recvBufSize)
    (hp : i < packet.length) : byteAt (recvInto recvBufSize buf packet) i = byteAt packet i := by
  unfold byteAt
  rw [List.getD_eq_getElem?_getD, getElem?_recvInto buf hi hp, List.getD_eq_getElem?_getD]

variable (e : ErrorMessage) (dport : UInt16)

theorem ErrorMessage.length_bytes :
    (e.bytes dport).length = e.outer.hl * 4 + 8 + e.inner.hl * 4 + 4 + e.tail.length := by
  unfold ErrorMessage.bytes ErrorMessage.icmp be16
  simp only [List.length_append, List.length_cons, List.length_nil, IpHeader.length_bytes,
    e.length_checksum]
  omega

/-- Behind the outer header. -/
theorem ErrorMessage.byteAt_icmp (i : Nat) :
    byteAt (e.bytes dport) (e.outer.hl * 4 + i) = byteAt (e.icmp dport) i :=
  byteAt_append e.outer.length_bytes i

/-- Behind the ICMP header. -/
theorem ErrorMessage.byteAt_quoted (i : Nat) :
    byteAt (e.bytes dport) (e.outer.hl * 4 + 8 + i) =
      byteAt (e.inner.bytes ++ (be16 e.sport ++ (be16 dport ++ e.tail))) i := by
  have hlen : (e.type.toByte :: e.code :: e.checksum).length = 8 := by
    simp only [List.length_cons, e.length_checksum]
  rw [Nat.add_assoc, e.byteAt_icmp]
  exact byteAt_append hlen i

/-- Behind the quoted IPv4 header. -/
theorem ErrorMessage.byteAt_udp (i : Nat) :
    byteAt (e.bytes dport) (e.outer.hl * 4 + 8 + e.inner.hl * 4 + i) =
      byteAt (be16 e.sport ++ (be16 dport ++ e.tail)) i := by
  rw [Nat.add_assoc, e.byteAt_quoted]
  exact byteAt_append e.inner.length_bytes i

/-- The offsets the parser computes are those of the message's parts. -/
theorem ErrorMessage.offsets (buf : Bytes) :
    ip_hdr_len (recvInto recvBufSize buf (e.bytes dport)) = e.outer.hl * 4 ∧
      inner_udp (recvInto recvBufSize buf (e.bytes dport)) =
        e.outer.hl * 4 + 8 + e.inner.hl * 4 := by
  have hlen := e.length_bytes dport
  have hle := e.outer.hl_le
  have houter : ip_hdr_len (recvInto recvBufSize buf (e.bytes dport)) = e.outer.hl * 4 := by
    unfold ip_hdr_len ip_hl
    rw [byteAt_recvInto buf (by decide) (by omega), ErrorMessage.bytes, e.outer.byteAt_bytes]
  refine ⟨houter, ?_⟩
  unfold inner_udp inner_ip ip_hl
  rw [houter, byteAt_recvInto buf (by unfold recvBufSize; omega) (by omega)]
  have hquoted := e.byteAt_quoted dport 0
  rw [Nat.add_zero] at hquoted
  rw [hquoted, e.inner.byteAt_bytes]

theorem ErrorMessage.icmp_type_recvInto (buf : Bytes) :
    icmp_type (recvInto recvBufSize buf (e.bytes dport)) = e.type.toByte := by
  have hlen := e.length_bytes dport
  have hle := e.outer.hl_le
  unfold icmp_type
  rw [(e.offsets dport buf).1, byteAt_recvInto buf (by unfold recvBufSize; omega) (by omega)]
  exact e.byteAt_icmp dport 0

theorem ErrorMessage.uh_dport_recvInto (buf : Bytes) :
    uh_dport (recvInto recvBufSize buf (e.bytes dport)) = dport.toNat := by
  have hlen := e.length_bytes dport
  have houter := e.outer.hl_le
  have hinner := e.inner.hl_le
  unfold uh_dport
  rw [(e.offsets dport buf).2, byteAt_recvInto buf (by unfold recvBufSize; omega) (by omega),
    byteAt_recvInto buf (by unfold recvBufSize; omega) (by omega), e.byteAt_udp, e.byteAt_udp]
  exact be16_value dport

/-- **On an error message the parser accepts exactly the port that is quoted.** -/
theorem check_recvInto (port : Nat) (buf : Bytes) :
    check port (recvInto recvBufSize buf (e.bytes dport)) ↔ dport.toNat = port := by
  unfold check
  rw [e.icmp_type_recvInto, e.uh_dport_recvInto]
  refine and_iff_right ?_
  cases e.type with
  | timeExceeded => exact .inl rfl
  | destUnreach => exact .inr rfl

end NetLab.Trace
