/-
  The reply parser of q3traceroute.c against a parser of the received bytes.

  `accepts` reads a packet as the protocols say: an IPv4 header of the length it states, an ICMP
  error message, a quoted IPv4 header of a UDP datagram to the destination, and its port. The program
  looks at the type and the port only, and finds them at offsets in `recv_buf`, of which the packet
  may fill less than it reads. So a quoted datagram of another protocol or to another host passes,
  and where the packet ends early the bytes of an earlier one decide.

  * `accepts_iff`: what the reference reads, at the program's own offsets.
  * `rejects_sound`: a byte of the packet that rules the probe out does so whatever `recv_buf` held.
  * `exists_check`: a packet without such a byte is accepted behind some contents of `recv_buf`.
  * `exact_iff`: when the program's verdict is the reference's.
-/
import NetLab.Trace.Parser

namespace NetLab.Trace

open NetLab.Lib

/-! ## The reference -/

/-- The IPv4 header `bs` starts with, of the length it states, and what follows it. -/
def splitIpv4 (bs : Bytes) : Option (Bytes × Bytes) :=
  match bs with
  | [] => none
  | b :: _ =>
    let len := b.toNat % 16 * 4
    if b.toNat / 16 = 4 ∧ 20 ≤ len ∧ len ≤ bs.length then some (bs.take len, bs.drop len) else none

/-- The packet is an ICMP error that quotes a UDP datagram to `port` of `destaddr`. -/
def accepts (destaddr : Bytes) (port : UInt16) (packet : Bytes) : Bool :=
  match splitIpv4 packet with
  | none => false
  | some (_, icmp) =>
    match splitIpv4 (icmp.drop 8) with
    | none => false
    | some (inner, udp) =>
      (icmp[0]? = some ICMP_TIME_EXCEEDED ∨ icmp[0]? = some ICMP_DEST_UNREACH) ∧
        inner[9]? = some 17 ∧ slice inner 16 4 = destaddr ∧ slice udp 2 2 = be16 port

/-- A packet as `recvfrom` puts it into `recv_buf`. -/
structure Received where
  bytes : Bytes
  length_le : bytes.length ≤ recvBufSize

/-- Whatever `recv_buf` held, the verdict is that of the reference. -/
def Exact (destaddr : Bytes) (port : UInt16) (packet : Received) : Prop :=
  ∀ recv_buf : Bytes, recv_buf.length = recvBufSize →
    (check port.toNat (recvInto recvBufSize recv_buf packet.bytes) ↔
      accepts destaddr port packet.bytes = true)

/-! ## What decides -/

def isError (type : UInt8) : Prop := type = ICMP_TIME_EXCEEDED ∨ type = ICMP_DEST_UNREACH

instance (type : UInt8) : Decidable (isError type) := inferInstanceAs (Decidable (_ ∨ _))

/-- What the program does not look at: both IPv4 headers, the protocol and the address, and that the
    packet reaches to the end of the port. -/
structure Quotes (destaddr packet : Bytes) : Prop where
  outer : (byteAt packet 0).toNat / 16 = 4 ∧ 5 ≤ ip_hl packet 0
  inner : (byteAt packet (inner_ip packet)).toNat / 16 = 4 ∧ 5 ≤ ip_hl packet (inner_ip packet)
  reaches : inner_udp packet + 4 ≤ packet.length
  protocol : byteAt packet (inner_ip packet + 9) = 17
  address : slice packet (inner_ip packet + 16) 4 = destaddr

/-- A byte of the packet itself rules the probe out: the type, or one of the port. -/
def Rejects (port : UInt16) (packet : Bytes) : Prop :=
  (ip_hdr_len packet < packet.length ∧ ¬ isError (icmp_type packet)) ∨
    (inner_udp packet + 2 < packet.length ∧
      byteAt packet (inner_udp packet + 2) ≠ UInt8.ofNat (port.toNat / 256)) ∨
    (inner_udp packet + 3 < packet.length ∧
      byteAt packet (inner_udp packet + 3) ≠ UInt8.ofNat port.toNat)

/-! ## Reading -/

theorem be16_eq_iff {b c : UInt8} {x : UInt16} :
    b.toNat * 256 + c.toNat = x.toNat ↔
      b = UInt8.ofNat (x.toNat / 256) ∧ c = UInt8.ofNat x.toNat := by
  have hb := b.toNat_lt
  have hc := c.toNat_lt
  constructor
  · intro h
    constructor
    · apply UInt8.toNat_inj.mp
      rw [UInt8.toNat_ofNat']
      omega
    · apply UInt8.toNat_inj.mp
      rw [UInt8.toNat_ofNat']
      omega
  · rintro ⟨rfl, rfl⟩
    exact be16_value x

theorem byteAt_drop (bs : Bytes) (k i : Nat) : byteAt (bs.drop k) i = byteAt bs (k + i) := by
  unfold byteAt
  rw [List.getD_eq_getElem?_getD, List.getElem?_drop, List.getD_eq_getElem?_getD]

theorem getElem?_eq_some_byteAt {bs : Bytes} {i : Nat} {b : UInt8} (h : i < bs.length) :
    bs[i]? = some b ↔ byteAt bs i = b := by
  unfold byteAt
  rw [List.getD_eq_getElem?_getD, List.getElem?_eq_getElem h, Option.some.injEq, Option.getD_some]

theorem splitIpv4_eq_some {bs h r : Bytes} :
    splitIpv4 bs = some (h, r) ↔
      ((byteAt bs 0).toNat / 16 = 4 ∧ 5 ≤ ip_hl bs 0 ∧ ip_hl bs 0 * 4 ≤ bs.length) ∧
        bs.take (ip_hl bs 0 * 4) = h ∧ bs.drop (ip_hl bs 0 * 4) = r := by
  cases bs with
  | nil =>
    refine iff_of_false nofun fun hbs => ?_
    exact absurd hbs.1.1 (by decide)
  | cons b bs =>
    have hlen : ip_hl (b :: bs) 0 = b.toNat % 16 := rfl
    have hb : byteAt (b :: bs) 0 = b := rfl
    unfold splitIpv4
    dsimp only
    rw [Option.ite_none_right_eq_some, Option.some.injEq, Prod.mk.injEq, hlen, hb]
    have h20 : 20 ≤ b.toNat % 16 * 4 ↔ 5 ≤ b.toNat % 16 := by omega
    rw [h20]

/-- Two bytes of a buffer that has them. -/
theorem slice_two {bs : Bytes} {i : Nat} {b c : UInt8} :
    slice bs i 2 = [b, c] ↔ i + 2 ≤ bs.length ∧ byteAt bs i = b ∧ byteAt bs (i + 1) = c := by
  unfold slice
  rcases hd : bs.drop i with _ | ⟨b', _ | ⟨c', rest⟩⟩
  all_goals
    have hlen := congrArg List.length hd
    rw [List.length_drop] at hlen
  · refine iff_of_false nofun fun h => ?_
    rw [List.length_nil] at hlen
    omega
  · refine iff_of_false nofun fun h => ?_
    rw [List.length_singleton] at hlen
    omega
  · simp only [List.length_cons] at hlen
    have h0 : byteAt bs i = b' := by
      have h := byteAt_drop bs i 0
      rw [hd] at h
      exact h.symm
    have h1 : byteAt bs (i + 1) = c' := by
      have h := byteAt_drop bs i 1
      rw [hd] at h
      exact h.symm
    rw [h0, h1, and_iff_right (by omega : i + 2 ≤ bs.length)]
    show [b', c'] = [b, c] ↔ _
    rw [List.cons.injEq, List.cons.injEq, and_iff_left rfl]

theorem accepts_eq_true {destaddr packet : Bytes} {port : UInt16} :
    accepts destaddr port packet = true ↔ ∃ outer icmp inner udp,
      splitIpv4 packet = some (outer, icmp) ∧ splitIpv4 (icmp.drop 8) = some (inner, udp) ∧
        (icmp[0]? = some ICMP_TIME_EXCEEDED ∨ icmp[0]? = some ICMP_DEST_UNREACH) ∧
        inner[9]? = some 17 ∧ slice inner 16 4 = destaddr ∧ slice udp 2 2 = be16 port := by
  unfold accepts
  constructor
  · intro h
    split at h
    · cases h
    · rename_i outer icmp houter
      split at h
      · cases h
      · rename_i inner udp hinner
        exact ⟨outer, icmp, inner, udp, houter, hinner, of_decide_eq_true h⟩
  · rintro ⟨outer, icmp, inner, udp, houter, hinner, h⟩
    rw [houter]
    dsimp only
    rw [hinner]
    exact decide_eq_true h

/-- The parts of a packet, at the program's offsets. -/
theorem splitIpv4_twice {packet outer icmp inner udp : Bytes} :
    (splitIpv4 packet = some (outer, icmp) ∧ splitIpv4 (icmp.drop 8) = some (inner, udp)) ↔
      ((byteAt packet 0).toNat / 16 = 4 ∧ 5 ≤ ip_hl packet 0) ∧
        ((byteAt packet (inner_ip packet)).toNat / 16 = 4 ∧
          5 ≤ ip_hl packet (inner_ip packet)) ∧
        inner_udp packet ≤ packet.length ∧
        packet.take (ip_hdr_len packet) = outer ∧ packet.drop (ip_hdr_len packet) = icmp ∧
        (packet.drop (inner_ip packet)).take (ip_hl packet (inner_ip packet) * 4) = inner ∧
        packet.drop (inner_udp packet) = udp := by
  have hrest : (packet.drop (ip_hdr_len packet)).drop 8 = packet.drop (inner_ip packet) :=
    List.drop_drop
  have hbyte : byteAt (packet.drop (inner_ip packet)) 0 = byteAt packet (inner_ip packet) :=
    byteAt_drop packet (inner_ip packet) 0
  have hhl : ip_hl (packet.drop (inner_ip packet)) 0 = ip_hl packet (inner_ip packet) := by
    unfold ip_hl
    rw [hbyte]
  have hudp : (packet.drop (inner_ip packet)).drop (ip_hl packet (inner_ip packet) * 4) =
      packet.drop (inner_udp packet) := List.drop_drop
  have hlen : inner_udp packet = inner_ip packet + ip_hl packet (inner_ip packet) * 4 := rfl
  have hip : inner_ip packet = ip_hl packet 0 * 4 + 8 := rfl
  constructor
  · rintro ⟨houter, hinner⟩
    obtain ⟨⟨hver, hhl0, hle⟩, hout, hicmp⟩ := splitIpv4_eq_some.mp houter
    rw [← hicmp] at hinner
    have hinner' : splitIpv4 (packet.drop (inner_ip packet)) = some (inner, udp) := hrest ▸ hinner
    obtain ⟨⟨hver1, hhl1, hle1⟩, hin, hu⟩ := splitIpv4_eq_some.mp hinner'
    rw [hbyte] at hver1
    rw [hhl] at hhl1 hle1 hin hu
    rw [List.length_drop] at hle1
    exact ⟨⟨hver, hhl0⟩, ⟨hver1, hhl1⟩, by omega, hout, hicmp, hin, hudp ▸ hu⟩
  · rintro ⟨⟨hver, hhl0⟩, ⟨hver1, hhl1⟩, hle, hout, hicmp, hin, hu⟩
    refine ⟨splitIpv4_eq_some.mpr ⟨⟨hver, hhl0, by omega⟩, hout, hicmp⟩, ?_⟩
    rw [← hicmp, hrest]
    apply splitIpv4_eq_some.mpr
    rw [hbyte, hhl, List.length_drop]
    exact ⟨⟨hver1, hhl1, by omega⟩, hin, hudp ▸ hu⟩

/-- **What the reference reads**, at the program's own offsets. -/
theorem accepts_iff {destaddr packet : Bytes} {port : UInt16} :
    accepts destaddr port packet = true ↔ Quotes destaddr packet ∧ check port.toNat packet := by
  have hudp : inner_udp packet = inner_ip packet + ip_hl packet (inner_ip packet) * 4 := rfl
  have hip : inner_ip packet = ip_hdr_len packet + 8 := rfl
  have htype : ∀ b, ip_hdr_len packet < packet.length →
      ((packet.drop (ip_hdr_len packet))[0]? = some b ↔ icmp_type packet = b) := by
    intro b hlt
    rw [List.getElem?_drop]
    exact getElem?_eq_some_byteAt hlt
  have hprotocol : ∀ b, 5 ≤ ip_hl packet (inner_ip packet) → inner_udp packet ≤ packet.length →
      (((packet.drop (inner_ip packet)).take (ip_hl packet (inner_ip packet) * 4))[9]? = some b ↔
        byteAt packet (inner_ip packet + 9) = b) := by
    intro b hhl hle
    rw [List.getElem?_take_of_lt (by omega), List.getElem?_drop]
    exact getElem?_eq_some_byteAt (by omega)
  have haddress : 5 ≤ ip_hl packet (inner_ip packet) →
      slice ((packet.drop (inner_ip packet)).take (ip_hl packet (inner_ip packet) * 4)) 16 4 =
        slice packet (inner_ip packet + 16) 4 := by
    intro hhl
    unfold slice
    rw [List.drop_take, List.take_take, Nat.min_eq_left (by omega), List.drop_drop]
  have hport : inner_udp packet ≤ packet.length →
      (slice (packet.drop (inner_udp packet)) 2 2 = be16 port ↔
        inner_udp packet + 4 ≤ packet.length ∧ uh_dport packet = port.toNat) := by
    intro hle
    unfold be16 uh_dport
    rw [slice_two, List.length_drop, byteAt_drop, byteAt_drop, be16_eq_iff]
    apply and_congr_left
    intro _
    omega
  rw [accepts_eq_true]
  constructor
  · rintro ⟨outer, icmp, inner, udp, houter, hinner, herror, hproto, haddr, hp⟩
    obtain ⟨ho, hi, hle, -, rfl, rfl, rfl⟩ := splitIpv4_twice.mp ⟨houter, hinner⟩
    obtain ⟨hreach, hp⟩ := (hport hle).mp hp
    rw [htype _ (by omega), htype _ (by omega)] at herror
    exact ⟨⟨ho, hi, hreach, (hprotocol 17 hi.2 hle).mp hproto, haddress hi.2 ▸ haddr⟩, herror, hp⟩
  · rintro ⟨hq, herror, hp⟩
    have hle : inner_udp packet ≤ packet.length := by
      have hreach := hq.reaches
      omega
    obtain ⟨houter, hinner⟩ := splitIpv4_twice.mpr ⟨hq.outer, hq.inner, hle, rfl, rfl, rfl, rfl⟩
    have hsixth := hq.inner.2
    refine ⟨_, _, _, _, houter, hinner, ?_, (hprotocol 17 hq.inner.2 hle).mpr hq.protocol,
      (haddress hq.inner.2).trans hq.address, (hport hle).mpr ⟨hq.reaches, hp⟩⟩
    rw [htype _ (by omega), htype _ (by omega)]
    exact herror

/-! ## What `recv_buf` adds -/

theorem byteAt_recvInto_beyond {buf packet : Bytes} {i : Nat} (hp : packet.length ≤ recvBufSize)
    (hi : packet.length ≤ i) : byteAt (recvInto recvBufSize buf packet) i = byteAt buf i := by
  unfold byteAt recvInto
  rw [List.take_of_length_le hp, overwrite_zero, List.getD_eq_getElem?_getD,
    List.getElem?_append_right hi, List.getElem?_drop, Nat.add_sub_cancel' hi,
    List.getD_eq_getElem?_getD]

section Overlay

variable {packet buf : Bytes} (hbuf : ∀ i < packet.length, byteAt buf i = byteAt packet i)
include hbuf

/-- The offsets that are computed from bytes of the packet. -/
theorem ip_hdr_len_overlay (h : 0 < packet.length) : ip_hdr_len buf = ip_hdr_len packet := by
  unfold ip_hdr_len ip_hl
  rw [hbuf 0 h]

theorem inner_udp_overlay (h : inner_ip packet < packet.length) :
    inner_udp buf = inner_udp packet := by
  have hoff := ip_hdr_len_overlay hbuf (by omega)
  unfold inner_udp ip_hl
  unfold inner_ip at *
  rw [hoff, hbuf _ h]

theorem icmp_type_overlay (h : ip_hdr_len packet < packet.length) :
    icmp_type buf = icmp_type packet := by
  unfold icmp_type
  rw [ip_hdr_len_overlay hbuf (by omega), hbuf _ h]

theorem check_overlay (h : inner_udp packet + 4 ≤ packet.length) (port : Nat) :
    check port buf ↔ check port packet := by
  have hudp : inner_udp packet = inner_ip packet + ip_hl packet (inner_ip packet) * 4 := rfl
  have hip : inner_ip packet = ip_hdr_len packet + 8 := rfl
  unfold check uh_dport
  rw [icmp_type_overlay hbuf (by omega), inner_udp_overlay hbuf (by omega), hbuf _ (by omega),
    hbuf _ (by omega)]

/-- **A byte of the packet that rules the probe out** does so whatever follows. -/
theorem rejects_sound {port : UInt16} (h : Rejects port packet) : ¬ check port.toNat buf := by
  have hudp : inner_udp packet = inner_ip packet + ip_hl packet (inner_ip packet) * 4 := rfl
  rintro ⟨herror, hport⟩
  unfold uh_dport at hport
  obtain ⟨h2, h3⟩ := be16_eq_iff.mp hport
  rcases h with ⟨hlt, hne⟩ | ⟨hlt, hne⟩ | ⟨hlt, hne⟩
  · rw [icmp_type_overlay hbuf hlt] at herror
    exact hne herror
  · rw [inner_udp_overlay hbuf (by omega), hbuf _ hlt] at h2
    exact hne h2
  · rw [inner_udp_overlay hbuf (by omega), hbuf _ hlt] at h3
    exact hne h3

end Overlay

/-- Where the program looks for the type, behind a header of five words if the packet has none. -/
def typeOffset (packet : Bytes) : Nat := if packet.length = 0 then 20 else ip_hdr_len packet

/-- Where it looks for the quoted UDP header, if the quoted IPv4 header is behind the packet. -/
def udpOffset (packet : Bytes) : Nat :=
  if typeOffset packet + 8 < packet.length then inner_udp packet else typeOffset packet + 8

/-- What an earlier packet may have left at `i` for the program to find. -/
def leftover (port : UInt16) (packet : Bytes) (i : Nat) : UInt8 :=
  if i = typeOffset packet then ICMP_TIME_EXCEEDED
  else if i = udpOffset packet + 2 then UInt8.ofNat (port.toNat / 256)
  else if i = udpOffset packet + 3 then UInt8.ofNat port.toNat
  else if i = 0 then 5
  else 0

theorem offsets_le (packet : Bytes) :
    typeOffset packet ≤ 60 ∧ typeOffset packet + 8 ≤ udpOffset packet ∧ udpOffset packet ≤ 128 := by
  have hlt : ∀ ip, ip_hl packet ip < 16 := fun ip => Nat.mod_lt _ (by decide)
  have houter := hlt 0
  have hinner := hlt (inner_ip packet)
  have hhdr : ip_hdr_len packet = ip_hl packet 0 * 4 := rfl
  have hudp : inner_udp packet = ip_hdr_len packet + 8 + ip_hl packet (inner_ip packet) * 4 := rfl
  unfold udpOffset typeOffset
  split <;> split <;> omega

/-- The program finds its offsets in what was left. -/
theorem offsets_leftover {port : UInt16} {packet buf : Bytes}
    (hbuf : ∀ i < packet.length, byteAt buf i = byteAt packet i)
    (hleft : ∀ i, packet.length ≤ i → i < recvBufSize → byteAt buf i = leftover port packet i) :
    ip_hdr_len buf = typeOffset packet ∧ inner_udp buf = udpOffset packet := by
  obtain ⟨htype, hle, _⟩ := offsets_le packet
  have hsize : recvBufSize = 512 := rfl
  have hoff : ip_hdr_len buf = typeOffset packet := by
    by_cases hempty : packet.length = 0
    · have hoff : typeOffset packet = 20 := if_pos hempty
      have hfirst : byteAt buf 0 = 5 := by
        rw [hleft 0 (by omega) (by omega)]
        unfold leftover
        rw [if_neg (by omega), if_neg (by omega), if_neg (by omega), if_pos rfl]
      unfold ip_hdr_len ip_hl
      rw [hfirst, hoff]
      rfl
    · rw [ip_hdr_len_overlay hbuf (by omega)]
      exact (if_neg hempty).symm
  refine ⟨hoff, ?_⟩
  by_cases hinner : typeOffset packet + 8 < packet.length
  · have htype : typeOffset packet = ip_hdr_len packet := if_neg (by omega)
    have hudp : udpOffset packet = inner_udp packet := if_pos hinner
    rw [htype] at hinner
    rw [hudp]
    exact inner_udp_overlay hbuf hinner
  · have hudp : udpOffset packet = typeOffset packet + 8 := if_neg hinner
    have hzero : byteAt buf (typeOffset packet + 8) = 0 := by
      rw [hleft _ (by omega) (by omega)]
      unfold leftover
      rw [if_neg (by omega), if_neg (by omega), if_neg (by omega), if_neg (by omega)]
    unfold inner_udp inner_ip ip_hl
    rw [hoff, hzero, hudp]
    rfl

/-- **A packet without such a byte** is accepted where the right bytes were left behind it. -/
theorem exists_check {port : UInt16} {packet : Bytes} (hlen : packet.length ≤ recvBufSize)
    (h : ¬ Rejects port packet) :
    ∃ recv_buf : Bytes, recv_buf.length = recvBufSize ∧
      check port.toNat (recvInto recvBufSize recv_buf packet) := by
  obtain ⟨htype, hle, hudp⟩ := offsets_le packet
  have hsize : recvBufSize = 512 := rfl
  refine ⟨(List.range recvBufSize).map (leftover port packet), ?_, ?_⟩
  · rw [List.length_map, List.length_range]
  have hbuf : ∀ i < packet.length, byteAt (recvInto recvBufSize
      ((List.range recvBufSize).map (leftover port packet)) packet) i = byteAt packet i :=
    fun i hi => byteAt_recvInto _ (by omega) hi
  have hleft : ∀ i, packet.length ≤ i → i < recvBufSize → byteAt (recvInto recvBufSize
      ((List.range recvBufSize).map (leftover port packet)) packet) i = leftover port packet i := by
    intro i hi hlt
    rw [byteAt_recvInto_beyond hlen hi]
    unfold byteAt
    rw [List.getD_eq_getElem?_getD, List.getElem?_map, List.getElem?_range hlt, Option.map_some,
      Option.getD_some]
  generalize recvInto recvBufSize ((List.range recvBufSize).map (leftover port packet)) packet = buf
    at hbuf hleft
  obtain ⟨hoff, hinner⟩ := offsets_leftover hbuf hleft
  simp only [Rejects, not_or] at h
  obtain ⟨hreject, hhigh, hlow⟩ := h
  constructor
  · by_cases hin : typeOffset packet < packet.length
    · have hpos : typeOffset packet = ip_hdr_len packet := if_neg (by omega)
      rw [hpos] at hin
      rw [icmp_type_overlay hbuf hin]
      by_contra herror
      exact hreject ⟨hin, herror⟩
    · left
      unfold icmp_type
      rw [hoff, hleft _ (by omega) (by omega)]
      exact if_pos rfl
  · unfold uh_dport
    rw [hinner]
    apply be16_eq_iff.mpr
    have hinside : ∀ i, udpOffset packet + i < packet.length → udpOffset packet = inner_udp packet :=
      fun i hi => if_pos (by omega)
    constructor
    · by_cases hin : udpOffset packet + 2 < packet.length
      · have hudp := hinside 2 hin
        rw [hbuf _ hin]
        rw [hudp] at hin ⊢
        by_contra hne
        exact hhigh ⟨hin, hne⟩
      · rw [hleft _ (by omega) (by omega)]
        unfold leftover
        rw [if_neg (by omega), if_pos rfl]
    · by_cases hin : udpOffset packet + 3 < packet.length
      · have hudp := hinside 3 hin
        rw [hbuf _ hin]
        rw [hudp] at hin ⊢
        by_contra hne
        exact hlow ⟨hin, hne⟩
      · rw [hleft _ (by omega) (by omega)]
        unfold leftover
        rw [if_neg (by omega), if_neg (by omega), if_pos rfl]

/-! ## The verdict -/

/-- **When the verdict is the reference's.** For every packet, destination and port, and whatever
    `recv_buf` held: exactly if a byte of the packet rules the probe out, or the packet quotes a UDP
    datagram to the destination up to its port. -/
theorem exact_iff (destaddr : Bytes) (port : UInt16) (packet : Received) :
    Exact destaddr port packet ↔ Rejects port packet.bytes ∨ Quotes destaddr packet.bytes := by
  have hsize := packet.length_le
  have hbuf : ∀ recv_buf : Bytes, ∀ i < packet.bytes.length,
      byteAt (recvInto recvBufSize recv_buf packet.bytes) i = byteAt packet.bytes i :=
    fun recv_buf i hi => byteAt_recvInto recv_buf (by omega) hi
  constructor
  · intro h
    apply or_iff_not_imp_left.mpr
    intro hreject
    obtain ⟨recv_buf, hlen, hcheck⟩ := exists_check hsize hreject
    exact (accepts_iff.mp ((h recv_buf hlen).mp hcheck)).1
  · intro h recv_buf _
    rw [accepts_iff]
    rcases h with hreject | hquotes
    · have hself : ∀ i < packet.bytes.length, byteAt packet.bytes i = byteAt packet.bytes i :=
        fun _ _ => rfl
      refine iff_of_false (rejects_sound (hbuf recv_buf) hreject) fun haccepts => ?_
      exact rejects_sound hself hreject haccepts.2
    · rw [check_overlay (hbuf recv_buf) hquotes.reaches]
      exact (and_iff_right hquotes).symm

/-- A Time Exceeded message about a TCP segment to port 33435 of 10.0.0.9. -/
def tcpExpired : Received where
  bytes := [69, 0, 0, 56, 0, 0, 0, 0, 64, 1, 0, 0, 10, 0, 0, 1, 10, 0, 0, 2, 11, 0, 0, 0, 0, 0, 0, 0,
    69, 0, 0, 40, 0, 0, 0, 0, 1, 6, 0, 0, 10, 0, 0, 2, 10, 0, 0, 9, 200, 0, 130, 155, 0, 0, 0, 0]
  length_le := by decide

/-- It is accepted as the reply to the first probe to 10.0.0.5. -/
theorem tcpExpired_accepted :
    check 33435 (recvInto recvBufSize (List.replicate recvBufSize 0) tcpExpired.bytes) ∧
      accepts [10, 0, 0, 5] 33435 tcpExpired.bytes = false ∧
      ¬ Exact [10, 0, 0, 5] 33435 tcpExpired := by
  have hcheck : check 33435
      (recvInto recvBufSize (List.replicate recvBufSize 0) tcpExpired.bytes) := by decide +kernel
  have haccepts : accepts [10, 0, 0, 5] 33435 tcpExpired.bytes = false := by decide +kernel
  refine ⟨hcheck, haccepts, fun h => ?_⟩
  have htrue := (h _ List.length_replicate).mp hcheck
  rw [haccepts] at htrue
  cases htrue

end NetLab.Trace
