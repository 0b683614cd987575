/-
  Name resolution over a byte stream: client.cpp (lines 66-93) against Server.c (lines 74-101).

  Each side does one `read` of the 276-byte message, and TCP may end it anywhere. The server fills
  what it has not read with zeros. The client reads over its own request, so what it has not read is
  the rest of that.

  * `exchange`: the client's `dns_req` after its `read`, the server's having ended after `k` bytes
    and the client's after `m`.
  * `ipaddr_exchange`: its `ipaddr` is as much of the server's answer as has come.
  * `resolved_iff`: the client ends with the resolution of its name exactly when the server's `read`
    goes up to the last byte of the request that is not zero and the client's to the last of the
    address.
  * `splitRequest_unresolved`: a request cut in its name.
-/
import NetLab.Dns.Server

namespace NetLab.Dns

open NetLab.Lib

/-! ## The exchange -/

/-- The client's request: `bzero`, the id, and `strncpy (dns_req.qname, argv[4], 255)`. -/
def request (id : Int32) (name : Bytes) : Bytes :=
  overwrite (overwrite (List.replicate sizeofDNS 0) 0 (int32Bytes id)) 4 (name.take 255)

/-- The client's `dns_req` after a server's `read` of `k` bytes and its own of `m`. -/
def exchange (file : Option Bytes) (file_ip : Bytes) (id : Int32) (name : Bytes) (k m : Nat) :
    Bytes :=
  let dns_req := request id name
  let reply := (answer file file_ip (readRequest (dns_req.take k))).1
  recvInto sizeofDNS dns_req (reply.take m)

/-- The client has its own id and name, and the address is the server's for that name, `NOT_FOUND`
    for no other reason than that there is none. -/
def Resolved (file : Option RecordFile) (id : Int32) (name dns : Bytes) : Prop :=
  idOf dns = id ∧ qname dns = name ∧ ipaddr dns = addressOf file name ∧
    (ipaddr dns = NOT_FOUND ↔ lookupIn file name = none)

/-- The server's `read` ends behind the last byte of the request that is not zero. -/
def Covers (id : Int32) (name : Bytes) (k : Nat) : Prop := ∀ b ∈ (request id name).drop k, b = 0

/-! ## The request -/

section Request

variable (id : Int32) {name : Bytes} (hlen : name.length ≤ 255)
include hlen

theorem request_eq : request id name =
    int32Bytes id ++ (name ++ List.replicate (272 - name.length) 0) := by
  unfold request
  rw [List.take_of_length_le hlen, overwrite_zero, length_int32Bytes, List.drop_replicate]
  unfold overwrite
  have h4 := length_int32Bytes id
  rw [List.take_append_of_le_length (by omega), List.take_of_length_le (by omega),
    List.drop_append, h4, List.drop_eq_nil_of_le (by omega), List.nil_append,
    List.drop_replicate]
  congr 3
  unfold sizeofDNS
  omega

theorem length_request : (request id name).length = sizeofDNS := by
  rw [request_eq id hlen]
  simp only [List.length_append, List.length_replicate, length_int32Bytes]
  unfold sizeofDNS
  omega

theorem drop_request : (request id name).drop 260 = List.replicate 16 0 := by
  have h4 := length_int32Bytes id
  rw [request_eq id hlen, List.drop_append, List.drop_append, List.drop_eq_nil_of_le (by omega),
    List.drop_eq_nil_of_le (by omega), List.nil_append, List.nil_append, List.drop_replicate]
  congr 1
  omega

theorem named_request (hnul : NoNul name) : Named (request id name) name := by
  refine ⟨hnul, List.replicate (255 - name.length) 0, ?_⟩
  have h4 := length_int32Bytes id
  rw [request_eq id hlen, List.drop_take, List.drop_append_of_le_length (by omega),
    List.drop_eq_nil_of_le (by omega), List.nil_append, List.take_append,
    List.take_of_length_le (by omega), List.take_replicate, ← List.replicate_succ]
  congr 2
  omega

theorem idOf_request : idOf (request id name) = id := by
  have h4 := length_int32Bytes id
  unfold idOf slice
  rw [request_eq id hlen, List.drop_zero, List.take_left' h4, int32Of_int32Bytes]

/-- For a name that is not empty, the `read` must reach its end. -/
theorem covers_iff (hnul : NoNul name) (hne : name ≠ []) (k : Nat) :
    Covers id name k ↔ 4 + name.length ≤ k := by
  have h4 := length_int32Bytes id
  unfold Covers
  constructor
  · intro hzero
    by_contra hlt
    obtain ⟨w, b, rfl⟩ := (List.eq_nil_or_concat name).resolve_left hne
    rw [List.concat_eq_append] at *
    rw [List.length_append, List.length_singleton] at hlt
    have hb : b ∈ (request id (w ++ [b])).drop k := by
      rw [request_eq id hlen, List.append_assoc, ← List.append_assoc,
        List.drop_append_of_le_length (by rw [List.length_append]; omega)]
      exact List.mem_append_right _ List.mem_cons_self
    exact hnul b (List.mem_append_right _ (List.mem_singleton_self b)) (hzero b hb)
  · intro hk b hb
    rw [request_eq id hlen, ← List.append_assoc, List.drop_append,
      List.drop_eq_nil_of_le (by rw [List.length_append]; omega), List.nil_append,
      List.drop_replicate] at hb
    exact List.eq_of_mem_replicate hb

end Request

/-! ## What the two reads leave -/

variable (file : Option RecordFile) (file_ip : Bytes) (id : Int32) {name : Bytes}

/-- The server's `dns_req` after its `read`. -/
theorem readRequest_take {req : Bytes} (hreq : req.length = sizeofDNS) (k : Nat) :
    readRequest (req.take k) = req.take k ++ List.replicate (sizeofDNS - k) 0 := by
  unfold readRequest recvInto
  rw [List.take_take, overwrite_zero, List.drop_replicate, List.length_take, hreq]
  rcases Nat.le_total k sizeofDNS with hk | hk
  · rw [Nat.min_eq_right hk, Nat.min_eq_left hk]
  · rw [Nat.min_eq_left hk, Nat.min_self, Nat.sub_self, Nat.sub_eq_zero_of_le hk,
      List.take_of_length_le (by omega), List.take_of_length_le (by omega)]

/-- A `read` that leaves out zeros only has the whole request. -/
theorem readRequest_of_zero {req : Bytes} (hreq : req.length = sizeofDNS) {k : Nat}
    (hzero : ∀ b ∈ req.drop k, b = 0) : readRequest (req.take k) = req := by
  have hrest : req.drop k = List.replicate (sizeofDNS - k) 0 :=
    List.eq_replicate_iff.mpr ⟨by rw [List.length_drop, hreq], hzero⟩
  rw [readRequest_take hreq, ← hrest, List.take_append_drop]

/-- The client's `dns_req`: what it has read of the reply, and behind it its own request. -/
theorem exchange_eq (hlen : name.length ≤ 255) (k m : Nat) :
    exchange (file.map RecordFile.content) file_ip id name k m =
      (answer (file.map RecordFile.content) file_ip
        (readRequest ((request id name).take k))).1.take m ++ (request id name).drop m := by
  have hreq := length_request id hlen
  have hreply := length_answer file file_ip (length_readRequest ((request id name).take k))
  unfold exchange recvInto
  dsimp only
  generalize (answer (file.map RecordFile.content) file_ip
    (readRequest ((request id name).take k))).1 = reply at hreply
  rw [overwrite_zero, List.take_take, List.length_take, hreply]
  rcases Nat.le_total m sizeofDNS with hm | hm
  · rw [Nat.min_eq_right hm, Nat.min_eq_left hm]
  · rw [Nat.min_eq_left hm, Nat.min_self, List.drop_eq_nil_of_le (by omega),
      List.drop_eq_nil_of_le (by omega), List.take_of_length_le (by omega),
      List.take_of_length_le (by omega)]

theorem length_exchange (hlen : name.length ≤ 255) (k m : Nat) :
    (exchange (file.map RecordFile.content) file_ip id name k m).length = sizeofDNS := by
  have hreq := length_request id hlen
  unfold exchange
  rw [length_recvInto hreq.ge, hreq]

/-- A string in front of zeros, cut at `j`. -/
theorem cstr_take {s : Bytes} (hs : NoNul s) (t : Bytes) (j n : Nat) :
    cstr ((s ++ 0 :: t).take j ++ List.replicate n 0) = s.take j := by
  have hcut : NoNul (s.take j) := fun b hb => hs b (List.mem_of_mem_take hb)
  rw [List.take_append, List.append_assoc, cstr_append_of_noNul hcut]
  cases j - s.length with
  | zero => rw [List.take_zero, List.nil_append, cstr_replicate_zero, List.append_nil]
  | succ i => rw [List.take_succ_cons, List.cons_append, cstr_cons_zero, List.append_nil]

/-- **The client's `ipaddr` is as much of the answer as its `read` has reached.** -/
theorem ipaddr_exchange (hlen : name.length ≤ 255) (k m : Nat) :
    ipaddr (exchange (file.map RecordFile.content) file_ip id name k m) =
      (addressOf file (asked (readRequest ((request id name).take k)))).take (m - 260) := by
  have hserver := length_readRequest ((request id name).take k)
  obtain ⟨t, ht⟩ := answer_eq file file_ip hserver
  have hhead : ((readRequest ((request id name).take k)).take 260).length = 260 := by
    rw [List.length_take, hserver]
    decide
  have hnul := (addressOf_fits file (asked (readRequest ((request id name).take k)))).2.1
  rw [exchange_eq file file_ip id hlen, ht]
  unfold ipaddr
  rw [List.take_append, hhead, List.append_assoc, List.drop_append]
  rcases Nat.le_total m 260 with hm | hm
  · -- nothing of the address has come
    rw [Nat.sub_eq_zero_of_le hm, List.take_zero, List.take_zero, List.nil_append,
      List.drop_eq_nil_of_le (by rw [List.length_take]; omega), List.nil_append, List.drop_drop,
      List.length_take, hhead, Nat.min_eq_left hm, Nat.add_sub_cancel' hm, drop_request id hlen,
      cstr_replicate_zero]
  · have hrest : (request id name).drop m = List.replicate (16 - (m - 260)) 0 := by
      rw [← List.drop_replicate, ← drop_request id hlen, List.drop_drop, Nat.add_sub_cancel' hm]
    rw [List.take_of_length_le (by omega), List.drop_eq_nil_of_le (by omega), List.nil_append,
      hhead, Nat.sub_self, List.drop_zero, hrest, cstr_take hnul]

theorem idOf_take (dns : Bytes) : idOf (dns.take 260) = idOf dns := by
  unfold idOf slice
  rw [List.drop_zero, List.drop_zero, List.take_take]
  rfl

/-- As far as the client's `read` goes, `id` and `qname` are those the server has. -/
theorem take_exchange (hlen : name.length ≤ 255) (k : Nat) {m : Nat} (hm : 260 ≤ m) :
    (exchange (file.map RecordFile.content) file_ip id name k m).take 260 =
      (readRequest ((request id name).take k)).take 260 := by
  have hserver := length_readRequest ((request id name).take k)
  obtain ⟨t, ht⟩ := answer_eq file file_ip hserver
  have hhead : ((readRequest ((request id name).take k)).take 260).length = 260 := by
    rw [List.length_take, hserver]
    decide
  rw [exchange_eq file file_ip id hlen, ht, List.take_append_of_le_length, List.take_take,
    Nat.min_eq_left hm, List.take_left' hhead]
  rw [List.length_take, List.length_append, hhead]
  omega

/-! ## Resolution -/

/-- A message with this id and name starts with the bytes the request starts with. -/
theorem prefix_of_id_qname {dns : Bytes} (hdns : 4 ≤ dns.length) (hid : idOf dns = id)
    (hname : qname dns = name) : int32Bytes id ++ name <+: dns := by
  have hbytes : int32Bytes id = dns.take 4 := by
    rw [← hid]
    unfold idOf slice
    rw [List.drop_zero, int32Bytes_int32Of]
    rw [List.length_take]
    omega
  have hpre : name <+: dns.drop 4 := hname ▸ List.takeWhile_prefix _
  rw [hbytes]
  conv_rhs => rw [← List.take_append_drop 4 dns]
  exact (List.prefix_append_right_inj _).mpr hpre

/-- What the server has not read is zero. -/
theorem eq_zero_of_mem_drop {req : Bytes} (hreq : req.length = sizeofDNS) {k : Nat} {b : UInt8}
    (hb : b ∈ (readRequest (req.take k)).drop k) : b = 0 := by
  have hk : (req.take k).length ≤ k := by
    rw [List.length_take]
    omega
  rw [readRequest_take hreq, List.drop_append, List.drop_eq_nil_of_le hk, List.nil_append,
    List.drop_replicate] at hb
  exact List.eq_of_mem_replicate hb

/-- A server whose message starts as the request does has read all of it that is not zero. -/
theorem covers_of_prefix (hlen : name.length ≤ 255) (k : Nat)
    (h : int32Bytes id ++ name <+: readRequest ((request id name).take k)) :
    Covers id name k := by
  intro b hb
  rw [request_eq id hlen, ← List.append_assoc, List.drop_append] at hb
  rcases List.mem_append.mp hb with hb | hb
  · exact eq_zero_of_mem_drop (length_request id hlen) ((List.IsPrefix.drop h k).subset hb)
  · rw [List.drop_replicate] at hb
    exact List.eq_of_mem_replicate hb

/-- With the whole request read, the server looks up the client's name. -/
theorem asked_of_covers (hlen : name.length ≤ 255) (hnul : NoNul name) {k : Nat}
    (hcov : Covers id name k) : asked (readRequest ((request id name).take k)) = name := by
  have hreq := length_request id hlen
  rw [readRequest_of_zero hreq hcov]
  exact (named_request id hlen hnul).asked_eq hreq

/-- **The client ends with the resolution of its name exactly when both reads go far enough**, and
    the records do not give `NOT_FOUND` as an address. -/
theorem resolved_iff (hlen : name.length ≤ 255) (hnul : NoNul name) (k m : Nat) :
    Resolved file id name (exchange (file.map RecordFile.content) file_ip id name k m) ↔
      Covers id name k ∧ 260 + (addressOf file name).length ≤ m ∧
        lookupIn file name ≠ some NOT_FOUND := by
  have hreq := length_request id hlen
  have hne := (addressOf_fits file name).1
  have hpos := List.length_pos_of_ne_nil hne
  have haddr := ipaddr_exchange file file_ip id hlen k m
  constructor
  · rintro ⟨hid, hname, hip, hnf⟩
    rw [haddr] at hip
    have hm : 260 ≤ m := by
      by_contra hm
      rw [Nat.sub_eq_zero_of_le (by omega), List.take_zero] at hip
      exact hne hip.symm
    have htake := take_exchange file file_ip id hlen k hm
    have hcov : Covers id name k := by
      refine covers_of_prefix id hlen k (List.IsPrefix.trans ?_ (List.take_prefix 260 _))
      rw [← htake]
      refine List.prefix_take_iff.mpr ⟨prefix_of_id_qname id ?_ hid hname, ?_⟩
      · rw [length_exchange file file_ip id hlen]
        decide
      · rw [List.length_append, length_int32Bytes]
        omega
    rw [asked_of_covers id hlen hnul hcov] at hip haddr
    refine ⟨hcov, ?_, ?_⟩
    · have := congrArg List.length hip
      rw [List.length_take] at this
      omega
    · intro hl
      have hnone := hnf.mp (by rw [haddr, hip, addressOf, hl, Option.getD_some])
      rw [hl] at hnone
      cases hnone
  · rintro ⟨hcov, hm, hl⟩
    have htake := take_exchange file file_ip id hlen k (by omega : 260 ≤ m)
    rw [readRequest_of_zero hreq hcov] at htake
    have hip : ipaddr (exchange (file.map RecordFile.content) file_ip id name k m) =
        addressOf file name := by
      rw [haddr, asked_of_covers id hlen hnul hcov, List.take_of_length_le (by omega)]
    refine ⟨?_, ?_, hip, ?_⟩
    · rw [← idOf_take, htake, idOf_take, idOf_request id hlen]
    · have hnamed := named_request id hlen hnul
      unfold Named at hnamed
      rw [← htake] at hnamed
      exact Named.qname_eq hnamed
    · rw [hip]
      unfold addressOf
      cases h : lookupIn file name with
      | none => exact iff_of_true rfl rfl
      | some ip => exact iff_of_false (fun he => hl (h.trans (congrArg some he))) nofun

/-! ## A request in two segments -/

/-- `a.bc 1.2.3.4` -/
def oneRecord : RecordFile where
  content := [97, 46, 98, 99, 32, 49, 46, 50, 46, 51, 46, 52, 10]
  records := [⟨[97, 46, 98, 99], [49, 46, 50, 46, 51, 46, 52]⟩]
  words_eq := by decide
  domain_fits := by decide
  ip_fits := by decide
  noNul := by decide

/-- The client's `dns_req` after it has asked for `a.bc`, with id 7. -/
def askOneRecord (k m : Nat) : Bytes :=
  exchange (some oneRecord.content) [] 7 [97, 46, 98, 99] k m

theorem resolved_iff_split :
    Resolved (some oneRecord) 7 [97, 46, 98, 99] (askOneRecord 6 276) ↔
      Covers 7 [97, 46, 98, 99] 6 ∧
        260 + (addressOf (some oneRecord) [97, 46, 98, 99]).length ≤ 276 ∧
        lookupIn (some oneRecord) [97, 46, 98, 99] ≠ some NOT_FOUND :=
  resolved_iff (some oneRecord) [] 7 (by decide) (by decide) 6 276

/-- The server's `read` ends in the name: it looks up `a.`, and the client gives up a name that has
    a record. With the whole request read, a reply that ends before the address leaves `ipaddr`
    empty. -/
theorem splitRequest_unresolved :
    lookupIn (some oneRecord) [97, 46, 98, 99] = some [49, 46, 50, 46, 51, 46, 52] ∧
      ipaddr (askOneRecord 6 276) = NOT_FOUND ∧
      ¬ Resolved (some oneRecord) 7 [97, 46, 98, 99] (askOneRecord 6 276) ∧
      ipaddr (askOneRecord 276 260) = [] ∧
      ¬ Resolved (some oneRecord) 7 [97, 46, 98, 99] (askOneRecord 276 260) := by
  have hip : ∀ k m, ipaddr (askOneRecord k m) = (addressOf (some oneRecord)
      (asked (readRequest ((request 7 [97, 46, 98, 99]).take k)))).take (m - 260) :=
    ipaddr_exchange (some oneRecord) [] 7 (by decide)
  have hsplit : ipaddr (askOneRecord 6 276) = NOT_FOUND := by
    rw [hip]
    decide +kernel
  have hshort : ipaddr (askOneRecord 276 260) = [] := hip 276 260
  refine ⟨by decide, hsplit, ?_, hshort, ?_⟩
  · rintro ⟨_, _, h, _⟩
    rw [hsplit] at h
    exact absurd h (by decide)
  · rintro ⟨_, _, h, _⟩
    rw [hshort] at h
    exact absurd h (by decide)

end NetLab.Dns
