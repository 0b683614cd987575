/-
  Where client.cpp sends its keep-alives (lines 66-103), with Server.c at the other end.

  The client asks for the first 255 bytes of its argument, reads the reply over its request, gives
  up where `ipaddr` is `NOT_FOUND`, and hands any other `ipaddr` to `inet_pton`. The result of that
  call is not looked at: for a text that is no address the `bzero` before it has left `0.0.0.0` in
  `sin_addr`.

  * `asked_ofClient`: the server looks up as much of the first 255 bytes of the name as its `read`
    has reached; `ipaddr_readReply`: and the client's `ipaddr` is as much of the answer as has come.
  * `keepAliveTo_eq_some`, `keepAliveTo_eq_zero`, `keepAliveTo_eq_none`: what the client makes of the
    text there.
  * `keepAliveTo_readReply`: so much for every client that comes after any connections the server
    has survived.
-/
import NetLab.Dns.Isolation
import NetLab.Dns.Segmentation
import NetLab.Lib.Dotted

namespace NetLab.Dns

open NetLab.Lib

/-! ## The client -/

/-- The characters of a string. -/
def chars (s : Bytes) : List Char := s.map fun b => Char.ofNat b.toNat

/-- The client's `dns_req` once it has read `m` bytes of the reply. -/
def readReply (id : Int32) (name reply : Bytes) (m : Nat) : Bytes :=
  recvInto sizeofDNS (request id name) (reply.take m)

/-- `video_serv_addr.sin_addr`, `none` where the client exits before it is set. -/
def keepAliveTo (dns_req : Bytes) : Option UInt32 :=
  if ipaddr dns_req = NOT_FOUND then none
  else
    -- `bzero (&video_serv_addr, ..)`, then `inet_pton`
    some ((inet_pton (chars (ipaddr dns_req))).getD 0)

/-- The connection of a client, of whose request the server's `read` gets `k` bytes. -/
def Connection.ofClient (id : Int32) (name : Bytes) (k : Nat) : Connection :=
  ⟨some ((request id name).take k), .complete⟩

/-! ## The request and the reply -/

/-- `strncpy` copies 255 bytes at most. -/
theorem request_take (id : Int32) (name : Bytes) :
    request id (name.take 255) = request id name := by
  unfold request
  rw [List.take_take, Nat.min_self]

theorem noNul_take {name : Bytes} (h : NoNul name) (n : Nat) : NoNul (name.take n) :=
  fun b hb => h b (List.mem_of_mem_take hb)

theorem ofClient_survives (id : Int32) (name : Bytes) (k : Nat) :
    (Connection.ofClient id name k).Survives := ⟨rfl, rfl⟩

/-- What the server has of a request: an id, as much of the name as has come, and zeros. -/
theorem readRequest_request (id : Int32) {name : Bytes} (hlen : name.length ≤ 255) (k : Nat) :
    ∃ head : Bytes, head.length = 4 ∧ readRequest ((request id name).take k) =
      head ++ (name.take (k - 4) ++ List.replicate (272 - (name.take (k - 4)).length) 0) := by
  have h4 := length_int32Bytes id
  have hread := readRequest_take (length_request id hlen) k
  rw [request_eq id hlen, List.take_append, h4, List.take_append] at hread
  rw [request_eq id hlen, List.take_append, h4, List.take_append, hread]
  unfold sizeofDNS
  rcases Nat.le_total k 4 with hk | hk
  · -- the read ends in the id
    refine ⟨(int32Bytes id).take k ++ List.replicate (4 - k) 0, ?_, ?_⟩
    · rw [List.length_append, List.length_take, List.length_replicate]
      omega
    · rw [Nat.sub_eq_zero_of_le hk, Nat.zero_sub, List.take_zero, List.take_zero, List.length_nil,
        List.append_nil, List.append_nil, List.nil_append, List.append_assoc,
        ← List.replicate_add]
      congr 2
      omega
  · refine ⟨int32Bytes id, h4, ?_⟩
    rw [List.take_of_length_le (by omega), List.append_assoc, List.append_assoc,
      List.take_replicate, ← List.replicate_add]
    congr 3
    rw [List.length_take]
    omega

/-- The name the server looks up. -/
theorem asked_ofClient (id : Int32) {name : Bytes} (hnul : NoNul name) (k : Nat) :
    asked (readRequest ((request id name).take k)) = (name.take 255).take (k - 4) := by
  have hlen : (name.take 255).length ≤ 255 := by
    rw [List.length_take]
    omega
  have hcut : ((name.take 255).take (k - 4)).length ≤ 255 := by
    rw [List.length_take]
    omega
  obtain ⟨head, hhead, heq⟩ := readRequest_request id hlen k
  rw [request_take] at heq
  refine Named.asked_eq (length_readRequest _)
    ⟨noNul_take (noNul_take hnul 255) (k - 4),
      List.replicate (255 - ((name.take 255).take (k - 4)).length) 0, ?_⟩
  rw [heq, List.drop_take, List.drop_append_of_le_length hhead.ge, List.drop_eq_nil_of_le hhead.le,
    List.nil_append, List.take_append, List.take_of_length_le (by omega), List.take_replicate,
    ← List.replicate_succ]
  congr 2
  omega

/-- A request is terminated, however much of it has come. -/
theorem ofClient_terminated (id : Int32) (name : Bytes) (k : Nat) :
    (Connection.ofClient id name k).Terminated := by
  have hlen : (name.take 255).length ≤ 255 := by
    rw [List.length_take]
    omega
  intro data hdata
  obtain rfl := Option.some.inj hdata
  obtain ⟨head, hhead, heq⟩ := readRequest_request id hlen k
  rw [request_take] at heq
  rw [heq, List.drop_append_of_le_length hhead.ge, List.drop_eq_nil_of_le hhead.le, List.nil_append]
  refine List.mem_append_right _ (List.mem_replicate.mpr ⟨?_, rfl⟩)
  rw [List.length_take]
  omega

/-- What the client has of the answer for its name. -/
theorem ipaddr_readReply (file : Option RecordFile) (file_ip : Bytes) (id : Int32) {name : Bytes}
    (hnul : NoNul name) (k m : Nat) :
    ipaddr (readReply id name
        (replyTo (file.map RecordFile.content) file_ip (.ofClient id name k)) m) =
      (addressOf file ((name.take 255).take (k - 4))).take (m - 260) := by
  have hlen : (name.take 255).length ≤ 255 := by
    rw [List.length_take]
    omega
  have hex := ipaddr_exchange file file_ip id hlen k m
  rw [request_take, asked_ofClient id hnul k] at hex
  rw [← hex]
  unfold exchange readReply replyTo Connection.ofClient
  rw [request_take]
  rfl

/-! ## Addresses in text -/

/-- `NOT_FOUND` is no address. -/
theorem chars_NOT_FOUND_ne (addr : UInt32) : chars NOT_FOUND ≠ inet_ntop addr := by
  have hnone : inet_pton (chars NOT_FOUND) = none := by decide +kernel
  intro h
  rw [h, inet_pton_inet_ntop] at hnone
  cases hnone

theorem keepAliveTo_eq_none {dns_req : Bytes} :
    keepAliveTo dns_req = none ↔ ipaddr dns_req = NOT_FOUND := by
  unfold keepAliveTo
  rw [ite_eq_left_iff]
  simp

/-- An address but `0.0.0.0` is sent to only where the text is that address. -/
theorem keepAliveTo_eq_some {dns_req : Bytes} {addr : UInt32} (haddr : addr ≠ 0) :
    keepAliveTo dns_req = some addr ↔ chars (ipaddr dns_req) = inet_ntop addr := by
  unfold keepAliveTo
  rw [Option.ite_none_left_eq_some, Option.some.injEq, ← inet_pton_eq_some]
  constructor
  · rintro ⟨_, h⟩
    cases hread : inet_pton (chars (ipaddr dns_req)) with
    | none =>
      rw [hread] at h
      exact absurd h.symm haddr
    | some a =>
      rw [hread] at h
      exact congrArg some h
  · intro hread
    refine ⟨fun hnf => ?_, by rw [hread]; rfl⟩
    rw [hnf] at hread
    exact chars_NOT_FOUND_ne addr (inet_pton_eq_some.mp hread)

theorem keepAliveTo_eq_zero {dns_req : Bytes} :
    keepAliveTo dns_req = some 0 ↔ ipaddr dns_req ≠ NOT_FOUND ∧
      ∀ addr, addr ≠ 0 → chars (ipaddr dns_req) ≠ inet_ntop addr := by
  rw [Ne, ← keepAliveTo_eq_none]
  constructor
  · intro h
    refine ⟨by rw [h]; exact Option.some_ne_none 0, fun addr haddr htext => haddr ?_⟩
    rw [← keepAliveTo_eq_some haddr, h] at htext
    exact (Option.some.inj htext).symm
  · rintro ⟨hsome, hno⟩
    obtain ⟨addr, h⟩ := Option.ne_none_iff_exists'.mp hsome
    by_cases haddr : addr = 0
    · rw [h, haddr]
    · exact absurd ((keepAliveTo_eq_some haddr).mp h) (hno addr haddr)

/-! ## Runs of the server -/

/-- **Where the keep-alives go.** After any connections the server has survived, it serves a client
    with a name of any length and looks up as much of the first 255 bytes of the name as its `read`
    has reached. As much as the client reads of the answer decides: an address but `0.0.0.0` is sent
    to exactly when that text is the address, `0.0.0.0` when it is no other, and the client gives up
    exactly on `NOT_FOUND`. -/
theorem keepAliveTo_readReply (file : Option RecordFile) (dns_req file_ip : Bytes)
    (conns : List Connection) (hterm : ∀ c ∈ conns, c.Terminated)
    (hconns : ∀ c ∈ conns, c.Survives) (id : Int32) (name : Bytes) (hnul : NoNul name) (k : Nat) :
    ∃ s reply, (serveLoop (file.map RecordFile.content)).run (Process.init dns_req file_ip)
        (conns ++ [.ofClient id name k]) = some s ∧
      s.exited = none ∧ s.replies.getLast? = some (conns.length, reply) ∧
      ∀ m, let come := (addressOf file ((name.take 255).take (k - 4))).take (m - 260)
        (∀ addr, addr ≠ 0 → (keepAliveTo (readReply id name reply m) = some addr ↔
          chars come = inet_ntop addr)) ∧
        (keepAliveTo (readReply id name reply m) = some 0 ↔
          come ≠ NOT_FOUND ∧ ∀ addr, addr ≠ 0 → chars come ≠ inet_ntop addr) ∧
        (keepAliveTo (readReply id name reply m) = none ↔ come = NOT_FOUND) := by
  have hall : ∀ c ∈ conns ++ [.ofClient id name k], c.Survives :=
    List.forall_mem_append.mpr
      ⟨hconns, List.forall_mem_singleton.mpr (ofClient_survives id name k)⟩
  have htermAll : ∀ c ∈ conns ++ [.ofClient id name k], c.Terminated :=
    List.forall_mem_append.mpr
      ⟨hterm, List.forall_mem_singleton.mpr (ofClient_terminated id name k)⟩
  obtain ⟨s, hrun, hserved⟩ :=
    served_run (file.map RecordFile.content) dns_req file_ip htermAll
  refine ⟨s, replyTo (file.map RecordFile.content) file_ip (.ofClient id name k), hrun,
    hserved.alive.mpr hall, ?_, fun m => ?_⟩
  · have htake : (conns ++ [Connection.ofClient id name k]).takeWhile (·.Survives) =
        conns ++ [.ofClient id name k] :=
      List.takeWhile_eq_self_iff.mpr (by simpa using hall)
    rw [hserved.replies, htake, List.zipIdx_append, List.map_append, List.getLast?_append]
    simp
  · rw [← ipaddr_readReply file file_ip id hnul k m]
    exact ⟨fun addr haddr => keepAliveTo_eq_some haddr, keepAliveTo_eq_zero, keepAliveTo_eq_none⟩

/-- `a.bc 1.2.3.45` -/
def twoDigits : RecordFile where
  content := [97, 46, 98, 99, 32, 49, 46, 50, 46, 51, 46, 52, 53, 10]
  records := [⟨[97, 46, 98, 99], [49, 46, 50, 46, 51, 46, 52, 53]⟩]
  words_eq := by decide
  domain_fits := by decide
  ip_fits := by decide
  noNul := by decide

/-- A client behind one that has closed its connection. -/
theorem keepAliveTo_twoDigits :
    ∃ s reply, (serveLoop (some twoDigits.content)).run (Process.init [] [])
        ([closedConnection] ++ [.ofClient 7 [97, 46, 98, 99] 276]) = some s ∧
      s.exited = none ∧ s.replies.getLast? = some (1, reply) ∧
      ∀ m, let come := (addressOf (some twoDigits) [97, 46, 98, 99]).take (m - 260)
        (∀ addr, addr ≠ 0 → (keepAliveTo (readReply 7 [97, 46, 98, 99] reply m) = some addr ↔
          chars come = inet_ntop addr)) ∧
        (keepAliveTo (readReply 7 [97, 46, 98, 99] reply m) = some 0 ↔
          come ≠ NOT_FOUND ∧ ∀ addr, addr ≠ 0 → chars come ≠ inet_ntop addr) ∧
        (keepAliveTo (readReply 7 [97, 46, 98, 99] reply m) = none ↔ come = NOT_FOUND) :=
  keepAliveTo_readReply (some twoDigits) [] [] [closedConnection] (by decide) (by decide) 7
    [97, 46, 98, 99] (by decide) 276

-- cut behind its seventh character, the reply is another address
example : keepAliveTo (readReply 7 [97, 46, 98, 99]
    (replyTo (some twoDigits.content) [] (.ofClient 7 [97, 46, 98, 99] 276)) 267) =
      some (ofOctets 1 2 3 4) := by
  refine (keepAliveTo_eq_some (by decide)).mpr ?_
  rw [show some twoDigits.content = (some twoDigits).map RecordFile.content from rfl,
    ipaddr_readReply (some twoDigits) [] 7 (by decide) 276 267]
  decide +kernel

end NetLab.Dns
