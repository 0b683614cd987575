/-
  The DNS message and what Server.c makes of a request (lines 16-20 and 74-103).

  A `DNS` is 276 bytes: `id` in the first four, `qname` in the next 256, `ipaddr` in the last 16.
  The server zeroes its `dns_req`, reads into it, writes `NOT_FOUND` into `ipaddr`, looks `qname` up
  in the records file and, if there is a record, writes its address over that. The same bytes go
  back.

  `qname` is the C string at offset 4. It ends at the first NUL there, which for a request without
  one in its 256 bytes of `qname` is one in `ipaddr`.

  * `answer_eq`: the reply is the request with the answer for its name in `ipaddr`, whatever the
    buffers of the lookup held before.
  * `length_answer`: and it is a whole message.
-/
import NetLab.Dns.Records

namespace NetLab.Dns

open NetLab.Lib

/-! ## The message -/

/-- `sizeof (DNS)`. -/
def sizeofDNS : Nat := 276

/-- `"NOT_FOUND"`. -/
def NOT_FOUND : Bytes := [78, 79, 84, 95, 70, 79, 85, 78, 68]

/-- The field `id`. -/
def idOf (dns : Bytes) : Int32 := int32Of (slice dns 0 4)

/-- The string `qname`. -/
def qname (dns : Bytes) : Bytes := cstr (dns.drop 4)

/-- The string `ipaddr`. -/
def ipaddr (dns : Bytes) : Bytes := cstr (dns.drop 260)

/-- `strcpy (dns_req.ipaddr, s)`. -/
def strcpyIpaddr (dns s : Bytes) : Bytes := overwrite dns 260 (s ++ [0])

/-- `bzero (&dns_req, sizeof (DNS)); read (newsockfd, &dns_req, sizeof (DNS))`. -/
def readRequest (data : Bytes) : Bytes := recvInto sizeofDNS (List.replicate sizeofDNS 0) data

/-- The reply to what is in `dns_req`, and `file_ip` after the lookup. `file` is the content of
    `dns_records.txt`, `none` where `fopen` fails. -/
def answer (file : Option Bytes) (file_ip dns_req : Bytes) : Bytes × Bytes :=
  let dns := strcpyIpaddr dns_req NOT_FOUND
  match file with
  | none => (dns, file_ip)
  | some content =>
    match scanLoop (qname dns) file_ip content with
    | (some ip, file_ip') => (strcpyIpaddr dns ip, file_ip')
    | (none, file_ip') => (dns, file_ip')

/-- The lookup in a records file, if there is one. -/
def lookupIn (file : Option RecordFile) (name : Bytes) : Option Bytes := file.bind (·.lookup name)

/-- What the server answers for a name. -/
def addressOf (file : Option RecordFile) (name : Bytes) : Bytes :=
  (lookupIn file name).getD NOT_FOUND

/-! ## The reply -/

theorem length_readRequest (data : Bytes) : (readRequest data).length = sizeofDNS := by
  unfold readRequest
  rw [length_recvInto (by rw [List.length_replicate]), List.length_replicate]

theorem length_strcpyIpaddr {dns s : Bytes} (hdns : dns.length = sizeofDNS) (hs : s.length ≤ 15) :
    (strcpyIpaddr dns s).length = sizeofDNS := by
  unfold strcpyIpaddr
  unfold sizeofDNS at *
  rw [length_overwrite _ (by rw [List.length_append, List.length_singleton]; omega), hdns]

/-- `strcpy` into `ipaddr` leaves `id` and `qname` alone. -/
theorem take_strcpyIpaddr {dns s : Bytes} (hdns : dns.length = sizeofDNS) :
    (strcpyIpaddr dns s).take 260 = dns.take 260 := by
  have hlen : (dns.take 260).length = 260 := by
    rw [List.length_take, hdns]
    decide
  unfold strcpyIpaddr overwrite
  rw [List.take_append_of_le_length (by omega), List.take_take, Nat.min_self]

theorem drop_strcpyIpaddr {dns s : Bytes} (hdns : dns.length = sizeofDNS) :
    (strcpyIpaddr dns s).drop 260 = s ++ 0 :: dns.drop (260 + (s.length + 1)) := by
  have hlen : (dns.take 260).length = 260 := by
    rw [List.length_take, hdns]
    decide
  unfold strcpyIpaddr overwrite
  rw [List.drop_append_of_le_length (by omega), List.drop_eq_nil_of_le (by omega), List.nil_append,
    List.append_assoc, List.length_append, List.length_singleton]
  rfl

/-- An answer fits `ipaddr` and is a string. -/
theorem addressOf_fits (file : Option RecordFile) (name : Bytes) :
    addressOf file name ≠ [] ∧ NoNul (addressOf file name) ∧ (addressOf file name).length ≤ 15 := by
  unfold addressOf
  cases h : lookupIn file name with
  | none => exact ⟨List.cons_ne_nil _ _, by decide, by decide⟩
  | some ip =>
    obtain ⟨f, _, hip⟩ := Option.bind_eq_some_iff.mp h
    exact RecordFile.lookup_eq_some hip

/-- The name a request asks for. -/
def asked (dns_req : Bytes) : Bytes := qname (strcpyIpaddr dns_req NOT_FOUND)

/-- The request holds `name` in its 256 bytes of `qname`. -/
def Named (dns name : Bytes) : Prop := NoNul name ∧ ∃ t, (dns.take 260).drop 4 = name ++ 0 :: t

theorem Named.qname_eq {dns name : Bytes} (h : Named dns name) : qname dns = name := by
  obtain ⟨hnul, t, ht⟩ := h
  have hsplit : dns.drop 4 =
      (dns.take 260).drop 4 ++ (dns.drop 260).drop (4 - (dns.take 260).length) := by
    rw [← List.drop_append, List.take_append_drop]
  unfold qname
  rw [hsplit, ht, List.append_assoc, cstr_append_of_noNul hnul, List.cons_append, cstr_cons_zero,
    List.append_nil]

theorem Named.asked_eq {dns name : Bytes} (hdns : dns.length = sizeofDNS) (h : Named dns name) :
    asked dns = name := by
  refine Named.qname_eq ⟨h.1, ?_⟩
  rw [take_strcpyIpaddr hdns]
  exact h.2

/-- The lookup's answer decides whether `ipaddr` is written a second time. -/
theorem answer_cases (file : Option RecordFile) (file_ip dns_req : Bytes) :
    (answer (file.map RecordFile.content) file_ip dns_req).1 =
      match lookupIn file (asked dns_req) with
      | none => strcpyIpaddr dns_req NOT_FOUND
      | some ip => strcpyIpaddr (strcpyIpaddr dns_req NOT_FOUND) ip := by
  unfold answer lookupIn asked
  cases file with
  | none => rfl
  | some f =>
    rw [Option.bind_some, Option.map_some]
    have hscan := f.scanLoop_eq (qname (strcpyIpaddr dns_req NOT_FOUND)) file_ip
    dsimp only
    generalize scanLoop (qname (strcpyIpaddr dns_req NOT_FOUND)) file_ip f.content = r at hscan
    obtain ⟨found, file_ip'⟩ := r
    rw [← hscan]
    cases found with
    | none => rfl
    | some ip => rfl

/-- **The reply**: the request with the answer, terminated, in `ipaddr`. -/
theorem answer_eq (file : Option RecordFile) (file_ip : Bytes) {dns_req : Bytes}
    (hdns : dns_req.length = sizeofDNS) :
    ∃ t, (answer (file.map RecordFile.content) file_ip dns_req).1 =
      dns_req.take 260 ++ (addressOf file (asked dns_req) ++ 0 :: t) := by
  have hnf := length_strcpyIpaddr hdns (s := NOT_FOUND) (by decide)
  rw [answer_cases]
  unfold addressOf
  cases lookupIn file (asked dns_req) with
  | none =>
    refine ⟨dns_req.drop (260 + (NOT_FOUND.length + 1)), ?_⟩
    rw [← take_strcpyIpaddr hdns (s := NOT_FOUND), Option.getD_none, ← drop_strcpyIpaddr hdns,
      List.take_append_drop]
  | some ip =>
    refine ⟨(strcpyIpaddr dns_req NOT_FOUND).drop (260 + (ip.length + 1)), ?_⟩
    rw [← take_strcpyIpaddr hdns (s := NOT_FOUND), ← take_strcpyIpaddr hnf (s := ip),
      Option.getD_some, ← drop_strcpyIpaddr hnf, List.take_append_drop]

/-- The reply is a whole message. -/
theorem length_answer (file : Option RecordFile) (file_ip : Bytes) {dns_req : Bytes}
    (hdns : dns_req.length = sizeofDNS) :
    (answer (file.map RecordFile.content) file_ip dns_req).1.length = sizeofDNS := by
  have hnf := length_strcpyIpaddr hdns (s := NOT_FOUND) (by decide)
  have hfits := (addressOf_fits file (asked dns_req)).2.2
  rw [answer_cases]
  unfold addressOf at hfits
  cases hl : lookupIn file (asked dns_req) with
  | none => exact hnf
  | some ip =>
    rw [hl] at hfits
    exact length_strcpyIpaddr hnf hfits

end NetLab.Dns
