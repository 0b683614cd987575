/-
  The serve loop of Server.c over a sequence of connections (lines 70-119).

  A connection is what its `read` returns, which may be a failure, no bytes or any bytes, and how
  its `write` ends. `error` prints and calls `exit (1)`, after start-up as before it, so the first
  `read` or `write` that fails ends the process; a `write` to a connection that was reset may also
  not return, and the process is killed by `SIGPIPE` without a report. The buffers `dns_req` and
  `file_ip` are those of the connection before.

  The request is printed before it is looked up. For a request without a NUL in `qname` and `ipaddr`
  the `printf` reads on behind `dns_req`, which C leaves undefined; such a pass is no step here, and
  the connections are assumed `Terminated`. A file of one string leaves `file_ip` as the process
  found it.

  * `serve_survives`, `serve_fails`: what a pass does; `serve_isSome`: that there is one.
  * `served_concat`, `served_run`: what a sequence of connections leaves.
  * `answered_until_failure`: up to the first failure every connection gets the reply it would get
    alone, and is closed; then the process reports and is over.
  * `resetFirst_unanswered`: a connection that is reset, and a request after it.
-/
import NetLab.Lib.Machine
import NetLab.Dns.Server

namespace NetLab.Dns

open NetLab.Lib

/-! ## The process -/

/-- How a `write` ends. -/
inductive WriteEnd where
  | complete
  /-- It returns a negative number. -/
  | failed
  /-- It does not return: `SIGPIPE` kills the process. -/
  | sigpipe
deriving DecidableEq, Repr

structure Connection where
  /-- What `read` returns: `none` where it fails, no bytes where the client has closed. -/
  data : Option Bytes
  write : WriteEnd
deriving DecidableEq, Repr

/-- How the process is over. -/
inductive Exit where
  | status (code : Nat)
  | sigpipe
deriving DecidableEq, Repr

structure Process where
  exited : Option Exit
  /-- Connections accepted so far; the next is of that number. -/
  accepted : Nat
  /-- Connections accepted and not closed. -/
  held : List Nat
  dns_req : Bytes
  file_ip : Bytes
  /-- Number and reply of each connection answered. -/
  replies : List (Nat × Bytes)
  /-- What `perror` was called with. -/
  stderr : List String
deriving DecidableEq, Repr

/-- The process in front of the loop. Its buffers hold anything. -/
def Process.init (dns_req file_ip : Bytes) : Process := ⟨none, 0, [], dns_req, file_ip, [], []⟩

/-- The end of the process, with which all connections are closed. -/
def Process.exit (s : Process) (e : Exit) : Process := { s with exited := some e, held := [] }

def Process.perror (s : Process) (msg : String) : Process := { s with stderr := s.stderr ++ [msg] }

/-- `perror (msg); exit (1)`. -/
def Process.error (s : Process) (msg : String) : Process := (s.perror msg).exit (.status 1)

/-- What `perror` is called with where `fopen` fails. -/
def openReports (file : Option Bytes) : List String :=
  match file with
  | none => ["ERROR opening dns_records.txt"]
  | some _ => []

/-- A pass through the loop, for the next connection. -/
def serve (file : Option Bytes) (s : Process) (c : Connection) : Option Process :=
  if s.exited.isSome then some s
  else
    let newsockfd := s.accepted
    let s := { s with
      accepted := s.accepted + 1
      held := newsockfd :: s.held
      dns_req := List.replicate sizeofDNS 0 }
    match c.data with
    | none => some (s.error "ERROR reading from socket DNS")
    | some data =>
      let dns_req := recvInto sizeofDNS s.dns_req data
      if 0 ∈ dns_req.drop 4 then
        let reply := answer file s.file_ip dns_req
        let s := { s with
          dns_req := reply.1
          file_ip := reply.2
          stderr := s.stderr ++ openReports file }
        match c.write with
        | .complete =>
          some { s with
            replies := s.replies ++ [(newsockfd, reply.1)]
            held := s.held.erase newsockfd }
        | .failed => some (s.error "ERROR writing to socket")
        | .sigpipe => some (s.exit .sigpipe)
      else none

def serveLoop (file : Option Bytes) : Machine Process Connection := ⟨serve file⟩

/-! ## One connection -/

/-- Neither the `read` nor the `write` fails. -/
def Connection.Survives (c : Connection) : Prop := c.data.isSome ∧ c.write = .complete

instance : DecidablePred Connection.Survives := fun c =>
  inferInstanceAs (Decidable (c.data.isSome ∧ c.write = .complete))

/-- What has arrived, with the zeros behind it, has a NUL in `qname` or `ipaddr`. -/
def Connection.Terminated (c : Connection) : Prop := ∀ data ∈ c.data, 0 ∈ (readRequest data).drop 4

instance : DecidablePred Connection.Terminated := fun c =>
  inferInstanceAs (Decidable (∀ data ∈ c.data, 0 ∈ (readRequest data).drop 4))

/-- The reply of a server that has served nothing before and found `file_ip` in its memory. -/
def replyTo (file : Option Bytes) (file_ip : Bytes) (c : Connection) : Bytes :=
  (answer file file_ip (readRequest (c.data.getD []))).1

/-- How the process is over behind a connection that fails. -/
def Connection.exit (c : Connection) : Exit :=
  if c.data.isSome ∧ c.write = .sigpipe then .sigpipe else .status 1

/-- What is reported about a connection. -/
def Connection.reports (file : Option Bytes) (c : Connection) : List String :=
  match c.data, c.write with
  | none, _ => ["ERROR reading from socket DNS"]
  | some _, .failed => openReports file ++ ["ERROR writing to socket"]
  | some _, _ => openReports file

/-- The memory a pass finds does not show, but where the file has no two strings; then the pass
    leaves it as it was. -/
theorem answer_file_ip {file : Option Bytes} {file_ip file_ip' : Bytes}
    (h : ∀ content ∈ file, (words content).length < 2 → file_ip = file_ip') (dns_req : Bytes) :
    (answer file file_ip dns_req).1 = (answer file file_ip' dns_req).1 ∧
      ∀ content ∈ file, (words content).length < 2 →
        (answer file file_ip dns_req).2 = file_ip' := by
  cases file with
  | none => exact ⟨rfl, nofun⟩
  | some content =>
    obtain ⟨hfst, hsnd⟩ := scanWords_file_ip (h content rfl) (qname (strcpyIpaddr dns_req NOT_FOUND))
    unfold answer
    dsimp only
    rw [scanLoop_eq, scanLoop_eq]
    generalize scanWords _ file_ip (words content) = r at hfst hsnd
    generalize scanWords _ file_ip' (words content) = r' at hfst
    obtain ⟨found, _⟩ := r
    obtain ⟨found', _⟩ := r'
    obtain rfl : found = found' := hfst
    cases found <;> exact ⟨rfl, fun _ hc hlt => hsnd (Option.some.inj hc ▸ hlt)⟩

variable {file : Option Bytes} {file_ip : Bytes} {s s' : Process} {c : Connection}

/-- The memory is still the one the process found, where it shows. -/
def Process.Clean (file : Option Bytes) (file_ip : Bytes) (s : Process) : Prop :=
  ∀ content ∈ file, (words content).length < 2 → s.file_ip = file_ip

theorem serve_survives (hrun : s.exited = none) (hclean : s.Clean file file_ip) (hc : c.Survives)
    (h : serve file s c = some s') :
    s'.exited = none ∧ s'.accepted = s.accepted + 1 ∧ s'.held = s.held ∧
      s'.replies = s.replies ++ [(s.accepted, replyTo file file_ip c)] ∧
      s'.stderr = s.stderr ++ c.reports file ∧ s'.Clean file file_ip := by
  obtain ⟨hdata, hwrite⟩ := hc
  obtain ⟨data, hdata⟩ := Option.isSome_iff_exists.mp hdata
  obtain ⟨hreply, hleft⟩ := answer_file_ip hclean (readRequest data)
  unfold serve at h
  rw [hrun, hdata, hwrite] at h
  dsimp only [Option.isSome_none] at h
  rw [if_neg Bool.false_ne_true, Option.ite_none_right_eq_some, Option.some.injEq] at h
  obtain ⟨_, rfl⟩ := h
  refine ⟨rfl, rfl, List.erase_cons_head _ _, ?_, ?_, hleft⟩
  · unfold replyTo
    rw [hdata, Option.getD_some, ← hreply]
    rfl
  · unfold Connection.reports
    rw [hdata, hwrite]

theorem serve_fails (hrun : s.exited = none) (hc : ¬ c.Survives) (h : serve file s c = some s') :
    s'.exited = some c.exit ∧ s'.held = [] ∧ s'.replies = s.replies ∧
      s'.stderr = s.stderr ++ c.reports file := by
  unfold Connection.exit Connection.reports
  unfold serve at h
  rw [hrun] at h
  dsimp only [Option.isSome_none] at h
  rw [if_neg Bool.false_ne_true] at h
  cases hdata : c.data with
  | none =>
    rw [hdata] at h
    obtain rfl := Option.some.inj h
    exact ⟨rfl, rfl, rfl, rfl⟩
  | some data =>
    rw [hdata] at h
    dsimp only at h
    rw [Option.ite_none_right_eq_some] at h
    obtain ⟨_, h⟩ := h
    cases hwrite : c.write with
    | complete => exact absurd ⟨by rw [hdata]; rfl, hwrite⟩ hc
    | failed =>
      rw [hwrite] at h
      obtain rfl := Option.some.inj h
      exact ⟨rfl, rfl, rfl, List.append_assoc _ _ _⟩
    | sigpipe =>
      rw [hwrite] at h
      obtain rfl := Option.some.inj h
      exact ⟨rfl, rfl, rfl, rfl⟩

theorem serve_exited (hrun : s.exited ≠ none) (h : serve file s c = some s') : s' = s := by
  unfold serve at h
  rw [if_pos (Option.isSome_iff_ne_none.mpr hrun)] at h
  exact (Option.some.inj h).symm

/-- A request that is terminated can be printed, and the pass goes on. -/
theorem serve_isSome (file : Option Bytes) (s : Process) (hc : c.Terminated) :
    (serve file s c).isSome := by
  unfold serve
  split
  · rfl
  · cases hdata : c.data with
    | none => rfl
    | some data =>
      have hnul : 0 ∈ (recvInto sizeofDNS (List.replicate sizeofDNS 0) data).drop 4 :=
        hc data hdata
      dsimp only
      rw [if_pos hnul]
      cases c.write <;> rfl

/-! ## All connections -/

/-- The connections up to the first that fails, that one included. -/
def attended : List Connection → List Connection
  | [] => []
  | c :: cs => if c.Survives then c :: attended cs else [c]

theorem attended_eq_self {conns : List Connection} (h : ∀ c ∈ conns, c.Survives) :
    attended conns = conns := by
  induction conns with
  | nil => rfl
  | cons c cs ih =>
    obtain ⟨hc, hcs⟩ := List.forall_mem_cons.mp h
    rw [attended, if_pos hc, ih hcs]

theorem attended_concat {conns : List Connection} (h : ∀ c ∈ conns, c.Survives)
    (c : Connection) : attended (conns ++ [c]) = conns ++ [c] := by
  induction conns with
  | nil =>
    rw [List.nil_append, attended]
    split <;> rfl
  | cons d cs ih =>
    obtain ⟨hd, hcs⟩ := List.forall_mem_cons.mp h
    rw [List.cons_append, attended, if_pos hd, ih hcs]

theorem attended_concat_of_not {conns : List Connection} (h : ¬ ∀ c ∈ conns, c.Survives)
    (c : Connection) : attended (conns ++ [c]) = attended conns := by
  induction conns with
  | nil => exact absurd nofun h
  | cons d cs ih =>
    rw [List.cons_append, attended, attended]
    by_cases hd : d.Survives
    · rw [if_pos hd, if_pos hd, ih fun hcs => h (List.forall_mem_cons.mpr ⟨hd, hcs⟩)]
    · rw [if_neg hd, if_neg hd]

/-- The process after it has been offered `conns`. -/
structure Served (file : Option Bytes) (file_ip : Bytes) (conns : List Connection)
    (s : Process) : Prop where
  alive : s.exited = none ↔ ∀ c ∈ conns, c.Survives
  exited : s.exited = (conns.find? (¬ ·.Survives)).map Connection.exit
  accepted : s.exited = none → s.accepted = conns.length
  clean : s.exited = none → s.Clean file file_ip
  held : s.held = []
  replies : s.replies =
    (conns.takeWhile (·.Survives)).zipIdx.map fun p => (p.2, replyTo file file_ip p.1)
  stderr : s.stderr = (attended conns).flatMap (Connection.reports file)

theorem served_init (file : Option Bytes) (dns_req file_ip : Bytes) :
    Served file file_ip [] (Process.init dns_req file_ip) where
  alive := iff_of_true rfl nofun
  exited := rfl
  accepted _ := rfl
  clean _ _ _ _ := rfl
  held := rfl
  replies := rfl
  stderr := rfl

/-- A connection that survives is served last of all that do. -/
theorem takeWhile_concat {conns : List Connection} (h : ∀ c ∈ conns, c.Survives)
    (c : Connection) : (conns ++ [c]).takeWhile (·.Survives) =
      conns ++ if c.Survives then [c] else [] := by
  rw [List.takeWhile_append_of_pos (by simpa using h)]
  by_cases hc : c.Survives <;> simp [hc]

theorem takeWhile_concat_of_not {conns : List Connection} (h : ¬ ∀ c ∈ conns, c.Survives)
    (c : Connection) : (conns ++ [c]).takeWhile (·.Survives) = conns.takeWhile (·.Survives) := by
  rw [List.takeWhile_append, if_neg]
  intro hlen
  have hall := (List.takeWhile_prefix (·.Survives : Connection → Bool)).eq_of_length hlen
  exact h (by simpa using List.takeWhile_eq_self_iff.mp hall)

theorem find?_failing {conns : List Connection} (h : ∀ c ∈ conns, c.Survives) :
    conns.find? (¬ ·.Survives) = none :=
  List.find?_eq_none.mpr (by simpa using h)

/-- A further connection, as long as none has failed. -/
theorem served_concat_alive {conns : List Connection} (hs : Served file file_ip conns s)
    (hrun : s.exited = none) (h : serve file s c = some s') :
    Served file file_ip (conns ++ [c]) s' := by
  have hall := hs.alive.mp hrun
  have hforall : (∀ d ∈ conns ++ [c], d.Survives) ↔ c.Survives := by
    simpa [or_imp, forall_and] using fun _ => hall
  have htake : conns.takeWhile (·.Survives) = conns :=
    List.takeWhile_eq_self_iff.mpr (by simpa using hall)
  have hreports : (attended (conns ++ [c])).flatMap (Connection.reports file) =
      s.stderr ++ c.reports file := by
    rw [hs.stderr, attended_concat hall, attended_eq_self hall, List.flatMap_append,
      List.flatMap_singleton]
  by_cases hc : c.Survives
  · obtain ⟨halive, hacc, hheld, hrep, herr, hclean⟩ :=
      serve_survives hrun (hs.clean hrun) hc h
    refine ⟨iff_of_true halive (hforall.mpr hc), ?_, fun _ => ?_, fun _ => hclean,
      hheld.trans hs.held, ?_, herr.trans hreports.symm⟩
    · rw [halive, find?_failing (hforall.mpr hc), Option.map_none]
    · rw [hacc, hs.accepted hrun, List.length_append, List.length_singleton]
    · rw [hrep, hs.replies, takeWhile_concat hall, if_pos hc, htake, List.zipIdx_append,
        List.map_append, hs.accepted hrun]
      simp
  · obtain ⟨hdead, hheld, hrep, herr⟩ := serve_fails hrun hc h
    have hexited : s'.exited ≠ none := by
      rw [hdead]
      exact Option.some_ne_none _
    refine ⟨iff_of_false hexited fun hd => hc (hforall.mp hd), ?_, fun he => absurd he hexited,
      fun he => absurd he hexited, hheld, ?_, herr.trans hreports.symm⟩
    · rw [hdead, List.find?_append, find?_failing hall, Option.none_or,
        List.find?_cons_of_pos (by simpa using hc), Option.map_some]
    · rw [hrep, hs.replies, takeWhile_concat hall, if_neg hc, List.append_nil, htake]

theorem served_concat {conns : List Connection} (hs : Served file file_ip conns s)
    (h : serve file s c = some s') : Served file file_ip (conns ++ [c]) s' := by
  by_cases hrun : s.exited = none
  · exact served_concat_alive hs hrun h
  · have hnot : ¬ ∀ d ∈ conns, d.Survives := fun hall => hrun (hs.alive.mpr hall)
    obtain rfl := serve_exited hrun h
    obtain ⟨e, he⟩ := Option.ne_none_iff_exists'.mp hrun
    refine ⟨iff_of_false hrun fun hd => hnot fun d hmem => hd d (List.mem_append_left _ hmem), ?_,
      fun hnone => absurd hnone hrun, fun hnone => absurd hnone hrun, hs.held, ?_, ?_⟩
    · have hfind := hs.exited
      rw [he] at hfind
      obtain ⟨d, hd, _⟩ := Option.map_eq_some_iff.mp hfind.symm
      rw [hs.exited, List.find?_append, hd, Option.some_or]
    · rw [hs.replies, takeWhile_concat_of_not hnot]
    · rw [hs.stderr, attended_concat_of_not hnot]

/-- Terminated requests are served to the end, whatever comes of the process. -/
theorem served_run (file : Option Bytes) (dns_req file_ip : Bytes) {conns : List Connection}
    (h : ∀ c ∈ conns, c.Terminated) :
    ∃ s, (serveLoop file).run (Process.init dns_req file_ip) conns = some s ∧
      Served file file_ip conns s := by
  induction conns using List.reverseRecOn with
  | nil => exact ⟨_, rfl, served_init file dns_req file_ip⟩
  | append_singleton conns c ih =>
    obtain ⟨t, ht, hserved⟩ := ih fun d hd => h d (List.mem_append_left _ hd)
    have hc := h c (List.mem_append_right _ (List.mem_singleton_self c))
    obtain ⟨s, hs⟩ := Option.isSome_iff_exists.mp (serve_isSome file t hc)
    exact ⟨s, (serveLoop file).run_concat.mpr ⟨t, ht, hs⟩, served_concat hserved hs⟩

/-- **The server answers up to the first failure.** Whatever the clients send, the process takes
    every connection up to the first whose `read` or `write` fails; those before it get, in turn,
    the replies they would get alone. It goes on exactly when no connection fails; the one that does
    is reported, unless `SIGPIPE` kills the process; no connection stays open. -/
theorem answered_until_failure (file : Option TextFile) (dns_req file_ip : Bytes)
    (conns : List Connection) (h : ∀ c ∈ conns, c.Terminated) :
    ∃ s, (serveLoop (file.map TextFile.content)).run (Process.init dns_req file_ip) conns =
        some s ∧
      s.replies = (conns.takeWhile (·.Survives)).zipIdx.map
        (fun p => (p.2, replyTo (file.map TextFile.content) file_ip p.1)) ∧
      (s.exited = none ↔ ∀ c ∈ conns, c.Survives) ∧
      s.exited = (conns.find? (¬ ·.Survives)).map Connection.exit ∧
      s.stderr = (attended conns).flatMap (Connection.reports (file.map TextFile.content)) ∧
      s.held = [] := by
  obtain ⟨s, hrun, hs⟩ := served_run (file.map TextFile.content) dns_req file_ip h
  exact ⟨s, hrun, hs.replies, hs.alive, hs.exited, hs.stderr, hs.held⟩

/-! ## A reset connection -/

/-- A client that resets its connection before the server reads, one that has closed it, one that
    resets it before the server writes, and a request for `a.bc` with id 7. -/
def resetConnection : Connection := ⟨none, .failed⟩
def closedConnection : Connection := ⟨some [], .complete⟩
def lateReset : Connection := ⟨some [7, 0, 0, 0, 97, 46, 98, 99], .sigpipe⟩
def goodConnection : Connection := ⟨some [7, 0, 0, 0, 97, 46, 98, 99], .complete⟩

/-- `a.bc 1.2.3.4 x.yz`, with a string too many. -/
def oddFile : TextFile where
  content := [97, 46, 98, 99, 32, 49, 46, 50, 46, 51, 46, 52, 10, 120, 46, 121, 122, 10]
  noNul := by decide
  domain_fits j := fits_of_le (by decide +kernel) (by decide) (2 * j)
  ip_fits j := fits_of_le (by decide +kernel) (by decide) (2 * j + 1)

/-- A client that has closed does no harm, one that has reset does. -/
theorem answered_until_failure_mixed :
    ∃ s, (serveLoop (some oddFile.content)).run (Process.init [] [])
        [closedConnection, goodConnection, lateReset, goodConnection] = some s ∧
      s.replies = ([closedConnection, goodConnection, lateReset, goodConnection].takeWhile
          (·.Survives)).zipIdx.map (fun p => (p.2, replyTo (some oddFile.content) [] p.1)) ∧
      (s.exited = none ↔
        ∀ c ∈ [closedConnection, goodConnection, lateReset, goodConnection], c.Survives) ∧
      s.exited = ([closedConnection, goodConnection, lateReset, goodConnection].find?
        (¬ ·.Survives)).map Connection.exit ∧
      s.stderr = (attended [closedConnection, goodConnection, lateReset, goodConnection]).flatMap
        (Connection.reports (some oddFile.content)) ∧
      s.held = [] :=
  answered_until_failure (some oddFile) [] [] _ (by decide)

/-- The same request is answered alone and not after a connection that was reset. -/
theorem resetFirst_unanswered :
    ∃ s t, (serveLoop none).run (Process.init [] []) [resetConnection, goodConnection] = some s ∧
      (serveLoop none).run (Process.init [] []) [goodConnection] = some t ∧
      s.exited = some (.status 1) ∧ s.replies = [] ∧
      t.replies = [(0, replyTo none [] goodConnection)] :=
  ⟨_, _, rfl, rfl, rfl, rfl, rfl⟩

end NetLab.Dns
