/-
  The output of q3traceroute.c as text (lines 53-54, 81, 127-148), read back.

  `readTranscript` reads the text as one would: it leaves the first line out, takes the number at
  the head of each other line for the hop, and then a star, an address or a time at a word, without
  the unit.

  * `rounded_getrtt`: three places are enough for a difference of two readings of the clock.
  * `readLines_text`: reading the text is reading the items.
  * `readTranscript_run`: in every run, and at every moment of it, the text says what each probe
    came to, exactly.
-/
import NetLab.Lib.Dotted
import NetLab.Trace.Output

namespace NetLab.Trace

open NetLab.Lib
open NetLab.Ping (Timeval)

def PACKETSZ : Nat := 52

/-! ## Printing -/

/-- The `printf` of each item: `"%2d  "`, `"* "`, `"%s  "`, `"%.3f ms  "`, `"\n"`. -/
def Out.text : Out → List Char
  | .hop ttl =>
    List.replicate (2 - (Nat.toDigits 10 ttl).length) ' ' ++ (Nat.toDigits 10 ttl ++ "  ".toList)
  | .star => "* ".toList
  | .addr router => inet_ntop router ++ "  ".toList
  | .rtt ms => fixed 3 ms ++ " ms  ".toList
  | .newline => ['\n']

/-- The line about the destination, without its line feed. -/
def firstLine (targhost : List Char) (dest : UInt32) : List Char :=
  "traceroute to ".toList ++ (targhost ++ (" (".toList ++ (inet_ntop dest ++ ("), ".toList ++
    (Nat.toDigits 10 MAXHOPS ++ (" hops max, ".toList ++ (Nat.toDigits 10 PACKETSZ ++
      " byte packets".toList)))))))

def transcript (targhost : List Char) (dest : UInt32) (out : List Out) : List Char :=
  firstLine targhost dest ++ '\n' :: out.flatMap Out.text

/-! ## Reading -/

/-- A word behind the hop. -/
def readWord (w : List Char) : Option Out :=
  if w = ['*'] then some .star
  else
    match inet_pton w with
    | some router => some (.addr router)
    | none => (readDecimal w).map Out.rtt

def Reader.word (r : Reader) (w : List Char) : Option Reader := (readWord w).bind r.item

/-- The words of a line that are no unit. -/
def lineWords (line : List Char) : List (List Char) :=
  (tokens line).filter (· ≠ "ms".toList)

/-- A line that is not empty begins with the hop. -/
def Reader.line (r : Reader) (line : List Char) : Option Reader :=
  match lineWords line with
  | [] => some r
  | w :: ws =>
    (readNat w).bind fun ttl => (r.item (.hop ttl)).bind fun r => ws.foldlM Reader.word r

/-- What each probe came to, of the whole output. -/
def readTranscript (text : List Char) : Option (List (Pass × Outcome)) :=
  ((text.splitOn '\n').tail.foldlM Reader.line Reader.init).map Reader.found

/-! ## Words -/

theorem lineWords_blank (l : List Char) : lineWords (' ' :: l) = lineWords l := by
  unfold lineWords
  rw [tokens_blank]

theorem lineWords_word {w : List Char} (hne : w ≠ []) (hblank : ' ' ∉ w) (hms : w ≠ "ms".toList)
    (l : List Char) : lineWords (w ++ ' ' :: l) = w :: lineWords l := by
  unfold lineWords
  rw [tokens_word hne hblank, List.filter_cons_of_pos (by exact decide_eq_true hms)]

theorem lineWords_unit (l : List Char) : lineWords ("ms".toList ++ ' ' :: l) = lineWords l := by
  unfold lineWords
  rw [tokens_word (by decide) (by decide), List.filter_cons_of_neg (by decide)]

/-- What is neither digit nor point is not in an address. -/
theorem not_mem_inet_ntop {c : Char} (hdigit : c.isDigit = false) (hdot : c ≠ '.')
    (router : UInt32) : c ∉ inet_ntop router := by
  intro h
  rcases mem_joinOn h with h | ⟨field, hfield, hc⟩
  · exact hdot h
  · obtain ⟨n, _, rfl⟩ := List.mem_map.mp hfield
    exact not_mem_toDigits hdigit n hc

theorem not_mem_fixed {c : Char} (hdigit : c.isDigit = false) (hminus : c ≠ '-') (hdot : c ≠ '.')
    (p : Nat) (q : ℚ) : c ∉ fixed p q := by
  intro h
  rcases mem_fixed h with h | h | h
  · exact Bool.false_ne_true (hdigit ▸ h)
  · exact hminus h
  · exact hdot h

/-- A word with a character that another has not is another word. -/
theorem ne_of_not_mem {c : Char} {v w : List Char} (hv : c ∉ v) (hw : c ∈ w) : v ≠ w :=
  fun h => hv (h ▸ hw)

theorem inet_ntop_ne_nil (router : UInt32) : inet_ntop router ≠ [] := by
  intro h
  have hread := inet_pton_inet_ntop router
  rw [h] at hread
  cases hread

theorem fixed_ne_nil (q : ℚ) : fixed 3 q ≠ [] := by
  intro h
  have hread := readDecimal_fixed (p := 3) (by decide) q
  rw [h] at hread
  cases hread

/-- A time is no address: it has one point. -/
theorem inet_pton_fixed (q : ℚ) : inet_pton (fixed 3 q) = none := by
  rw [Option.eq_none_iff_forall_ne_some]
  intro router h
  have hparts := splitOn_inet_ntop router
  rw [← inet_pton_eq_some.mp h] at hparts
  have hone := length_splitOn_fixed 3 q
  rw [hparts] at hone
  cases hone

theorem readWord_addr (router : UInt32) : readWord (inet_ntop router) = some (.addr router) := by
  unfold readWord
  rw [if_neg (ne_of_not_mem (not_mem_inet_ntop (by decide) (by decide) router)
    (List.mem_singleton_self '*')), inet_pton_inet_ntop]

theorem readWord_rtt {ms : ℚ} (h : rounded 3 ms = ms) : readWord (fixed 3 ms) = some (.rtt ms) := by
  unfold readWord
  rw [if_neg (ne_of_not_mem (not_mem_fixed (by decide) (by decide) (by decide) 3 ms)
    (List.mem_singleton_self '*')), inet_pton_fixed, readDecimal_fixed (by decide), h]
  rfl

/-! ## Lines -/

/-- Whether a line is open after one more item, which fits three places. -/
def layout : Bool → Out → Option Bool
  | false, .hop _ => some true
  | true, .star => some true
  | true, .addr _ => some true
  | true, .rtt ms => if rounded 3 ms = ms then some true else none
  | true, .newline => some false
  | _, _ => none

/-- The lines from within one, or from the start of one. -/
def Reader.lines (r : Reader) : Bool → List (List Char) → Option Reader
  | false, ls => ls.foldlM Reader.line r
  | true, ls => (lineWords (ls.headD [])).foldlM Reader.word r >>= ls.tail.foldlM Reader.line

/-- The word of an item. -/
def Out.word : Out → List Char
  | .hop ttl => Nat.toDigits 10 ttl
  | .star => ['*']
  | .addr router => inet_ntop router
  | .rtt ms => fixed 3 ms
  | .newline => []

theorem lineWords_text {x : Out} (h : x ≠ .newline) (l : List Char) :
    lineWords (x.text ++ l) = x.word :: lineWords l := by
  have hms : ∀ {w : List Char}, 'm' ∉ w → w ≠ "ms".toList := fun h =>
    ne_of_not_mem h (by decide)
  cases x with
  | hop ttl =>
    have hdigits : lineWords (Nat.toDigits 10 ttl ++ ' ' :: ' ' :: l) =
        Nat.toDigits 10 ttl :: lineWords l := by
      rw [lineWords_word Nat.toDigits_ne_nil (not_mem_toDigits (by decide) ttl)
        (hms (not_mem_toDigits (by decide) ttl)), lineWords_blank]
    unfold Out.text
    rw [List.append_assoc, List.append_assoc]
    unfold lineWords at hdigits ⊢
    rw [tokens_blanks]
    exact hdigits
  | star => exact lineWords_word (w := ['*']) (by decide) (by decide) (by decide) l
  | addr router =>
    have hmem := fun c hdigit hdot => not_mem_inet_ntop (c := c) hdigit hdot router
    unfold Out.text
    rw [List.append_assoc]
    show lineWords (inet_ntop router ++ ' ' :: ' ' :: l) = _
    rw [lineWords_word (inet_ntop_ne_nil router) (hmem ' ' (by decide) (by decide))
      (hms (hmem 'm' (by decide) (by decide))), lineWords_blank]
    rfl
  | rtt ms =>
    have hmem := fun c hdigit hminus hdot => not_mem_fixed (c := c) hdigit hminus hdot 3 ms
    unfold Out.text
    rw [List.append_assoc]
    show lineWords (fixed 3 ms ++ ' ' :: ("ms".toList ++ ' ' :: ' ' :: l)) = _
    rw [lineWords_word (fixed_ne_nil ms) (hmem ' ' (by decide) (by decide) (by decide))
      (hms (hmem 'm' (by decide) (by decide) (by decide))), lineWords_unit, lineWords_blank]
    rfl
  | newline => exact absurd rfl h

/-- Only the line feed has a line feed. -/
theorem not_mem_text {x : Out} (h : x ≠ .newline) : '\n' ∉ x.text := by
  cases x with
  | hop ttl =>
    intro hmem
    rcases List.mem_append.mp hmem with hmem | hmem
    · exact absurd (List.eq_of_mem_replicate hmem) (by decide)
    rcases List.mem_append.mp hmem with hmem | hmem
    · exact not_mem_toDigits (by decide) ttl hmem
    · exact absurd hmem (by decide)
  | star => decide
  | addr router =>
    intro hmem
    rcases List.mem_append.mp hmem with hmem | hmem
    · exact not_mem_inet_ntop (by decide) (by decide) router hmem
    · exact absurd hmem (by decide)
  | rtt ms =>
    intro hmem
    rcases List.mem_append.mp hmem with hmem | hmem
    · exact not_mem_fixed (by decide) (by decide) (by decide) 3 ms hmem
    · exact absurd hmem (by decide)
  | newline => exact absurd rfl h

theorem word_item {x : Out} (h : layout true x = some true) (r : Reader) :
    r.word x.word = r.item x := by
  have hread : readWord x.word = some x := by
    cases x with
    | hop ttl => cases h
    | star => rfl
    | addr router => exact readWord_addr router
    | rtt ms => exact readWord_rtt (Option.ite_none_right_eq_some.mp h).1
    | newline => cases h
  unfold Reader.word
  rw [hread, Option.bind_some]

/-- **Reading the text is reading the items.** -/
theorem readLines_text {out : List Out} {b b' : Bool} {r r' : Reader}
    (hlay : out.foldlM layout b = some b') (hread : out.foldlM Reader.item r = some r') :
    r.lines b ((out.flatMap Out.text).splitOn '\n') = some r' := by
  induction out generalizing b r with
  | nil =>
    obtain rfl := Option.some.inj hread
    cases b <;> rfl
  | cons x out ih =>
    obtain ⟨b₁, hb, hlay⟩ := Option.bind_eq_some_iff.mp hlay
    obtain ⟨r₁, hr, hread⟩ := Option.bind_eq_some_iff.mp hread
    have hrest := ih hlay hread
    rw [List.flatMap_cons]
    by_cases hx : x = .newline
    · subst hx
      obtain rfl := Option.some.inj hr
      cases b with
      | false => cases hb
      | true =>
        obtain rfl := Option.some.inj hb
        show Reader.lines r true (('\n' :: out.flatMap Out.text).splitOn '\n') = some r'
        rw [List.splitOn_cons_eq_if_modifyHead, if_pos (beq_self_eq_true '\n')]
        exact hrest
    · rw [splitOn_append_of_not_mem (not_mem_text hx)]
      obtain ⟨l, ls, hls⟩ := List.exists_cons_of_ne_nil
        (List.splitOn_ne_nil '\n' (out.flatMap Out.text))
      rw [hls] at hrest ⊢
      rw [List.modifyHead_cons]
      have hwords := lineWords_text hx l
      cases b with
      | false =>
        -- only a hop opens a line
        cases x with
        | hop ttl =>
          obtain rfl := Option.some.inj hb
          have hline : r.line ((Out.hop ttl).text ++ l) =
              (lineWords l).foldlM Reader.word r₁ := by
            unfold Reader.line
            rw [hwords]
            show (readNat (Nat.toDigits 10 ttl)).bind _ = _
            rw [readNat_toDigits, Option.bind_some, hr, Option.bind_some]
          show ((_ :: ls).foldlM Reader.line r) = _
          rw [List.foldlM_cons, hline]
          exact hrest
        | star | addr _ | rtt _ | newline => cases hb
      | true =>
        have hb₁ : b₁ = true := by
          cases x with
          | hop _ => cases hb
          | star | addr _ => exact (Option.some.inj hb).symm
          | rtt ms => exact (Option.some.inj (Option.ite_none_right_eq_some.mp hb).2).symm
          | newline => exact absurd rfl hx
        subst hb₁
        show ((lineWords (x.text ++ l)).foldlM Reader.word r >>= ls.foldlM Reader.line) = _
        rw [hwords, List.foldlM_cons, word_item hb, hr]
        exact hrest

/-! ## Runs -/

/-- The time is a whole number of microseconds. -/
theorem rounded_getrtt (start_time end_time : Timeval) :
    rounded 3 (getrtt start_time end_time) = getrtt start_time end_time := by
  have hint : getrtt start_time end_time =
      (((end_time.tv_sec.toInt - start_time.tv_sec.toInt) * 1000000 +
        (end_time.tv_usec.toInt - start_time.tv_usec.toInt) : Int) : ℚ) / 10 ^ 3 := by
    unfold getrtt
    push_cast
    ring
  rw [hint, rounded_div]

/-- A line is open in the inner loop, and none at the head of the outer one. -/
def Laid (c : Tracer) : Prop :=
  ∃ b, c.out.foldlM layout false = some b ∧ (c.phase.Inner → b = true) ∧
    (c.phase = .hop → b = false)

theorem laid_init : Laid Tracer.init := ⟨false, rfl, fun h => absurd h id, fun _ => rfl⟩

theorem foldlM_layout {out items : List Out} {b b' : Bool} (h : out.foldlM layout false = some b)
    (hitems : items.foldlM layout b = some b') :
    (out ++ items).foldlM layout false = some b' := by
  rw [List.foldlM_append, h]
  exact hitems

/-- What is printed of a reply leaves the line open. -/
theorem layout_report (c : Tracer) (router : UInt32) {ms : ℚ} (h : rounded 3 ms = ms) :
    (c.report router ms).foldlM layout true = some true := by
  have hrtt : [Out.rtt ms].foldlM layout true = some true := by
    rw [List.foldlM_cons, show layout true (.rtt ms) = some true from if_pos h]
    rfl
  unfold Tracer.report
  split
  · exact hrtt
  · exact hrtt

theorem laid_step {s s' : Sys} (h : Laid s.tracer) {x : Act} (hstep : step s x = some s') :
    Laid s'.tracer := by
  obtain ⟨b, hb, hinner, hhop⟩ := h
  cases x with
  | hop =>
    obtain ⟨hp, _, rfl⟩ := step_hop hstep
    obtain rfl := hhop hp
    exact ⟨true, foldlM_layout hb rfl, fun _ => rfl, fun hp => by cases hp⟩
  | finish | fail =>
    simp only [step, Option.ite_none_right_eq_some, Option.some.injEq] at hstep
    obtain ⟨_, rfl⟩ := hstep
    exact ⟨b, hb, fun hin => absurd hin id, fun hp => by cases hp⟩
  | send t =>
    obtain ⟨hp, _, rfl⟩ := step_send hstep
    obtain rfl := hinner (by rw [hp]; trivial)
    exact ⟨true, hb, fun _ => rfl, fun hp => by cases hp⟩
  | newline =>
    obtain ⟨hp, _, rfl⟩ := step_newline hstep
    obtain rfl := hinner (by rw [hp]; trivial)
    exact ⟨false, foldlM_layout hb rfl, fun hin => absurd hin id, fun _ => rfl⟩
  | recv t =>
    obtain ⟨start_time, _, m, rest, hp, _, rfl⟩ := step_recv hstep
    obtain rfl := hinner (by rw [hp]; trivial)
    unfold Sys.receive
    dsimp only
    split
    · have hitems := layout_report s.tracer m.router_addr (rounded_getrtt start_time t)
      exact ⟨true, foldlM_layout hb hitems, fun _ => rfl, fun hp => by cases hp⟩
    · exact ⟨true, hb, fun _ => rfl, fun hp => by cases hp⟩
  | timeout =>
    obtain ⟨_, _, hp, _, _, rfl⟩ := step_timeout hstep
    obtain rfl := hinner (by rw [hp]; trivial)
    exact ⟨true, foldlM_layout hb rfl, fun _ => rfl, fun hp => by cases hp⟩
  | tick d =>
    obtain rfl := Option.some.inj hstep
    exact ⟨b, hb, hinner, hhop⟩
  | answer k _ _ | deliver k | loseProbe k | loseReply k | dupProbe k | dupReply k =>
    simp only [step, Option.map_eq_some_iff] at hstep
    obtain ⟨_, _, rfl⟩ := hstep
    exact ⟨b, hb, hinner, hhop⟩

/-- The first line is one line where the name has no line feed. -/
theorem not_mem_firstLine {targhost : List Char} (h : '\n' ∉ targhost) (dest : UInt32) :
    '\n' ∉ firstLine targhost dest := by
  have hdest := not_mem_inet_ntop (c := '\n') (by decide) (by decide) dest
  unfold firstLine
  simp only [List.mem_append, not_or]
  exact ⟨by decide, h, by decide, hdest, by decide, by decide, by decide, by decide, by decide⟩

/-- **The text says what each probe came to.** At every moment of every run the probes are read in
    the order of the loops, each under its hop and with its router and its time to the microsecond;
    and a run that has come to its end has printed all the probes of its hops. -/
theorem readTranscript_run {targhost : List Char} (htarghost : '\n' ∉ targhost) (dest : UInt32)
    (acts : List Act) (s : Sys) (hrun : system.run Sys.init acts = some s) :
    readTranscript (transcript targhost dest s.tracer.out) = some (outcomes Sys.init acts) ∧
      (outcomes Sys.init acts).map Prod.fst = passes (outcomes Sys.init acts).length ∧
      (s.tracer.phase = .done → ∃ hops ≤ MAXHOPS,
        (outcomes Sys.init acts).length = hops * PROBESPERHOP ∧
          (hops = MAXHOPS ∨ s.tracer.destreached = true)) := by
  obtain ⟨r, hshown⟩ := shown_run shown_init hrun
  rw [List.nil_append] at hshown
  obtain ⟨b, hlay, _, _⟩ :=
    system.run_inv (fun _ _ _ hI hst => laid_step hI hst) laid_init hrun
  refine ⟨?_, hshown.order, fun hdone => ?_⟩
  · have hlines : ((s.tracer.out.flatMap Out.text).splitOn '\n').foldlM Reader.line Reader.init =
        some r := readLines_text hlay hshown.reads
    unfold readTranscript transcript
    rw [List.splitOn_append_cons_self_of_not_mem (not_mem_firstLine htarghost dest), List.tail_cons,
      hlines, Option.map_some, hshown.found]
  · obtain ⟨hlen, httl⟩ := hshown.atHop (.inr hdone)
    have hpos := hshown.ttl_pos
    have hmore := hshown.ended hdone
    refine ⟨s.tracer.pass.ttl - 1, by omega, hlen, ?_⟩
    by_cases hdest : s.tracer.destreached = true
    · exact .inr hdest
    · have hlt : ¬ s.tracer.pass.ttl ≤ MAXHOPS := fun h =>
        hmore ⟨h, Bool.eq_false_of_not_eq_true hdest⟩
      omega

/-- The headers of the port unreachable message of a destination. -/
def unreachable : ErrorMessage :=
  { exceeded with type := .destUnreach, code := ICMP_UNREACH_PORT }

/-- The destination answers two probes of the first hop. The one between them is lost. -/
def nearby : List Act :=
  [.hop, .send ⟨0, 0⟩, .answer 0 2130706433 unreachable, .deliver 0, .recv ⟨0, 1500⟩,
    .send ⟨1, 0⟩, .loseProbe 0, .tick 3000000, .timeout,
    .send ⟨5, 0⟩, .answer 0 2130706433 unreachable, .deliver 0, .recv ⟨5, 40⟩, .newline, .finish]

theorem nearby_read :
    ∃ s, system.run Sys.init nearby = some s ∧
      readTranscript (transcript "localhost".toList 2130706433 s.tracer.out) =
        some (outcomes Sys.init nearby) ∧
      (outcomes Sys.init nearby).map Prod.fst = passes (outcomes Sys.init nearby).length ∧
      (s.tracer.phase = .done → ∃ hops ≤ MAXHOPS,
        (outcomes Sys.init nearby).length = hops * PROBESPERHOP ∧
          (hops = MAXHOPS ∨ s.tracer.destreached = true)) := by
  obtain ⟨s, hs⟩ := Option.isSome_iff_exists.mp
    (show (system.run Sys.init nearby).isSome = true by decide +kernel)
  exact ⟨s, hs, readTranscript_run (by decide) 2130706433 nearby s hs⟩

end NetLab.Trace
