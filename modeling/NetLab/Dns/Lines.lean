/-
  The record lookup of Server.c against the lines of dns_records.txt.

  A record is a line with a name and an address. `fscanf (file, "%s %s", ..)` does not see the ends
  of lines: it pairs the strings of the file two by two, so that a line with one string, or three,
  shifts the pairs of every line behind it, and a last string without a partner is looked up with
  the address of the pair before.

  * `words_eq_flatMap`: the strings of a file are those of its lines.
  * `scanSource`: where the string the loop copies was read; `scanLoop_source`: it is that string.
  * `answersLine_iff`: the reply is the second string of the record's line exactly if the strings in
    front of that line pair up and none of their names is the one asked for.

  `scanLoop` is total, so the scan ends on every file.
-/
import NetLab.Dns.Server

namespace NetLab.Dns

open NetLab.Lib

/-! ## Lines -/

/-- The lines of a file. -/
def lines (content : Bytes) : List Bytes := content.splitOn 10

theorem words_append_newline (l r : Bytes) : words (l ++ 10 :: r) = words l ++ words r := by
  unfold words
  rw [List.splitOnP_append_cons l r (by rfl), List.filter_append]

/-- The strings of a file are those of its lines. -/
theorem words_eq_flatMap (content : Bytes) : words content = (lines content).flatMap words := by
  induction hn : content.length using Nat.strong_induction_on generalizing content with
  | _ n ih =>
    by_cases h : 10 ∈ content
    · obtain ⟨l, r, rfl, hl⟩ := List.eq_append_cons_of_mem h
      rw [List.length_append, List.length_cons] at hn
      have hlines : lines (l ++ 10 :: r) = l :: lines r :=
        List.splitOn_append_cons_self_of_not_mem hl r
      rw [words_append_newline, hlines, List.flatMap_cons, ih r.length (by omega) r rfl]
    · have hlines : lines content = [content] := List.splitOn_eq_singleton h
      rw [hlines, List.flatMap_singleton]

/-- The line is a record of that name: the name and an address, whatever follows. -/
def isRecordOf (name line : Bytes) : Bool :=
  match words line with
  | domain :: _ :: _ => domain = name
  | _ => false

/-- The second string of the first record of that name. -/
def lineAnswer (name content : Bytes) : Option Bytes :=
  ((lines content).find? (isRecordOf name)).bind fun line => (words line)[1]?

/-- The place of that string among all strings of the file. -/
def recordPlace (name : Bytes) : List Bytes → Option Nat
  | [] => none
  | line :: ls =>
    if isRecordOf name line then some 1
    else (recordPlace name ls).map ((words line).length + ·)

/-- The strings in front of the first record of that name, all of them if there is none. -/
def ahead (name content : Bytes) : List Bytes :=
  ((lines content).takeWhile (! isRecordOf name ·)).flatMap words

theorem isRecordOf_iff {name line : Bytes} :
    isRecordOf name line = true ↔ ∃ ip rest, words line = name :: ip :: rest := by
  unfold isRecordOf
  constructor
  · intro h
    split at h
    · rename_i domain ip rest hwords
      exact ⟨ip, rest, by rw [hwords, of_decide_eq_true h]⟩
    · cases h
  · rintro ⟨ip, rest, hwords⟩
    rw [hwords]
    exact decide_eq_true rfl

/-- A file with a record of the name, cut in front of it. -/
theorem exists_record {name : Bytes} {ls : List Bytes} (h : ∃ l ∈ ls, isRecordOf name l = true) :
    ∃ ip rest, ls.flatMap words =
        (ls.takeWhile (! isRecordOf name ·)).flatMap words ++ name :: ip :: rest ∧
      (ls.find? (isRecordOf name)).bind (fun line => (words line)[1]?) = some ip ∧
      recordPlace name ls =
        some (((ls.takeWhile (! isRecordOf name ·)).flatMap words).length + 1) := by
  induction ls with
  | nil =>
    obtain ⟨l, hl, _⟩ := h
    cases hl
  | cons line ls ih =>
    by_cases hline : isRecordOf name line = true
    · obtain ⟨ip, rest, hwords⟩ := isRecordOf_iff.mp hline
      refine ⟨ip, rest ++ ls.flatMap words, ?_, ?_, ?_⟩
      · rw [List.takeWhile_cons_of_neg (by rw [hline]; decide), List.flatMap_cons, hwords]
        rfl
      · rw [List.find?_cons_of_pos hline, Option.bind_some, hwords]
        rfl
      · rw [recordPlace, if_pos hline, List.takeWhile_cons_of_neg (by rw [hline]; decide)]
        rfl
    · have hrest : ∃ l ∈ ls, isRecordOf name l = true := by
        obtain ⟨l, hl, hrec⟩ := h
        rcases List.mem_cons.mp hl with rfl | hl
        · exact absurd hrec hline
        · exact ⟨l, hl, hrec⟩
      obtain ⟨ip, rest, hflat, hfind, hplace⟩ := ih hrest
      have htake : (line :: ls).takeWhile (! isRecordOf name ·) =
          line :: ls.takeWhile (! isRecordOf name ·) :=
        List.takeWhile_cons_of_pos (by rw [Bool.eq_false_iff.mpr hline]; rfl)
      refine ⟨ip, rest, ?_, ?_, ?_⟩
      · rw [htake, List.flatMap_cons, List.flatMap_cons, hflat, List.append_assoc]
      · rw [List.find?_cons_of_neg hline, hfind]
      · rw [recordPlace, if_neg hline, hplace, htake, List.flatMap_cons, List.length_append,
          Option.map_some, Nat.add_assoc]

/-- A file without a record of the name. -/
theorem recordPlace_eq_none {name : Bytes} {ls : List Bytes}
    (h : ¬ ∃ l ∈ ls, isRecordOf name l = true) :
    recordPlace name ls = none ∧ ls.takeWhile (! isRecordOf name ·) = ls ∧
      ls.find? (isRecordOf name) = none := by
  have hall : ∀ l ∈ ls, ¬ isRecordOf name l = true := fun l hl hrec => h ⟨l, hl, hrec⟩
  clear h
  refine ⟨?_, ?_, List.find?_eq_none.mpr hall⟩
  · induction ls with
    | nil => rfl
    | cons line ls ih =>
      rw [recordPlace, if_neg (hall line List.mem_cons_self),
        ih fun l hl => hall l (List.mem_cons_of_mem line hl)]
      rfl
  · rw [List.takeWhile_eq_self_iff]
    intro l hl
    simpa using hall l hl

/-! ## Where the answer was read -/

/-- Where the string in `file_ip` was read. -/
inductive Source where
  /-- Left by an earlier request. -/
  | old
  /-- The string at this place of the file. -/
  | word (k : Nat)
deriving DecidableEq, Repr

/-- Where the string that is copied into the reply was read, `none` where none is. `k` strings have
    been read and `source` is that of `file_ip`. -/
def scanSource (name : Bytes) (source : Source) (k : Nat) : List Bytes → Option Source
  | [] => none
  | [file_domain] => if file_domain = name then some source else none
  | file_domain :: _ :: ws =>
    if file_domain = name then some (.word (k + 1)) else scanSource name (.word (k + 1)) (k + 2) ws

def Source.text (file_ip : Bytes) (ws : List Bytes) : Source → Bytes
  | .old => file_ip
  | .word k => ws.getD k []

theorem scanWords_source (name old file_ip : Bytes) (source : Source) (before ws : List Bytes)
    (h : source.text old (before ++ ws) = file_ip) :
    (scanWords name file_ip ws).1 =
      (scanSource name source before.length ws).map (Source.text old (before ++ ws)) := by
  fun_induction scanWords name file_ip ws generalizing source before with
  | case1 file_ip => rfl
  | case2 file_ip file_domain =>
    rw [scanSource]
    split
    · rw [Option.map_some, h]
    · rfl
  | case3 file_ip ip ws =>
    rw [scanSource, if_pos rfl, Option.map_some, Source.text, List.getD_eq_getElem?_getD,
      List.getElem?_append_right (by omega), Nat.add_sub_cancel_left]
    rfl
  | case4 file_ip file_domain ip ws hne ih =>
    have happ : before ++ file_domain :: ip :: ws = (before ++ [file_domain, ip]) ++ ws := by
      rw [List.append_assoc]
      rfl
    have hip : (Source.word (before.length + 1)).text old ((before ++ [file_domain, ip]) ++ ws) =
        ip := by
      rw [← happ, Source.text, List.getD_eq_getElem?_getD,
        List.getElem?_append_right (by omega), Nat.add_sub_cancel_left]
      rfl
    rw [scanSource, if_neg hne, ih _ (before ++ [file_domain, ip]) hip, happ, List.length_append]
    rfl

/-- The loop answers with the string of its source. -/
theorem scanLoop_source (name file_ip content : Bytes) :
    (scanLoop name file_ip content).1 =
      (scanSource name .old 0 (words content)).map (Source.text file_ip (words content)) := by
  rw [scanLoop_eq]
  exact scanWords_source name file_ip file_ip .old [] (words content) rfl

/-- The name is at an even place. -/
def Paired (name : Bytes) (ws : List Bytes) : Prop := ∃ j, ws[2 * j]? = some name

theorem not_paired_cons {name d ip : Bytes} {ws : List Bytes} :
    ¬ Paired name (d :: ip :: ws) ↔ d ≠ name ∧ ¬ Paired name ws := by
  unfold Paired
  simp only [not_exists]
  constructor
  · intro h
    exact ⟨fun hd => h 0 (congrArg some hd), fun j => h (j + 1)⟩
  · rintro ⟨hd, hws⟩ j
    cases j with
    | zero => exact fun he => hd (Option.some.inj he)
    | succ j => exact hws j

theorem scanSource_eq_none {name : Bytes} {source : Source} {k : Nat} {ws : List Bytes} :
    scanSource name source k ws = none ↔ ¬ Paired name ws := by
  fun_induction scanSource name source k ws with
  | case1 source k =>
    exact iff_of_true rfl fun ⟨j, hj⟩ => by cases hj
  | case2 source k =>
    exact iff_of_false (by nofun) fun h => h ⟨0, rfl⟩
  | case3 source k d hd =>
    refine iff_of_true rfl fun ⟨j, hj⟩ => ?_
    obtain ⟨hlt, hget⟩ := List.getElem?_eq_some_iff.mp hj
    obtain rfl : j = 0 := by
      rw [List.length_singleton] at hlt
      omega
    exact hd hget
  | case4 source k ip ws =>
    exact iff_of_false (by nofun) fun h => (not_paired_cons.mp h).1 rfl
  | case5 source k d ip ws hd ih =>
    rw [ih, not_paired_cons]
    exact (and_iff_right hd).symm

/-- The loop goes past pairs of other names. -/
theorem scanSource_append {name : Bytes} {pairs : List Bytes} (heven : pairs.length % 2 = 0)
    (h : ¬ Paired name pairs) (source : Source) (k : Nat) (ip : Bytes) (rest : List Bytes) :
    scanSource name source k (pairs ++ name :: ip :: rest) =
      some (.word (k + pairs.length + 1)) := by
  induction pairs using List.twoStepInduction generalizing source k with
  | nil => rw [List.nil_append, scanSource, if_pos rfl, List.length_nil, Nat.add_zero]
  | singleton d => cases heven
  | cons_cons d ip' pairs ih _ =>
    obtain ⟨hd, hpairs⟩ := not_paired_cons.mp h
    simp only [List.length_cons] at heven ⊢
    rw [List.cons_append, List.cons_append, scanSource, if_neg hd, ih (by omega) hpairs]
    congr 2
    omega

/-- The place of an answer is odd, and the loop has gone past the names in front of it. -/
theorem scanSource_eq_word {name : Bytes} {source : Source} {k m : Nat} {ws : List Bytes}
    (hsource : source = .word m → m + 1 = k)
    (h : scanSource name source k ws = some (.word m)) :
    (m + 1) % 2 = k % 2 ∧ ∀ j, k + 2 * j + 1 < m → ws[2 * j]? ≠ some name := by
  fun_induction scanSource name source k ws with
  | case1 source k => cases h
  | case2 source k =>
    have hm := hsource (Option.some.inj h)
    exact ⟨by omega, fun j hj => by omega⟩
  | case3 source k d hd => cases h
  | case4 source k ip ws =>
    have hm := Source.word.inj (Option.some.inj h)
    exact ⟨by omega, fun j hj => by omega⟩
  | case5 source k d ip ws hd ih =>
    obtain ⟨heven, hnames⟩ := ih (fun he => by rw [← Source.word.inj he]) h
    refine ⟨by omega, fun j hj => ?_⟩
    cases j with
    | zero => exact fun he => hd (Option.some.inj he)
    | succ j => exact hnames j (by omega)

/-! ## The reply and the record's line -/

/-- The reply answers with the line's address: the string it holds is that of the first record of
    the name, and it was read there. -/
structure AnswersLine (f : TextFile) (file_ip data : Bytes) : Prop where
  reply : ipaddr (answer (some f.content) file_ip (readRequest data)).1 =
    (lineAnswer (asked (readRequest data)) f.content).getD NOT_FOUND
  place : scanSource (asked (readRequest data)) .old 0 (words f.content) =
    (recordPlace (asked (readRequest data)) (lines f.content)).map Source.word

/-- The pairs are in step with the lines up to the record of the name. -/
structure InStep (name content : Bytes) : Prop where
  /-- No pair in front of it has the name. -/
  clear : ¬ Paired name (ahead name content)
  /-- What is in front of it are pairs. -/
  even : (∃ l ∈ lines content, isRecordOf name l = true) → (ahead name content).length % 2 = 0

/-- What the reply's `ipaddr` holds. -/
theorem ipaddr_answer (content file_ip : Bytes) {dns_req : Bytes}
    (hdns : dns_req.length = sizeofDNS) {found : Option Bytes}
    (h : (scanLoop (asked dns_req) file_ip content).1 = found)
    (hfound : ∀ ip ∈ found, NoNul ip) :
    ipaddr (answer (some content) file_ip dns_req).1 = found.getD NOT_FOUND := by
  have hnf := length_strcpyIpaddr hdns (s := NOT_FOUND) (by decide)
  have hread : ∀ {dns s : Bytes}, dns.length = sizeofDNS → NoNul s →
      ipaddr (strcpyIpaddr dns s) = s := by
    intro dns s hlen hs
    unfold ipaddr
    rw [drop_strcpyIpaddr hlen, cstr_append_of_noNul hs, cstr_cons_zero, List.append_nil]
  unfold answer
  unfold asked at h
  dsimp only
  generalize scanLoop (qname (strcpyIpaddr dns_req NOT_FOUND)) file_ip content = r at h
  obtain ⟨ip, file_ip'⟩ := r
  obtain rfl : ip = found := h
  cases ip with
  | none => exact hread hdns (by decide)
  | some ip => exact hread hnf (hfound ip rfl)

/-- In step, the string is read where the line has it. -/
theorem InStep.place {name content : Bytes} (h : InStep name content) :
    scanSource name .old 0 (words content) =
      (recordPlace name (lines content)).map Source.word := by
  by_cases hrec : ∃ l ∈ lines content, isRecordOf name l = true
  · obtain ⟨ip, rest, hwords, _, hplace⟩ := exists_record hrec
    rw [words_eq_flatMap, hwords, hplace, Option.map_some]
    have hscan := scanSource_append (h.even hrec) h.clear .old 0 ip rest
    rwa [Nat.zero_add] at hscan
  · obtain ⟨hplace, htake, _⟩ := recordPlace_eq_none hrec
    have hclear := h.clear
    unfold ahead at hclear
    rw [htake, ← words_eq_flatMap] at hclear
    rw [hplace, scanSource_eq_none.mpr hclear]
    rfl

theorem inStep_of_place {name content : Bytes}
    (h : scanSource name .old 0 (words content) =
      (recordPlace name (lines content)).map Source.word) : InStep name content := by
  by_cases hrec : ∃ l ∈ lines content, isRecordOf name l = true
  · obtain ⟨ip, rest, hwords, _, hplace⟩ := exists_record hrec
    rw [hplace, Option.map_some] at h
    obtain ⟨heven, hnames⟩ := scanSource_eq_word (fun he => by cases he) h
    refine ⟨fun ⟨j, hj⟩ => ?_, fun _ => ?_⟩
    · have hlt := (List.getElem?_eq_some_iff.mp hj).1
      unfold ahead at hj hlt
      refine hnames j (by omega) ?_
      rw [words_eq_flatMap, hwords, List.getElem?_append_left hlt, hj]
    · unfold ahead
      omega
  · obtain ⟨hplace, htake, _⟩ := recordPlace_eq_none hrec
    rw [hplace] at h
    refine ⟨?_, fun hrec' => absurd hrec' hrec⟩
    unfold ahead
    rw [htake, ← words_eq_flatMap]
    exact scanSource_eq_none.mp h

/-- In step, the loop answers with the string of the line. -/
theorem InStep.scanLoop_eq {name content : Bytes} (h : InStep name content) (file_ip : Bytes) :
    (scanLoop name file_ip content).1 = lineAnswer name content := by
  rw [scanLoop_source, h.place]
  unfold lineAnswer
  by_cases hrec : ∃ l ∈ lines content, isRecordOf name l = true
  · obtain ⟨ip, rest, hwords, hfind, hplace⟩ := exists_record hrec
    rw [hplace, hfind, Option.map_some, Option.map_some, Source.text, words_eq_flatMap, hwords,
      List.getD_eq_getElem?_getD, List.getElem?_append_right (by omega), Nat.add_sub_cancel_left]
    rfl
  · obtain ⟨hplace, _, hfind⟩ := recordPlace_eq_none hrec
    rw [hplace, hfind]
    rfl

/-- **When the reply is the record's line.** For every file, every request and whatever the requests
    before have left in `file_ip`: exactly if the strings in front of the first record of the name
    pair up, and none of the pairs has the name. -/
theorem answersLine_iff (f : TextFile) (file_ip data : Bytes) :
    AnswersLine f file_ip data ↔ InStep (asked (readRequest data)) f.content := by
  constructor
  · intro h
    exact inStep_of_place h.place
  · intro h
    refine ⟨?_, h.place⟩
    apply ipaddr_answer f.content file_ip (length_readRequest data) (h.scanLoop_eq file_ip)
    intro ip hip
    obtain ⟨line, hline, hget⟩ := Option.bind_eq_some_iff.mp hip
    apply f.noNul_of_mem
    rw [words_eq_flatMap]
    exact List.mem_flatMap.mpr ⟨line, List.mem_of_find?_eq_some hline, List.mem_of_getElem? hget⟩

/-- A line of two strings, or none. -/
def TwoFields (line : Bytes) : Prop := (words line).length = 2 ∨ words line = []

theorem pairs_of_twoFields {name : Bytes} {ls : List Bytes} (h : ∀ l ∈ ls, TwoFields l)
    (hrec : ∀ l ∈ ls, isRecordOf name l = false) :
    ¬ Paired name (ls.flatMap words) ∧ (ls.flatMap words).length % 2 = 0 := by
  induction ls with
  | nil =>
    refine ⟨fun ⟨j, hj⟩ => ?_, rfl⟩
    cases hj
  | cons l ls ih =>
    obtain ⟨hpaired, heven⟩ := ih (fun l' hl' => h l' (List.mem_cons_of_mem l hl'))
      fun l' hl' => hrec l' (List.mem_cons_of_mem l hl')
    rw [List.flatMap_cons]
    rcases h l List.mem_cons_self with htwo | hnone
    · obtain ⟨d, ip, hwords⟩ := List.length_eq_two.mp htwo
      have hd : d ≠ name := by
        rintro rfl
        have hl := isRecordOf_iff.mpr ⟨ip, [], hwords⟩
        rw [hrec l List.mem_cons_self] at hl
        cases hl
      rw [hwords]
      refine ⟨not_paired_cons.mpr ⟨hd, hpaired⟩, ?_⟩
      rw [List.length_append, Nat.add_mod, heven, List.length_cons, List.length_singleton]
    · rw [hnone]
      exact ⟨hpaired, heven⟩

/-- In a file of such lines every name is in step. -/
theorem inStep_of_twoFields {content : Bytes} (h : ∀ l ∈ lines content, TwoFields l)
    (name : Bytes) : InStep name content := by
  have hsub := List.takeWhile_subset (! isRecordOf name ·) (l := lines content)
  obtain ⟨hpaired, heven⟩ := pairs_of_twoFields
    (fun l hl => h l (hsub hl)) fun l hl => by simpa using List.mem_takeWhile_imp hl
  exact ⟨hpaired, fun _ => heven⟩

/-- A file whose first line has a name only, its second a record. -/
def missingAddress : TextFile where
  -- "a.com\nb.com 1.1.1.1\n"
  content := [97, 46, 99, 111, 109, 10, 98, 46, 99, 111, 109, 32, 49, 46, 49, 46, 49, 46, 49, 10]
  noNul := by decide
  domain_fits j := fits_of_le (by decide +kernel) (by decide) (2 * j)
  ip_fits j := fits_of_le (by decide +kernel) (by decide) (2 * j + 1)

/-- A request for "b.com". -/
def secondLine : Bytes := [1, 0, 0, 0, 98, 46, 99, 111, 109, 0]

/-- The second line has the name asked for, and the reply is `NOT_FOUND`. -/
theorem missingAddress_shifted :
    lineAnswer (asked (readRequest secondLine)) missingAddress.content =
        some [49, 46, 49, 46, 49, 46, 49] ∧
      ipaddr (answer (some missingAddress.content) [] (readRequest secondLine)).1 = NOT_FOUND ∧
      ¬ AnswersLine missingAddress [] secondLine := by
  have hline : lineAnswer (asked (readRequest secondLine)) missingAddress.content =
      some [49, 46, 49, 46, 49, 46, 49] := by decide +kernel
  have hscan : (scanLoop (asked (readRequest secondLine)) [] missingAddress.content).1 = none := by
    rw [scanLoop_eq]
    decide +kernel
  have hreply : ipaddr (answer (some missingAddress.content) [] (readRequest secondLine)).1 =
      NOT_FOUND := ipaddr_answer _ [] (length_readRequest secondLine) hscan nofun
  refine ⟨hline, hreply, fun h => ?_⟩
  have hanswer := h.reply
  rw [hreply, hline] at hanswer
  exact absurd hanswer (by decide)

end NetLab.Dns
