/-
  The record lookup of Server.c (lines 78-98).

  `fscanf (file, "%s %s", file_domain, file_ip)` reads two strings, wherever the lines end, and the
  loop goes on until it returns `EOF`. At the end of the file it may read one string only; it then
  returns 1, which is not `EOF`, and `file_ip` is the one of the record before.

  * `scanLoop` is that loop over the bytes of the file, `words` the strings of the file in order.
  * `scanLoop_eq`: the loop reads the words two at a time.
  * `TextFile`: any file whose strings fit the buffers; `scanWords_file_ip`: what the loop makes of
    the `file_ip` it finds.
  * `RecordFile`: a file of records that fit the buffers; `RecordFile.scanLoop_eq`: the loop answers
    the second string of the first record whose first is the name asked for.
-/
import NetLab.Lib.Bytes

namespace NetLab.Dns

open NetLab.Lib

/-! ## Reading strings -/

/-- The white space of the C locale. -/
def isspace (b : UInt8) : Bool := b == 32 || (9 ≤ b && b ≤ 13)

/-- `%s`: skips white space and reads up to the next, `none` at the end of the input. -/
def scanString (input : Bytes) : Option (Bytes × Bytes) :=
  match input.dropWhile isspace with
  | [] => none
  | b :: bs => some ((b :: bs).takeWhile (! isspace ·), (b :: bs).dropWhile (! isspace ·))

/-- `dropWhile` stops at an element that fails the test. -/
theorem eq_false_of_dropWhile {p : UInt8 → Bool} {input bs : Bytes} {b : UInt8}
    (h : input.dropWhile p = b :: bs) : p b = false := by
  have hnot := List.head?_dropWhile_not p input
  rwa [h] at hnot

theorem length_of_scanString {input w rest : Bytes} (h : scanString input = some (w, rest)) :
    rest.length < input.length := by
  unfold scanString at h
  split at h
  · cases h
  · rename_i b bs hin
    obtain ⟨_, rfl⟩ := Prod.mk.inj (Option.some.inj h)
    have hb := eq_false_of_dropWhile hin
    have hle : (b :: bs).length ≤ input.length := by
      rw [← hin]
      exact (List.dropWhile_suffix isspace).length_le
    have hlt : ((b :: bs).dropWhile (! isspace ·)).length ≤ bs.length := by
      rw [List.dropWhile_cons_of_pos (by rw [hb]; rfl)]
      exact (List.dropWhile_suffix _).length_le
    rw [List.length_cons] at hle
    omega

/-- The loop: the answer, and `file_ip` after it. -/
def scanLoop (qname file_ip input : Bytes) : Option Bytes × Bytes :=
  match _h : scanString input with
  | none => (none, file_ip)
  | some (file_domain, rest) =>
    match _h' : scanString rest with
    | none => (if file_domain = qname then some file_ip else none, file_ip)
    | some (ip, rest') =>
      if file_domain = qname then (some ip, ip) else scanLoop qname ip rest'
termination_by input.length
decreasing_by
  have h1 := length_of_scanString _h
  have h2 := length_of_scanString _h'
  omega

/-! ## The words of a file -/

/-- The strings of a file. -/
def words (input : Bytes) : List Bytes := (input.splitOnP isspace).filter (· ≠ [])

/-- The loop over the words. -/
def scanWords (qname file_ip : Bytes) : List Bytes → Option Bytes × Bytes
  | [] => (none, file_ip)
  | [file_domain] => (if file_domain = qname then some file_ip else none, file_ip)
  | file_domain :: ip :: ws =>
    if file_domain = qname then (some ip, ip) else scanWords qname ip ws

theorem words_nil : words [] = [] := rfl

theorem words_cons_space {b : UInt8} (hb : isspace b = true) (bs : Bytes) :
    words (b :: bs) = words bs := by
  unfold words
  rw [List.splitOnP_cons_eq_if_modifyHead, if_pos hb, List.filter_cons_of_neg (by simp)]

theorem words_dropWhile (input : Bytes) : words (input.dropWhile isspace) = words input := by
  induction input with
  | nil => rfl
  | cons b bs ih =>
    by_cases hb : isspace b = true
    · rw [List.dropWhile_cons_of_pos hb, ih, words_cons_space hb]
    · rw [List.dropWhile_cons_of_neg hb]

/-- A word in front of white space or of the end. -/
theorem words_append {w : Bytes} (hne : w ≠ []) (hw : ∀ b ∈ w, isspace b = false) {rest : Bytes}
    (hrest : ∀ b ∈ rest.head?, isspace b = true) : words (w ++ rest) = w :: words rest := by
  cases rest with
  | nil =>
    unfold words
    rw [List.append_nil, List.splitOnP_eq_singleton hw, List.filter_cons_of_pos (by simpa)]
    rfl
  | cons b bs =>
    have hb : isspace b = true := hrest b rfl
    rw [words_cons_space hb]
    unfold words
    rw [List.splitOnP_append_cons_of_forall_mem hw b hb, List.filter_cons_of_pos (by simpa)]

/-- `%s` reads the first word. -/
theorem scanString_eq_none {input : Bytes} (h : scanString input = none) : words input = [] := by
  unfold scanString at h
  split at h
  · rename_i hin
    rw [← words_dropWhile, hin, words_nil]
  · cases h

theorem scanString_eq_some {input w rest : Bytes} (h : scanString input = some (w, rest)) :
    words input = w :: words rest := by
  unfold scanString at h
  split at h
  · cases h
  · rename_i b bs hin
    obtain ⟨rfl, rfl⟩ := Prod.mk.inj (Option.some.inj h)
    have hb := eq_false_of_dropWhile hin
    rw [← words_dropWhile, hin]
    conv_lhs => rw [← List.takeWhile_append_dropWhile (p := (! isspace ·)) (l := b :: bs)]
    refine words_append ?_ (fun c hc => ?_) fun c hc => ?_
    · rw [List.takeWhile_cons_of_pos (by rw [hb]; rfl)]
      exact List.cons_ne_nil _ _
    · simpa using List.mem_takeWhile_imp hc
    · cases hd : (b :: bs).dropWhile (! isspace ·) with
      | nil =>
        rw [hd] at hc
        cases hc
      | cons d ds =>
        rw [hd] at hc
        obtain rfl : d = c := Option.some.inj hc
        simpa using eq_false_of_dropWhile hd

/-- **The loop reads the words two at a time.** -/
theorem scanLoop_eq (qname file_ip input : Bytes) :
    scanLoop qname file_ip input = scanWords qname file_ip (words input) := by
  fun_induction scanLoop qname file_ip input with
  | case1 file_ip input hend => rw [scanString_eq_none hend, scanWords]
  | case2 file_ip input file_domain rest hdom hend =>
    rw [scanString_eq_some hdom, scanString_eq_none hend, scanWords]
  | case3 file_ip input rest ip rest' hip hdom =>
    rw [scanString_eq_some hdom, scanString_eq_some hip, scanWords, if_pos rfl]
  | case4 file_ip input file_domain rest hdom ip rest' hip hne ih =>
    rw [scanString_eq_some hdom, scanString_eq_some hip, scanWords, if_neg hne, ih]

/-! ## Files -/

theorem mem_splitOnP {p : UInt8 → Bool} {input w : Bytes} (hw : w ∈ input.splitOnP p) {b : UInt8}
    (hb : b ∈ w) : b ∈ input ∧ p b = false := by
  induction input generalizing w with
  | nil =>
    rw [List.splitOnP_nil, List.mem_singleton] at hw
    rw [hw] at hb
    cases hb
  | cons c cs ih =>
    rw [List.splitOnP_cons_eq_if_modifyHead] at hw
    obtain ⟨v, vs, hvs⟩ := List.exists_cons_of_ne_nil (List.splitOnP_ne_nil p cs)
    rw [hvs] at ih hw
    split at hw
    · rcases List.mem_cons.mp hw with rfl | hw
      · cases hb
      · exact (ih hw hb).imp_left (List.mem_cons_of_mem c)
    · rename_i hc
      rw [List.modifyHead_cons] at hw
      rcases List.mem_cons.mp hw with rfl | hw
      · rcases List.mem_cons.mp hb with rfl | hb
        · exact ⟨List.mem_cons_self, by simpa using hc⟩
        · exact (ih List.mem_cons_self hb).imp_left (List.mem_cons_of_mem c)
      · exact (ih (List.mem_cons_of_mem v hw) hb).imp_left (List.mem_cons_of_mem c)

/-- A word is a string of the file, not empty. -/
theorem mem_words {input w : Bytes} (hw : w ∈ words input) :
    w ≠ [] ∧ ∀ b ∈ w, b ∈ input ∧ isspace b = false := by
  obtain ⟨hw, hne⟩ := List.mem_filter.mp hw
  exact ⟨by simpa using hne, fun b hb => mem_splitOnP hw hb⟩

/-- A file of text whose strings fit the buffers they are read into. -/
structure TextFile where
  content : Bytes
  noNul : NoNul content
  domain_fits : ∀ j, ∀ w ∈ (words content)[2 * j]?, w.length ≤ 255
  ip_fits : ∀ j, ∀ w ∈ (words content)[2 * j + 1]?, w.length ≤ 15

/-- Strings short enough for both buffers. -/
theorem fits_of_le {content : Bytes} (h : ∀ w ∈ words content, w.length ≤ 15) {n : Nat} (hn : 15 ≤ n)
    (i : Nat) : ∀ w ∈ (words content)[i]?, w.length ≤ n :=
  fun w hw => (h w (List.mem_of_getElem? hw)).trans hn

/-- A string of the file has no terminator inside. -/
theorem TextFile.noNul_of_mem (f : TextFile) {w : Bytes} (hw : w ∈ words f.content) : NoNul w :=
  fun b hb => f.noNul b ((mem_words hw).2 b hb).1

/-- With two strings or more the loop does not look at what `file_ip` held; with fewer it does not
    write there. -/
theorem scanWords_file_ip {ws : List Bytes} {file_ip file_ip' : Bytes}
    (h : ws.length < 2 → file_ip = file_ip') (qname : Bytes) :
    (scanWords qname file_ip ws).1 = (scanWords qname file_ip' ws).1 ∧
      (ws.length < 2 → (scanWords qname file_ip ws).2 = file_ip') := by
  match ws with
  | [] => exact ⟨rfl, h⟩
  | [_] =>
    obtain rfl := h (by simp)
    exact ⟨rfl, fun _ => rfl⟩
  | _ :: _ :: _ => exact ⟨rfl, fun hlt => absurd hlt (by simp)⟩

/-! ## Files of records -/

/-- A record: a name and its address. -/
structure Record where
  domain : Bytes
  ip : Bytes
deriving DecidableEq, Repr

/-- A records table: any white space between the strings, each within the server's buffer for
    it. -/
structure RecordFile where
  content : Bytes
  records : List Record
  words_eq : words content = records.flatMap fun r => [r.domain, r.ip]
  domain_fits : ∀ r ∈ records, r.domain.length ≤ 255
  ip_fits : ∀ r ∈ records, r.ip.length ≤ 15
  noNul : NoNul content

/-- The address of the first record of that name. -/
def RecordFile.lookup (f : RecordFile) (qname : Bytes) : Option Bytes :=
  (f.records.find? (·.domain = qname)).map Record.ip

theorem scanWords_records (qname file_ip : Bytes) (rs : List Record) :
    (scanWords qname file_ip (rs.flatMap fun r => [r.domain, r.ip])).1 =
      (rs.find? (·.domain = qname)).map Record.ip := by
  induction rs generalizing file_ip with
  | nil => rfl
  | cons r rs ih =>
    rw [List.flatMap_cons, List.cons_append, List.cons_append, List.nil_append, scanWords]
    by_cases hr : r.domain = qname
    · rw [if_pos hr, List.find?_cons_of_pos (by simpa using hr)]
      rfl
    · rw [if_neg hr, List.find?_cons_of_neg (by simpa using hr), ih]

/-- **On a file of records the loop is the lookup**, whatever `file_ip` held. -/
theorem RecordFile.scanLoop_eq (f : RecordFile) (qname file_ip : Bytes) :
    (scanLoop qname file_ip f.content).1 = f.lookup qname := by
  rw [NetLab.Dns.scanLoop_eq, f.words_eq, scanWords_records]
  rfl

/-- An answer is a string of at most 15 bytes, not empty. -/
theorem RecordFile.lookup_eq_some {f : RecordFile} {qname ip : Bytes}
    (h : f.lookup qname = some ip) : ip ≠ [] ∧ NoNul ip ∧ ip.length ≤ 15 := by
  obtain ⟨r, hr, rfl⟩ := Option.map_eq_some_iff.mp h
  have hmem := List.mem_of_find?_eq_some hr
  have hword : r.ip ∈ words f.content := by
    rw [f.words_eq]
    exact List.mem_flatMap.mpr ⟨r, hmem, List.mem_cons_of_mem _ (List.mem_singleton_self _)⟩
  obtain ⟨hne, hbytes⟩ := mem_words hword
  exact ⟨hne, fun b hb => f.noNul b (hbytes b hb).1, f.ip_fits r hmem⟩

end NetLab.Dns
