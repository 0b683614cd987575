/-
  The report of q2client.c as text (lines 119-127), and how q2plot.py reads it (lines 9-35).

  The client prints a table of comma-separated values: a line of names, then a line for each second
  of the duration. The script reads the table with `pandas.read_csv` and plots two of its columns
  over the first by their names. What it uses of pandas is a parameter here, `Pandas`, and assumed
  to read tables of numbers as documented (`Pandas.ReadsTables`). A `double` is the number it stands
  for, as in the client.

  * `columns_csv`: what the script gets is what the client printed, each value rounded to its last
    place.
  * `plotted`: so in every run that comes to its end the script plots the seconds from 1 on against
    the throughputs and the average round-trip times of the table, to within half a thousandth.
-/
import NetLab.Lib.Decimal
import NetLab.Lib.Delimited
import NetLab.Throughput.Shutdown

namespace NetLab.Throughput

open NetLab.Lib

/-! ## Printing -/

/-- The names of the columns. -/
def csvHeader : List (List Char) :=
  ["Second".toList, "Throughput(Mbps)".toList, "AvgRTT(ms)".toList]

/-- `"%d,%.3f,%.3f"`. -/
def csvFields (r : Nat × Line) : List (List Char) :=
  [Nat.toDigits 10 r.1, fixed 3 r.2.mbps, fixed 3 r.2.avgsrtt]

/-- The text of a table. -/
def tableText (names : List (List Char)) (rows : List (List (List Char))) : List Char :=
  unlines ((names :: rows).map (joinOn ','))

/-- The text of the report. -/
def csv (out : List (Nat × Line)) : List Char := tableText csvHeader (out.map csvFields)

/-! ## Reading -/

/-- What the script uses of pandas, whose tables are of some type `F`. -/
structure Pandas (F : Type) where
  /-- `read_csv`, of a file with this text. -/
  readCsv : List Char → Option F
  /-- The values of `df[name]`. -/
  column : F → List Char → Option (List ℚ)

/-- A name that needs no quotes. -/
def PlainName (name : List Char) : Prop :=
  name ≠ [] ∧ ',' ∉ name ∧ '\n' ∉ name ∧ '\r' ∉ name ∧ '"' ∉ name

instance : DecidablePred PlainName := fun _ => inferInstanceAs (Decidable (_ ∧ _))

/-- A decimal numeral. One without a point is an `int64`. -/
def Numeral (field : List Char) : Prop :=
  (readDecimal field).isSome ∧ ('.' ∈ field ∨ ∃ n < 2 ^ 63, readNat field = some n)

/-- What pandas documents of `read_csv` with its defaults: the first line has the names of the
    columns, each line after it is a row, and a column of numerals is that of their values. -/
def Pandas.ReadsTables {F : Type} (pd : Pandas F) : Prop :=
  ∀ (names : List (List Char)) (rows : List (List (List Char))), names ≠ [] → names.Nodup →
    (∀ name ∈ names, PlainName name) →
    (∀ row ∈ rows, row.length = names.length ∧ ∀ field ∈ row, Numeral field) →
    ∃ df, pd.readCsv (tableText names rows) = some df ∧
      ∀ (j : Nat) name, names[j]? = some name →
        pd.column df name = rows.mapM fun row => row[j]?.bind readDecimal

/-! ## The columns -/

/-- The fields are numerals, the first that of a second. -/
theorem numeral_csvFields {r : Nat × Line} (hr : r.1 < 2 ^ 63) :
    ∀ field ∈ csvFields r, Numeral field := by
  have hfixed : ∀ q, Numeral (fixed 3 q) := by
    intro q
    refine ⟨by rw [readDecimal_fixed (by decide)]; rfl, .inl ?_⟩
    unfold fixed
    exact List.mem_append_right _ (List.mem_append_right _ List.mem_cons_self)
  intro field hfield
  simp only [csvFields, List.mem_cons, List.not_mem_nil, or_false] at hfield
  rcases hfield with rfl | rfl | rfl
  · exact ⟨by rw [readDecimal_toDigits]; rfl, .inr ⟨r.1, hr, readNat_toDigits r.1⟩⟩
  · exact hfixed _
  · exact hfixed _

variable {F : Type} {pd : Pandas F}

/-- The columns the script plots. -/
theorem columns_csv (hpd : pd.ReadsTables) {out : List (Nat × Line)}
    (hout : ∀ r ∈ out, r.1 < 2 ^ 63) :
    ∃ df, pd.readCsv (csv out) = some df ∧
      pd.column df "Second".toList = some (out.map fun r => (r.1 : ℚ)) ∧
      pd.column df "Throughput(Mbps)".toList = some (out.map fun r => rounded 3 r.2.mbps) ∧
      pd.column df "AvgRTT(ms)".toList = some (out.map fun r => rounded 3 r.2.avgsrtt) := by
  obtain ⟨df, hread, hcolumn⟩ := hpd csvHeader (out.map csvFields) (by decide) (by decide)
    (by decide) fun row hrow => by
      obtain ⟨r, hr, rfl⟩ := List.mem_map.mp hrow
      exact ⟨rfl, numeral_csvFields (hout r hr)⟩
  refine ⟨df, hread, ?_, ?_, ?_⟩
  · rw [hcolumn 0 _ rfl]
    exact mapM_map_eq_some fun r _ => readDecimal_toDigits r.1
  · rw [hcolumn 1 _ rfl]
    exact mapM_map_eq_some fun r _ => readDecimal_fixed (by decide) r.2.mbps
  · rw [hcolumn 2 _ rfl]
    exact mapM_map_eq_some fun r _ => readDecimal_fixed (by decide) r.2.avgsrtt

/-! ## Runs -/

/-- **The plots show the table.** Whatever the run, once the report is printed the script reads as
    many rows as the duration has seconds, numbered from 1; the values it plots are those of the
    client's table to within half of the last place printed. -/
theorem plotted (pd : Pandas F) (hpd : pd.ReadsTables) (a : Args) (acts : List Act) (s : Sys)
    (hrun : (system a).run (Sys.init a) acts = some s) (hdone : s.main = .done) :
    ∃ df mbps avgsrtt, pd.readCsv (csv s.out) = some df ∧
      pd.column df "Second".toList =
        some ((List.range (capped a.duration).toInt.toNat).map fun i => ((i + 1 : Nat) : ℚ)) ∧
      pd.column df "Throughput(Mbps)".toList = some mbps ∧
      pd.column df "AvgRTT(ms)".toList = some avgsrtt ∧
      mbps.length = (capped a.duration).toInt.toNat ∧
      avgsrtt.length = (capped a.duration).toInt.toNat ∧
      ∀ i < (capped a.duration).toInt.toNat, ∃ row x y, s.stats[i]? = some row ∧
        mbps[i]? = some x ∧ avgsrtt[i]? = some y ∧
        |x - row.line.mbps| ≤ 1 / 2000 ∧ |y - row.line.avgsrtt| ≤ 1 / 2000 := by
  have h := (system a).run_inv (fun _ _ _ hI hst => printed_step hI hst) (printed_init a) hrun
  have hout := (h.done hdone).2
  have hcap := capped_le a.duration
  have hmax : MAXI = 3600 := rfl
  have hseconds : ∀ r ∈ s.out, r.1 < 2 ^ 63 := by
    intro r hr
    rw [hout] at hr
    unfold report at hr
    obtain ⟨i, hi, rfl⟩ := List.mem_map.mp hr
    have hlt := List.mem_range.mp hi
    dsimp only
    omega
  obtain ⟨df, hread, hsecond, hmbps, havg⟩ := columns_csv hpd hseconds
  have hplaces : (1 : ℚ) / 2 / 10 ^ 3 = 1 / 2000 := by norm_num
  refine ⟨df, _, _, hread, ?_, hmbps, havg, ?_, ?_, fun i hi => ?_⟩
  · rw [hsecond, hout]
    unfold report
    rw [List.map_map]
    rfl
  · rw [List.length_map, hout, length_report]
  · rw [List.length_map, hout, length_report]
  · have hlt : i < s.stats.length := by rw [h.length]; omega
    have hrow : (report (capped a.duration) s.stats)[i]? = some (i + 1, s.stats[i].line) :=
      getElem?_report (by omega) (List.getElem?_eq_getElem hlt)
    refine ⟨s.stats[i], rounded 3 s.stats[i].line.mbps, rounded 3 s.stats[i].line.avgsrtt,
      List.getElem?_eq_getElem hlt, ?_, ?_, ?_, ?_⟩
    · rw [List.getElem?_map, hout, hrow]
      rfl
    · rw [List.getElem?_map, hout, hrow]
      rfl
    · exact hplaces ▸ abs_rounded_sub_le 3 _
    · exact hplaces ▸ abs_rounded_sub_le 3 _

/-! ## A reader of plain tables -/

/-- A table of numbers with named columns. -/
structure DataFrame where
  columns : List (List Char)
  rows : List (List ℚ)
deriving DecidableEq

/-- A line of numbers. -/
def readRow (line : List Char) : Option (List ℚ) := (line.splitOn ',').mapM readDecimal

/-- The names are in the first line, and each line after it that is not empty is a row. -/
def readTable (text : List Char) : Option DataFrame :=
  match text.splitOn '\n' with
  | [] => none
  | names :: lines =>
    ((lines.filter (· ≠ [])).mapM readRow).map fun rows => ⟨names.splitOn ',', rows⟩

/-- A reader that knows numbers only. -/
def plainPandas : Pandas DataFrame where
  readCsv := readTable
  column df name :=
    if name ∈ df.columns then df.rows.mapM fun row => row[df.columns.idxOf name]? else none

/-- What a numeral is made of. -/
theorem mem_of_readUnsigned {s : List Char} (h : (readUnsigned s).isSome) {c : Char} (hc : c ∈ s) :
    c.isDigit = true ∨ c = '.' := by
  have hnat : ∀ w : List Char, (readNat w).isSome → ∀ d ∈ w, d.isDigit = true := by
    intro w hw d hd
    unfold readNat at hw
    split at hw
    · rename_i hdigits
      exact List.all_eq_true.mp hdigits.2 d hd
    · cases hw
  have hpieces : ∀ piece ∈ s.splitOn '.', (readNat piece).isSome := by
    unfold readUnsigned at h
    generalize s.splitOn '.' = pieces at h
    intro piece hpiece
    split at h
    · rw [Option.isSome_map] at h
      exact List.mem_singleton.mp hpiece ▸ h
    · obtain ⟨q, hq⟩ := Option.isSome_iff_exists.mp h
      obtain ⟨n, hn, hf⟩ := Option.bind_eq_some_iff.mp hq
      obtain ⟨f, hf, _⟩ := Option.map_eq_some_iff.mp hf
      rcases List.mem_pair.mp hpiece with rfl | rfl
      · rw [hn]
        rfl
      · rw [hf]
        rfl
    · cases h
  have hjoin : joinOn '.' (s.splitOn '.') = s := List.intercalate_splitOn '.'
  rw [← hjoin] at hc
  rcases mem_joinOn hc with rfl | ⟨piece, hpiece, hc⟩
  · exact .inr rfl
  · exact .inl (hnat piece (hpieces piece hpiece) c hc)

theorem Numeral.mem {field : List Char} (h : Numeral field) {c : Char} (hc : c ∈ field) :
    c.isDigit = true ∨ c = '-' ∨ c = '.' := by
  have hread := h.1
  unfold readDecimal at hread
  split at hread
  · rename_i hhead
    obtain ⟨t, rfl⟩ := List.head?_eq_some_iff.mp hhead
    rw [Option.isSome_map, List.tail_cons] at hread
    rcases List.mem_cons.mp hc with rfl | hc
    · exact .inr (.inl rfl)
    · exact (mem_of_readUnsigned hread hc).imp_right .inr
  · exact (mem_of_readUnsigned hread hc).imp_right .inr

theorem Numeral.not_mem {field : List Char} (h : Numeral field) {c : Char}
    (hdigit : c.isDigit = false) (hminus : c ≠ '-') (hdot : c ≠ '.') : c ∉ field := by
  intro hc
  rcases h.mem hc with hd | hd | hd
  · exact Bool.false_ne_true (hdigit ▸ hd)
  · exact hminus hd
  · exact hdot hd

/-- The value of a numeral. -/
def value (field : List Char) : ℚ := (readDecimal field).getD 0

theorem readDecimal_eq_value {field : List Char} (h : Numeral field) :
    readDecimal field = some (value field) := by
  obtain ⟨q, hq⟩ := Option.isSome_iff_exists.mp h.1
  unfold value
  rw [hq, Option.getD_some]

theorem readRow_joinOn {row : List (List Char)} (hne : row ≠ [])
    (h : ∀ field ∈ row, Numeral field) : readRow (joinOn ',' row) = some (row.map value) := by
  have hmap := mapM_map_eq_some (f := readDecimal) (g := id) (h := value) (l := row)
    fun field hfield => readDecimal_eq_value (h field hfield)
  unfold readRow
  rw [splitOn_joinOn hne fun field hfield =>
    (h field hfield).not_mem (by decide) (by decide) (by decide)]
  rwa [List.map_id] at hmap

/-- No line is empty or has a line feed of its own. -/
theorem joinOn_row {row : List (List Char)} (hne : row ≠ []) (h : ∀ field ∈ row, Numeral field) :
    joinOn ',' row ≠ [] ∧ '\n' ∉ joinOn ',' row := by
  constructor
  · intro hnil
    have hread := readRow_joinOn hne h
    rw [hnil] at hread
    cases hread
  · intro hmem
    rcases mem_joinOn hmem with hc | ⟨field, hfield, hc⟩
    · exact absurd hc (by decide)
    · exact (h field hfield).not_mem (by decide) (by decide) (by decide) hc

/-- **A plain table is read as it was written.** -/
theorem readTable_tableText {names : List (List Char)} {rows : List (List (List Char))}
    (hne : names ≠ []) (hnames : ∀ name ∈ names, PlainName name)
    (hrows : ∀ row ∈ rows, row ≠ [] ∧ ∀ field ∈ row, Numeral field) :
    readTable (tableText names rows) = some ⟨names, rows.map (·.map value)⟩ := by
  have hheader : '\n' ∉ joinOn ',' names := by
    intro hmem
    rcases mem_joinOn hmem with hc | ⟨name, hname, hc⟩
    · exact absurd hc (by decide)
    · exact (hnames name hname).2.2.1 hc
  have hlines : ∀ l ∈ (names :: rows).map (joinOn ','), '\n' ∉ l := by
    intro l hl
    obtain ⟨row, hrow, rfl⟩ := List.mem_map.mp hl
    rcases List.mem_cons.mp hrow with rfl | hrow
    · exact hheader
    · exact (joinOn_row (hrows row hrow).1 (hrows row hrow).2).2
  have hfilter : ((rows.map (joinOn ',')) ++ [[]]).filter (· ≠ []) = rows.map (joinOn ',') := by
    rw [List.filter_append, List.filter_eq_self.mpr]
    · exact List.append_nil _
    · intro l hl
      obtain ⟨row, hrow, rfl⟩ := List.mem_map.mp hl
      exact decide_eq_true (joinOn_row (hrows row hrow).1 (hrows row hrow).2).1
  unfold readTable tableText
  rw [splitOn_unlines hlines, List.map_cons, List.cons_append]
  dsimp only
  rw [hfilter, splitOn_joinOn hne fun name hname => (hnames name hname).2.1,
    mapM_map_eq_some fun row hrow => readRow_joinOn (hrows row hrow).1 (hrows row hrow).2]
  rfl

theorem plainPandas_readsTables : plainPandas.ReadsTables := by
  intro names rows hne hnodup hnames hrows
  have hrow : ∀ row ∈ rows, row ≠ [] := fun row hrow h => by
    have hlen := (hrows row hrow).1
    rw [h, List.length_nil] at hlen
    exact hne (List.length_eq_zero_iff.mp hlen.symm)
  refine ⟨_, readTable_tableText hne hnames fun row hmem => ⟨hrow row hmem, (hrows row hmem).2⟩,
    fun j name hj => ?_⟩
  obtain ⟨hlt, rfl⟩ := List.getElem?_eq_some_iff.mp hj
  have hvalue : ∀ row ∈ rows, row[j]?.bind readDecimal = some (value (row.getD j [])) := by
    intro row hmem
    have hjrow : j < row.length := (hrows row hmem).1 ▸ hlt
    rw [List.getD_eq_getElem?_getD, List.getElem?_eq_getElem hjrow, Option.bind_some,
      Option.getD_some]
    exact readDecimal_eq_value ((hrows row hmem).2 _ (List.getElem_mem hjrow))
  have hright := mapM_map_eq_some (f := fun row => row[j]?.bind readDecimal) (g := id) hvalue
  rw [List.map_id] at hright
  unfold plainPandas
  dsimp only
  rw [if_pos (List.getElem_mem hlt), hnodup.idxOf_getElem j hlt, hright]
  refine mapM_map_eq_some fun row hmem => ?_
  have hjrow : j < row.length := (hrows row hmem).1 ▸ hlt
  rw [List.getElem?_map, List.getElem?_eq_getElem hjrow, List.getD_eq_getElem?_getD,
    List.getElem?_eq_getElem hjrow]
  rfl

/-- A test of two seconds in which one echo is received, a third of a second after it was sent. -/
def twoSeconds : Args := ⟨2, 64, ⟨10, 0⟩⟩

def oneEcho : List Act :=
  [.enter, .clock ⟨10, 5⟩, .send ⟨10, 10⟩, .serve 0, .deliver 0, .recv ⟨11, 333⟩, .clock ⟨12, 0⟩,
    .stop, .leave, .join]

theorem oneEcho_plotted :
    ∃ s, (system twoSeconds).run (Sys.init twoSeconds) oneEcho = some s ∧ s.main = .done ∧
      ∃ df mbps avgsrtt, plainPandas.readCsv (csv s.out) = some df ∧
        plainPandas.column df "Second".toList =
          some ((List.range (capped 2).toInt.toNat).map fun i => ((i + 1 : Nat) : ℚ)) ∧
        plainPandas.column df "Throughput(Mbps)".toList = some mbps ∧
        plainPandas.column df "AvgRTT(ms)".toList = some avgsrtt ∧
        mbps.length = (capped 2).toInt.toNat ∧ avgsrtt.length = (capped 2).toInt.toNat ∧
        ∀ i < (capped 2).toInt.toNat, ∃ row x y, s.stats[i]? = some row ∧
          mbps[i]? = some x ∧ avgsrtt[i]? = some y ∧
          |x - row.line.mbps| ≤ 1 / 2000 ∧ |y - row.line.avgsrtt| ≤ 1 / 2000 := by
  have hend : ((system twoSeconds).run (Sys.init twoSeconds) oneEcho).map Sys.main =
      some .done := by decide +kernel
  obtain ⟨s, hs, hdone⟩ := Option.map_eq_some_iff.mp hend
  exact ⟨s, hs, hdone,
    plotted plainPandas plainPandas_readsTables twoSeconds oneEcho s hs hdone⟩

end NetLab.Throughput
