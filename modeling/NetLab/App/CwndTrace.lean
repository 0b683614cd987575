/-
  The trace of the congestion window in as7_que2.cc (lines 188-206, 320-332) and what run.sh counts
  in it (lines 29-30).

  The window is a traced value of ns-3, which calls `CwndChange` from its assignments; each call
  prints a line with the time, the old and the new value. The script counts the lines whose third
  field is below their second, which awk compares as numbers. The traced value is a parameter,
  `TracedValue`, and assumed to call where the value changes (`TracedValue.CallsOnChange`).

  * `calls_eq`: the calls are those of the assignments that change the value, each from the one
    before.
  * `readColumns_trace`: the file gives them back, whatever the times look like.
  * `drops_trace`: the count is the number of assignments that lower the value.
-/
import NetLab.Lib.Significant
import NetLab.Lib.Delimited

namespace NetLab.App

open NetLab.Lib

/-! ## Tracing -/

structure Change where
  /-- `Simulator::Now ().GetSeconds ()`. -/
  now : ℚ
  old : UInt32
  new : UInt32
deriving DecidableEq

/-- What the trace uses of a `TracedValue<uint32_t>` with a callback connected to it. -/
structure TracedValue (σ : Type) where
  get : σ → UInt32
  /-- An assignment, and the arguments of the callback if it is called. -/
  set : σ → UInt32 → σ × Option (UInt32 × UInt32)

/-- What ns-3 documents of it: the value is the one assigned last, and the callback is called with
    the old and the new value where an assignment changes it. -/
structure TracedValue.CallsOnChange {σ : Type} (tv : TracedValue σ) : Prop where
  get_set : ∀ s v, tv.get (tv.set s v).1 = v
  call_set : ∀ s v, (tv.set s v).2 = if tv.get s = v then none else some (tv.get s, v)

/-- The calls in a run of assignments at some times. -/
def TracedValue.calls {σ : Type} (tv : TracedValue σ) : σ → List (ℚ × UInt32) → List Change
  | _, [] => []
  | s, (now, v) :: sets =>
    ((tv.set s v).2.map fun p => ⟨now, p.1, p.2⟩).toList ++ tv.calls (tv.set s v).1 sets

/-- `Now ().GetSeconds () << "\t" << oldCwnd << "\t" << newCwnd`, also that of `Ssthresh`. -/
def CwndChange (c : Change) : List Char :=
  general 6 c.now ++ '\t' :: (Nat.toDigits 10 c.old.toNat ++ '\t' ::
    Nat.toDigits 10 c.new.toNat)

/-- `seventh.cwnd` after a run of assignments; the value is in `s` when the trace is connected. -/
def trace {σ : Type} (tv : TracedValue σ) (s : σ) (sets : List (ℚ × UInt32)) : List Char :=
  unlines ((tv.calls s sets).map CwndChange)

/-! ## Reading -/

/-- The fields of a record, as awk splits it. -/
def awkFields (record : List Char) : List (List Char) :=
  (record.splitOnP fun c => c = ' ' ∨ c = '\t').filter (· ≠ [])

/-- `$i`, empty where there is no such field. -/
def awkField (record : List Char) (i : Nat) : List Char := (awkFields record)[i - 1]?.getD []

/-- `a < b`: of numerals as numbers, else as strings. -/
def awkLess (a b : List Char) : Bool :=
  match readNat a, readNat b with
  | some x, some y => x < y
  | _, _ => a < b

/-- `awk '$3 < $2 {c++} END {print c+0}'`. -/
def drops (text : List Char) : Nat :=
  (text.splitOn '\n').countP fun record => awkLess (awkField record 3) (awkField record 2)

/-- The second and third column. -/
def readColumns (text : List Char) : Option (List (Nat × Nat)) :=
  ((text.splitOn '\n').filter (· ≠ [])).mapM fun record =>
    (readNat (awkField record 2)).bind fun old =>
      (readNat (awkField record 3)).map fun new => (old, new)

/-! ## Changes -/

/-- Each value with the one assigned to it. -/
def assignments (cwnd : UInt32) (sets : List (ℚ × UInt32)) : List (UInt32 × UInt32) :=
  (cwnd :: sets.map Prod.snd).zip (sets.map Prod.snd)

variable {σ : Type} {tv : TracedValue σ}

/-- **The calls** are those of the assignments of another value. -/
theorem calls_eq (htv : tv.CallsOnChange) (s : σ) (sets : List (ℚ × UInt32)) :
    (tv.calls s sets).map (fun c => (c.old, c.new)) =
      (assignments (tv.get s) sets).filter fun p => p.1 ≠ p.2 := by
  induction sets generalizing s with
  | nil => rfl
  | cons x sets ih =>
    obtain ⟨now, v⟩ := x
    have hassign : assignments (tv.get s) ((now, v) :: sets) =
        (tv.get s, v) :: assignments v sets := rfl
    rw [TracedValue.calls, List.map_append, ih, htv.get_set, htv.call_set, hassign]
    by_cases h : tv.get s = v
    · rw [if_pos h, List.filter_cons_of_neg (by simpa using h)]
      rfl
    · rw [if_neg h, List.filter_cons_of_pos (by simpa using h)]
      rfl

/-! ## The file -/

/-- No field of a line has white space. -/
theorem not_mem_general {c : Char} (h : c = ' ' ∨ c = '\t' ∨ c = '\n') (p : Nat) (q : ℚ) :
    c ∉ general p q := by
  intro hmem
  have hchar := mem_general hmem
  rcases h with rfl | rfl | rfl <;> revert hchar <;> decide

theorem not_mem_digits {c : Char} (h : c = ' ' ∨ c = '\t' ∨ c = '\n') (n : Nat) :
    c ∉ Nat.toDigits 10 n := by
  apply not_mem_toDigits
  rcases h with rfl | rfl | rfl <;> decide

theorem not_mem_CwndChange (c : Change) : '\n' ∉ CwndChange c := by
  unfold CwndChange
  simp only [List.mem_append, List.mem_cons, not_or]
  exact ⟨not_mem_general (.inr (.inr rfl)) _ _, by decide, not_mem_digits (.inr (.inr rfl)) _,
    by decide, not_mem_digits (.inr (.inr rfl)) _⟩

theorem awkFields_CwndChange (c : Change) :
    awkFields (CwndChange c) =
      [general 6 c.now, Nat.toDigits 10 c.old.toNat, Nat.toDigits 10 c.new.toNat] := by
  have hno : ∀ {w : List Char}, ' ' ∉ w → '\t' ∉ w →
      ∀ d ∈ w, decide (d = ' ' ∨ d = '\t') = false := by
    intro w hblank htab d hd
    rw [decide_eq_false_iff_not]
    rintro (rfl | rfl)
    · exact hblank hd
    · exact htab hd
  have hdigits := fun n => hno (not_mem_digits (.inl rfl) n) (not_mem_digits (.inr (.inl rfl)) n)
  have htime := hno (not_mem_general (.inl rfl) 6 c.now) (not_mem_general (.inr (.inl rfl)) 6 c.now)
  unfold awkFields CwndChange
  rw [List.splitOnP_append_cons_of_forall_mem htime '\t' (by decide),
    List.splitOnP_append_cons_of_forall_mem (hdigits _) '\t' (by decide),
    List.splitOnP_eq_singleton (hdigits _)]
  simp [general_ne_nil]

/-- What awk sees in a line. -/
theorem awkField_CwndChange (c : Change) :
    awkField (CwndChange c) 2 = Nat.toDigits 10 c.old.toNat ∧
      awkField (CwndChange c) 3 = Nat.toDigits 10 c.new.toNat := by
  unfold awkField
  rw [awkFields_CwndChange]
  exact ⟨rfl, rfl⟩

theorem splitOn_trace (changes : List Change) :
    (unlines (changes.map CwndChange)).splitOn '\n' = changes.map CwndChange ++ [[]] := by
  refine splitOn_unlines fun l hl => ?_
  obtain ⟨c, _, rfl⟩ := List.mem_map.mp hl
  exact not_mem_CwndChange c

theorem CwndChange_ne_nil (c : Change) : CwndChange c ≠ [] :=
  fun h => general_ne_nil 6 c.now (List.append_eq_nil_iff.mp h).1

/-- **The file gives the changes back.** -/
theorem readColumns_trace (htv : tv.CallsOnChange) (s : σ) (sets : List (ℚ × UInt32)) :
    readColumns (trace tv s sets) =
      some (((assignments (tv.get s) sets).filter fun p => p.1 ≠ p.2).map
        fun p => (p.1.toNat, p.2.toNat)) := by
  have hrecords : ∀ changes : List Change,
      (changes.map CwndChange ++ [[]]).filter (· ≠ []) = changes.map CwndChange := by
    intro changes
    rw [List.filter_append, List.filter_eq_self.mpr]
    · exact List.append_nil _
    · intro l hl
      obtain ⟨c, _, rfl⟩ := List.mem_map.mp hl
      exact decide_eq_true (CwndChange_ne_nil c)
  unfold readColumns trace
  rw [splitOn_trace, hrecords, mapM_map_eq_some (h := fun c => (c.old.toNat, c.new.toNat)),
    ← calls_eq htv, List.map_map]
  · rfl
  · intro c _
    rw [(awkField_CwndChange c).1, (awkField_CwndChange c).2, readNat_toDigits, readNat_toDigits]
    rfl

/-- **The count of run.sh** is the number of assignments that lower the window, for every run of
    them at any times. -/
theorem drops_trace (tv : TracedValue σ) (htv : tv.CallsOnChange) (s : σ)
    (sets : List (ℚ × UInt32)) :
    drops (trace tv s sets) = (assignments (tv.get s) sets).countP fun p => p.2 < p.1 := by
  have hless : ∀ c : Change, awkLess (awkField (CwndChange c) 3) (awkField (CwndChange c) 2) =
      decide (c.new < c.old) := by
    intro c
    unfold awkLess
    rw [(awkField_CwndChange c).1, (awkField_CwndChange c).2, readNat_toDigits, readNat_toDigits]
    exact decide_eq_decide.mpr UInt32.lt_iff_toNat_lt.symm
  unfold drops trace
  rw [splitOn_trace, List.countP_append, List.countP_map]
  calc (tv.calls s sets).countP (_ ∘ CwndChange) + [[]].countP _
      = (tv.calls s sets).countP fun c => decide (c.new < c.old) := by
        rw [List.countP_congr (q := fun c => decide (c.new < c.old)) fun c _ => by
          rw [Function.comp_apply, hless c]]
        rfl
    _ = ((assignments (tv.get s) sets).filter fun p => p.1 ≠ p.2).countP fun p => p.2 < p.1 := by
        rw [← calls_eq htv, List.countP_map]
        rfl
    _ = (assignments (tv.get s) sets).countP fun p => p.2 < p.1 := by
        rw [List.countP_filter]
        apply List.countP_congr
        intro p _
        simp only [Bool.and_eq_true, decide_eq_true_eq, ne_eq, and_iff_left_iff_imp]
        intro hlt heq
        rw [heq] at hlt
        exact UInt32.lt_irrefl _ hlt

/-- The value itself, compared with what is assigned. -/
def plainValue : TracedValue UInt32 where
  get := id
  set s v := (v, if s = v then none else some (s, v))

/-- Two segments more, the same again, and a loss. -/
def twoThenLoss : List (ℚ × UInt32) :=
  [(1, 1072), (101 / 100, 1608), (51 / 50, 1608), (103 / 100, 536)]

theorem drops_trace_twoThenLoss :
    drops (trace plainValue (536 : UInt32) twoThenLoss) =
      (assignments 536 twoThenLoss).countP fun p => p.2 < p.1 :=
  drops_trace plainValue ⟨fun _ _ => rfl, fun _ _ => rfl⟩ 536 twoThenLoss

end NetLab.App
