/-
  Text of lines, and lines of fields or of words.

  `unlines` ends each line with a line feed; `joinOn c` puts a character between fields. Splitting
  takes both back, as long as no line has a line feed and no field the separator. Words have any
  number of blanks between them (`tokens`).
-/
import Mathlib

namespace NetLab.Lib

variable {α β γ : Type}

/-- Lines, each with its line feed. -/
def unlines (lines : List (List Char)) : List Char := (lines.map (· ++ ['\n'])).flatten

/-- Fields with a separator between them. -/
def joinOn (sep : Char) (fields : List (List Char)) : List Char := [sep].intercalate fields

theorem unlines_cons (l : List Char) (lines : List (List Char)) :
    unlines (l :: lines) = l ++ '\n' :: unlines lines := by
  unfold unlines
  rw [List.map_cons, List.flatten_cons, List.append_assoc, List.singleton_append]

/-- The lines, and what is after the last line feed. -/
theorem splitOn_unlines {lines : List (List Char)} (h : ∀ l ∈ lines, '\n' ∉ l) :
    (unlines lines).splitOn '\n' = lines ++ [[]] := by
  induction lines with
  | nil => rfl
  | cons l lines ih =>
    obtain ⟨hl, hrest⟩ := List.forall_mem_cons.mp h
    rw [unlines_cons, List.splitOn_append_cons_self_of_not_mem hl, ih hrest]
    rfl

theorem splitOn_joinOn {sep : Char} {fields : List (List Char)} (hne : fields ≠ [])
    (h : ∀ field ∈ fields, sep ∉ field) : (joinOn sep fields).splitOn sep = fields :=
  List.splitOn_intercalate sep h hne

theorem mem_joinOn {sep c : Char} {fields : List (List Char)} (h : c ∈ joinOn sep fields) :
    c = sep ∨ ∃ field ∈ fields, c ∈ field := by
  induction fields with
  | nil => cases h
  | cons field fields ih =>
    unfold joinOn at h ih
    cases hf : fields with
    | nil =>
      rw [hf, List.intercalate_singleton] at h
      exact .inr ⟨field, List.mem_cons_self, h⟩
    | cons field' rest =>
      rw [List.intercalate_cons_of_ne_nil (hf ▸ List.cons_ne_nil _ _), List.mem_append,
        List.mem_append, List.mem_singleton] at h
      rw [← hf]
      rcases h with (h | h) | h
      · exact .inr ⟨field, List.mem_cons_self, h⟩
      · exact .inl h
      · exact (ih h).imp_right fun ⟨f, hmem, hc⟩ => ⟨f, List.mem_cons_of_mem field hmem, hc⟩

/-- What has no separator goes before the first field. -/
theorem splitOn_append_of_not_mem {sep : Char} {w : List Char} (h : sep ∉ w) (l : List Char) :
    (w ++ l).splitOn sep = (l.splitOn sep).modifyHead (w ++ ·) := by
  induction w with
  | nil =>
    rw [List.nil_append]
    exact (congrFun List.modifyHead_id _).symm
  | cons c w ih =>
    rw [List.mem_cons, not_or] at h
    have hc : (c == sep) = false := beq_eq_false_iff_ne.mpr (Ne.symm h.1)
    rw [List.cons_append, List.splitOn_cons_eq_if_modifyHead, ih h.2, hc,
      if_neg Bool.false_ne_true, List.modifyHead_modifyHead]
    rfl

/-! ## Words -/

/-- The words of a line. -/
def tokens (line : List Char) : List (List Char) := (line.splitOn ' ').filter (· ≠ [])

theorem tokens_blank (l : List Char) : tokens (' ' :: l) = tokens l := by
  unfold tokens
  rw [List.splitOn_cons_eq_if_modifyHead, if_pos (beq_self_eq_true ' ')]
  rfl

theorem tokens_blanks (n : Nat) (l : List Char) :
    tokens (List.replicate n ' ' ++ l) = tokens l := by
  induction n with
  | zero => rfl
  | succ n ih => rw [List.replicate_succ, List.cons_append, tokens_blank, ih]

theorem tokens_word {w : List Char} (hne : w ≠ []) (h : ' ' ∉ w) (l : List Char) :
    tokens (w ++ ' ' :: l) = w :: tokens l := by
  unfold tokens
  rw [List.splitOn_append_cons_self_of_not_mem h,
    List.filter_cons_of_pos (by exact decide_eq_true hne)]

/-! ## Lists of values -/

/-- Where every element has a value, so has the list. -/
theorem mapM_map_eq_some {f : β → Option γ} {g : α → β} {h : α → γ} {l : List α}
    (heq : ∀ x ∈ l, f (g x) = some (h x)) : (l.map g).mapM f = some (l.map h) := by
  induction l with
  | nil => rfl
  | cons x l ih =>
    obtain ⟨hx, hl⟩ := List.forall_mem_cons.mp heq
    rw [List.map_cons, List.mapM_cons, hx, ih hl]
    rfl

/-- The values of a list come from its elements, in order. -/
theorem forall₂_of_mapM {f : β → Option γ} {l : List β} {r : List γ} (h : l.mapM f = some r) :
    List.Forall₂ (fun x y => f x = some y) l r := by
  induction l generalizing r with
  | nil =>
    obtain rfl := Option.some.inj h
    exact .nil
  | cons x l ih =>
    rw [List.mapM_cons] at h
    obtain ⟨y, hy, h⟩ := Option.bind_eq_some_iff.mp h
    obtain ⟨ys, hys, h⟩ := Option.bind_eq_some_iff.mp h
    obtain rfl := Option.some.inj h
    exact .cons hy (ih hys)

end NetLab.Lib
