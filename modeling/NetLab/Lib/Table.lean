/-
  Tables of accumulators, and means.

  An entry is posted to one row of a table, or to none, as its key says. The row of a table after
  any number of entries is the fold of the entries posted to it, in order (`getElem?_foldl_post`);
  the other rows keep their values (`getElem?_post_of_ne`).

  The mean of a list lies between two of its elements (`exists_le_mean`, `exists_ge_mean`).
-/
import Mathlib

namespace NetLab.Lib

section Table

variable {α β : Type} (key : β → Option Nat) (f : β → α → α)

/-- Posts `x` to the row its key names. -/
def post (table : List α) (x : β) : List α :=
  match key x with
  | none => table
  | some i => table.modify i (f x)

@[simp] theorem length_post (table : List α) (x : β) :
    (post key f table x).length = table.length := by
  unfold post
  cases key x with
  | none => rfl
  | some i => exact List.length_modify (f x) table i

theorem getElem?_post_of_ne {x : β} {i : Nat} (h : key x ≠ some i) (table : List α) :
    (post key f table x)[i]? = table[i]? := by
  unfold post
  cases hk : key x with
  | none => rfl
  | some j =>
    have hne : j ≠ i := fun he => h (hk.trans (congrArg some he))
    exact List.getElem?_modify_ne (f x) table hne

theorem getElem?_post_self {x : β} {i : Nat} (h : key x = some i) (table : List α) :
    (post key f table x)[i]? = table[i]?.map (f x) := by
  unfold post
  rw [h]
  exact List.getElem?_modify_eq (f x) i table

/-- **A row is the fold of the entries posted to it.** -/
theorem getElem?_foldl_post (xs : List β) (table : List α) (i : Nat) :
    (xs.foldl (post key f) table)[i]? =
      table[i]?.map fun row => (xs.filter (key · = some i)).foldl (fun row x => f x row) row := by
  induction xs generalizing table with
  | nil => exact (congrFun Option.map_id table[i]?).symm
  | cons x xs ih =>
    rw [List.foldl_cons, ih]
    by_cases h : key x = some i
    · rw [getElem?_post_self key f h, List.filter_cons_of_pos (by simpa using h), Option.map_map]
      rfl
    · rw [getElem?_post_of_ne key f h, List.filter_cons_of_neg (by simpa using h)]

end Table

/-! ## Means -/

section Mean

variable {K : Type} [Field K] [LinearOrder K] [IsStrictOrderedRing K] {xs : List K}

/-- As many times the mean as there are elements is the sum. -/
theorem sum_map_mean (h : xs ≠ []) :
    (xs.map fun _ => xs.sum / xs.length).sum = (xs.map id).sum := by
  have hlen : (xs.length : K) ≠ 0 := Nat.cast_ne_zero.mpr (List.length_pos_of_ne_nil h).ne'
  rw [List.map_const', List.sum_replicate, nsmul_eq_mul, List.map_id, mul_div_cancel₀ _ hlen]

theorem exists_le_mean (h : xs ≠ []) : ∃ x ∈ xs, x ≤ xs.sum / xs.length :=
  List.exists_le_of_sum_le h id _ (sum_map_mean h).ge

theorem exists_ge_mean (h : xs ≠ []) : ∃ x ∈ xs, xs.sum / xs.length ≤ x :=
  List.exists_le_of_sum_le h _ id (sum_map_mean h).le

end Mean

end NetLab.Lib
