/-
  Jain's fairness index of a list of shares, `(∑ x)² / (n · ∑ x²)`.

  The deviations of the shares from their mean give both the bound and its equality case:
  `∑ (n x - ∑ x)² = n (n · ∑ x² - (∑ x)²)` (`sum_sq_dev_mean`). From below the square of a sum of
  shares that are not negative is at least the sum of their squares.

  * `jain_le_one`, `jain_eq_one_iff`: at most 1, and 1 for equal shares only.
  * `inv_length_le_jain`, `jain_eq_inv_length_iff`: at least `1 / n`, and that for one share only.
  * `jain_perm`, `jain_map_mul`: the order and the unit of the shares do not matter.
  * `length_mul_jain_filter`: a share of zero counts in `n` only.

  The index of no shares, and of shares that are all zero, is zero.
-/
import Mathlib

namespace NetLab.Lib

section Index

variable {K : Type} [Field K]

/-- The sum of the squares. -/
def sumSq (xs : List K) : K := (xs.map fun x => x * x).sum

def jain (xs : List K) : K := xs.sum * xs.sum / (xs.length * sumSq xs)

variable {xs ys : List K}

@[simp] theorem sumSq_nil : sumSq ([] : List K) = 0 := rfl

@[simp] theorem sumSq_cons (x : K) (xs : List K) : sumSq (x :: xs) = x * x + sumSq xs := by
  simp [sumSq]

theorem sumSq_perm (h : xs.Perm ys) : sumSq xs = sumSq ys := (h.map _).sum_eq

theorem sumSq_map_mul (c : K) (xs : List K) : sumSq (xs.map (c * ·)) = c * c * sumSq xs := by
  induction xs with
  | nil => simp
  | cons x xs ih =>
    simp only [List.map_cons, sumSq_cons, ih]
    ring

theorem jain_perm (h : xs.Perm ys) : jain xs = jain ys := by
  unfold jain
  rw [h.sum_eq, h.length_eq, sumSq_perm h]

theorem jain_map_mul {c : K} (hc : c ≠ 0) (xs : List K) : jain (xs.map (c * ·)) = jain xs := by
  unfold jain
  rw [List.sum_map_mul_left, List.length_map, sumSq_map_mul, List.map_id']
  have hnum : c * xs.sum * (c * xs.sum) = c * c * (xs.sum * xs.sum) := by ring
  have hden : (xs.length : K) * (c * c * sumSq xs) = c * c * (xs.length * sumSq xs) := by ring
  rw [hnum, hden]
  exact mul_div_mul_left _ _ (mul_ne_zero hc hc)

/-- The deviations from `d`, in a unit of `c`. -/
theorem sum_sq_dev (c d : K) (xs : List K) :
    sumSq (xs.map fun x => c * x - d) =
      c * c * sumSq xs - 2 * c * d * xs.sum + xs.length * (d * d) := by
  induction xs with
  | nil => simp
  | cons x xs ih =>
    simp only [List.map_cons, sumSq_cons, ih, List.sum_cons, List.length_cons]
    push_cast
    ring

/-- The deviations from the mean. -/
theorem sum_sq_dev_mean (xs : List K) :
    sumSq (xs.map fun x => xs.length * x - xs.sum) =
      xs.length * (xs.length * sumSq xs - xs.sum * xs.sum) := by
  rw [sum_sq_dev]
  ring

end Index

section Bounds

variable {K : Type} [Field K] [LinearOrder K] [IsStrictOrderedRing K] {xs : List K}

theorem sumSq_nonneg (xs : List K) : 0 ≤ sumSq xs := by
  induction xs with
  | nil => exact le_refl 0
  | cons x xs ih =>
    rw [sumSq_cons]
    exact add_nonneg (mul_self_nonneg x) ih

theorem sumSq_eq_zero_iff : sumSq xs = 0 ↔ ∀ x ∈ xs, x = 0 := by
  induction xs with
  | nil => simp
  | cons x xs ih =>
    rw [sumSq_cons, add_eq_zero_iff_of_nonneg (mul_self_nonneg x) (sumSq_nonneg xs),
      mul_self_eq_zero, ih, List.forall_mem_cons]

theorem sumSq_pos (h : xs ≠ []) (hpos : ∀ x ∈ xs, 0 < x) : 0 < sumSq xs := by
  apply lt_of_le_of_ne (sumSq_nonneg xs)
  intro hzero
  obtain ⟨x, hx⟩ := List.exists_mem_of_ne_nil xs h
  exact (hpos x hx).ne' (sumSq_eq_zero_iff.mp hzero.symm x hx)

theorem length_pos_cast (h : xs ≠ []) : (0 : K) < xs.length :=
  Nat.cast_pos.mpr (List.length_pos_of_ne_nil h)

/-! ## The upper bound -/

theorem sum_mul_sum_le (xs : List K) : xs.sum * xs.sum ≤ xs.length * sumSq xs := by
  by_cases h : xs = []
  · simp [h]
  · have hdev := sumSq_nonneg (xs.map fun y => xs.length * y - xs.sum)
    rw [sum_sq_dev_mean] at hdev
    exact sub_nonneg.mp (nonneg_of_mul_nonneg_right hdev (length_pos_cast h))

/-- With equality for shares that do not deviate from their mean. -/
theorem sum_mul_sum_eq_iff :
    xs.sum * xs.sum = xs.length * sumSq xs ↔ ∀ x ∈ xs, ∀ y ∈ xs, x = y := by
  constructor
  · intro heq x hx y hy
    have hlen := length_pos_cast (K := K) (List.ne_nil_of_mem hx)
    have hdev : sumSq (xs.map fun z => xs.length * z - xs.sum) = 0 := by
      rw [sum_sq_dev_mean, heq, sub_self, mul_zero]
    have hmean : ∀ z ∈ xs, xs.length * z = xs.sum := by
      intro z hz
      exact sub_eq_zero.mp (sumSq_eq_zero_iff.mp hdev _ (List.mem_map_of_mem hz))
    exact mul_left_cancel₀ hlen.ne' ((hmean x hx).trans (hmean y hy).symm)
  · intro heq
    cases xs with
    | nil => simp
    | cons x xs =>
      have hrep : x :: xs = List.replicate (x :: xs).length x :=
        List.eq_replicate_of_mem fun y hy => heq y hy x List.mem_cons_self
      unfold sumSq
      rw [hrep]
      simp only [List.map_replicate, List.sum_replicate, List.length_replicate, nsmul_eq_mul]
      ring

theorem jain_nonneg (xs : List K) : 0 ≤ jain xs :=
  div_nonneg (mul_self_nonneg _) (mul_nonneg (Nat.cast_nonneg _) (sumSq_nonneg xs))

theorem jain_le_one (xs : List K) : jain xs ≤ 1 :=
  div_le_one_of_le₀ (sum_mul_sum_le xs) (mul_nonneg (Nat.cast_nonneg _) (sumSq_nonneg xs))

theorem jain_eq_one_iff (h : xs ≠ []) (hpos : ∀ x ∈ xs, 0 < x) :
    jain xs = 1 ↔ ∀ x ∈ xs, ∀ y ∈ xs, x = y := by
  unfold jain
  rw [div_eq_one_iff_eq (mul_pos (length_pos_cast h) (sumSq_pos h hpos)).ne', sum_mul_sum_eq_iff]

/-! ## The lower bound -/

theorem sumSq_le_sum_mul_sum (h : ∀ x ∈ xs, 0 ≤ x) : sumSq xs ≤ xs.sum * xs.sum := by
  induction xs with
  | nil => simp
  | cons x xs ih =>
    rw [List.forall_mem_cons] at h
    have hcross : 0 ≤ x * xs.sum := mul_nonneg h.1 (List.sum_nonneg h.2)
    have hrest := ih h.2
    rw [sumSq_cons, List.sum_cons]
    linarith [add_mul_self_eq x xs.sum]

/-- With equality for one share only. -/
theorem sumSq_eq_sum_mul_sum_iff (h : xs ≠ []) (hpos : ∀ x ∈ xs, 0 < x) :
    xs.sum * xs.sum = sumSq xs ↔ xs.length = 1 := by
  match xs, h, hpos with
  | [x], _, _ => simp
  | x :: y :: xs, _, hpos =>
    rw [List.forall_mem_cons] at hpos
    have hsum : 0 < (y :: xs).sum := List.sum_pos _ hpos.2 (List.cons_ne_nil y xs)
    have hcross : 0 < x * (y :: xs).sum := mul_pos hpos.1 hsum
    have hrest := sumSq_le_sum_mul_sum fun z hz => (hpos.2 z hz).le
    apply iff_of_false
    · rw [sumSq_cons, List.sum_cons]
      intro heq
      linarith [add_mul_self_eq x (y :: xs).sum]
    · simp

/-- `1 / n` over the same denominator. -/
theorem inv_length_eq (h : xs ≠ []) (hpos : ∀ x ∈ xs, 0 < x) :
    1 / (xs.length : K) = sumSq xs / (xs.length * sumSq xs) := by
  rw [div_mul_cancel_right₀ (sumSq_pos h hpos).ne', one_div]

theorem inv_length_le_jain (h : xs ≠ []) (hpos : ∀ x ∈ xs, 0 < x) :
    1 / (xs.length : K) ≤ jain xs := by
  have hden : 0 < (xs.length : K) * sumSq xs := mul_pos (length_pos_cast h) (sumSq_pos h hpos)
  unfold jain
  rw [inv_length_eq h hpos, div_le_div_iff_of_pos_right hden]
  exact sumSq_le_sum_mul_sum fun x hx => (hpos x hx).le

theorem jain_eq_inv_length_iff (h : xs ≠ []) (hpos : ∀ x ∈ xs, 0 < x) :
    jain xs = 1 / (xs.length : K) ↔ xs.length = 1 := by
  have hden : 0 < (xs.length : K) * sumSq xs := mul_pos (length_pos_cast h) (sumSq_pos h hpos)
  unfold jain
  rw [inv_length_eq h hpos, div_left_inj' hden.ne', sumSq_eq_sum_mul_sum_iff h hpos]

/-! ## Shares of zero -/

omit [IsStrictOrderedRing K] in
/-- A share of zero adds nothing to either sum. -/
theorem sum_filter_pos (h : ∀ x ∈ xs, 0 ≤ x) :
    (xs.filter (0 < ·)).sum = xs.sum ∧ sumSq (xs.filter (0 < ·)) = sumSq xs := by
  induction xs with
  | nil => exact ⟨rfl, rfl⟩
  | cons x xs ih =>
    rw [List.forall_mem_cons] at h
    obtain ⟨hsum, hsq⟩ := ih h.2
    rcases h.1.lt_or_eq with hx | hx
    · rw [List.filter_cons_of_pos (by simpa using hx)]
      simp [hsum, hsq]
    · subst hx
      rw [List.filter_cons_of_neg (by simp)]
      simp [hsum, hsq]

theorem length_mul_jain (xs : List K) : xs.length * jain xs = xs.sum * xs.sum / sumSq xs := by
  by_cases h : xs = []
  · simp [h]
  · unfold jain
    rw [← mul_div_assoc, mul_div_mul_left _ _ (length_pos_cast h).ne']

/-- **A share of zero counts in `n` only.** -/
theorem length_mul_jain_filter (h : ∀ x ∈ xs, 0 ≤ x) :
    ((xs.filter (0 < ·)).length : K) * jain (xs.filter (0 < ·)) = xs.length * jain xs := by
  obtain ⟨hsum, hsq⟩ := sum_filter_pos h
  rw [length_mul_jain, length_mul_jain, hsum, hsq]

/-- Shares of zero never raise the index. -/
theorem jain_le_jain_filter (h : ∀ x ∈ xs, 0 ≤ x) : jain xs ≤ jain (xs.filter (0 < ·)) := by
  by_cases hnil : xs = []
  · simp [hnil]
  · have hle : ((xs.filter (0 < ·)).length : K) ≤ xs.length :=
      Nat.cast_le.mpr (List.length_filter_le _ _)
    have hmul := mul_le_mul_of_nonneg_right hle (jain_nonneg (xs.filter (0 < ·)))
    rw [length_mul_jain_filter h] at hmul
    exact le_of_mul_le_mul_left hmul (length_pos_cast hnil)

/-- They leave it as it is only if there are none, or nothing else. -/
theorem jain_filter_eq_iff (h : ∀ x ∈ xs, 0 ≤ x) :
    jain (xs.filter (0 < ·)) = jain xs ↔ (∀ x ∈ xs, 0 < x) ∨ ∀ x ∈ xs, x = 0 := by
  have hpos : ∀ x ∈ xs.filter (0 < ·), 0 < x := fun x hx => by simpa using (List.mem_filter.mp hx).2
  constructor
  · intro heq
    by_cases hnil : xs.filter (0 < ·) = []
    · right
      intro x hx
      have hneg : ¬ 0 < x := by simpa using List.filter_eq_nil_iff.mp hnil x hx
      exact le_antisymm (not_lt.mp hneg) (h x hx)
    · left
      have hjain : 0 < jain (xs.filter (0 < ·)) :=
        lt_of_lt_of_le (div_pos one_pos (length_pos_cast hnil)) (inv_length_le_jain hnil hpos)
      have hlen := length_mul_jain_filter h
      rw [← heq] at hlen
      have hall := Nat.cast_injective (mul_right_cancel₀ hjain.ne' hlen)
      intro x hx
      simpa using List.length_filter_eq_length_iff.mp hall x hx
  · rintro (hall | hzero)
    · rw [List.filter_eq_self.mpr fun x hx => by simpa using hall x hx]
    · have hsum : xs.sum = 0 := List.sum_eq_zero hzero
      have hnil : xs.filter (0 < ·) = [] := by
        apply List.filter_eq_nil_iff.mpr
        intro x hx
        simp [hzero x hx]
      rw [hnil]
      simp [jain, hsum]

end Bounds

end NetLab.Lib
