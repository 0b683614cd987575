/-
  Numbers printed with `%.pg`, as by `operator<<` and by awk: `p` significant digits.

  Numbers are exact here; what is printed and read back of one is `significant p` of it.

  * `abs_significant_sub_le`: the relative error of one rounding.
  * `abs_runningSum_sub_le`: the error of a sum that is printed and read back at each step.
  * `general`: the text; `mem_general`, `general_ne_nil`: it is one word.
-/
import NetLab.Lib.Decimal

namespace NetLab.Lib

/-- The unit of the last of `p` significant digits. -/
def lastPlace (p : Nat) (q : ℚ) : ℚ := 10 ^ (Int.log 10 |q| + 1 - p)

/-- `q` rounded to `p` significant digits. -/
def significant (p : Nat) (q : ℚ) : ℚ := roundEven (q / lastPlace p q) * lastPlace p q

/-- The relative error of `p` significant digits. -/
def roundoff (p : Nat) : ℚ := 5 / 10 ^ p

theorem lastPlace_pos (p : Nat) (q : ℚ) : 0 < lastPlace p q := zpow_pos (by norm_num) _

theorem lastPlace_le (p : Nat) {q : ℚ} (hq : q ≠ 0) : lastPlace p q ≤ |q| * (10 / 10 ^ p) := by
  have hlog : (10 : ℚ) ^ Int.log 10 |q| ≤ |q| :=
    Int.zpow_log_le_self (by decide) (abs_pos.mpr hq)
  have hpos : (0 : ℚ) < 10 / 10 ^ p := by positivity
  calc lastPlace p q = 10 ^ Int.log 10 |q| * (10 / 10 ^ p) := by
        unfold lastPlace
        rw [add_sub_assoc, zpow_add₀ (by norm_num), zpow_sub₀ (by norm_num), zpow_one,
          zpow_natCast]
    _ ≤ |q| * (10 / 10 ^ p) := mul_le_mul_of_nonneg_right hlog hpos.le

/-- **One rounding.** -/
theorem abs_significant_sub_le (p : Nat) (q : ℚ) : |significant p q - q| ≤ roundoff p * |q| := by
  by_cases hq : q = 0
  · subst hq
    simp [significant, roundEven]
  have hpos := lastPlace_pos p q
  have hround := abs_roundEven_sub_le (q / lastPlace p q)
  calc |significant p q - q|
      = |(roundEven (q / lastPlace p q) : ℚ) - q / lastPlace p q| * lastPlace p q := by
        unfold significant
        conv_rhs => rw [← abs_of_pos hpos, ← abs_mul, sub_mul, abs_of_pos hpos,
          div_mul_cancel₀ _ hpos.ne']
    _ ≤ 1 / 2 * (|q| * (10 / 10 ^ p)) :=
        mul_le_mul hround (lastPlace_le p hq) hpos.le (by norm_num)
    _ = roundoff p * |q| := by
        unfold roundoff
        ring

theorem significant_nonneg {p : Nat} {q : ℚ} (h : 0 ≤ q) : 0 ≤ significant p q := by
  have hpos := lastPlace_pos p q
  have hround : (0 : ℚ) ≤ roundEven (q / lastPlace p q) := by
    exact_mod_cast roundEven_nonneg (div_nonneg h hpos.le)
  exact mul_nonneg hround hpos.le

theorem roundoff_nonneg (p : Nat) : 0 ≤ roundoff p := by
  unfold roundoff
  positivity

/-! ## Running sums -/

/-- A sum printed with `p` digits and read back after each summand. -/
def runningSum (p : Nat) (l : List ℚ) : ℚ := l.foldl (fun sum v => significant p (sum + v)) 0

theorem runningSum_concat (p : Nat) (l : List ℚ) (v : ℚ) :
    runningSum p (l ++ [v]) = significant p (runningSum p l + v) := by
  unfold runningSum
  rw [List.foldl_append]
  rfl

theorem runningSum_nonneg (p : Nat) {l : List ℚ} (h : ∀ v ∈ l, 0 ≤ v) : 0 ≤ runningSum p l := by
  induction l using List.reverseRecOn with
  | nil => exact le_refl 0
  | append_singleton l v ih =>
    rw [runningSum_concat]
    have hl := ih fun w hw => h w (List.mem_append_left _ hw)
    have hv := h v (List.mem_append_right _ (List.mem_singleton_self v))
    exact significant_nonneg (add_nonneg hl hv)

/-- **A running sum.** The error grows with the square of the number of summands. -/
theorem abs_runningSum_sub_le (p : Nat) {m : ℚ} {l : List ℚ} (h : ∀ v ∈ l, 0 ≤ v ∧ v ≤ m)
    (hlen : roundoff p * l.length ≤ 1) :
    |runningSum p l - l.sum| ≤ roundoff p * (m * (l.length * (l.length + 1))) := by
  induction l using List.reverseRecOn with
  | nil => simp [runningSum]
  | append_singleton l v ih =>
    have hl : ∀ w ∈ l, 0 ≤ w ∧ w ≤ m := fun w hw => h w (List.mem_append_left _ hw)
    obtain ⟨hv0, hvm⟩ := h v (List.mem_append_right _ (List.mem_singleton_self v))
    rw [List.length_append, List.length_singleton, Nat.cast_add, Nat.cast_one] at hlen ⊢
    have hr := roundoff_nonneg p
    have hn : (0 : ℚ) ≤ l.length := Nat.cast_nonneg _
    have hm : 0 ≤ m := hv0.trans hvm
    have hshort : roundoff p * l.length ≤ 1 := by linarith
    have hlast := ih hl hshort
    have hsum : l.sum ≤ l.length * m := by
      rw [← nsmul_eq_mul]
      exact List.sum_le_card_nsmul l m fun w hw => (hl w hw).2
    have hnonneg := add_nonneg (runningSum_nonneg p fun w hw => (hl w hw).1) hv0
    have hround := abs_significant_sub_le p (runningSum p l + v)
    rw [abs_of_nonneg hnonneg] at hround
    generalize hE : roundoff p * (m * (l.length * (l.length + 1))) = E at hlast
    -- the rounded sum is at most that of the largest summands and the error so far
    have hbound : runningSum p l + v ≤ l.length * m + E + m := by
      have hle := (abs_le.mp hlast).2
      linarith
    rw [runningSum_concat, List.sum_append, List.sum_singleton]
    calc |significant p (runningSum p l + v) - (l.sum + v)|
        ≤ |significant p (runningSum p l + v) - (runningSum p l + v)| +
            |runningSum p l + v - (l.sum + v)| := abs_sub_le _ _ _
      _ ≤ roundoff p * (l.length * m + E + m) + E := by
          rw [add_sub_add_right_eq_sub]
          exact add_le_add (hround.trans (mul_le_mul_of_nonneg_left hbound hr)) hlast
      _ = roundoff p * m * (l.length + 1) * (1 + roundoff p * l.length + l.length) := by
          rw [← hE]
          ring
      _ ≤ roundoff p * m * (l.length + 1) * (1 + 1 + l.length) := by
          have hfactor : 0 ≤ roundoff p * m * (l.length + 1) := by positivity
          exact mul_le_mul_of_nonneg_left (by linarith) hfactor
      _ = roundoff p * (m * ((l.length + 1) * (l.length + 1 + 1))) := by ring

/-! ## Text -/

/-- A decimal numeral without the zeros at its end, and without a point at its end. -/
def stripZeros (s : List Char) : List Char :=
  let rest := s.reverse.dropWhile (· = '0')
  (if rest.head? = some '.' then rest.tail else rest).reverse

/-- `printf ("%.pg", q)`: with an exponent where it is below -4 or from `p` on. -/
def general (p : Nat) (q : ℚ) : List Char :=
  let r := significant p q
  let e := Int.log 10 |r|
  if r = 0 then ['0']
  else if -4 ≤ e ∧ e < p then stripZeros (fixed (p - 1 - e).toNat r)
  else
    stripZeros (fixed (p - 1) (r / 10 ^ e)) ++
      'e' :: (if e < 0 then '-' else '+') :: padded 2 e.natAbs

theorem mem_stripZeros {s : List Char} {c : Char} (h : c ∈ stripZeros s) : c ∈ s := by
  have hrest : ∀ {d}, d ∈ s.reverse.dropWhile (· = '0') → d ∈ s := fun hd =>
    List.mem_reverse.mp ((List.dropWhile_suffix _).subset hd)
  unfold stripZeros at h
  dsimp only at h
  split at h
  · exact hrest (List.mem_of_mem_tail (List.mem_reverse.mp h))
  · exact hrest (List.mem_reverse.mp h)

/-- Sign, digits, point and exponent. -/
theorem mem_general {p : Nat} {q : ℚ} {c : Char} (h : c ∈ general p q) :
    c.isDigit = true ∨ c = '-' ∨ c = '.' ∨ c = 'e' ∨ c = '+' := by
  have hstrip : ∀ {n r}, c ∈ stripZeros (fixed n r) → c.isDigit = true ∨ c = '-' ∨ c = '.' :=
    fun hc => mem_fixed (mem_stripZeros hc)
  unfold general at h
  dsimp only at h
  split_ifs at h
  · rw [List.mem_singleton.mp h]
    exact .inl (by decide)
  · rcases hstrip h with hc | hc | hc <;> simp [hc]
  all_goals
    rcases List.mem_append.mp h with h | h
    · rcases hstrip h with hc | hc | hc <;> simp [hc]
    simp only [List.mem_cons] at h
    rcases h with hc | hc | hc
    · simp [hc]
    · simp [hc]
    · exact .inl (isDigit_padded hc)

/-- Something is left in front of the point. -/
theorem stripZeros_ne_nil {a b : List Char} (h : a ≠ []) : stripZeros (a ++ '.' :: b) ≠ [] := by
  have hrev : a.reverse ≠ [] := fun h' => h (List.reverse_eq_nil_iff.mp h')
  unfold stripZeros
  dsimp only
  rw [List.reverse_append, List.reverse_cons, List.append_assoc, List.singleton_append,
    List.dropWhile_append]
  split
  · rw [List.dropWhile_cons_of_neg (by decide), List.head?_cons, if_pos rfl, List.tail_cons]
    simpa using h
  · rename_i hne
    obtain ⟨c, cs, hcs⟩ := List.exists_cons_of_ne_nil
      (fun h' => hne (List.isEmpty_iff.mpr h') : b.reverse.dropWhile (· = '0') ≠ [])
    rw [hcs, List.cons_append, List.head?_cons, List.tail_cons]
    split <;> simp

theorem fixed_eq (p : Nat) (q : ℚ) : ∃ a b, a ≠ [] ∧ fixed p q = a ++ '.' :: b := by
  refine ⟨(if q < 0 then ['-'] else []) ++ Nat.toDigits 10 (units p q / 10 ^ p),
    padded p (units p q % 10 ^ p), fun h => ?_, ?_⟩
  · exact Nat.toDigits_ne_nil (List.append_eq_nil_iff.mp h).2
  · unfold fixed
    rw [List.append_assoc]

theorem general_ne_nil (p : Nat) (q : ℚ) : general p q ≠ [] := by
  unfold general
  dsimp only
  split_ifs
  · exact List.cons_ne_nil _ _
  · obtain ⟨a, b, ha, heq⟩ := fixed_eq (p - 1 - Int.log 10 |significant p q| : ℤ).toNat
      (significant p q)
    rw [heq]
    exact stripZeros_ne_nil ha
  all_goals
    intro h
    cases (List.append_eq_nil_iff.mp h).2

example : general 6 (123456789 / 10000000) = "12.3457".toList ∧ general 6 100 = "100".toList ∧
    general 6 (1 / 100000) = "1e-05".toList := by decide +kernel

end NetLab.Lib
