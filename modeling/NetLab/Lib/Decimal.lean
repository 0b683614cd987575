/-
  Numbers in text: `%d` and `%.pf` of `printf`, and a reader of decimal numerals.

  `%.pf` prints the nearest multiple of the last place, and of two that are as near the even one;
  the sign is that of the number itself, also where the multiple is zero. Numbers are exact here.

  * `readNat_toDigits`, `toDigits_ofDigitChars`: a natural number is read back as it was printed,
    and has one numeral without a leading zero.
  * `readDecimal_fixed`, `abs_rounded_sub_le`: what is read back of a number printed with `p` places
    is within half a unit of the last place of it; `abs_rounded_mean_sub_le`: and a mean within a
    unit of that of the numbers printed.
  * `mem_fixed`: the characters of such a numeral, for separators to avoid.
-/
import Mathlib

namespace NetLab.Lib

/-! ## Natural numbers -/

/-- A numeral of digits alone. -/
def readNat (s : List Char) : Option Nat :=
  if s ≠ [] ∧ s.all Char.isDigit then some (Nat.ofDigitChars 10 s 0) else none

theorem isDigit_toDigits {n : Nat} {c : Char} (h : c ∈ Nat.toDigits 10 n) : c.isDigit = true :=
  Nat.isDigit_of_mem_toDigits (by decide) (by decide) h

theorem readNat_toDigits (n : Nat) : readNat (Nat.toDigits 10 n) = some n := by
  unfold readNat
  rw [if_pos ⟨Nat.toDigits_ne_nil, List.all_eq_true.mpr fun _ => isDigit_toDigits⟩,
    Nat.ofDigitChars_ten_toDigits]

/-- What is not a digit is in no numeral of digits. -/
theorem not_mem_toDigits {c : Char} (hc : c.isDigit = false) (n : Nat) : c ∉ Nat.toDigits 10 n :=
  fun h => Bool.false_ne_true (hc ▸ isDigit_toDigits h)

theorem digitChar_of_isDigit {c : Char} (h : c.isDigit = true) :
    (c.toNat - '0'.toNat).digitChar = c ∧ c.toNat - '0'.toNat < 10 := by
  have hrange : 48 ≤ c.toNat ∧ c.toNat ≤ 57 := by
    simpa [Char.isDigit, UInt32.le_iff_toNat_le] using h
  have hall : ∀ n, 48 ≤ n → n ≤ 57 → (n - 48).digitChar = Char.ofNat n := by
    intro n hlo hhi
    interval_cases n <;> rfl
  refine ⟨(hall c.toNat hrange.1 hrange.2).trans (Char.ofNat_toNat c), ?_⟩
  show c.toNat - 48 < 10
  omega

/-- A numeral of digits without a leading zero is the one printed for its value. -/
theorem toDigits_ofDigitChars {s : List Char} (hne : s ≠ [])
    (hdigits : ∀ c ∈ s, c.isDigit = true) (hlead : s.length = 1 ∨ s.head? ≠ some '0') :
    Nat.toDigits 10 (Nat.ofDigitChars 10 s 0) = s := by
  induction s using List.reverseRecOn with
  | nil => exact absurd rfl hne
  | append_singleton s c ih =>
    obtain ⟨hchar, hlt⟩ := digitChar_of_isDigit (hdigits c (by simp))
    rw [Nat.ofDigitChars_append, Nat.ofDigitChars_cons, Nat.ofDigitChars_nil]
    by_cases hs : s = []
    · subst hs
      rw [Nat.ofDigitChars_nil, Nat.mul_zero, Nat.zero_add, Nat.toDigits_of_lt_base hlt, hchar]
      rfl
    · have hhead : s.head? ≠ some '0' := by
        have hlen := List.length_pos_of_ne_nil hs
        rw [List.length_append, List.length_singleton,
          List.head?_append_of_ne_nil _ hs] at hlead
        exact hlead.resolve_left (by omega)
      have hread := ih hs (fun d hd => hdigits d (List.mem_append_left _ hd)) (.inr hhead)
      have hpos : 0 < Nat.ofDigitChars 10 s 0 := by
        rw [Nat.pos_iff_ne_zero]
        intro hzero
        rw [hzero, Nat.toDigits_zero] at hread
        exact hhead (hread ▸ rfl)
      rw [← Nat.toDigits_append_toDigits (by decide) hpos hlt, hread,
        Nat.toDigits_of_lt_base hlt, hchar]

/-! ## Rounding -/

/-- The nearest integer; of two that are as near, the even one. -/
def roundEven (x : ℚ) : ℤ :=
  if x - ⌊x⌋ < 1 / 2 then ⌊x⌋
  else if 1 / 2 < x - ⌊x⌋ then ⌊x⌋ + 1
  else if ⌊x⌋ % 2 = 0 then ⌊x⌋ else ⌊x⌋ + 1

theorem abs_roundEven_sub_le (x : ℚ) : |(roundEven x : ℚ) - x| ≤ 1 / 2 := by
  have hlo := Int.floor_le x
  have hhi := Int.lt_floor_add_one x
  unfold roundEven
  split_ifs <;> (push_cast; rw [abs_le]; constructor <;> linarith)

theorem roundEven_nonneg {x : ℚ} (h : 0 ≤ x) : 0 ≤ roundEven x := by
  have hfloor := Int.floor_nonneg.mpr h
  unfold roundEven
  split_ifs <;> omega

/-! ## Decimals -/

/-- The digits of `n` after zeros up to `p` places. -/
def padded (p n : Nat) : List Char :=
  List.replicate (p - (Nat.toDigits 10 n).length) '0' ++ Nat.toDigits 10 n

/-- `|q|` in units of place `p`. -/
def units (p : Nat) (q : ℚ) : Nat := (roundEven (|q| * 10 ^ p)).toNat

/-- `printf ("%.pf", q)` for `0 < p`. -/
def fixed (p : Nat) (q : ℚ) : List Char :=
  (if q < 0 then ['-'] else []) ++ (Nat.toDigits 10 (units p q / 10 ^ p) ++
    '.' :: padded p (units p q % 10 ^ p))

/-- The number `fixed` prints. -/
def rounded (p : Nat) (q : ℚ) : ℚ := (if q < 0 then -1 else 1) * (units p q / 10 ^ p)

/-- A numeral without a sign. -/
def readUnsigned (s : List Char) : Option ℚ :=
  match s.splitOn '.' with
  | [whole] => (readNat whole).map fun n : Nat => (n : ℚ)
  | [whole, frac] =>
    (readNat whole).bind fun n : Nat =>
      (readNat frac).map fun f : Nat => (n : ℚ) + (f : ℚ) / 10 ^ frac.length
  | _ => none

/-- A decimal numeral. -/
def readDecimal (s : List Char) : Option ℚ :=
  if s.head? = some '-' then (readUnsigned s.tail).map fun x => -x else readUnsigned s

/-- A numeral of digits is a decimal one. -/
theorem readDecimal_toDigits (n : Nat) : readDecimal (Nat.toDigits 10 n) = some (n : ℚ) := by
  have hhead : (Nat.toDigits 10 n).head? ≠ some '-' := fun h =>
    not_mem_toDigits (by decide) n (List.mem_of_head? h)
  unfold readDecimal readUnsigned
  rw [if_neg hhead, List.splitOn_eq_singleton (not_mem_toDigits (by decide) n)]
  dsimp only
  rw [readNat_toDigits]
  rfl

theorem length_padded {p n : Nat} (hp : 0 < p) (h : n < 10 ^ p) : (padded p n).length = p := by
  have hle := (Nat.length_toDigits_le_iff (b := 10) (by decide) hp).mpr h
  unfold padded
  rw [List.length_append, List.length_replicate]
  omega

theorem isDigit_padded {p n : Nat} {c : Char} (h : c ∈ padded p n) : c.isDigit = true := by
  rcases List.mem_append.mp h with h | h
  · rw [List.eq_of_mem_replicate h]
    decide
  · exact isDigit_toDigits h

theorem readNat_padded (p n : Nat) : readNat (padded p n) = some n := by
  have hne : padded p n ≠ [] := fun h => Nat.toDigits_ne_nil (List.append_eq_nil_iff.mp h).2
  unfold readNat
  rw [if_pos ⟨hne, List.all_eq_true.mpr fun _ => isDigit_padded⟩]
  unfold padded
  rw [Nat.ofDigitChars_append, Nat.ofDigitChars_replicate_zero, Nat.mul_zero,
    Nat.ofDigitChars_ten_toDigits]

/-- Sign, digits and point. -/
theorem mem_fixed {p : Nat} {q : ℚ} {c : Char} (h : c ∈ fixed p q) :
    c.isDigit = true ∨ c = '-' ∨ c = '.' := by
  unfold fixed at h
  rcases List.mem_append.mp h with h | h
  · split at h
    · exact .inr (.inl (List.mem_singleton.mp h))
    · cases h
  · rcases List.mem_append.mp h with h | h
    · exact .inl (isDigit_toDigits h)
    · rcases List.mem_cons.mp h with h | h
      · exact .inr (.inr h)
      · exact .inl (isDigit_padded h)

/-- A numeral with places has one point. -/
theorem length_splitOn_fixed (p : Nat) (q : ℚ) : ((fixed p q).splitOn '.').length = 2 := by
  have hsign : '.' ∉ (if q < 0 then ['-'] else []) ++ Nat.toDigits 10 (units p q / 10 ^ p) := by
    intro h
    rcases List.mem_append.mp h with h | h
    · split at h
      · exact absurd h (by decide)
      · cases h
    · exact not_mem_toDigits (by decide) _ h
  have hfrac : '.' ∉ padded p (units p q % 10 ^ p) := fun h =>
    Bool.false_ne_true (isDigit_padded h)
  unfold fixed
  rw [← List.append_assoc, List.splitOn_append_cons_self_of_not_mem hsign,
    List.splitOn_eq_singleton hfrac]
  rfl

theorem readUnsigned_units {p : Nat} (hp : 0 < p) (n : Nat) :
    readUnsigned (Nat.toDigits 10 (n / 10 ^ p) ++ '.' :: padded p (n % 10 ^ p)) =
      some ((n : ℚ) / 10 ^ p) := by
  have hdot := not_mem_toDigits (c := '.') (by decide) (n / 10 ^ p)
  have hfrac : '.' ∉ padded p (n % 10 ^ p) := fun h =>
    Bool.false_ne_true (isDigit_padded h)
  have hpos : (0 : ℚ) < 10 ^ p := by positivity
  have hlen := length_padded hp (Nat.mod_lt n (Nat.pow_pos (n := p) (by decide : 0 < 10)))
  unfold readUnsigned
  rw [List.splitOn_append_cons_self_of_not_mem hdot, List.splitOn_eq_singleton hfrac]
  dsimp only
  rw [readNat_toDigits, readNat_padded, hlen, Option.bind_some, Option.map_some]
  congr 1
  have hdiv : ((10 ^ p : Nat) : ℚ) * ((n / 10 ^ p : Nat) : ℚ) + ((n % 10 ^ p : Nat) : ℚ) = n := by
    exact_mod_cast Nat.div_add_mod n (10 ^ p)
  rw [eq_div_iff hpos.ne', add_mul, div_mul_cancel₀ _ hpos.ne', ← hdiv]
  push_cast
  ring

/-- **What is read of a printed number is that number, rounded to its last place.** -/
theorem readDecimal_fixed {p : Nat} (hp : 0 < p) (q : ℚ) :
    readDecimal (fixed p q) = some (rounded p q) := by
  unfold fixed rounded readDecimal
  split
  · rw [List.singleton_append, List.head?_cons, if_pos rfl, List.tail_cons, readUnsigned_units hp,
      Option.map_some, neg_one_mul]
  · have hhead : (Nat.toDigits 10 (units p q / 10 ^ p) ++
        '.' :: padded p (units p q % 10 ^ p)).head? ≠ some '-' := by
      intro h
      rw [List.head?_append_of_ne_nil _ Nat.toDigits_ne_nil] at h
      exact not_mem_toDigits (by decide) _ (List.mem_of_head? h)
    rw [List.nil_append, if_neg hhead, readUnsigned_units hp, one_mul]

theorem roundEven_intCast (n : ℤ) : roundEven (n : ℚ) = n := by
  unfold roundEven
  rw [Int.floor_intCast, sub_self, if_pos (by norm_num)]

/-- A number of `p` places is printed as it is. -/
theorem rounded_div (p : Nat) (n : ℤ) : rounded p ((n : ℚ) / 10 ^ p) = (n : ℚ) / 10 ^ p := by
  have hpos : (0 : ℚ) < 10 ^ p := by positivity
  have hunits : units p ((n : ℚ) / 10 ^ p) = n.natAbs := by
    unfold units
    rw [abs_div, abs_of_pos hpos, div_mul_cancel₀ _ hpos.ne', ← Int.cast_abs, roundEven_intCast,
      Int.abs_eq_natAbs, Int.toNat_natCast]
  have hcast : ((n.natAbs : Nat) : ℚ) = |(n : ℚ)| := by
    rw [← Int.cast_abs, Int.abs_eq_natAbs, Int.cast_natCast]
  unfold rounded
  rw [hunits, hcast]
  split
  · rename_i hneg
    have hn : (n : ℚ) < 0 := not_le.mp fun h => absurd hneg (not_lt.mpr (div_nonneg h hpos.le))
    rw [abs_of_neg hn]
    ring
  · rename_i hneg
    have hn : (0 : ℚ) ≤ n := not_lt.mp fun h => hneg (div_neg_of_neg_of_pos h hpos)
    rw [abs_of_nonneg hn, one_mul]

theorem abs_rounded_sub_le (p : Nat) (q : ℚ) : |rounded p q - q| ≤ 1 / 2 / 10 ^ p := by
  have hpos : (0 : ℚ) < 10 ^ p := by positivity
  have hunits : (units p q : ℚ) = (roundEven (|q| * 10 ^ p) : ℚ) := by
    unfold units
    have hnonneg : 0 ≤ roundEven (|q| * 10 ^ p) := roundEven_nonneg (by positivity)
    exact_mod_cast Int.toNat_of_nonneg hnonneg
  have hround := abs_roundEven_sub_le (|q| * 10 ^ p)
  -- the magnitude is off by half a unit at most
  have hmag : abs ((units p q : ℚ) / 10 ^ p - |q|) ≤ 1 / 2 / 10 ^ p := by
    rw [le_div_iff₀ hpos]
    calc abs ((units p q : ℚ) / 10 ^ p - |q|) * 10 ^ p
        = abs (((units p q : ℚ) / 10 ^ p - |q|) * 10 ^ p) := by rw [abs_mul, abs_of_pos hpos]
      _ = |(roundEven (|q| * 10 ^ p) : ℚ) - |q| * 10 ^ p| := by
          rw [sub_mul, div_mul_cancel₀ _ hpos.ne', hunits]
      _ ≤ 1 / 2 := hround
  unfold rounded
  split
  · rename_i hneg
    rw [abs_of_neg hneg] at hmag
    rw [show -1 * ((units p q : ℚ) / 10 ^ p) - q = -((units p q : ℚ) / 10 ^ p - -q) by ring,
      abs_neg]
    exact hmag
  · rename_i hneg
    rw [abs_of_nonneg (not_lt.mp hneg)] at hmag
    rwa [one_mul]

/-! ## Means -/

theorem abs_sum_rounded_sub_le (p : Nat) (xs : List ℚ) :
    |(xs.map (rounded p)).sum - xs.sum| ≤ xs.length * (1 / 2 / 10 ^ p) := by
  induction xs with
  | nil => simp
  | cons x xs ih =>
    have hx := abs_rounded_sub_le p x
    rw [List.map_cons, List.sum_cons, List.sum_cons, List.length_cons, abs_le] at *
    push_cast
    constructor <;> linarith

/-- The mean printed with `p` places is within one unit of the last place of the mean of the numbers
    as they are printed. -/
theorem abs_rounded_mean_sub_le (p : Nat) {xs : List ℚ} (h : xs ≠ []) :
    |rounded p (xs.sum / xs.length) - (xs.map (rounded p)).sum / xs.length| ≤ 1 / 10 ^ p := by
  have hlen : (0 : ℚ) < xs.length := Nat.cast_pos.mpr (List.length_pos_of_ne_nil h)
  have hmean := abs_rounded_sub_le p (xs.sum / xs.length)
  have hterms : |xs.sum / xs.length - (xs.map (rounded p)).sum / xs.length| ≤ 1 / 2 / 10 ^ p := by
    rw [← sub_div, abs_div, abs_of_pos hlen, div_le_iff₀ hlen, abs_sub_comm, mul_comm]
    exact abs_sum_rounded_sub_le p xs
  calc |rounded p (xs.sum / xs.length) - (xs.map (rounded p)).sum / xs.length|
      ≤ |rounded p (xs.sum / xs.length) - xs.sum / xs.length| +
          |xs.sum / xs.length - (xs.map (rounded p)).sum / xs.length| := abs_sub_le _ _ _
    _ ≤ 1 / 2 / 10 ^ p + 1 / 2 / 10 ^ p := add_le_add hmean hterms
    _ = 1 / 10 ^ p := by ring

end NetLab.Lib
