/-
When a quotient is too large for the format.

* `scaled_le_iff` — a comparison of scaled numbers is one of exact quotients;
* `exponentOf_bounds` — at the exponent that is chosen, a quotient has at most 53 bits,
  and no fewer unless the exponent is the least one;
* `roundQuotient_eq_succ_iff` — where an odd number is left for the next one;
* `quotient?_eq_none_iff` — hence a quotient is refused exactly from half a place above
  the largest value of the format on;
* `secondsOf_cases` — so much of the clock can be told in seconds.
-/
import AnalyzerBridge.Deadline
import Mathlib.Algebra.Order.Field.Power
import Mathlib.Data.Rat.Cast.Order
import Mathlib.Tactic.Linarith
import Mathlib.Tactic.Positivity
import Mathlib.Tactic.Ring

namespace AnalyzerBridge

namespace Binary64

variable {num den : Nat}

/-! ### The exponent -/

/-- A number of units of a scaled quotient is compared with the quotient itself. -/
theorem scaled_le_iff (k : Nat) (e : Int) :
    k * (scaled num den e).2 ≤ (scaled num den e).1 ↔ (k : ℚ) * den * 2 ^ e ≤ num := by
  rw [scaled]
  split
  next he =>
    lift e to Nat using he
    rw [Int.toNat_natCast, zpow_natCast, Nat.pow_eq, ← mul_assoc]
    exact_mod_cast Iff.rfl
  next he =>
    obtain ⟨n, rfl⟩ : ∃ n : Nat, e = -n := ⟨(-e).toNat, by omega⟩
    have hpos : (0 : ℚ) < 2 ^ n := by positivity
    rw [neg_neg, Int.toNat_natCast, zpow_neg, zpow_natCast, Nat.pow_eq, ← div_eq_mul_inv,
      div_le_iff₀ hpos]
    exact_mod_cast Iff.rfl

theorem scaled_lt_iff (k : Nat) (e : Int) :
    (scaled num den e).1 < k * (scaled num den e).2 ↔ (num : ℚ) < k * den * 2 ^ e := by
  rw [← not_le, scaled_le_iff, not_le]

theorem scaled_succ (num den n : Nat) :
    scaled num den (n + 1 : Nat) = (num, 2 * (2 ^ n * den)) := by
  rw [scaled, if_pos (Int.natCast_nonneg _), Int.toNat_natCast, Nat.pow_eq, Nat.pow_succ',
    Nat.mul_comm den, Nat.mul_assoc]

theorem scaled_snd_pos (hden : 0 < den) (e : Int) : 0 < (scaled num den e).2 := by
  rw [scaled]
  split
  · exact Nat.mul_pos hden (Nat.pow_pos (by decide))
  · exact hden

theorem log2_bounds {n : Nat} (h : 0 < n) :
    (2 : ℚ) ^ (n.log2 : Int) ≤ n ∧ (n : ℚ) < 2 ^ ((n.log2 : Int) + 1) := by
  have hlow : 2 ^ n.log2 ≤ n := Nat.log2_self_le h.ne'
  have hhigh : n < 2 ^ (n.log2 + 1) := Nat.lt_log2_self
  constructor
  · rw [zpow_natCast]
    exact_mod_cast hlow
  · rw [← Nat.cast_succ, zpow_natCast]
    exact_mod_cast hhigh

theorem natCast_two_pow (n : Nat) : ((2 ^ n : Nat) : ℚ) = 2 ^ (n : Int) := by
  rw [Nat.cast_pow, Nat.cast_ofNat, zpow_natCast]

/-- By its logarithms alone, a quotient has 53 or 54 bits at their difference. -/
theorem log2_sub_bounds (hnum : 0 < num) (hden : 0 < den) {guess : Int}
    (hguess : (num.log2 : Int) - (den.log2 : Int) - 53 = guess) :
    (2 : ℚ) ^ (52 : Int) * den * 2 ^ guess ≤ num ∧ (num : ℚ) < 2 ^ (54 : Int) * den * 2 ^ guess := by
  obtain ⟨hnumLow, hnumHigh⟩ := log2_bounds hnum
  obtain ⟨hdenLow, hdenHigh⟩ := log2_bounds hden
  have htwo : (2 : ℚ) ≠ 0 := by norm_num
  constructor
  · calc (2 : ℚ) ^ (52 : Int) * den * 2 ^ guess
        ≤ 2 ^ (52 : Int) * 2 ^ ((den.log2 : Int) + 1) * 2 ^ guess := by gcongr
      _ = 2 ^ (num.log2 : Int) := by
        rw [← zpow_add₀ htwo, ← zpow_add₀ htwo]
        congr 1
        omega
      _ ≤ num := hnumLow
  · calc (num : ℚ) < 2 ^ ((num.log2 : Int) + 1) := hnumHigh
      _ = 2 ^ (54 : Int) * 2 ^ (den.log2 : Int) * 2 ^ guess := by
        rw [← zpow_add₀ htwo, ← zpow_add₀ htwo]
        congr 1
        omega
      _ ≤ 2 ^ (54 : Int) * den * 2 ^ guess := by gcongr

/-- At the exponent that is chosen, a quotient has at most 53 bits in front of the point, and no fewer
unless the exponent is the least one. -/
theorem exponentOf_bounds (hnum : 0 < num) (hden : 0 < den) :
    (num : ℚ) < 2 ^ (53 : Int) * den * 2 ^ exponentOf num den ∧
      (-1074 < exponentOf num den → (2 : ℚ) ^ (52 : Int) * den * 2 ^ exponentOf num den ≤ num) := by
  rw [exponentOf]
  generalize hguess : (num.log2 : Int) - (den.log2 : Int) - 53 = guess
  obtain ⟨hlow, hhigh⟩ := log2_sub_bounds hnum hden hguess
  have hlook : Nat.pow 2 53 ≤ (scaled num den guess).1 / (scaled num den guess).2 ↔
      (2 : ℚ) ^ (53 : Int) * den * 2 ^ guess ≤ num := by
    rw [Nat.le_div_iff_mul_le (scaled_snd_pos hden guess), scaled_le_iff, Nat.pow_eq, natCast_two_pow]
    rfl
  -- one more look decides between 53 and 54 bits
  obtain ⟨e, he, hbelow, habove⟩ : ∃ e : Int,
      (if Nat.pow 2 53 ≤ (scaled num den guess).1 / (scaled num den guess).2
        then guess + 1 else guess) = e ∧ (num : ℚ) < 2 ^ (53 : Int) * den * 2 ^ e ∧
        (2 : ℚ) ^ (52 : Int) * den * 2 ^ e ≤ num := by
    refine ⟨_, rfl, ?_⟩
    split
    next h =>
      rw [hlook] at h
      have hsucc : (2 : ℚ) ^ (guess + 1) = 2 * 2 ^ guess := by
        rw [zpow_add_one₀ (by norm_num), mul_comm]
      rw [hsucc]
      norm_num at h hhigh ⊢
      constructor <;> linarith
    next h =>
      rw [hlook, not_le] at h
      exact ⟨h, hlow⟩
  rw [he]
  constructor
  · have hmono : (2 : ℚ) ^ e ≤ 2 ^ max e (-1074) :=
      zpow_le_zpow_right₀ (by norm_num) (le_max_left _ _)
    exact hbelow.trans_le (mul_le_mul_of_nonneg_left hmono (by positivity))
  · intro hleast
    rwa [max_eq_left (by omega)]

/-! ### The rounded quotient -/

/-- An odd number is left for the next one from the middle between the two on. -/
theorem roundQuotient_eq_succ_iff {k : Nat} (hden : 0 < den) (hodd : k % 2 = 1)
    (hlt : num < (k + 1) * den) :
    roundQuotient num den = k + 1 ↔ (2 * k + 1) * den ≤ 2 * num := by
  have hdiv := Nat.div_add_mod num den
  have hmod := Nat.mod_lt num hden
  have hle : num / den ≤ k := Nat.le_of_lt_succ (Nat.div_lt_of_lt_mul (by rwa [Nat.mul_comm]))
  rw [roundQuotient]
  generalize num / den = q at hdiv hle
  generalize num % den = r at hdiv hmod
  subst hdiv
  rcases Nat.lt_or_eq_of_le hle with hlower | rfl
  · -- the quotient does not come near the odd number
    have hfar : den * (q + 1) ≤ den * k := Nat.mul_le_mul_left den hlower
    have hbelow : ¬ (2 * k + 1) * den ≤ 2 * (den * q + r) := by
      rw [Nat.mul_succ] at hfar
      rw [Nat.mul_comm _ den, Nat.mul_succ, Nat.mul_left_comm]
      omega
    refine iff_of_false ?_ hbelow
    split <;> omega
  · have hmiddle : (2 * q + 1) * den ≤ 2 * (den * q + r) ↔ den ≤ 2 * r := by
      rw [Nat.mul_comm _ den, Nat.mul_succ, Nat.mul_left_comm]
      omega
    have hup : (den < 2 * r || (2 * r == den && q % 2 == 1)) = true ↔ den ≤ 2 * r := by
      simp only [hodd, Bool.or_eq_true, Bool.and_eq_true, decide_eq_true_eq, beq_iff_eq, and_true]
      omega
    rw [hmiddle, ← hup]
    split
    next h => exact iff_of_true rfl h
    next h => exact iff_of_false (by omega) h

/-! ### The limit -/

/-- The quotients that are too large for the format begin half a place above its largest value. -/
def overflowLimit : Nat :=
  (2 ^ 54 - 1) * 2 ^ 970

theorem overflowLimit_pos : 0 < overflowLimit := by
  rw [overflowLimit]
  exact Nat.mul_pos (by decide) (by positivity)

/-- A positive quotient is rounded to infinity if its exponent is too large, or becomes so by rounding. -/
theorem quotient?_eq_none_iff_exponentOf (hnum : 0 < num) :
    quotient? num den = none ↔ 971 < exponentOf num den ∨ exponentOf num den = 971 ∧
      roundQuotient (scaled num den (exponentOf num den)).1 (scaled num den (exponentOf num den)).2 =
        2 ^ 53 := by
  rw [quotient?, nearest, if_neg hnum.ne']
  dsimp only [Nat.pow_eq]
  generalize exponentOf num den = e
  generalize roundQuotient (scaled num den e).1 (scaled num den e).2 = m
  by_cases hcarry : m = 2 ^ 53
  · rw [if_pos hcarry]
    dsimp only
    by_cases hlarge : 971 < e + 1
    · rw [if_pos hlarge]
      exact iff_of_true rfl (by omega)
    · rw [if_neg hlarge]
      exact iff_of_false (Option.some_ne_none _) (by omega)
  · rw [if_neg hcarry]
    dsimp only
    by_cases hlarge : 971 < e
    · rw [if_pos hlarge]
      exact iff_of_true rfl (.inl hlarge)
    · rw [if_neg hlarge]
      exact iff_of_false (Option.some_ne_none _) (by omega)

/-- A quotient of natural numbers is too large for the format from the limit on. -/
theorem quotient?_eq_none_iff (hden : 0 < den) :
    quotient? num den = none ↔ overflowLimit * den ≤ num := by
  have hpow : (0 : ℚ) < 2 ^ (970 : Int) := zpow_pos (by norm_num) _
  have hlimit : ((overflowLimit * den : Nat) : ℚ) = (2 ^ 54 - 1) * (den * 2 ^ (970 : Int)) := by
    have hodd : ((2 ^ 54 - 1 : Nat) : ℚ) = 2 ^ 54 - 1 := by norm_num
    rw [overflowLimit, Nat.cast_mul, Nat.cast_mul, natCast_two_pow, hodd, mul_assoc]
    exact congrArg _ (mul_comm _ _)
  by_cases hnum : num = 0
  · subst hnum
    have hpos : 0 < overflowLimit * den := Nat.mul_pos overflowLimit_pos hden
    exact iff_of_false (by simp [quotient?, nearest, zero]) (by omega)
  have hnum : 0 < num := Nat.pos_of_ne_zero hnum
  obtain ⟨hbelow, habove⟩ := exponentOf_bounds hnum hden
  rw [quotient?_eq_none_iff_exponentOf hnum]
  generalize exponentOf num den = e at hbelow habove
  have hunit : (0 : ℚ) < den * 2 ^ (970 : Int) := mul_pos (by exact_mod_cast hden) hpow
  rcases lt_trichotomy e 971 with hsmall | rfl | hlarge
  · -- with a smaller exponent even the largest quotient lies below the limit
    have hmono : (2 : ℚ) ^ e ≤ 2 ^ (970 : Int) := zpow_le_zpow_right₀ (by norm_num) (by omega)
    refine iff_of_false (by omega) (not_le.mpr ?_)
    rw [← Nat.cast_lt (α := ℚ), hlimit]
    calc (num : ℚ) < 2 ^ (53 : Int) * den * 2 ^ e := hbelow
      _ ≤ 2 ^ (53 : Int) * den * 2 ^ (970 : Int) := mul_le_mul_of_nonneg_left hmono (by positivity)
      _ = 2 ^ 53 * (den * 2 ^ (970 : Int)) := by
        rw [mul_assoc]
        norm_num
      _ ≤ (2 ^ 54 - 1) * (den * 2 ^ (970 : Int)) := mul_le_mul_of_nonneg_right (by norm_num) hunit.le
  · -- at the largest exponent the limit is in the middle between the largest value and the next one
    have hscaled : scaled num den 971 = (num, 2 * (2 ^ 970 * den)) := scaled_succ num den 970
    have hlt : (scaled num den 971).1 < (2 ^ 53 - 1 + 1) * (scaled num den 971).2 :=
      (scaled_lt_iff _ _).mpr (by rwa [Nat.sub_add_cancel (by decide), natCast_two_pow])
    have hround := roundQuotient_eq_succ_iff (scaled_snd_pos hden 971) (by decide) hlt
    rw [Nat.sub_add_cancel (by decide), hscaled] at hround
    rw [hscaled, overflowLimit, Nat.mul_assoc, hround]
    generalize 2 ^ 970 * den = unit
    omega
  · -- with a larger one even the smallest quotient lies above it
    have hmono : (2 : ℚ) ^ (972 : Int) ≤ 2 ^ e := zpow_le_zpow_right₀ (by norm_num) (by omega)
    have hstep : (2 : ℚ) ^ (972 : Int) = 2 ^ 2 * 2 ^ (970 : Int) := by
      rw [show (972 : Int) = 2 + 970 from rfl, zpow_add₀ (by norm_num)]
      rfl
    refine iff_of_true (.inl hlarge) ?_
    rw [← Nat.cast_le (α := ℚ), hlimit]
    calc ((2 : ℚ) ^ 54 - 1) * (den * 2 ^ (970 : Int))
        ≤ 2 ^ 54 * (den * 2 ^ (970 : Int)) := mul_le_mul_of_nonneg_right (by norm_num) hunit.le
      _ = 2 ^ (52 : Int) * den * 2 ^ (972 : Int) := by
        rw [hstep]
        generalize (2 : ℚ) ^ (970 : Int) = unit
        norm_num
        ring
      _ ≤ 2 ^ (52 : Int) * den * 2 ^ e := mul_le_mul_of_nonneg_left hmono (by positivity)
      _ ≤ num := habove (by omega)

end Binary64

/-! ### Seconds -/

/-- The least number of nanoseconds that cannot be told in seconds. -/
def secondsLimit : Nat :=
  Binary64.overflowLimit * nanosPerSecond

variable {nanos : Nat}

/-- A number of nanoseconds can be told in seconds below the limit, and not from there on. -/
theorem secondsOf_cases (nanos : Nat) :
    (nanos < secondsLimit ∧ ∃ x, secondsOf nanos = .ok x) ∨
      (secondsLimit ≤ nanos ∧ secondsOf nanos = .error .quotientTooLarge) := by
  have hlimit : Binary64.quotient? nanos nanosPerSecond = none ↔ secondsLimit ≤ nanos :=
    Binary64.quotient?_eq_none_iff (by decide)
  rw [secondsOf]
  cases hquotient : Binary64.quotient? nanos nanosPerSecond with
  | none => exact .inr ⟨hlimit.mp hquotient, rfl⟩
  | some x =>
    refine .inl ⟨Nat.lt_of_not_le fun hle => ?_, x, rfl⟩
    rw [hlimit.mpr hle] at hquotient
    exact absurd hquotient (by simp)

theorem secondsOf_of_le (h : secondsLimit ≤ nanos) : secondsOf nanos = .error .quotientTooLarge := by
  rcases secondsOf_cases nanos with ⟨hlt, -⟩ | ⟨-, herror⟩
  · omega
  · exact herror

end AnalyzerBridge
