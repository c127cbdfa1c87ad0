import Vyasa.Euclid.Division
import Vyasa.IntegerDivision.Lower

/-! The lowered quotient and remainder are the Euclidean ones, unless a cast changes a divisor
that is taken for a power of two. -/
namespace Vyasa.IntegerDivision

open Word Euclid

variable {T W : IntType} {a b q : Int}

/-- A remainder that rounds to zero fits the type of its operands. -/
theorem has_tmod (ha : T.Has a) (hb : T.Has b) (h0 : b ≠ 0) : T.Has (a.tmod b) := by
  cases hSigned : T.signed with
  | false =>
    have hNonneg := ((IntType.has_iff_of_unsigned hSigned).mp ha).1
    rw [Int.tmod_eq_emod_of_nonneg hNonneg]
    exact IntType.has_emod hb h0
  | true =>
    rcases tdiv_tmod_cases a h0 with ⟨-, hEq, -⟩ | ⟨hNeg, hLow, -, -⟩
    · rw [hEq]
      exact IntType.has_emod hb h0
    · have hBounds (x : Int) := IntType.has_iff_of_signed (x := x) hSigned
      rw [hBounds] at hb ⊢
      rcases abs_cases b with h | h
      · omega
      · omega

/-- A sign in all bits. -/
def signMask (x : Int) : Int := if x < 0 then -1 else 0

/-- Where the remainder is negative, the quotient is corrected by one against the sign of the
divisor. -/
theorem correct_quotient (hSigned : W.signed = true) (q r : Int) {b : Int} (h0 : b ≠ 0) :
    W.wrap (W.wrap (W.wrap q - W.and (signMask r) (signMask b)) + W.and (signMask r) (W.not (signMask b))) =
      W.wrap (q - if r < 0 then b.sign else 0) := by
  have hNegOne : W.Has (-1) := by
    have hLarge := (IntType.bounds_of_signed hSigned).2.2
    exact (IntType.has_iff_of_signed hSigned).mpr ⟨by omega, by omega⟩
  have hZero := W.has_zero
  have hAnd (x : Int) : W.and 0 x = 0 := by rw [IntType.and_comm, IntType.and_zero]
  have hWrap (x y : Int) : W.wrap (W.wrap (W.wrap q - x) + y) = W.wrap (q - x + y) :=
    IntType.wrap_eq_wrap (((W.wrap_modEq _).trans ((W.wrap_modEq q).sub_right x)).add_right y)
  rw [hWrap]
  rcases Int.lt_or_le r 0 with hr | hr
  · rcases Int.lt_or_gt_of_ne h0 with hb | hb
    · simp [signMask, hr, hb, IntType.not_neg_one, IntType.and_zero, IntType.and_neg_one hNegOne, Int.sign_eq_neg_one_of_neg]
    · simp [signMask, hr, hb, Int.not_lt.mpr hb.le, IntType.not_zero hSigned, IntType.and_zero,
        IntType.and_neg_one hNegOne, Int.sign_eq_one_of_pos, sub_eq_add_neg]
  · simp [signMask, Int.not_lt.mpr hr, hAnd]

/-- The Euclidean quotient by the one that rounds to zero. -/
theorem tdiv_sub_sign (a : Int) (h0 : b ≠ 0) : a.tdiv b - (if a.tmod b < 0 then b.sign else 0) = a / b := by
  rcases tdiv_tmod_cases a h0 with ⟨hr, -, hq⟩ | ⟨hr, -, -, hq⟩
  · rw [if_neg (Int.not_lt.mpr hr), hq, Int.sub_zero]
  · rw [if_pos hr, hq, Int.add_sub_cancel]

/-- The remainder that the quotient implies. -/
theorem wrap_implied (ha : W.Has (a.tmod b)) : W.wrap (a - W.wrap (W.wrap (a.tdiv b) * b)) = a.tmod b := by
  refine IntType.eq_of_modEq (W.has_wrap _) ha ((W.wrap_modEq _).trans ?_)
  have hStep := ((W.wrap_modEq _).trans ((W.wrap_modEq (a.tdiv b)).mul_right b)).sub_left a
  rwa [Int.mul_comm (a.tdiv b) b, ← Int.tmod_def] at hStep

theorem shr_sign_eq (hSigned : T.signed = true) {x : Int} (hx : T.Has x) : T.shr x (T.bits - 1) = signMask x :=
  IntType.shr_sign hSigned hx

theorem lower_euclidean_div_eq (ha : T.Has a) (hb : T.Has b) (h0 : b ≠ 0) :
    lower_euclidean_div T a b = T.wrap (a / b) := by
  rw [lower_euclidean_div]
  cases hSigned : T.signed with
  | false =>
    have hNonneg := ((IntType.has_iff_of_unsigned hSigned).mp ha).1
    simp [Int.tdiv_eq_ediv_of_nonneg hNonneg]
  | true =>
    have hRest := has_tmod ha hb h0
    simp only [if_true, wrap_implied hRest, shr_sign_eq hSigned hRest, shr_sign_eq hSigned hb]
    rw [correct_quotient hSigned _ _ h0, tdiv_sub_sign a h0]

/-- A wider word has all values of the type. -/
theorem has_int64 (hSigned : T.signed = true) (ha : T.Has a) : IntType.int64.Has a := by
  have hLe := T.le_sixtyFour
  have hPow : (2 : Int) ^ (T.bits - 1) ≤ 2 ^ 63 := pow_le_pow_right₀ (by omega) (by omega)
  rw [IntType.has_iff_of_signed hSigned] at ha
  exact (IntType.has_iff_of_signed rfl).mpr ⟨by simp only [IntType.int64]; omega, by simp only [IntType.int64]; omega⟩

theorem wrap_int64 (T : IntType) (x : Int) : T.wrap (IntType.int64.wrap x) = T.wrap x := by
  have hDvd : (2 : Int) ^ T.bits ∣ 2 ^ IntType.int64.bits := pow_dvd_pow 2 T.le_sixtyFour
  exact IntType.wrap_eq_wrap ((IntType.int64.wrap_modEq x).of_dvd hDvd)

theorem div_imp_eq (ha : T.Has a) (hb : T.Has b) (h0 : b ≠ 0) : div_imp T a b = T.wrap (a / b) := by
  rw [div_imp]
  cases hSigned : T.signed with
  | false => exact if_neg Bool.false_ne_true
  | true =>
    have hRest := has_tmod ha hb h0
    have hShift : IntType.int64.shr (a.tmod b) (T.bits - 1) = signMask (a.tmod b) := shr_sign_eq hSigned hRest
    simp only [if_true, wrap_implied (has_int64 hSigned hRest), hShift, shr_sign_eq hSigned hb]
    rw [correct_quotient rfl _ _ h0, tdiv_sub_sign a h0, wrap_int64]

/-- A remainder that is negative is corrected by the size of the divisor. -/
theorem tmod_add_abs (a : Int) (h0 : b ≠ 0) : a.tmod b + (if a.tmod b < 0 then |b| else 0) = a % b := by
  rcases tdiv_tmod_cases a h0 with ⟨hr, hq, -⟩ | ⟨hr, -, hq, -⟩
  · rw [if_neg (Int.not_lt.mpr hr), hq, Int.add_zero]
  · rw [if_pos hr, hq, Int.sub_add_cancel]

theorem lower_euclidean_mod_eq (ha : T.Has a) (hb : T.Has b) (h0 : b ≠ 0) :
    lower_euclidean_mod T a b = T.wrap (a % b) := by
  have hRest := has_tmod ha hb h0
  rw [lower_euclidean_mod, IntType.wrap_of_has hRest]
  cases hSigned : T.signed with
  | false =>
    have hNonneg := ((IntType.has_iff_of_unsigned hSigned).mp ha).1
    have hEq := Int.tmod_eq_emod_of_nonneg (b := b) hNonneg
    rw [if_neg Bool.false_ne_true, IntType.wrap_of_has (hEq ▸ hRest), hEq]
  | true =>
    rw [← tmod_add_abs a h0, if_pos rfl]
    simp only [shr_sign_eq hSigned hRest]
    refine IntType.wrap_eq_wrap (Int.ModEq.add_left _ ?_)
    rw [IntType.and_comm, signMask]
    split_ifs
    · rw [IntType.and_neg_one (T.has_wrap _)]
      exact T.wrap_modEq _
    · rw [IntType.and_zero]

theorem mod_imp_eq (ha : T.Has a) (hb : T.Has b) (h0 : b ≠ 0) : mod_imp T a b = T.wrap (a % b) := by
  rw [mod_imp, IntType.wrap_of_has (has_tmod ha hb h0)]
  cases hSigned : T.signed with
  | false => exact if_neg Bool.false_ne_true
  | true =>
    rw [← tmod_add_abs a h0, if_pos rfl]
    refine IntType.wrap_eq_wrap (Int.ModEq.add_left _ ?_)
    split_ifs
    · rw [wrap_int64]
      exact T.wrap_modEq _
    · rfl

/-- Quotient and remainder of an operation that divides, both lowered. -/
def LowersExactly (T : IntType) (a : Int) (b : Expr) : Prop :=
  lower_int_uint_div T a b = some (div_imp T a b.eval) ∧ lower_int_uint_mod T a b = some (mod_imp T a b.eval)

section PowerOfTwo

variable {e : Expr} {k : ℕ} (he : T.Has e.eval) (hPower : is_const_power_of_two_integer e = some k)
include he hPower

/-- A divisor that is the power of two that it is taken for. -/
theorem lowers_of_power (ha : T.Has a) (hEq : e.eval = 2 ^ k) : LowersExactly T a e := by
  have hPos : (0 : Int) < 2 ^ k := by positivity
  have h0 : e.eval ≠ 0 := by
    rw [hEq]
    exact hPos.ne'
  refine ⟨?_, ?_⟩
  · rw [lower_int_uint_div, hPower, div_imp_eq ha he h0, hEq, IntType.wrap_of_has (IntType.has_ediv ha hPos)]
    rfl
  · have hk : k ≤ T.bits := by
      have hLt : (2 : Int) ^ k < 2 ^ T.bits := by
        have hMax := he.2
        rw [hEq] at hMax
        have hPow := T.two_pow
        rw [IntType.max] at hMax
        split_ifs at hMax <;> omega
      exact Nat.le_of_lt ((pow_lt_pow_iff_right₀ (by omega)).mp hLt)
    rw [lower_int_uint_mod, hPower, mod_imp_eq ha he h0, hEq]
    exact congrArg some ((T.and_wrap a _).trans (T.and_low a hk))

/-- Another value of the divisor is not what the shift divides by. -/
theorem not_lowers_of_power (h0 : e.eval ≠ 0) (hNe : e.eval ≠ 2 ^ k) :
    ∃ a, T.Has a ∧ T.Has (a / e.eval) ∧ ¬ LowersExactly T a e := by
  have hPos : (0 : Int) < 2 ^ k := by positivity
  -- It is enough that the shift gives another quotient.
  have hShift {a : Int} (ha : T.Has a) (hQuot : T.Has (a / e.eval)) (hOther : a / 2 ^ k ≠ a / e.eval) :
      ∃ a, T.Has a ∧ T.Has (a / e.eval) ∧ ¬ LowersExactly T a e := by
    refine ⟨a, ha, hQuot, fun h => hOther ?_⟩
    have hDiv := h.1
    rw [lower_int_uint_div, hPower, div_imp_eq ha he h0, IntType.wrap_of_has hQuot] at hDiv
    exact Option.some.inj hDiv
  rcases Int.lt_or_gt_of_ne h0 with hNeg | hPosDivisor
  · have hSigned : T.signed = true := by
      by_contra hUnsigned
      have hLow := ((IntType.has_iff_of_unsigned (Bool.eq_false_iff.mpr hUnsigned)).mp he).1
      omega
    have hNegOne : T.Has (-1) := by
      have hLarge := (IntType.bounds_of_signed hSigned).2.2
      exact (IntType.has_iff_of_signed hSigned).mpr ⟨by omega, by omega⟩
    have hQuot : -1 / e.eval = 1 := by
      rw [← neg_neg (-1 / e.eval), ← Int.ediv_neg, Int.ediv_eq_neg_one_of_neg_of_le (by omega) (by omega)]
      rfl
    have hFloor : -1 / (2 : Int) ^ k = -1 := Int.ediv_eq_neg_one_of_neg_of_le (by omega) (by omega)
    exact hShift hNegOne (by rw [hQuot]; exact T.has_one) (by rw [hQuot, hFloor]; decide)
  · rcases Int.lt_or_gt_of_ne hNe with hLess | hGreater
    · have hSelf := Int.ediv_self h0
      refine hShift he (hSelf ▸ T.has_one) ?_
      rw [hSelf, Int.ediv_eq_zero_of_lt hPosDivisor.le hLess]
      exact Int.zero_ne_one
    · have hHas : T.Has (2 ^ k) := ⟨T.min_le_max.1.trans hPos.le, hGreater.le.trans he.2⟩
      have hZero := Int.ediv_eq_zero_of_lt hPos.le hGreater
      refine hShift hHas (hZero ▸ T.has_zero) ?_
      rw [hZero, Int.ediv_self hPos.ne']
      exact Int.one_ne_zero

end PowerOfTwo

section Tables

/-- A row by which unsigned numerators are divided. -/
def Row.Divides (r : Row) (b d : ℕ) : Prop :=
  r.method = 1 ∧ r.Multiplies b (2 ^ b - 1) d ∨ r.method = 2 ∧ r.Averages b (2 ^ b - 1) d

instance (r : Row) (b d : ℕ) : Decidable (r.Divides b d) := inferInstanceAs (Decidable (_ ∨ _))

theorem table_divides : ∀ d < 256, 2 ≤ d → d &&& (d - 1) ≠ 0 →
    (table_u8.getD d default).Divides 8 d ∧ (table_u16.getD d default).Divides 16 d ∧
      (table_u32.getD d default).Divides 32 d := by
  intro d hd hTwo hBit
  refine ⟨?_, ?_, ?_⟩
  · exact row_of_zipIdx (P := fun r d => 2 ≤ d → d &&& (d - 1) ≠ 0 → r.Divides 8 d)
      (by decide +kernel) (by decide +kernel) hd hTwo hBit
  · exact row_of_zipIdx (P := fun r d => 2 ≤ d → d &&& (d - 1) ≠ 0 → r.Divides 16 d)
      (by decide +kernel) (by decide +kernel) hd hTwo hBit
  · exact row_of_zipIdx (P := fun r d => 2 ≤ d → d &&& (d - 1) ≠ 0 → r.Divides 32 d)
      (by decide +kernel) (by decide +kernel) hd hTwo hBit

theorem table_multiplies : ∀ d < 256, 2 ≤ d → d &&& (d - 1) ≠ 0 →
    (d < 128 → (table_s8.getD d default).Multiplies 8 (2 ^ 7 - 1) d) ∧
      (table_s16.getD d default).Multiplies 16 (2 ^ 15 - 1) d ∧
      (table_s32.getD d default).Multiplies 32 (2 ^ 31 - 1) d := by
  intro d hd hTwo hBit
  refine ⟨?_, ?_, ?_⟩
  · exact row_of_zipIdx (P := fun r d => 2 ≤ d → d &&& (d - 1) ≠ 0 → d < 128 → r.Multiplies 8 (2 ^ 7 - 1) d)
      (by decide +kernel) (by decide +kernel) hd hTwo hBit
  · exact row_of_zipIdx (P := fun r d => 2 ≤ d → d &&& (d - 1) ≠ 0 → r.Multiplies 16 (2 ^ 15 - 1) d)
      (by decide +kernel) (by decide +kernel) hd hTwo hBit
  · exact row_of_zipIdx (P := fun r d => 2 ≤ d → d &&& (d - 1) ≠ 0 → r.Multiplies 32 (2 ^ 31 - 1) d)
      (by decide +kernel) (by decide +kernel) hd hTwo hBit

variable {r : Row} {d : ℕ}

theorem mulhi_shr_eq {n N m s : ℕ} (hReciprocal : Reciprocal N d m (T.bits + s)) (hd : 0 < d) (hn : n ≤ N)
    (hHas : T.Has n) : mulhi_shr T n m s = (n : Int) / d := by
  have hQuot : (n : Int) * m / 2 ^ (T.bits + s) = (n : Int) / d := by
    exact_mod_cast hReciprocal.mul_div hd hn
  rw [mulhi_shr, hQuot]
  exact IntType.wrap_of_has (IntType.has_ediv hHas (by omega))

/-- Signed numerators are divided with their sign taken off. -/
theorem divide_int_by_table_eq (hSigned : T.signed = true) (ha : T.Has a) (hd : 0 < d)
    (hRow : r.Multiplies T.bits (2 ^ (T.bits - 1) - 1) d) : divide_int_by_table T a r = a / d := by
  obtain ⟨hMul, -, hReciprocal⟩ := hRow
  have hBounds := (IntType.has_iff_of_signed hSigned).mp ha
  have hUnsigned (x : Int) := IntType.has_iff_of_unsigned (T := T.unsigned) (x := x) rfl
  have hPow : (2 : Int) ^ T.unsigned.bits = 2 * 2 ^ (T.bits - 1) := T.two_pow
  have hHas := IntType.has_ediv (T := T) (y := d) ha (by omega)
  have hHalf : ((2 ^ (T.bits - 1) - 1 : ℕ) : Int) = 2 ^ (T.bits - 1) - 1 := by
    have := Nat.two_pow_pos (T.bits - 1)
    push_cast [this]
    rfl
  have hQuot {x : Int} (hx : 0 ≤ x) (hx' : x ≤ 2 ^ (T.bits - 1) - 1) :
      mulhi_shr T.unsigned x r.multiplier r.shift = x / d := by
    lift x to ℕ using hx
    refine mulhi_shr_eq (T := T.unsigned) hReciprocal hd ?_ ((hUnsigned _).mpr ⟨Int.natCast_nonneg x, by omega⟩)
    omega
  rw [divide_int_by_table]
  simp only [IntType.wrap_unsigned_of_lt hMul, IntType.xor_wrap_left, IntType.xor_wrap_right, shr_sign_eq hSigned ha]
  rcases Int.lt_or_le a 0 with hNeg | hNonneg
  · have hFlip : T.unsigned.xor a (-1) = -1 - a := by
      rw [IntType.xor_neg_one, IntType.wrap_of_has ((hUnsigned _).mpr ⟨by omega, by omega⟩)]
    rw [signMask, if_pos hNeg, hFlip, hQuot (by omega) (by omega), IntType.xor_neg_one, IntType.wrap_unsigned,
      flip_div (by omega), IntType.wrap_of_has hHas]
  · have hSame : T.unsigned.xor a 0 = a := by
      rw [IntType.xor_zero_eq, IntType.wrap_of_has ((hUnsigned _).mpr ⟨hNonneg, by omega⟩)]
    rw [signMask, if_neg (Int.not_lt.mpr hNonneg), hSame, hQuot hNonneg hBounds.2, IntType.xor_zero_eq,
      IntType.wrap_unsigned, IntType.wrap_of_has hHas]

theorem divide_uint_by_table_eq (hSigned : T.signed = false) (ha : T.Has a) (hd : 0 < d)
    (hRow : r.Divides T.bits d) : divide_uint_by_table T a r = some (a / d) := by
  have hBounds (x : Int) := IntType.has_iff_of_unsigned (x := x) hSigned
  obtain ⟨hNonneg, hMax⟩ := (hBounds a).mp ha
  have hMul : T.wrap r.multiplier = r.multiplier := by
    have hLt : r.multiplier < 2 ^ T.bits := hRow.elim (fun h => h.2.1) fun h => h.2.1
    have hCast : ((r.multiplier : ℕ) : Int) < 2 ^ T.bits := by exact_mod_cast hLt
    exact IntType.wrap_of_has ((hBounds _).mpr ⟨Int.natCast_nonneg _, by omega⟩)
  lift a to ℕ using hNonneg
  have hLast : a ≤ 2 ^ T.bits - 1 := by
    have hCast : ((a : ℕ) : Int) < ((2 ^ T.bits : ℕ) : Int) := by
      push_cast
      omega
    have := Int.ofNat_lt.mp hCast
    omega
  rw [divide_uint_by_table, hMul]
  rcases hRow with ⟨hMethod, hRow⟩ | ⟨hMethod, hRow⟩
  · simp only [hMethod, Nat.one_ne_zero, if_false, if_true, OfNat.one_ne_ofNat]
    rw [mulhi_shr_eq hRow.2.2 hd hLast ha]
  · have hSmall {x : ℕ} (hx : x ≤ a) : T.wrap (x : Int) = x :=
      IntType.wrap_of_has ((hBounds _).mpr ⟨Int.natCast_nonneg x, by omega⟩)
    have hHigh : r.multiplier * a / 2 ^ T.bits ≤ a := by
      refine Nat.div_le_of_le_mul ?_
      exact Nat.mul_le_mul_right a hRow.1.le
    have hVal : mulhi_shr T a r.multiplier 0 = ((r.multiplier * a / 2 ^ T.bits : ℕ) : Int) := by
      rw [mulhi_shr, Nat.add_zero, Int.mul_comm]
      exact_mod_cast hSmall hHigh
    have hAverage : sorted_avg T ((r.multiplier * a / 2 ^ T.bits : ℕ) : Int) a =
        (((r.multiplier * a / 2 ^ T.bits + a) / 2 : ℕ) : Int) := by
      rw [sorted_avg]
      exact_mod_cast hSmall (x := (r.multiplier * a / 2 ^ T.bits + a) / 2) (by omega)
    have hShift : (((r.multiplier * a / 2 ^ T.bits + a) / 2 : ℕ) : Int) / 2 ^ r.shift = (a : Int) / d := by
      exact_mod_cast hRow.2.2.average_shift hd hLast
    have hFinal {x : Int} (hx : x / 2 ^ r.shift = (a : Int) / d) :
        (if r.shift ≠ 0 then T.shr x r.shift else x) = (a : Int) / d := by
      split_ifs with hZero
      · exact hx
      · rwa [not_not.mp hZero, pow_zero, Int.ediv_one] at hx
    simp only [hMethod, OfNat.ofNat_ne_zero, OfNat.ofNat_ne_one, if_false, if_true]
    rw [hVal, hAverage, hFinal hShift]

end Tables

section Constants

variable {e : Expr} {c : Int}

theorem Expr.has_eval (h : e.WellFormed) : e.type.Has e.eval := by
  induction e with
  | IntImm => exact h.2
  | UIntImm => exact h.2
  | Broadcast _ ih => exact ih h
  | Cast T _ => exact T.has_wrap _
  | other => exact h

theorem as_const_int_eq (h : as_const_int e = some c) :
    e.eval = c ∧ is_const_power_of_two_integer e = if c < 0 then none else only_bit c.toNat := by
  induction e with
  | IntImm =>
    obtain rfl := Option.some.inj h
    exact ⟨rfl, rfl⟩
  | UIntImm => cases h
  | Broadcast _ ih => exact ih h
  | Cast => cases h
  | other => cases h

theorem as_const_uint_eq (h : as_const_uint e = some c) :
    e.eval = c ∧ is_const_power_of_two_integer e = only_bit c.toNat := by
  induction e with
  | IntImm => cases h
  | UIntImm =>
    obtain rfl := Option.some.inj h
    exact ⟨rfl, rfl⟩
  | Broadcast _ ih => exact ih h
  | Cast => cases h
  | other => cases h

theorem and_pred_ne_zero {v : ℕ} (h : only_bit v = none) (h0 : v ≠ 0) : v &&& (v - 1) ≠ 0 := by
  intro hZero
  rw [only_bit, if_pos ⟨h0, hZero⟩] at h
  cases h

/-- The row of a constant that is no power of two divides. -/
theorem small_int_divisor_row (h : small_int_divisor T e = some c)
    (hPower : is_const_power_of_two_integer e = none) : T.signed = true ∧ e.eval = c ∧ 1 < c ∧
      ((const_table T).getD c.toNat default).Multiplies T.bits (2 ^ (T.bits - 1) - 1) c.toNat := by
  obtain ⟨hConst, hSmall⟩ := Option.filter_eq_some_iff.mp h
  simp only [Bool.and_eq_true, decide_eq_true_eq] at hSmall
  obtain ⟨⟨⟨hSigned, hBits⟩, hLarge⟩, hRange⟩ := hSmall
  obtain ⟨hEval, hEq⟩ := as_const_int_eq hConst
  rw [hEq, if_neg (by omega)] at hPower
  obtain ⟨h8, h16, h32⟩ := table_multiplies c.toNat (by omega) (by omega) (and_pred_ne_zero hPower (by omega))
  refine ⟨hSigned, hEval, hLarge, ?_⟩
  rw [const_table, hSigned]
  rcases hBits with hBits | hBits | hBits
  · simpa [hBits] using h8 (by omega)
  · simpa [hBits] using h16
  · simpa [hBits] using h32

theorem small_uint_divisor_row (h : small_uint_divisor T e = some c)
    (hPower : is_const_power_of_two_integer e = none) : T.signed = false ∧ e.eval = c ∧ 1 < c ∧
      ((const_table T).getD c.toNat default).Divides T.bits c.toNat := by
  obtain ⟨hConst, hSmall⟩ := Option.filter_eq_some_iff.mp h
  simp only [Bool.and_eq_true, decide_eq_true_eq, Bool.not_eq_true'] at hSmall
  obtain ⟨⟨⟨hSigned, hBits⟩, hLarge⟩, hRange⟩ := hSmall
  obtain ⟨hEval, hEq⟩ := as_const_uint_eq hConst
  rw [hEq] at hPower
  obtain ⟨h8, h16, h32⟩ := table_divides c.toNat (by omega) (by omega) (and_pred_ne_zero hPower (by omega))
  refine ⟨hSigned, hEval, hLarge, ?_⟩
  rw [const_table, hSigned]
  rcases hBits with hBits | hBits | hBits
  · simpa [hBits] using h8
  · simpa [hBits] using h16
  · simpa [hBits] using h32

/-- A quotient by a row gives the remainder as well. -/
theorem lowers_of_row (ha : T.Has a) (he : T.Has e.eval) (h0 : 0 < e.eval)
    (hPower : is_const_power_of_two_integer e = none)
    (hSmall : (small_int_divisor T e).isSome ∨ (small_uint_divisor T e).isSome)
    (hDiv : lower_int_uint_div T a e = some (a / e.eval)) : LowersExactly T a e := by
  refine ⟨?_, ?_⟩
  · rw [hDiv, div_imp_eq ha he h0.ne', IntType.wrap_of_has (IntType.has_ediv ha h0)]
  · rw [lower_int_uint_mod, hPower, if_pos hSmall, hDiv, mod_imp_eq ha he h0.ne', Option.map_some, wrap_remainder]

theorem lowers_of_not_power (ha : T.Has a) (he : T.Has e.eval) (h0 : e.eval ≠ 0)
    (hPower : is_const_power_of_two_integer e = none) : LowersExactly T a e := by
  cases hInt : small_int_divisor T e with
  | some c =>
    obtain ⟨hSigned, hEval, hLarge, hRow⟩ := small_int_divisor_row hInt hPower
    refine lowers_of_row ha he (by omega) hPower (by simp [hInt]) ?_
    rw [lower_int_uint_div, hPower, hInt]
    simp only
    rw [divide_int_by_table_eq hSigned ha (by omega) hRow, hEval, Int.toNat_of_nonneg (by omega)]
  | none =>
    cases hUInt : small_uint_divisor T e with
    | some c =>
      obtain ⟨hSigned, hEval, hLarge, hRow⟩ := small_uint_divisor_row hUInt hPower
      refine lowers_of_row ha he (by omega) hPower (by simp [hUInt]) ?_
      rw [lower_int_uint_div, hPower, hInt, hUInt]
      simp only
      rw [divide_uint_by_table_eq hSigned ha (by omega) hRow, hEval, Int.toNat_of_nonneg (by omega)]
    | none =>
      refine ⟨?_, ?_⟩
      · rw [lower_int_uint_div, hPower, hInt, hUInt, div_imp_eq ha he h0]
        simp only [lower_euclidean_div_eq ha he h0]
      · rw [lower_int_uint_mod, hPower, hInt, hUInt, mod_imp_eq ha he h0]
        simp [lower_euclidean_mod_eq ha he h0]

end Constants

/-- Quotients and remainders by a divisor are lowered to the Euclidean ones unless the divisor is
taken for a power of two that it is not. -/
theorem lowers_exactly_iff {e : Expr} (he : e.WellFormed) (h0 : e.eval ≠ 0) :
    (∀ a, e.type.Has a → e.type.Has (a / e.eval) → LowersExactly e.type a e) ↔
      ∀ k, is_const_power_of_two_integer e = some k → e.eval = 2 ^ k := by
  have hEval := Expr.has_eval he
  constructor
  · intro h k hPower
    by_contra hNe
    obtain ⟨a, ha, hQuot, hNot⟩ := not_lowers_of_power hEval hPower h0 hNe
    exact hNot (h a ha hQuot)
  · intro h a ha _
    cases hPower : is_const_power_of_two_integer e with
    | some k => exact lowers_of_power hEval hPower ha (h k hPower)
    | none => exact lowers_of_not_power ha hEval h0 hPower

/-- Division of -15 by seven, in 32 bits. -/
theorem lowers_exactly_iff_seven : LowersExactly .int32 (-15) (.IntImm .int32 7) :=
  (lowers_exactly_iff (e := .IntImm .int32 7) ⟨rfl, by decide⟩ (by decide)).mpr
    (fun k h => absurd h (by simp [is_const_power_of_two_integer, only_bit])) (-15) (by decide) (by decide)

/-- A literal 128 that is cast to eight bits has the value -128, and is taken for 2 to the 7. -/
theorem lower_cast_power :
    lower_int_uint_div .int8 (-1) (.Cast .int8 (.IntImm .int32 128)) = some (-1) ∧
      div_imp .int8 (-1) (Expr.Cast .int8 (.IntImm .int32 128)).eval = 1 ∧
      ¬ LowersExactly .int8 (-1) (.Cast .int8 (.IntImm .int32 128)) := by
  have hLowered : lower_int_uint_div .int8 (-1) (.Cast .int8 (.IntImm .int32 128)) = some (-1) := by
    decide +kernel
  have hRight : div_imp .int8 (-1) (Expr.Cast .int8 (.IntImm .int32 128)).eval = 1 := by decide +kernel
  refine ⟨hLowered, hRight, fun h => ?_⟩
  have hDiv := h.1
  rw [hLowered, hRight] at hDiv
  exact absurd hDiv (by decide)

end Vyasa.IntegerDivision
