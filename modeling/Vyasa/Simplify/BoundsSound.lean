import Vyasa.Simplify.Bounds
import Vyasa.Euclid.Division

/-! When the bounds and the alignment computed from those of two operands hold of
the result of the operation. -/
namespace Vyasa.ExprInfo

open Word Euclid

/-- The bounds hold, whatever the alignment. -/
def Within (info : ExprInfo) (z : Int) : Prop :=
  (info.minDefined = true → info.min.toInt ≤ z) ∧ (info.maxDefined = true → z ≤ info.max.toInt)

/-- The information holds, and its alignment is a normalised pair. -/
def Sound (info : ExprInfo) (z : Int) : Prop := info.Holds z ∧ info.alignment.Normalised

theorem Sound.within {info : ExprInfo} {z : Int} (h : info.Sound z) : info.Within z :=
  ⟨h.1.1, h.1.2.1⟩

theorem Sound.mem {info : ExprInfo} {z : Int} (h : info.Sound z) : z ∈ info.alignment := h.1.2.2

theorem sound_constant (v : Int64) : (constant v).Sound v.toInt :=
  ⟨⟨fun _ => le_rfl, fun _ => le_rfl, 0, by simp [constant]⟩,
    ModulusRemainder.normalised_constant v⟩

section Operations

variable {a b info : ExprInfo} {x y : Int}

theorem toInt_min (v w : Int64) : (Min.min v w).toInt = Min.min v.toInt w.toInt := by
  change (if v ≤ w then v else w).toInt = _
  simp only [Int64.le_iff_toInt_le]
  split_ifs <;> omega

theorem toInt_max (v w : Int64) : (Max.max v w).toInt = Max.max v.toInt w.toInt := by
  change (if v ≤ w then w else v).toInt = _
  simp only [Int64.le_iff_toInt_le]
  split_ifs <;> omega

theorem positive_iff : a.positive = true ↔ a.minDefined = true ∧ 0 < a.min.toInt := by
  simp [positive, zero_lt_iff_toInt]

theorem negative_iff : a.negative = true ↔ a.maxDefined = true ∧ a.max.toInt < 0 := by
  simp [negative, lt_zero_iff_toInt]

theorem bounded_iff : a.bounded = true ↔ a.minDefined = true ∧ a.maxDefined = true := by
  simp [bounded]

/-- A corner that is computed is the quotient of two bounds. -/
theorem divCorner_eq {aDefined bDefined : Bool} {v w : Int64} {corner : List Int64}
    (h : divCorner aDefined bDefined v w = some corner) (ha : aDefined = true)
    (hb : bDefined = true) (hw : w.toInt ≠ 0) :
    ∃ q, q ∈ corner ∧ q.toInt = v.toInt / w.toInt := by
  have hw0 : w ≠ 0 := by
    rintro rfl
    exact hw rfl
  simp only [divCorner, ha, hb, hw0, ne_eq, not_false_eq_true, decide_true, Bool.and_self,
    ↓reduceIte, Option.bind_eq_bind, Option.bind_eq_some_iff, Option.pure_def,
    Option.some.injEq] at h
  obtain ⟨q, hq, rfl⟩ := h
  have hTraps : ¬ Traps v w := by
    intro hTraps
    rw [ModulusRemainder.divImp_of_traps hTraps] at hq
    cases hq
  obtain ⟨q', hq', hEq⟩ := divImp_eq hw0 hTraps
  rw [hq] at hq'
  cases hq'
  exact ⟨q, List.mem_singleton_self q, hEq⟩

/-- Which corners are among those enumerated. -/
structure HasCorners (a b : ExprInfo) (corners : List Int64) : Prop where
  minMin : a.minDefined = true → b.minDefined = true → b.min.toInt ≠ 0 →
    ∃ q ∈ corners, q.toInt = a.min.toInt / b.min.toInt
  minMax : a.minDefined = true → b.maxDefined = true → b.max.toInt ≠ 0 →
    ∃ q ∈ corners, q.toInt = a.min.toInt / b.max.toInt
  maxMax : a.maxDefined = true → b.maxDefined = true → b.max.toInt ≠ 0 →
    ∃ q ∈ corners, q.toInt = a.max.toInt / b.max.toInt
  maxMin : a.maxDefined = true → b.minDefined = true → b.min.toInt ≠ 0 →
    ∃ q ∈ corners, q.toInt = a.max.toInt / b.min.toInt
  limit : (b.positive && !b.maxDefined || b.negative && !b.minDefined) = true →
    ∃ q ∈ corners, q.toInt = 0

theorem hasCorners {corners : List Int64} (h : divCorners a b = some corners) :
    HasCorners a b corners := by
  simp only [divCorners, Option.bind_eq_bind, Option.bind_eq_some_iff, Option.pure_def,
    Option.some.injEq] at h
  obtain ⟨v1, h1, v2, h2, v3, h3, v4, h4, rfl⟩ := h
  constructor
  · intro ha hb h0
    obtain ⟨q, hq, hEq⟩ := divCorner_eq h1 ha hb h0
    exact ⟨q, by simp [hq], hEq⟩
  · intro ha hb h0
    obtain ⟨q, hq, hEq⟩ := divCorner_eq h2 ha hb h0
    exact ⟨q, by simp [hq], hEq⟩
  · intro ha hb h0
    obtain ⟨q, hq, hEq⟩ := divCorner_eq h3 ha hb h0
    exact ⟨q, by simp [hq], hEq⟩
  · intro ha hb h0
    obtain ⟨q, hq, hEq⟩ := divCorner_eq h4 ha hb h0
    exact ⟨q, by simp [hq], hEq⟩
  · intro hLimit
    rw [if_pos hLimit]
    exact ⟨0, by simp, toInt_zero⟩

/-- The corners of a quotient by a positive divisor. -/
theorem HasCorners.positive {corners : List Int64} (h : HasCorners a b corners)
    (hPos : b.positive = true) (ha : a.Within x) (hb : b.Within y) :
    (a.minDefined = true → ∃ q ∈ corners, q.toInt ≤ x / y) ∧
      (a.maxDefined = true → ∃ q ∈ corners, x / y ≤ q.toInt) := by
  obtain ⟨hDef, hMin⟩ := positive_iff.mp hPos
  have hy := hb.1 hDef
  constructor
  · intro hDa
    obtain ⟨hNeg, hNonneg⟩ := lower_corner (ha.1 hDa) hMin hy
    rcases le_total a.min.toInt 0 with hSign | hSign
    · obtain ⟨q, hq, hEq⟩ := h.minMin hDa hDef hMin.ne'
      exact ⟨q, hq, hEq ▸ hNeg hSign⟩
    · cases hMax : b.maxDefined with
      | true =>
          have hyMax := hb.2 hMax
          obtain ⟨q, hq, hEq⟩ := h.minMax hDa hMax (by omega)
          exact ⟨q, hq, hEq ▸ (hNonneg hSign).2 _ hyMax⟩
      | false =>
          obtain ⟨q, hq, hEq⟩ := h.limit (by simp [hPos, hMax])
          exact ⟨q, hq, hEq ▸ (hNonneg hSign).1⟩
  · intro hDa
    obtain ⟨hNonneg, hNeg⟩ := upper_corner (ha.2 hDa) hMin hy
    rcases le_total 0 a.max.toInt with hSign | hSign
    · obtain ⟨q, hq, hEq⟩ := h.maxMin hDa hDef hMin.ne'
      exact ⟨q, hq, hEq ▸ hNonneg hSign⟩
    · cases hMax : b.maxDefined with
      | true =>
          have hyMax := hb.2 hMax
          obtain ⟨q, hq, hEq⟩ := h.maxMax hDa hMax (by omega)
          exact ⟨q, hq, hEq ▸ (hNeg hSign).2 _ hyMax⟩
      | false =>
          obtain ⟨q, hq, hEq⟩ := h.limit (by simp [hPos, hMax])
          exact ⟨q, hq, hEq ▸ (hNeg hSign).1⟩

/-- The corners of a quotient by a negative divisor: those by its opposite, with
the opposite sign. -/
theorem HasCorners.negative {corners : List Int64} (h : HasCorners a b corners)
    (hNegative : b.negative = true) (ha : a.Within x) (hb : b.Within y) :
    (a.maxDefined = true → ∃ q ∈ corners, q.toInt ≤ x / y) ∧
      (a.minDefined = true → ∃ q ∈ corners, x / y ≤ q.toInt) := by
  obtain ⟨hDef, hMax⟩ := negative_iff.mp hNegative
  have hy := hb.2 hDef
  constructor
  · intro hDa
    obtain ⟨hNonneg, hNeg⟩ := upper_corner (c := -b.max.toInt) (y := -y) (ha.2 hDa) (by omega)
      (by omega)
    simp only [Int.ediv_neg, neg_le_neg_iff, Left.neg_nonpos_iff] at hNonneg hNeg
    rcases le_total 0 a.max.toInt with hSign | hSign
    · obtain ⟨q, hq, hEq⟩ := h.maxMax hDa hDef hMax.ne
      exact ⟨q, hq, hEq ▸ hNonneg hSign⟩
    · cases hMin : b.minDefined with
      | true =>
          have hyMin := hb.1 hMin
          obtain ⟨q, hq, hEq⟩ := h.maxMin hDa hMin (by omega)
          have hLe := (hNeg hSign).2 (-b.min.toInt) (by omega)
          rw [Int.ediv_neg, neg_le_neg_iff] at hLe
          exact ⟨q, hq, hEq ▸ hLe⟩
      | false =>
          obtain ⟨q, hq, hEq⟩ := h.limit (by simp [hNegative, hMin])
          exact ⟨q, hq, hEq ▸ (hNeg hSign).1⟩
  · intro hDa
    obtain ⟨hNeg, hNonneg⟩ := lower_corner (c := -b.max.toInt) (y := -y) (ha.1 hDa) (by omega)
      (by omega)
    simp only [Int.ediv_neg, neg_le_neg_iff, Left.nonneg_neg_iff] at hNonneg hNeg
    rcases le_total a.min.toInt 0 with hSign | hSign
    · obtain ⟨q, hq, hEq⟩ := h.minMax hDa hDef hMax.ne
      exact ⟨q, hq, hEq ▸ hNeg hSign⟩
    · cases hMin : b.minDefined with
      | true =>
          have hyMin := hb.1 hMin
          obtain ⟨q, hq, hEq⟩ := h.minMin hDa hMin (by omega)
          have hLe := (hNonneg hSign).2 (-b.min.toInt) (by omega)
          rw [Int.ediv_neg, neg_le_neg_iff] at hLe
          exact ⟨q, hq, hEq ▸ hLe⟩
      | false =>
          obtain ⟨q, hq, hEq⟩ := h.limit (by simp [hNegative, hMin])
          exact ⟨q, hq, hEq ▸ (hNonneg hSign).1⟩

theorem foldl_min_le (l : List Int64) (init : Int64) :
    (l.foldl Min.min init).toInt ≤ init.toInt ∧ ∀ v ∈ l, (l.foldl Min.min init).toInt ≤ v.toInt := by
  induction l generalizing init with
  | nil => exact ⟨le_rfl, nofun⟩
  | cons w l ih =>
      obtain ⟨hInit, hRest⟩ := ih (Min.min init w)
      rw [toInt_min] at hInit
      refine ⟨by rw [List.foldl_cons]; omega, ?_⟩
      rintro v (_ | ⟨_, hv⟩)
      · rw [List.foldl_cons]
        omega
      · exact hRest v hv

theorem le_foldl_max (l : List Int64) (init : Int64) :
    init.toInt ≤ (l.foldl Max.max init).toInt ∧ ∀ v ∈ l, v.toInt ≤ (l.foldl Max.max init).toInt := by
  induction l generalizing init with
  | nil => exact ⟨le_rfl, nofun⟩
  | cons w l ih =>
      obtain ⟨hInit, hRest⟩ := ih (Max.max init w)
      rw [toInt_max] at hInit
      refine ⟨by rw [List.foldl_cons]; omega, ?_⟩
      rintro v (_ | ⟨_, hv⟩)
      · rw [List.foldl_cons]
        omega
      · exact hRest v hv

theorem divInterval_within {bounds interval : ExprInfo}
    (h : divInterval bounds a b = some interval) (ha : a.Within x) (hb : b.Within y) :
    interval.Within (x / y) := by
  simp only [divInterval, Option.bind_eq_bind, Option.bind_eq_some_iff, Option.pure_def,
    Option.some.injEq] at h
  obtain ⟨corners, hCorners, rfl⟩ := h
  have hHas := hasCorners hCorners
  constructor
  · intro hDef
    have hCorner : ∃ q ∈ corners, q.toInt ≤ x / y := by
      simp only [Bool.or_eq_true, Bool.and_eq_true] at hDef
      rcases hDef with ⟨hDa, hPos⟩ | ⟨hDa, hNeg⟩
      · exact (hHas.positive hPos ha hb).1 hDa
      · exact (hHas.negative hNeg ha hb).1 hDa
    obtain ⟨q, hq, hLe⟩ := hCorner
    exact ((foldl_min_le corners _).2 q hq).trans hLe
  · intro hDef
    have hCorner : ∃ q ∈ corners, x / y ≤ q.toInt := by
      simp only [Bool.or_eq_true, Bool.and_eq_true] at hDef
      rcases hDef with ⟨hDa, hPos⟩ | ⟨hDa, hNeg⟩
      · exact (hHas.positive hPos ha hb).2 hDa
      · exact (hHas.negative hNeg ha hb).2 hDa
    obtain ⟨q, hq, hLe⟩ := hCorner
    exact hLe.trans ((le_foldl_max corners _).2 q hq)

/-- A quotient whose bounds collapse is the constant they collapse to. -/
theorem eq_of_isConstant {z : Int} (hConstant : info.isConstant = true) (h : info.Within z) :
    z = info.min.toInt := by
  simp only [isConstant, Bool.and_eq_true, decide_eq_true_eq] at hConstant
  obtain ⟨⟨hMin, hMax⟩, hSame⟩ := hConstant
  have hl := h.1 hMin
  have hu := h.2 hMax
  rw [hSame] at hu
  omega

/-- The absolute value of the least word is itself. -/
def ModBoundOk (b : ExprInfo) : Prop :=
  b.bounded = true → b.max.toInt < 0 → b.min = Int64.minValue → b.max = Int64.minValue

theorem toInt_abs {v : Int64} (h : v ≠ Int64.minValue) : (Vyasa.abs v).toInt = |v.toInt| := by
  unfold Vyasa.abs
  split_ifs with hNeg
  · have hBounds := toInt_bounds v
    have hNe := mt eq_iff_toInt.mpr h
    rw [toInt_minValue] at hNe
    rw [Int64.toInt_neg, bmod_of_fits (fits_sixtyFour.mpr (by omega)),
      abs_of_neg (lt_zero_iff_toInt.mp hNeg)]
  · rw [abs_of_nonneg (not_lt.mp (mt lt_zero_iff_toInt.mpr hNeg))]

theorem abs_minValue : Vyasa.abs Int64.minValue = Int64.minValue := by decide

theorem modInterval_within (hb : b.Within y) (h0 : y ≠ 0) (hOk : ModBoundOk b) :
    (modInterval b).Within (x % y) := by
  refine ⟨fun _ => Int.emod_nonneg x h0, fun hDef => ?_⟩
  simp only [modInterval, Bool.and_eq_true, Bool.or_eq_true, decide_eq_true_eq,
    zero_lt_iff_toInt, lt_zero_iff_toInt] at hDef
  obtain ⟨hBounded, hSign⟩ := hDef
  have hLow := hb.1 (bounded_iff.mp hBounded).1
  have hHigh := hb.2 (bounded_iff.mp hBounded).2
  have hLt := Int.emod_lt_abs x h0
  have hMin := toInt_bounds b.min
  change x % y ≤ (Max.max (Vyasa.abs b.min) (Vyasa.abs b.max) - 1).toInt
  by_cases hMinValue : b.min = Int64.minValue
  · -- the difference wraps around, and the bound is the largest word
    have hMaxNeg : b.max.toInt < 0 := by
      rcases hSign with hSign | hSign
      · rw [hMinValue] at hSign
        exact absurd hSign (by decide)
      · exact hSign
    rw [hMinValue, hOk hBounded hMaxNeg hMinValue, abs_minValue]
    have hLowY : (-9223372036854775808 : Int) ≤ y := hMin.1.trans hLow
    rw [abs_of_neg (by omega)] at hLt
    exact (show x % y ≤ 9223372036854775807 by omega).trans (by decide)
  · have hMaxValue : b.max ≠ Int64.minValue := by
      intro hMaxValue
      refine hMinValue (eq_iff_toInt.mpr ?_)
      rw [hMaxValue, toInt_minValue] at hHigh
      rw [toInt_minValue]
      omega
    have hMax := toInt_bounds b.max
    have hTop : (Max.max (Vyasa.abs b.min) (Vyasa.abs b.max)).toInt =
        Max.max |b.min.toInt| |b.max.toInt| := by
      rw [toInt_max, toInt_abs hMinValue, toInt_abs hMaxValue]
    have hTopBounds := toInt_bounds (Max.max (Vyasa.abs b.min) (Vyasa.abs b.max))
    have hAbs : |y| ≤ Max.max |b.min.toInt| |b.max.toInt| := abs_le_max_abs_abs hLow hHigh
    have hPos : 0 < |y| := abs_pos.mpr h0
    rw [hTop] at hTopBounds
    rw [toInt_sub_of_fits (fits_sixtyFour.mpr ?_), hTop, toInt_one]
    · omega
    · rw [hTop, toInt_one]
      omega

theorem modInterval_within_iff :
    (∀ x y, b.Within y → y ≠ 0 → (modInterval b).Within (x % y)) ↔ ModBoundOk b := by
  constructor
  · intro h hBounded hNeg hMinValue
    obtain ⟨hMin, hMax⟩ := bounded_iff.mp hBounded
    by_contra hNot
    have hMaxBounds := toInt_bounds b.max
    have hAbs := toInt_abs hNot
    rw [abs_of_neg hNeg] at hAbs
    have hWithin : b.Within (-9223372036854775808) :=
      ⟨fun _ => by rw [hMinValue, toInt_minValue], fun _ => hMaxBounds.1⟩
    have hLe := (h (-1) _ hWithin (by decide)).2
      (by simp [modInterval, hBounded, lt_zero_iff_toInt.mpr hNeg])
    have hTop : (Max.max (Vyasa.abs b.min) (Vyasa.abs b.max)).toInt = -b.max.toInt := by
      rw [toInt_max, hMinValue, abs_minValue, hAbs, toInt_minValue]
      omega
    change _ ≤ (Max.max (Vyasa.abs b.min) (Vyasa.abs b.max) - 1).toInt at hLe
    have hNe := mt eq_iff_toInt.mpr hNot
    rw [toInt_minValue] at hNe
    rw [toInt_sub_of_fits (fits_sixtyFour.mpr (by rw [hTop, toInt_one]; omega)), hTop,
      toInt_one, show (-1 : Int) % -9223372036854775808 = 9223372036854775807 by decide] at hLe
    omega
  · intro hOk x y hb h0
    exact modInterval_within hb h0 hOk

theorem trimMin_zero {m : ModulusRemainder} {lo : Int64} (hm : 1 < m.modulus.toInt)
    (hNormal : m.Normalised) (h : trimMin 0 m.modulus m.remainder = some lo) : 0 ≤ lo.toInt := by
  have hr := hNormal.2 (by omega)
  have hne : m.modulus ≠ 0 := by
    rw [ne_eq, eq_iff_toInt, toInt_zero]
    omega
  obtain ⟨z, hz, hzEq⟩ := modImp_eq (a := 0) hne (by rw [traps_iff_toInt]; omega)
  rw [toInt_zero, Int.zero_emod] at hzEq
  obtain rfl : z = 0 := eq_iff_toInt.mpr hzEq
  rw [trimMin, hz] at h
  cases h
  simp only [Int64.sub_zero, Int64.zero_add]
  split_ifs with hLt
  · rw [lt_zero_iff_toInt] at hLt
    omega
  · exact hr.1

/-- A remainder whose bounds collapse is the constant they collapse to. -/
theorem mod_eq_of_isConstant (ha : a.Holds x) (hb : b.Holds y) (h0 : y ≠ 0) (hOk : ModBoundOk b)
    (h : mod a b = some info) (hConstant : info.isConstant = true) : x % y = info.min.toInt := by
  obtain ⟨m, hm, hTrimmed⟩ := Option.bind_eq_some_iff.mp h
  have hMem := ModulusRemainder.emod_mem hm ha.2.2 hb.2.2 h0
  have hWithin := modInterval_within (x := x) ⟨hb.1, hb.2.1⟩ h0 hOk
  by_cases hLarge : 1 < m.modulus.toInt
  · have hNormal := ModulusRemainder.emod_normalised hm (by omega)
    obtain ⟨lo, hlo, hloLe, -⟩ := trimMin_eq (b := 0) hNormal hLarge
    obtain ⟨hi, hhi, hhiLe, hhiWrap⟩ := trimMax_eq (b := (modInterval b).max) hNormal hLarge
    have hLoNonneg := trimMin_zero hLarge hNormal hlo
    rw [trim_eq (i := { modInterval b with alignment := m }) hLarge hlo hhi] at hTrimmed
    cases hTrimmed
    simp only [isConstant, collapse_bounds, Bool.and_eq_true, decide_eq_true_eq] at hConstant ⊢
    obtain ⟨⟨hMin, hMax⟩, hSame⟩ := hConstant
    simp only [hMin, hMax, ↓reduceIte] at hSame ⊢
    have hReduced := hNormal.2 (by omega)
    have hRounded : rounded 0 m = m.remainder.toInt := by
      rw [rounded, toInt_zero, Int.zero_emod, sub_self, zero_add]
    have hLow := hloLe (by omega) _ hMem (hWithin.1 hMin)
    by_cases hHigh : rounded (modInterval b).max m ≤ 9223372036854775807
    · have hUp := hhiLe hHigh _ hMem (hWithin.2 hMax)
      rw [hSame] at hUp
      omega
    · have hWrapped := hhiWrap (not_le.mp hHigh)
      have hRound := rounded_bounds (b := (modInterval b).max) hNormal hLarge
      have hBounds := toInt_bounds (modInterval b).max
      have hModulus := toInt_bounds m.modulus
      rw [hSame] at hWrapped
      omega
  · refine eq_of_isConstant hConstant ?_
    unfold trimBoundsUsingAlignment at hTrimmed
    simp only [mt one_lt_iff_toInt.mp hLarge, ↓reduceIte, Option.pure_def] at hTrimmed
    split_ifs at hTrimmed with hZero
    · rw [ModulusRemainder.mem_iff_dvd, hZero, toInt_zero, zero_dvd_iff] at hMem
      cases hTrimmed
      simp only [Within, collapse_bounds]
      omega
    · cases hTrimmed
      simpa only [Within, collapse_bounds] using hWithin

theorem emod_of_isOwnRemainder (ha : a.Within x) (hb : b.Within y)
    (h : isOwnRemainder a b = true) : x % y = x := by
  simp only [isOwnRemainder, Bool.and_eq_true, decide_eq_true_eq] at h
  obtain ⟨⟨⟨⟨hMin, hNonneg⟩, hMax⟩, hMinB⟩, hLt⟩ := h
  rw [Int64.le_iff_toInt_le, toInt_zero] at hNonneg
  rw [Int64.lt_iff_toInt_lt] at hLt
  have h1 := ha.1 hMin
  have h2 := ha.2 hMax
  have h3 := hb.1 hMinB
  exact Int.emod_eq_of_lt (by omega) (by omega)

theorem ne_zero_of_nonZero (hb : b.Sound y) (h : b.nonZero = true) : y ≠ 0 := by
  simp only [nonZero, Bool.or_eq_true, decide_eq_true_eq, positive_iff, negative_iff] at h
  rintro rfl
  rcases h with (⟨hDef, hPos⟩ | ⟨hDef, hNeg⟩) | hRemainder
  · exact absurd (hb.within.1 hDef) (by omega)
  · exact absurd (hb.within.2 hDef) (by omega)
  · exact ModulusRemainder.zero_not_mem hb.2 hRemainder hb.mem

end Operations

end Vyasa.ExprInfo
