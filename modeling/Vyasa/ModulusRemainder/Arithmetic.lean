import Vyasa.ModulusRemainder.Basic

/-! What the 64-bit helpers compute. Away from the one trapping pair of
operands, `modImp` and `divImp` are Euclidean, the overflow tests are exact and
`gcd` is the greatest common divisor up to its sign. -/
namespace Vyasa

open Word

/-- The operands whose quotient does not fit a word. -/
def Traps (a b : Int64) : Prop := a = Int64.minValue ∧ b = -1

instance (a b : Int64) : Decidable (Traps a b) := inferInstanceAs (Decidable (_ ∧ _))

theorem traps_iff_toInt {a b : Int64} :
    Traps a b ↔ a.toInt = -9223372036854775808 ∧ b.toInt = -1 := by
  unfold Traps
  rw [eq_iff_toInt, eq_iff_toInt, toInt_minValue, toInt_negOne]

theorem rem_of_not_traps {a b : Int64} (hb : b ≠ 0) (h : ¬ Traps a b) : rem a b = some (a % b) := by
  unfold rem
  rw [if_neg]
  rintro (h0 | ht)
  · exact hb h0
  · exact h ht

theorem quot_of_not_traps {a b : Int64} (hb : b ≠ 0) (h : ¬ Traps a b) : quot a b = some (a / b) := by
  unfold quot
  rw [if_neg]
  rintro (h0 | ht)
  · exact hb h0
  · exact h ht

theorem toInt_quot {a b : Int64} (h : ¬ Traps a b) : (a / b).toInt = a.toInt.tdiv b.toInt := by
  by_cases ha : a = Int64.minValue
  · apply Int64.toInt_div_of_ne_right
    intro hb
    exact h ⟨ha, hb⟩
  · exact Int64.toInt_div_of_ne_left a b ha

theorem toInt_ne_zero {b : Int64} (hb : b ≠ 0) : b.toInt ≠ 0 := by
  rwa [ne_eq, eq_iff_toInt, toInt_zero] at hb

/-- Truncated remainders are Euclidean ones after one correction by the
absolute value of the divisor. -/
theorem emod_of_tmod (a b : Int) (hb : b ≠ 0) :
    a % b = if a.tmod b < 0 then a.tmod b + |b| else a.tmod b := by
  have hDef := Int.emod_eq_tmod (a := a) (b := b)
  have hNonneg := Int.emod_nonneg a hb
  have hLt := Int.emod_lt_abs a hb
  have hAbs : (b.natAbs : Int) = |b| := Int.natCast_natAbs b
  split_ifs at hDef ⊢ <;> omega

theorem ediv_of_tdiv (a b : Int) (hb : b ≠ 0) :
    a / b = if a.tmod b < 0 then (if b < 0 then a.tdiv b + 1 else a.tdiv b - 1) else a.tdiv b := by
  have hMod := emod_of_tmod a b hb
  have hE := Int.mul_ediv_add_emod a b
  have hT := Int.tmod_add_mul_tdiv a b
  rcases lt_or_gt_of_ne hb with hNeg | hPos
  · rw [abs_of_neg hNeg] at hMod
    split_ifs at hMod ⊢ with hr
    · apply Int.eq_of_mul_eq_mul_left hb
      rw [Int.mul_add]
      omega
    · apply Int.eq_of_mul_eq_mul_left hb
      omega
  · rw [abs_of_pos hPos] at hMod
    rw [if_neg (not_lt.mpr hPos.le)]
    split_ifs at hMod ⊢ with hr
    · apply Int.eq_of_mul_eq_mul_left hb
      rw [Int.mul_sub]
      omega
    · apply Int.eq_of_mul_eq_mul_left hb
      omega

theorem lt_zero_iff_toInt {a : Int64} : a < 0 ↔ a.toInt < 0 := by
  rw [Int64.lt_iff_toInt_lt, toInt_zero]

theorem zero_lt_iff_toInt {a : Int64} : 0 < a ↔ 0 < a.toInt := by
  rw [Int64.lt_iff_toInt_lt, toInt_zero]

/-- The correction added by `modImp` is the right one even when the absolute
value of the divisor wraps around, because the sum wraps back. -/
theorem modImp_eq {a b : Int64} (hb : b ≠ 0) (h : ¬ Traps a b) :
    ∃ r, modImp a b = some r ∧ r.toInt = a.toInt % b.toInt := by
  refine ⟨_, by rw [modImp, rem_of_not_traps hb h]; rfl, ?_⟩
  have hb' := toInt_ne_zero hb
  have hMod := emod_of_tmod a.toInt b.toInt hb'
  have hNonneg := Int.emod_nonneg a.toInt hb'
  have hLt := Int.emod_lt_abs a.toInt hb'
  have hB := toInt_bounds b
  by_cases hr : a % b < 0
  · rw [lt_zero_iff_toInt, Int64.toInt_mod] at hr
    rw [if_pos (by rwa [lt_zero_iff_toInt, Int64.toInt_mod]), Int64.toInt_add, Int64.toInt_mod]
    rw [if_pos hr] at hMod
    unfold abs
    by_cases hNeg : b < 0
    · rw [if_pos hNeg, Int64.toInt_neg, Int.add_bmod_bmod]
      rw [lt_zero_iff_toInt] at hNeg
      rw [abs_of_neg hNeg] at hMod hLt
      rw [← hMod]
      exact bmod_of_fits (fits_sixtyFour.mpr (by omega))
    · rw [if_neg hNeg]
      rw [lt_zero_iff_toInt] at hNeg
      rw [abs_of_nonneg (by omega)] at hMod hLt
      rw [← hMod]
      exact bmod_of_fits (fits_sixtyFour.mpr (by omega))
  · rw [if_neg hr, Int64.toInt_add, Int64.toInt_mod, toInt_zero]
    rw [lt_zero_iff_toInt, Int64.toInt_mod] at hr
    rw [if_neg hr] at hMod
    rw [add_zero, hMod]
    have hA := toInt_bounds (a % b)
    rw [Int64.toInt_mod] at hA
    exact bmod_of_fits (fits_sixtyFour.mpr hA)

theorem fits_ediv {a b : Int64} (h : ¬ Traps a b) : Fits 64 (a.toInt / b.toInt) := by
  have hA := toInt_bounds a
  have hAbs := Int.abs_ediv_le_abs a.toInt b.toInt
  rw [traps_iff_toInt] at h
  rw [fits_sixtyFour]
  refine ⟨?_, ?_⟩
  · have hNeg := neg_abs_le (a.toInt / b.toInt)
    rcases abs_cases a.toInt with h | h <;> omega
  · have hPos := le_abs_self (a.toInt / b.toInt)
    by_contra hBig
    have hMin : a.toInt = -9223372036854775808 := by
      rcases abs_cases a.toInt with h | h <;> omega
    have hQuot : a.toInt / b.toInt = 9223372036854775808 := by
      rcases abs_cases a.toInt with h | h <;> omega
    apply h
    refine ⟨hMin, ?_⟩
    have hE := Int.mul_ediv_add_emod a.toInt b.toInt
    rw [hMin, show (-9223372036854775808 : Int) / b.toInt = 9223372036854775808 by rwa [← hMin]] at hE
    have hb' : b.toInt ≠ 0 := by
      intro h0
      rw [h0, Int.ediv_zero] at hQuot
      omega
    have hNonneg := Int.emod_nonneg (-9223372036854775808) hb'
    have hLt := Int.emod_lt_abs (-9223372036854775808) hb'
    rcases abs_cases b.toInt with h | h <;> omega

theorem divImp_eq {a b : Int64} (hb : b ≠ 0) (h : ¬ Traps a b) :
    ∃ q, divImp a b = some q ∧ q.toInt = a.toInt / b.toInt := by
  refine ⟨_, by rw [divImp, quot_of_not_traps hb h]; rfl, ?_⟩
  have hb' := toInt_ne_zero hb
  have hQuot := toInt_quot h
  have hRem : (a - a / b * b).toInt = a.toInt.tmod b.toInt := by
    have hT := Int.tmod_add_tdiv_mul a.toInt b.toInt
    have hM := toInt_bounds (a % b)
    rw [Int64.toInt_mod] at hM
    rw [Int64.toInt_sub, Int64.toInt_mul, hQuot, Int.sub_bmod_bmod]
    rw [show a.toInt - a.toInt.tdiv b.toInt * b.toInt = a.toInt.tmod b.toInt by omega]
    exact bmod_of_fits (fits_sixtyFour.mpr hM)
  have hDiv := ediv_of_tdiv a.toInt b.toInt hb'
  have hFits := bmod_of_fits (fits_ediv h)
  simp only [shiftRight_sign, lt_zero_iff_toInt, hRem]
  split_ifs at hDiv ⊢ with hr hn
  · rw [show a / b - (-1 &&& -1) + (-1 &&& ~~~(-1)) = a / b + 1 by simp]
    rw [Int64.toInt_add, hQuot, toInt_one, ← hDiv, hFits]
  · rw [show a / b - (-1 &&& 0) + (-1 &&& ~~~0) = a / b - 1 by simp [Int64.sub_eq_add_neg]]
    rw [Int64.toInt_sub, hQuot, toInt_one, ← hDiv, hFits]
  · rw [show a / b - (0 &&& -1) + (0 &&& ~~~(-1)) = a / b by simp]
    rw [hQuot, hDiv]
  · rw [show a / b - (0 &&& 0) + (0 &&& ~~~0) = a / b by simp]
    rw [hQuot, hDiv]

theorem toInt_maxVal {bits : Nat} (h : bits ≤ 64) : (maxVal bits).toInt = 2 ^ (bits - 1) - 1 := by
  have hPow : (2 : Int) ^ (bits - 1) ≤ 2 ^ 63 := pow_le_pow_right₀ (by omega) (by omega)
  have hPos : (0 : Int) < 2 ^ (bits - 1) := by positivity
  exact Int64.toInt_ofInt_of_le (by omega) (by omega)

/-- The two extreme values of a width, as `minVal` computes them from `maxVal`. -/
theorem extremes {bits : Nat} (h : bits ≤ 64) :
    0 ≤ (maxVal bits).toInt ∧ (maxVal bits).toInt ≤ 9223372036854775807 ∧
      (minVal bits).toInt = -(maxVal bits).toInt - 1 := by
  have hMax := toInt_maxVal h
  have hPos : (0 : Int) < 2 ^ (bits - 1) := by positivity
  have hBounds := toInt_bounds (maxVal bits)
  refine ⟨by omega, by omega, ?_⟩
  unfold minVal
  rw [Int64.toInt_sub, Int64.toInt_neg, Int.bmod_sub_bmod, toInt_one]
  exact bmod_of_fits (fits_sixtyFour.mpr (by omega))

theorem fits_iff_maxVal {bits : Nat} (h : bits ≤ 64) {x : Int} :
    Fits bits x ↔ -(maxVal bits).toInt - 1 ≤ x ∧ x ≤ (maxVal bits).toInt := by
  rw [toInt_maxVal h]
  unfold Fits
  constructor <;> rintro ⟨hl, hu⟩ <;> constructor <;> omega

/-- The overflow tests are exact on operands of the width they test. -/
theorem addWouldOverflow_iff {bits : Nat} (hBits : bits ≤ 64) {a b : Int64}
    (ha : Fits bits a.toInt) :
    addWouldOverflow bits a b = true ↔ ¬ Fits bits (a.toInt + b.toInt) := by
  obtain ⟨hPos, hMax, hMin⟩ := extremes hBits
  have hB := toInt_bounds b
  unfold addWouldOverflow
  rw [fits_iff_maxVal hBits] at ha ⊢
  simp only [Bool.or_eq_true, Bool.and_eq_true, decide_eq_true_eq, Int64.lt_iff_toInt_lt, toInt_zero]
  constructor
  · rintro (⟨h0, h1⟩ | ⟨h0, h1⟩)
    · rw [toInt_sub_of_fits (fits_sixtyFour.mpr (by omega))] at h1
      omega
    · rw [toInt_sub_of_fits (fits_sixtyFour.mpr (by omega))] at h1
      omega
  · intro h
    rcases lt_trichotomy b.toInt 0 with h0 | h0 | h0
    · refine Or.inr ⟨h0, ?_⟩
      rw [toInt_sub_of_fits (fits_sixtyFour.mpr (by omega))]
      omega
    · omega
    · refine Or.inl ⟨h0, ?_⟩
      rw [toInt_sub_of_fits (fits_sixtyFour.mpr (by omega))]
      omega

theorem subWouldOverflow_iff {bits : Nat} (hBits : bits ≤ 64) {a b : Int64}
    (ha : Fits bits a.toInt) :
    subWouldOverflow bits a b = true ↔ ¬ Fits bits (a.toInt - b.toInt) := by
  obtain ⟨hPos, hMax, hMin⟩ := extremes hBits
  have hB := toInt_bounds b
  unfold subWouldOverflow
  rw [fits_iff_maxVal hBits] at ha ⊢
  simp only [Bool.or_eq_true, Bool.and_eq_true, decide_eq_true_eq, Int64.lt_iff_toInt_lt, toInt_zero]
  constructor
  · rintro (⟨h0, h1⟩ | ⟨h0, h1⟩)
    · rw [toInt_add_of_fits (fits_sixtyFour.mpr (by omega))] at h1
      omega
    · rw [toInt_add_of_fits (fits_sixtyFour.mpr (by omega))] at h1
      omega
  · intro h
    rcases lt_trichotomy b.toInt 0 with h0 | h0 | h0
    · refine Or.inl ⟨h0, ?_⟩
      rw [toInt_add_of_fits (fits_sixtyFour.mpr (by omega))]
      omega
    · omega
    · refine Or.inr ⟨h0, ?_⟩
      rw [toInt_add_of_fits (fits_sixtyFour.mpr (by omega))]
      omega

/-- A wrapped product divides back to its second factor only if it did not
wrap: a wrapped product is off by at least `2 ^ 64`, more than any divisor. -/
theorem quot_mul_ne {a b : Int64} (ha : a ≠ 0) (h : ¬ Fits 64 (a.toInt * b.toInt)) :
    (a * b).toInt.tdiv a.toInt ≠ b.toInt := by
  intro hQuot
  apply h
  have hA := toInt_bounds a
  have hT := Int.tmod_add_mul_tdiv (a * b).toInt a.toInt
  have hLt := Int.emod_lt_abs (a * b).toInt (toInt_ne_zero ha)
  have hE := emod_of_tmod (a * b).toInt a.toInt (toInt_ne_zero ha)
  have hNonneg := Int.emod_nonneg (a * b).toInt (toInt_ne_zero ha)
  rw [hQuot] at hT
  obtain ⟨k, hk⟩ : ∃ k : Int, (a * b).toInt = a.toInt * b.toInt + 18446744073709551616 * k := by
    have hDiv := Int.bmod_add_bdiv (a.toInt * b.toInt) (2 ^ 64)
    refine ⟨-(a.toInt * b.toInt).bdiv (2 ^ 64), ?_⟩
    rw [Int64.toInt_mul]
    omega
  have hk0 : k = 0 := by
    rcases abs_cases a.toInt with h | h <;> split_ifs at hE <;> omega
  rw [hk0] at hk
  have hFits := fits_toInt (a * b)
  rw [hk, mul_zero, add_zero] at hFits
  exact hFits

theorem mulWouldOverflow_iff {bits : Nat} (hBits : bits ≤ 64) {a b : Int64}
    (ha : Fits bits a.toInt) (hb : Fits bits b.toInt) :
    mulWouldOverflow bits a b = true ↔ ¬ Fits bits (a.toInt * b.toInt) := by
  obtain ⟨hPos, hMax, hMin⟩ := extremes hBits
  have hWide {x : Int} (hx : Fits bits x) : Fits 64 x := by
    rw [fits_iff_maxVal hBits] at hx
    exact fits_sixtyFour.mpr (by omega)
  unfold mulWouldOverflow
  by_cases h0 : a = 0
  · subst h0
    rw [if_pos rfl, toInt_zero, zero_mul, fits_iff_maxVal hBits]
    simp
    omega
  · rw [if_neg h0]
    by_cases h1 : a = -1
    · subst h1
      rw [if_pos rfl, decide_eq_true_eq, eq_iff_toInt, toInt_negOne, hMin, fits_iff_maxVal hBits]
      rw [fits_iff_maxVal hBits] at hb
      omega
    · rw [if_neg h1]
      have hTraps : ¬ Traps (a * b) a := fun h => h1 h.2
      simp only [ne_eq, Bool.or_eq_true, decide_eq_true_eq, decide_not, Bool.not_eq_eq_eq_not,
        Bool.not_true, decide_eq_false_iff_not, Int64.lt_iff_toInt_lt, eq_iff_toInt, hMin,
        toInt_quot hTraps]
      by_cases hFits : Fits 64 (a.toInt * b.toInt)
      · rw [toInt_mul_of_fits hFits, fits_iff_maxVal hBits,
          Int.mul_tdiv_cancel_left _ (toInt_ne_zero h0)]
        simp only [not_true_eq_false, or_false]
        omega
      · have hNe := quot_mul_ne h0 hFits
        have hNarrow : ¬ Fits bits (a.toInt * b.toInt) := fun h => hFits (hWide h)
        simp only [hNe, hNarrow, not_false_eq_true, or_true]

/-- A step of Euclid's algorithm cannot reach the trapping pair unless it
started there, with its operands in either order. -/
theorem gcdLoop_eq (fuel : Nat) {a b : Int64} (hFuel : b.toInt.natAbs < fuel)
    (hab : ¬ Traps a b) (hba : ¬ Traps b a) :
    ∃ g, gcdLoop fuel a b = some g ∧ g.toInt.natAbs = Int.gcd a.toInt b.toInt ∧
      (0 ≤ a.toInt → 0 ≤ b.toInt → 0 ≤ g.toInt) := by
  induction fuel generalizing a b with
  | zero => omega
  | succ fuel ih =>
      by_cases hb : b = 0
      · subst hb
        refine ⟨a, by simp [gcdLoop], ?_, fun h _ => h⟩
        rw [toInt_zero, Int.gcd_zero_right]
      · have hb' := toInt_ne_zero hb
        have hMod : (a % b).toInt = a.toInt.tmod b.toInt := Int64.toInt_mod a b
        have hAbs : (a % b).toInt.natAbs = a.toInt.natAbs % b.toInt.natAbs := by
          rw [hMod, Int.natAbs_tmod]
        have hLt : (a % b).toInt.natAbs < b.toInt.natAbs := by
          rw [hAbs]
          exact Nat.mod_lt _ (by omega)
        have hA := toInt_bounds a
        have hSafe : ¬ Traps b (a % b) := by
          rw [traps_iff_toInt] at hba ⊢
          rintro ⟨hMin, hOne⟩
          rw [hOne, hMin] at hAbs
          rw [hMin] at hMod
          by_cases hEq : a.toInt = -9223372036854775808
          · rw [hEq, Nat.mod_self] at hAbs
            exact absurd hAbs (by decide)
          · have hSame : a.toInt.tmod (-9223372036854775808) = a.toInt := by
              rw [Int.tmod_neg]
              rcases le_total 0 a.toInt with h | h
              · exact Int.tmod_eq_of_lt h (by omega)
              · have hNeg := Int.tmod_eq_of_lt (a := -a.toInt) (b := 9223372036854775808)
                  (by omega) (by omega)
                rw [Int.neg_tmod] at hNeg
                omega
            omega
        have hSafe' : ¬ Traps (a % b) b := by
          rw [traps_iff_toInt]
          omega
        obtain ⟨g, hg, hGcd, hSign⟩ := ih (a := b) (b := a % b) (by omega) hSafe hSafe'
        refine ⟨g, ?_, ?_, ?_⟩
        · rw [gcdLoop, if_neg hb, rem_of_not_traps hb hab]
          exact hg
        · rw [hGcd, Int.gcd, hAbs, Int.gcd, Nat.gcd_comm b.toInt.natAbs, ← Nat.gcd_rec,
            Nat.gcd_comm]
        · intro ha hb
          apply hSign hb
          rw [hMod]
          exact Int.tmod_nonneg _ ha

theorem gcd_eq {a b : Int64} (hab : ¬ Traps a b) (hba : ¬ Traps b a) :
    ∃ g, gcd a b = some g ∧ g.toInt.natAbs = Int.gcd a.toInt b.toInt ∧
      (0 ≤ a.toInt → 0 ≤ b.toInt → 0 ≤ g.toInt) := by
  unfold gcd
  split_ifs with h
  · obtain ⟨g, hg, hGcd, hSign⟩ := gcdLoop_eq (a.toInt.natAbs + 1) (by omega) hba hab
    exact ⟨g, hg, by rw [hGcd, Int.gcd_comm], fun ha hb => hSign hb ha⟩
  · exact gcdLoop_eq (b.toInt.natAbs + 1) (by omega) hab hba

theorem gcd_of_traps {a b : Int64} (h : Traps a b ∨ Traps b a) : gcd a b = none := by
  rcases h with ⟨rfl, rfl⟩ | ⟨rfl, rfl⟩ <;> rfl

end Vyasa
