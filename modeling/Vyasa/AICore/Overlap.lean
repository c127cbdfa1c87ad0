import Mathlib.Order.Interval.Finset.Basic
import Mathlib.Data.Int.Interval
import Vyasa.AICore.TemporalGroups

/-! The number of addresses that two strided vectors have in common, and when the number
by which temporal groups are formed is this one. -/
namespace Vyasa.AICore

open Vyasa.Expr Word

section Vectors

/-- The addresses of the lanes of a vector. -/
def laneAddresses (base stride : Int) (lanes : Nat) : Finset Int :=
  (Finset.range lanes).image fun i : Nat => base + stride * i

/-- How many addresses two vectors have in common. -/
def commonAddresses (x y stride : Int) (lanes : Nat) : Nat :=
  (laneAddresses x stride lanes ∩ laneAddresses y stride lanes).card

variable {x y d q stride : Int} {lanes : Nat}

theorem mem_laneAddresses {z : Int} :
    z ∈ laneAddresses x stride lanes ↔ ∃ i : Int, (0 ≤ i ∧ i < lanes) ∧ x + stride * i = z := by
  simp only [laneAddresses, Finset.mem_image, Finset.mem_range]
  constructor
  · rintro ⟨i, hi, rfl⟩
    exact ⟨i, by omega, rfl⟩
  · rintro ⟨i, hi, rfl⟩
    exact ⟨i.toNat, by omega, by rw [Int.toNat_of_nonneg hi.1]⟩

/-- The lanes of the first vector that the second one reads too are an interval. -/
theorem common_eq_image (hStride : 1 ≤ stride) (hd : x - y = stride * q) :
    laneAddresses x stride lanes ∩ laneAddresses y stride lanes =
      (Finset.Ico (max 0 (-q)) (min lanes (lanes - q))).image fun i => x + stride * i := by
  ext z
  simp only [Finset.mem_inter, mem_laneAddresses, Finset.mem_image, Finset.mem_Ico]
  constructor
  · rintro ⟨⟨i, hi, rfl⟩, j, hj, hEq⟩
    have hMul : stride * j = stride * (i + q) := by linarith
    have hLane : j = i + q := Int.eq_of_mul_eq_mul_left (by omega) hMul
    exact ⟨i, by omega, rfl⟩
  · rintro ⟨i, hi, rfl⟩
    refine ⟨⟨i, by omega, rfl⟩, i + q, by omega, ?_⟩
    linarith

theorem commonAddresses_of_dvd (hStride : 1 ≤ stride) (hd : x - y = stride * q) :
    (commonAddresses x y stride lanes : Int) = max 0 (lanes - |q|) := by
  have hInj : Function.Injective fun i : Int => x + stride * i := by
    intro i j hEq
    exact Int.eq_of_mul_eq_mul_left (by omega) (add_left_cancel hEq)
  rw [commonAddresses, common_eq_image hStride hd, Finset.card_image_of_injective _ hInj,
    Int.card_Ico]
  rcases abs_cases q with ⟨hAbs, hSign⟩ | ⟨hAbs, hSign⟩ <;> omega

theorem commonAddresses_of_not_dvd (hd : ¬ stride ∣ x - y) : commonAddresses x y stride lanes = 0 := by
  rw [commonAddresses, Finset.card_eq_zero, Finset.eq_empty_iff_forall_notMem]
  intro z hz
  simp only [Finset.mem_inter, mem_laneAddresses] at hz
  obtain ⟨⟨i, -, hi⟩, j, -, hj⟩ := hz
  exact hd ⟨j - i, by linarith⟩

/-- Vectors have no address in common when the distance is no multiple of the stride or
as long as a vector. -/
def Apart (lanes : Nat) (stride d : Int) : Prop := ¬ stride ∣ d ∨ lanes * stride ≤ |d|

/-- The distances at which the number of shared elements is counted right. -/
def CountsExactly (lanes : Nat) (stride d : Int) : Prop :=
  stride = 1 ∨ lanes ≤ 1 ∨ lanes * stride ≤ |d| ∨ ¬ stride ∣ d ∧ lanes ≤ |d|

theorem abs_mul_stride (hStride : 1 ≤ stride) (q : Int) : |stride * q| = stride * |q| := by
  rw [abs_mul, abs_of_pos (by omega)]

theorem commonAddresses_eq_zero_iff (hStride : 1 ≤ stride) :
    commonAddresses x y stride lanes = 0 ↔ Apart lanes stride (x - y) := by
  by_cases hDvd : stride ∣ x - y
  · obtain ⟨q, hq⟩ := hDvd
    have hCount : (commonAddresses x y stride lanes : Int) = max 0 (lanes - |q|) :=
      commonAddresses_of_dvd hStride hq
    have hLe : lanes * stride ≤ |x - y| ↔ (lanes : Int) ≤ |q| := by
      rw [hq, abs_mul_stride hStride, mul_comm]
      exact mul_le_mul_iff_right₀ (by omega)
    rw [Apart, hLe, or_iff_right (not_not_intro ⟨q, hq⟩)]
    omega
  · exact iff_of_true (commonAddresses_of_not_dvd hDvd) (Or.inl hDvd)

/-- The number that the source computes is a quotient that is rounded up. -/
theorem reuseAt_eq (hStride : 1 ≤ stride) : ∃ r, reuseAt lanes stride d = some r ∧
    (lanes ≤ |d| → r = 0) ∧
    (|d| < lanes → stride * (r - 1) < lanes - |d| ∧ lanes - |d| ≤ stride * r) := by
  have hOffset : (if 0 < d then d else -1 * d) = |d| := by
    split_ifs with h
    · exact (abs_of_pos h).symm
    · rw [abs_of_nonpos (not_lt.mp h)]
      ring
  unfold reuseAt
  simp only [hOffset]
  by_cases hReuse : 0 < (lanes : Int) - |d|
  · rw [if_pos hReuse, if_neg (by omega)]
    refine ⟨_, rfl, fun h => by omega, fun _ => ?_⟩
    have hEq := Int.mul_tdiv_add_tmod (lanes - |d|) stride
    have hRem : 0 ≤ ((lanes : Int) - |d|).tmod stride := Int.tmod_nonneg _ hReuse.le
    have hLt : ((lanes : Int) - |d|).tmod stride < stride := Int.tmod_lt_of_pos _ (by omega)
    have hQuot : 0 ≤ ((lanes : Int) - |d|).tdiv stride := Int.tdiv_nonneg hReuse.le (by omega)
    generalize ((lanes : Int) - |d|).tdiv stride = k at hEq hQuot ⊢
    generalize ((lanes : Int) - |d|).tmod stride = m at hEq hRem hLt ⊢
    have hPos : m = 0 → 0 < k := fun hm => by
      rcases hQuot.lt_or_eq with hk | hk
      · exact hk
      · subst hm
        rw [← hk] at hEq
        omega
    split_ifs with hm hk hk
    · constructor <;> linarith
    · exact absurd (hPos hm) hk
    · constructor <;> linarith [lt_of_le_of_ne hRem (Ne.symm hm)]
    · exact absurd (by omega) hk
  · exact ⟨0, if_neg hReuse, fun _ => rfl, fun h => absurd (by omega) hReuse⟩

/-- Among the multiples of the stride, only single lanes and vectors that are apart are
counted right. -/
theorem ceil_eq_iff {p r : Int} (hStride : 2 ≤ stride) (hp : 0 ≤ p)
    (hFar : lanes ≤ stride * p → r = 0)
    (hNear : stride * p < lanes → stride * (r - 1) < lanes - stride * p ∧ lanes - stride * p ≤ stride * r) :
    r = max 0 (lanes - p) ↔ lanes ≤ 1 ∨ (lanes : Int) ≤ p := by
  have hMul : p ≤ stride * p := le_mul_of_one_le_left hp (by omega)
  rcases le_or_gt (lanes : Int) (stride * p) with hLe | hGt
  · rw [hFar hLe]
    have hSingle : lanes ≤ 1 → (lanes : Int) ≤ p := fun h => by
      rcases hp.lt_or_eq with hPos | rfl
      · omega
      · simpa using hLe
    omega
  · obtain ⟨hLow, hHigh⟩ := hNear hGt
    constructor
    · intro hr
      left
      have hEq : r = lanes - p := by omega
      subst hEq
      have hOnce : stride * ((lanes : Int) - 1) < lanes := by linarith [hLow]
      have hTwice : 2 * ((lanes : Int) - 1) ≤ stride * (lanes - 1) :=
        mul_le_mul_of_nonneg_right hStride (by omega)
      omega
    · rintro (hSingle | hLe)
      · have hZero : p = 0 := by omega
        have hOne : (lanes : Int) = 1 := by omega
        subst hZero
        rw [hOne, mul_zero, sub_zero] at hLow hHigh
        have hPos : 0 < r := (mul_pos_iff_of_pos_left (by omega : 0 < stride)).mp (by omega)
        have hLt : r - 1 < 1 := lt_of_mul_lt_mul_left (by omega : stride * (r - 1) < stride * 1) (by omega)
        omega
      · omega

/-- When the number that the source computes is the number of common addresses. -/
theorem reuseAt_exact_iff (hStride : 1 ≤ stride) :
    reuseAt lanes stride (x - y) = some (commonAddresses x y stride lanes : Int) ↔
      CountsExactly lanes stride (x - y) := by
  obtain ⟨r, hr, hFar, hNear⟩ := @reuseAt_eq (x - y) stride lanes hStride
  rw [hr, Option.some_inj, CountsExactly]
  by_cases hDvd : stride ∣ x - y
  · obtain ⟨q, hq⟩ := hDvd
    rw [commonAddresses_of_dvd hStride hq]
    rw [hq, abs_mul_stride hStride] at hFar hNear ⊢
    have hNot : ¬ (¬ stride ∣ stride * q ∧ (lanes : Int) ≤ stride * |q|) :=
      fun h => h.1 (dvd_mul_right stride q)
    have hLe : lanes * stride ≤ stride * |q| ↔ (lanes : Int) ≤ |q| := by
      rw [mul_comm]
      exact mul_le_mul_iff_right₀ (by omega)
    rw [or_iff_left hNot, hLe]
    rcases hStride.eq_or_lt with rfl | hTwo
    · simp only [one_mul] at hFar hNear
      simp only [true_or, iff_true]
      omega
    · rw [or_iff_right (by omega : stride ≠ 1)]
      exact ceil_eq_iff hTwo (abs_nonneg q) hFar hNear
  · have hOne : stride ≠ 1 := by
      rintro rfl
      exact hDvd (one_dvd _)
    have hPos : 0 < |x - y| := abs_pos.mpr fun h => hDvd (h ▸ dvd_zero stride)
    have hMul : (lanes : Int) ≤ lanes * stride := le_mul_of_one_le_right (by omega) hStride
    rw [commonAddresses_of_not_dvd hDvd]
    have hCount : r = 0 ↔ (lanes : Int) ≤ |x - y| := by
      refine ⟨fun h => ?_, hFar⟩
      by_contra hLt
      obtain ⟨-, hHigh⟩ := hNear (by omega)
      rw [h, mul_zero] at hHigh
      omega
    rw [Nat.cast_zero, hCount]
    constructor
    · exact fun h => Or.inr (Or.inr (Or.inr ⟨hDvd, h⟩))
    · rintro (h | h | h | h) <;> omega

end Vectors

section Loads

variable {simplify : Expr → Expr} {heap : Heap} {a b : LoadPtr} {lanes : Nat} {stride d x y : Int} {ρ : Env}

/-- The number of shared elements is the number of common addresses exactly at some distances,
where simplification finds the distance; elsewhere exactly if there is no common address. -/
theorem getReuse_exact_iff {baseA baseB : Address} (hSimplify : SimplifySound simplify)
    (hName : (heap a).name = (heap b).name) (hA : Ramp (heap a) lanes stride)
    (hB : Ramp (heap b) lanes stride) (hStride : 1 ≤ stride) (hBaseA : (heap a).base = some baseA)
    (hBaseB : (heap b).base = some baseB) (hx : exact ρ baseA.val = some x)
    (hy : exact ρ baseB.val = some y) :
    getReuseAmongVectorLoads simplify (heap a) (heap b) = some (commonAddresses x y stride lanes : Int) ↔
      if (simplify (.sub baseA baseB)).asIntImm.isSome then CountsExactly lanes stride (x - y)
      else Apart lanes stride (x - y) := by
  rw [getReuse_of_ramp hA hB hBaseA hBaseB, if_pos hName]
  cases hDiff : (simplify (.sub baseA.val baseB.val)).asIntImm with
  | some d =>
    have hd : x - y = d := hSimplify.eq_of_asIntImm hDiff (exact_sub baseA.2 hx hy)
    subst hd
    rw [Option.isSome_some, if_pos rfl]
    exact reuseAt_exact_iff hStride
  | none =>
    rw [Option.isSome_none, if_neg Bool.false_ne_true, Option.some_inj,
      ← commonAddresses_eq_zero_iff hStride]
    omega

end Loads

/-- Two vectors of every second address from these bases on. -/
def everySecond (baseA baseB : Int) : Heap
  | 0 => { name := "f", index := .ramp (constant baseA) (constant 2) 16 }
  | _ => { name := "f", index := .ramp (constant baseB) (constant 2) 16 }

theorem ramp_everySecond (baseA baseB : Int) (p : LoadPtr) : Ramp (everySecond baseA baseB p) 16 2 := by
  cases p with
  | zero => exact ⟨⟨_, _, _, rfl⟩, rfl, rfl⟩
  | succ p => exact ⟨⟨_, _, _, rfl⟩, rfl, rfl⟩

theorem getReuse_exact_iff_apart :
    getReuseAmongVectorLoads Solve.foldClosed (everySecond 32 0 0) (everySecond 32 0 1) =
      some (commonAddresses 32 0 2 16 : Int) := by
  have hName : (everySecond 32 0 0).name = (everySecond 32 0 1).name := rfl
  refine (getReuse_exact_iff (ρ := ⟨fun _ => 0, fun _ _ => none⟩) SimplifySound.foldClosed hName
    (ramp_everySecond 32 0 0) (ramp_everySecond 32 0 1) (by decide) rfl rfl rfl rfl).mpr ?_
  rw [if_pos (by decide)]
  exact Or.inr (Or.inr (Or.inl (by decide)))

/-- The first sixteen even numbers have fifteen elements in common with the next sixteen, not
seven. The even and the odd numbers have none, not eight. -/
theorem getReuse_stride_two :
    getReuseAmongVectorLoads Solve.foldClosed (everySecond 2 0 0) (everySecond 2 0 1) = some 7 ∧
      commonAddresses 2 0 2 16 = 15 ∧
      getReuseAmongVectorLoads Solve.foldClosed (everySecond 1 0 0) (everySecond 1 0 1) = some 8 ∧
      commonAddresses 1 0 2 16 = 0 := by
  decide

end Vyasa.AICore
