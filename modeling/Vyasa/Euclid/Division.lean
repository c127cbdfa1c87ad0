import Mathlib.Algebra.Order.Group.Int
import Mathlib.Algebra.Order.Group.Unbundled.Int
import Mathlib.Tactic.Common
import Mathlib

/-! Euclidean quotients and remainders by those that round to zero. -/
namespace Euclid

/-- The quotient that rounds to zero is the Euclidean one, unless its remainder is negative. -/
theorem tdiv_tmod_cases (a : Int) {b : Int} (hb : b ≠ 0) :
    (0 ≤ a.tmod b ∧ a.tmod b = a % b ∧ a.tdiv b = a / b) ∨
      (a.tmod b < 0 ∧ -|b| < a.tmod b ∧ a.tmod b = a % b - |b| ∧ a.tdiv b = a / b + b.sign) := by
  have hNonneg := Int.emod_nonneg a hb
  have hLess := Int.emod_lt_abs a hb
  rw [Int.tmod_eq_emod, Int.tdiv_eq_ediv]
  split_ifs with hCase
  · exact Or.inl ⟨by omega, by omega, by omega⟩
  · have hRest : a % b ≠ 0 := fun h => hCase (Or.inr (Int.dvd_of_emod_eq_zero h))
    rw [← Int.abs_eq_natAbs]
    exact Or.inr ⟨by omega, by omega, rfl, rfl⟩

end Euclid

/-! Euclidean quotients and remainders, in the forms that comparing two quotients
by the same divisor needs. -/
namespace Euclid

/-- Adding `k` divisors to a dividend adds `k` to a quotient, in the order. -/
theorem ediv_add_le {a b c : Int} (hc : 0 < c) {k : Int} (h : a + k * c ≤ b) : a / c + k ≤ b / c := by
  rw [← Int.add_mul_ediv_right _ _ hc.ne']
  exact Int.ediv_le_ediv hc h

theorem ediv_lt_add {a b c : Int} (hc : 0 < c) {k : Int} (h : a + c ≤ b + k * c) :
    a / c < b / c + k := by
  rw [← Int.add_mul_ediv_right _ _ hc.ne', ← Int.add_one_le_iff]
  exact ediv_add_le hc (by omega)

theorem mul_lt_iff_lt_ediv {a b c : Int} (hc : 0 < c) : a * c < b ↔ a < (b + c - 1) / c := by
  rw [← Int.add_one_le_iff (a := a), Int.le_ediv_iff_mul_le hc, add_mul]
  omega

theorem ediv_mul_cancel_of_emod_eq_zero {a b : Int} (h : a % b = 0) : a / b * b = a :=
  Int.ediv_mul_cancel (Int.dvd_of_emod_eq_zero h)

theorem add_eq_ediv {n t q c : Int} (hc : c ≠ 0) (h : n = t + q * c) : t / c + q = n / c := by
  rw [h, Int.add_mul_ediv_right _ _ hc]

theorem sub_eq_ediv {n t q c : Int} (hc : c ≠ 0) (h : n = t - q * c) : t / c - q = n / c := by
  rw [sub_eq_add_neg, add_eq_ediv (n := n) hc (by rw [neg_mul]; omega)]

/-- The opposite of a quotient, rounded up. -/
theorem neg_ediv_eq {n c : Int} (hc : 0 < c) : -(n / c) = (c - 1 - n) / c := by
  have hStep := Int.ediv_mul_add_emod n c
  have hNonneg := Int.emod_nonneg n hc.ne'
  have hLess := Int.emod_lt_of_pos n hc
  symm
  rw [Int.ediv_eq_iff_of_pos hc, neg_mul]
  omega

theorem sub_ediv_eq {n t q c : Int} (hc : 0 < c) (h : n = q * c + (c - 1 - t)) :
    q - t / c = n / c := by
  rw [sub_eq_add_neg, neg_ediv_eq hc, add_comm]
  exact add_eq_ediv hc.ne' (by omega)

/-- The distance to the next multiple. -/
theorem neg_emod_eq {n c : Int} (hc : 0 < c) : -n % c = (n + (c - 1)) / c * c - n := by
  have hStep := Int.ediv_mul_add_emod (n + (c - 1)) c
  have hNonneg := Int.emod_nonneg (n + (c - 1)) hc.ne'
  have hLess := Int.emod_lt_of_pos (n + (c - 1)) hc
  rw [← Int.add_mul_emod_self_right (-n) ((n + (c - 1)) / c) c, Int.emod_eq_of_lt] <;> omega

theorem emod_eq_add_multiple {n t q b c : Int} (hb : b % c = 0) (h : n = t + q * b) :
    t % c = n % c := by
  rw [h, Int.add_emod, Int.mul_emod, hb, mul_zero, Int.zero_emod, add_zero, Int.emod_emod]

theorem min_mul_of_neg {a b c : Int} (hc : c < 0) : min a b * c = max (a * c) (b * c) :=
  (antitone_mul_right hc.le).map_min

theorem max_mul_of_neg {a b c : Int} (hc : c < 0) : max a b * c = min (a * c) (b * c) :=
  (antitone_mul_right hc.le).map_max

theorem monotone_ediv {c : Int} (hc : 0 < c) : Monotone (· / c) :=
  fun _ _ h => Int.ediv_le_ediv hc h

theorem antitone_ediv {c : Int} (hc : c < 0) : Antitone (· / c) := by
  intro a b h
  have hLe := Int.ediv_le_ediv (neg_pos.mpr hc) h
  rw [Int.ediv_neg, Int.ediv_neg] at hLe
  exact neg_le_neg_iff.mp hLe

/-- A larger divisor moves a quotient towards zero. -/
theorem ediv_le_ediv_divisor {n c d : Int} (hn : 0 ≤ n) (hc : 0 < c) (hd : c ≤ d) : n / d ≤ n / c := by
  rw [Int.le_ediv_iff_mul_le hc]
  exact (mul_le_mul_of_nonneg_left hd (Int.ediv_nonneg hn (by omega))).trans
    (Int.ediv_mul_le n (by omega))

theorem ediv_le_ediv_divisor_of_nonpos {n c d : Int} (hn : n ≤ 0) (hc : 0 < c) (hd : c ≤ d) :
    n / c ≤ n / d := by
  rw [Int.le_ediv_iff_mul_le (by omega)]
  exact (mul_le_mul_of_nonpos_left hd (Int.ediv_nonpos_of_nonpos_of_neg hn hc)).trans
    (Int.ediv_mul_le n hc.ne')

/-- Where a lower bound of the numerator leads to, for divisors above `c`. -/
theorem lower_corner {l x c y : Int} (hl : l ≤ x) (hc : 0 < c) (hy : c ≤ y) :
    (l ≤ 0 → l / c ≤ x / y) ∧ (0 ≤ l → 0 ≤ x / y ∧ ∀ d, y ≤ d → l / d ≤ x / y) := by
  have hMono := Int.ediv_le_ediv (by omega : 0 < y) hl
  refine ⟨fun h => (ediv_le_ediv_divisor_of_nonpos h hc hy).trans hMono, fun h => ⟨?_, fun d hd => ?_⟩⟩
  · exact Int.ediv_nonneg (by omega) (by omega)
  · exact (ediv_le_ediv_divisor h (by omega) hd).trans hMono

theorem upper_corner {u x c y : Int} (hu : x ≤ u) (hc : 0 < c) (hy : c ≤ y) :
    (0 ≤ u → x / y ≤ u / c) ∧ (u ≤ 0 → x / y ≤ 0 ∧ ∀ d, y ≤ d → x / y ≤ u / d) := by
  have hMono := Int.ediv_le_ediv (by omega : 0 < y) hu
  refine ⟨fun h => hMono.trans (ediv_le_ediv_divisor h hc hy), fun h => ⟨?_, fun d hd => ?_⟩⟩
  · exact Int.ediv_nonpos_of_nonpos_of_neg (by omega) (by omega)
  · exact hMono.trans (ediv_le_ediv_divisor_of_nonpos h (by omega) hd)

/-- A point on a line through zero is between zero and a later point. -/
theorem line_between {b i n : Int} (hi : 0 ≤ i) (hn : i ≤ n) :
    min 0 (n * b) ≤ i * b ∧ i * b ≤ max 0 (n * b) := by
  rcases le_total 0 b with hb | hb
  · have h1 : 0 ≤ i * b := mul_nonneg hi hb
    have h2 : i * b ≤ n * b := mul_le_mul_of_nonneg_right hn hb
    omega
  · have h1 : i * b ≤ 0 := mul_nonpos_of_nonneg_of_nonpos hi hb
    have h2 : n * b ≤ i * b := mul_le_mul_of_nonpos_right hn hb
    omega

/-- A point on a line between two points of an interval is in the interval. -/
theorem line_bounds {a b i n l u : Int} (hi : 0 ≤ i) (hn : i ≤ n) (hl : l ≤ a) (hu : a < u)
    (hl' : l ≤ a + n * b) (hu' : a + n * b < u) : l ≤ a + i * b ∧ a + i * b < u := by
  have hBetween := line_between (b := b) hi hn
  omega

/-- Where the first and the last point of a line are in the same step, so are all
points between them. -/
theorem line_ediv {a b c i n : Int} (hc : c ≠ 0) (hi : 0 ≤ i) (hn : i ≤ n)
    (h : (a % c + n * b) / c = 0) : (a + i * b) / c = a / c ∧ (a + i * b) % c = a % c + i * b := by
  have hLast : a % c + n * b = (a % c + n * b) % c := by
    have hStep := Int.ediv_mul_add_emod (a % c + n * b) c
    rw [h] at hStep
    omega
  obtain ⟨hl, hu⟩ := line_bounds hi hn (Int.emod_nonneg a hc) (Int.emod_lt_abs a hc)
    (hLast ▸ Int.emod_nonneg _ hc) (hLast ▸ Int.emod_lt_abs _ hc)
  have hSplit : a + i * b = a % c + i * b + a / c * c := by
    have hStep := Int.ediv_mul_add_emod a c
    omega
  rw [hSplit, Int.add_mul_ediv_right _ _ hc, Int.add_mul_emod_self_right,
    Int.ediv_eq_zero_of_lt_abs hl hu, zero_add, ← Int.emod_abs, Int.emod_eq_of_lt hl hu]
  exact ⟨rfl, rfl⟩

/-- A remainder does not change the order of two multiples. -/
theorem scaled_lt_iff {p q c r : Int} (hl : 0 ≤ r) (hu : r < c) : p * c + r < q * c ↔ p < q := by
  constructor
  · intro h
    by_contra hNot
    have hMul := mul_le_mul_of_nonneg_right (not_lt.mp hNot) (hl.trans hu.le)
    omega
  · intro h
    have hMul := mul_le_mul_of_nonneg_right (Int.add_one_le_iff.mpr h) (hl.trans hu.le)
    rw [add_mul, one_mul] at hMul
    omega

end Euclid
