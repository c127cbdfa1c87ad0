import Mathlib.Algebra.BigOperators.Group.Finset.Basic
import Mathlib.Algebra.Order.BigOperators.Ring.Finset
import Mathlib.Data.Int.Order.Basic
import Mathlib.Tactic.Linarith
import Mathlib.Tactic.Ring
import Mathlib.Algebra.BigOperators.Fin
import Mathlib.Algebra.BigOperators.Intervals
import Mathlib.Algebra.Module.NatInt
import Mathlib.Algebra.Order.Group.Int
import Mathlib.Data.Fin.Tuple.Finset
import Mathlib.Data.Multiset.Bind

/-! Strides without gaps: each is the number of places that the dimensions before it take. -/
namespace Strided

variable {d : ℕ} {extent stride x y : ℕ → ℤ}

/-- The places that the dimensions below `k` take. -/
def weight (extent : ℕ → ℤ) (k : ℕ) : ℤ := ∏ j ∈ Finset.range k, extent j

@[simp] theorem weight_zero (extent : ℕ → ℤ) : weight extent 0 = 1 := Finset.prod_range_zero _

theorem weight_succ (k : ℕ) : weight extent (k + 1) = weight extent k * extent k := Finset.prod_range_succ _ _

theorem weight_pos (h : ∀ k < d, 0 < extent k) : 0 < weight extent d :=
  Finset.prod_pos fun k hk => h k (Finset.mem_range.mp hk)

theorem weight_mono (h : ∀ k < d, 0 < extent k) : ∀ {j k : ℕ}, j ≤ k → k ≤ d → weight extent j ≤ weight extent k := by
  intro j k hLe hBelow
  induction k, hLe using Nat.le_induction with
  | base => exact le_rfl
  | succ k hLe ih =>
    have hPos := h k hBelow
    have hWeight := weight_pos fun i hi => h i (hi.trans hBelow)
    rw [weight_succ]
    nlinarith [ih (Nat.le_of_succ_le hBelow)]

/-- The coordinates lie in the extents. -/
def Within (d : ℕ) (extent x : ℕ → ℤ) : Prop := ∀ k < d, 0 ≤ x k ∧ x k < extent k

theorem Within.of_succ (h : Within (d + 1) extent x) : Within d extent x := fun k hk => h k (hk.trans (Nat.lt_succ_self d))

/-- The place of the coordinates. -/
def place (d : ℕ) (extent x : ℕ → ℤ) : ℤ := ∑ k ∈ Finset.range d, x k * weight extent k

theorem place_succ : place (d + 1) extent x = place d extent x + x d * weight extent d :=
  Finset.sum_range_succ _ _

theorem place_bounds (h : Within d extent x) : 0 ≤ place d extent x ∧ place d extent x < weight extent d := by
  induction d with
  | zero => exact ⟨le_rfl, Int.one_pos⟩
  | succ d ih =>
    obtain ⟨hLow, hHigh⟩ := ih h.of_succ
    obtain ⟨hx, hx'⟩ := h d (Nat.lt_succ_self d)
    rw [place_succ, weight_succ]
    constructor
    · nlinarith
    · nlinarith

/-- Different coordinates have different places. -/
theorem place_injective (hx : Within d extent x) (hy : Within d extent y)
    (hEq : place d extent x = place d extent y) : ∀ k < d, x k = y k := by
  induction d with
  | zero => exact fun _ hk => absurd hk (Nat.not_lt_zero _)
  | succ d ih =>
    have hBoundsX := place_bounds hx.of_succ
    have hBoundsY := place_bounds hy.of_succ
    rw [place_succ, place_succ] at hEq
    have hTop : x d = y d := by
      rcases lt_trichotomy (x d) (y d) with hLt | hEq | hLt
      · nlinarith
      · exact hEq
      · nlinarith
    rw [hTop] at hEq
    intro k hk
    rcases Nat.lt_succ_iff_lt_or_eq.mp hk with hk | rfl
    · exact ih hx.of_succ hy.of_succ (by linarith) k hk
    · exact hTop

end Strided

/-! The places that a nest of loops comes to, each as often as it does. -/
namespace Strided

theorem sum_singleton {ι G : Type*} (s : Finset ι) (f : ι → G) : ∑ x ∈ s, ({f x} : Multiset G) = s.val.map f := by
  rw [Finset.sum, ← Multiset.sum_map_singleton (s.val.map f), Multiset.map_map]
  rfl

section Monoid

variable {G : Type*} [AddCommMonoid G] {n e : ℕ} {v g : G} {l l' : List (ℕ × G)}

/-- Every loop takes a number of steps of its stride. -/
def walk : List (ℕ × G) → G → Multiset G
  | [], g => {g}
  | (e, v) :: l, g => ∑ i ∈ Finset.range e, walk l (g + i • v)

theorem walk_cons : walk ((e, v) :: l) g = ∑ i ∈ Finset.range e, walk l (g + i • v) := rfl

/-- The order of the loops does not matter. -/
theorem walk_perm (h : l.Perm l') (g : G) : walk l g = walk l' g := by
  induction h generalizing g with
  | nil => rfl
  | cons s _ ih => exact Finset.sum_congr rfl fun i _ => ih _
  | swap s t l =>
    obtain ⟨e, v⟩ := s
    obtain ⟨e', v'⟩ := t
    simp only [walk]
    rw [Finset.sum_comm]
    refine Finset.sum_congr rfl fun i _ => Finset.sum_congr rfl fun j _ => ?_
    rw [add_right_comm]
  | trans _ _ ih ih' => exact (ih g).trans (ih' g)

theorem walk_append_congr (h : ∀ g, walk l g = walk l' g) : ∀ (before : List (ℕ × G)) (g : G),
    walk (before ++ l) g = walk (before ++ l') g
  | [], g => h g
  | _ :: before, _ => Finset.sum_congr rfl fun _ _ => walk_append_congr h before _

/-- A loop of one turn adds nothing. -/
theorem walk_one (g : G) : walk ((1, v) :: l) g = walk l g := by
  rw [walk_cons, Finset.sum_range_one, zero_nsmul, add_zero]

/-- A loop whose stride is where the one below it ends makes one loop with it. -/
theorem walk_fold (n e : ℕ) (v : G) (l : List (ℕ × G)) (g : G) :
    walk ((n, v) :: (e, n • v) :: l) g = walk ((n * e, v) :: l) g := by
  rw [walk_perm (.swap ..)]
  induction e with
  | zero => simp [walk_cons]
  | succ e ih =>
    have hRow : walk ((n, v) :: l) (g + e • n • v) = ∑ i ∈ Finset.range n, walk l (g + (n * e + i) • v) :=
      Finset.sum_congr rfl fun i _ => by rw [add_assoc, ← mul_nsmul, ← add_nsmul]
    rw [walk_cons, Finset.sum_range_succ, ← walk_cons, ih, hRow, Nat.mul_succ, walk_cons, walk_cons,
      Finset.sum_range_add]

end Monoid

section Group

variable {G : Type*} [AddCommGroup G]

theorem sum_piFinset_succ {M : Type*} [AddCommMonoid M] {n : ℕ} (s : Fin (n + 1) → Finset ℤ)
    (f : (Fin (n + 1) → ℤ) → M) :
    ∑ x ∈ Fintype.piFinset s, f x =
      ∑ a ∈ s 0, ∑ y ∈ Fintype.piFinset fun d => s d.succ, f (Fin.cons a y) := by
  rw [← Finset.sum_product']
  refine Finset.sum_equiv (Fin.consEquiv fun _ => ℤ).symm (fun x => ?_) fun x _ => ?_
  · rw [Fin.mem_piFinset_iff_zero_tail, Finset.mem_product]
    rfl
  · exact congrArg f (Fin.cons_self_tail x).symm

/-- The numbers of `e` steps from `lo` on. -/
def span (lo e : ℤ) : Finset ℤ := (Finset.range e.toNat).image fun i : ℕ => lo + i

theorem mem_span {lo e a : ℤ} : a ∈ span lo e ↔ lo ≤ a ∧ a < lo + e := by
  rw [span, Finset.mem_image]
  constructor
  · rintro ⟨i, hi, rfl⟩
    rw [Finset.mem_range] at hi
    omega
  · intro h
    refine ⟨(a - lo).toNat, Finset.mem_range.mpr (by omega), by omega⟩

theorem sum_span {M : Type*} [AddCommMonoid M] (lo e : ℤ) (f : ℤ → M) :
    ∑ a ∈ span lo e, f (a - lo) = ∑ i ∈ Finset.range e.toNat, f i := by
  rw [span, Finset.sum_image fun i _ j _ h => by simpa using h]
  simp only [add_sub_cancel_left]

/-- A nest of loops goes through all coordinates. -/
theorem walk_ofFn : ∀ {n : ℕ} (lo e : Fin n → ℤ) (v : Fin n → G) (g : G),
    walk (List.ofFn fun d => ((e d).toNat, v d)) g =
      ∑ x ∈ Fintype.piFinset fun d => span (lo d) (e d), {g + ∑ d, (x d - lo d) • v d}
  | 0, _, _, _, g => by simp [walk]
  | n + 1, lo, e, v, g => by
    rw [List.ofFn_succ, walk_cons, sum_piFinset_succ]
    simp only [Fin.sum_univ_succ, Fin.cons_zero, Fin.cons_succ]
    have hStep (i : ℤ) : (∑ y ∈ Fintype.piFinset fun d : Fin n => span (lo d.succ) (e d.succ),
        ({g + (i • v 0 + ∑ d, (y d - lo d.succ) • v d.succ)} : Multiset G)) =
        walk (List.ofFn fun d : Fin n => ((e d.succ).toNat, v d.succ)) (g + i • v 0) := by
      rw [walk_ofFn fun d => lo d.succ]
      simp only [add_assoc]
    simp only [hStep]
    rw [sum_span (lo 0) (e 0) fun i => walk (List.ofFn fun d : Fin n => ((e d.succ).toNat, v d.succ)) (g + i • v 0)]
    simp only [natCast_zsmul]

end Group

end Strided
