import Vyasa.HalideBuffer.ForEach

/-! When a new buffer is nested in memory like the one that it takes its shape from. -/
namespace Vyasa.HalideBuffer

open Word Strided
open DeviceCopy (halide_dimension_t)

variable {dimensions : ℕ} {src : Shape}

section Statement

/-- The shapes that are looked at: no extent is empty, the buffer is small enough, and no two strides
are one. -/
structure Valid (dimensions : ℕ) (src : Shape) : Prop where
  extent : ∀ p < dimensions, 0 < (src p).extent
  small : ∏ p ∈ Finset.range dimensions, (src p).extent < 2 ^ 31
  stride : ∀ a < dimensions, ∀ b < dimensions, (src a).stride = (src b).stride → a = b

def Inside (dimensions : ℕ) (shape : Shape) (x : ℕ → ℤ) : Prop :=
  ∀ p < dimensions, (shape p).min ≤ x p ∧ x p < (shape p).min + (shape p).extent

def offset (dimensions : ℕ) (shape : Shape) (x : ℕ → ℤ) : ℤ :=
  ∑ p ∈ Finset.range dimensions, (x p - (shape p).min) * (shape p).stride

/-- The new buffer has the shape of the other one, no gaps, and its nesting in memory. -/
structure KeepsShape (dimensions : ℕ) (src dst : Shape) : Prop where
  min : ∀ p < dimensions, (dst p).min = (src p).min
  extent : ∀ p < dimensions, (dst p).extent = (src p).extent
  dense : ∃ order : Equiv.Perm ℕ, (∀ k, order k < dimensions ↔ k < dimensions) ∧
    (0 < dimensions → (dst (order 0)).stride = 1) ∧ ∀ k, k + 1 < dimensions →
      (dst (order (k + 1))).stride = (dst (order k)).stride * (dst (order k)).extent ∧
      (dst (order k)).stride ≤ (dst (order (k + 1))).stride
  below : ∀ x, Inside dimensions dst x →
    0 ≤ offset dimensions dst x ∧ offset dimensions dst x < ∏ p ∈ Finset.range dimensions, (src p).extent
  distinct : ∀ x y, Inside dimensions dst x → Inside dimensions dst y →
    offset dimensions dst x = offset dimensions dst y → ∀ p < dimensions, x p = y p
  nesting : ∀ a < dimensions, ∀ b < dimensions, 1 < (src a).extent → 1 < (src b).extent →
    ((dst a).stride < (dst b).stride ↔ (src a).stride < (src b).stride)

/-- How many larger strides wait when the pair `k` of dimensions has come, from the last dimension on,
where one is taken away after each pair. -/
def waiting (dimensions : ℕ) (src : Shape) (a k : ℕ) : ℕ :=
  Queue.backlog (fun p => (src p).stride) a 0 (Queue.pairs (down id dimensions)) k

/-- No dimension is taken away before one of a larger stride has come. -/
def InTime (dimensions : ℕ) (src : Shape) : Prop :=
  ∀ a < dimensions, ∀ b < dimensions, 1 < (src a).extent → 1 < (src b).extent →
    (src a).stride < (src b).stride → ∀ k < (dimensions - 1 - b) / 2, (dimensions - 1 - a) / 2 ≤ k →
      waiting dimensions src a k ≠ 0

end Statement

section Strides

variable {shape : Shape}

theorem rewriteStrides_of_le : ∀ {n k : ℕ}, n ≤ k → rewriteStrides n shape k = shape k
  | 0, _, _ => rfl
  | n + 1, k, h => by
    rw [rewriteStrides]
    dsimp only
    rw [Function.update_of_ne (by omega), rewriteStrides_of_le (by omega)]

/-- Without overflow the strides are the weights of the extents. -/
theorem rewriteStrides_eq (hPos : ∀ k < dimensions, 0 < (shape k).extent)
    (hSmall : weight (fun k => (shape k).extent) dimensions < 2 ^ 31) : ∀ {n : ℕ}, n ≤ dimensions → ∀ k < n,
      rewriteStrides n shape k = { shape k with stride := weight (fun k => (shape k).extent) k }
  | n + 1, hn, k, hk => by
    rw [rewriteStrides]
    dsimp only
    by_cases hTop : k = n
    · subst hTop
      rw [Function.update_self, rewriteStrides_of_le le_rfl]
      congr 1
      cases k with
      | zero => simp
      | succ j =>
        rw [if_neg (Nat.succ_ne_zero j), Nat.add_sub_cancel,
          rewriteStrides_eq hPos hSmall (by omega) j (Nat.lt_succ_self j), weight_succ, mul_comm]
        have hWeight : 0 < weight (fun k => (shape k).extent) (j + 1) := weight_pos fun i hi => hPos i (by omega)
        have hLe : weight (fun k => (shape k).extent) (j + 1) ≤ weight (fun k => (shape k).extent) dimensions :=
          weight_mono hPos (by omega) le_rfl
        rw [weight_succ] at hWeight hLe
        refine IntType.wrap_of_has ⟨?_, ?_⟩
        · simp only [IntType.min, IntType.int32, if_true]
          omega
        · simp only [IntType.max, IntType.int32, if_true]
          omega
    · rw [Function.update_of_ne hTop, rewriteStrides_eq hPos hSmall (by omega) k (by omega)]

end Strides

section Order

variable {σ : Equiv.Perm ℕ}

theorem lt_iff_of_fixed (hFixed : ∀ k, dimensions ≤ k → σ k = k) (k : ℕ) : σ k < dimensions ↔ k < dimensions := by
  constructor
  · intro h
    by_contra hNot
    rw [hFixed k (not_lt.mp hNot)] at h
    exact hNot h
  · intro h
    by_contra hNot
    rw [σ.injective (hFixed (σ k) (not_lt.mp hNot))] at hNot
    exact hNot h

/-- Where the sort puts the dimensions, and which strides they get there. -/
structure Arranged (dimensions : ℕ) (src : Shape) (σ : Equiv.Perm ℕ) : Prop where
  lt_iff : ∀ k, σ k < dimensions ↔ k < dimensions
  sorted : down σ dimensions = Queue.passes (fun p => (src p).stride) (dimensions - 1) (down id dimensions)
  result : ∀ k < dimensions, make_with_shape_of_helper dimensions src (σ k) =
    { src (σ k) with stride := weight (fun k => (src (σ k)).extent) k }

theorem weight_perm (hLt : ∀ k, σ k < dimensions ↔ k < dimensions) :
    weight (fun k => (src (σ k)).extent) dimensions = ∏ p ∈ Finset.range dimensions, (src p).extent :=
  Finset.prod_equiv σ (fun k => by simp [hLt]) fun _ _ => rfl

theorem exists_arranged (h : Valid dimensions src) : ∃ σ, Arranged dimensions src σ := by
  obtain ⟨σ, ⟨hShape, hUndo⟩, hKeep, hDown⟩ := tracks_sortOuter (i := dimensions - 1) (Tracks.refl src)
  have hFixed : ∀ k, dimensions ≤ k → σ k = k := by
    intro k hk
    rcases Nat.eq_zero_or_pos dimensions with rfl | hPos
    · rcases Nat.eq_zero_or_pos k with rfl | hk'
      · exact (List.cons.inj hDown).1
      · exact hKeep k hk'
    · exact hKeep k (by omega)
  have hLt := lt_iff_of_fixed hFixed
  refine ⟨σ, hLt, ?_, fun k hk => ?_⟩
  · cases dimensions with
    | zero => rfl
    | succ n => exact hDown
  · have hResult : make_with_shape_of_helper dimensions src =
        rewriteStrides dimensions (src ∘ σ) ∘ σ.symm := by
      rw [make_with_shape_of_helper, ← hShape]
      dsimp only
      rw [← hUndo (rewriteStrides dimensions _ ∘ σ.symm), Function.comp_assoc]
      simp
    have hPos : ∀ j < dimensions, 0 < ((src ∘ σ) j).extent := fun j hj => h.extent _ ((hLt j).mpr hj)
    rw [hResult, Function.comp_apply, Equiv.symm_apply_apply,
      rewriteStrides_eq hPos ((weight_perm hLt).trans_lt h.small) le_rfl k hk]
    rfl

theorem precedes_down : ∀ {n i j : ℕ}, j < i → i < n → List.Precedes (σ i) (σ j) (down σ n)
  | n + 1, i, j, hj, hi => by
    rcases Nat.lt_succ_iff_lt_or_eq.mp hi with hi | rfl
    · exact (precedes_down hj hi).cons
    · exact .head (mem_down.mpr ⟨j, hj, rfl⟩)

theorem nodup_down : ∀ n : ℕ, (down σ n).Nodup
  | 0 => List.nodup_nil
  | n + 1 => by
    refine List.nodup_cons.mpr ⟨fun hMem => ?_, nodup_down n⟩
    obtain ⟨k, hk, hEq⟩ := mem_down.mp hMem
    exact hk.ne (σ.injective hEq)

theorem distinct_down (h : Valid dimensions src) :
    Queue.Distinct (fun p => (src p).stride) (down id dimensions) := by
  refine List.Nodup.map_on (fun a ha b hb hEq => ?_) (nodup_down (σ := 1) dimensions)
  obtain ⟨_, ha', rfl⟩ := mem_down.mp ha
  obtain ⟨_, hb', rfl⟩ := mem_down.mp hb
  exact h.stride _ ha' _ hb' hEq

namespace Arranged

variable (hSort : Arranged dimensions src σ) (h : Valid dimensions src)

include hSort

theorem exists_index {p : ℕ} (hp : p < dimensions) : ∃ k < dimensions, σ k = p :=
  ⟨σ.symm p, (hSort.lt_iff _).mp (by rwa [Equiv.apply_symm_apply]), σ.apply_symm_apply p⟩

include h

/-- The place of a dimension in the sorted order decides its new stride. -/
theorem stride_lt_iff {i j : ℕ} (hi : i < dimensions) (hj : j < dimensions) (hExtent : 1 < (src (σ i)).extent) :
    weight (fun k => (src (σ k)).extent) i < weight (fun k => (src (σ k)).extent) j ↔ i < j := by
  have hPos : ∀ k < dimensions, 0 < (src (σ k)).extent := fun k hk => h.extent _ ((hSort.lt_iff k).mpr hk)
  constructor
  · intro hLt
    by_contra hNot
    exact hLt.not_ge (weight_mono hPos (not_lt.mp hNot) hi.le)
  · intro hLt
    have hStep : weight (fun k => (src (σ k)).extent) i < weight (fun k => (src (σ k)).extent) (i + 1) := by
      have hWeight := weight_pos fun k hk => hPos k (hk.trans hi)
      rw [weight_succ]
      nlinarith
    exact hStep.trans_le (weight_mono hPos hLt hj.le)

/-- A dimension of smaller stride stays below one of larger stride if it is in time. -/
theorem lt_iff_waiting {i j : ℕ} (hi : i < dimensions) (hj : j < dimensions)
    (hStride : (src (σ i)).stride < (src (σ j)).stride) :
    i < j ↔ ∀ k < (dimensions - 1 - σ j) / 2, (dimensions - 1 - σ i) / 2 ≤ k →
      waiting dimensions src (σ i) k ≠ 0 := by
  have hi' := (hSort.lt_iff i).mpr hi
  have hj' := (hSort.lt_iff j).mpr hj
  have hAt : ∀ p < dimensions, (down id dimensions)[dimensions - 1 - p]? = some p := by
    intro p hp
    rw [down_getElem? (by omega)]
    congr 1
    dsimp only [id]
    omega
  have hPrecedes := Queue.precedes_passes_iff (distinct_down h) hStride (hAt _ hi') (hAt _ hj')
  rw [length_down, ← hSort.sorted] at hPrecedes
  have hBefore : List.Precedes (σ i) (σ j) (down σ dimensions) ↔ ¬i < j := by
    constructor
    · intro hPre hLt
      exact (precedes_down hLt hj).not_symm (nodup_down dimensions) hPre
    · intro hNot
      refine precedes_down (lt_of_le_of_ne (not_lt.mp hNot) ?_) hi
      rintro rfl
      exact hStride.ne rfl
  rw [← not_not (a := i < j), ← hBefore, hPrecedes]
  simp only [not_exists, not_and]
  exact forall_congr' fun _ => forall_comm

omit h in
theorem offset_eq (x : ℕ → ℤ) : offset dimensions (make_with_shape_of_helper dimensions src) x =
    place dimensions (fun k => (src (σ k)).extent) fun k => x (σ k) - (src (σ k)).min := by
  rw [offset, place]
  refine (Finset.sum_equiv σ (fun k => by simp [hSort.lt_iff]) fun k hk => ?_).symm
  rw [hSort.result k (Finset.mem_range.mp hk)]

omit h in
theorem within {x : ℕ → ℤ} (hInside : Inside dimensions (make_with_shape_of_helper dimensions src) x) :
    Within dimensions (fun k => (src (σ k)).extent) fun k => x (σ k) - (src (σ k)).min := by
  intro k hk
  have hAt := hInside (σ k) ((hSort.lt_iff k).mpr hk)
  rw [hSort.result k hk] at hAt
  constructor <;> linarith [hAt.1, hAt.2]

/-- The new buffer keeps the nesting of the other one if it does for two dimensions at a time. -/
theorem keepsShape_iff_forall : KeepsShape dimensions src (make_with_shape_of_helper dimensions src) ↔
    ∀ i < dimensions, ∀ j < dimensions, 1 < (src (σ i)).extent → 1 < (src (σ j)).extent →
      (src (σ i)).stride < (src (σ j)).stride → i < j := by
  have hPos : ∀ k < dimensions, 0 < (src (σ k)).extent := fun k hk => h.extent _ ((hSort.lt_iff k).mpr hk)
  constructor
  · intro hKeeps i hi j hj hi' hj' hLt
    have hNew := (hKeeps.nesting (σ i) ((hSort.lt_iff i).mpr hi) (σ j) ((hSort.lt_iff j).mpr hj) hi' hj').mpr hLt
    rw [hSort.result i hi, hSort.result j hj] at hNew
    exact (hSort.stride_lt_iff h hi hj hi').mp hNew
  · intro hOrder
    refine ⟨fun p hp => ?_, fun p hp => ?_, ⟨σ, hSort.lt_iff, fun h0 => ?_, fun k hk => ⟨?_, ?_⟩⟩, fun x hx => ?_,
      fun x y hx hy hEq p hp => ?_, fun a ha b hb ha' hb' => ?_⟩
    · obtain ⟨k, hk, rfl⟩ := hSort.exists_index hp
      rw [hSort.result k hk]
    · obtain ⟨k, hk, rfl⟩ := hSort.exists_index hp
      rw [hSort.result k hk]
    · rw [hSort.result 0 h0]
      exact weight_zero fun k => (src (σ k)).extent
    · rw [hSort.result (k + 1) hk, hSort.result k (Nat.lt_of_succ_lt hk)]
      exact weight_succ k
    · rw [hSort.result (k + 1) hk, hSort.result k (Nat.lt_of_succ_lt hk)]
      exact weight_mono hPos k.le_succ hk.le
    · rw [hSort.offset_eq, ← weight_perm hSort.lt_iff]
      exact place_bounds (hSort.within hx)
    · obtain ⟨k, hk, rfl⟩ := hSort.exists_index hp
      rw [hSort.offset_eq, hSort.offset_eq] at hEq
      exact sub_left_injective (place_injective (hSort.within hx) (hSort.within hy) hEq k hk)
    · obtain ⟨i, hi, rfl⟩ := hSort.exists_index ha
      obtain ⟨j, hj, rfl⟩ := hSort.exists_index hb
      rw [hSort.result i hi, hSort.result j hj]
      refine (hSort.stride_lt_iff h hi hj ha').trans ⟨fun hLt => ?_, hOrder i hi j hj ha' hb'⟩
      by_contra hNot
      rcases (not_lt.mp hNot).lt_or_eq with hGt | hEq
      · exact absurd (hOrder j hj i hi hb' ha' hGt) hLt.not_gt
      · exact hLt.ne' (σ.injective (h.stride _ hb _ ha hEq))

end Arranged

/-- The new buffer is nested like the other one if every dimension is in time. -/
theorem keepsShape_iff (h : Valid dimensions src) :
    KeepsShape dimensions src (make_with_shape_of_helper dimensions src) ↔ InTime dimensions src := by
  obtain ⟨σ, hSort⟩ := exists_arranged h
  rw [hSort.keepsShape_iff_forall h]
  constructor
  · intro hOrder a ha b hb ha' hb' hLt
    obtain ⟨i, hi, rfl⟩ := hSort.exists_index ha
    obtain ⟨j, hj, rfl⟩ := hSort.exists_index hb
    exact (hSort.lt_iff_waiting h hi hj hLt).mp (hOrder i hi j hj ha' hb' hLt)
  · intro hTime i hi j hj hi' hj' hLt
    exact (hSort.lt_iff_waiting h hi hj hLt).mpr
      (hTime _ ((hSort.lt_iff i).mpr hi) _ ((hSort.lt_iff j).mpr hj) hi' hj' hLt)

end Order

section Points

/-- Dimensions of extent 2 with the strides. -/
private def strided (strides : List ℤ) : Shape := fun p => ⟨0, 2, strides.getD p 0⟩

private theorem valid_strided (strides : List ℤ) (hLen : strides.length ≤ 3) (hNodup : strides.Nodup) :
    Valid strides.length (strided strides) where
  extent _ _ := show (0 : ℤ) < 2 by decide
  small := by
    rw [show (∏ p ∈ Finset.range strides.length, (strided strides p).extent) = 2 ^ strides.length by
      simp [strided]]
    exact (pow_le_pow_right₀ (by decide) hLen).trans_lt (by decide)
  stride a ha b hb hEq := by
    simp only [strided, List.getD_eq_getElem _ _ ha, List.getD_eq_getElem _ _ hb] at hEq
    exact (List.Nodup.getElem_inj_iff hNodup).mp hEq

/-- The order of an interleaved image. -/
theorem keepsShape_interleaved :
    KeepsShape 3 (strided [2, 4, 1]) (make_with_shape_of_helper 3 (strided [2, 4, 1])) := by
  have hTime : ∀ a < 3, ∀ b < 3, (strided [2, 4, 1] a).stride < (strided [2, 4, 1] b).stride →
      ∀ k < (3 - 1 - b) / 2, (3 - 1 - a) / 2 ≤ k → waiting 3 (strided [2, 4, 1]) a k ≠ 0 := by decide
  exact (keepsShape_iff (valid_strided [2, 4, 1] (by decide) (by decide))).mpr
    fun a ha b hb _ _ => hTime a ha b hb

/-- A buffer with its dimensions in the reverse order gets other strides than that. -/
theorem not_keepsShape_reversed : Valid 3 (strided [4, 2, 1]) ∧
    ¬KeepsShape 3 (strided [4, 2, 1]) (make_with_shape_of_helper 3 (strided [4, 2, 1])) := by
  have h := valid_strided [4, 2, 1] (by decide) (by decide)
  refine ⟨h, fun hKeeps => ?_⟩
  have hNesting := hKeeps.nesting 1 (by decide) 0 (by decide) (by decide) (by decide)
  exact absurd hNesting (by decide)

end Points

end Vyasa.HalideBuffer
