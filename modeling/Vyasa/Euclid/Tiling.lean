import Mathlib

/-! Intervals of integers cut into tiles of one size, and put together from an
inner and an outer interval. -/
namespace Euclid

/-- The `n` integers from `m` on. -/
def interval (m n : Int) : List Int := (List.range n.toNat).map fun k : Nat => m + k

@[simp] theorem mem_interval {m n x : Int} : x ∈ interval m n ↔ m ≤ x ∧ x < m + n := by
  simp only [interval, List.mem_map, List.mem_range]
  constructor
  · rintro ⟨k, hk, rfl⟩
    omega
  · rintro ⟨hl, hu⟩
    exact ⟨(x - m).toNat, by omega, by omega⟩

theorem nodup_interval (m n : Int) : (interval m n).Nodup := by
  refine List.Nodup.map (fun i j h => ?_) List.nodup_range
  simpa using h

theorem count_interval (m n x : Int) :
    (interval m n).count x = if m ≤ x ∧ x < m + n then 1 else 0 := by
  rw [(nodup_interval m n).count]
  exact if_congr mem_interval rfl rfl

/-- A list without repetition is an interval when it has its members. -/
theorem perm_interval {l : List Int} {m n : Int} (hl : l.Nodup)
    (h : ∀ x, x ∈ l ↔ m ≤ x ∧ x < m + n) : l.Perm (interval m n) :=
  (List.perm_ext_iff_of_nodup hl (nodup_interval m n)).mpr fun x => (h x).trans mem_interval.symm

theorem nodup_product (m n m' n' : Int) : (interval m n ×ˢ interval m' n').Nodup :=
  (nodup_interval m n).product (nodup_interval m' n')

theorem mem_product {m n m' n' : Int} {p : Int × Int} :
    p ∈ interval m n ×ˢ interval m' n' ↔
      (m ≤ p.1 ∧ p.1 < m + n) ∧ m' ≤ p.2 ∧ p.2 < m' + n' := by
  rw [List.mem_product, mem_interval, mem_interval]

/-- The element of a tile. -/
abbrev tile (m f : Int) (p : Int × Int) : Int := p.1 * f + m + p.2

theorem tile_injOn {m f n : Int} {p q : Int × Int} (hp : p ∈ interval 0 n ×ˢ interval 0 f)
    (hq : q ∈ interval 0 n ×ˢ interval 0 f) (h : tile m f p = tile m f q) : p = q := by
  rw [mem_product] at hp hq
  have hf : 0 < f := by omega
  have hp2 : p.2 % f = p.2 := Int.emod_eq_of_lt hp.2.1 (by omega)
  have hq2 : q.2 % f = q.2 := Int.emod_eq_of_lt hq.2.1 (by omega)
  have hSum : p.2 + p.1 * f = q.2 + q.1 * f := by
    simp only [tile] at h
    omega
  have hInner : p.2 = q.2 := by
    have hMod := congrArg (· % f) hSum
    simpa only [Int.add_mul_emod_self_right, hp2, hq2] using hMod
  have hOuter : p.1 = q.1 := by
    rw [hInner, add_right_inj] at hSum
    exact Int.eq_of_mul_eq_mul_right hf.ne' hSum
  exact Prod.ext hOuter hInner

theorem tile_mem {m f n : Int} (hf : 0 < f) {p : Int × Int}
    (hp : p ∈ interval 0 n ×ˢ interval 0 f) :
    m ≤ tile m f p ∧ tile m f p < m + n * f := by
  rw [mem_product] at hp
  have hl : 0 ≤ p.1 * f := Int.mul_nonneg hp.1.1 hf.le
  have hu : (p.1 + 1) * f ≤ n * f := Int.mul_le_mul_of_nonneg_right (by omega) hf.le
  rw [add_mul, one_mul] at hu
  simp only [tile]
  omega

/-- The tile of an element, and its place there. -/
theorem exists_tile {m f n x : Int} (hf : 0 < f) (hl : m ≤ x) (hu : x < m + n * f) :
    ∃ p ∈ interval 0 n ×ˢ interval 0 f, tile m f p = x := by
  refine ⟨((x - m) / f, (x - m) % f), mem_product.mpr ⟨⟨?_, ?_⟩, ?_, ?_⟩, ?_⟩
  · exact Int.ediv_nonneg (by omega) hf.le
  · rw [zero_add]
    exact Int.ediv_lt_of_lt_mul hf (by omega)
  · exact Int.emod_nonneg _ hf.ne'
  · rw [zero_add]
    exact Int.emod_lt_of_pos _ hf
  · have hStep := Int.ediv_mul_add_emod (x - m) f
    simp only [tile]
    omega

/-- Tiles of one size cover an interval, each element once. -/
theorem tiles_perm {m f n : Int} (hf : 0 < f) :
    ((interval 0 n ×ˢ interval 0 f).map (tile m f)).Perm (interval m (n * f)) := by
  refine perm_interval ((nodup_product ..).map_on fun p hp q hq => tile_injOn hp hq) fun x => ?_
  rw [List.mem_map]
  constructor
  · rintro ⟨p, hp, rfl⟩
    exact tile_mem hf hp
  · rintro ⟨hl, hu⟩
    exact exists_tile hf hl hu

theorem interval_filter {m n k : Int} (h : n ≤ k) :
    ((interval m k).filter (· < m + n)).Perm (interval m n) := by
  refine perm_interval ((nodup_interval m k).filter _) fun x => ?_
  rw [List.mem_filter, mem_interval, decide_eq_true_eq]
  omega

/-- Rounding up to whole tiles. -/
theorem le_tiles {n f : Int} (hf : 0 < f) : n ≤ (n - 1 + f) / f * f := by
  have hStep := Int.ediv_mul_add_emod (n - 1 + f) f
  have hLess := Int.emod_lt_of_pos (n - 1 + f) hf
  omega

theorem tiles_of_dvd {n f : Int} (hf : 0 < f) (h : f ∣ n) : (n - 1 + f) / f * f = n := by
  obtain ⟨k, rfl⟩ := h
  have hQuot : (f * k - 1 + f) / f = k := by
    rw [Int.ediv_eq_iff_of_pos hf, mul_comm f k]
    omega
  rw [hQuot, mul_comm]

/-- The last tile shifted inwards: every element is still in a tile. -/
theorem exists_shifted_tile {m f n x : Int} (hf : 0 < f) (hl : m ≤ x) (hu : x < m + n) :
    ∃ p ∈ interval 0 ((n - 1 + f) / f) ×ˢ interval 0 f,
      min (p.1 * f + m) (m + n - f) + p.2 = x := by
  obtain ⟨p, hp, hx⟩ := exists_tile hf hl (hu.trans_le (Int.add_le_add_left (le_tiles hf) m))
  simp only [tile] at hx
  rw [mem_product] at hp
  rcases le_or_gt (p.1 * f + m) (m + n - f) with hInside | hShifted
  · exact ⟨p, mem_product.mpr hp, by rw [min_eq_left hInside, hx]⟩
  · refine ⟨(p.1, x - (m + n - f)), mem_product.mpr ⟨hp.1, by omega, by omega⟩, ?_⟩
    rw [min_eq_right hShifted.le]
    omega

/-- The place of an element of a product in the interval of the pairs. -/
theorem fused_mem {m n m' n' : Int} (hn : 0 < n) {x : Int} (hl : 0 ≤ x) (hu : x < n * n') :
    (x / n + m', x % n + m) ∈ interval m' n' ×ˢ interval m n := by
  have hOuter : 0 ≤ x / n := Int.ediv_nonneg hl hn.le
  have hOuterLt : x / n < n' := Int.ediv_lt_of_lt_mul hn (by rwa [mul_comm])
  have hInner := Int.emod_nonneg x hn.ne'
  have hInnerLt := Int.emod_lt_of_pos x hn
  rw [mem_product]
  dsimp only
  omega

theorem fuse_injOn {m n m' : Int} {x y : Int}
    (h : (x / n + m', x % n + m) = (y / n + m', y % n + m)) : x = y := by
  rw [Prod.mk.injEq, add_left_inj, add_left_inj] at h
  rw [← Int.ediv_mul_add_emod x n, h.1, h.2, Int.ediv_mul_add_emod]

/-- Quotients and remainders go through all pairs, each once. -/
theorem fuse_perm (m m' n' : Int) {n : Int} (hn : 0 < n) :
    ((interval 0 (n * n')).map fun x => (x / n + m', x % n + m)).Perm
      (interval m' n' ×ˢ interval m n) := by
  refine (List.perm_ext_iff_of_nodup ((nodup_interval ..).map fun x y => fuse_injOn)
    (nodup_product ..)).mpr fun p => ?_
  rw [List.mem_map]
  constructor
  · rintro ⟨x, hx, rfl⟩
    rw [mem_interval, zero_add] at hx
    exact fused_mem hn hx.1 hx.2
  · intro hp
    rw [mem_product] at hp
    have hMem := tile_mem (m := 0) (n := n') (f := n) hn
      (p := (p.1 - m', p.2 - m)) (mem_product.mpr (by dsimp only; omega))
    refine ⟨tile 0 n (p.1 - m', p.2 - m), by rw [mem_interval, mul_comm n]; omega, ?_⟩
    have hInner : (p.2 - m) % n = p.2 - m := Int.emod_eq_of_lt (by omega) (by omega)
    have hOuter : (p.2 - m) / n = 0 := Int.ediv_eq_zero_of_lt (by omega) (by omega)
    have hForm : tile 0 n (p.1 - m', p.2 - m) = p.2 - m + (p.1 - m') * n := by
      simp only [tile]
      omega
    rw [hForm, Int.add_mul_ediv_right _ _ hn.ne', Int.add_mul_emod_self_right, hInner, hOuter]
    exact Prod.ext (by dsimp only; omega) (by dsimp only; omega)

end Euclid
