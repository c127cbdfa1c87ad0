import Vyasa.DeviceCopy.Exact

/-! Copies between buffers are exact unless the loop that folds dimensions has no end, a product
of 32 bits overflows, or one place of the destination is to hold two elements. -/
namespace Vyasa.DeviceCopy

open Relocate Strided Word

variable {src dst : halide_buffer_t} {src_host dst_host : Bool} {P : Pairs} {turns : ℕ} {c : device_copy}
  {x : List Int} {y : List ℕ}

/-- The first element of the destination is one of the source. -/
theorem starts_inside (h : Inside (P.map Prod.fst) (coords P (P.map fun _ => 0))) :
    ∀ p ∈ P, p.1.min ≤ p.2.min ∧ p.2.min < p.1.min + p.1.extent := by
  induction P with
  | nil => exact List.forall_mem_nil _
  | cons p P ih =>
    rw [List.map_cons, List.map_cons, coords_cons, Nat.cast_zero, add_zero] at h
    obtain ⟨hHead, hRest⟩ := List.forall₂_cons.mp h
    exact List.forall_mem_cons.mpr ⟨hHead, ih hRest⟩

/-- The first element of the source is where the source is. -/
theorem inside_mins (h : ∀ p ∈ P, p.1.min ≤ p.2.min ∧ p.2.min < p.1.min + p.1.extent) :
    Inside (P.map Prod.fst) (P.map fun p => p.1.min) ∧ offset (P.map Prod.fst) (P.map fun p => p.1.min) = 0 := by
  induction P with
  | nil => exact ⟨List.Forall₂.nil, rfl⟩
  | cons p P ih =>
    obtain ⟨hHead, hRest⟩ := List.forall_mem_cons.mp h
    obtain ⟨hInside, hOffset⟩ := ih hRest
    have hExtent : p.1.min < p.1.min + p.1.extent := by omega
    refine ⟨List.Forall₂.cons ⟨Int.le_refl _, hExtent⟩ hInside, ?_⟩
    rw [offset] at hOffset
    rw [offset, List.map_cons, List.map_cons, List.zipWith_cons_cons, List.sum_cons, hOffset, Int.sub_self]
    simp

/-- What holds of two buffers when there is an element to copy. -/
structure Started (P : Pairs) : Prop where
  turns : ∀ p ∈ P, 0 < turnsOf p
  start : ∀ p ∈ P, p.1.min ≤ p.2.min ∧ p.2.min < p.1.min + p.1.extent

/-- The products of 32 bits come to the right start if and only if none overflows. -/
theorem Started.begins_within (h : Started P) (hValid : ∀ p ∈ P, p.1.Valid ∧ p.2.Valid) :
    (-begins P ≤ wrappedBegins P ∧ wrappedBegins P ≤ begins P) ∧
      (wrappedBegins P = begins P ↔ ∀ p ∈ P, p.1.stride * (p.2.min - p.1.min) < 2 ^ 31) := by
  have hNonneg (p) (hp : p ∈ P) : 0 ≤ p.1.stride * (p.2.min - p.1.min) := by
    have hStart := (h.start p hp).1
    exact Int.mul_nonneg (hValid p hp).1.stride.2 (by omega)
  have hWrap (p) (hp : p ∈ P) : IntType.int32.wrap (p.1.stride * IntType.int32.wrap (p.2.min - p.1.min)) =
      IntType.int32.wrap (p.1.stride * (p.2.min - p.1.min)) := by
    obtain ⟨hLe, hLt⟩ := h.start p hp
    obtain ⟨⟨-, hMax⟩, -⟩ := (hValid p hp).1.extent
    have hExtent : p.1.extent < 2 ^ 31 := by
      change p.1.extent ≤ 2 ^ 31 - 1 at hMax
      omega
    rw [(int32_eq_iff (z := p.2.min - p.1.min) (by omega)).mpr (by omega)]
  have hEq : wrappedBegins P = (P.map fun p => IntType.int32.wrap (p.1.stride * (p.2.min - p.1.min))).sum :=
    congrArg List.sum (List.map_congr_left hWrap)
  obtain ⟨hBounds, hSame⟩ := sum_within hNonneg fun p hp => int32_within (hNonneg p hp)
  rw [hEq, begins]
  refine ⟨hBounds, hSame.trans (forall₂_congr fun p hp => ?_)⟩
  exact int32_eq_iff (hNonneg p hp)

/-- No stride differs where there is a step to take, and the start is right. -/
theorem narrow_iff (hZip : src.dim.zip dst.dim = P) (h : Started P) (hValid : ∀ p ∈ P, p.1.Valid ∧ p.2.Valid)
    (hBytes : 0 < dst.bytes) :
    ((∀ p ∈ P, 2 ≤ turnsOf p → IntType.int32.wrap (p.2.stride * dst.bytes) = p.2.stride * dst.bytes ∧
        IntType.int32.wrap (p.1.stride * dst.bytes) = p.1.stride * dst.bytes) ∧
      wrappedBegins P * (dst.bytes : Int) = begins P * dst.bytes) ↔ Narrow src dst := by
  have hD (p) (hp : p ∈ P) : IntType.int32.wrap (p.2.stride * dst.bytes) = p.2.stride * dst.bytes ↔
      p.2.stride * (dst.bytes : Int) < 2 ^ 31 :=
    int32_eq_iff (Int.mul_nonneg (hValid p hp).2.stride.2 (Int.natCast_nonneg _))
  have hS (p) (hp : p ∈ P) : IntType.int32.wrap (p.1.stride * dst.bytes) = p.1.stride * dst.bytes ↔
      p.1.stride * (dst.bytes : Int) < 2 ^ 31 :=
    int32_eq_iff (Int.mul_nonneg (hValid p hp).1.stride.2 (Int.natCast_nonneg _))
  have hTurns (p : halide_dimension_t × halide_dimension_t) : 2 ≤ turnsOf p ↔ 2 ≤ p.2.extent := by
    rw [turnsOf]
    omega
  have hStart : wrappedBegins P * (dst.bytes : Int) = begins P * dst.bytes ↔ wrappedBegins P = begins P :=
    Int.mul_eq_mul_right_iff (by omega)
  rw [hStart, (h.begins_within hValid).2]
  constructor
  · rintro ⟨hStrides, hBegins⟩
    refine ⟨?_, ?_, ?_⟩
    all_goals rw [hZip]
    · exact hBegins
    · exact fun p hp hTwo => (hS p hp).mp (hStrides p hp ((hTurns p).mpr hTwo)).2
    · exact fun p hp hTwo => (hD p hp).mp (hStrides p hp ((hTurns p).mpr hTwo)).1
  · rintro ⟨hBegins, hSrc, hDst⟩
    rw [hZip] at hBegins hSrc hDst
    refine ⟨fun p hp hTwo => ⟨?_, ?_⟩, hBegins⟩
    · exact (hD p hp).mpr (hDst p hp ((hTurns p).mp hTwo))
    · exact (hS p hp).mpr (hSrc p hp ((hTurns p).mp hTwo))

theorem sharedAlike_iff (hSrc : src.dim = P.map Prod.fst) (hDst : dst.dim = P.map Prod.snd)
    (hBytes : 0 < dst.bytes) :
    (∀ y z, Steps turnsOf P y → Steps turnsOf P z →
      dot (fun p => p.2.stride * dst.bytes) P y = dot (fun p => p.2.stride * dst.bytes) P z →
      dot (fun p => p.1.stride * dst.bytes) P y = dot (fun p => p.1.stride * dst.bytes) P z) ↔
      SharedAlike src dst := by
  have hCancel (a b : Int) : (dst.bytes : Int) * a = dst.bytes * b ↔ a = b :=
    Int.mul_eq_mul_left_iff (by omega)
  simp only [SharedAlike, hSrc, hDst, dot_mul, hCancel]
  constructor
  · intro h x z hx hz hEq
    obtain ⟨y, hy, rfl⟩ := inside_iff.mp hx
    obtain ⟨w, hw, rfl⟩ := inside_iff.mp hz
    rw [offset_dst hy, offset_dst hw] at hEq
    rw [offset_src hy, offset_src hw, h y w hy hw hEq]
  · intro h y z hy hz hEq
    have hOffset := h _ _ (inside_iff.mpr ⟨y, hy, rfl⟩) (inside_iff.mpr ⟨z, hz, rfl⟩)
    rw [offset_dst hy, offset_dst hz, offset_src hy, offset_src hz] at hOffset
    exact Int.add_left_cancel (hOffset hEq)

section Copyable

variable (h : Copyable src src_host dst dst_host) (hSrc : src.dim = P.map Prod.fst) (hDst : dst.dim = P.map Prod.snd)
include h hSrc hDst

theorem Copyable.started (hx : ∃ x, Inside dst.dim x) : Started P := by
  obtain ⟨x, hx⟩ := hx
  rw [hDst] at hx
  obtain ⟨y, hy, rfl⟩ := inside_iff.mp hx
  have hZero : Inside dst.dim (coords P (P.map fun _ => 0)) := by
    rw [hDst]
    exact inside_iff.mpr ⟨_, steps_zero hy.pos, rfl⟩
  have hInside := h.inside _ hZero
  rw [hSrc] at hInside
  exact ⟨hy.pos, starts_inside hInside⟩

theorem Copyable.base_ne (hStarted : Started P) (hBytes : 0 < dst.bytes) :
    src.base src_host ≠ dst.base dst_host := by
  obtain ⟨hMins, hOffset⟩ := inside_mins hStarted.start
  have hZero := steps_zero hStarted.turns
  have hPlace := h.apart _ _ (hSrc ▸ hMins) (hDst ▸ inside_iff.mpr ⟨_, hZero, rfl⟩) 0 (h.bytes ▸ hBytes) 0 hBytes
  rw [halide_buffer_t.address, halide_buffer_t.address, hSrc, hDst, hOffset, offset_dst hZero, dot_zero] at hPlace
  simpa using hPlace

/-- The strides of 32 bits are no larger than the right ones. -/
theorem Copyable.within (hValid : ∀ p ∈ P, p.1.Valid ∧ p.2.Valid) (hStarted : Started P) :
    Within turnsOf P dst.bytes (fun p => p.2.stride * dst.bytes) (fun p => p.1.stride * dst.bytes)
      (fun p => IntType.int32.wrap (p.2.stride * dst.bytes))
      (fun p => IntType.int32.wrap (p.1.stride * dst.bytes))
      (begins P * dst.bytes) (wrappedBegins P * dst.bytes) := by
  have hD (p) (hp : p ∈ P) : 0 ≤ p.2.stride * (dst.bytes : Int) :=
    Int.mul_nonneg (hValid p hp).2.stride.2 (Int.natCast_nonneg _)
  have hS (p) (hp : p ∈ P) : 0 ≤ p.1.stride * (dst.bytes : Int) :=
    Int.mul_nonneg (hValid p hp).1.stride.2 (Int.natCast_nonneg _)
  obtain ⟨⟨hGe, hLe⟩, -⟩ := hStarted.begins_within hValid
  have hTop := steps_top hStarted.turns
  have hInside : Inside dst.dim (coords P (top turnsOf P)) := hDst ▸ inside_iff.mpr ⟨_, hTop, rfl⟩
  have hDstEnd := h.dst_offsets _ hInside
  have hSrcEnd := h.src_offsets _ (h.inside _ hInside)
  rw [hDst, offset_dst hTop] at hDstEnd
  rw [hSrc, offset_src hTop, h.bytes, mul_add, Int.mul_comm _ (begins P)] at hSrcEnd
  refine ⟨fun p _ => Int.dvd_mul_left _ _, hD, hS, fun p hp => int32_within (hD p hp),
    fun p hp => int32_within (hS p hp), ⟨?_, ?_⟩, ?_, ?_⟩
  · rw [← Int.neg_mul]
    exact Int.mul_le_mul_of_nonneg_right hGe (Int.natCast_nonneg _)
  · exact Int.mul_le_mul_of_nonneg_right hLe (Int.natCast_nonneg _)
  · rw [dot_mul]
    exact hDstEnd
  · rw [dot_mul]
    exact hSrcEnd

/-- Two buffers with an element to copy. -/
theorem Copyable.exact_iff (hZip : src.dim.zip dst.dim = P) (hValid : ∀ p ∈ P, p.1.Valid ∧ p.2.Valid)
    (hStarted : Started P) (hBytes : 0 < dst.bytes)
    (hc : make_buffer_copy turns src src_host dst dst_host = some c) :
    Exact (fun a b => ∃ x, Inside dst.dim x ∧ ∃ j < dst.bytes, a = dst.address dst_host x j ∧
      b = src.address src_host x j) (copy_memory c) ↔ Narrow src dst ∧ SharedAlike src dst := by
  have hPlaces := funext₂ fun a b => propext
    (places_iff src_host dst_host hSrc hDst h.bytes a b)
  have hWithin := h.within hSrc hDst hValid hStarted
  have hApart (a b c) (hab : Places turnsOf P dst.bytes (dst.base dst_host) (src.base src_host)
      (fun p => p.2.stride * dst.bytes) (fun p => p.1.stride * dst.bytes) (begins P * dst.bytes) a b)
      (hbc : Places turnsOf P dst.bytes (dst.base dst_host) (src.base src_host)
      (fun p => p.2.stride * dst.bytes) (fun p => p.1.stride * dst.bytes) (begins P * dst.bytes) b c) : False := by
    rw [← hPlaces] at hab hbc
    obtain ⟨x, hx, i, hi, -, rfl⟩ := hab
    obtain ⟨y, hy, j, hj, hEq, -⟩ := hbc
    exact h.apart x y (h.inside x hx) hy i (h.bytes ▸ hi) j hj hEq
  rw [hPlaces, hWithin.exact_iff hBytes hStarted.turns hApart (fun a b hab hEq => hApart a b b hab (hEq ▸ hab))
    (h.carries (Nat.ne_of_gt hBytes) hSrc hDst hValid (h.base_ne hSrc hDst hStarted hBytes) hc)]
  exact and_congr (narrow_iff hZip hStarted hValid hBytes) (sharedAlike_iff hSrc hDst hBytes)

end Copyable

/-- Without an element to copy, no byte changes. -/
theorem Copyable.copy_memory_of_empty (h : Copyable src src_host dst dst_host) (hBytes : dst.bytes ≠ 0)
    (hNone : ¬ ∃ x, Inside dst.dim x) (hc : make_buffer_copy turns src src_host dst dst_host = some c)
    (memory : Memory) : copy_memory c memory = memory := by
  obtain ⟨P, -, hSrc, hDst, hValid⟩ := h.exists_pairs
  by_cases hSame : c.src = c.dst
  · rw [copy_memory, if_neg (not_not_intro hSame)]
  · have hBase : src.base src_host ≠ dst.base dst_host := by
      rw [h.make_buffer_copy_eq hBytes] at hc
      obtain ⟨hcSrc, hcDst, -⟩ := fold_contiguous_offsets turns (small_unfolded h) hc
      rwa [hcSrc, hcDst] at hSame
    refine (h.carries hBytes hSrc hDst hValid hBase hc).of_empty (fun a b hab => ?_) memory
    obtain ⟨y, hy, -⟩ := hab
    exact hNone ⟨_, hDst ▸ inside_iff.mpr ⟨y, hy, rfl⟩⟩

theorem copiesExactly_iff_exact : CopiesExactly src src_host dst dst_host ↔
    ∃ turns c, make_buffer_copy turns src src_host dst dst_host = some c ∧
      Exact (fun a b => ∃ x, Inside dst.dim x ∧ ∃ j < dst.bytes, a = dst.address dst_host x j ∧
        b = src.address src_host x j) (copy_memory c) := by
  refine exists₂_congr fun turns c => and_congr_right fun _ => forall_congr' fun memory => and_congr ?_ ?_
  · constructor
    · rintro h _ _ ⟨x, hx, j, hj, rfl, rfl⟩
      exact h x hx j hj
    · exact fun h x hx j hj => h _ _ ⟨x, hx, j, hj, rfl, rfl⟩
  · refine forall_congr' fun a => imp_congr_left ?_
    constructor
    · rintro h _ ⟨x, hx, j, hj, hEq, -⟩
      exact h x hx j hj hEq
    · exact fun h x hx j hj hEq => h _ ⟨x, hx, j, hj, hEq, rfl⟩

/-- A copy is exact unless the loop that folds dimensions has no end, or there is an element to
copy and a product overflows or elements share a place in the destination only. -/
theorem copies_exactly_iff (h : Copyable src src_host dst dst_host) :
    CopiesExactly src src_host dst dst_host ↔ dst.bytes = 0 ∨
      (¬ Endless dst.bytes (tasks src dst) ∧
        ((∃ x, Inside dst.dim x) → Narrow src dst ∧ SharedAlike src dst)) := by
  by_cases hBytes : dst.bytes = 0
  · refine iff_of_true ⟨0, zero, h.make_buffer_copy_of_no_bytes hBytes 0, fun memory => ⟨?_, ?_⟩⟩ (Or.inl hBytes)
    · intro x _ j hj
      omega
    · intro a _
      rfl
  · rw [or_iff_right hBytes, ← h.exists_make_buffer_copy_iff hBytes, copiesExactly_iff_exact]
    by_cases hx : ∃ x, Inside dst.dim x
    · obtain ⟨P, hZip, hSrc, hDst, hValid⟩ := h.exists_pairs
      have hExact (turns c) (hc : make_buffer_copy turns src src_host dst dst_host = some c) :=
        h.exact_iff hSrc hDst hZip hValid (h.started hSrc hDst hx) (Nat.pos_of_ne_zero hBytes) hc
      constructor
      · rintro ⟨turns, c, hc, hCopied⟩
        exact ⟨⟨turns, c, hc⟩, fun _ => (hExact turns c hc).mp hCopied⟩
      · rintro ⟨⟨turns, c, hc⟩, hRight⟩
        exact ⟨turns, c, hc, (hExact turns c hc).mpr (hRight hx)⟩
    · constructor
      · rintro ⟨turns, c, hc, -⟩
        exact ⟨⟨turns, c, hc⟩, fun h => absurd h hx⟩
      · rintro ⟨⟨turns, c, hc⟩, -⟩
        refine ⟨turns, c, hc, fun memory => ⟨?_, fun a _ => ?_⟩⟩
        · rintro a b ⟨x, hInside, -⟩
          exact absurd ⟨x, hInside⟩ hx
        · rw [h.copy_memory_of_empty hBytes hx hc]

/-- A row of bytes. -/
def row (host : Address) (min extent stride : Int) : halide_buffer_t := ⟨0, host, 8, [⟨min, extent, stride⟩]⟩

theorem bytes_row (host : Address) (min extent stride : Int) : (row host min extent stride).bytes = 1 := by
  simp [halide_buffer_t.bytes, row]

theorem inside_row {host : Address} {min extent stride : Int} :
    Inside (row host min extent stride).dim x ↔ ∃ i, (min ≤ i ∧ i < min + extent) ∧ x = [i] := by
  rw [row, Inside, List.forall₂_cons_left_iff]
  simp only [List.forall₂_nil_left_iff]
  constructor
  · rintro ⟨i, _, hi, rfl, rfl⟩
    exact ⟨i, hi, rfl⟩
  · rintro ⟨i, hi, rfl⟩
    exact ⟨i, _, hi, rfl, rfl⟩

theorem offset_row (host : Address) (min extent stride i : Int) :
    offset (row host min extent stride).dim [i] = stride * (i - min) :=
  Int.add_zero _

theorem address_row (host : Address) (min extent stride i : Int) (j : ℕ) :
    (row host min extent stride).address true [i] j = host + ((stride * (i - min) + j : Int) : BitVec 64) := by
  rw [halide_buffer_t.address, bytes_row, offset_row, Nat.cast_one, Int.one_mul]
  rfl

/-- Every other byte of a row is set from a part of another row. -/
theorem copies_exactly_iff_row : CopiesExactly (row 0 0 4 1) true (row 64 1 2 2) true := by
  have hCopyable : Copyable (row 0 0 4 1) true (row 64 1 2 2) true := by
    refine ⟨?_, ?_, rfl, by decide, by rw [bytes_row, bytes_row], ?_, ?_, ?_, ?_⟩
    · exact List.forall_mem_singleton.mpr ⟨by decide, by decide, by decide⟩
    · exact List.forall_mem_singleton.mpr ⟨by decide, by decide, by decide⟩
    · intro x hx
      obtain ⟨i, ⟨hMin, hMax⟩, rfl⟩ := inside_row.mp hx
      exact inside_row.mpr ⟨i, ⟨by omega, by omega⟩, rfl⟩
    · intro x hx
      obtain ⟨i, ⟨hMin, hMax⟩, rfl⟩ := inside_row.mp hx
      rw [bytes_row, offset_row]
      omega
    · intro x hx
      obtain ⟨i, ⟨hMin, hMax⟩, rfl⟩ := inside_row.mp hx
      rw [bytes_row, offset_row]
      omega
    · intro x y hx hy i hi j hj hEq
      obtain ⟨k, ⟨hMin, hMax⟩, rfl⟩ := inside_row.mp hx
      obtain ⟨l, ⟨hMin', hMax'⟩, rfl⟩ := inside_row.mp hy
      rw [bytes_row] at hi hj
      rw [address_row, address_row] at hEq
      have hCast : ((1 * (k - 0) + i : Int) : BitVec 64) = ((64 + (2 * (l - 1) + j) : Int) : BitVec 64) := by
        rw [Int.cast_add 64, Int.cast_ofNat, ← hEq, zero_add]
      have := intCast_inj (by omega) (by omega) hCast
      omega
  refine (copies_exactly_iff hCopyable).mpr (Or.inr ⟨fun hEndless => ?_, fun _ => ⟨⟨?_, ?_, ?_⟩, ?_⟩⟩)
  · have hPacked : Packed 1 [⟨2, 1, 2⟩] := hEndless.packed
    exact absurd hPacked.2.1 (by decide)
  · exact List.forall_mem_singleton.mpr (by decide)
  · exact List.forall_mem_singleton.mpr (by decide)
  · exact List.forall_mem_singleton.mpr (by decide)
  · intro x y hx hy hEq
    obtain ⟨k, -, rfl⟩ := inside_row.mp hx
    obtain ⟨l, -, rfl⟩ := inside_row.mp hy
    rw [offset_row, offset_row] at hEq ⊢
    omega

/-- The loop that folds dimensions has no end for a row of no elements. -/
theorem make_buffer_copy_no_elements :
    Copyable (row 0 0 0 1) true (row 64 0 0 1) true ∧ ¬ CopiesExactly (row 0 0 0 1) true (row 64 0 0 1) true := by
  have hNone (host : Address) (x : List Int) : ¬ Inside (row host 0 0 1).dim x := by
    intro hx
    obtain ⟨i, ⟨hMin, hMax⟩, -⟩ := inside_row.mp hx
    omega
  have hCopyable : Copyable (row 0 0 0 1) true (row 64 0 0 1) true := by
    refine ⟨?_, ?_, rfl, by decide, by rw [bytes_row, bytes_row], ?_, ?_, ?_, ?_⟩
    · exact List.forall_mem_singleton.mpr ⟨by decide, by decide, by decide⟩
    · exact List.forall_mem_singleton.mpr ⟨by decide, by decide, by decide⟩
    · exact fun x hx => absurd hx (hNone _ x)
    · exact fun x hx => absurd hx (hNone _ x)
    · exact fun x hx => absurd hx (hNone _ x)
    · exact fun x _ hx => absurd hx (hNone _ x)
  have hBytes : (row 64 0 0 1).bytes ≠ 0 := by
    rw [bytes_row]
    exact Nat.one_ne_zero
  have hPacked : Packed (row 64 0 0 1).bytes ((tasks (row 0 0 0 1) (row 64 0 0 1)).foldl place []) :=
    ⟨by decide, by decide, mul_zero _⟩
  refine ⟨hCopyable, fun ⟨turns, c, hc, _⟩ => ?_⟩
  exact (hCopyable.exists_make_buffer_copy_iff hBytes).mp ⟨turns, c, hc⟩ (packed_foldl_place.mp hPacked)

end Vyasa.DeviceCopy
