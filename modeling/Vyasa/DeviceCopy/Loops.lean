import Vyasa.DeviceCopy.Buffer
import Vyasa.Relocate.Basic
import Vyasa.Strided.Reach

/-! The bytes that the loops of a copy read and write, and that folding dimensions into the
chunk does not change them. -/
namespace Vyasa.DeviceCopy

open Relocate Strided

variable {c c' : device_copy} {body : BitVec 64 → BitVec 64 → Memory → Memory} {e : copy_dim}
  {Q : BitVec 64 → BitVec 64 → Address → Address → Prop}

/-- The loop over a dimension, through source and destination at once. -/
def copy_dim.loop (e : copy_dim) : ℕ × (BitVec 64 × BitVec 64) :=
  (e.extent.toNat, (e.src_stride_bytes, e.dst_stride_bytes))

/-- The bytes of a chunk. -/
def bytesLoop (chunk : BitVec 64) : ℕ × (BitVec 64 × BitVec 64) := (chunk.toNat, (1, 1))

/-- The copies of bytes at these pairs of offsets. -/
def CopiedAt (c : device_copy) (offsets : Set (BitVec 64 × BitVec 64)) (src_off dst_off : BitVec 64)
    (a b : Address) : Prop :=
  ∃ g ∈ offsets, a = c.dst + dst_off + g.2 ∧ b = c.src + src_off + g.1

/-- The offsets of all bytes of a copy. -/
def device_copy.offsets (c : device_copy) : Set (BitVec 64 × BitVec 64) :=
  reach (bytesLoop c.chunk_size :: c.dim.map copy_dim.loop)

theorem nsmul_ones (i : ℕ) : i • ((1 : BitVec 64), (1 : BitVec 64)) = ((i : BitVec 64), (i : BitVec 64)) := by
  rw [Prod.smul_mk, nsmul_one]

theorem toNat_nsmul_ones (x : BitVec 64) : x.toNat • ((1 : BitVec 64), (1 : BitVec 64)) = (x, x) := by
  rw [nsmul_ones, BitVec.natCast_eq_ofNat, BitVec.ofNat_toNat, BitVec.setWidth_eq]

theorem carries_memcpy (c : device_copy) (src_off dst_off : BitVec 64) :
    Carries (CopiedAt c (reach [bytesLoop c.chunk_size]) src_off dst_off)
      (memcpy (c.dst + dst_off) (c.src + src_off) c.chunk_size) := by
  refine (carries_region (fun a => a - (c.dst + dst_off) < c.chunk_size)
    fun a => c.src + src_off + (a - (c.dst + dst_off))).congr fun a b => ?_
  simp only [CopiedAt, bytesLoop, mem_reach_cons, mem_reach_nil]
  constructor
  · rintro ⟨hLt, rfl⟩
    refine ⟨_, ⟨(a - (c.dst + dst_off)).toNat, hLt, 0, rfl, rfl⟩, ?_⟩
    rw [toNat_nsmul_ones, add_zero]
    exact ⟨(add_sub_cancel _ _).symm, rfl⟩
  · rintro ⟨_, ⟨i, hi, _, rfl, rfl⟩, rfl, rfl⟩
    have hSmall : (i : BitVec 64).toNat = i := by
      rw [BitVec.natCast_eq_ofNat, BitVec.toNat_ofNat]
      exact Nat.mod_eq_of_lt (hi.trans c.chunk_size.isLt)
    rw [nsmul_ones, add_zero, add_sub_cancel_left]
    refine ⟨?_, rfl⟩
    rwa [BitVec.lt_def, hSmall]

theorem carries_for_each (hBody : ∀ s t, Carries (Q s t) (body s t)) (n : Nat) (s t : BitVec 64) :
    Carries (fun a b => ∃ i < n, Q (s + i • e.src_stride_bytes) (t + i • e.dst_stride_bytes) a b)
      (for_each body e n s t) := by
  induction n generalizing s t with
  | zero => exact carries_id.congr fun a b => by simp
  | succ n ih =>
    refine ((hBody s t).comp (ih _ _)).congr fun a b => ?_
    rw [Nat.exists_lt_succ_left]
    simp only [zero_nsmul, add_zero, succ_nsmul', add_assoc]

theorem carries_helper (c : device_copy) (dims : List copy_dim) (s t : BitVec 64) :
    Carries (CopiedAt c (reach (dims.map copy_dim.loop ++ [bytesLoop c.chunk_size])) s t)
      (copy_memory_helper c dims s t) := by
  induction dims generalizing s t with
  | nil => exact carries_memcpy c s t
  | cons e rest ih =>
    have hEq : copy_memory_helper c (e :: rest) s t = if e.extent = 1 then copy_memory_helper c rest s t
        else for_each (copy_memory_helper c rest) e e.extent.toNat s t := by
      funext memory
      rw [copy_memory_helper]
      split_ifs <;> rfl
    rw [List.map_cons, List.cons_append, hEq]
    by_cases hOne : e.extent = 1
    · have hLoop : e.loop = (1, (e.src_stride_bytes, e.dst_stride_bytes)) := by
        rw [copy_dim.loop, hOne]
        rfl
      rw [if_pos hOne, hLoop, reach_one]
      exact ih s t
    · rw [if_neg hOne]
      refine (carries_for_each ih e.extent.toNat s t).congr fun a b => ?_
      simp only [CopiedAt, mem_reach_cons, copy_dim.loop]
      constructor
      · rintro ⟨i, hi, g, hg, rfl, rfl⟩
        exact ⟨_, ⟨i, hi, g, hg, rfl⟩, by simp [add_assoc], by simp [add_assoc]⟩
      · rintro ⟨_, ⟨i, hi, g, hg, rfl⟩, rfl, rfl⟩
        exact ⟨i, hi, g, hg, by simp [add_assoc], by simp [add_assoc]⟩

/-- The bytes that a copy between different places reads and writes. -/
theorem carries_copy_memory (h : c.src ≠ c.dst) :
    Carries (CopiedAt c c.offsets c.src_begin 0) (copy_memory c) := by
  have hEq : copy_memory c = copy_memory_helper c c.dim.reverse c.src_begin 0 := by
    funext memory
    rw [copy_memory, if_pos h]
  have hPerm : (c.dim.reverse.map copy_dim.loop ++ [bytesLoop c.chunk_size]).Perm
      (bytesLoop c.chunk_size :: c.dim.map copy_dim.loop) := by
    refine (List.perm_append_singleton _ _).trans (List.Perm.cons _ ?_)
    exact c.dim.reverse_perm.map _
  rw [hEq, device_copy.offsets, ← reach_perm hPerm]
  exact carries_helper c _ _ _

/-- Extents, and strides that are sums of 32-bit values, signed. -/
structure Small (c : device_copy) : Prop where
  chunk : c.chunk_size.toNat < 2 ^ 63
  extent : ∀ e ∈ c.dim, e.extent.toNat < 2 ^ 31
  stride : ∀ e ∈ c.dim, e.src_stride_bytes.toNat < 2 ^ 31 ∨ 2 ^ 63 ≤ e.src_stride_bytes.toNat

/-- Folding the innermost dimension into the chunk leaves the bytes that are copied the same. -/
theorem offsets_fold {rest : List copy_dim} (hSmall : Small c) (hDim : c.dim = e :: rest)
    (hSrc : c.chunk_size = e.src_stride_bytes) (hDst : c.chunk_size = e.dst_stride_bytes) :
    Small { c with chunk_size := c.chunk_size * e.extent, dim := rest ++ [single] } ∧
      device_copy.offsets { c with chunk_size := c.chunk_size * e.extent, dim := rest ++ [single] } =
        c.offsets := by
  have he : e ∈ c.dim := hDim ▸ List.mem_cons_self
  have hExtent := hSmall.extent e he
  have hChunk : c.chunk_size.toNat < 2 ^ 31 := by
    rcases hSmall.stride e he with hLt | hGe
    · rwa [hSrc]
    · have := hSmall.chunk
      rw [← hSrc] at hGe
      omega
  have hBound : c.chunk_size.toNat * e.extent.toNat < 2 ^ 31 * 2 ^ 31 :=
    Nat.mul_lt_mul'' hChunk hExtent
  have hMul : (c.chunk_size * e.extent).toNat = c.chunk_size.toNat * e.extent.toNat := by
    rw [BitVec.toNat_mul]
    exact Nat.mod_eq_of_lt (by omega)
  have hMem {x : copy_dim} (hx : x ∈ rest ++ [single]) : x ∈ c.dim ∨ x = single := by
    rcases List.mem_append.mp hx with hx | hx
    · exact Or.inl (hDim ▸ List.mem_cons_of_mem e hx)
    · exact Or.inr (List.mem_singleton.mp hx)
  refine ⟨⟨by rw [hMul]; omega, fun x hx => ?_, fun x hx => ?_⟩, ?_⟩
  · rcases hMem hx with hx | rfl
    · exact hSmall.extent x hx
    · decide
  · rcases hMem hx with hx | rfl
    · exact hSmall.stride x hx
    · exact Or.inl (by decide)
  · have hOnce : c.chunk_size.toNat • ((1 : BitVec 64), (1 : BitVec 64)) =
        (e.src_stride_bytes, e.dst_stride_bytes) := by
      rw [← hSrc, ← hDst, toNat_nsmul_ones]
    have hFold : bytesLoop (c.chunk_size * e.extent) =
        (c.chunk_size.toNat * e.extent.toNat, ((1 : BitVec 64), (1 : BitVec 64))) := by
      rw [bytesLoop, hMul]
    have hLoop : e.loop = (e.extent.toNat, c.chunk_size.toNat • ((1 : BitVec 64), (1 : BitVec 64))) := by
      rw [hOnce]
      rfl
    have hOnes := reach_append_ones (v := ((0 : BitVec 64), (0 : BitVec 64)))
      (l := bytesLoop (c.chunk_size * e.extent) :: rest.map copy_dim.loop) 1
    calc reach (bytesLoop (c.chunk_size * e.extent) :: (rest ++ [single]).map copy_dim.loop)
      _ = reach (bytesLoop (c.chunk_size * e.extent) :: rest.map copy_dim.loop) := by
        rw [List.map_append, ← hOnes]
        rfl
      _ = reach (bytesLoop c.chunk_size :: e.loop :: rest.map copy_dim.loop) := by
        rw [hFold, ← reach_fold, ← hLoop]
        rfl
      _ = c.offsets := by
        rw [device_copy.offsets, hDim]
        rfl

theorem fold_contiguous_offsets (turns : Nat) (hSmall : Small c) (h : fold_contiguous turns c = some c') :
    c'.src = c.src ∧ c'.dst = c.dst ∧ c'.src_begin = c.src_begin ∧ c'.offsets = c.offsets := by
  induction turns generalizing c with
  | zero => cases h
  | succ turns ih =>
    rw [fold_contiguous] at h
    split at h
    · cases h
      exact ⟨rfl, rfl, rfl, rfl⟩
    · next e rest hDim =>
      split_ifs at h with hFold
      · obtain ⟨hNext, hSame⟩ := offsets_fold hSmall hDim hFold.1 hFold.2
        rw [← hSame]
        exact ih hNext h
      · cases h
        exact ⟨rfl, rfl, rfl, rfl⟩

end Vyasa.DeviceCopy

/-! Copies of all bytes of strided elements, when the strides that a copy takes are not beyond
the right ones: when they are the right copies. -/
namespace Vyasa.DeviceCopy

open Relocate Strided

variable {ι : Type} {extent : ι → ℕ} {P : List ι} {B : ℕ} {wD wS vD vS : ι → ℤ} {start start' : ℤ}
  {D S a b : Address} {f : Memory → Memory}

instance nontrivialUInt8 : Nontrivial UInt8 := ⟨0, 1, by decide⟩

/-- Copies of the bytes of elements from `S` on to places from `D` on, by the steps in each
dimension. -/
def Places (extent : ι → ℕ) (P : List ι) (B : ℕ) (D S : Address) (wD wS : ι → ℤ) (start : ℤ)
    (a b : Address) : Prop :=
  ∃ y, Steps extent P y ∧ ∃ j < B, a = D + ((dot wD P y + j : ℤ) : BitVec 64) ∧
    b = S + ((start + dot wS P y + j : ℤ) : BitVec 64)

theorem intCast_inj {x y : ℤ} (hx : -2 ^ 63 ≤ x ∧ x < 2 ^ 63) (hy : -2 ^ 63 ≤ y ∧ y < 2 ^ 63)
    (h : (x : BitVec 64) = (y : BitVec 64)) : x = y := by
  have hInt := congrArg BitVec.toInt h
  rwa [BitVec.toInt_intCast, BitVec.toInt_intCast, Int.bmod_eq_of_le hx.1 hx.2,
    Int.bmod_eq_of_le hy.1 hy.2] at hInt

/-- The strides taken are no larger than the right ones, and all offsets are small. -/
structure Within (extent : ι → ℕ) (P : List ι) (B : ℕ) (wD wS vD vS : ι → ℤ) (start start' : ℤ) : Prop where
  dst_elements : ∀ p ∈ P, (B : ℤ) ∣ wD p
  dst_nonneg : ∀ p ∈ P, 0 ≤ wD p
  src_nonneg : ∀ p ∈ P, 0 ≤ wS p
  dst_within : ∀ p ∈ P, -wD p ≤ vD p ∧ vD p ≤ wD p
  src_within : ∀ p ∈ P, -wS p ≤ vS p ∧ vS p ≤ wS p
  start_within : -start ≤ start' ∧ start' ≤ start
  dst_end : dot wD P (top extent P) + B ≤ 2 ^ 63
  src_end : start + dot wS P (top extent P) + B ≤ 2 ^ 63

/-- The strides of a nest in which nothing differs from the right ones. -/
theorem Within.self (h : Within extent P B wD wS vD vS start start') :
    Within extent P B wD wS wD wS start start where
  dst_elements := h.dst_elements
  dst_nonneg := h.dst_nonneg
  src_nonneg := h.src_nonneg
  dst_within p hp := by
    have := h.dst_nonneg p hp
    omega
  src_within p hp := by
    have := h.src_nonneg p hp
    omega
  start_within := by
    have := h.start_within
    omega
  dst_end := h.dst_end
  src_end := h.src_end

section Bounds

variable {y : List ℕ} {j : ℕ}

theorem Within.dst_bounds (h : Within extent P B wD wS vD vS start start') (hy : Steps extent P y)
    (hj : j < B) : -2 ^ 63 ≤ dot vD P y + j ∧ dot vD P y + j < 2 ^ 63 := by
  have hLe := hy.dot_le_top h.dst_nonneg fun p hp => (h.dst_within p hp).2
  have hGe := hy.neg_top_le_dot h.dst_nonneg fun p hp => (h.dst_within p hp).1
  have hEnd := h.dst_end
  omega

theorem Within.src_bounds (h : Within extent P B wD wS vD vS start start') (hy : Steps extent P y)
    (hj : j < B) : -2 ^ 63 ≤ start' + dot vS P y + j ∧ start' + dot vS P y + j < 2 ^ 63 := by
  have hLe := hy.dot_le_top h.src_nonneg fun p hp => (h.src_within p hp).2
  have hGe := hy.neg_top_le_dot h.src_nonneg fun p hp => (h.src_within p hp).1
  have hEnd := h.src_end
  have hStart := h.start_within
  omega

end Bounds

/-- The last byte of all is copied, and from the right place, only by the right strides. -/
theorem Within.eq_of_last (h : Within extent P B wD wS vD vS start start') (hB : 0 < B)
    (hPos : ∀ p ∈ P, 0 < extent p)
    (hDst : ∃ b', Places extent P B D S vD vS start'
      (D + ((dot wD P (top extent P) + (B - 1 : ℕ) : ℤ) : BitVec 64)) b')
    (hSrc : ∃ a', Places extent P B D S vD vS start' a'
      (S + ((start + dot wS P (top extent P) + (B - 1 : ℕ) : ℤ) : BitVec 64))) :
    (∀ p ∈ P, 2 ≤ extent p → vD p = wD p ∧ vS p = wS p) ∧ start' = start := by
  have hTop := steps_top hPos
  have hLast : B - 1 < B := by omega
  have hEnd := h.self.dst_bounds hTop hLast
  have hEnd' := h.self.src_bounds hTop hLast
  obtain ⟨_, y, hy, j, hj, ha, -⟩ := hDst
  obtain ⟨_, z, hz, k, hk, -, hb⟩ := hSrc
  have hDstEq := intCast_inj hEnd (h.dst_bounds hy hj) (add_left_cancel ha)
  have hSrcEq := intCast_inj hEnd' (h.src_bounds hz hk) (add_left_cancel hb)
  have hDstLe := hy.dot_le_top h.dst_nonneg fun p hp => (h.dst_within p hp).2
  have hSrcLe := hz.dot_le_top h.src_nonneg fun p hp => (h.src_within p hp).2
  have hStart := h.start_within
  have hD := hy.eq_of_dot_eq_top h.dst_nonneg h.dst_within (by omega)
  have hS := hz.eq_of_dot_eq_top h.src_nonneg h.src_within (by omega)
  exact ⟨fun p hp hTwo => ⟨hD p hp hTwo, hS p hp hTwo⟩, by omega⟩

/-- The copies are right if and only if the strides are, where there is a step to take, and no
place is to hold two elements. -/
theorem Within.exact_iff (h : Within extent P B wD wS vD vS start start') (hB : 0 < B)
    (hPos : ∀ p ∈ P, 0 < extent p) (hApart : Apart (Places extent P B D S wD wS start))
    (hDisjoint : ∀ a b, Places extent P B D S wD wS start a b → a ≠ b)
    (hf : Carries (Places extent P B D S vD vS start') f) :
    Exact (Places extent P B D S wD wS start) f ↔
      ((∀ p ∈ P, 2 ≤ extent p → vD p = wD p ∧ vS p = wS p) ∧ start' = start) ∧
        ∀ y z, Steps extent P y → Steps extent P z → dot wD P y = dot wD P z → dot wS P y = dot wS P z := by
  constructor
  · intro hExact
    have hLast : B - 1 < B := by omega
    have hPlace : Places extent P B D S wD wS start _ _ := ⟨_, steps_top hPos, B - 1, hLast, rfl, rfl⟩
    obtain ⟨hDst, hSrc⟩ := hf.of_exact hExact hPlace (hDisjoint _ _ hPlace)
    refine ⟨h.eq_of_last hB hPos hDst hSrc, fun y z hy hz hEq => ?_⟩
    have hOne : Places extent P B D S wD wS start (D + ((dot wD P y + (0 : ℕ) : ℤ) : BitVec 64)) _ :=
      ⟨y, hy, 0, hB, rfl, rfl⟩
    have hOther : Places extent P B D S wD wS start (D + ((dot wD P y + (0 : ℕ) : ℤ) : BitVec 64)) _ :=
      ⟨z, hz, 0, hB, by rw [hEq], rfl⟩
    have hSame := intCast_inj (h.self.src_bounds hy hB) (h.self.src_bounds hz hB)
      (add_left_cancel (hExact.unique hOne hOther))
    omega
  · rintro ⟨⟨hStrides, rfl⟩, hOnePlace⟩
    have hSame (a b : Address) : Places extent P B D S vD vS start' a b ↔
        Places extent P B D S wD wS start' a b := by
      refine exists_congr fun y => and_congr_right fun hy => ?_
      rw [hy.dot_congr fun p hp hTwo => (hStrides p hp hTwo).1,
        hy.dot_congr fun p hp hTwo => (hStrides p hp hTwo).2]
    refine (hf.congr hSame).exact hApart fun a b c hb hc => ?_
    obtain ⟨y, hy, j, hj, rfl, rfl⟩ := hb
    obtain ⟨z, hz, k, hk, hEq, rfl⟩ := hc
    have hOffset := intCast_inj (h.self.dst_bounds hy hj) (h.self.dst_bounds hz hk) (add_left_cancel hEq)
    -- The places of elements are as far apart as the bytes of one.
    obtain ⟨m, hm⟩ := dvd_dot (y := y) h.dst_elements
    obtain ⟨n, hn⟩ := dvd_dot (y := z) h.dst_elements
    have hByte : j = k := by
      rw [hm, hn] at hOffset
      have hMod : ((B : ℤ) * m + j) % B = ((B : ℤ) * n + k) % B := by rw [hOffset]
      rw [Int.mul_add_emod_self_left, Int.mul_add_emod_self_left] at hMod
      rw [Int.emod_eq_of_lt (by omega) (by omega), Int.emod_eq_of_lt (by omega) (by omega)] at hMod
      omega
    rw [hByte, hOnePlace y z hy hz (by omega)]

end Vyasa.DeviceCopy
