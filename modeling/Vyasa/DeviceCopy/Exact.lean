import Vyasa.DeviceCopy.Order
import Vyasa.DeviceCopy.Loops

/-! When a copy between two buffers sets every element of the destination, and no other byte. -/
namespace Vyasa.DeviceCopy

open Relocate Strided Word

/-- The dimensions of the source and the destination, side by side. -/
abbrev Pairs := List (halide_dimension_t × halide_dimension_t)

variable {src dst : halide_buffer_t} {src_host dst_host : Bool} {P : Pairs} {B turns : ℕ} {c : device_copy}
  {x : List Int} {y : List ℕ}

/-- A dimension whose fields are 32-bit integers, with a stride that is not negative. -/
structure halide_dimension_t.Valid (d : halide_dimension_t) : Prop where
  min : IntType.int32.Has d.min
  extent : IntType.int32.Has d.extent ∧ 0 ≤ d.extent
  stride : IntType.int32.Has d.stride ∧ 0 ≤ d.stride

/-- The buffers that a copy is between: of one shape and element size, the destination inside
the source, each within 64-bit offsets, and none of the bytes of one among those of the other. -/
structure Copyable (src : halide_buffer_t) (src_host : Bool) (dst : halide_buffer_t) (dst_host : Bool) :
    Prop where
  src_dim : ∀ d ∈ src.dim, d.Valid
  dst_dim : ∀ d ∈ dst.dim, d.Valid
  dimensions : src.dim.length = dst.dim.length
  dimensions_le : dst.dim.length ≤ MAX_COPY_DIMS
  bytes : src.bytes = dst.bytes
  inside : ∀ x, Inside dst.dim x → Inside src.dim x
  src_offsets : ∀ x, Inside src.dim x → src.bytes * offset src.dim x + src.bytes ≤ 2 ^ 63
  dst_offsets : ∀ x, Inside dst.dim x → dst.bytes * offset dst.dim x + dst.bytes ≤ 2 ^ 63
  apart : ∀ x y, Inside src.dim x → Inside dst.dim y → ∀ i < src.bytes, ∀ j < dst.bytes,
    src.address src_host x i ≠ dst.address dst_host y j

/-- The copy terminates with each element of the destination as it is in the source, and no
other byte changed, whatever the memory holds. -/
def CopiesExactly (src : halide_buffer_t) (src_host : Bool) (dst : halide_buffer_t) (dst_host : Bool) : Prop :=
  ∃ turns c, make_buffer_copy turns src src_host dst dst_host = some c ∧ ∀ memory,
    (∀ x, Inside dst.dim x → ∀ j < dst.bytes,
      copy_memory c memory (dst.address dst_host x j) = memory (src.address src_host x j)) ∧
    ∀ a, (∀ x, Inside dst.dim x → ∀ j < dst.bytes, a ≠ dst.address dst_host x j) →
      copy_memory c memory a = memory a

/-- The tasks that the dimensions of two buffers make. -/
def tasks (src dst : halide_buffer_t) : List copy_dim :=
  List.zipWith (task dst.bytes) src.dim dst.dim

/-- The products of 32 bits that the copy takes do not overflow. -/
structure Narrow (src dst : halide_buffer_t) : Prop where
  start : ∀ p ∈ src.dim.zip dst.dim, p.1.stride * (p.2.min - p.1.min) < 2 ^ 31
  src_stride : ∀ p ∈ src.dim.zip dst.dim, 2 ≤ p.2.extent → p.1.stride * dst.bytes < 2 ^ 31
  dst_stride : ∀ p ∈ src.dim.zip dst.dim, 2 ≤ p.2.extent → p.2.stride * dst.bytes < 2 ^ 31

/-- Elements that share a place in the destination share one in the source. -/
def SharedAlike (src dst : halide_buffer_t) : Prop :=
  ∀ x y, Inside dst.dim x → Inside dst.dim y → offset dst.dim x = offset dst.dim y →
    offset src.dim x = offset src.dim y

/-- The steps that are taken in a dimension. -/
def turnsOf (p : halide_dimension_t × halide_dimension_t) : ℕ := p.2.extent.toNat

def coords (P : Pairs) (y : List ℕ) : List Int := List.zipWith (fun p (k : ℕ) => p.2.min + k) P y

/-- The element of the source where the copy starts. -/
def begins (P : Pairs) : Int := (P.map fun p => p.1.stride * (p.2.min - p.1.min)).sum

@[simp] theorem coords_cons (p : halide_dimension_t × halide_dimension_t) (P : Pairs) (k : ℕ) (y : List ℕ) :
    coords (p :: P) (k :: y) = (p.2.min + k) :: coords P y := rfl

theorem inside_iff : Inside (P.map Prod.snd) x ↔ ∃ y, Steps turnsOf P y ∧ x = coords P y := by
  induction P generalizing x with
  | nil => simp [Inside, Steps, coords]
  | cons p P ih =>
    rw [Inside, List.map_cons, List.forall₂_cons_left_iff]
    constructor
    · rintro ⟨i, x, hHead, hRest, rfl⟩
      obtain ⟨y, hy, rfl⟩ := ih.mp hRest
      refine ⟨(i - p.2.min).toNat :: y, .cons ?_ hy, ?_⟩
      · rw [turnsOf]
        omega
      · rw [coords_cons]
        congr 1
        omega
    · rintro ⟨_, hSteps, rfl⟩
      obtain _ | ⟨hk, hy⟩ := hSteps
      rw [turnsOf] at hk
      refine ⟨_, _, ?_, ih.mpr ⟨_, hy, rfl⟩, coords_cons ..⟩
      constructor <;> omega

theorem offset_dst (h : Steps turnsOf P y) :
    offset (P.map Prod.snd) (coords P y) = dot (fun p => p.2.stride) P y := by
  induction h with
  | nil => rfl
  | @cons p k P y _ _ ih =>
    rw [dot_cons, ← ih]
    simp [offset, coords]

theorem offset_src (h : Steps turnsOf P y) :
    offset (P.map Prod.fst) (coords P y) = begins P + dot (fun p => p.1.stride) P y := by
  induction h with
  | nil => rfl
  | @cons p k P y _ _ ih =>
    have hSum : offset ((p :: P).map Prod.fst) (coords (p :: P) (k :: y)) =
        p.1.stride * (p.2.min + k - p.1.min) + offset (P.map Prod.fst) (coords P y) := by
      simp [offset, coords]
    rw [hSum, dot_cons, ih, begins, begins, List.map_cons, List.sum_cons]
    ring

theorem dot_mul (w : halide_dimension_t × halide_dimension_t → Int) (b : Int) (P : Pairs) (y : List ℕ) :
    dot (fun p => w p * b) P y = b * dot w P y := by
  induction P generalizing y with
  | nil => simp
  | cons p P ih =>
    cases y with
    | nil => simp [dot]
    | cons k y =>
      rw [dot_cons, dot_cons, ih]
      ring

/-- The right copies, as steps in the dimensions. -/
theorem places_iff (src_host dst_host : Bool) (hSrc : src.dim = P.map Prod.fst) (hDst : dst.dim = P.map Prod.snd)
    (hBytes : src.bytes = dst.bytes) (a b : Address) :
    (∃ x, Inside dst.dim x ∧ ∃ j < dst.bytes, a = dst.address dst_host x j ∧ b = src.address src_host x j) ↔
      Places turnsOf P dst.bytes (dst.base dst_host) (src.base src_host) (fun p => p.2.stride * dst.bytes)
        (fun p => p.1.stride * dst.bytes) (begins P * dst.bytes) a b := by
  have hAddress (y : List ℕ) (hy : Steps turnsOf P y) (j : ℕ) :
      dst.address dst_host (coords P y) j = dst.base dst_host +
          ((dot (fun p => p.2.stride * dst.bytes) P y + j : ℤ) : BitVec 64) ∧
        src.address src_host (coords P y) j = src.base src_host +
          ((begins P * dst.bytes + dot (fun p => p.1.stride * dst.bytes) P y + j : ℤ) : BitVec 64) := by
    rw [halide_buffer_t.address, halide_buffer_t.address, hDst, hSrc, offset_dst hy, offset_src hy,
      dot_mul, dot_mul, hBytes]
    refine ⟨rfl, ?_⟩
    congr 2
    ring
  rw [Places]
  constructor
  · rintro ⟨x, hx, j, hj, rfl, rfl⟩
    rw [hDst] at hx
    obtain ⟨y, hy, rfl⟩ := inside_iff.mp hx
    exact ⟨y, hy, j, hj, (hAddress y hy j).1, (hAddress y hy j).2⟩
  · rintro ⟨y, hy, j, hj, rfl, rfl⟩
    refine ⟨coords P y, ?_, j, hj, (hAddress y hy j).1.symm, (hAddress y hy j).2.symm⟩
    rw [hDst]
    exact inside_iff.mpr ⟨y, hy, rfl⟩

theorem int32_within {z : Int} (hz : 0 ≤ z) : -z ≤ IntType.int32.wrap z ∧ IntType.int32.wrap z ≤ z := by
  simp only [IntType.wrap, IntType.int32, if_true, Int.bmod]
  omega

theorem int32_eq_iff {z : Int} (hz : 0 ≤ z) : IntType.int32.wrap z = z ↔ z < 2 ^ 31 := by
  simp only [IntType.wrap, IntType.int32, if_true, Int.bmod]
  omega

/-- The element where the copy starts, by products of 32 bits. -/
def wrappedBegins (P : Pairs) : Int :=
  (P.map fun p => IntType.int32.wrap (p.1.stride * IntType.int32.wrap (p.2.min - p.1.min))).sum

theorem src_begin_eq (P : Pairs) :
    src_begin (P.map Prod.fst) (P.map Prod.snd) = ((wrappedBegins P : Int) : BitVec 64) := by
  induction P with
  | nil => rfl
  | cons p P ih =>
    have hHead : wrappedBegins (p :: P) =
        IntType.int32.wrap (p.1.stride * IntType.int32.wrap (p.2.min - p.1.min)) + wrappedBegins P := by
      rw [wrappedBegins, List.map_cons, List.sum_cons, ← wrappedBegins]
    rw [hHead, Int.cast_add, ← ih, src_begin, List.map_cons, List.map_cons, List.zipWith_cons_cons,
      List.sum_cons, ← src_begin]

/-- The copy before any dimension is folded. -/
def unfolded (src : halide_buffer_t) (src_host : Bool) (dst : halide_buffer_t) (dst_host : Bool) :
    device_copy where
  src := src.base src_host
  dst := dst.base dst_host
  src_begin := src_begin src.dim dst.dim * (dst.bytes : BitVec 64)
  dim := insert_dims 0 (tasks src dst) (List.replicate MAX_COPY_DIMS single)
  chunk_size := dst.bytes

theorem bytes_le (b : halide_buffer_t) : b.bytes ≤ 32 := by
  have := b.bits.toNat_lt
  rw [halide_buffer_t.bytes]
  omega

theorem toNat_bytes (b : halide_buffer_t) : ((b.bytes : ℕ) : BitVec 64).toNat = b.bytes := by
  have := bytes_le b
  rw [BitVec.natCast_eq_ofNat, BitVec.toNat_ofNat]
  exact Nat.mod_eq_of_lt (by omega)

section Copyable

variable (h : Copyable src src_host dst dst_host)
include h

theorem Copyable.make_buffer_copy_eq (hBytes : dst.bytes ≠ 0) (turns : ℕ) :
    make_buffer_copy turns src src_host dst dst_host =
      fold_contiguous turns (unfolded src src_host dst dst_host) := by
  have hChunk : ((dst.bytes : ℕ) : BitVec 64) ≠ 0 := by
    intro hZero
    refine hBytes ?_
    rw [← toNat_bytes, hZero]
    rfl
  have hLe := h.dimensions_le
  rw [make_buffer_copy, h.bytes]
  simp only [h.dimensions, ne_eq, not_true_eq_false, false_or, Nat.not_lt.mpr hLe, if_false, hChunk]
  rfl

theorem Copyable.make_buffer_copy_of_no_bytes (hBytes : dst.bytes = 0) (turns : ℕ) :
    make_buffer_copy turns src src_host dst dst_host = some zero := by
  rw [make_buffer_copy, h.bytes, hBytes]
  split_ifs with hShape hChunk
  · rfl
  · rfl
  · exact absurd rfl hChunk

theorem Copyable.unfolded_dim : (unfolded src src_host dst dst_host).dim =
    (tasks src dst).foldl place [] ++ List.replicate (MAX_COPY_DIMS - dst.dim.length) single := by
  have hLe := h.dimensions_le
  have hLength : (tasks src dst).length = dst.dim.length := by
    rw [tasks, List.length_zipWith, h.dimensions, Nat.min_self]
  have hEq := insert_dims_eq (tasks src dst) [] (MAX_COPY_DIMS - dst.dim.length)
  rwa [hLength, Nat.add_sub_cancel' hLe] at hEq

/-- The loop that folds ends unless the dimensions are folded without end. -/
theorem Copyable.exists_make_buffer_copy_iff (hBytes : dst.bytes ≠ 0) :
    (∃ turns c, make_buffer_copy turns src src_host dst dst_host = some c) ↔
      ¬ Endless dst.bytes (tasks src dst) := by
  have hNe : (unfolded src src_host dst dst_host).dim ≠ [] := by
    rw [h.unfolded_dim]
    intro hNil
    have hLength := congrArg List.length hNil
    rw [List.length_append, List.length_replicate, (foldl_place_perm _ _).length_eq, List.append_nil, tasks,
      List.length_zipWith, h.dimensions, Nat.min_self] at hLength
    have hDims : MAX_COPY_DIMS = 16 := rfl
    rw [List.length_nil] at hLength
    omega
  simp only [h.make_buffer_copy_eq hBytes]
  exact exists_fold_contiguous_iff h.unfolded_dim hNe

/-- Both lists of dimensions are sides of one list of pairs. -/
theorem Copyable.exists_pairs : ∃ P : Pairs, src.dim.zip dst.dim = P ∧ src.dim = P.map Prod.fst ∧
    dst.dim = P.map Prod.snd ∧ ∀ p ∈ P, p.1.Valid ∧ p.2.Valid := by
  refine ⟨src.dim.zip dst.dim, rfl, ?_, ?_, fun p hp => ?_⟩
  · exact (List.map_fst_zip (Nat.le_of_eq h.dimensions)).symm
  · exact (List.map_snd_zip (Nat.le_of_eq h.dimensions.symm)).symm
  · have hMem := List.of_mem_zip (a := p.1) (b := p.2) hp
    exact ⟨h.src_dim _ hMem.1, h.dst_dim _ hMem.2⟩

end Copyable

theorem tasks_eq (hSrc : src.dim = P.map Prod.fst) (hDst : dst.dim = P.map Prod.snd) :
    tasks src dst = P.map fun p => task dst.bytes p.1 p.2 := by
  rw [tasks, hSrc, hDst, List.zipWith_map, List.zipWith_self]

theorem toNat_extent {d : halide_dimension_t} (h : d.Valid) :
    ((d.extent : Int) : BitVec 64).toNat = d.extent.toNat ∧ d.extent.toNat < 2 ^ 31 := by
  obtain ⟨⟨-, hMax⟩, hNonneg⟩ := h.extent
  have hLt : d.extent < 2 ^ 31 := by
    change d.extent ≤ 2 ^ 31 - 1 at hMax
    omega
  rw [BitVec.toNat_intCast]
  omega

theorem toNat_int32 (z : Int) : ((IntType.int32.wrap z : Int) : BitVec 64).toNat < 2 ^ 31 ∨
    2 ^ 63 ≤ ((IntType.int32.wrap z : Int) : BitVec 64).toNat := by
  obtain ⟨hMin, hMax⟩ : -2 ^ 31 ≤ IntType.int32.wrap z ∧ IntType.int32.wrap z ≤ 2 ^ 31 - 1 :=
    IntType.int32.has_wrap z
  rw [BitVec.toNat_intCast]
  omega

/-- The loop over a dimension has the strides of its products of 32 bits. -/
theorem loop_task {p : halide_dimension_t × halide_dimension_t} (h : p.2.Valid) (B : ℕ) :
    (task B p.1 p.2).loop = (turnsOf p, (((IntType.int32.wrap (p.1.stride * B) : Int) : BitVec 64),
      ((IntType.int32.wrap (p.2.stride * B) : Int) : BitVec 64))) := by
  rw [copy_dim.loop, task, (toNat_extent h).1, turnsOf]

theorem small_unfolded (h : Copyable src src_host dst dst_host) :
    Small (unfolded src src_host dst dst_host) := by
  obtain ⟨P, -, hSrc, hDst, hValid⟩ := h.exists_pairs
  have hMem (e : copy_dim) (he : e ∈ (unfolded src src_host dst dst_host).dim) :
      (∃ p ∈ P, e = task dst.bytes p.1 p.2) ∨ e = single := by
    rw [h.unfolded_dim, List.mem_append, (foldl_place_perm _ _).mem_iff, List.append_nil,
      tasks_eq hSrc hDst, List.mem_map, List.mem_replicate] at he
    rcases he with ⟨p, hp, rfl⟩ | ⟨-, rfl⟩
    · exact Or.inl ⟨p, hp, rfl⟩
    · exact Or.inr rfl
  refine ⟨?_, fun e he => ?_, fun e he => ?_⟩
  · have hLe := bytes_le dst
    change ((dst.bytes : ℕ) : BitVec 64).toNat < _
    rw [toNat_bytes]
    omega
  · rcases hMem e he with ⟨p, hp, rfl⟩ | rfl
    · obtain ⟨hEq, hLt⟩ := toNat_extent (hValid p hp).2
      exact hEq ▸ hLt
    · decide
  · rcases hMem e he with ⟨p, hp, rfl⟩ | rfl
    · exact toNat_int32 _
    · exact Or.inl (by decide)

/-- The bytes that the copy reads and writes, as steps in the dimensions. -/
theorem Copyable.carries (h : Copyable src src_host dst dst_host) (hBytes : dst.bytes ≠ 0)
    (hSrc : src.dim = P.map Prod.fst) (hDst : dst.dim = P.map Prod.snd) (hValid : ∀ p ∈ P, p.1.Valid ∧ p.2.Valid)
    (hBase : src.base src_host ≠ dst.base dst_host)
    (hc : make_buffer_copy turns src src_host dst dst_host = some c) :
    Carries (Places turnsOf P dst.bytes (dst.base dst_host) (src.base src_host)
      (fun p => IntType.int32.wrap (p.2.stride * dst.bytes))
      (fun p => IntType.int32.wrap (p.1.stride * dst.bytes)) (wrappedBegins P * dst.bytes)) (copy_memory c) := by
  rw [h.make_buffer_copy_eq hBytes] at hc
  obtain ⟨hcSrc, hcDst, hcBegin, hOffsets⟩ := fold_contiguous_offsets turns (small_unfolded h) hc
  have hLoops : c.offsets = reach ((dst.bytes, (1, 1)) :: P.map fun p => (turnsOf p,
      (((IntType.int32.wrap (p.1.stride * dst.bytes) : Int) : BitVec 64),
        ((IntType.int32.wrap (p.2.stride * dst.bytes) : Int) : BitVec 64)))) := by
    have hMap : (tasks src dst).map copy_dim.loop = P.map fun p => (turnsOf p,
        (((IntType.int32.wrap (p.1.stride * dst.bytes) : Int) : BitVec 64),
          ((IntType.int32.wrap (p.2.stride * dst.bytes) : Int) : BitVec 64))) := by
      rw [tasks_eq hSrc hDst, List.map_map]
      exact List.map_congr_left fun p hp => loop_task (hValid p hp).2 dst.bytes
    have hPerm := ((foldl_place_perm (tasks src dst) []).map copy_dim.loop).cons (bytesLoop dst.bytes)
    rw [hOffsets, device_copy.offsets, h.unfolded_dim, List.map_append, List.map_replicate, ← List.cons_append]
    refine (reach_append_ones _).trans ((reach_perm hPerm).trans ?_)
    rw [List.append_nil, hMap, bytesLoop, toNat_bytes]
  have hCopy : c.src ≠ c.dst := by
    rw [hcSrc, hcDst]
    exact hBase
  have hBegin : c.src_begin = ((wrappedBegins P * dst.bytes : Int) : BitVec 64) := by
    rw [hcBegin, unfolded, hSrc, hDst, src_begin_eq, Int.cast_mul, Int.cast_natCast]
  refine (carries_copy_memory hCopy).congr fun a b => ?_
  rw [CopiedAt, hLoops, hBegin, hcSrc, hcDst]
  simp only [mem_reach_cons, mem_reach_map]
  constructor
  · rintro ⟨_, ⟨j, hj, _, ⟨y, hy, rfl⟩, rfl⟩, rfl, rfl⟩
    refine ⟨y, hy, j, hj, ?_, ?_⟩
    · simp [unfolded, add_comm]
    · simp [unfolded, add_comm, add_left_comm, add_assoc]
  · rintro ⟨y, hy, j, hj, rfl, rfl⟩
    refine ⟨_, ⟨j, hj, _, ⟨y, hy, rfl⟩, rfl⟩, ?_, ?_⟩
    · simp [unfolded, add_comm]
    · simp [unfolded, add_comm, add_left_comm, add_assoc]

end Vyasa.DeviceCopy
