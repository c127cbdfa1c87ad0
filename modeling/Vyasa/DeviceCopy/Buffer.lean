import Mathlib.Data.BitVec
import Mathlib.Data.List.Forall2
import Vyasa.Word.IntType

/-! The copy tasks between two buffers: what they are for two buffers of any strides, and the
loops that carry them out. -/
namespace Vyasa.DeviceCopy

open Word

/-- A handle or an address of one of the bytes of memory. -/
abbrev Address := BitVec 64

abbrev Memory := Address → UInt8

structure halide_dimension_t where
  min : Int
  extent : Int
  stride : Int
deriving DecidableEq

/-- What the copies read of a buffer. -/
structure halide_buffer_t where
  device : Address
  host : Address
  bits : UInt8
  dim : List halide_dimension_t

/-- One entry of each of the three arrays of a copy. -/
structure copy_dim where
  extent : BitVec 64
  src_stride_bytes : BitVec 64
  dst_stride_bytes : BitVec 64
deriving DecidableEq

structure device_copy where
  src : Address
  dst : Address
  src_begin : BitVec 64
  dim : List copy_dim
  chunk_size : BitVec 64
deriving DecidableEq

def MAX_COPY_DIMS : Nat := 16

/-- The size of an element. -/
def halide_buffer_t.bytes (b : halide_buffer_t) : Nat := (b.bits.toNat + 7) / 8

/-- Where the elements of the buffer start. -/
def halide_buffer_t.base (b : halide_buffer_t) (host : Bool) : Address :=
  if host then b.host else b.device

/-- The copy of one element only, in every dimension. -/
def single : copy_dim := ⟨1, 0, 0⟩

/-- The zeroed copy. -/
def zero : device_copy := ⟨0, 0, 0, List.replicate MAX_COPY_DIMS ⟨0, 0, 0⟩, 0⟩

def memcpy (dest source : Address) (n : BitVec 64) (memory : Memory) : Memory := fun a =>
  if a - dest < n then memory (source + (a - dest)) else memory a

/-- The turns of a loop that steps through the source and the destination. -/
def for_each (body : BitVec 64 → BitVec 64 → Memory → Memory) (e : copy_dim) :
    Nat → BitVec 64 → BitVec 64 → Memory → Memory
  | 0, _, _, memory => memory
  | n + 1, src_off, dst_off, memory =>
    for_each body e n (src_off + e.src_stride_bytes) (dst_off + e.dst_stride_bytes)
      (body src_off dst_off memory)

/-- The dimensions left are in the list, the outermost first. -/
def copy_memory_helper (copy : device_copy) :
    List copy_dim → BitVec 64 → BitVec 64 → Memory → Memory
  | [], src_off, dst_off, memory =>
    memcpy (copy.dst + dst_off) (copy.src + src_off) copy.chunk_size memory
  | e :: rest, src_off, dst_off, memory =>
    if e.extent = 1 then copy_memory_helper copy rest src_off dst_off memory
    else for_each (copy_memory_helper copy rest) e e.extent.toNat src_off dst_off memory

def copy_memory (copy : device_copy) (memory : Memory) : Memory :=
  if copy.src ≠ copy.dst then copy_memory_helper copy copy.dim.reverse copy.src_begin 0 memory
  else memory

/-- The offset of the source, in elements. The products are of 32 bits. -/
def src_begin (src dst : List halide_dimension_t) : BitVec 64 :=
  (List.zipWith (fun s d => ((IntType.int32.wrap (s.stride * IntType.int32.wrap (d.min - s.min)) : Int) :
    BitVec 64)) src dst).sum

/-- What a dimension adds to the copy, if `bytes` is the size of an element. -/
def task (bytes : Nat) (src dst : halide_dimension_t) : copy_dim where
  extent := (dst.extent : Int)
  src_stride_bytes := (IntType.int32.wrap (src.stride * bytes) : Int)
  dst_stride_bytes := (IntType.int32.wrap (dst.stride * bytes) : Int)

/-- The dimension goes in front of the first one of larger stride, and to the end if its own
stride is zero. -/
def goesBefore (new e : copy_dim) : Bool :=
  decide (new.dst_stride_bytes < e.dst_stride_bytes) && decide (new.dst_stride_bytes ≠ 0)

/-- Insert dimension `i` among the first `i` entries. -/
def insert_dim (i : Nat) (new : copy_dim) (dim : List copy_dim) : List copy_dim :=
  (dim.eraseIdx i).insertIdx ((dim.take i).findIdx (goesBefore new)) new

def insert_dims : Nat → List copy_dim → List copy_dim → List copy_dim
  | _, [], dim => dim
  | i, new :: rest, dim => insert_dims (i + 1) rest (insert_dim i new dim)

/-- Fold contiguous dimensions into the chunk. There is no result if the loop takes more turns. -/
def fold_contiguous : Nat → device_copy → Option device_copy
  | 0, _ => none
  | turns + 1, c =>
    match c.dim with
    | [] => some c
    | e :: rest =>
      if c.chunk_size = e.src_stride_bytes ∧ c.chunk_size = e.dst_stride_bytes then
        fold_contiguous turns { c with chunk_size := c.chunk_size * e.extent, dim := rest ++ [single] }
      else some c

/-- There is no result if the loop that folds takes more than so many turns. -/
def make_buffer_copy (turns : Nat) (src : halide_buffer_t) (src_host : Bool)
    (dst : halide_buffer_t) (dst_host : Bool) : Option device_copy :=
  let chunk_size : BitVec 64 := src.bytes
  if src.dim.length ≠ dst.dim.length ∨ src.bytes ≠ dst.bytes ∨ MAX_COPY_DIMS < dst.dim.length then some zero
  else if chunk_size = 0 then some zero
  else fold_contiguous turns
    { src := src.base src_host
      dst := dst.base dst_host
      src_begin := src_begin src.dim dst.dim * chunk_size
      dim := insert_dims 0 (List.zipWith (task dst.bytes) src.dim dst.dim)
        (List.replicate MAX_COPY_DIMS single)
      chunk_size := chunk_size }

/-- The coordinates of the elements of a buffer. -/
def Inside (dim : List halide_dimension_t) (x : List Int) : Prop :=
  List.Forall₂ (fun d i => d.min ≤ i ∧ i < d.min + d.extent) dim x

/-- The place of an element in its buffer, in elements. -/
def offset (dim : List halide_dimension_t) (x : List Int) : Int :=
  (List.zipWith (fun d i => d.stride * (i - d.min)) dim x).sum

/-- The address of byte `j` of an element. -/
def halide_buffer_t.address (b : halide_buffer_t) (host : Bool) (x : List Int) (j : Nat) : Address :=
  b.base host + ((b.bytes * offset b.dim x + j : Int) : BitVec 64)

end Vyasa.DeviceCopy
