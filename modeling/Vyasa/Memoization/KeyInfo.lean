import Vyasa.Bytes.Writes
import Mathlib.Data.String.Basic

/-! Cache keys of memoized functions: how the dependencies of a function are recorded,
and the stores that fill the key with their values. -/
namespace Vyasa.Memoization

open Bytes

inductive TypeCode where
  | int
  | uint
  | float
deriving DecidableEq

/-- A scalar type of one, two, four or eight bytes. -/
structure ScalarType where
  code : TypeCode
  bits : Nat
  width : (bits + 7) / 8 ∈ [1, 2, 4, 8]
deriving DecidableEq

def ScalarType.bytes (t : ScalarType) : Nat := (t.bits + 7) / 8

/-- The type of a parameter; a handle cannot enter a cache key. -/
inductive ParameterType where
  | scalar (t : ScalarType)
  | handle
deriving DecidableEq

structure Parameter where
  name : String
  is_buffer : Bool
  type : ParameterType
deriving DecidableEq

/-- The value of a dependency: the variable of a parameter, or a tagged expression. -/
inductive ValueExpr (ε : Type) where
  | variable (p : Parameter)
  | tagged (e : ε)
deriving DecidableEq

structure DependencyKey where
  size : Nat
  name : String
deriving DecidableEq

/-- Used to make sure larger parameters come before smaller ones, says the source. -/
def DependencyKey.lt (lhs rhs : DependencyKey) : Bool :=
  if lhs.size < rhs.size then true
  else if lhs.size = rhs.size then lhs.name < rhs.name
  else false

structure DependencyInfo (ε : Type) where
  type : ScalarType
  value_expr : ValueExpr ε
deriving DecidableEq

section Dependencies

variable {ε : Type}

/-- The map from keys to dependencies, in the order of its keys. -/
abbrev DependencyMap (ε : Type) := List (DependencyKey × DependencyInfo ε)

/-- Assignment at a key of the map. -/
def DependencyMap.assign (key : DependencyKey) (info : DependencyInfo ε) :
    DependencyMap ε → DependencyMap ε
  | [] => [(key, info)]
  | entry :: rest =>
      if key.lt entry.1 then (key, info) :: entry :: rest
      else if entry.1.lt key then entry :: DependencyMap.assign key info rest
      else (key, info) :: rest

/-- What the visitor meets: a parameter, or a tagged expression with the name that
`unique_name("memoize_tag")` gave it. -/
inductive Dependency (ε : Type) where
  | parameter (p : Parameter)
  | tagged (name : String) (type : ScalarType) (e : ε)

def bufferError (p : Parameter) : String :=
  "Buffer parameter " ++ p.name ++ " encountered in computed_cached computation.\n" ++
    "Computations which depend on buffer parameters " ++
    "cannot be scheduled compute_cached.\n" ++
    "Use memoize_tag to provide cache key information for buffer.\n"

def handleError (p : Parameter) : String :=
  "Handle parameter " ++ p.name ++ " encountered in computed_cached computation.\n" ++
    "Computations which depend on handle parameters " ++
    "cannot be scheduled compute_cached.\n" ++
    "Use memoize_tag to provide cache key information for handle.\n"

def record (info : DependencyMap ε) : Dependency ε → Except String (DependencyMap ε)
  | .parameter p =>
      if p.is_buffer then .error (bufferError p)
      else match p.type with
        | .handle => .error (handleError p)
        | .scalar type => .ok (info.assign ⟨type.bytes, p.name⟩ ⟨type, .variable p⟩)
  | .tagged name type e => .ok (info.assign ⟨type.bytes, name⟩ ⟨type, .tagged e⟩)

/-- The map after every dependency of the function has been met. -/
def dependencyInfo (met : List (Dependency ε)) : Except String (DependencyMap ε) :=
  met.foldlM record []

end Dependencies

/-- What a cache key is made from. `address` is where the linker puts a string. -/
structure KeyInfo (ε : Type) where
  dependency_info : DependencyMap ε
  top_level_name : String
  function_name : String
  memoize_instance : BitVec 32
  address : String → BitVec 64

namespace KeyInfo

variable {ε : Type}

/-- Bytes of a handle. -/
def handleBytes : Nat := 8

/-- The loop that looks for a power of two, four rounds at most. -/
def alignmentShift (max_alignment : Nat) : Nat → Nat → Nat
  | 0, i => i
  | rounds + 1, i =>
      if max_alignment > 2 ^ i then alignmentShift max_alignment rounds (i + 1) else i

def parametersAlignment (key : KeyInfo ε) : Nat :=
  let max_alignment := key.dependency_info.foldl
    (fun max_alignment i =>
      if i.2.type.bytes > max_alignment then i.2.type.bytes else max_alignment) 0
  2 ^ alignmentShift max_alignment 4 0

/-- Bytes before the dependencies. The mask is the complement of a 64 bit word. -/
def sizeSoFar (key : KeyInfo ε) : Nat :=
  let size_so_far := handleBytes + 4
  let needed_alignment := key.parametersAlignment
  if needed_alignment > 1 then
    (size_so_far + needed_alignment - 1) &&& (2 ^ 64 - 1 - (needed_alignment - 1))
  else size_so_far

def keySize (key : KeyInfo ε) : Nat :=
  key.dependency_info.foldl (fun size i => size + i.2.type.bytes) key.sizeSoFar

/-- The bytes of a word in the order they lie in memory. -/
def bytesOf {n : Nat} (v : BitVec (8 * n)) : List (BitVec 8) :=
  (List.range n).map fun i => v.extractLsb' (8 * i) 8

/-- A store of a value of `n` bytes at an index counted in such values. -/
def store (n : Nat) (v : BitVec (8 * n)) (index : Nat) : Write (BitVec 8) :=
  ⟨index * n, bytesOf v⟩

/-- Zero bytes until `alignment` is a multiple; returns the stores and the next index. -/
def padding (needed_alignment : Nat) : Nat → Nat → Nat → List (Write (BitVec 8)) × Nat
  | 0, _, index => ([], index)
  | rounds + 1, alignment, index =>
      if alignment % needed_alignment ≠ 0 then
        let (writes, next) := padding needed_alignment rounds (alignment + 1) (index + 1)
        (store 1 0 index :: writes, next)
      else ([], index)

/-- The values that the dependencies take in one execution. -/
abbrev Values (ε : Type) := ValueExpr ε → (t : ScalarType) → BitVec (8 * t.bytes)

/-- One store for each dependency, in the order of the map. -/
def dependencyWrites (values : Values ε) : Nat → DependencyMap ε → List (Write (BitVec 8))
  | _, [] => []
  | index, i :: rest =>
      store i.2.type.bytes (values i.2.value_expr i.2.type) (index / i.2.type.bytes) ::
        dependencyWrites values (index + i.2.type.bytes) rest

/-- The string whose address identifies the filter and the function. -/
def identifier (key : KeyInfo ε) : String :=
  toString key.top_level_name.utf8ByteSize ++ ":" ++ key.top_level_name ++
    toString key.function_name.utf8ByteSize ++ ":" ++ key.function_name

/-- The stores that fill the key, in the order they run. -/
def generateKey (key : KeyInfo ε) (values : Values ε) : List (Write (BitVec 8)) :=
  let index := 0
  let name := store handleBytes (key.address key.identifier) (index / handleBytes)
  let alignment := handleBytes
  let index := index + handleBytes
  let number := store 4 key.memoize_instance (index / 4)
  let alignment := alignment + 4
  let index := index + 4
  let needed_alignment := key.parametersAlignment
  let (zeros, index) :=
    if needed_alignment > 1 then
      padding needed_alignment needed_alignment alignment index
    else ([], index)
  name :: number :: (zeros ++ dependencyWrites values index key.dependency_info)

end KeyInfo

end Vyasa.Memoization
