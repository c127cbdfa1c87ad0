import Vyasa.Interval.Basic
import Vyasa.ModulusRemainder.Soundness

/-! The loads of a block of multiply-accumulate statements, the groups of loads that
share a vector register, and the two measures by which loads are grouped. A failed
assertion, a null pointer or a division by zero is `none`. -/
namespace Vyasa

open Word

/-- `as<IntImm>` -/
def Expr.asIntImm : Expr → Option Int
  | imm T v => if T.signed then some v else none
  | _ => none

namespace AICore

/-- An index is of type `Int(32)`, so its constants fit an `int`. -/
abbrev Address : Type := { e : Expr // e.type = .int32 }

def constant (v : Int) : Address := ⟨.imm .int32 v, rfl⟩

/-- The index of a load. A vector that is no ramp has no stride. -/
inductive Index where
  | scalar (e : Address)
  | ramp (base stride : Address) (lanes : Nat)
  | vector (lanes : Nat)
deriving DecidableEq

structure Load where
  name : String
  index : Index
  alignment : ModulusRemainder := {}
deriving DecidableEq

/-- The address of a `Load` node. One node may occur in several statements. -/
abbrev LoadPtr : Type := Nat

abbrev Heap : Type := LoadPtr → Load

/-- `type.is_scalar()`: the lanes of a load are those of its index. -/
def Load.isScalar (load : Load) : Bool := load.index matches .scalar _

def Load.isVector (load : Load) : Bool := !load.isScalar

/-- The address of the first lane, if the lanes are a stride apart. -/
def Load.base (load : Load) : Option Address :=
  match load.index with
  | .scalar e => some e
  | .ramp base _ _ => some base
  | .vector _ => none

def Load.lanes (load : Load) : Nat :=
  match load.index with
  | .scalar _ => 1
  | .ramp _ _ lanes | .vector lanes => lanes

def extractStrideLengthOfAMemoryOperation : Index → Int
  | .ramp _ stride _ => stride.val.asIntImm.getD (-1)
  | _ => -1

abbrev Load.stride (load : Load) : Int := extractStrideLengthOfAMemoryOperation load.index

/-- The pairs of a fused statement are the products that are added up. -/
structure AIVectorMacOperation where
  operand1GroupName : String
  operand2GroupName : String
  simdColumns : Int
  simdLanes : Int
  operandOffsets : List (Int × Int)
deriving DecidableEq

structure TripletIRNode where
  initialLoads : List LoadPtr
  pairWiseLoads : List (LoadPtr × LoadPtr)
  fusedVectorMacs : List AIVectorMacOperation := []

structure LogicalMemoryGroup where
  ids : List Nat
  extent : Interval := {}
  extentSize : Int := 0
  offsets : List Int := []
  name : String := ""

/-- The ids of a group are indices into the loads. -/
structure ReuseGraph where
  loads : List LoadPtr
  groups : List LogicalMemoryGroup

/-- `GetNumSIMDColumns` -/
def getNumSIMDColumns (numSimdLanes dataTypeSizeInBits : Nat) : Option Nat :=
  if dataTypeSizeInBits = 32 then
    if numSimdLanes = 8 then some 1 else none
  else if dataTypeSizeInBits = 16 then
    if numSimdLanes = 8 ∨ numSimdLanes = 16 then some (32 / numSimdLanes) else none
  else none

/-- What the parser leaves behind. The flag for small temporal groups is `none` where
the source has `-1`. -/
structure Compiler where
  numSimdLanes : Nat
  dataTypeSizeInBits : Nat
  numSimdColumnsPerLane : Nat
  columns : getNumSIMDColumns numSimdLanes dataTypeSizeInBits = some numSimdColumnsPerLane := by
    decide
  memoryOperationsStrideLength : Int
  isTemporalLogicalGroupSmallerThan256b : Option Bool := none

theorem columns_sixteen : getNumSIMDColumns 16 16 = some 2 := by decide

namespace Compiler

/-- The three shapes of vectors that are handled. -/
theorem shape (c : Compiler) :
    (c.numSimdLanes = 8 ∧ c.dataTypeSizeInBits = 32 ∧ c.numSimdColumnsPerLane = 1) ∨
    (c.numSimdLanes = 8 ∧ c.dataTypeSizeInBits = 16 ∧ c.numSimdColumnsPerLane = 4) ∨
    (c.numSimdLanes = 16 ∧ c.dataTypeSizeInBits = 16 ∧ c.numSimdColumnsPerLane = 2) := by
  have h := c.columns
  unfold getNumSIMDColumns at h
  split_ifs at h with h32 h8 h16 hLanes
  · exact Or.inl ⟨h8, h32, (Option.some.inj h).symm⟩
  · have hColumns := Option.some.inj h
    rcases hLanes with h8 | hLanes
    · exact Or.inr (Or.inl ⟨h8, h16, by rw [← hColumns, h8]⟩)
    · exact Or.inr (Or.inr ⟨hLanes, h16, by rw [← hColumns, hLanes]⟩)

end Compiler

section Reuse

/-- The number of elements that two vectors at this distance share, as the source
counts them. -/
def reuseAt (lanes stride diff : Int) : Option Int :=
  let offset := if 0 < diff then diff else -1 * diff
  let reuse := lanes - offset
  if 0 < reuse then
    if stride = 0 then none
    else
      let reuse := if reuse.tmod stride = 0 then reuse.tdiv stride else reuse.tdiv stride + 1
      some (if 0 < reuse then reuse else 0)
  else some 0

def getReuseAmongVectorLoads (simplify : Expr → Expr) (a b : Load) : Option Int :=
  if a.name = b.name then
    match a.index, b.index with
    | .ramp baseA _ lanesA, .ramp baseB _ lanesB =>
      if lanesA = lanesB ∧ a.stride = b.stride then
        match (simplify (.sub baseA baseB)).asIntImm with
        | some diff => reuseAt lanesA a.stride diff
        | none => some 0
      else none
    | _, _ => none
  else some 0

/-- `(int)` of a 64-bit word -/
def toInt (x : Int64) : Int := IntType.int32.wrap x.toInt

/-- The distance of two scalars, where it is a constant and their addresses are
aligned within the same vector; otherwise `-1`. -/
def getSpatialDistanceAmongVectorBroadcasts (simplify : Expr → Expr) (c : Compiler) (a b : Load) :
    Option Int :=
  if a.name = b.name then
    match a.index, b.index with
    | .scalar indexA, .scalar indexB =>
      match (simplify (.sub indexA indexB)).asIntImm with
      | some diff =>
        let offset := if 0 < diff then diff else -1 * diff
        if 0 ≤ offset ∧ a.alignment.remainder.toInt.tdiv c.numSimdLanes =
            b.alignment.remainder.toInt.tdiv c.numSimdLanes
        then some offset else some (-1)
      | none => some (-1)
    | _, _ => none
  else some (-1)

theorem reuseAt_neg (lanes stride diff : Int) : reuseAt lanes stride (-diff) = reuseAt lanes stride diff := by
  have hOffset : (if 0 < -diff then -diff else -1 * -diff) = if 0 < diff then diff else -1 * diff := by
    split_ifs <;> omega
  unfold reuseAt
  rw [hOffset]

end Reuse

end AICore

end Vyasa

/-! The parser of a statement: it walks the graph of the stored value, skipping nodes that
it has seen, and hands the two loads of a product on through a flag and two pointers. -/
namespace Vyasa.AICore

mutual

/-- A node of a stored value, as far as the parser tells nodes apart, with its address.
A broadcast is a node with one child, and a constant is one with none. -/
inductive Node where
  | load (ptr : LoadPtr)
  | mul (ptr : Nat) (a b : Node)
  | add (ptr : Nat) (a b : Node)
  | other (ptr : Nat) (children : Nodes)

inductive Nodes where
  | nil
  | cons (n : Node) (rest : Nodes)

end

namespace Node

def ptr : Node → Nat
  | load ptr | mul ptr _ _ | add ptr _ _ | other ptr _ => ptr

/-- `as<Mul>()` -/
def isMul : Node → Bool
  | mul _ _ _ => true
  | _ => false

/-- `as<Load>()` -/
def asLoad : Node → Option LoadPtr
  | load ptr => some ptr
  | _ => none

end Node

structure Store where
  name : String
  index : Index
  value : Node

/-- A pointer that has not been set and a size that is `-1` are `none`. -/
structure TripletIRParser where
  node : TripletIRNode := { initialLoads := [], pairWiseLoads := [] }
  stores : List Store := []
  visited : List Nat := []
  numSimdLanes : Option Nat := none
  dataTypeSizeInBits : Option Nat := none
  memoryOperationsStrideLength : Int := -1
  tmpMacOperand1 : Option LoadPtr := none
  tmpMacOperand2 : Option LoadPtr := none
  tmpWhichOperand : Bool := false

namespace TripletIRParser

/-- The pair of the two operands. The message about it reads both. -/
def visitMul (s : TripletIRParser) : Option TripletIRParser := do
  let operand1 ← s.tmpMacOperand1
  let operand2 ← s.tmpMacOperand2
  return { s with node := { s.node with pairWiseLoads := s.node.pairWiseLoads ++ [(operand1, operand2)] } }

/-- The lanes and the size of the elements of a vector. -/
def checkLanes (lanes bits : Nat) (s : TripletIRParser) : Option TripletIRParser :=
  if s.numSimdLanes = none ∨ s.dataTypeSizeInBits = none then
    some { s with numSimdLanes := some lanes, dataTypeSizeInBits := some bits }
  else if s.numSimdLanes = some lanes ∧ s.dataTypeSizeInBits = some bits then some s
  else none

def checkStride (stride : Int) (s : TripletIRParser) : Option TripletIRParser :=
  if stride = -1 then none
  else if s.memoryOperationsStrideLength = -1 then some { s with memoryOperationsStrideLength := stride }
  else if s.memoryOperationsStrideLength ≠ stride then none
  else some s

/-- The pointer that the flag selects. -/
def setOperand (p : LoadPtr) (s : TripletIRParser) : TripletIRParser :=
  if s.tmpWhichOperand = false then { s with tmpMacOperand1 := some p }
  else { s with tmpMacOperand2 := some p }

/-- The element of the load at an address has this many bits. -/
def checkVector (heap : Heap) (bits : LoadPtr → Nat) (p : LoadPtr) (s : TripletIRParser) :
    Option TripletIRParser :=
  if (heap p).isVector then
    (checkLanes (heap p).lanes (bits p) s).bind (checkStride (heap p).stride)
  else some s

def visitLoad (heap : Heap) (bits : LoadPtr → Nat) (p : LoadPtr) (s : TripletIRParser) :
    Option TripletIRParser := do
  let s ← checkVector heap bits p (s.setOperand p)
  return { s with tmpWhichOperand := !s.tmpWhichOperand }

/-- The load that a sum starts from. -/
def initialLoad (heap : Heap) (p : LoadPtr) (s : TripletIRParser) : Option TripletIRParser := do
  guard ((heap p).isVector ∧ (heap p).stride = 1)
  let initialLoads := s.node.initialLoads ++ [p]
  guard (initialLoads.length = 1)
  return { s with node := { s.node with initialLoads := initialLoads } }

mutual

/-- `accept` -/
def visit (heap : Heap) (bits : LoadPtr → Nat) : Node → TripletIRParser → Option TripletIRParser
  | .load p, s => visitLoad heap bits p s
  | .mul _ a b, s => ((visit heap bits a s).bind (visit heap bits b)).bind visitMul
  | .add _ a b, s =>
      if a.isMul && b.isMul then (visit heap bits a s).bind (visit heap bits b)
      else if a.isMul then
        b.asLoad.bind fun p => (visit heap bits a s).bind (initialLoad heap p)
      else if b.isMul then
        a.asLoad.bind fun p => (visit heap bits b s).bind (initialLoad heap p)
      else none
  | .other _ children, s => includeAll heap bits children s

/-- `include` for each child in turn. -/
def includeAll (heap : Heap) (bits : LoadPtr → Nat) : Nodes → TripletIRParser → Option TripletIRParser
  | .nil, s => some s
  | .cons n rest, s =>
      (if n.ptr ∈ s.visited then some s
        else visit heap bits n { s with visited := n.ptr :: s.visited }).bind (includeAll heap bits rest)

end

def visitStore (heap : Heap) (bits : LoadPtr → Nat) (store : Store) (s : TripletIRParser) :
    Option TripletIRParser := do
  guard (store.index matches .ramp .. ∧ extractStrideLengthOfAMemoryOperation store.index = 1)
  let s := { s with stores := s.stores ++ [store] }
  guard (s.stores.length = 1)
  visit heap bits store.value s

/-- What a new parser makes of a statement. -/
def parse (heap : Heap) (bits : LoadPtr → Nat) (store : Store) : Option TripletIRParser :=
  visitStore heap bits store {}

/-- The fields of the compiler that are set from the parser. -/
def compiler (s : TripletIRParser) : Option Compiler := do
  let numSimdLanes ← s.numSimdLanes
  let dataTypeSizeInBits ← s.dataTypeSizeInBits
  match h : getNumSIMDColumns numSimdLanes dataTypeSizeInBits with
  | some numSimdColumnsPerLane =>
    return { numSimdLanes, dataTypeSizeInBits, numSimdColumnsPerLane, columns := h,
             memoryOperationsStrideLength := s.memoryOperationsStrideLength }
  | none => none

end TripletIRParser

/-- One turn of the loop: every statement overwrites the fields of the compiler. -/
def parseStatement (heap : Heap) (bits : LoadPtr → Nat) (simplify : Store → Store)
    (s : Option Compiler × List TripletIRNode) (statement : Store) :
    Option (Option Compiler × List TripletIRNode) := do
  let parser ← TripletIRParser.parse heap bits (simplify statement)
  let compiler ← parser.compiler
  return (some compiler, s.2 ++ [parser.node])

/-- `ParseStatements`: the statements are simplified before the loop and in it. -/
def parseStatements (heap : Heap) (bits : LoadPtr → Nat) (simplify : Store → Store)
    (c : Option Compiler) (statements : List Store) : Option (Option Compiler × List TripletIRNode) :=
  (statements.map simplify).foldlM (parseStatement heap bits simplify) (c, [])

end Vyasa.AICore
