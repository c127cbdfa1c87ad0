import Vyasa.AICore.Columns
import Vyasa.AICore.Permute

/-! The emission of the code for a block, as a list of lines. The vectors of a register
are loaded when a call first needs them. -/
namespace Vyasa.AICore

/-- An operand of a call, as it is printed. -/
structure Operand where
  register : String
  isTemporal : Bool
  coefficients : PermuteCoefficients

/-- A call of the intrinsic for products, or for products that are accumulated. The
offsets of its columns determine what it reads; the text has coefficients in their
place. -/
structure Call where
  useMul : Bool
  stmtId : Nat
  operand1 : Operand
  operand2 : Operand
  columns : List (Int × Int)

/-- A line of the emitted code. A pointer is printed as the name of a buffer and the
number that is added to it. -/
inductive Line where
  | accumulator (stmtId : Nat)
  | declare (lanes : Nat) (register : String)
  | updW (register : String) (chunk : Int) (buffer : String) (min : Bound)
  | load (register buffer : String) (min : Bound)
  | call (call : Call)
  | initialLoad (stmtId : Nat) (buffer : String) (base : Address)
  | addInitial (stmtId : Nat)
  | store (stmtId : Nat) (buffer : String) (base : Address)

/-- The lines emitted so far. The vectors that a register has been filled with are kept
with its group, which is always found by its name. -/
structure Emission where
  lines : List Line := []
  allocations : String → List Int := fun _ => []
  useMulIntrinsic : Bool := true
  stmtId : Nat := 0

def Emission.emit (s : Emission) (lines : List Line) : Emission := { s with lines := s.lines ++ lines }

section Code

/-- The vectors from the first to the last one, in order. -/
def loadRange (first last : Int) : List Int :=
  (List.range (last + 1 - first).toNat).map fun i : Nat => first + i

/-- The lanes of the type of a register. -/
def bufferLanes (c : Compiler) (extentSize : Int) : Option Nat :=
  if extentSize ≤ c.numSimdLanes then some c.numSimdLanes
  else if extentSize ≤ 2 * c.numSimdLanes then some (2 * c.numSimdLanes)
  else if extentSize ≤ 4 * c.numSimdLanes then some (4 * c.numSimdLanes)
  else none

def isLargerThanVectorLength (c : Compiler) (group : LogicalMemoryGroup) : Bool :=
  c.numSimdLanes < group.extentSize

def loadRangeStart (c : Compiler) (offset : Int) : Int := offset.tdiv c.numSimdLanes

def loadRangeEnd (c : Compiler) (group : LogicalMemoryGroup) (offset : Int) (isTemporal : Bool) : Int :=
  if isLargerThanVectorLength c group && isTemporal then
    (offset + c.memoryOperationsStrideLength * (c.numSimdLanes - 1)).tdiv c.numSimdLanes
  else loadRangeStart c offset

/-- The vectors of the range that are not there yet. -/
def unallocatedLoadRanges (c : Compiler) (group : LogicalMemoryGroup) (offset : Int) (isTemporal : Bool)
    (s : Emission) : List Int :=
  (loadRange (loadRangeStart c offset) (loadRangeEnd c group offset isTemporal)).filter
    (· ∉ s.allocations group.name)

/-- The lines that fill these vectors of a register. -/
def loadLines (c : Compiler) (group : LogicalMemoryGroup) (loadName : String) (lanes : Nat)
    (isFirst : Bool) (unallocated : List Int) : Option (List Line) :=
  if isLargerThanVectorLength c group then
    some ((if isFirst then [.declare lanes group.name] else []) ++
      unallocated.map (.updW group.name · (loadName ++ "_buffer") group.extent.min))
  else if unallocated.length = 1 then
    some [.load group.name (loadName ++ "_buffer") group.extent.min]
  else none

def declareAndInitializeLoads (c : Compiler) (group : LogicalMemoryGroup) (offset : Int)
    (isTemporal : Bool) (loadName : String) (s : Emission) : Option Emission :=
  let unallocated := unallocatedLoadRanges c group offset isTemporal s
  if unallocated.isEmpty then some s
  else do
    let lanes ← bufferLanes c group.extentSize
    let lines ← loadLines c group loadName lanes (s.allocations group.name).isEmpty unallocated
    return { s.emit lines with
             allocations :=
              Function.update s.allocations group.name (s.allocations group.name ++ unallocated) }

def getLogicalMemoryGroupInformationGivenTheNameOfGroup (targetGroupName : String)
    (temporal spatial : ReuseGraph) : Option (LogicalMemoryGroup × Bool) :=
  match temporal.groups.find? (·.name = targetGroupName) with
  | some group => some (group, true)
  | none => (spatial.groups.find? (·.name = targetGroupName)).map (·, false)

/-- The loads that one column of a call needs. -/
def loadColumn (c : Compiler) (operand1 operand2 : LogicalMemoryGroup × Bool) (names : String × String)
    (s : Emission) (offsets : Int × Int) : Option Emission := do
  let s ← declareAndInitializeLoads c operand1.1 offsets.1 operand1.2 names.1 s
  declareAndInitializeLoads c operand2.1 offsets.2 operand2.2 names.2 s

/-- The body of the loop over the products, for the first product of a call. -/
def emitCall (c : Compiler) (operand1 operand2 : Option (LogicalMemoryGroup × Bool))
    (names : String × String) (steps : Int × Int) (operandOffsets : List (Int × Int)) (s : Emission)
    (vectorMacCounter : Nat) : Option Emission := do
  let columns ← (List.range c.numSimdColumnsPerLane).mapM fun col =>
    operandOffsets[vectorMacCounter + col]?
  let operand1 ← operand1
  let operand2 ← operand2
  let s ← columns.foldlM (loadColumn c operand1 operand2 names) s
  let first ← operandOffsets[vectorMacCounter]?
  let coefficients1 ← getPermuteCoefficients c first.1 steps.1 operand1.2
  let coefficients2 ← getPermuteCoefficients c first.2 steps.2 operand2.2
  return { s.emit [.call { useMul := s.useMulIntrinsic, stmtId := s.stmtId
                           operand1 := ⟨operand1.1.name, operand1.2, coefficients1⟩
                           operand2 := ⟨operand2.1.name, operand2.2, coefficients2⟩
                           columns := columns }] with useMulIntrinsic := false }

/-- The numbers of the products that begin a call. -/
def firstOfCalls (columns numMacs : Nat) : List Nat := (List.range numMacs).filter (· % columns = 0)

def emitVectorMac (c : Compiler) (temporal spatial : ReuseGraph) (names : String × String)
    (s : Emission) (mac : AIVectorMacOperation) : Option Emission := do
  let steps ← validateOffsetsAndReturnStepOfFusedMACOperations c.numSimdColumnsPerLane mac.operandOffsets
  let operand1 := getLogicalMemoryGroupInformationGivenTheNameOfGroup mac.operand1GroupName temporal spatial
  let operand2 := getLogicalMemoryGroupInformationGivenTheNameOfGroup mac.operand2GroupName temporal spatial
  (firstOfCalls c.numSimdColumnsPerLane mac.operandOffsets.length).foldlM
    (emitCall c operand1 operand2 names steps mac.operandOffsets) s

/-- The load and the addition of the initial value, and the store. The address of the
store is that of the initial load. -/
def storeLines (heap : Heap) (eliminateInitialLoads : Bool) (stmtId : Nat) (initial : LoadPtr) :
    Option (List Line) :=
  let buffer := (heap initial).name ++ "_buffer"
  match (heap initial).index with
  | .ramp base _ _ =>
    some ((if eliminateInitialLoads then [] else [.initialLoad stmtId buffer base, .addInitial stmtId]) ++
      [.store stmtId buffer base])
  | _ => none

/-- One turn of the loop over the statements. -/
def emitStatement (c : Compiler) (heap : Heap) (temporal spatial : ReuseGraph)
    (eliminateInitialLoads : Bool) (s : Emission) (statement : TripletIRNode) : Option Emission := do
  guard (statement.initialLoads.length = 1)
  match statement.pairWiseLoads with
  | [] => return s
  | pair :: _ =>
    let names := ((heap pair.1).name, (heap pair.2).name)
    let s ← statement.fusedVectorMacs.foldlM (emitVectorMac c temporal spatial names)
      { s.emit [.accumulator s.stmtId] with useMulIntrinsic := true }
    let initial ← statement.initialLoads.head?
    let lines ← storeLines heap eliminateInitialLoads s.stmtId initial
    return { s.emit lines with stmtId := s.stmtId + 1 }

def generateCode (c : Compiler) (heap : Heap) (statements : List TripletIRNode)
    (temporal spatial : ReuseGraph) (eliminateInitialLoads : Bool) : Option (List Line) := do
  let s ← statements.foldlM (emitStatement c heap temporal spatial eliminateInitialLoads) {}
  return s.lines

end Code

end Vyasa.AICore
