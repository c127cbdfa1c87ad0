import Mathlib.Data.String.Basic

/-! The nodes of the IR with the fields that the deep comparison reads, in the order in
which it reads them, and the few it does not read. -/
namespace Vyasa.IREquality

/-- A double, by its bits. -/
structure F64 where
  bits : BitVec 64
deriving DecidableEq

namespace F64

/-- The bits but for the sign. -/
def magnitude (x : F64) : Nat := x.bits.toNat % 2 ^ 63

/-- The exponent is the largest one and the mantissa is not zero. -/
def isNaN (x : F64) : Bool := 0x7ff0000000000000 < x.magnitude

/-- The order of the doubles that are not NaN. Both zeros are at the same place. -/
def key (x : F64) : Int := if x.bits.toNat < 2 ^ 63 then x.magnitude else - x.magnitude

/-- The comparison of IEEE doubles: with NaN it is false. -/
def less (x y : F64) : Bool := !x.isNaN && !y.isNaN && x.key < y.key

def zero : F64 := ⟨0⟩

def negZero : F64 := ⟨0x8000000000000000⟩

def nan : F64 := ⟨0x7ff8000000000000⟩

end F64

/-- A field that has an order of its own. The name of a load is compared the other way
round. -/
inductive Scalar where
  | int (n : Int)
  | float (x : F64)
  | name (s : String)
  | reversed (s : String)
deriving DecidableEq

inductive TypeCode where
  | int | uint | float | handle
deriving DecidableEq

inductive CPPTypeType where
  | Simple | Struct | Class | Union | Enum
deriving DecidableEq

structure CPlusPlusTypeName where
  cpp_type_type : CPPTypeType
  name : String
deriving DecidableEq

inductive ReferenceType where
  | NotReference | LValueReference | RValueReference
deriving DecidableEq

structure HandleCPlusPlusType where
  inner_name : CPlusPlusTypeName
  namespaces : List String
  enclosing_types : List CPlusPlusTypeName
  cpp_type_modifiers : List Nat
  reference_type : ReferenceType
deriving DecidableEq

/-- The type of an expression. -/
structure Ty where
  code : TypeCode
  bits : Nat
  lanes : Nat
  handle_type : Option HandleCPlusPlusType
deriving DecidableEq

/-- An enumerator or a size as a field. -/
def Scalar.nat (n : Nat) : Scalar := .int n

def HandleCPlusPlusType.scalars (h : HandleCPlusPlusType) : List Scalar :=
  [.nat h.reference_type.ctorIdx, .name h.inner_name.name, .nat h.inner_name.cpp_type_type.ctorIdx,
    .nat h.namespaces.length, .nat h.enclosing_types.length, .nat h.cpp_type_modifiers.length] ++
  h.namespaces.map .name ++
  h.enclosing_types.flatMap (fun t => [.nat t.cpp_type_type.ctorIdx, .name t.name]) ++
  h.cpp_type_modifiers.map .nat

/-- What `compare_types` compares. A pointer to void comes before the other pointers. -/
def Ty.scalars (t : Ty) : List Scalar :=
  [.nat t.code.ctorIdx, .nat t.bits, .nat t.lanes] ++
    match t.handle_type with
    | none => [.nat 0]
    | some h => .nat 1 :: h.scalars

inductive IRNodeType where
  | IntImm | UIntImm | FloatImm | StringImm | Broadcast | Cast | Variable | Add | Sub | Mod | Mul
  | Div | Min | Max | EQ | NE | LT | LE | GT | GE | And | Or | Not | Select | Load | Ramp | Call | Let
  | Shuffle | LetStmt | AssertStmt | ProducerConsumer | For | Acquire | Store | Provide | Allocate
  | Free | Realize | Block | Fork | IfThenElse | Evaluate | Prefetch
deriving DecidableEq

/-- The statements come after the expressions. -/
def IRNodeType.isExpr (t : IRNodeType) : Bool := t.ctorIdx < IRNodeType.LetStmt.ctorIdx

inductive MemoryType where
  | Auto | Heap | Stack | Register | GPUShared | LockedCache | VTCM
deriving DecidableEq

inductive DeviceAPI where
  | None | Host | Default_GPU | CUDA | OpenCL | GLSL | OpenGLCompute | Metal | Hexagon | HexagonDma
  | D3D12Compute
deriving DecidableEq

inductive ForType where
  | Serial | Parallel | Vectorized | Unrolled | Extern | GPUBlock | GPUThread | GPULane
  | PrepareForSoftwarePipelining
deriving DecidableEq

inductive CallType where
  | Image | Extern | ExternCPlusPlus | PureExtern | Halide | Intrinsic | PureIntrinsic
deriving DecidableEq

/-- The fields of a node that affect execution and are not compared. -/
def Uncompared : IRNodeType → Type
  | .For => DeviceAPI
  | .Allocate => Ty × MemoryType
  | .Realize => MemoryType
  | _ => Unit

mutual

/-- A reference to a node of the IR at an address, or to none. -/
inductive Tree where
  | undefined
  | node (addr : Nat) (node_type : IRNodeType) (rest : Uncompared node_type) (type : Option Ty)
      (fields : Fields)

/-- The fields of a node in the order in which they are compared. -/
inductive Fields where
  | nil
  | scalar (s : Scalar) (rest : Fields)
  | child (t : Tree) (rest : Fields)

end

namespace Fields

def scalars (l : List Scalar) (rest : Fields) : Fields := l.foldr .scalar rest

def children (l : List Tree) (rest : Fields) : Fields := l.foldr .child rest

/-- A vector of expressions, compared by `compare_expr_vector`. -/
def exprs (l : List Tree) (rest : Fields) : Fields :=
  .scalar (.nat l.length) (children l rest)

/-- The sizes of the two vectors of a realization or a prefetch, then their elements. -/
def region (types : List Ty) (bounds : List (Tree × Tree)) (rest : Fields) : Fields :=
  .scalar (.nat types.length) <| .scalar (.nat bounds.length) <|
    scalars (types.flatMap Ty.scalars) <| children (bounds.flatMap fun (min, extent) => [min, extent]) rest

end Fields

inductive BinaryOp where
  | Add | Sub | Mod | Mul | Div | Min | Max | EQ | NE | LT | LE | GT | GE | And | Or
deriving DecidableEq

/-- The alignment of an index. -/
structure Alignment where
  modulus : Int
  remainder : Int
deriving DecidableEq

/-- One node over its children. The lanes of a ramp and a broadcast are those of its type. -/
inductive Node where
  | IntImm (type : Ty) (value : Int)
  | UIntImm (type : Ty) (value : Nat)
  | FloatImm (type : Ty) (value : F64)
  | StringImm (type : Ty) (value : String)
  | Broadcast (type : Ty) (value : Tree)
  | Cast (type : Ty) (value : Tree)
  | Variable (type : Ty) (name : String)
  | Binary (op : BinaryOp) (type : Ty) (a b : Tree)
  | Not (type : Ty) (a : Tree)
  | Select (type : Ty) (condition true_value false_value : Tree)
  | Load (type : Ty) (name : String) (predicate index : Tree) (alignment : Alignment)
  | Ramp (type : Ty) (base stride : Tree)
  | Call (type : Ty) (name : String) (args : List Tree) (call_type : CallType) (value_index : Int)
  | Let (type : Ty) (name : String) (value body : Tree)
  | Shuffle (type : Ty) (vectors : List Tree) (indices : List Int)
  | LetStmt (name : String) (value body : Tree)
  | AssertStmt (condition message : Tree)
  | ProducerConsumer (name : String) (is_producer : Bool) (body : Tree)
  | For (name : String) (min extent : Tree) (for_type : ForType) (device_api : DeviceAPI) (body : Tree)
  | Acquire (semaphore count body : Tree)
  | Store (name : String) (predicate value index : Tree) (alignment : Alignment)
  | Provide (name : String) (values args : List Tree)
  | Allocate (name : String) (type : Ty) (memory_type : MemoryType) (extents : List Tree)
      (condition new_expr : Tree) (free_function : String) (body : Tree)
  | Free (name : String)
  | Realize (name : String) (types : List Ty) (memory_type : MemoryType) (bounds : List (Tree × Tree))
      (condition body : Tree)
  | Block (first rest : Tree)
  | Fork (first rest : Tree)
  | IfThenElse (condition then_case else_case : Tree)
  | Evaluate (value : Tree)
  | Prefetch (name : String) (types : List Ty) (bounds : List (Tree × Tree)) (condition body : Tree)

def BinaryOp.node_type : BinaryOp → IRNodeType
  | Add => .Add
  | Sub => .Sub
  | Mod => .Mod
  | Mul => .Mul
  | Div => .Div
  | Min => .Min
  | Max => .Max
  | EQ => .EQ
  | NE => .NE
  | LT => .LT
  | LE => .LE
  | GT => .GT
  | GE => .GE
  | And => .And
  | Or => .Or

def BinaryOp.rest : (op : BinaryOp) → Uncompared op.node_type
  | Add | Sub | Mod | Mul | Div | Min | Max | EQ | NE | LT | LE | GT | GE | And | Or => ()

open Fields in
/-- The node at an address, with its fields as the visit methods of the comparer read
them. -/
def Node.make (addr : Nat) : Node → Tree
  | IntImm type value => .node addr .IntImm () type (.scalar (.int value) .nil)
  | UIntImm type value => .node addr .UIntImm () type (.scalar (.nat value) .nil)
  | FloatImm type value => .node addr .FloatImm () type (.scalar (.float value) .nil)
  | StringImm type value => .node addr .StringImm () type (.scalar (.name value) .nil)
  | Broadcast type value => .node addr .Broadcast () type (children [value] .nil)
  | Cast type value => .node addr .Cast () type (children [value] .nil)
  | Variable type name => .node addr .Variable () type (.scalar (.name name) .nil)
  | Binary op type a b => .node addr op.node_type op.rest type (children [a, b] .nil)
  | Not type a => .node addr .Not () type (children [a] .nil)
  | Select type condition true_value false_value =>
      .node addr .Select () type (children [condition, true_value, false_value] .nil)
  | Load type name predicate index alignment =>
      .node addr .Load () type (.scalar (.reversed name) <| children [predicate, index] <|
        scalars [.int alignment.modulus, .int alignment.remainder] .nil)
  | Ramp type base stride => .node addr .Ramp () type (children [base, stride] .nil)
  | Call type name args call_type value_index =>
      .node addr .Call () type (scalars [.name name, .nat call_type.ctorIdx, .int value_index] <|
        exprs args .nil)
  | Let type name value body =>
      .node addr .Let () type (.scalar (.name name) <| children [value, body] .nil)
  | Shuffle type vectors indices =>
      .node addr .Shuffle () type (exprs vectors <|
        scalars (.nat indices.length :: indices.map .int) .nil)
  | LetStmt name value body =>
      .node addr .LetStmt () none (.scalar (.name name) <| children [value, body] .nil)
  | AssertStmt condition message =>
      .node addr .AssertStmt () none (children [condition, message] .nil)
  | ProducerConsumer name is_producer body =>
      .node addr .ProducerConsumer () none (scalars [.name name, .nat is_producer.toNat] <|
        children [body] .nil)
  | For name min extent for_type device_api body =>
      .node addr .For device_api none (scalars [.name name, .nat for_type.ctorIdx] <|
        children [min, extent, body] .nil)
  | Acquire semaphore count body =>
      .node addr .Acquire () none (children [semaphore, count, body] .nil)
  | Store name predicate value index alignment =>
      .node addr .Store () none (.scalar (.name name) <| children [predicate, value, index] <|
        scalars [.int alignment.modulus, .int alignment.remainder] .nil)
  | Provide name values args =>
      .node addr .Provide () none (.scalar (.name name) <| exprs args <| exprs values .nil)
  | Allocate name type memory_type extents condition new_expr free_function body =>
      .node addr .Allocate (type, memory_type) none (.scalar (.name name) <| exprs extents <|
        children [body, condition, new_expr] <| .scalar (.name free_function) .nil)
  | Free name => .node addr .Free () none (.scalar (.name name) .nil)
  | Realize name types memory_type bounds condition body =>
      .node addr .Realize memory_type none (.scalar (.name name) <| region types bounds <|
        children [body, condition] .nil)
  | Block first rest => .node addr .Block () none (children [first, rest] .nil)
  | Fork first rest => .node addr .Fork () none (children [first, rest] .nil)
  | IfThenElse condition then_case else_case =>
      .node addr .IfThenElse () none (children [condition, then_case, else_case] .nil)
  | Evaluate value => .node addr .Evaluate () none (children [value] .nil)
  | Prefetch name types bounds condition body =>
      .node addr .Prefetch () none (.scalar (.name name) <| region types bounds <|
        children [condition, body] .nil)

end Vyasa.IREquality
