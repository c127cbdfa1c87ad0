import Vyasa.Binding.Applications
import Vyasa.CSE.Graph

/-! The pass that makes one scalar `Provide` of each element of a tuple. -/
namespace Vyasa.SplitTuples

open Binding IREquality CSE

abbrev Expr : Type := CSE.Term

abbrev Exprs : Type := CSE.Terms

/-- The statements that take the place of a `Provide`. -/
inductive Stmt where
  | Provide (name : String) (value : Expr) (args : Exprs)
  | Block (first rest : Stmt)
  | LetStmt (name : String) (value : Expr) (body : Stmt)

/-- The fields of a `Provide`. -/
structure Provide where
  name : String
  values : List Expr
  args : Exprs

section Boxes

/-- One end of an interval. The expressions for the infinities are told by their address. -/
inductive Bound where
  | neg_inf
  | pos_inf
  | expr (e : Expr)

/-- The infinities are variables of type `Handle()`. -/
def Bound.toExpr : Bound → Expr
  | neg_inf => .var ⟨.handle, 64, 1, none⟩ "neg_inf"
  | pos_inf => .var ⟨.handle, 64, 1, none⟩ "pos_inf"
  | expr e => e

structure Interval where
  min : Bound
  max : Bound

namespace Interval

def is_empty : Interval → Bool
  | ⟨.pos_inf, _⟩ | ⟨_, .neg_inf⟩ => true
  | _ => false

def has_upper_bound (i : Interval) : Bool :=
  match i.max with
  | .pos_inf => false
  | _ => !i.is_empty

def has_lower_bound (i : Interval) : Bool :=
  match i.min with
  | .neg_inf => false
  | _ => !i.is_empty

end Interval

/-- `is_one` -/
def is_one : Expr → Bool
  | .app (.IntImm _ value) _ => value = 1
  | .app (.UIntImm _ value) _ => value = 1
  | .app (.FloatImm _ value) _ => value.bits = 0x3ff0000000000000
  | .app (.Cast _) (.cons e .nil) => is_one e
  | .app (.Broadcast _) (.cons e .nil) => is_one e
  | .app (.Call _ name call_type _) (.cons e _) =>
    (call_type = .Intrinsic || call_type = .PureIntrinsic) && (name = "bool_to_mask" || name = "cast_mask") && is_one e
  | _ => false

/-- `used` is not defined if the box is always used. -/
structure Box where
  used : Option Expr
  bounds : List Interval

def Box.size (b : Box) : Nat := b.bounds.length

def Box.empty (b : Box) : Bool := b.bounds.isEmpty

def Box.maybe_unused (b : Box) : Bool :=
  match b.used with
  | some used => !is_one used
  | none => false

def bool : Ty := ⟨.uint, 1, 1, none⟩

def const_true : Expr := .app (.UIntImm bool 1) .nil

def and (a b : Expr) : Expr := .app (.Binary .And bool) (.cons a (.cons b .nil))

def not (a : Expr) : Expr := .app (.Not bool) (.cons a .nil)

/-- `a >= b`. The types of an infinity and of an index cannot be matched. -/
def ge : Bound → Bound → Option Expr
  | .expr a, .expr b =>
    if typeOf a = typeOf b then some (.app (.Binary .GE bool) (.cons a (.cons b .nil))) else none
  | .expr _, _ | _, .expr _ => none
  | a, b => some (.app (.Binary .GE bool) (.cons a.toExpr (.cons b.toExpr .nil)))

/-- What the simplifier and the analysis of bounds answer. -/
structure Analysis where
  simplify : Expr → Expr
  can_prove : Expr → Bool
  box_provided : Provide → String → Box
  box_required : Provide → String → Box

/-- `overlap && e`, if the ends that `e` compares are there. -/
def andIf (bounded : Bool) (overlap : Expr) (e : Option Expr) : Option Expr :=
  if bounded then e.map (and overlap) else some overlap

/-- The condition that the boxes overlap in one more dimension. -/
def overlapIn (overlap : Expr) (a b : Interval) : Option Expr := do
  let overlap ← andIf (a.has_upper_bound && b.has_lower_bound) overlap (ge b.max a.min)
  andIf (a.has_lower_bound && b.has_upper_bound) overlap (ge a.max b.min)

def usedOr (b : Box) : Expr := if b.maybe_unused then b.used.getD const_true else const_true

/-- They are taken to overlap if it cannot be proved that they do not. -/
def boxes_overlap (analysis : Analysis) (a b : Box) : Option Bool :=
  if a.size ≠ b.size ∧ (a.empty || b.empty) then some false
  else if a.size ≠ b.size then none
  else do
    let overlap ← (a.bounds.zip b.bounds).foldlM (fun overlap p => overlapIn overlap p.1 p.2)
      (and (usedOr a) (usedOr b))
    return !analysis.can_prove (analysis.simplify (not overlap))

end Boxes

section Code

/-- `name + "." + std::to_string(i)` -/
def elementName (name : String) (i : Int) : String := name ++ "." ++ toString i

def valueName (name : String) (i : Int) : String := elementName name i ++ ".value"

/-- The visitor of calls. `env` has the number of outputs of each function. -/
def visitCall (env : String → Option Nat) : Op → Option Op
  | .Call type name .Halide value_index => do
    let outputs ← env name
    return .Call type (if outputs > 1 then elementName name value_index else name) .Halide 0
  | op => some op

def mutate (env : String → Option Nat) (e : Expr) : Option Expr := e.mapM (visitCall env)

def is_undef : Expr → Bool
  | .app (.Call _ name call_type _) _ => (call_type = .Intrinsic || call_type = .PureIntrinsic) && name = "undef"
  | _ => false

mutual

/-- The visitor that looks for calls of images. -/
def usesExternImage : Expr → Bool
  | .var _ _ => false
  | .letIn _ value body => usesExternImage value || usesExternImage body
  | .app (.Call _ _ .Image _) _ => true
  | .app _ args => usesExternImages args

def usesExternImages : Exprs → Bool
  | .nil => false
  | .cons e rest => usesExternImage e || usesExternImages rest

end

def uses_extern_image (op : Provide) : Bool := op.values.any usesExternImage || usesExternImages op.args

/-- The undefined `Stmt` if there are none. -/
def Stmt.blockOf : List Stmt → Option Stmt
  | [] => none
  | [s] => some s
  | s :: rest => (blockOf rest).map (.Block s)

/-- Whether all values must be computed before the first is stored. -/
def isAtomic (analysis : Analysis) (realizations : List String) (op : Provide) : Option Bool :=
  if !realizations.contains op.name && uses_extern_image op then some true
  else boxes_overlap analysis (analysis.box_provided op op.name) (analysis.box_required op op.name)

/-- The scalar `Provide` of an element. -/
def provideElement (name : String) (atomic : Bool) (args : Exprs) (p : Expr × Nat) : Stmt :=
  .Provide (elementName name p.2)
    (if !is_undef p.1 && atomic then .var (typeOf p.1) (valueName name p.2) else p.1) args

/-- The let of its value. -/
def letOf (name : String) (atomic : Bool) (p : Expr × Nat) : Option (String × Expr) :=
  if !is_undef p.1 && atomic then some (valueName name p.2, p.1) else none

/-- The visitor of a `Provide`. It fails where an assertion does. -/
def visitProvide (env : String → Option Nat) (analysis : Analysis) (realizations : List String)
    (op : Provide) : Option Stmt :=
  match op.values with
  | [value] => do
    let args ← op.args.mapM (visitCall env)
    let value ← mutate env value
    return .Provide op.name value args
  | values => do
    let atomic ← isAtomic analysis realizations op
    let args ← op.args.mapM (visitCall env)
    let _ ← env op.name
    let values ← values.mapM (mutate env)
    let result ← Stmt.blockOf (values.zipIdx.map (provideElement op.name atomic args))
    return (values.zipIdx.filterMap (letOf op.name atomic)).foldr (fun p s => .LetStmt p.1 p.2 s) result

end Code

end Vyasa.SplitTuples
