import Vyasa.IREquality.Tree
import Vyasa.Compare.Coherent

/-! The deep comparison of IR, without and with a cache of pairs found equal. -/
namespace Vyasa.IREquality

open Compare

/-- Which of two fields of different kinds comes first. Nodes of one type do not have such
fields at one place. -/
def Scalar.rank : Scalar → Nat
  | .int _ => 0
  | .float _ => 1
  | .name _ => 2
  | .reversed _ => 3

/-- `compare_scalar` and `compare_names`. -/
def Scalar.compare : Scalar → Scalar → Ordering
  | .int a, .int b => compareBy (fun x y => decide (x < y)) a b
  | .float a, .float b => compareBy F64.less a b
  | .name a, .name b => compareBy (fun x y => decide (x < y)) a b
  | .reversed a, .reversed b => compareBy (fun x y => decide (x < y)) b a
  | a, b => compareBy (fun x y => decide (x < y)) a.rank b.rank

def compareScalars : List Scalar → List Scalar → Ordering
  | [], [] => .eq
  | [], _ :: _ => .lt
  | _ :: _, [] => .gt
  | a :: l, b :: l' => (a.compare b).then (compareScalars l l')

/-- The types of two expressions; statements have none. -/
def compare_types (a b : Option Ty) : Ordering :=
  compareScalars ((a.map Ty.scalars).getD []) ((b.map Ty.scalars).getD [])

def compareNodeType (a b : IRNodeType) : Ordering :=
  compareBy (fun x y => decide (x < y)) a.ctorIdx b.ctorIdx

mutual

/-- `compare_expr` and `compare_stmt` without a cache. -/
def Tree.compare : Tree → Tree → Ordering
  | .undefined, .undefined => .eq
  | .undefined, .node .. => .lt
  | .node .., .undefined => .gt
  | .node addr node_type _ type fields, .node addr' node_type' _ type' fields' =>
      if addr = addr' then .eq
      else (compareNodeType node_type node_type').then <|
        (compare_types type type').then (fields.compare fields')

def Fields.compare : Fields → Fields → Ordering
  | .nil, .nil => .eq
  | .nil, _ => .lt
  | .scalar .., .nil => .gt
  | .scalar s rest, .scalar s' rest' => (s.compare s').then (rest.compare rest')
  | .scalar .., .child .. => .lt
  | .child t rest, .child t' rest' => (t.compare t').then (rest.compare rest')
  | .child .., _ => .gt

end

/-- `IRDeepCompare`. -/
def IRDeepCompare (a b : Tree) : Bool := a.compare b == .lt

def equal (a b : Tree) : Bool := a.compare b == .eq

/-! ### The cache -/

def Tree.addr : Tree → Nat
  | .undefined => 0
  | .node addr .. => addr

/-- Two references to one object. -/
def Tree.same_as (a b : Tree) : Bool :=
  match a, b with
  | .undefined, .undefined => true
  | .node addr .., .node addr' .. => addr = addr'
  | _, _ => false

structure IRCompareCache where
  bits : Nat
  entries : Nat → Tree × Tree

namespace IRCompareCache

/-- An empty cache of `2 ^ bits` entries. -/
def empty (bits : Nat) : IRCompareCache := ⟨bits, fun _ => (.undefined, .undefined)⟩

def hash (cache : IRCompareCache) (a b : Tree) : Nat :=
  let mix := (a.addr + b.addr + (a.addr ^^^ b.addr)) % 2 ^ 64
  let mix := mix ^^^ mix >>> cache.bits
  let mix := mix ^^^ mix >>> (cache.bits * 2)
  mix % 2 ^ cache.bits

def insert (cache : IRCompareCache) (a b : Tree) : IRCompareCache :=
  { cache with entries := Function.update cache.entries (cache.hash a b) (a, b) }

def contains (cache : IRCompareCache) (a b : Tree) : Bool :=
  let e := cache.entries (cache.hash a b)
  (a.same_as e.1 && b.same_as e.2) || (a.same_as e.2 && b.same_as e.1)

/-- Remember a pair of expressions that was found equal. -/
def remember (cache : IRCompareCache) (a b : Tree) (isExpr : Bool) (result : Ordering) :
    IRCompareCache :=
  if isExpr && result == .eq then cache.insert a b else cache

end IRCompareCache

mutual

/-- `compare_expr` and `compare_stmt` with a cache. Statements are not looked up in it. -/
def Tree.compareCached : Tree → Tree → IRCompareCache → Ordering × IRCompareCache
  | .undefined, .undefined, cache => (.eq, cache)
  | .undefined, .node .., cache => (.lt, cache)
  | .node .., .undefined, cache => (.gt, cache)
  | .node addr node_type rest type fields, .node addr' node_type' rest' type' fields', cache =>
      if addr = addr' then (.eq, cache)
      else match (compareNodeType node_type node_type').then (compare_types type type') with
        | .eq =>
            let a := Tree.node addr node_type rest type fields
            let b := Tree.node addr' node_type' rest' type' fields'
            if node_type.isExpr && cache.contains a b then (.eq, cache)
            else
              let (result, cache) := fields.compareCached fields' cache
              (result, cache.remember a b node_type.isExpr result)
        | result => (result, cache)

def Fields.compareCached : Fields → Fields → IRCompareCache → Ordering × IRCompareCache
  | .nil, .nil, cache => (.eq, cache)
  | .nil, _, cache => (.lt, cache)
  | .scalar .., .nil, cache => (.gt, cache)
  | .scalar s rest, .scalar s' rest', cache =>
      match s.compare s' with
      | .eq => rest.compareCached rest' cache
      | result => (result, cache)
  | .scalar .., .child .., cache => (.lt, cache)
  | .child t rest, .child t' rest', cache =>
      match t.compareCached t' cache with
      | (.eq, cache) => rest.compareCached rest' cache
      | (result, cache) => (result, cache)
  | .child .., _, cache => (.gt, cache)

end

end Vyasa.IREquality
