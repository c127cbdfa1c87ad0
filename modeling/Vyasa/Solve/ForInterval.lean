import Vyasa.Interval.Basic

/-! `SolveForInterval`: the range of a variable in which a condition may hold, or
in which it must. -/
namespace Vyasa.Solve

open Word IRMatch Vyasa.Expr

/-- The lets that a visitor is inside of, the inner ones first. -/
abbrev LetScope := List (Name × Expr)

def LetScope.find (scope : LetScope) (name : Name) : Option Expr := scope.lookup name

/-- What the visitor calls. The names that `solve_expression` makes for common
subexpressions are numbered, from the number it is given. -/
structure Callees where
  solveExpression : Name → Nat → LetScope → Expr → Nat × Option Expr
  canProve : Expr → Bool
  simplify : Expr → Expr

/-- What the visitor keeps between visits. -/
structure Memory where
  names : Nat
  solvedVars : List ((Name × Bool) × Interval) := []
  cacheT : List (Expr × Interval) := []
  cacheF : List (Expr × Interval) := []

namespace Memory

def cache (m : Memory) (target : Bool) : List (Expr × Interval) :=
  if target then m.cacheT else m.cacheF

def insertCache (m : Memory) (target : Bool) (cond : Expr) (i : Interval) : Memory :=
  if target then { m with cacheT := (cond, i) :: m.cacheT }
  else { m with cacheF := (cond, i) :: m.cacheF }

end Memory

/-- The names of the static variables of the visitors of `<=` and `>=`. -/
structure StaticNames where
  b : Name
  c : Name

def leNames : StaticNames := ⟨.unique 0, .unique 1⟩

def geNames : StaticNames := ⟨.unique 2, .unique 3⟩

section Parts

/-- `v && v->name == var` -/
def isVar (x : Name) : Expr → Bool
  | .var _ name => name = x
  | _ => false

/-- `fail` -/
def failed (outer : Bool) : Interval := if outer then .everything else .nothing

def intervalUnion (callees : Callees) (outer : Bool) (ia ib : Interval) : Interval :=
  if outer then .makeUnion ia ib
  else
    let intersection := Interval.makeIntersection ia ib
    let overlaps := match intersection.min, intersection.max with
      | .expr lo, .expr hi => callees.canProve (.le lo hi)
      | _, _ => true
    if !intersection.isEmpty && (!intersection.isBounded || overlaps) then .makeUnion ia ib
    else if ia.isEmpty then ib
    else ia

/-- The bounds that use a name get its let around them. -/
def wrapLet (name : Name) (value : Expr) (i : Interval) : Interval :=
  i.mapFinite fun e => if e.mentions name then .letIn name value e else e

/-- What stands for the abstract variables of a cached solution is put in. -/
def instantiate (names : StaticNames) (b c : Expr) (i : Interval) : Interval :=
  i.mapFinite fun e => substitute names.c c (substitute names.b b e)

/-- `max(a, b) <= c` and `min(a, b) >= c`: both sides must hold, the second unless
the first operand decides. -/
def splitAnd (op opposite : CmpOp) (names : StaticNames) (a b c : Expr) : Expr :=
  let bVar := .var b.type names.b
  let cVar := .var c.type names.c
  .and (.cmp op a cVar) (.or (.cmp op bVar cVar) (.cmp opposite a bVar))

/-- `min(a, b) <= c` and `max(a, b) >= c` -/
def splitOr (op opposite : CmpOp) (names : StaticNames) (a b c : Expr) : Expr :=
  let bVar := .var b.type names.b
  let cVar := .var c.type names.c
  .or (.cmp op a cVar) (.and (.cmp op bVar cVar) (.cmp opposite a bVar))

/-- The condition over abstract variables that a comparison of a `max` or `min`
expands to. -/
def splitMinMax (op : CmpOp) (names : StaticNames) (a c : Expr) : Option (Expr × Expr) :=
  match op, a with
  | .le, .bin .max a b => some (splitAnd .le .ge names a b c, b)
  | .le, .bin .min a b => some (splitOr .le .ge names a b c, b)
  | .ge, .bin .max a b => some (splitOr .ge .le names a b c, b)
  | .ge, .bin .min a b => some (splitAnd .ge .le names a b c, b)
  | _, _ => none

/-- The range of a variable on the left of a solved comparison. -/
def solvedRange (op : CmpOp) (target : Bool) (b : Expr) : Interval :=
  match op, target with
  | .le, true => ⟨.negInf, .expr b⟩
  | .le, false => ⟨.expr (.add b (makeOne b.type)), .posInf⟩
  | .ge, true => ⟨.expr b, .posInf⟩
  | _, _ => ⟨.negInf, .expr (.sub b (makeOne b.type))⟩

/-- The connectives that the visitors of `==` and `!=` expand to. Those for truth
values join the two cases with `&&`. -/
def expandEquality (op : CmpOp) (a b : Expr) : Expr :=
  match op, decide (a.type = .bool) with
  | .eq, true => .and (.and a b) (.and (.not a) (.not b))
  | .eq, false => .and (.le a b) (.ge a b)
  | _, true => .and (.and a (.not b)) (.and (.not a) b)
  | _, false => .or (.lt a b) (.gt a b)

end Parts

section Visit

variable (callees : Callees) (x : Name) (outer : Bool)

mutual

/-- The visitor, to a depth of nested visits, of a condition that has already been
rearranged or not. -/
def visit : Nat → LetScope → Bool → Bool → Expr → Memory → Option (Interval × Memory)
  | 0, _, _, _, _, _ => none
  | depth + 1, scope, solved, target, e, m =>
    match e with
    | .imm _ v => some (if decide (v ≠ 0) = target then .everything else .nothing, m)
    | .bin .and a b => do
        let (ia, m) ← visit depth scope solved target a m
        let (ib, m) ← visit depth scope solved target b m
        return (if target then .makeIntersection ia ib else intervalUnion callees outer ia ib, m)
    | .bin .or a b => do
        let (ia, m) ← visit depth scope solved target a m
        let (ib, m) ← visit depth scope solved target b m
        return (if target then intervalUnion callees outer ia ib else .makeIntersection ia ib, m)
    | .not a => visit depth scope solved (!target) a m
    | .letIn name value body => do
        let usesVar := value.mentions x || scope.any fun p => value.mentions p.1
        let inner := if usesVar then (name, value) :: scope else scope
        let (i, m) ← visit depth inner solved target body m
        return (wrapLet name value i, m)
    | .var _ name =>
        match scope.find name with
        | none => some (failed outer, m)
        | some value =>
            match m.solvedVars.lookup (name, target) with
            | some i => some (i, m)
            | none => do
                let (i, m) ← visit depth scope solved target value m
                return (i, { m with solvedVars := ((name, target), i) :: m.solvedVars })
    | .cmp .lt a b => visit depth scope solved target (.le a (.sub b (makeOne b.type))) m
    | .cmp .gt a b => visit depth scope solved target (.ge a (.add b (makeOne b.type))) m
    | .cmp .le a b => visitOrder depth scope solved target .le leNames a b m
    | .cmp .ge a b => visitOrder depth scope solved target .ge geNames a b m
    | .cmp op a b => visit depth scope solved target (expandEquality op a b) m
    | .cast _ _ | .load _ _ _ | .binCall _ _ _ | .unaryCall _ _ | .intrin _ _ | .marker _ _ =>
        some (failed outer, m)
    -- there is no visitor of its own: the result of the last operand stays
    | .select c t f => do
        let (_, m) ← visit depth scope solved target c m
        let (_, m) ← visit depth scope solved target t m
        visit depth scope solved target f m
    -- not a condition
    | .bin _ _ _ => none

/-- The visitors of `<=` and `>=`. -/
def visitOrder : Nat → LetScope → Bool → Bool → CmpOp → StaticNames → Expr → Expr → Memory →
    Option (Interval × Memory)
  | 0, _, _, _, _, _, _, _, _ => none
  | depth + 1, scope, solved, target, op, names, a, c, m =>
    if !solved then
      match callees.solveExpression x m.names scope (.cmp op a c) with
      | (k, none) => some (failed outer, { m with names := k })
      | (k, some e) => visit depth scope true target e { m with names := k }
    else if isVar x a then some (solvedRange op target c, m)
    else
      match splitMinMax op names a c with
      | none => some (failed outer, m)
      | some (cond, b) =>
          match (m.cache target).lookup cond with
          | some i => some (instantiate names b c i, m)
          | none => do
              let (i, m) ← visit depth scope false target cond m
              return (instantiate names b c i, m.insertCache target cond i)

end

/-- `solve_for_inner_interval` and `solve_for_outer_interval` -/
def solveForInterval (depth names : Nat) (cond : Expr) : Option Interval := do
  let (i, _) ← visit callees x outer depth [] false true cond { names := names }
  let result := i.map callees.simplify
  return match result.min, result.max with
    | .expr lo, .expr hi => if callees.canProve (.gt lo hi) then .nothing else result
    | _, _ => result

end Visit

end Vyasa.Solve
