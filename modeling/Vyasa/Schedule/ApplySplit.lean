import Vyasa.IR.Eval

/-! `ApplySplit.cpp`: the substitutions, lets and predicates of a split, and the
bounds of the loops it makes. -/
namespace Vyasa.Schedule

open Word Vyasa.Expr

inductive TailStrategy where
  | roundUp | guardWithIf | shiftInwards | auto
deriving DecidableEq, Repr

inductive Split where
  | split (oldVar outer inner : String) (factor : Expr) (tail : TailStrategy)
  | fuse (oldVar outer inner : String)
  | rename (oldVar outer : String)
deriving DecidableEq

inductive ApplySplitResult where
  | substitution (name : Name) (value : Expr)
  | letStmt (name : Name) (value : Expr)
  | predicate (value : Expr)
deriving DecidableEq

/-- `prefix + var` -/
def loopVar (pre var : String) : Name := .mk (pre ++ var)

def loopMin (pre var : String) : Name := (loopVar pre var).suffix "loop_min"

def loopMax (pre var : String) : Name := (loopVar pre var).suffix "loop_max"

def loopExtent (pre var : String) : Name := (loopVar pre var).suffix "loop_extent"

def baseName (pre var : String) : Name := (loopVar pre var).suffix "base"

def rebasedName (pre var : String) : Name := (loopVar pre var).suffix "rebased"

/-- `Variable::make(Int(32), name)` -/
abbrev intVar (name : Name) : Expr := .var .int32 name

abbrev int (v : Int) : Expr := .imm .int32 v

/-- What is known about the extents of the dimensions: each is a multiple of this. -/
abbrev ExtentAlignment := String → Option Expr

def ExtentAlignment.set (alignment : ExtentAlignment) (var : String) (e : Expr) : ExtentAlignment :=
  Function.update alignment var (some e)

/-- Substitute in the new expression for the split variable, but also define it as
a let for the benefit of bounds inference. -/
def splitResults (pre oldVar inner : String) (base : Expr) : List ApplySplitResult :=
  let value := add (intVar (baseName pre inner)) (intVar (loopVar pre inner))
  [ .substitution (loopVar pre oldVar) value,
    .letStmt (loopVar pre oldVar) value,
    .letStmt (baseName pre inner) base ]

/-- The predication of a split that is exact but not known to be. -/
def guardResults (pre oldVar outer inner : String) (factor : Expr) : List ApplySplitResult :=
  let rebased := add (mul (intVar (loopVar pre outer)) factor) (intVar (loopVar pre inner))
  let rebasedVar := intVar (rebasedName pre oldVar)
  [ .substitution (loopVar pre oldVar) (add rebasedVar (intVar (loopMin pre oldVar))),
    .predicate (.intrin .likely (lt rebasedVar (intVar (loopExtent pre oldVar)))),
    .letStmt (rebasedName pre oldVar) rebased ]

/-- The base that is adjusted downwards to not compute off the end. -/
def shiftedBase (pre oldVar : String) (factor base : Expr) : Expr :=
  min (.intrin .likelyIfInnermost base) (add (intVar (loopMax pre oldVar)) (sub (int 1) factor))

/-- The values of the inner and the outer variable of a fused one. -/
def fusedInner (pre oldVar inner : String) : Expr :=
  add (mod (intVar (loopVar pre oldVar)) (max (intVar (loopExtent pre inner)) (int 1)))
    (intVar (loopMin pre inner))

def fusedOuter (pre oldVar outer inner : String) : Expr :=
  add (div (intVar (loopVar pre oldVar)) (max (intVar (loopExtent pre inner)) (int 1)))
    (intVar (loopMin pre outer))

/-- `apply_split`, with the simplifier it asks. No result is a failed assertion or
a user error. -/
def applySplit (simplify : Expr → Expr) (pre : String) (alignment : ExtentAlignment) :
    Split → Option (List ApplySplitResult × ExtentAlignment)
  | .split oldVar outer inner factor tail =>
      let alignment := alignment.set inner factor
      let base := add (mul (intVar (loopVar pre outer)) factor) (intVar (loopMin pre oldVar))
      if tail = .auto then none
      else
        match alignment oldVar with
        | some extent =>
            if (simplify (mod extent factor)).isZero then
              some (splitResults pre oldVar inner base, alignment.set outer (div extent factor))
            else unproven pre oldVar outer inner factor base tail alignment
        | none => unproven pre oldVar outer inner factor base tail alignment
  | .fuse oldVar outer inner =>
      some
        ([ .substitution (loopVar pre inner) (fusedInner pre oldVar inner),
           .substitution (loopVar pre outer) (fusedOuter pre oldVar outer inner),
           .letStmt (loopVar pre inner) (fusedInner pre oldVar inner),
           .letStmt (loopVar pre outer) (fusedOuter pre oldVar outer inner) ],
         match alignment inner, alignment outer with
         | some i, some o => alignment.set oldVar (mul i o)
         | _, _ => alignment)
  | .rename oldVar outer =>
      some
        ([ .substitution (loopVar pre oldVar) (intVar (loopVar pre outer)),
           .letStmt (loopVar pre oldVar) (intVar (loopVar pre outer)) ],
         alignment)
where
  /-- The branches in which the factor is not known to divide the old extent. -/
  unproven (pre oldVar outer inner : String) (factor base : Expr) (tail : TailStrategy)
      (alignment : ExtentAlignment) : Option (List ApplySplitResult × ExtentAlignment) :=
    if factor.isNegativeConst || factor.isZero then none
    else if factor.isOne then some (splitResults pre oldVar inner base, alignment)
    else
      match tail with
      | .guardWithIf =>
          some (guardResults pre oldVar outer inner factor ++ splitResults pre oldVar inner base,
            alignment)
      | .shiftInwards =>
          some (splitResults pre oldVar inner (shiftedBase pre oldVar factor base), alignment)
      | .roundUp => some (splitResults pre oldVar inner base, alignment)
      | .auto => none

/-- `compute_loop_bounds_after_split` -/
def computeLoopBoundsAfterSplit (pre : String) : Split → List (Name × Expr)
  | .split oldVar outer inner factor _ =>
      let outerExtent :=
        div (add (sub (intVar (loopMax pre oldVar)) (intVar (loopMin pre oldVar))) factor) factor
      [ (loopMin pre inner, int 0),
        (loopMax pre inner, sub factor (int 1)),
        (loopExtent pre inner, factor),
        (loopMin pre outer, int 0),
        (loopMax pre outer, sub outerExtent (int 1)),
        (loopExtent pre outer, outerExtent) ]
  | .fuse oldVar outer inner =>
      let fusedExtent := mul (intVar (loopExtent pre inner)) (intVar (loopExtent pre outer))
      [ (loopMin pre oldVar, int 0),
        (loopMax pre oldVar, sub fusedExtent (int 1)),
        (loopExtent pre oldVar, fusedExtent) ]
  | .rename oldVar outer =>
      [ (loopMin pre outer, intVar (loopMin pre oldVar)),
        (loopMax pre outer, intVar (loopMax pre oldVar)),
        (loopExtent pre outer, intVar (loopExtent pre oldVar)) ]

/-- What a loop nest is built around its body of: lets and ifs, outermost first.
The body visits an index. -/
inductive Nest where
  | body (index : Expr)
  | letStmt (name : Name) (value : Expr) (nest : Nest)
  | ifThen (condition : Expr) (nest : Nest)
deriving DecidableEq

namespace Nest

/-- `substitute` on a statement -/
def substitute (name : Name) (replacement : Expr) : Nest → Nest
  | body index => body (Expr.substitute name replacement index)
  | letStmt n value nest =>
      letStmt n (Expr.substitute name replacement value)
        (if n = name then nest else substitute name replacement nest)
  | ifThen c nest =>
      ifThen (Expr.substitute name replacement c) (substitute name replacement nest)

/-- What `build_loop_nest` does with one result. -/
def apply (nest : Nest) : ApplySplitResult → Nest
  | .substitution name value => nest.substitute name value
  | .letStmt name value => letStmt name value nest
  | .predicate value => ifThen value nest

/-- The index that is visited, unless a predicate fails; or the nest does not have
a value. -/
def visit : Env → Nest → Option (Option Int)
  | ρ, body index => (exact ρ index).map some
  | ρ, letStmt name value nest => do
      let v ← exact ρ value
      visit (ρ.set name v) nest
  | ρ, ifThen c nest => do
      let v ← exact ρ c
      if v ≠ 0 then visit ρ nest else return none

end Nest

/-- The first loop of `build_loop_nest`: define the function args in terms of the
loop variables using the splits. -/
def buildNest (simplify : Expr → Expr) (pre : String) :
    ExtentAlignment → List Split → Nest → Option Nest
  | _, [], nest => some nest
  | alignment, s :: splits, nest => do
      let (results, alignment) ← applySplit simplify pre alignment s
      buildNest simplify pre alignment splits (results.foldl Nest.apply nest)

/-- The lets around the loops, outermost first: each split's lets are wrapped one
by one, so the last is outermost. -/
def bindLoopBounds (pre : String) (splits : List Split) (ρ : Env) : Option Env :=
  (splits.flatMap fun s => (computeLoopBoundsAfterSplit pre s).reverse).foldlM
    (fun ρ bound => do return ρ.set bound.1 (← exact ρ bound.2)) ρ

/-- What a split does with the list of dimensions. -/
def Split.dims : Split → List String → List String
  | .split oldVar outer inner _ _, dims => inner :: outer :: dims.erase oldVar
  | .fuse oldVar outer inner, dims => oldVar :: (dims.erase inner).erase outer
  | .rename oldVar outer, dims => outer :: dims.erase oldVar

end Vyasa.Schedule
