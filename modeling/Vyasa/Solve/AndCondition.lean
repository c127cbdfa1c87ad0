import Vyasa.Interval.Basic
import Vyasa.Solve.Lets

/-! `AndConditionOverDomain`: a condition that implies another one wherever some of
its variables are in their ranges, and does not depend on these. -/
namespace Vyasa.Solve

open Word IRMatch Vyasa.Expr

/-- The ranges of the variables that vary, those of inner lets first. -/
abbrev RangeScope := List (Name × Interval)

def RangeScope.find (scope : RangeScope) (name : Name) : Option Interval := scope.lookup name

/-- What the mutator calls. -/
structure DomainCallees where
  boundsOfExprInScope : RangeScope → Expr → Interval
  simplify : Expr → Expr
  canProve : Expr → Bool

section Mutate

variable (callees : DomainCallees)

/-- `fail`: a necessary condition for anything, or a sufficient one. -/
def conservative (flipped : Bool) : Expr := if flipped then constTrue else constFalse

def visitCmp (isLtOrLe flipped : Bool) (scope : RangeScope) (op : CmpOp) (a b : Expr) : Expr :=
  let ia := callees.boundsOfExprInScope scope a
  let ib := callees.boundsOfExprInScope scope b
  let (a', b') := if isLtOrLe != flipped then (ia.max, ib.min) else (ia.min, ib.max)
  match a', b' with
  | .expr a', .expr b' => .cmp op a' b'
  | _, _ => conservative flipped

def visitEQ (flipped : Bool) (scope : RangeScope) (a b : Expr) : Expr :=
  -- rewritten to the difference is zero
  let delta := callees.simplify (.sub a b)
  let i := callees.boundsOfExprInScope scope delta
  match i.min, i.max with
  | .expr lo, .expr hi =>
      if callees.canProve (.eq lo hi) then .eq lo (makeZero lo.type)
      else if flipped then .and (.le lo (makeZero lo.type)) (.ge hi (makeZero hi.type))
      else .and (.eq lo (makeZero lo.type)) (.eq hi (makeZero hi.type))
  | _, _ => conservative flipped

/-- The visitor of a boolean variable whose range is known. -/
def visitTruth (flipped : Bool) (i : Interval) : Expr :=
  match flipped, i.hasLowerBound, i.hasUpperBound, i.min, i.max with
  | false, true, _, .expr lo, _ => lo
  | true, _, true, _, .expr hi => hi
  | _, _, _, _, _ => conservative flipped

/-- A bound of a let as a variable of its own. -/
def boundVar (name : Name) : Bound → Bound
  | .expr e => .expr (.var e.type name)
  | b => b

/-- The let of a bound, where it is used. -/
def wrapBound (name : Name) (b : Bound) (body : Expr) : Expr :=
  match b with
  | .expr e => if body.mentions name then .letIn name e body else body
  | _ => body

/-- The mutator. Names are numbered, from the number it is given. -/
def mutate : Expr → Bool → RangeScope → Nat → Expr × Nat
  | .cmp .lt a b, flipped, scope, k => (visitCmp callees true flipped scope .lt a b, k)
  | .cmp .le a b, flipped, scope, k => (visitCmp callees true flipped scope .le a b, k)
  | .cmp .gt a b, flipped, scope, k => (visitCmp callees false flipped scope .gt a b, k)
  | .cmp .ge a b, flipped, scope, k => (visitCmp callees false flipped scope .ge a b, k)
  | .cmp .eq a b, flipped, scope, k => (visitEQ callees flipped scope a b, k)
  -- `mutate(!(op->a == op->b))`
  | .cmp .ne a b, flipped, scope, k => (.not (visitEQ callees (!flipped) scope a b), k)
  | .not a, flipped, scope, k =>
      let (a, k) := mutate a (!flipped) scope k
      (.not a, k)
  | .var T name, flipped, scope, k =>
      match scope.find name with
      | some i => (if T = .bool then visitTruth flipped i else .var T name, k)
      | none => (.var T name, k)
  | .letIn name value body, flipped, scope, k =>
      -- a boolean is made true or false according to how it is used
      let (v, k₁) := mutate value flipped scope k
      let (v', k₂) := mutate value (!flipped) scope k₁
      let range :=
        if value.type = .bool then
          if v ≠ v' then ⟨.expr constFalse, .expr constTrue⟩
          else callees.boundsOfExprInScope scope v
        else callees.boundsOfExprInScope scope value
      let k := if value.type = .bool then k₂ else k
      if range.max = .expr value && range.min = .expr value then
        let (body, k) := mutate body flipped scope k
        (.letIn name value body, k)
      else
        let minName := .unique k
        let maxName := .unique (k + 1)
        let lower := if range.hasLowerBound then range.min else .negInf
        let minVar := if range.hasLowerBound then boundVar minName range.min else range.min
        let range := { range with min := lower }
        let upper := if range.hasUpperBound then range.max else .posInf
        let maxVar := if range.hasUpperBound then boundVar maxName range.max else range.max
        let (body, k) := mutate body flipped ((name, ⟨minVar, maxVar⟩) :: scope) (k + 2)
        let body := if body.mentions name then .letIn name value body else body
        (wrapBound maxName upper (wrapBound minName lower body), k)
  | .cast _ _, flipped, _, k | .load _ _ _, flipped, _, k | .binCall _ _ _, flipped, _, k
  | .unaryCall _ _, flipped, _, k | .intrin _ _, flipped, _, k | .marker _ _, flipped, _, k =>
      (conservative flipped, k)
  -- there is no visitor of its own for the nodes below
  | .bin op a b, flipped, scope, k =>
      let (a, k) := mutate a flipped scope k
      let (b, k) := mutate b flipped scope k
      (.bin op a b, k)
  | .select c t f, flipped, scope, k =>
      let (c, k) := mutate c flipped scope k
      let (t, k) := mutate t flipped scope k
      let (f, k) := mutate f flipped scope k
      (.select c t f, k)
  | .imm T v, _, _, k => (.imm T v, k)

/-- `and_condition_over_domain` -/
def andConditionOverDomain (names : Nat) (e : Expr) (varying : RangeScope) : Expr :=
  callees.simplify (mutate callees e false varying names).1

end Mutate

end Vyasa.Solve
