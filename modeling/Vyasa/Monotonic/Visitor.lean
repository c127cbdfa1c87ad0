import Vyasa.Lanes.Expr
import Vyasa.Trend.Basic

/-! The analysis of how an expression moves as one variable grows. -/
namespace Vyasa.Lanes

open Word IRMatch

/-- `Scope<Monotonic>`, the names of lets that are not known to be constant. -/
abbrev Scope : Type := Name → Option Trend

namespace Expr

/-- A constant below casts and broadcasts, or both operands of a ramp, pass a test. The casts
are not carried out. -/
def constIs (p : Int → Bool) : Expr → Bool
  | imm _ v => p v
  | cast _ a => a.constIs p
  | ramp base stride _ => base.constIs p && stride.constIs p
  | broadcast a _ => a.constIs p
  | _ => false

/-- `is_positive_const` -/
def is_positive_const : Expr → Bool := constIs (0 < ·)

/-- `is_negative_const` -/
def is_negative_const : Expr → Bool := constIs (· < 0)

end Expr

/-- `Type::can_represent(Type other)` for element types, of as many lanes. -/
def can_represent (T other : IntType) : Bool :=
  if T.signed then
    (other.signed && other.bits ≤ T.bits) || (!other.signed && other.bits < T.bits)
  else !other.signed && other.bits ≤ T.bits

namespace MonotonicVisitor

open Trend

/-- `visit(const Cast *)` on the result for the value. -/
def visitCast (T other : IntType) (result : Trend) : Trend :=
  if can_represent T other then result
  else if 32 ≤ other.bits ∧ 32 ≤ T.bits then result
  else if result ≠ constant then unknown
  else result

/-- `visit(const Mul *)` on the results for the operands. -/
def visitMul (a b : Expr) (ra rb : Trend) : Trend :=
  if ra = constant ∧ rb = constant then constant
  else if a.is_positive_const then rb
  else if b.is_positive_const then ra
  else if a.is_negative_const then rb.flip
  else if b.is_negative_const then ra.flip
  else unknown

/-- `visit(const Div *)` -/
def visitDiv (b : Expr) (ra rb : Trend) : Trend :=
  if ra = constant ∧ rb = constant then constant
  else if b.is_positive_const then ra
  else if b.is_negative_const then ra.flip
  else unknown

def visitBin (a b : Expr) (ra rb : Trend) : BinOp → Trend
  | .add | .min | .max | .and | .or => unify ra rb
  | .sub => unify ra rb.flip
  | .mul => visitMul a b ra rb
  | .div => visitDiv b ra rb
  | .mod => unknown

def visit_eq (ra rb : Trend) : Trend := if ra = constant ∧ rb = constant then constant else unknown

def visit_lt (ra rb : Trend) : Trend := unify ra.flip rb

def visitCmp (ra rb : Trend) : CmpOp → Trend
  | .eq | .ne => visit_eq ra rb
  | .lt | .le => visit_lt ra rb
  | .gt | .ge => visit_lt rb ra

/-- `visit(const Select *)` on the results for the operands and what could be proved. -/
def visitSelect (rcond ra rb : Trend) (true_value_ge_false_value true_value_le_false_value : Bool) :
    Trend :=
  let unified := unify ra rb
  let switches_from_true_to_false := rcond = decreasing
  let switches_from_false_to_true := rcond = increasing
  if rcond = constant then unified
  else if true_value_ge_false_value ∧ true_value_le_false_value then ra
  else if (unified = increasing ∨ unified = constant) ∧
      ((switches_from_false_to_true ∧ true_value_ge_false_value) ∨
        (switches_from_true_to_false ∧ true_value_le_false_value)) then increasing
  else if (unified = decreasing ∨ unified = constant) ∧
      ((switches_from_false_to_true ∧ true_value_le_false_value) ∨
        (switches_from_true_to_false ∧ true_value_ge_false_value)) then decreasing
  else unknown

/-- What depends on constants only is constant. -/
def visitAll (rs : List Trend) : Trend := if ∀ r ∈ rs, r = constant then constant else unknown

/-- `visit(const Call *)` on the results for the arguments. -/
def visitCall (rs : List Trend) : Callee → Trend
  | .likely | .likely_if_innermost | .return_second => rs.getLast?.getD unknown
  | .require => rs[1]?.getD unknown
  | .glsl_texture_load | .fn _ => visitAll rs

section

variable (var : Name) (can_prove : Expr → Bool)

mutual

/-- The result of a visit. A name that is not in scope is constant; that of the lane number
of a ramp is a new one. -/
def visit : Scope → Expr → Trend
  | _, .imm _ _ | _, .stringImm _ => constant
  | scope, .var _ _ name =>
      if name = var then increasing else (scope name).getD constant
  | scope, .cast T a => visitCast T a.type (visit scope a)
  | scope, .bin op a b => visitBin a b (visit scope a) (visit scope b) op
  | scope, .cmp op a b => visitCmp (visit scope a) (visit scope b) op
  | scope, .not a => (visit scope a).flip
  | scope, .select c t f =>
      visitSelect (visit scope c) (visit scope t) (visit scope f)
        (can_prove (.cmp .ge t f)) (can_prove (.cmp .le t f))
  | scope, .load _ _ _ index _ =>
      if visit scope index ≠ constant then unknown else constant
  | scope, .ramp base stride _ =>
      unify (visit scope base)
        (visitMul (.var base.type 1 (.unique 0)) stride constant (visit scope stride))
  | scope, .broadcast a _ => visit scope a
  | scope, .call _ _ callee args => visitCall (visitArgs scope args) callee
  | scope, .letIn name value body =>
      let result := visit scope value
      if result = constant then visit scope body
      else visit (Function.update scope name (some result)) body
  | scope, .shuffle _ vectors _ => visitAll (visitArgs scope vectors)

def visitArgs : Scope → List Expr → List Trend
  | _, [] => []
  | scope, a :: rest => visit scope a :: visitArgs scope rest

end

end

end MonotonicVisitor

/-- `is_monotonic` with no names in scope. -/
def is_monotonic (can_prove : Expr → Bool) (e : Expr) (var : Name) : Trend :=
  MonotonicVisitor.visit var can_prove (fun _ => none) e

end Vyasa.Lanes
