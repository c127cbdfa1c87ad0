import Vyasa.IRMatch.Pattern

/-! Scalar expressions over integer types, and their values. A truth value is an
integer of one unsigned bit. Nodes are compared by structure where the source
compares them by address. -/
namespace Word.IntType

/-- `with_code(halide_type_uint)` -/
def toUnsigned (T : IntType) : IntType :=
  { signed := false, bits := T.bits, one_le := T.one_le, le_sixtyFour := T.le_sixtyFour,
    eight_le := T.eight_le_of_unsigned }

end Word.IntType

namespace Vyasa

open Word IRMatch

/-- A name of the source, a name with a suffix such as `name + ".min"`, or a
result of `unique_name`. -/
inductive Name where
  | mk (s : String)
  | suffix (name : Name) (s : String)
  | unique (i : Nat)
deriving DecidableEq, Repr

/-- The calls that stand for an expression without a value. -/
inductive Marker where
  | indeterminate | overflow
deriving DecidableEq, Repr

inductive BinCall where
  | shiftLeft | shiftRight | bitwiseAnd | bitwiseOr
deriving DecidableEq, Repr

inductive UnaryCall where
  | bitwiseNot | abs
deriving DecidableEq, Repr

inductive Expr where
  | imm (type : IntType) (v : Int)
  | var (type : IntType) (name : Name)
  | cast (type : IntType) (a : Expr)
  | bin (op : BinOp) (a b : Expr)
  | cmp (op : CmpOp) (a b : Expr)
  | not (a : Expr)
  | select (condition trueValue falseValue : Expr)
  | load (type : IntType) (name : Name) (index : Expr)
  | binCall (op : BinCall) (a b : Expr)
  | unaryCall (op : UnaryCall) (a : Expr)
  | intrin (op : Intrinsic) (a : Expr)
  | letIn (name : Name) (value body : Expr)
  | marker (type : IntType) (m : Marker)
deriving DecidableEq

/-- The values of the variables, and what the buffers hold where they may be read. -/
structure Env where
  vars : Name → Int
  mem : Name → Int → Option Int

namespace Env

def set (ρ : Env) (name : Name) (v : Int) : Env :=
  { ρ with vars := Function.update ρ.vars name v }

@[simp] theorem set_mem (ρ : Env) (name : Name) (v : Int) : (ρ.set name v).mem = ρ.mem := rfl

@[simp] theorem set_vars_self (ρ : Env) (name : Name) (v : Int) : (ρ.set name v).vars name = v :=
  Function.update_self ..

theorem set_vars_of_ne {ρ : Env} {name other : Name} {v : Int} (h : other ≠ name) :
    (ρ.set name v).vars other = ρ.vars other :=
  Function.update_of_ne h ..

theorem set_vars (ρ : Env) (name other : Name) (v : Int) :
    (ρ.set name v).vars other = if other = name then v else ρ.vars other :=
  Function.update_apply ..

@[simp] theorem set_eq_self (ρ : Env) (name : Name) : ρ.set name (ρ.vars name) = ρ := by
  simp only [set, Function.update_eq_self]

theorem set_set (ρ : Env) (name : Name) (v w : Int) : (ρ.set name v).set name w = ρ.set name w := by
  simp only [set, Function.update_idem]

theorem set_comm (ρ : Env) {name other : Name} (h : name ≠ other) (v w : Int) :
    (ρ.set name v).set other w = (ρ.set other w).set name v := by
  simp only [set, Function.update_comm h]

end Env

namespace Expr

@[simp] def type : Expr → IntType
  | imm T _ | var T _ | cast T _ | load T _ _ | marker T _ => T
  | bin _ a _ | binCall _ a _ | intrin _ a | unaryCall .bitwiseNot a => a.type
  | unaryCall .abs a => a.type.toUnsigned
  | cmp _ _ _ | not _ => .bool
  | select _ t _ => t.type
  | letIn _ _ body => body.type

/-- How the arithmetic of a type is read, where a type that may not overflow is
read as `m`. -/
def modeAt (m : Mode) (T : IntType) : Mode := if noOverflowInt T then m else .wrapping

/-- A cast drops the high bits; at a type that may not overflow a checked cast
keeps the value. -/
def evalCast (m : Mode) (T : IntType) (v : Int) : Option Int :=
  if m = .checked ∧ noOverflowInt T ∧ ¬ T.Has v then none else some (T.wrap v)

def evalBinCall (m : Mode) (T : IntType) : BinCall → Int → Int → Option Int
  | .shiftLeft, a, b => if 0 ≤ b ∧ b < T.bits then arith (modeAt m T) T (a * 2 ^ b.toNat) else none
  | .shiftRight, a, b => if 0 ≤ b ∧ b < T.bits then some (a / 2 ^ b.toNat) else none
  | .bitwiseAnd, a, b => some (Int.land a b)
  | .bitwiseOr, a, b => some (Int.lor a b)

def evalUnaryCall (m : Mode) (T : IntType) : UnaryCall → Int → Option Int
  | .bitwiseNot, a => arith (modeAt m T) T (-a - 1)
  | .abs, a => some |a|

/-- The value of an expression. Both sides of a select are evaluated, and the
value of a let always is. -/
def eval (m : Mode) : Env → Expr → Option Int
  | _, imm _ v => some v
  | ρ, var _ name => some (ρ.vars name)
  | ρ, cast T a => do evalCast m T (← eval m ρ a)
  | ρ, bin op a b => do evalBin (modeAt m a.type) a.type op (← eval m ρ a) (← eval m ρ b)
  | ρ, cmp op a b => do return evalCmp op (← eval m ρ a) (← eval m ρ b)
  | ρ, not a => do return if (← eval m ρ a) = 0 then 1 else 0
  | ρ, select c t f => do
      let vc ← eval m ρ c
      let vt ← eval m ρ t
      let vf ← eval m ρ f
      return if vc ≠ 0 then vt else vf
  | ρ, load _ name index => do ρ.mem name (← eval m ρ index)
  | ρ, binCall op a b => do evalBinCall m a.type op (← eval m ρ a) (← eval m ρ b)
  | ρ, unaryCall op a => do evalUnaryCall m a.type op (← eval m ρ a)
  | ρ, intrin _ a => eval m ρ a
  | ρ, letIn name value body => do
      let v ← eval m ρ value
      eval m (ρ.set name v) body
  | _, marker _ _ => none

/-- What an expression evaluates to where its value is asked for. -/
abbrev run (ρ : Env) (e : Expr) : Option Int := eval .checked ρ e

/-- Its value over the integers, where that may not overflow. -/
abbrev exact (ρ : Env) (e : Expr) : Option Int := eval .exact ρ e

section Constants

/-- `is_zero` -/
def isZero : Expr → Bool
  | imm _ v => v = 0
  | cast _ a => a.isZero
  | _ => false

/-- `is_one` -/
def isOne : Expr → Bool
  | imm _ v => v = 1
  | cast _ a => a.isOne
  | _ => false

/-- `is_const` -/
def isConst : Expr → Bool
  | imm _ _ => true
  | cast _ a => a.isConst
  | _ => false

/-- `is_const(e, value)` -/
def isConstValue : Expr → Int → Bool
  | imm _ v, value => v = value
  | cast _ a, value => a.isConstValue value
  | _, _ => false

/-- `is_positive_const` -/
def isPositiveConst : Expr → Bool
  | imm _ v => 0 < v
  | cast _ a => a.isPositiveConst
  | _ => false

/-- `is_negative_const` -/
def isNegativeConst : Expr → Bool
  | imm _ v => v < 0
  | cast _ a => a.isNegativeConst
  | _ => false

/-- `as_const_int` and `as_const_uint` -/
def asConst : Expr → Option Int
  | imm _ v => some v
  | _ => none

/-- `make_const`, which drops the high bits. -/
def makeConst (T : IntType) (v : Int) : Expr := imm T (T.wrap v)

abbrev makeZero (T : IntType) : Expr := makeConst T 0

abbrev makeOne (T : IntType) : Expr := makeConst T 1

abbrev constTrue : Expr := imm .bool 1

abbrev constFalse : Expr := imm .bool 0

end Constants

section Operators

abbrev add (a b : Expr) : Expr := bin .add a b
abbrev sub (a b : Expr) : Expr := bin .sub a b
abbrev mul (a b : Expr) : Expr := bin .mul a b
abbrev div (a b : Expr) : Expr := bin .div a b
abbrev mod (a b : Expr) : Expr := bin .mod a b
abbrev min (a b : Expr) : Expr := bin .min a b
abbrev max (a b : Expr) : Expr := bin .max a b
abbrev and (a b : Expr) : Expr := bin .and a b
abbrev or (a b : Expr) : Expr := bin .or a b
abbrev lt (a b : Expr) : Expr := cmp .lt a b
abbrev le (a b : Expr) : Expr := cmp .le a b
abbrev gt (a b : Expr) : Expr := cmp .gt a b
abbrev ge (a b : Expr) : Expr := cmp .ge a b
abbrev eq (a b : Expr) : Expr := cmp .eq a b
abbrev ne (a b : Expr) : Expr := cmp .ne a b

end Operators

section Names

/-- The name occurs free. -/
@[simp] def mentions (name : Name) : Expr → Bool
  | imm _ _ | marker _ _ => false
  | var _ n => n = name
  | cast _ a | not a | unaryCall _ a | intrin _ a | load _ _ a => a.mentions name
  | bin _ a b | cmp _ a b | binCall _ a b => a.mentions name || b.mentions name
  | select c t f => c.mentions name || t.mentions name || f.mentions name
  | letIn n value body => value.mentions name || (n ≠ name && body.mentions name)

/-- The names that the lets of an expression bind. -/
@[simp] def binds : Expr → List Name
  | imm _ _ | marker _ _ | var _ _ => []
  | cast _ a | not a | unaryCall _ a | intrin _ a | load _ _ a => a.binds
  | bin _ a b | cmp _ a b | binCall _ a b => a.binds ++ b.binds
  | select c t f => c.binds ++ t.binds ++ f.binds
  | letIn n value body => n :: (value.binds ++ body.binds)

/-- The buffers that an expression reads. -/
@[simp] def buffers : Expr → List Name
  | imm _ _ | marker _ _ | var _ _ => []
  | cast _ a | not a | unaryCall _ a | intrin _ a => a.buffers
  | load _ name a => name :: a.buffers
  | bin _ a b | cmp _ a b | binCall _ a b => a.buffers ++ b.buffers
  | select c t f => c.buffers ++ t.buffers ++ f.buffers
  | letIn _ value body => value.buffers ++ body.buffers

/-- `substitute` of an expression for a name, which a let of that name hides. -/
@[simp] def substitute (name : Name) (replacement : Expr) : Expr → Expr
  | var T n => if n = name then replacement else var T n
  | imm T v => imm T v
  | marker T m => marker T m
  | cast T a => cast T (substitute name replacement a)
  | not a => not (substitute name replacement a)
  | unaryCall op a => unaryCall op (substitute name replacement a)
  | intrin op a => intrin op (substitute name replacement a)
  | load T n a => load T n (substitute name replacement a)
  | bin op a b => bin op (substitute name replacement a) (substitute name replacement b)
  | cmp op a b => cmp op (substitute name replacement a) (substitute name replacement b)
  | binCall op a b => binCall op (substitute name replacement a) (substitute name replacement b)
  | select c t f =>
      select (substitute name replacement c) (substitute name replacement t)
        (substitute name replacement f)
  | letIn n value body =>
      letIn n (substitute name replacement value)
        (if n = name then body else substitute name replacement body)

/-- Every free occurrence of the name has this type. -/
@[simp] def HasType (name : Name) (T : IntType) : Expr → Prop
  | imm _ _ | marker _ _ => True
  | var S n => n = name → S = T
  | cast _ a | not a | unaryCall _ a | intrin _ a | load _ _ a => HasType name T a
  | bin _ a b | cmp _ a b | binCall _ a b => HasType name T a ∧ HasType name T b
  | select c t f => HasType name T c ∧ HasType name T t ∧ HasType name T f
  | letIn n value body => HasType name T value ∧ (n = name ∨ HasType name T body)

@[simp] theorem mentions_makeConst (name : Name) (T : IntType) (v : Int) :
    (makeConst T v).mentions name = false := rfl

@[simp] theorem binds_makeConst (T : IntType) (v : Int) : (makeConst T v).binds = [] := rfl

@[simp] theorem hasType_makeConst (name : Name) (S T : IntType) (v : Int) :
    HasType name S (makeConst T v) := trivial

end Names

/-- What the assertions of the constructors establish, for variables and buffers
of these types. -/
def WellTyped (buffers : Name → IntType) : (Name → IntType) → Expr → Prop
  | _, imm T v => T.Has v
  | types, var T name => types name = T
  | types, cast _ a => WellTyped buffers types a
  | types, bin op a b =>
      WellTyped buffers types a ∧ WellTyped buffers types b ∧ a.type = b.type ∧
        (op = .and ∨ op = .or → a.type = .bool)
  | types, cmp _ a b => WellTyped buffers types a ∧ WellTyped buffers types b ∧ a.type = b.type
  | types, not a => WellTyped buffers types a ∧ a.type = .bool
  | types, select c t f =>
      WellTyped buffers types c ∧ WellTyped buffers types t ∧ WellTyped buffers types f ∧
        c.type = .bool ∧ t.type = f.type
  | types, load T name index => WellTyped buffers types index ∧ buffers name = T
  | types, binCall _ a b => WellTyped buffers types a ∧ WellTyped buffers types b ∧ a.type = b.type
  | types, unaryCall _ a => WellTyped buffers types a
  | types, intrin _ a => WellTyped buffers types a
  | types, letIn name value body =>
      WellTyped buffers types value ∧
        WellTyped buffers (Function.update types name value.type) body
  | _, marker _ _ => True

end Expr

/-- Every variable and every element of a buffer has a value of its type. -/
def Env.Typed (buffers types : Name → IntType) (ρ : Env) : Prop :=
  (∀ name, (types name).Has (ρ.vars name)) ∧
    ∀ name i v, ρ.mem name i = some v → (buffers name).Has v

end Vyasa
