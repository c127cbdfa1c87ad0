import Vyasa.IR.Expr

/-! The table of associative operators, with their identities. -/
namespace Vyasa.Associative

open Word IRMatch

inductive RootExpr where
  | Add | Mul | Max | Min | Sub | Select | And | Or | Cast | Unknown
deriving DecidableEq

inductive ValType where
  | UInt1 | UInt8 | UInt16 | UInt32 | UInt64 | Int8 | Int16 | Int32 | Int64
deriving DecidableEq

/-- Other widths fail an assertion. -/
def convert_halide_type_to_val_type (t : IntType) : Option ValType :=
  match t.signed, t.bits with
  | false, 1 => some .UInt1
  | false, 8 => some .UInt8
  | false, 16 => some .UInt16
  | false, 32 => some .UInt32
  | false, 64 => some .UInt64
  | true, 8 => some .Int8
  | true, 16 => some .Int16
  | true, 32 => some .Int32
  | true, 64 => some .Int64
  | _, _ => none

structure AssociativePattern where
  ops : List Expr
  identities : List Expr
  is_commutative : Bool

section Vars

variable (t : IntType)

def x0 : Expr := .var t (.mk "x0")
def y0 : Expr := .var t (.mk "y0")
def x1 : Expr := .var t (.mk "x1")
def y1 : Expr := .var t (.mk "y1")
def k0 : Expr := .var t (.mk "k0")
def zero : Expr := .imm t 0
def one : Expr := .imm t 1
def tmax : Expr := .imm t t.max
def tmin : Expr := .imm t t.min

end Vars

/-! ### One dimension -/

section Single

variable (t : IntType)

def populate_ops_table_single_general_add : List AssociativePattern :=
  [⟨[.bin .add (x0 t) (y0 t)], [zero t], true⟩]

def populate_ops_table_single_general_mul : List AssociativePattern :=
  [⟨[.bin .mul (x0 t) (y0 t)], [one t], true⟩]

def populate_ops_table_single_general_max : List AssociativePattern :=
  [⟨[.bin .max (x0 t) (y0 t)], [tmin t], true⟩]

def populate_ops_table_single_general_min : List AssociativePattern :=
  [⟨[.bin .min (x0 t) (y0 t)], [tmax t], true⟩]

def populate_ops_table_single_uint1_and : List AssociativePattern :=
  [⟨[.bin .and (x0 t) (y0 t)], [one t], true⟩]

def populate_ops_table_single_uint1_or : List AssociativePattern :=
  [⟨[.bin .or (x0 t) (y0 t)], [zero t], true⟩]

/-- A sum in the narrow type, clamped by a constant of a wider type. -/
def clampedSum (wide : IntType) : AssociativePattern :=
  ⟨[.cast t (.bin .min (.cast wide (.bin .add (x0 t) (y0 t))) (k0 wide))], [zero t], true⟩

def uint16 : IntType := { signed := false, bits := 16 }
def uint32 : IntType := .uint32
def uint64 : IntType := .uint64

def populate_ops_table_single_uint8_cast : List AssociativePattern :=
  [clampedSum t uint16, clampedSum t uint32, clampedSum t uint64]

def populate_ops_table_single_uint16_cast : List AssociativePattern :=
  [clampedSum t uint32, clampedSum t uint64]

def populate_ops_table_single_uint32_cast : List AssociativePattern := [clampedSum t uint64]

/-- The two entries for a saturating sum, the same for 8, 16 and 32 bits. -/
def saturatingSums : List AssociativePattern :=
  [⟨[.select (.cmp .gt (x0 t) (.bin .sub (tmax t) (y0 t))) (tmax t) (y0 t)], [zero t], true⟩,
    ⟨[.select (.cmp .lt (x0 t) (.bin .sub (zero t) (y0 t))) (y0 t) (tmax t)], [zero t], true⟩]

def populate_ops_table_single_uint8_select : List AssociativePattern := saturatingSums t

def populate_ops_table_single_uint16_select : List AssociativePattern := saturatingSums t

def populate_ops_table_single_uint32_select : List AssociativePattern := saturatingSums t

end Single

/-! ### Two dimensions -/

section Double

variable (t t' : IntType)

def populate_ops_table_double_general_add : List AssociativePattern :=
  if t = t' then [⟨[.bin .add (x0 t) (y0 t), .bin .add (x0 t) (y1 t')], [zero t, zero t'], true⟩] else []

def populate_ops_table_double_general_max : List AssociativePattern :=
  [⟨[.bin .max (x0 t) (y0 t), .select (.cmp .lt (y0 t) (x0 t)) (x1 t') (y1 t')],
    [tmin t, zero t'], true⟩]

def populate_ops_table_double_general_min : List AssociativePattern :=
  [⟨[.bin .min (x0 t) (y0 t), .select (.cmp .lt (x0 t) (y0 t)) (x1 t') (y1 t')],
    [tmax t, zero t'], true⟩]

/-- Complex multiplication, with the factors of one product in either order. -/
def populate_ops_table_double_general_sub : List AssociativePattern :=
  if t = t' then
    [⟨[.bin .sub (.bin .mul (x0 t) (y0 t)) (.bin .mul (x1 t') (y1 t')),
        .bin .add (.bin .mul (x1 t') (y0 t)) (.bin .mul (x0 t) (y1 t'))], [one t, zero t'], true⟩,
      ⟨[.bin .sub (.bin .mul (x0 t) (y0 t)) (.bin .mul (y1 t') (x1 t')),
        .bin .add (.bin .mul (x1 t') (y0 t)) (.bin .mul (y1 t') (x0 t))], [one t, zero t'], true⟩]
  else []

end Double

/-! ### The table -/

/-- The general functions of `val_type_to_populate_luts_fn`. -/
def populate_general : RootExpr → List IntType → List AssociativePattern
  | .Add, [t] => populate_ops_table_single_general_add t
  | .Mul, [t] => populate_ops_table_single_general_mul t
  | .Max, [t] => populate_ops_table_single_general_max t
  | .Min, [t] => populate_ops_table_single_general_min t
  | .Add, [t, t'] => populate_ops_table_double_general_add t t'
  | .Max, [t, t'] => populate_ops_table_double_general_max t t'
  | .Min, [t, t'] => populate_ops_table_double_general_min t t'
  | .Sub, [t, t'] => populate_ops_table_double_general_sub t t'
  | _, _ => []

/-- Those for a type, all of one dimension. -/
def populate_specific : List ValType → RootExpr → List IntType → List AssociativePattern
  | [.UInt1], .And, [t] => populate_ops_table_single_uint1_and t
  | [.UInt1], .Or, [t] => populate_ops_table_single_uint1_or t
  | [.UInt8], .Cast, [t] => populate_ops_table_single_uint8_cast t
  | [.UInt8], .Select, [t] => populate_ops_table_single_uint8_select t
  | [.UInt16], .Cast, [t] => populate_ops_table_single_uint16_cast t
  | [.UInt16], .Select, [t] => populate_ops_table_single_uint16_select t
  | [.UInt32], .Cast, [t] => populate_ops_table_single_uint32_cast t
  | [.UInt32], .Select, [t] => populate_ops_table_single_uint32_select t
  | _, _, _ => []

/-- The static map of the source holds what was computed here before. -/
def get_ops_table_helper (types : List IntType) (root : RootExpr) : Option (List AssociativePattern) := do
  let val_types ← types.mapM convert_halide_type_to_val_type
  return populate_general root types ++ populate_specific val_types root types

def rootOf : Expr → RootExpr
  | .bin .add _ _ => .Add
  | .bin .sub _ _ => .Sub
  | .bin .mul _ _ => .Mul
  | .bin .min _ _ => .Min
  | .bin .max _ _ => .Max
  | .select _ _ _ => .Select
  | .bin .and _ _ => .And
  | .bin .or _ _ => .Or
  | .cast _ _ => .Cast
  | _ => .Unknown

/-- No table for tuples of more than two. An empty tuple fails an assertion. -/
def get_ops_table : List Expr → Option (List AssociativePattern)
  | [] => none
  | e :: exprs =>
      if 2 < (e :: exprs).length then some []
      else match rootOf e with
        | .Unknown => some []
        | root => get_ops_table_helper ((e :: exprs).map Expr.type) root

/-! ### Values -/

/-- Signed arithmetic may not overflow, unsigned arithmetic wraps around. -/
def signedMode (T : IntType) : Mode := if T.signed then .checked else .wrapping

/-- The value of an operator of the table, which has no loads, calls or lets. -/
def value (ρ : Name → Int) : Expr → Option Int
  | .imm _ v => some v
  | .var _ name => some (ρ name)
  | .cast T a => do arith (signedMode T) T (← value ρ a)
  | .bin op a b => do evalBin (signedMode a.type) a.type op (← value ρ a) (← value ρ b)
  | .cmp op a b => do return evalCmp op (← value ρ a) (← value ρ b)
  | .select c t f => do
      let vc ← value ρ c
      let vt ← value ρ t
      let vf ← value ρ f
      return if vc ≠ 0 then vt else vf
  | _ => none

/-- The two tuples and the constant. -/
def env (k : Int) (xs ys : List Int) : Name → Int
  | .mk "x0" => xs.getD 0 0
  | .mk "x1" => xs.getD 1 0
  | .mk "y0" => ys.getD 0 0
  | .mk "y1" => ys.getD 1 0
  | .mk "k0" => k
  | _ => 0

namespace AssociativePattern

/-- The operator on tuples, where no signed sum or product overflows. -/
def apply (p : AssociativePattern) (k : Int) (xs ys : List Int) : Option (List Int) :=
  p.ops.mapM (value (env k xs ys))

def identity (p : AssociativePattern) : Option (List Int) := p.identities.mapM (value fun _ => 0)

end AssociativePattern

end Vyasa.Associative
