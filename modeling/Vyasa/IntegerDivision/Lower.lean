import Vyasa.Euclid.MultiplyShift
import Vyasa.IntegerDivision.Table
import Vyasa.Word.Bitwise

/-! What the rows of the tables are for. -/
namespace Vyasa.IntegerDivision

open Word Euclid

/-- The row divides by its multiplier and shift. -/
def Row.Multiplies (r : Row) (b N d : ℕ) : Prop :=
  r.multiplier < 2 ^ b ∧ r.shift < b ∧ Reciprocal N d r.multiplier (b + r.shift)

/-- The row divides by its multiplier, the average with the number, and its shift. -/
def Row.Averages (r : Row) (b N d : ℕ) : Prop :=
  r.multiplier < 2 ^ b ∧ r.shift < b ∧ Reciprocal N d (2 ^ b + r.multiplier) (b + 1 + r.shift)

instance (r : Row) (b N d : ℕ) : Decidable (r.Multiplies b N d) := inferInstanceAs (Decidable (_ ∧ _ ∧ _))

instance (r : Row) (b N d : ℕ) : Decidable (r.Averages b N d) := inferInstanceAs (Decidable (_ ∧ _ ∧ _))

/-- What the rows of a table are for, each at its place. -/
theorem row_of_zipIdx {P : Row → ℕ → Prop} {table : List Row} (hLength : table.length = 256)
    (h : ∀ e ∈ table.zipIdx, P e.1 e.2) {d : ℕ} (hd : d < 256) : P (table.getD d default) d := by
  refine h (table.getD d default, d) (List.mem_zipIdx_iff_getElem?.mpr ?_)
  simp [List.getD_eq_getElem?_getD, hLength, hd]

/-- A remainder by the quotient, in the arithmetic of a type. -/
theorem wrap_remainder (T : IntType) (n d : Int) : T.wrap (n - T.wrap (n / d * d)) = T.wrap (n % d) := by
  refine IntType.wrap_eq_wrap (((T.wrap_modEq _).sub_left n).trans ?_)
  rw [Int.mul_comm, ← Int.emod_def]

end Vyasa.IntegerDivision

/-! The lowering of integer division and remainder, by shifts and masks, by the tables for
constants, and by a correction of the quotient that rounds to zero. -/
namespace Vyasa.IntegerDivision

open Word Euclid

/-- What is read of a divisor. An expression of another form has its value here. -/
inductive Expr where
  | IntImm (type : IntType) (value : Int)
  | UIntImm (type : IntType) (value : Int)
  | Broadcast (value : Expr)
  | Cast (type : IntType) (value : Expr)
  | other (type : IntType) (value : Int)

namespace Expr

def type : Expr → IntType
  | IntImm T _ => T
  | UIntImm T _ => T
  | Broadcast e => e.type
  | Cast T _ => T
  | other T _ => T

/-- The value of each lane. -/
def eval : Expr → Int
  | IntImm _ v => v
  | UIntImm _ v => v
  | Broadcast e => e.eval
  | Cast T e => T.wrap e.eval
  | other _ v => v

/-- Literals are of the types that they are for, and values are of their types. -/
def WellFormed : Expr → Prop
  | IntImm T v => T.signed = true ∧ T.Has v
  | UIntImm T v => T.signed = false ∧ T.Has v
  | Broadcast e => e.WellFormed
  | Cast _ e => e.WellFormed
  | other T v => T.Has v

end Expr

def as_const_int : Expr → Option Int
  | .Broadcast e => as_const_int e
  | .IntImm _ v => some v
  | _ => none

def as_const_uint : Expr → Option Int
  | .Broadcast e => as_const_uint e
  | .UIntImm _ v => some v
  | _ => none

/-- The bit of a number that has only one. -/
def only_bit (val : Nat) : Option Nat :=
  if val ≠ 0 ∧ val &&& (val - 1) = 0 then some val.log2 else none

/-- The exponent, if the literal under broadcasts and casts is a power of two. -/
def is_const_power_of_two_integer : Expr → Option Nat
  | .Broadcast e => is_const_power_of_two_integer e
  | .Cast _ e => is_const_power_of_two_integer e
  | .IntImm _ v => if v < 0 then none else only_bit v.toNat
  | .UIntImm _ v => only_bit v.toNat
  | .other _ _ => none

/-- The high half of a product, shifted. -/
def mulhi_shr (T : IntType) (x m : Int) (s : Nat) : Int := T.wrap (x * m / 2 ^ (T.bits + s))

/-- The average, rounded down. -/
def sorted_avg (T : IntType) (x y : Int) : Int := T.wrap ((x + y) / 2)

/-- The table that a constant divisor takes. -/
def const_table (T : IntType) : List Row :=
  if T.signed then
    if T.bits = 32 then table_s32 else if T.bits = 16 then table_s16 else table_s8
  else
    if T.bits = 32 then table_u32 else if T.bits = 16 then table_u16 else table_u8

/-- A constant divisor that has a row for signed numerators. -/
def small_int_divisor (T : IntType) (b : Expr) : Option Int :=
  (as_const_int b).filter fun c => T.signed && (T.bits = 8 ∨ T.bits = 16 ∨ T.bits = 32) && 1 < c &&
    ((T.bits > 8 ∧ c < 256) ∨ c < 128)

/-- A constant divisor that has a row for unsigned numerators. -/
def small_uint_divisor (T : IntType) (b : Expr) : Option Int :=
  (as_const_uint b).filter fun c => !T.signed && (T.bits = 8 ∨ T.bits = 16 ∨ T.bits = 32) && 1 < c && c < 256

def divide_int_by_table (T : IntType) (a : Int) (row : Row) : Int :=
  let num_as_uint_t := T.unsigned
  -- An all-ones mask if the numerator is negative.
  let sign := num_as_uint_t.wrap (T.shr a (T.bits - 1))
  let num := num_as_uint_t.xor (num_as_uint_t.wrap a) sign
  let num := mulhi_shr num_as_uint_t num (num_as_uint_t.wrap row.multiplier) row.shift
  T.wrap (num_as_uint_t.xor num sign)

/-- There is no value if the row is that of a power of two. -/
def divide_uint_by_table (T : IntType) (a : Int) (row : Row) : Option Int :=
  if row.method = 0 then none else
    let val := mulhi_shr T a (T.wrap row.multiplier) (if row.method = 1 then row.shift else 0)
    if row.method = 2 then
      let val := sorted_avg T val a
      some (if row.shift ≠ 0 then T.shr val row.shift else val)
    else some val

def lower_euclidean_div (T : IntType) (a b : Int) : Int :=
  let q := T.wrap (Int.tdiv a b)
  if T.signed then
    let r := T.wrap (a - T.wrap (q * b))
    let bs := T.shr b (T.bits - 1)
    let rs := T.shr r (T.bits - 1)
    T.wrap (T.wrap (q - T.and rs bs) + T.and rs (T.not bs))
  else q

def lower_euclidean_mod (T : IntType) (a b : Int) : Int :=
  let r := T.wrap (Int.tmod a b)
  if T.signed then
    let sign_mask := T.shr r (T.bits - 1)
    T.wrap (r + T.and sign_mask (T.wrap |b|))
  else r

/-- The value that the lowered quotient has. -/
def lower_int_uint_div (T : IntType) (a : Int) (b : Expr) : Option Int :=
  match is_const_power_of_two_integer b with
  | some shift_amount => some (T.shr a shift_amount)
  | none =>
    match small_int_divisor T b with
    | some c => some (divide_int_by_table T a ((const_table T).getD c.toNat default))
    | none =>
      match small_uint_divisor T b with
      | some c => divide_uint_by_table T a ((const_table T).getD c.toNat default)
      | none => some (lower_euclidean_div T a b.eval)

/-- The value that the lowered remainder has. A quotient in it is lowered in turn. -/
def lower_int_uint_mod (T : IntType) (a : Int) (b : Expr) : Option Int :=
  match is_const_power_of_two_integer b with
  | some _ => some (T.and a (T.wrap (b.eval - 1)))
  | none =>
    if (small_int_divisor T b).isSome ∨ (small_uint_divisor T b).isSome then
      (lower_int_uint_div T a b).map fun q => T.wrap (a - T.wrap (q * b.eval))
    else some (lower_euclidean_mod T a b.eval)

/-- Division as the simplifier does it, in 64 bits. -/
def div_imp (T : IntType) (a b : Int) : Int :=
  if T.signed then
    let q := IntType.int64.wrap (Int.tdiv a b)
    let r := IntType.int64.wrap (a - IntType.int64.wrap (q * b))
    let bs := T.shr b (T.bits - 1)
    let rs := IntType.int64.shr r (T.bits - 1)
    T.wrap (IntType.int64.wrap (IntType.int64.wrap (q - IntType.int64.and rs bs) +
      IntType.int64.and rs (IntType.int64.not bs)))
  else T.wrap (a / b)

def mod_imp (T : IntType) (a b : Int) : Int :=
  if T.signed then
    let r := T.wrap (Int.tmod a b)
    T.wrap (r + if r < 0 then T.wrap (IntType.int64.wrap |b|) else 0)
  else T.wrap (a % b)

end Vyasa.IntegerDivision
