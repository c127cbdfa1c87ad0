import Vyasa.Word.Bitwise

/-! The 64-bit helpers of `Util.cpp`, `IROperator.h` and `ModulusRemainder.cpp`,
and the algebra of strided subsets of the integers. Additions, subtractions and
multiplications of 64-bit words wrap around. The one quotient that does not fit a
word, `INT64_MIN / -1`, traps, and so does its remainder: `none` is that trap. -/
namespace Vyasa

open Word

/-- The quotient of two words, rounded towards zero. -/
def quot (a b : Int64) : Option Int64 :=
  if b = 0 ∨ (a = Int64.minValue ∧ b = -1) then none else some (a / b)

/-- The remainder of two words, with the sign of the dividend. -/
def rem (a b : Int64) : Option Int64 :=
  if b = 0 ∨ (a = Int64.minValue ∧ b = -1) then none else some (a % b)

/-- `std::abs`, which leaves `INT64_MIN` as it is. -/
def abs (a : Int64) : Int64 := if a < 0 then -a else a

def modImp (a b : Int64) : Option Int64 := do
  let r ← rem a b
  return r + (if r < 0 then abs b else 0)

def divImp (a b : Int64) : Option Int64 := do
  let q ← quot a b
  let r := a - q * b
  let bs := b >>> 63
  let rs := r >>> 63
  return q - (rs &&& bs) + (rs &&& ~~~bs)

/-- `0x7fffffffffffffff >> (64 - bits)`, the largest signed value of this width. -/
def maxVal (bits : Nat) : Int64 := Int64.ofInt (2 ^ (bits - 1) - 1)

def minVal (bits : Nat) : Int64 := -maxVal bits - 1

def addWouldOverflow (bits : Nat) (a b : Int64) : Bool :=
  (0 < b && maxVal bits - b < a) || (b < 0 && a < minVal bits - b)

def subWouldOverflow (bits : Nat) (a b : Int64) : Bool :=
  (b < 0 && maxVal bits + b < a) || (0 < b && a < minVal bits + b)

def mulWouldOverflow (bits : Nat) (a b : Int64) : Bool :=
  if a = 0 then false
  else if a = -1 then b = minVal bits
  else
    let ab := a * b
    ab < minVal bits || maxVal bits < ab || ab / a ≠ b

def gcdLoop : Nat → Int64 → Int64 → Option Int64
  | 0, _, _ => none
  | fuel + 1, a, b => if b = 0 then some a else (rem a b).bind (gcdLoop fuel b)

/-- The loop of `gcd` runs at most once for each value below `|b|`. -/
def gcd (a b : Int64) : Option Int64 :=
  if a < b then gcdLoop (a.toInt.natAbs + 1) b a else gcdLoop (b.toInt.natAbs + 1) a b

/-- Mod by zero is the identity here. -/
def mod (a m : Int64) : Option Int64 := if m = 0 then some a else modImp a m

/-- The integers `modulus * k + remainder`. A constant has modulus zero. -/
structure ModulusRemainder where
  modulus : Int64 := 1
  remainder : Int64 := 0
deriving DecidableEq, Repr

namespace ModulusRemainder

instance : Membership Int ModulusRemainder where
  mem m z := ∃ k : Int, z = m.modulus.toInt * k + m.remainder.toInt

theorem mem_iff {m : ModulusRemainder} {z : Int} :
    z ∈ m ↔ ∃ k : Int, z = m.modulus.toInt * k + m.remainder.toInt := Iff.rfl

def add (a b : ModulusRemainder) : Option ModulusRemainder :=
  if addWouldOverflow 64 a.remainder b.remainder then some ⟨1, 0⟩
  else do
    let modulus ← gcd a.modulus b.modulus
    let remainder ← mod (a.remainder + b.remainder) modulus
    return ⟨modulus, remainder⟩

def sub (a b : ModulusRemainder) : Option ModulusRemainder :=
  if subWouldOverflow 64 a.remainder b.remainder then some ⟨1, 0⟩
  else do
    let modulus ← gcd a.modulus b.modulus
    let remainder ← mod (a.remainder - b.remainder) modulus
    return ⟨modulus, remainder⟩

def mul (a b : ModulusRemainder) : Option ModulusRemainder :=
  if a.modulus = 0 then
    if !mulWouldOverflow 64 a.remainder b.modulus && !mulWouldOverflow 64 a.remainder b.remainder then
      some ⟨a.remainder * b.modulus, a.remainder * b.remainder⟩
    else some {}
  else if b.modulus = 0 then
    if !mulWouldOverflow 64 b.remainder a.modulus && !mulWouldOverflow 64 a.remainder b.remainder then
      some ⟨b.remainder * a.modulus, a.remainder * b.remainder⟩
    else some {}
  else if a.remainder = 0 && b.remainder = 0 then
    if !mulWouldOverflow 64 a.modulus b.modulus then some ⟨a.modulus * b.modulus, 0⟩ else some {}
  else if a.remainder = 0 then do
    let g ← gcd b.modulus b.remainder
    if !mulWouldOverflow 64 a.modulus g then return ⟨a.modulus * g, 0⟩ else return {}
  else if b.remainder = 0 then do
    let g ← gcd a.modulus a.remainder
    if !mulWouldOverflow 64 b.modulus g then return ⟨b.modulus * g, 0⟩ else return {}
  else if !mulWouldOverflow 64 a.remainder b.remainder then do
    let modulus ← gcd a.modulus b.modulus
    let remainder ← mod (a.remainder * b.remainder) modulus
    return ⟨modulus, remainder⟩
  else some {}

def div (a b : ModulusRemainder) : Option ModulusRemainder :=
  if b.modulus = 0 ∧ b.remainder ≠ 0 then do
    let m ← mod a.modulus b.remainder
    if m = 0 then
      let modulus ← quot a.modulus b.remainder
      let remainder ← divImp a.remainder b.remainder
      return ⟨modulus, remainder⟩
    else return {}
  else some {}

/-- The body of `unify` once the larger remainder is on the left. -/
def unifyOrdered (a b : ModulusRemainder) : Option ModulusRemainder := do
  let modulus ← gcd a.modulus b.modulus
  if subWouldOverflow 64 a.remainder b.remainder then return ⟨0, 1⟩
  else
    let diff := a.remainder - b.remainder
    let modulus ← gcd diff modulus
    let ra ← mod a.remainder modulus
    let rb ← mod b.remainder modulus
    if ra = rb then return ⟨modulus, ra⟩ else none

def unify (a b : ModulusRemainder) : Option ModulusRemainder :=
  if a.remainder < b.remainder then unifyOrdered b a else unifyOrdered a b

def intersect (a b : ModulusRemainder) : ModulusRemainder :=
  if a.modulus = 0 then a
  else if b.modulus = 0 then b
  else if b.modulus < a.modulus then a
  else b

protected def emod (a b : ModulusRemainder) : Option ModulusRemainder := do
  let modulus ← gcd a.modulus b.modulus
  let modulus ← gcd modulus b.remainder
  let remainder ← mod a.remainder modulus
  return ⟨modulus, remainder⟩

end ModulusRemainder

end Vyasa
