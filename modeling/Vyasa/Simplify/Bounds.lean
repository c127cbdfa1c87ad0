import Vyasa.Simplify.ExprInfo

/-! The bounds and the alignment that each visitor of the simplifier computes
from those of its operands, for types that may not overflow. The arithmetic on
bounds wraps around at 64 bits. A result of `none` is a trap. -/
namespace Vyasa.ExprInfo

open Word

/-- `bounds->alignment = ...; bounds->trim_bounds_using_alignment();` -/
def align (info : ExprInfo) (alignment : Option ModulusRemainder) : Option ExprInfo := do
  trimBoundsUsingAlignment { info with alignment := ← alignment }

def constant (v : Int64) : ExprInfo :=
  { min := v, max := v, minDefined := true, maxDefined := true, alignment := ⟨0, v⟩ }

def positive (a : ExprInfo) : Bool := a.minDefined && 0 < a.min

def negative (a : ExprInfo) : Bool := a.maxDefined && a.max < 0

def bounded (a : ExprInfo) : Bool := a.minDefined && a.maxDefined

/-- One corner of the quotients, where both bounds are known. -/
def divCorner (aDefined bDefined : Bool) (a b : Int64) : Option (List Int64) :=
  if aDefined && bDefined && b ≠ 0 then do return [← divImp a b] else some []

/-- All possible values for the extremes of a quotient, with the limit for an
unbounded divisor. -/
def divCorners (a b : ExprInfo) : Option (List Int64) := do
  let v1 ← divCorner a.minDefined b.minDefined a.min b.min
  let v2 ← divCorner a.minDefined b.maxDefined a.min b.max
  let v3 ← divCorner a.maxDefined b.maxDefined a.max b.max
  let v4 ← divCorner a.maxDefined b.minDefined a.max b.min
  let limit := (b.positive && !b.maxDefined) || (b.negative && !b.minDefined)
  return v1 ++ v2 ++ v3 ++ v4 ++ if limit then [0] else []

def divInterval (bounds a b : ExprInfo) : Option ExprInfo := do
  let corners ← divCorners a b
  return { bounds with
    min := corners.foldl Min.min Int64.maxValue
    max := corners.foldl Max.max Int64.minValue
    minDefined := (a.minDefined && b.positive) || (a.maxDefined && b.negative)
    maxDefined := (a.maxDefined && b.positive) || (a.minDefined && b.negative) }

/-- A bounded numerator divided by a constantish denominator can collapse to a
constant. -/
def isConstant (info : ExprInfo) : Bool := info.minDefined && info.maxDefined && info.max = info.min

def modInterval (b : ExprInfo) : ExprInfo :=
  let defined := b.bounded && (0 < b.min || b.max < 0)
  { min := 0
    max := Max.max (Vyasa.abs b.min) (Vyasa.abs b.max) - 1
    minDefined := defined
    maxDefined := defined }

def mod (a b : ExprInfo) : Option ExprInfo := (modInterval b).align (a.alignment.emod b.alignment)

/-- A numerator between zero and the divisor is its own remainder. -/
def isOwnRemainder (a b : ExprInfo) : Bool :=
  a.minDefined && 0 ≤ a.min && a.maxDefined && b.minDefined && a.max < b.min

/-- `denominator_non_zero` and `modulus_non_zero` -/
def nonZero (b : ExprInfo) : Bool := b.positive || b.negative || b.alignment.remainder ≠ 0

end Vyasa.ExprInfo
