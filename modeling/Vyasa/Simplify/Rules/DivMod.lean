import Vyasa.IRMatch.Equations

/-! The rewrite rules of `Simplify::visit(const Div *)` and
`Simplify::visit(const Mod *)`. Rules for floating point operands are left out. -/
namespace Vyasa.Simplify

open Word IRMatch Pattern

def divMarkers : List Rule :=
  [ rewrite (indeterminate / x) operandA,
    rewrite (x / indeterminate) operandB,
    rewrite (overflow / x) operandA,
    rewrite (x / overflow) operandB,
    rewrite (x / 1) x,
    rewrite (x / 0) indeterminate ]

/-- Asked only where the divisor is known not to be zero. -/
def divNonZero : List Rule :=
  [ rewrite (0 / x) 0,
    rewrite (x / x) 1 ]

def divFold : Rule := rewrite (c0 / c1) (fold (c0 / c1))

def divBroadcast : Rule := rewrite (broadcast x / broadcast y) (broadcast (x / y))

def divSelect : Rule := rewrite (select x c0 c1 / c2) (select x (fold (c0 / c2)) (fold (c1 / c2)))

/-- Fold repeated division. -/
def divRepeated : List Rule :=
  [ rewrite (x / c0 / c2) (x / fold (c0 * c2)) (gt c0 0 &&& gt c2 0 &&& ~~~overflows (c0 * c2)),
    rewrite ((x / c0 + c1) / c2) ((x + fold (c1 * c0)) / fold (c0 * c2))
      (gt c0 0 &&& gt c2 0 &&& ~~~overflows (c0 * c2) &&& ~~~overflows (c0 * c1)),
    rewrite (x * c0 / c1) (x / fold (c1 / c0)) (eq (c1 % c0) 0 &&& gt c0 0 &&& ne (c1 / c0) 0) ]

/-- Pull out terms that are a multiple of the denominator. -/
def divMultiples : List Rule :=
  [ rewrite (x * c0 / c1) (x * fold (c0 / c1)) (eq (c0 % c1) 0 &&& gt c1 0),
    rewrite ((x * c0 + y) / c1) (y / c1 + x * fold (c0 / c1)) (eq (c0 % c1) 0 &&& gt c1 0),
    rewrite ((x * c0 - y) / c1) (-y / c1 + x * fold (c0 / c1)) (eq (c0 % c1) 0 &&& gt c1 0),
    rewrite ((y + x * c0) / c1) (y / c1 + x * fold (c0 / c1)) (eq (c0 % c1) 0 &&& gt c1 0),
    rewrite ((y - x * c0) / c1) (y / c1 - x * fold (c0 / c1)) (eq (c0 % c1) 0 &&& gt c1 0),
    rewrite ((x * c0 + y + z) / c1) ((y + z) / c1 + x * fold (c0 / c1)) (eq (c0 % c1) 0 &&& gt c1 0),
    rewrite ((x * c0 - y + z) / c1) ((z - y) / c1 + x * fold (c0 / c1)) (eq (c0 % c1) 0 &&& gt c1 0),
    rewrite ((x * c0 + y - z) / c1) ((y - z) / c1 + x * fold (c0 / c1)) (eq (c0 % c1) 0 &&& gt c1 0),
    rewrite ((x * c0 - y - z) / c1) ((-y - z) / c1 + x * fold (c0 / c1)) (eq (c0 % c1) 0 &&& gt c1 0),
    rewrite ((y + x * c0 + z) / c1) ((y + z) / c1 + x * fold (c0 / c1)) (eq (c0 % c1) 0 &&& gt c1 0),
    rewrite ((y + x * c0 - z) / c1) ((y - z) / c1 + x * fold (c0 / c1)) (eq (c0 % c1) 0 &&& gt c1 0),
    rewrite ((y - x * c0 - z) / c1) ((y - z) / c1 - x * fold (c0 / c1)) (eq (c0 % c1) 0 &&& gt c1 0),
    rewrite ((y - x * c0 + z) / c1) ((y + z) / c1 - x * fold (c0 / c1)) (eq (c0 % c1) 0 &&& gt c1 0),
    rewrite ((z + (x * c0 + y)) / c1) ((z + y) / c1 + x * fold (c0 / c1))
      (eq (c0 % c1) 0 &&& gt c1 0),
    rewrite ((z + (x * c0 - y)) / c1) ((z - y) / c1 + x * fold (c0 / c1))
      (eq (c0 % c1) 0 &&& gt c1 0),
    rewrite ((z - (x * c0 - y)) / c1) ((z + y) / c1 - x * fold (c0 / c1))
      (eq (c0 % c1) 0 &&& gt c1 0),
    rewrite ((z - (x * c0 + y)) / c1) ((z - y) / c1 - x * fold (c0 / c1))
      (eq (c0 % c1) 0 &&& gt c1 0),
    rewrite ((z + (y + x * c0)) / c1) ((z + y) / c1 + x * fold (c0 / c1))
      (eq (c0 % c1) 0 &&& gt c1 0),
    rewrite ((z - (y + x * c0)) / c1) ((z - y) / c1 - x * fold (c0 / c1))
      (eq (c0 % c1) 0 &&& gt c1 0),
    rewrite ((z + (y - x * c0)) / c1) ((z + y) / c1 - x * fold (c0 / c1))
      (eq (c0 % c1) 0 &&& gt c1 0),
    rewrite ((z - (y - x * c0)) / c1) ((z - y) / c1 + x * fold (c0 / c1))
      (eq (c0 % c1) 0 &&& gt c1 0),
    rewrite ((x * c0 + y + z + w) / c1) ((y + z + w) / c1 + x * fold (c0 / c1))
      (eq (c0 % c1) 0 &&& gt c1 0),
    rewrite ((y + x * c0 + z + w) / c1) ((y + z + w) / c1 + x * fold (c0 / c1))
      (eq (c0 % c1) 0 &&& gt c1 0),
    rewrite ((z + (x * c0 + y) + w) / c1) ((y + z + w) / c1 + x * fold (c0 / c1))
      (eq (c0 % c1) 0 &&& gt c1 0),
    rewrite ((z + (y + x * c0) + w) / c1) ((y + z + w) / c1 + x * fold (c0 / c1))
      (eq (c0 % c1) 0 &&& gt c1 0),
    rewrite ((w + (x * c0 + y + z)) / c1) ((y + z + w) / c1 + x * fold (c0 / c1))
      (eq (c0 % c1) 0 &&& gt c1 0),
    rewrite ((w + (y + x * c0 + z)) / c1) ((y + z + w) / c1 + x * fold (c0 / c1))
      (eq (c0 % c1) 0 &&& gt c1 0),
    rewrite ((w + (z + (x * c0 + y))) / c1) ((y + z + w) / c1 + x * fold (c0 / c1))
      (eq (c0 % c1) 0 &&& gt c1 0),
    rewrite ((w + (z + (y + x * c0))) / c1) ((y + z + w) / c1 + x * fold (c0 / c1))
      (eq (c0 % c1) 0 &&& gt c1 0) ]

/-- The divisor may be negative here. -/
def divShifted : Rule := rewrite ((x + c0) / c1) (x / c1 + fold (c0 / c1)) (eq (c0 % c1) 0)

def divCancelled : List Rule :=
  [ rewrite ((x + y) / x) (y / x + 1),
    rewrite ((y + x) / x) (y / x + 1),
    rewrite ((x - y) / x) (-y / x + 1),
    rewrite ((y - x) / x) (y / x - 1),
    rewrite ((x + y + z) / x) ((y + z) / x + 1),
    rewrite ((y + x + z) / x) ((y + z) / x + 1),
    rewrite ((z + (x + y)) / x) ((z + y) / x + 1),
    rewrite ((z + (y + x)) / x) ((z + y) / x + 1),
    rewrite (x * y / x) y,
    rewrite (y * x / x) y,
    rewrite ((x * y + z) / x) (y + z / x),
    rewrite ((y * x + z) / x) (y + z / x),
    rewrite ((z + x * y) / x) (z / x + y),
    rewrite ((z + y * x) / x) (z / x + y),
    rewrite ((x * y - z) / x) (y + -z / x),
    rewrite ((y * x - z) / x) (y + -z / x),
    rewrite ((z - x * y) / x) (z / x - y),
    rewrite ((z - y * x) / x) (z / x - y) ]

def divRamp : Rule :=
  rewrite (ramp x c0 / broadcast c1) (ramp (x / c1) (fold (c0 / c1))) (eq (c0 % c1) 0)

/-- First and last lanes are the same. -/
def divRampConstant (lanes : Int) : Rule :=
  rewrite (ramp x c0 / broadcast c1) (broadcast (x / c1))
    (canProve (eq ((x % c1 + c0 * const (lanes - 1)) / c1) 0))

def divScalar : List Rule :=
  [ rewrite (x / (const (-1))) (-x),
    rewrite (c0 / y) (select (lt y 0) (fold (-c0)) c0) (eq c0 (const (-1))),
    rewrite ((x * c0 + c1) / c2) ((x + fold (c1 / c0)) / fold (c2 / c0))
      (gt c2 0 &&& gt c0 0 &&& eq (c2 % c0) 0),
    rewrite ((x * c0 + c1) / c2) (x * fold (c0 / c2) + fold (c1 / c2)) (gt c2 0 &&& eq (c0 % c2) 0),
    rewrite ((x % 2 + c0) / 2) (x % 2 + fold (c0 / 2)) (eq (c0 % 2) 1) ]

/-- The rules that `visit(Div)` returns the result of. -/
def divReturnRules (denominatorNonZero : Bool) : List Rule :=
  divMarkers ++ (if denominatorNonZero then divNonZero else []) ++ [divFold]

/-- The rules whose result `visit(Div)` simplifies again. -/
def divMutateRules (T : IntType) (lanes : Nat) : List Rule :=
  [divBroadcast, divSelect] ++
    (if noOverflowInt T then
      divRepeated ++ divMultiples ++ [divShifted] ++ divCancelled ++
        [divRamp, divRampConstant lanes] ++ if lanes = 1 then divScalar else []
    else [])

def modFold : Rule := rewrite (c0 % c1) (fold (c0 % c1))

def modMarkers : List Rule :=
  [ rewrite (indeterminate % x) operandA,
    rewrite (x % indeterminate) operandB,
    rewrite (overflow % x) operandA,
    rewrite (x % overflow) operandB ]

/-- Asked only where the divisor is known not to be zero. -/
def modNonZero : List Rule :=
  [ rewrite (0 % x) 0,
    rewrite (x % x) 0 ]

def modConstants : List Rule :=
  [ rewrite (x % 0) indeterminate,
    rewrite (x % 1) 0 ]

def modBroadcast : Rule := rewrite (broadcast x % broadcast y) (broadcast (x % y))

def modLinear : List Rule :=
  [ rewrite (x * c0 % c1) (x * fold (c0 % c1) % c1) (gt c1 0 &&& (ge c0 c1 ||| lt c0 0)),
    rewrite ((x + c0) % c1) ((x + fold (c0 % c1)) % c1) (gt c1 0 &&& (ge c0 c1 ||| lt c0 0)),
    rewrite (x * c0 % c1) (x % fold (c1 / c0) * c0) (gt c0 0 &&& eq (c1 % c0) 0),
    rewrite ((x * c0 + y) % c1) (y % c1) (eq (c0 % c1) 0),
    rewrite ((y + x * c0) % c1) (y % c1) (eq (c0 % c1) 0),
    rewrite ((x * c0 - y) % c1) (-y % c1) (eq (c0 % c1) 0),
    rewrite ((y - x * c0) % c1) (y % c1) (eq (c0 % c1) 0),
    rewrite ((x - y) % 2) ((x + y) % 2) ]

def modRamps (lanes : Int) : List Rule :=
  [ rewrite (ramp x c0 % broadcast c1) (broadcast x % c1) (eq (c0 % c1) 0),
    rewrite (ramp x c0 % broadcast c1) (ramp (x % c1) c0)
      (canProve (eq ((x % c1 + c0 * const (lanes - 1)) / c1) 0)),
    rewrite (ramp (x * c0) c2 % broadcast c1) (ramp (x * fold (c0 % c1)) (fold (c2 % c1)) % c1)
      (gt c1 0 &&& (ge c0 c1 ||| lt c0 0)),
    rewrite (ramp (x + c0) c2 % broadcast c1) (ramp (x + fold (c0 % c1)) (fold (c2 % c1)) % c1)
      (gt c1 0 &&& (ge c0 c1 ||| lt c0 0)),
    rewrite (ramp (x * c0 + y) c2 % broadcast c1) (ramp y (fold (c2 % c1)) % c1) (eq (c0 % c1) 0),
    rewrite (ramp (y + x * c0) c2 % broadcast c1) (ramp y (fold (c2 % c1)) % c1) (eq (c0 % c1) 0) ]

/-- The rules that `visit(Mod)` returns the result of. -/
def modReturnRules (modulusNonZero : Bool) : List Rule :=
  [modFold] ++ modMarkers ++ (if modulusNonZero then modNonZero else []) ++ modConstants

/-- The rules whose result `visit(Mod)` simplifies again. -/
def modMutateRules (T : IntType) (lanes : Nat) : List Rule :=
  [modBroadcast] ++ if noOverflowInt T then modLinear ++ modRamps lanes else []

end Vyasa.Simplify
