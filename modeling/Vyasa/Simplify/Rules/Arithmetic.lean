import Vyasa.IRMatch.Equations

/-! The rewrite rules of `Simplify::visit(const Add *)`,
`Simplify::visit(const Sub *)` and `Simplify::visit(const Mul *)`. Rules for
floating point operands are left out. -/
namespace Vyasa.Simplify

open Word IRMatch Pattern

def addReturned : List Rule :=
  [ rewrite (c0 + c1) (fold (c0 + c1)),
    rewrite (indeterminate + x) operandA,
    rewrite (x + indeterminate) operandB,
    rewrite (overflow + x) operandA,
    rewrite (x + overflow) operandB,
    rewrite (x + 0) x,
    rewrite (0 + x) x ]

def addRamps : List Rule :=
  [ rewrite (x + x) (x * 2),
    rewrite (ramp x y + ramp z w) (ramp (x + z) (y + w)),
    rewrite (ramp x y + broadcast z) (ramp (x + z) y),
    rewrite (broadcast x + broadcast y) (broadcast (x + y)) ]

def addSelects : List Rule :=
  [ rewrite (select x y z + select x w u) (select x (y + w) (z + u)),
    rewrite (select x c0 c1 + c2) (select x (fold (c0 + c2)) (fold (c1 + c2))),
    rewrite (select x y c1 + c2) (select x (y + c2) (fold (c1 + c2))),
    rewrite (select x c0 y + c2) (select x (fold (c0 + c2)) (y + c2)),
    rewrite (select x y z + w + select x u v) (select x (y + u) (z + v) + w),
    rewrite (w + select x y z + select x u v) (select x (y + u) (z + v) + w),
    rewrite (select x y z + (select x u v + w)) (select x (y + u) (z + v) + w),
    rewrite (select x y z + (w + select x u v)) (select x (y + u) (z + v) + w),
    rewrite (select x y z - w + select x u v) (select x (y + u) (z + v) - w),
    rewrite (select x y z + (select x u v - w)) (select x (y + u) (z + v) - w),
    rewrite (w - select x y z + select x u v) (select x (u - y) (v - z) + w),
    rewrite (select x y z + (w - select x u v)) (select x (y - u) (z - v) + w) ]

def addLinear : List Rule :=
  [ rewrite (x + c0 + c1) (x + fold (c0 + c1)),
    rewrite (x + c0 + y) (x + y + c0),
    rewrite (x + (y + c0)) (x + y + c0),
    rewrite (c0 - x + c1) (fold (c0 + c1) - x),
    rewrite (c0 - x + y) (y - x + c0),
    rewrite (x - y + y) x,
    rewrite (x + (y - x)) y,
    rewrite (x + (c0 - y)) (x - y + c0),
    rewrite (x - y + (y - z)) (x - z),
    rewrite (x - y + (z - x)) (z - y),
    rewrite (x + y * c0) (x - y * -c0) (lt c0 0 &&& gt (-c0) 0),
    rewrite (x * c0 + y) (y - x * -c0) (lt c0 0 &&& gt (-c0) 0 &&& ~~~isConst y) ]

def addFactors : List Rule :=
  [ rewrite (x * y + z * y) ((x + z) * y),
    rewrite (x * y + y * z) ((x + z) * y),
    rewrite (y * x + z * y) (y * (x + z)),
    rewrite (y * x + y * z) (y * (x + z)) ]

/-- Either coefficient may be negative. -/
def addMultiples : List Rule :=
  [ rewrite (x * c0 + y * c1) ((x + y * fold (c1 / c0)) * c0) (eq (c1 % c0) 0),
    rewrite (x * c0 + y * c1) ((x * fold (c0 / c1) + y) * c1) (eq (c0 % c1) 0) ]

def addProducts : List Rule :=
  [ rewrite (x + x * y) (x * (y + 1)),
    rewrite (x + y * x) ((y + 1) * x),
    rewrite (x * y + x) (x * (y + 1)),
    rewrite (y * x + x) ((y + 1) * x) (~~~isConst x) ]

/-- Combine a sum with a quotient by a constant. -/
def addQuotients : List Rule :=
  [ rewrite ((x + c0) / c1 + c2) ((x + fold (c0 + c1 * c2)) / c1),
    rewrite (x + (y + c0) / c1 + c2) (x + (y + fold (c0 + c1 * c2)) / c1),
    rewrite ((y + c0) / c1 + x + c2) (x + (y + fold (c0 + c1 * c2)) / c1),
    rewrite ((c0 - x) / c1 + c2) ((fold (c0 + c1 * c2) - x) / c1) (ne c0 0 &&& ne c1 0),
    rewrite (x + (x + y) / c0) ((fold (c0 + 1) * x + y) / c0),
    rewrite (x + (y + x) / c0) ((fold (c0 + 1) * x + y) / c0),
    rewrite (x + (y - x) / c0) ((fold (c0 - 1) * x + y) / c0),
    rewrite (x + (x - y) / c0) ((fold (c0 + 1) * x - y) / c0),
    rewrite ((x - y) / c0 + x) ((fold (c0 + 1) * x - y) / c0),
    rewrite ((y - x) / c0 + x) ((y + fold (c0 - 1) * x) / c0),
    rewrite ((x + y) / c0 + x) ((fold (c0 + 1) * x + y) / c0),
    rewrite ((y + x) / c0 + x) ((y + fold (c0 + 1) * x) / c0) ]

def addMinMax : List Rule :=
  [ rewrite (min x (y - z) + z) (min (x + z) y),
    rewrite (min (y - z) x + z) (min y (x + z)),
    rewrite (min x (y + c0) + c1) (min (x + c1) y) (eq (c0 + c1) 0),
    rewrite (min (y + c0) x + c1) (min y (x + c1)) (eq (c0 + c1) 0),
    rewrite (z + min x (y - z)) (min (z + x) y),
    rewrite (z + min (y - z) x) (min y (z + x)),
    rewrite (z + max x (y - z)) (max (z + x) y),
    rewrite (z + max (y - z) x) (max y (z + x)),
    rewrite (max x (y - z) + z) (max (x + z) y),
    rewrite (max (y - z) x + z) (max y (x + z)),
    rewrite (max x (y + c0) + c1) (max (x + c1) y) (eq (c0 + c1) 0),
    rewrite (max (y + c0) x + c1) (max y (x + c1)) (eq (c0 + c1) 0),
    rewrite (max x y + min x y) (x + y),
    rewrite (max x y + min y x) (x + y) ]

def addRemainders : List Rule :=
  [ rewrite (x / y * y + x % y) x,
    rewrite ((z + x / y) * y + x % y) (z * y + x),
    rewrite ((x / y + z) * y + x % y) (x + z * y),
    rewrite (x % y + (x / y * y + z)) (x + z),
    rewrite (x % y + (x / y * y - z)) (x - z),
    rewrite (x % y + (z + x / y * y)) (x + z),
    rewrite (x / y * y + (x % y + z)) (x + z),
    rewrite (x / y * y + (x % y - z)) (x - z),
    rewrite (x / y * y + (z + x % y)) (x + z),
    rewrite (x / 2 + x % 2) ((x + 1) / 2),
    rewrite (x + (c0 - x) / c1 * c1) (c0 - (c0 - x) % c1) (gt c1 0),
    rewrite (x + ((c0 - x) / c1 + y) * c1) (y * c1 - (c0 - x) % c1 + c0) (gt c1 0),
    rewrite (x + (y + (c0 - x) / c1) * c1) (y * c1 - (c0 - x) % c1 + c0) (gt c1 0) ]

def addUnguarded : List Rule := addRamps ++ addSelects ++ addLinear ++ addFactors ++ addMultiples

def addGuarded : List Rule := addProducts ++ addQuotients ++ addMinMax ++ addRemainders

/-- The rules whose result `visit(Add)` simplifies again. -/
def addMutateRules (T : IntType) : List Rule :=
  addUnguarded ++ if noOverflowInt T then addGuarded else []

def subReturned : List Rule :=
  [ rewrite (c0 - c1) (fold (c0 - c1)),
    rewrite (indeterminate - x) operandA,
    rewrite (x - indeterminate) operandB,
    rewrite (overflow - x) operandA,
    rewrite (x - overflow) operandB,
    rewrite (x - 0) x ]

/-- Not for unsigned types. -/
def subConstant : Rule := rewrite (x - c0) (x + fold (-c0)) (~~~overflows (-c0))

def subRamps : List Rule :=
  [ rewrite (x - x) 0,
    rewrite (ramp x y - ramp z w) (ramp (x - z) (y - w)),
    rewrite (ramp x y - broadcast z) (ramp (x - z) y),
    rewrite (broadcast x - ramp z w) (ramp (x - z) (-w)),
    rewrite (broadcast x - broadcast y) (broadcast (x - y)) ]

def subSelects : List Rule :=
  [ rewrite (select x y z - select x w u) (select x (y - w) (z - u)),
    rewrite (select x y z - y) (select x 0 (z - y)),
    rewrite (select x y z - z) (select x (y - z) 0),
    rewrite (y - select x y z) (select x 0 (y - z)),
    rewrite (z - select x y z) (select x (z - y) 0) ]

def subSums : List Rule :=
  [ rewrite (x + y - x) y,
    rewrite (x + y - y) x,
    rewrite (x - (x + y)) (-y),
    rewrite (y - (x + y)) (-x),
    rewrite (x - y - x) (-y) ]

def subSelectSums : List Rule :=
  [ rewrite (select x y z + w - select x u v) (select x (y - u) (z - v) + w),
    rewrite (w + select x y z - select x u v) (select x (y - u) (z - v) + w),
    rewrite (select x y z - (select x u v + w)) (select x (y - u) (z - v) - w),
    rewrite (select x y z - (w + select x u v)) (select x (y - u) (z - v) - w),
    rewrite (select x y z - w - select x u v) (select x (y - u) (z - v) - w),
    rewrite (c0 - select x c1 c2) (select x (fold (c0 - c1)) (fold (c0 - c2))) ]

def subLinear : List Rule :=
  [ rewrite (x + c0 - c1) (x + fold (c0 - c1)),
    rewrite (x + c0 - (c1 - y)) (x + y + fold (c0 - c1)),
    rewrite (x + c0 - (y + c1)) (x - y + fold (c0 - c1)),
    rewrite (x + c0 - y) (x - y + c0),
    rewrite (c0 - x - (c1 - y)) (y - x + fold (c0 - c1)),
    rewrite (c0 - x - (y + c1)) (fold (c0 - c1) - (x + y)),
    rewrite (x - (y - z)) (x + (z - y)),
    rewrite (x - y * c0) (x + y * fold (-c0)) (lt c0 0 &&& gt (-c0) 0),
    rewrite (x - (y + c0)) (x - y - c0),
    rewrite (c0 - x - c1) (fold (c0 - c1) - x) ]

def subFactors : List Rule :=
  [ rewrite (x * y - z * y) ((x - z) * y),
    rewrite (x * y - y * z) ((x - z) * y),
    rewrite (y * x - z * y) (y * (x - z)),
    rewrite (y * x - y * z) (y * (x - z)) ]

def subCancelled : List Rule :=
  [ rewrite (x + y - (x + z)) (y - z),
    rewrite (x + y - (z + x)) (y - z),
    rewrite (y + x - (x + z)) (y - z),
    rewrite (y + x - (z + x)) (y - z),
    rewrite (x + y + z - x) (y + z),
    rewrite (y + x + z - x) (y + z),
    rewrite (z + (x + y) - x) (z + y),
    rewrite (z + (y + x) - x) (z + y) ]

def subExtremes : List Rule :=
  [ rewrite (max x y - x) (max 0 (y - x)),
    rewrite (min x y - x) (min 0 (y - x)),
    rewrite (max x y - y) (max (x - y) 0),
    rewrite (min x y - y) (min (x - y) 0),
    rewrite (x - max x y) (min 0 (x - y)) (~~~isConst x),
    rewrite (x - min x y) (max 0 (x - y)) (~~~isConst x),
    rewrite (y - max x y) (min (y - x) 0) (~~~isConst y),
    rewrite (y - min x y) (max (y - x) 0) (~~~isConst y) ]

def subProducts : List Rule :=
  [ rewrite (x * y - x) (x * (y - 1)),
    rewrite (x * y - y) ((x - 1) * y),
    rewrite (x - x * y) (x * (1 - y)),
    rewrite (x - y * x) ((1 - y) * x) ]

def subMinMax : List Rule :=
  [ rewrite (x - min (x + y) z) (max (-y) (x - z)),
    rewrite (x - min (y + x) z) (max (-y) (x - z)),
    rewrite (x - min z (x + y)) (max (x - z) (-y)),
    rewrite (x - min z (y + x)) (max (x - z) (-y)),
    rewrite (min (x + y) z - x) (min y (z - x)),
    rewrite (min (y + x) z - x) (min y (z - x)),
    rewrite (min z (x + y) - x) (min (z - x) y),
    rewrite (min z (y + x) - x) (min (z - x) y),
    rewrite (min x y - min y x) 0,
    rewrite (min x y - min z w) (y - w) (canProve (eq (x - y) (z - w))),
    rewrite (min x y - min w z) (y - w) (canProve (eq (x - y) (z - w))),
    rewrite (x - max (x + y) z) (min (-y) (x - z)),
    rewrite (x - max (y + x) z) (min (-y) (x - z)),
    rewrite (x - max z (x + y)) (min (x - z) (-y)),
    rewrite (x - max z (y + x)) (min (x - z) (-y)),
    rewrite (max (x + y) z - x) (max y (z - x)),
    rewrite (max (y + x) z - x) (max y (z - x)),
    rewrite (max z (x + y) - x) (max (z - x) y),
    rewrite (max z (y + x) - x) (max (z - x) y),
    rewrite (max x y - max y x) 0,
    rewrite (max x y - max z w) (y - w) (canProve (eq (x - y) (z - w))),
    rewrite (max x y - max w z) (y - w) (canProve (eq (x - y) (z - w))) ]

/-- When two minima share an operand, their difference is bounded by one of the
other two. -/
def subCorrelatedMin : List Rule :=
  [ rewrite (min x y - min x w) (min 0 (y - min x w)) (canProve (le y w)),
    rewrite (min x y - min x w) (max 0 (min x y - w)) (canProve (ge y w)),
    rewrite (min (x + c0) y - min x w) (min c0 (y - min x w)) (canProve (le y (w + c0))),
    rewrite (min (x + c0) y - min x w) (max c0 (min (x + c0) y - w)) (canProve (ge y (w + c0))),
    rewrite (min x y - min (x + c1) w) (min (fold (-c1)) (y - min (x + c1) w))
      (canProve (le (y + c1) w)),
    rewrite (min x y - min (x + c1) w) (max (fold (-c1)) (min x y - w)) (canProve (ge (y + c1) w)),
    rewrite (min (x + c0) y - min (x + c1) w) (min (fold (c0 - c1)) (y - min (x + c1) w))
      (canProve (le (y + c1) (w + c0))),
    rewrite (min (x + c0) y - min (x + c1) w) (max (fold (c0 - c1)) (min (x + c0) y - w))
      (canProve (ge (y + c1) (w + c0))),
    rewrite (min y x - min w x) (min 0 (y - min x w)) (canProve (le y w)),
    rewrite (min y x - min w x) (max 0 (min x y - w)) (canProve (ge y w)),
    rewrite (min y (x + c0) - min w x) (min c0 (y - min x w)) (canProve (le y (w + c0))),
    rewrite (min y (x + c0) - min w x) (max c0 (min (x + c0) y - w)) (canProve (ge y (w + c0))),
    rewrite (min y x - min w (x + c1)) (min (fold (-c1)) (y - min (x + c1) w))
      (canProve (le (y + c1) w)),
    rewrite (min y x - min w (x + c1)) (max (fold (-c1)) (min x y - w)) (canProve (ge (y + c1) w)),
    rewrite (min y (x + c0) - min w (x + c1)) (min (fold (c0 - c1)) (y - min (x + c1) w))
      (canProve (le (y + c1) (w + c0))),
    rewrite (min y (x + c0) - min w (x + c1)) (max (fold (c0 - c1)) (min (x + c0) y - w))
      (canProve (ge (y + c1) (w + c0))),
    rewrite (min x y - min w x) (min 0 (y - min x w)) (canProve (le y w)),
    rewrite (min x y - min w x) (max 0 (min x y - w)) (canProve (ge y w)),
    rewrite (min (x + c0) y - min w x) (min c0 (y - min x w)) (canProve (le y (w + c0))),
    rewrite (min (x + c0) y - min w x) (max c0 (min (x + c0) y - w)) (canProve (ge y (w + c0))),
    rewrite (min x y - min w (x + c1)) (min (fold (-c1)) (y - min (x + c1) w))
      (canProve (le (y + c1) w)),
    rewrite (min x y - min w (x + c1)) (max (fold (-c1)) (min x y - w)) (canProve (ge (y + c1) w)),
    rewrite (min (x + c0) y - min w (x + c1)) (min (fold (c0 - c1)) (y - min (x + c1) w))
      (canProve (le (y + c1) (w + c0))),
    rewrite (min (x + c0) y - min w (x + c1)) (max (fold (c0 - c1)) (min (x + c0) y - w))
      (canProve (ge (y + c1) (w + c0))),
    rewrite (min y x - min x w) (min 0 (y - min x w)) (canProve (le y w)),
    rewrite (min y x - min x w) (max 0 (min x y - w)) (canProve (ge y w)),
    rewrite (min y (x + c0) - min x w) (min c0 (y - min x w)) (canProve (le y (w + c0))),
    rewrite (min y (x + c0) - min x w) (max c0 (min (x + c0) y - w)) (canProve (ge y (w + c0))),
    rewrite (min y x - min (x + c1) w) (min (fold (-c1)) (y - min (x + c1) w))
      (canProve (le (y + c1) w)),
    rewrite (min y x - min (x + c1) w) (max (fold (-c1)) (min x y - w)) (canProve (ge (y + c1) w)),
    rewrite (min y (x + c0) - min (x + c1) w) (min (fold (c0 - c1)) (y - min (x + c1) w))
      (canProve (le (y + c1) (w + c0))),
    rewrite (min y (x + c0) - min (x + c1) w) (max (fold (c0 - c1)) (min (x + c0) y - w))
      (canProve (ge (y + c1) (w + c0))) ]

def subCorrelatedMax : List Rule :=
  [ rewrite (max x y - max x w) (max 0 (y - max x w)) (canProve (ge y w)),
    rewrite (max x y - max x w) (min 0 (max x y - w)) (canProve (le y w)),
    rewrite (max (x + c0) y - max x w) (max c0 (y - max x w)) (canProve (ge y (w + c0))),
    rewrite (max (x + c0) y - max x w) (min c0 (max (x + c0) y - w)) (canProve (le y (w + c0))),
    rewrite (max x y - max (x + c1) w) (max (fold (-c1)) (y - max (x + c1) w))
      (canProve (ge (y + c1) w)),
    rewrite (max x y - max (x + c1) w) (min (fold (-c1)) (max x y - w)) (canProve (le (y + c1) w)),
    rewrite (max (x + c0) y - max (x + c1) w) (max (fold (c0 - c1)) (y - max (x + c1) w))
      (canProve (ge (y + c1) (w + c0))),
    rewrite (max (x + c0) y - max (x + c1) w) (min (fold (c0 - c1)) (max (x + c0) y - w))
      (canProve (le (y + c1) (w + c0))),
    rewrite (max y x - max w x) (max 0 (y - max x w)) (canProve (ge y w)),
    rewrite (max y x - max w x) (min 0 (max x y - w)) (canProve (le y w)),
    rewrite (max y (x + c0) - max w x) (max c0 (y - max x w)) (canProve (ge y (w + c0))),
    rewrite (max y (x + c0) - max w x) (min c0 (max (x + c0) y - w)) (canProve (le y (w + c0))),
    rewrite (max y x - max w (x + c1)) (max (fold (-c1)) (y - max (x + c1) w))
      (canProve (ge (y + c1) w)),
    rewrite (max y x - max w (x + c1)) (min (fold (-c1)) (max x y - w)) (canProve (le (y + c1) w)),
    rewrite (max y (x + c0) - max w (x + c1)) (max (fold (c0 - c1)) (y - max (x + c1) w))
      (canProve (ge (y + c1) (w + c0))),
    rewrite (max y (x + c0) - max w (x + c1)) (min (fold (c0 - c1)) (max (x + c0) y - w))
      (canProve (le (y + c1) (w + c0))),
    rewrite (max x y - max w x) (max 0 (y - max x w)) (canProve (ge y w)),
    rewrite (max x y - max w x) (min 0 (max x y - w)) (canProve (le y w)),
    rewrite (max (x + c0) y - max w x) (max c0 (y - max x w)) (canProve (ge y (w + c0))),
    rewrite (max (x + c0) y - max w x) (min c0 (max (x + c0) y - w)) (canProve (le y (w + c0))),
    rewrite (max x y - max w (x + c1)) (max (fold (-c1)) (y - max (x + c1) w))
      (canProve (ge (y + c1) w)),
    rewrite (max x y - max w (x + c1)) (min (fold (-c1)) (max x y - w)) (canProve (le (y + c1) w)),
    rewrite (max (x + c0) y - max w (x + c1)) (max (fold (c0 - c1)) (y - max (x + c1) w))
      (canProve (ge (y + c1) (w + c0))),
    rewrite (max (x + c0) y - max w (x + c1)) (min (fold (c0 - c1)) (max (x + c0) y - w))
      (canProve (le (y + c1) (w + c0))),
    rewrite (max y x - max x w) (max 0 (y - max x w)) (canProve (ge y w)),
    rewrite (max y x - max x w) (min 0 (max x y - w)) (canProve (le y w)),
    rewrite (max y (x + c0) - max x w) (max c0 (y - max x w)) (canProve (ge y (w + c0))),
    rewrite (max y (x + c0) - max x w) (min c0 (max (x + c0) y - w)) (canProve (le y (w + c0))),
    rewrite (max y x - max (x + c1) w) (max (fold (-c1)) (y - max (x + c1) w))
      (canProve (ge (y + c1) w)),
    rewrite (max y x - max (x + c1) w) (min (fold (-c1)) (max x y - w)) (canProve (le (y + c1) w)),
    rewrite (max y (x + c0) - max (x + c1) w) (max (fold (c0 - c1)) (y - max (x + c1) w))
      (canProve (ge (y + c1) (w + c0))),
    rewrite (max y (x + c0) - max (x + c1) w) (min (fold (c0 - c1)) (max (x + c0) y - w))
      (canProve (le (y + c1) (w + c0))) ]

def subQuotients : List Rule :=
  [ rewrite (c0 - (c1 - x) / c2) ((fold (c0 * c2 - c1 + c2 - 1) + x) / c2) (gt c2 0),
    rewrite (c0 - (x + c1) / c2) ((fold (c0 * c2 - c1 + c2 - 1) - x) / c2) (gt c2 0),
    rewrite (x - (x + y) / c0) ((x * fold (c0 - 1) - y + fold (c0 - 1)) / c0) (gt c0 0),
    rewrite (x - (x - y) / c0) ((x * fold (c0 - 1) + y + fold (c0 - 1)) / c0) (gt c0 0),
    rewrite (x - (y + x) / c0) ((x * fold (c0 - 1) - y + fold (c0 - 1)) / c0) (gt c0 0),
    rewrite (x - (y - x) / c0) ((x * fold (c0 + 1) - y + fold (c0 - 1)) / c0) (gt c0 0),
    rewrite ((x + y) / c0 - x) ((x * fold (1 - c0) + y) / c0),
    rewrite ((y + x) / c0 - x) ((y + x * fold (1 - c0)) / c0),
    rewrite ((x - y) / c0 - x) ((x * fold (1 - c0) - y) / c0),
    rewrite ((y - x) / c0 - x) ((y - x * fold (1 + c0)) / c0) ]

def subRemainders : List Rule :=
  [ rewrite (x / c0 * c0 - x) (-(x % c0)) (gt c0 0),
    rewrite (x - x / c0 * c0) (x % c0) (gt c0 0),
    rewrite ((x + c0) / c1 * c1 - x) (-x % c1) (gt c1 0 &&& eq (c0 + 1) c1),
    rewrite (x - (x + c0) / c1 * c1) ((x + c0) % c1 + fold (-c0)) (gt c1 0 &&& eq (c0 + 1) c1) ]

/-- Either coefficient may be negative. -/
def subMultiples : List Rule :=
  [ rewrite (x * c0 - y * c1) ((x * fold (c0 / c1) - y) * c1) (eq (c0 % c1) 0),
    rewrite (x * c0 - y * c1) ((x - y * fold (c1 / c0)) * c0) (eq (c1 % c0) 0) ]

/-- Differences of two quotients by the same constant. -/
def subDivisions : List Rule :=
  [ rewrite ((x + y + z) / c0 - (y + x + w) / c0) ((x + y + z) / c0 - (x + y + w) / c0) (gt c0 0),
    rewrite ((x + y) / c0 - (y + x) / c0) 0 (ne c0 0),
    rewrite ((x + y) / c0 - (x + c1) / c0) (((x + fold (c1 % c0)) % c0 + (y - c1)) / c0) (gt c0 0),
    rewrite ((x + c1) / c0 - (x + y) / c0)
      ((fold (c0 + c1 - 1) - y - (x + fold (c1 % c0)) % c0) / c0) (gt c0 0),
    rewrite ((x - y) / c0 - (x + c1) / c0) (((x + fold (c1 % c0)) % c0 - y - c1) / c0) (gt c0 0),
    rewrite ((x + c1) / c0 - (x - y) / c0)
      ((y + fold (c0 + c1 - 1) - (x + fold (c1 % c0)) % c0) / c0) (gt c0 0),
    rewrite (x / c0 - (x + y) / c0) ((fold (c0 - 1) - y - x % c0) / c0) (gt c0 0),
    rewrite ((x + y) / c0 - x / c0) ((x % c0 + y) / c0) (gt c0 0),
    rewrite (x / c0 - (x - y) / c0) ((y + fold (c0 - 1) - x % c0) / c0) (gt c0 0),
    rewrite ((x - y) / c0 - x / c0) ((x % c0 - y) / c0) (gt c0 0) ]

def subUnguarded (T : IntType) : List Rule :=
  (if T.signed then [subConstant] else []) ++ subRamps ++ subSelects ++ subSums ++ subSelectSums ++
    subLinear ++ subFactors ++ subCancelled

def subGuarded : List Rule :=
  subExtremes ++ subProducts ++ subMinMax ++ subCorrelatedMin ++ subCorrelatedMax ++
    subQuotients ++ subRemainders ++ subMultiples ++ subDivisions

/-- The rules whose result `visit(Sub)` simplifies again. -/
def subMutateRules (T : IntType) : List Rule :=
  subUnguarded T ++ if noOverflowInt T then subGuarded else []

def mulReturned : List Rule :=
  [ rewrite (c0 * c1) (fold (c0 * c1)),
    rewrite (indeterminate * x) operandA,
    rewrite (x * indeterminate) operandB,
    rewrite (overflow * x) operandA,
    rewrite (x * overflow) operandB,
    rewrite (0 * x) 0,
    rewrite (1 * x) x,
    rewrite (x * 0) 0,
    rewrite (x * 1) x ]

/-- The rules whose result `visit(Mul)` simplifies again. -/
def mulMutateRules : List Rule :=
  [ rewrite ((x + c0) * c1) (x * c1 + fold (c0 * c1)) (~~~overflows (c0 * c1)),
    rewrite ((x - y) * c0) ((y - x) * fold (-c0)) (lt c0 0 &&& gt (-c0) 0),
    rewrite (x * c0 * c1) (x * fold (c0 * c1)) (~~~overflows (c0 * c1)),
    rewrite (x * c0 * y) (x * y * c0) (~~~isConst y),
    rewrite (x * (y * c0)) (x * y * c0),
    rewrite (max x y * min x y) (x * y),
    rewrite (max x y * min y x) (y * x),
    rewrite (broadcast x * broadcast y) (broadcast (x * y)),
    rewrite (ramp x y * broadcast z) (ramp (x * z) (y * z)) ]

end Vyasa.Simplify
