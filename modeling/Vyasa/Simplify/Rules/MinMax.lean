import Vyasa.IRMatch.Equations

/-! The rewrite rules of `Simplify::visit(const Min *)` and
`Simplify::visit(const Max *)`. Rules for floating point operands are left out. -/
namespace Vyasa.Simplify

open Word IRMatch Pattern

def minMarkers : List Rule :=
  [ rewrite (min x x) x,
    rewrite (min c0 c1) (fold (min c0 c1)),
    rewrite (min indeterminate x) operandA,
    rewrite (min x indeterminate) operandB,
    rewrite (min overflow x) operandA,
    rewrite (min x overflow) operandB ]

/-- An operand at an end of the type. -/
def minRange (T : IntType) : List Rule :=
  [ rewrite (min x (const T.min)) operandB,
    rewrite (min x (const T.max)) x ]

def minReturned (T : IntType) : List Rule := minMarkers ++ minRange T

/-- A stair-step function is not above its argument. No guard asks that the
product does not wrap around. -/
def minFloor : List Rule :=
  [ rewrite (min (x / c0 * c0) x) operandA (gt c0 0),
    rewrite (min x (x / c0 * c0)) operandB (gt c0 0) ]

def minNested : List Rule :=
  [ rewrite (min (min x y) x) operandA,
    rewrite (min (min x y) y) operandA,
    rewrite (min (min (min x y) z) x) operandA,
    rewrite (min (min (min x y) z) y) operandA,
    rewrite (min (min (min (min x y) z) w) x) operandA,
    rewrite (min (min (min (min x y) z) w) y) operandA,
    rewrite (min (min (min (min (min x y) z) w) u) x) operandA,
    rewrite (min (min (min (min (min x y) z) w) u) y) operandA,
    rewrite (min x (max x y)) operandA,
    rewrite (min x (max y x)) operandA,
    rewrite (min (max x y) (min x y)) operandB,
    rewrite (min (max x y) (min y x)) operandB,
    rewrite (min (max x y) x) operandB,
    rewrite (min (max y x) x) operandB,
    rewrite (min (max x c0) c1) operandB (le c1 c0),
    rewrite (min (intrin .likely x) x) operandA,
    rewrite (min x (intrin .likely x)) operandB,
    rewrite (min (intrin .likelyIfInnermost x) x) operandA,
    rewrite (min x (intrin .likelyIfInnermost x)) operandB ]

def minLanes (lanes : Int) : List Rule :=
  [ rewrite (min (ramp x y) (broadcast z)) operandA
      (canProve (le (x + y * const (lanes - 1)) z &&& le x z)),
    rewrite (min (ramp x y) (broadcast z)) operandB
      (canProve (ge (x + y * const (lanes - 1)) z &&& ge x z)) ]

/-- Stair-step functions against their argument. -/
def minStairs : List Rule :=
  [ rewrite (min ((x + c0) / c1 * c1 + c2) x) operandB (gt c1 0 &&& ge (c0 + c2) (c1 - 1)),
    rewrite (min x ((x + c0) / c1 * c1 + c2)) operandA (gt c1 0 &&& ge (c0 + c2) (c1 - 1)),
    rewrite (min ((x + c0) / c1 * c1 + c2) x) operandA (gt c1 0 &&& le (c0 + c2) 0),
    rewrite (min x ((x + c0) / c1 * c1 + c2)) operandB (gt c1 0 &&& le (c0 + c2) 0),
    rewrite (min (x / c1 * c1 + c2) x) operandB (gt c1 0 &&& ge c2 (c1 - 1)),
    rewrite (min x (x / c1 * c1 + c2)) operandA (gt c1 0 &&& ge c2 (c1 - 1)),
    rewrite (min ((x + c0) / c1 * c1) x) operandB (gt c1 0 &&& ge c0 (c1 - 1)),
    rewrite (min x ((x + c0) / c1 * c1)) operandA (gt c1 0 &&& ge c0 (c1 - 1)),
    rewrite (min (x / c1 * c1 + c2) x) operandA (gt c1 0 &&& le c2 0),
    rewrite (min x (x / c1 * c1 + c2)) operandB (gt c1 0 &&& le c2 0),
    rewrite (min ((x + c0) / c1 * c1) x) operandA (gt c1 0 &&& le c0 0),
    rewrite (min x ((x + c0) / c1 * c1)) operandB (gt c1 0 &&& le c0 0) ]

def minMerged : List Rule :=
  [ rewrite (min (min x c0) c1) (min x (fold (min c0 c1))),
    rewrite (min (min x c0) y) (min (min x y) c0),
    rewrite (min (min x y) (min x z)) (min (min y z) x),
    rewrite (min (min y x) (min x z)) (min (min y z) x),
    rewrite (min (min x y) (min z x)) (min (min y z) x),
    rewrite (min (min y x) (min z x)) (min (min y z) x),
    rewrite (min (min x y) (min z w)) (min (min (min x y) z) w),
    rewrite (min (broadcast x) (broadcast y)) (broadcast (min x y)) ]

def minCommuted : Rule := rewrite (min (broadcast x) (ramp y z)) (min operandB operandA)

def minDistributed : List Rule :=
  [ rewrite (min (min x (broadcast y)) (broadcast z)) (min x (broadcast (min y z))),
    rewrite (min (max x y) (max x z)) (max x (min y z)),
    rewrite (min (max x y) (max z x)) (max x (min y z)),
    rewrite (min (max y x) (max x z)) (max (min y z) x),
    rewrite (min (max y x) (max z x)) (max (min y z) x),
    rewrite (min (max (min x y) z) y) (min (max x z) y),
    rewrite (min (max (min y x) z) y) (min y (max x z)),
    rewrite (min (min x c0) c1) (min x (fold (min c0 c1))),
    rewrite (min (max x c0) c1) (max (min x c1) c0) (le c0 c1) ]

/-- Pull a term that both sides share out of the minimum. -/
def minLinear : List Rule :=
  [ rewrite (min (min x y + c0) x) (min x (y + c0)) (gt c0 0),
    rewrite (min (min x y + c0) x) (min x y + c0) (lt c0 0),
    rewrite (min (min y x + c0) x) (min (y + c0) x) (gt c0 0),
    rewrite (min (min y x + c0) x) (min y x + c0) (lt c0 0),
    rewrite (min x (min x y + c0)) (min x (y + c0)) (gt c0 0),
    rewrite (min x (min x y + c0)) (min x y + c0) (lt c0 0),
    rewrite (min x (min y x + c0)) (min x (y + c0)) (gt c0 0),
    rewrite (min x (min y x + c0)) (min x y + c0) (lt c0 0),
    rewrite (min (x + c0) c1) (min x (fold (c1 - c0)) + c0),
    rewrite (min (x + c0) (y + c1)) (min x (y + fold (c1 - c0)) + c0) (gt c1 c0),
    rewrite (min (x + c0) (y + c1)) (min (x + fold (c0 - c1)) y + c1) (gt c0 c1),
    rewrite (min (x + y) (x + z)) (x + min y z),
    rewrite (min (x + y) (z + x)) (x + min y z),
    rewrite (min (y + x) (x + z)) (min y z + x),
    rewrite (min (y + x) (z + x)) (min y z + x),
    rewrite (min x (x + z)) (x + min z 0),
    rewrite (min x (z + x)) (x + min z 0),
    rewrite (min (y + x) x) (min y 0 + x),
    rewrite (min (x + y) x) (x + min y 0) ]

def minScaled : List Rule :=
  [ rewrite (min ((x * c0 + y) * c1) (x * c2 + z)) (min (y * c1) z + x * c2) (eq (c0 * c1) c2),
    rewrite (min ((y + x * c0) * c1) (x * c2 + z)) (min (y * c1) z + x * c2) (eq (c0 * c1) c2),
    rewrite (min ((x * c0 + y) * c1) (z + x * c2)) (min (y * c1) z + x * c2) (eq (c0 * c1) c2),
    rewrite (min ((y + x * c0) * c1) (z + x * c2)) (min (y * c1) z + x * c2) (eq (c0 * c1) c2) ]

def minSums : List Rule :=
  [ rewrite (min (min (x + y) z) (x + w)) (min (x + min y w) z),
    rewrite (min (min z (x + y)) (x + w)) (min (x + min y w) z),
    rewrite (min (min (x + y) z) (w + x)) (min (x + min y w) z),
    rewrite (min (min z (x + y)) (w + x)) (min (x + min y w) z),
    rewrite (min (min (y + x) z) (x + w)) (min (min y w + x) z),
    rewrite (min (min z (y + x)) (x + w)) (min (min y w + x) z),
    rewrite (min (min (y + x) z) (w + x)) (min (min y w + x) z),
    rewrite (min (min z (y + x)) (w + x)) (min (min y w + x) z),
    rewrite (min (x + w + y) (x + z)) (x + min (w + y) z),
    rewrite (min (w + x + y) (x + z)) (min (w + y) z + x),
    rewrite (min (x + w + y) (z + x)) (x + min (w + y) z),
    rewrite (min (w + x + y) (z + x)) (min (w + y) z + x),
    rewrite (min (x + w + y) x) (x + min (w + y) 0),
    rewrite (min (w + x + y) x) (x + min (w + y) 0),
    rewrite (min (x + y) (w + x + z)) (x + min (w + z) y),
    rewrite (min (x + y) (x + w + z)) (x + min (w + z) y),
    rewrite (min (y + x) (w + x + z)) (min (w + z) y + x),
    rewrite (min (y + x) (x + w + z)) (min (w + z) y + x),
    rewrite (min x (w + x + z)) (x + min (w + z) 0),
    rewrite (min x (x + w + z)) (x + min (w + z) 0),
    rewrite (min (y - x) (z - x)) (min y z - x),
    rewrite (min (x - y) (x - z)) (x - max y z),
    rewrite (min x (x - y)) (x - max 0 y),
    rewrite (min (x - y) x) (x - max 0 y),
    rewrite (min x (x - y + z)) (x + min 0 (z - y)),
    rewrite (min x (z + (x - y))) (x + min 0 (z - y)),
    rewrite (min x (x - y - z)) (x - max 0 (y + z)),
    rewrite (min (x - y + z) x) (min 0 (z - y) + x),
    rewrite (min (z + (x - y)) x) (min 0 (z - y) + x),
    rewrite (min (x - y - z) x) (x - max 0 (y + z)) ]

/-- Pull a factor out of the minimum, which a negative one turns around. -/
def minMultiples : List Rule :=
  [ rewrite (min (x * c0) c1) (min x (fold (c1 / c0)) * c0) (gt c0 0 &&& eq (c1 % c0) 0),
    rewrite (min (x * c0) c1) (max x (fold (c1 / c0)) * c0) (lt c0 0 &&& eq (c1 % c0) 0),
    rewrite (min (x * c0) (y * c1)) (min x (y * fold (c1 / c0)) * c0) (gt c0 0 &&& eq (c1 % c0) 0),
    rewrite (min (x * c0) (y * c1)) (max x (y * fold (c1 / c0)) * c0) (lt c0 0 &&& eq (c1 % c0) 0),
    rewrite (min (x * c0) (y * c1)) (min (x * fold (c0 / c1)) y * c1) (gt c1 0 &&& eq (c0 % c1) 0),
    rewrite (min (x * c0) (y * c1)) (max (x * fold (c0 / c1)) y * c1) (lt c1 0 &&& eq (c0 % c1) 0),
    rewrite (min (x * c0) (y * c0 + c1)) (min x (y + fold (c1 / c0)) * c0)
      (gt c0 0 &&& eq (c1 % c0) 0),
    rewrite (min (x * c0) (y * c0 + c1)) (max x (y + fold (c1 / c0)) * c0)
      (lt c0 0 &&& eq (c1 % c0) 0) ]

def minDivisions : List Rule :=
  [ rewrite (min (x / c0) (y / c0)) (min x y / c0) (gt c0 0),
    rewrite (min (x / c0) (y / c0)) (max x y / c0) (lt c0 0),
    rewrite (min (x / c0) (y / c0 + c1)) (min x (y + fold (c1 * c0)) / c0)
      (gt c0 0 &&& ~~~overflows (c1 * c0)),
    rewrite (min (x / c0) (y / c0 + c1)) (max x (y + fold (c1 * c0)) / c0)
      (lt c0 0 &&& ~~~overflows (c1 * c0)) ]

def minSelects : List Rule :=
  [ rewrite (min (select x y z) (select x w u)) (select x (min y w) (min z u)),
    rewrite (min (c0 - x) c1) (c0 - max x (fold (c0 - c1))) ]

def minGuarded : List Rule :=
  minLinear ++ minScaled ++ minSums ++ minMultiples ++ minDivisions ++ minSelects

/-- The rules that `visit(Min)` returns the result of. -/
def minReturnRules (T : IntType) (lanes : Int) : List Rule :=
  minReturned T ++ minFloor ++ minNested ++
    if noOverflowInt T then minLanes lanes ++ minStairs else []

/-- The rules whose result `visit(Min)` simplifies again. -/
def minMutateRules (T : IntType) : List Rule :=
  minMerged ++ [minCommuted] ++ minDistributed ++ if noOverflowInt T then minGuarded else []

def minRules (T : IntType) (lanes : Int) : List Rule := minReturnRules T lanes ++ minMutateRules T

def maxMarkers : List Rule :=
  [ rewrite (max x x) x,
    rewrite (max c0 c1) (fold (max c0 c1)),
    rewrite (max indeterminate x) operandA,
    rewrite (max x indeterminate) operandB,
    rewrite (max overflow x) operandA,
    rewrite (max x overflow) operandB ]

def maxRange (T : IntType) : List Rule :=
  [ rewrite (max x (const T.max)) operandB,
    rewrite (max x (const T.min)) x ]

def maxReturned (T : IntType) : List Rule := maxMarkers ++ maxRange T

/-- A stair-step function is not above its argument. No guard asks that the
product does not wrap around. -/
def maxFloor : List Rule :=
  [ rewrite (max (x / c0 * c0) x) operandB (gt c0 0),
    rewrite (max x (x / c0 * c0)) operandA (gt c0 0) ]

def maxNested : List Rule :=
  [ rewrite (max (max x y) x) operandA,
    rewrite (max (max x y) y) operandA,
    rewrite (max (max (max x y) z) x) operandA,
    rewrite (max (max (max x y) z) y) operandA,
    rewrite (max (max (max (max x y) z) w) x) operandA,
    rewrite (max (max (max (max x y) z) w) y) operandA,
    rewrite (max (max (max (max (max x y) z) w) u) x) operandA,
    rewrite (max (max (max (max (max x y) z) w) u) y) operandA,
    rewrite (max x (min x y)) operandA,
    rewrite (max x (min y x)) operandA,
    rewrite (max (max x y) (min x y)) operandA,
    rewrite (max (max x y) (min y x)) operandA,
    rewrite (max (min x y) x) operandB,
    rewrite (max (min y x) x) operandB,
    rewrite (max (min x c0) c1) operandB (ge c1 c0),
    rewrite (max (intrin .likely x) x) operandA,
    rewrite (max x (intrin .likely x)) operandB,
    rewrite (max (intrin .likelyIfInnermost x) x) operandA,
    rewrite (max x (intrin .likelyIfInnermost x)) operandB ]

def maxLanes (lanes : Int) : List Rule :=
  [ rewrite (max (ramp x y) (broadcast z)) operandA
      (canProve (ge (x + y * const (lanes - 1)) z &&& ge x z)),
    rewrite (max (ramp x y) (broadcast z)) operandB
      (canProve (le (x + y * const (lanes - 1)) z &&& le x z)) ]

/-- Stair-step functions against their argument. -/
def maxStairs : List Rule :=
  [ rewrite (max ((x + c0) / c1 * c1 + c2) x) operandA (gt c1 0 &&& ge (c0 + c2) (c1 - 1)),
    rewrite (max x ((x + c0) / c1 * c1 + c2)) operandB (gt c1 0 &&& ge (c0 + c2) (c1 - 1)),
    rewrite (max ((x + c0) / c1 * c1 + c2) x) operandB (gt c1 0 &&& le (c0 + c2) 0),
    rewrite (max x ((x + c0) / c1 * c1 + c2)) operandA (gt c1 0 &&& le (c0 + c2) 0),
    rewrite (max (x / c1 * c1 + c2) x) operandA (gt c1 0 &&& ge c2 (c1 - 1)),
    rewrite (max x (x / c1 * c1 + c2)) operandB (gt c1 0 &&& ge c2 (c1 - 1)),
    rewrite (max ((x + c0) / c1 * c1) x) operandA (gt c1 0 &&& ge c0 (c1 - 1)),
    rewrite (max x ((x + c0) / c1 * c1)) operandB (gt c1 0 &&& ge c0 (c1 - 1)),
    rewrite (max (x / c1 * c1 + c2) x) operandB (gt c1 0 &&& le c2 0),
    rewrite (max x (x / c1 * c1 + c2)) operandA (gt c1 0 &&& le c2 0),
    rewrite (max ((x + c0) / c1 * c1) x) operandB (gt c1 0 &&& le c0 0),
    rewrite (max x ((x + c0) / c1 * c1)) operandA (gt c1 0 &&& le c0 0) ]

def maxMerged : List Rule :=
  [ rewrite (max (max x c0) c1) (max x (fold (max c0 c1))),
    rewrite (max (max x c0) y) (max (max x y) c0),
    rewrite (max (max x y) (max x z)) (max (max y z) x),
    rewrite (max (max y x) (max x z)) (max (max y z) x),
    rewrite (max (max x y) (max z x)) (max (max y z) x),
    rewrite (max (max y x) (max z x)) (max (max y z) x),
    rewrite (max (max x y) (max z w)) (max (max (max x y) z) w),
    rewrite (max (broadcast x) (broadcast y)) (broadcast (max x y)) ]

def maxCommuted : Rule := rewrite (max (broadcast x) (ramp y z)) (max operandB operandA)

def maxDistributed : List Rule :=
  [ rewrite (max (max x (broadcast y)) (broadcast z)) (max x (broadcast (max y z))),
    rewrite (max (min x y) (min x z)) (min x (max y z)),
    rewrite (max (min x y) (min z x)) (min x (max y z)),
    rewrite (max (min y x) (min x z)) (min (max y z) x),
    rewrite (max (min y x) (min z x)) (min (max y z) x),
    rewrite (max (min (max x y) z) y) (max (min x z) y),
    rewrite (max (min (max y x) z) y) (max y (min x z)),
    rewrite (max (max x c0) c1) (max x (fold (max c0 c1))) ]

/-- Pull a term that both sides share out of the maximum. -/
def maxLinear : List Rule :=
  [ rewrite (max (max x y + c0) x) (max x (y + c0)) (lt c0 0),
    rewrite (max (max x y + c0) x) (max x y + c0) (gt c0 0),
    rewrite (max (max y x + c0) x) (max (y + c0) x) (lt c0 0),
    rewrite (max (max y x + c0) x) (max y x + c0) (gt c0 0),
    rewrite (max x (max x y + c0)) (max x (y + c0)) (lt c0 0),
    rewrite (max x (max x y + c0)) (max x y + c0) (gt c0 0),
    rewrite (max x (max y x + c0)) (max x (y + c0)) (lt c0 0),
    rewrite (max x (max y x + c0)) (max x y + c0) (gt c0 0),
    rewrite (max (x + c0) c1) (max x (fold (c1 - c0)) + c0),
    rewrite (max (x + c0) (y + c1)) (max x (y + fold (c1 - c0)) + c0) (gt c1 c0),
    rewrite (max (x + c0) (y + c1)) (max (x + fold (c0 - c1)) y + c1) (gt c0 c1),
    rewrite (max (x + y) (x + z)) (x + max y z),
    rewrite (max (x + y) (z + x)) (x + max y z),
    rewrite (max (y + x) (x + z)) (max y z + x),
    rewrite (max (y + x) (z + x)) (max y z + x),
    rewrite (max x (x + z)) (x + max z 0),
    rewrite (max x (z + x)) (x + max z 0),
    rewrite (max (y + x) x) (max y 0 + x),
    rewrite (max (x + y) x) (x + max y 0) ]

def maxScaled : List Rule :=
  [ rewrite (max ((x * c0 + y) * c1) (x * c2 + z)) (max (y * c1) z + x * c2) (eq (c0 * c1) c2),
    rewrite (max ((y + x * c0) * c1) (x * c2 + z)) (max (y * c1) z + x * c2) (eq (c0 * c1) c2),
    rewrite (max ((x * c0 + y) * c1) (z + x * c2)) (max (y * c1) z + x * c2) (eq (c0 * c1) c2),
    rewrite (max ((y + x * c0) * c1) (z + x * c2)) (max (y * c1) z + x * c2) (eq (c0 * c1) c2) ]

def maxSums : List Rule :=
  [ rewrite (max (max (x + y) z) (x + w)) (max (x + max y w) z),
    rewrite (max (max z (x + y)) (x + w)) (max (x + max y w) z),
    rewrite (max (max (x + y) z) (w + x)) (max (x + max y w) z),
    rewrite (max (max z (x + y)) (w + x)) (max (x + max y w) z),
    rewrite (max (max (y + x) z) (x + w)) (max (max y w + x) z),
    rewrite (max (max z (y + x)) (x + w)) (max (max y w + x) z),
    rewrite (max (max (y + x) z) (w + x)) (max (max y w + x) z),
    rewrite (max (max z (y + x)) (w + x)) (max (max y w + x) z),
    rewrite (max (x + w + y) (x + z)) (x + max (w + y) z),
    rewrite (max (w + x + y) (x + z)) (max (w + y) z + x),
    rewrite (max (x + w + y) (z + x)) (x + max (w + y) z),
    rewrite (max (w + x + y) (z + x)) (max (w + y) z + x),
    rewrite (max (x + w + y) x) (x + max (w + y) 0),
    rewrite (max (w + x + y) x) (x + max (w + y) 0),
    rewrite (max (x + y) (w + x + z)) (x + max (w + z) y),
    rewrite (max (x + y) (x + w + z)) (x + max (w + z) y),
    rewrite (max (y + x) (w + x + z)) (max (w + z) y + x),
    rewrite (max (y + x) (x + w + z)) (max (w + z) y + x),
    rewrite (max x (w + x + z)) (x + max (w + z) 0),
    rewrite (max x (x + w + z)) (x + max (w + z) 0),
    rewrite (max (y - x) (z - x)) (max y z - x),
    rewrite (max (x - y) (x - z)) (x - min y z),
    rewrite (max x (x - y)) (x - min 0 y),
    rewrite (max (x - y) x) (x - min 0 y),
    rewrite (max x (x - y + z)) (x + max 0 (z - y)),
    rewrite (max x (z + (x - y))) (x + max 0 (z - y)),
    rewrite (max x (x - y - z)) (x - min 0 (y + z)),
    rewrite (max (x - y + z) x) (max 0 (z - y) + x),
    rewrite (max (z + (x - y)) x) (max 0 (z - y) + x),
    rewrite (max (x - y - z) x) (x - min 0 (y + z)) ]

/-- Pull a factor out of the maximum, which a negative one turns around. -/
def maxMultiples : List Rule :=
  [ rewrite (max (x * c0) c1) (max x (fold (c1 / c0)) * c0) (gt c0 0 &&& eq (c1 % c0) 0),
    rewrite (max (x * c0) c1) (min x (fold (c1 / c0)) * c0) (lt c0 0 &&& eq (c1 % c0) 0),
    rewrite (max (x * c0) (y * c1)) (max x (y * fold (c1 / c0)) * c0) (gt c0 0 &&& eq (c1 % c0) 0),
    rewrite (max (x * c0) (y * c1)) (min x (y * fold (c1 / c0)) * c0) (lt c0 0 &&& eq (c1 % c0) 0),
    rewrite (max (x * c0) (y * c1)) (max (x * fold (c0 / c1)) y * c1) (gt c1 0 &&& eq (c0 % c1) 0),
    rewrite (max (x * c0) (y * c1)) (min (x * fold (c0 / c1)) y * c1) (lt c1 0 &&& eq (c0 % c1) 0),
    rewrite (max (x * c0) (y * c0 + c1)) (max x (y + fold (c1 / c0)) * c0)
      (gt c0 0 &&& eq (c1 % c0) 0),
    rewrite (max (x * c0) (y * c0 + c1)) (min x (y + fold (c1 / c0)) * c0)
      (lt c0 0 &&& eq (c1 % c0) 0) ]

def maxDivisions : List Rule :=
  [ rewrite (max (x / c0) (y / c0)) (max x y / c0) (gt c0 0),
    rewrite (max (x / c0) (y / c0)) (min x y / c0) (lt c0 0),
    rewrite (max (x / c0) (y / c0 + c1)) (max x (y + fold (c1 * c0)) / c0)
      (gt c0 0 &&& ~~~overflows (c1 * c0)),
    rewrite (max (x / c0) (y / c0 + c1)) (min x (y + fold (c1 * c0)) / c0)
      (lt c0 0 &&& ~~~overflows (c1 * c0)) ]

def maxSelects : List Rule :=
  [ rewrite (max (select x y z) (select x w u)) (select x (max y w) (max z u)),
    rewrite (max (c0 - x) c1) (c0 - min x (fold (c0 - c1))) ]

def maxGuarded : List Rule :=
  maxLinear ++ maxScaled ++ maxSums ++ maxMultiples ++ maxDivisions ++ maxSelects

/-- The rules that `visit(Max)` returns the result of. -/
def maxReturnRules (T : IntType) (lanes : Int) : List Rule :=
  maxReturned T ++ maxFloor ++ maxNested ++
    if noOverflowInt T then maxLanes lanes ++ maxStairs else []

/-- The rules whose result `visit(Max)` simplifies again. -/
def maxMutateRules (T : IntType) : List Rule :=
  maxMerged ++ [maxCommuted] ++ maxDistributed ++ if noOverflowInt T then maxGuarded else []

def maxRules (T : IntType) (lanes : Int) : List Rule := maxReturnRules T lanes ++ maxMutateRules T

end Vyasa.Simplify
