import Vyasa.IRMatch.Equations
import Vyasa.Euclid.Division

/-! The rewrite rules of `Simplify::visit(const LT *)`. Rules for floating point
operands are left out. -/
namespace Vyasa.Simplify

open Word IRMatch Pattern

def ltSame : List Rule :=
  [ rewrite (lt c0 c1) (fold (lt c0 c1)),
    rewrite (lt x x) 0 ]

/-- Comparisons with the ends of the type. -/
def ltRange (T : IntType) : List Rule :=
  [ rewrite (lt x (const T.min)) 0,
    rewrite (lt (const T.max) x) 0 ]

def ltExtremes : List Rule :=
  [ rewrite (lt (max x y) x) 0,
    rewrite (lt (max y x) x) 0,
    rewrite (lt x (min x y)) 0,
    rewrite (lt x (min y x)) 0 ]

def ltReturned (T : IntType) : List Rule := ltSame ++ ltRange T ++ ltExtremes

/-- Comparisons of ramps and broadcasts. `visit(LT)` asks for a type without
overflow of the comparison, whose type is Boolean, so these never fire. -/
def ltLanes (lanes : Int) : List Rule :=
  [ rewrite (lt (ramp x c1) (broadcast z)) 1
      (canProve (lt (x + fold (max 0 (c1 * const (lanes - 1)))) z)),
    rewrite (lt (ramp x c1) (broadcast z)) 0
      (canProve (ge (x + fold (min 0 (c1 * const (lanes - 1)))) z)),
    rewrite (lt (broadcast z) (ramp x c1)) 1
      (canProve (lt z (x + fold (min 0 (c1 * const (lanes - 1)))))),
    rewrite (lt (broadcast z) (ramp x c1)) 0
      (canProve (ge z (x + fold (max 0 (c1 * const (lanes - 1)))))) ]

def ltBroadcast : List Rule :=
  [ rewrite (lt (broadcast x) (broadcast y)) (broadcast (lt x y)) ]

/-- Constants to the right, subtractions to additions, and cancellations. -/
def ltLinear : List Rule :=
  [ rewrite (lt (ramp x y) (ramp z y)) (broadcast (lt x z)),
    rewrite (lt (x + c0) y) (lt x (y + fold (-c0))),
    rewrite (lt c0 (x + c1)) (lt (fold (c0 - c1)) x),
    rewrite (lt (x - y) z) (lt x (z + y)),
    rewrite (lt z (x - y)) (lt (z + y) x),
    rewrite (lt (x - y + z) w) (lt (x + z) (y + w)),
    rewrite (lt (z + (x - y)) w) (lt (x + z) (y + w)),
    rewrite (lt w (x - y + z)) (lt (w + y) (x + z)),
    rewrite (lt w (z + (x - y))) (lt (w + y) (x + z)),
    rewrite (lt (x - y + z + u) w) (lt (x + z + u) (w + y)),
    rewrite (lt (z + (x - y) + u) w) (lt (x + z + u) (w + y)),
    rewrite (lt (u + (x - y + z)) w) (lt (x + z + u) (w + y)),
    rewrite (lt (u + (z + (x - y))) w) (lt (x + z + u) (w + y)),
    rewrite (lt w (x - y + z + u)) (lt (w + y) (x + z + u)),
    rewrite (lt w (z + (x - y) + u)) (lt (w + y) (x + z + u)),
    rewrite (lt w (u + (x - y + z))) (lt (w + y) (x + z + u)),
    rewrite (lt w (u + (z + (x - y)))) (lt (w + y) (x + z + u)),
    rewrite (lt x (x + y)) (lt 0 y),
    rewrite (lt x (y + x)) (lt 0 y),
    rewrite (lt (x + y) x) (lt y 0),
    rewrite (lt (y + x) x) (lt y 0),
    rewrite (lt (x + y) (x + z)) (lt y z),
    rewrite (lt (x + y) (z + x)) (lt y z),
    rewrite (lt (y + x) (x + z)) (lt y z),
    rewrite (lt (y + x) (z + x)) (lt y z),
    rewrite (lt (x + y + w) (x + z)) (lt (y + w) z),
    rewrite (lt (y + x + w) (x + z)) (lt (y + w) z),
    rewrite (lt (w + (x + y)) (x + z)) (lt (y + w) z),
    rewrite (lt (w + (y + x)) (x + z)) (lt (y + w) z),
    rewrite (lt (x + y + w) (z + x)) (lt (y + w) z),
    rewrite (lt (y + x + w) (z + x)) (lt (y + w) z),
    rewrite (lt (w + (x + y)) (z + x)) (lt (y + w) z),
    rewrite (lt (w + (y + x)) (z + x)) (lt (y + w) z),
    rewrite (lt (x + z) (x + y + w)) (lt z (y + w)),
    rewrite (lt (x + z) (y + x + w)) (lt z (y + w)),
    rewrite (lt (x + z) (w + (x + y))) (lt z (y + w)),
    rewrite (lt (x + z) (w + (y + x))) (lt z (y + w)),
    rewrite (lt (z + x) (x + y + w)) (lt z (y + w)),
    rewrite (lt (z + x) (y + x + w)) (lt z (y + w)),
    rewrite (lt (z + x) (w + (x + y))) (lt z (y + w)),
    rewrite (lt (z + x) (w + (y + x))) (lt z (y + w)),
    rewrite (lt (x + y + w) (x + z + u)) (lt (y + w) (z + u)),
    rewrite (lt (y + x + w) (x + z + u)) (lt (y + w) (z + u)),
    rewrite (lt (x + y + w) (z + x + u)) (lt (y + w) (z + u)),
    rewrite (lt (y + x + w) (z + x + u)) (lt (y + w) (z + u)),
    rewrite (lt (w + (x + y)) (x + z + u)) (lt (y + w) (z + u)),
    rewrite (lt (w + (y + x)) (x + z + u)) (lt (y + w) (z + u)),
    rewrite (lt (w + (x + y)) (z + x + u)) (lt (y + w) (z + u)),
    rewrite (lt (w + (y + x)) (z + x + u)) (lt (y + w) (z + u)),
    rewrite (lt (x + y + w) (u + (x + z))) (lt (y + w) (z + u)),
    rewrite (lt (y + x + w) (u + (x + z))) (lt (y + w) (z + u)),
    rewrite (lt (x + y + w) (u + (z + x))) (lt (y + w) (z + u)),
    rewrite (lt (y + x + w) (u + (z + x))) (lt (y + w) (z + u)),
    rewrite (lt (w + (x + y)) (u + (x + z))) (lt (y + w) (z + u)),
    rewrite (lt (w + (y + x)) (u + (x + z))) (lt (y + w) (z + u)),
    rewrite (lt (w + (x + y)) (u + (z + x))) (lt (y + w) (z + u)),
    rewrite (lt (w + (y + x)) (u + (z + x))) (lt (y + w) (z + u)) ]

/-- Cancel a multiplication or multiply out a division. -/
def ltScaled : List Rule :=
  [ rewrite (lt (x * c0) (y * c0)) (lt x y) (gt c0 0),
    rewrite (lt (x * c0) (y * c0)) (lt y x) (lt c0 0),
    rewrite (lt (x * c0) c1) (lt x (fold ((c1 + c0 - 1) / c0))) (gt c0 0),
    rewrite (lt c1 (x * c0)) (lt (fold (c1 / c0)) x) (gt c0 0),
    rewrite (lt (x / c0) c1) (lt x (c1 * c0)) (gt c0 0),
    rewrite (lt c0 (x / c1)) (lt (fold ((c0 + 1) * c1 - 1)) x) (gt c1 0) ]

/-- Break up a minimum or a maximum of which one side folds. -/
def ltMinMax : List Rule :=
  [ rewrite (lt (min (x + c0) y) (x + c1)) (fold (lt c0 c1) ||| lt y (x + c1)),
    rewrite (lt (min y (x + c0)) (x + c1)) (fold (lt c0 c1) ||| lt y (x + c1)),
    rewrite (lt (max (x + c0) y) (x + c1)) (fold (lt c0 c1) &&& lt y (x + c1)),
    rewrite (lt (max y (x + c0)) (x + c1)) (fold (lt c0 c1) &&& lt y (x + c1)),
    rewrite (lt x (min (x + c0) y + c1)) (fold (lt 0 (c0 + c1)) &&& lt x (y + c1)),
    rewrite (lt x (min y (x + c0) + c1)) (fold (lt 0 (c0 + c1)) &&& lt x (y + c1)),
    rewrite (lt x (max (x + c0) y + c1)) (fold (lt 0 (c0 + c1)) ||| lt x (y + c1)),
    rewrite (lt x (max y (x + c0) + c1)) (fold (lt 0 (c0 + c1)) ||| lt x (y + c1)),
    rewrite (lt (min x y) (x + c1)) (fold (lt 0 c1) ||| lt y (x + c1)),
    rewrite (lt (min y x) (x + c1)) (fold (lt 0 c1) ||| lt y (x + c1)),
    rewrite (lt (max x y) (x + c1)) (fold (lt 0 c1) &&& lt y (x + c1)),
    rewrite (lt (max y x) (x + c1)) (fold (lt 0 c1) &&& lt y (x + c1)),
    rewrite (lt x (min x y + c1)) (fold (lt 0 c1) &&& lt x (y + c1)),
    rewrite (lt x (min y x + c1)) (fold (lt 0 c1) &&& lt x (y + c1)),
    rewrite (lt x (max x y + c1)) (fold (lt 0 c1) ||| lt x (y + c1)),
    rewrite (lt x (max y x + c1)) (fold (lt 0 c1) ||| lt x (y + c1)),
    rewrite (lt (min (x + c0) y) x) (fold (lt c0 0) ||| lt y x),
    rewrite (lt (min y (x + c0)) x) (fold (lt c0 0) ||| lt y x),
    rewrite (lt (max (x + c0) y) x) (fold (lt c0 0) &&& lt y x),
    rewrite (lt (max y (x + c0)) x) (fold (lt c0 0) &&& lt y x),
    rewrite (lt x (min (x + c0) y)) (fold (lt 0 c0) &&& lt x y),
    rewrite (lt x (min y (x + c0))) (fold (lt 0 c0) &&& lt x y),
    rewrite (lt x (max (x + c0) y)) (fold (lt 0 c0) ||| lt x y),
    rewrite (lt x (max y (x + c0))) (fold (lt 0 c0) ||| lt x y),
    rewrite (lt (min x y) x) (lt y x),
    rewrite (lt (min y x) x) (lt y x),
    rewrite (lt x (max x y)) (lt x y),
    rewrite (lt x (max y x)) (lt x y),
    rewrite (lt (min y c0) c1) (fold (lt c0 c1) ||| lt y c1),
    rewrite (lt (max y c0) c1) (fold (lt c0 c1) &&& lt y c1),
    rewrite (lt c1 (min y c0)) (fold (lt c1 c0) &&& lt c1 y),
    rewrite (lt c1 (max y c0)) (fold (lt c1 c0) ||| lt c1 y) ]

def ltSelect : List Rule :=
  [ rewrite (lt x (select y (x + c0) z)) (~~~y &&& lt x z) (le c0 0),
    rewrite (lt x (select y (x + c0) z)) (y ||| lt x z) (gt c0 0),
    rewrite (lt x (select y z (x + c0))) (y &&& lt x z) (le c0 0),
    rewrite (lt x (select y z (x + c0))) (~~~y ||| lt x z) (gt c0 0),
    rewrite (lt x (select y (x + c0) z + c1)) (~~~y &&& lt x (z + c1)) (le (c0 + c1) 0),
    rewrite (lt x (select y (x + c0) z + c1)) (y ||| lt x (z + c1)) (gt (c0 + c1) 0),
    rewrite (lt x (select y z (x + c0) + c1)) (y &&& lt x (z + c1)) (le (c0 + c1) 0),
    rewrite (lt x (select y z (x + c0) + c1)) (~~~y ||| lt x (z + c1)) (gt (c0 + c1) 0),
    rewrite (lt (select y (x + c0) z) x) (~~~y &&& lt z x) (ge c0 0),
    rewrite (lt (select y (x + c0) z) x) (y ||| lt z x) (lt c0 0),
    rewrite (lt (select y z (x + c0)) x) (y &&& lt z x) (ge c0 0),
    rewrite (lt (select y z (x + c0)) x) (~~~y ||| lt z x) (lt c0 0),
    rewrite (lt (select y (x + c0) z) (x + c1)) (~~~y &&& lt z (x + c1)) (ge c0 c1),
    rewrite (lt (select y (x + c0) z) (x + c1)) (y ||| lt z (x + c1)) (lt c0 c1),
    rewrite (lt (select y z (x + c0)) (x + c1)) (y &&& lt z (x + c1)) (ge c0 c1),
    rewrite (lt (select y z (x + c0)) (x + c1)) (~~~y ||| lt z (x + c1)) (lt c0 c1) ]

def ltRamps : List Rule :=
  [ rewrite (lt (ramp x y) (ramp z w)) (lt (ramp (x - z) (y - w)) 0) ]

def ltMultiples : List Rule :=
  [ rewrite (lt (x * c0) (y * c1)) (lt x (y * fold (c1 / c0))) (eq (c1 % c0) 0 &&& gt c0 0),
    rewrite (lt (x * c0) (y * c1)) (lt (x * fold (c0 / c1)) y) (eq (c0 % c1) 0 &&& gt c1 0),
    rewrite (lt (x * c0) (y * c0 + c1)) (lt x (y + fold ((c1 + c0 - 1) / c0))) (gt c0 0),
    rewrite (lt (x * c0 + c1) (y * c0)) (lt (x + fold (c1 / c0)) y) (gt c0 0) ]

/-- Comparisons of the stair-step function `(x / c) * c` with `x`. -/
def ltStairs : List Rule :=
  [ rewrite (lt ((x + c0) / c1 * c1 + w) (x + z)) (lt (w + c0) ((x + c0) % c1 + z)) (gt c1 0),
    rewrite (lt (w + (x + c0) / c1 * c1) (x + z)) (lt (w + c0) ((x + c0) % c1 + z)) (gt c1 0),
    rewrite (lt ((x + c0) / c1 * c1 + w) (z + x)) (lt (w + c0) ((x + c0) % c1 + z)) (gt c1 0),
    rewrite (lt (w + (x + c0) / c1 * c1) (z + x)) (lt (w + c0) ((x + c0) % c1 + z)) (gt c1 0),
    rewrite (lt (x + z) ((x + c0) / c1 * c1 + w)) (lt ((x + c0) % c1 + z) (w + c0)) (gt c1 0),
    rewrite (lt (x + z) (w + (x + c0) / c1 * c1)) (lt ((x + c0) % c1 + z) (w + c0)) (gt c1 0),
    rewrite (lt (z + x) ((x + c0) / c1 * c1 + w)) (lt ((x + c0) % c1 + z) (w + c0)) (gt c1 0),
    rewrite (lt (z + x) (w + (x + c0) / c1 * c1)) (lt ((x + c0) % c1 + z) (w + c0)) (gt c1 0),
    rewrite (lt ((x + c0) / c1 * c1) (x + z)) (lt c0 ((x + c0) % c1 + z)) (gt c1 0),
    rewrite (lt ((x + c0) / c1 * c1) (z + x)) (lt c0 ((x + c0) % c1 + z)) (gt c1 0),
    rewrite (lt (x + z) ((x + c0) / c1 * c1)) (lt ((x + c0) % c1 + z) c0) (gt c1 0),
    rewrite (lt (z + x) ((x + c0) / c1 * c1)) (lt ((x + c0) % c1 + z) c0) (gt c1 0),
    rewrite (lt ((x + c0) / c1 * c1 + w) x) (lt (w + c0) ((x + c0) % c1)) (gt c1 0),
    rewrite (lt (w + (x + c0) / c1 * c1) x) (lt (w + c0) ((x + c0) % c1)) (gt c1 0),
    rewrite (lt x ((x + c0) / c1 * c1 + w)) (lt ((x + c0) % c1) (w + c0)) (gt c1 0),
    rewrite (lt x (w + (x + c0) / c1 * c1)) (lt ((x + c0) % c1) (w + c0)) (gt c1 0),
    rewrite (lt (x / c1 * c1 + w) (x + z)) (lt w (x % c1 + z)) (gt c1 0),
    rewrite (lt (w + x / c1 * c1) (x + z)) (lt w (x % c1 + z)) (gt c1 0),
    rewrite (lt (x / c1 * c1 + w) (z + x)) (lt w (x % c1 + z)) (gt c1 0),
    rewrite (lt (w + x / c1 * c1) (z + x)) (lt w (x % c1 + z)) (gt c1 0),
    rewrite (lt (x + z) (x / c1 * c1 + w)) (lt (x % c1 + z) w) (gt c1 0),
    rewrite (lt (x + z) (w + x / c1 * c1)) (lt (x % c1 + z) w) (gt c1 0),
    rewrite (lt (z + x) (x / c1 * c1 + w)) (lt (x % c1 + z) w) (gt c1 0),
    rewrite (lt (z + x) (w + x / c1 * c1)) (lt (x % c1 + z) w) (gt c1 0),
    rewrite (lt ((x + c0) / c1 * c1) x) (lt c0 ((x + c0) % c1)) (gt c1 0),
    rewrite (lt x ((x + c0) / c1 * c1)) (lt ((x + c0) % c1) c0) (gt c1 0),
    rewrite (lt (x / c1 * c1) (x + z)) (lt 0 (x % c1 + z)) (gt c1 0),
    rewrite (lt (x / c1 * c1) (z + x)) (lt 0 (x % c1 + z)) (gt c1 0),
    rewrite (lt (x + z) (x / c1 * c1)) (lt (x % c1 + z) 0) (gt c1 0),
    rewrite (lt (z + x) (x / c1 * c1)) (lt (x % c1 + z) 0) (gt c1 0),
    rewrite (lt (x / c1 * c1 + w) x) (lt w (x % c1)) (gt c1 0),
    rewrite (lt (w + x / c1 * c1) x) (lt w (x % c1)) (gt c1 0),
    rewrite (lt x (x / c1 * c1 + w)) (lt (x % c1) w) (gt c1 0),
    rewrite (lt x (w + x / c1 * c1)) (lt (x % c1) w) (gt c1 0),
    rewrite (lt (x / c1 * c1) x) (ne (x % c1) 0) (gt c1 0),
    rewrite (lt x (x / c1 * c1)) 0 (gt c1 0) ]

/-- Cancel a division. -/
def ltDivisions : List Rule :=
  [ rewrite (lt ((x + c1) / c0) ((x + c2) / c0)) 0 (gt c0 0 &&& ge c1 c2),
    rewrite (lt ((x + c1) / c0) ((x + c2) / c0)) 1 (gt c0 0 &&& le c1 (c2 - c0)),
    rewrite (lt (x / c0) ((x + c2) / c0)) 0 (gt c0 0 &&& ge 0 c2),
    rewrite (lt (x / c0) ((x + c2) / c0)) 1 (gt c0 0 &&& le 0 (c2 - c0)),
    rewrite (lt ((x + c1) / c0) (x / c0)) 0 (gt c0 0 &&& ge c1 0),
    rewrite (lt ((x + c1) / c0) (x / c0)) 1 (gt c0 0 &&& le c1 (0 - c0)),
    rewrite (lt ((x + c1) / c0) (x / c0 + c2)) 0 (gt c0 0 &&& ge c1 (c2 * c0)),
    rewrite (lt ((x + c1) / c0) (x / c0 + c2)) 1 (gt c0 0 &&& le c1 (c2 * c0 - c0)) ]

/-- Cancel a division, with a confounding minimum or maximum. -/
def ltDivisionsMinMax : List Rule :=
  [ rewrite (lt ((x + c1) / c0) (min (x / c0) y + c2)) 0 (gt c0 0 &&& ge c1 (c2 * c0)),
    rewrite (lt ((x + c1) / c0) (max (x / c0) y + c2)) 1 (gt c0 0 &&& le c1 (c2 * c0 - c0)),
    rewrite (lt ((x + c1) / c0) (min ((x + c2) / c0) y)) 0 (gt c0 0 &&& ge c1 c2),
    rewrite (lt ((x + c1) / c0) (max ((x + c2) / c0) y)) 1 (gt c0 0 &&& le c1 (c2 - c0)),
    rewrite (lt ((x + c1) / c0) (min (x / c0) y)) 0 (gt c0 0 &&& ge c1 0),
    rewrite (lt ((x + c1) / c0) (max (x / c0) y)) 1 (gt c0 0 &&& le c1 (0 - c0)),
    rewrite (lt ((x + c1) / c0) (min y (x / c0) + c2)) 0 (gt c0 0 &&& ge c1 (c2 * c0)),
    rewrite (lt ((x + c1) / c0) (max y (x / c0) + c2)) 1 (gt c0 0 &&& le c1 (c2 * c0 - c0)),
    rewrite (lt ((x + c1) / c0) (min y ((x + c2) / c0))) 0 (gt c0 0 &&& ge c1 c2),
    rewrite (lt ((x + c1) / c0) (max y ((x + c2) / c0))) 1 (gt c0 0 &&& le c1 (c2 - c0)),
    rewrite (lt ((x + c1) / c0) (min y (x / c0))) 0 (gt c0 0 &&& ge c1 0),
    rewrite (lt ((x + c1) / c0) (max y (x / c0))) 1 (gt c0 0 &&& le c1 (0 - c0)),
    rewrite (lt (max ((x + c2) / c0) y) ((x + c1) / c0)) 0 (gt c0 0 &&& ge c2 c1),
    rewrite (lt (min ((x + c2) / c0) y) ((x + c1) / c0)) 1 (gt c0 0 &&& le c2 (c1 - c0)),
    rewrite (lt (max (x / c0) y) ((x + c1) / c0)) 0 (gt c0 0 &&& ge 0 c1),
    rewrite (lt (min (x / c0) y) ((x + c1) / c0)) 1 (gt c0 0 &&& le 0 (c1 - c0)),
    rewrite (lt (max y ((x + c2) / c0)) ((x + c1) / c0)) 0 (gt c0 0 &&& ge c2 c1),
    rewrite (lt (min y ((x + c2) / c0)) ((x + c1) / c0)) 1 (gt c0 0 &&& le c2 (c1 - c0)),
    rewrite (lt (max y (x / c0)) ((x + c1) / c0)) 0 (gt c0 0 &&& ge 0 c1),
    rewrite (lt (min y (x / c0)) ((x + c1) / c0)) 1 (gt c0 0 &&& le 0 (c1 - c0)),
    rewrite (lt (max ((x + c2) / c0) y) (x / c0 + c1)) 0 (gt c0 0 &&& ge c2 (c1 * c0)),
    rewrite (lt (min ((x + c2) / c0) y) (x / c0 + c1)) 1 (gt c0 0 &&& le c2 (c1 * c0 - c0)),
    rewrite (lt (max y ((x + c2) / c0)) (x / c0 + c1)) 0 (gt c0 0 &&& ge c2 (c1 * c0)),
    rewrite (lt (min y ((x + c2) / c0)) (x / c0 + c1)) 1 (gt c0 0 &&& le c2 (c1 * c0 - c0)),
    rewrite (lt (x / c0) (min ((x + c2) / c0) y)) 0 (gt c0 0 &&& lt c2 0),
    rewrite (lt (x / c0) (max ((x + c2) / c0) y)) 1 (gt c0 0 &&& le c0 c2),
    rewrite (lt (x / c0) (min y ((x + c2) / c0))) 0 (gt c0 0 &&& lt c2 0),
    rewrite (lt (x / c0) (max y ((x + c2) / c0))) 1 (gt c0 0 &&& le c0 c2),
    rewrite (lt (max ((x + c2) / c0) y) (x / c0)) 0 (gt c0 0 &&& ge c2 0),
    rewrite (lt (min ((x + c2) / c0) y) (x / c0)) 1 (gt c0 0 &&& le (c2 + c0) 0),
    rewrite (lt (max y ((x + c2) / c0)) (x / c0)) 0 (gt c0 0 &&& ge c2 0),
    rewrite (lt (min y ((x + c2) / c0)) (x / c0)) 1 (gt c0 0 &&& le (c2 + c0) 0) ]

def ltMinMin : Rule := rewrite (lt (min x c0) (min x c1)) 0 (ge c0 c1)

def ltMinMinPlus : Rule := rewrite (lt (min x c0) (min x c1 + c2)) 0 (ge c0 (c1 + c2))

def ltMaxMax : Rule := rewrite (lt (max x c0) (max x c1)) 0 (ge c0 c1)

def ltMaxMaxPlus : Rule := rewrite (lt (max x c0) (max x c1 + c2)) 0 (ge c0 (c1 + c2))

/-- Two minima or maxima that do not cancel when subtracted. -/
def ltClamps : List Rule := [ltMinMin, ltMinMinPlus, ltMaxMax, ltMaxMaxPlus]

/-- Aligned ramps compare like their bases. -/
def ltAligned (lanes : Int) : List Rule :=
  [ rewrite (lt (ramp (x * c3 + c2) c1) (broadcast (z * c0)))
      (broadcast (lt (x * fold (c3 / c0) + fold (c2 / c0)) z))
      (gt c0 0 &&& eq (c3 % c0) 0 &&& lt (c2 % c0 + c1 * const (lanes - 1)) c0 &&&
        ge (c2 % c0 + c1 * const (lanes - 1)) 0),
    rewrite (lt (ramp (x * c3) c1) (broadcast (z * c0))) (broadcast (lt (x * fold (c3 / c0)) z))
      (gt c0 0 &&& eq (c3 % c0) 0 &&& lt (c1 * const (lanes - 1)) c0 &&&
        ge (c1 * const (lanes - 1)) 0) ]

/-- The rules that `visit(LT)` returns the result of. -/
def ltReturnRules (T : IntType) : List Rule := ltReturned T

def ltGuarded (lanes : Int) : List Rule :=
  ltLinear ++ ltScaled ++ ltMinMax ++ ltSelect ++ ltRamps ++ ltMultiples ++ ltStairs ++
    ltDivisions ++ ltDivisionsMinMax ++ ltClamps ++ ltAligned lanes

/-- The rules whose result `visit(LT)` simplifies again. -/
def ltMutateRules (T : IntType) (lanes : Int) : List Rule :=
  ltBroadcast ++ if noOverflowInt T then ltGuarded lanes else []

/-- Every rule of `visit(LT)` that a type of operands can meet, those that no
comparison enables included. -/
def ltRules (T : IntType) (lanes : Int) : List Rule :=
  ltReturnRules T ++ (if noOverflowInt T then ltLanes lanes else []) ++ ltMutateRules T lanes

end Vyasa.Simplify
