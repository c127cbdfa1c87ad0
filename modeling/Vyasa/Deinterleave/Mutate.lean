import Vyasa.Lanes.Shuffle
import Vyasa.Lanes.Substitute

/-! The mutator that takes every nth lane of a vector expression, and the functions that call
it. Nothing is the result where an assertion fails or a vector is read past its end. -/
namespace Vyasa.Lanes

open Word IRMatch

structure Deinterleaver where
  starting_lane : Nat
  lane_stride : Nat
  new_lanes : Nat
  external_lets : Name → Bool

namespace Deinterleaver

variable (d : Deinterleaver)

/-- The lane of the operand that becomes a lane of the result. -/
def source (i : Nat) : Nat := d.starting_lane + d.lane_stride * i

/-- A shuffle that picks the lanes. -/
def pick (e : Expr) : Option Expr := Shuffle.make [e] ((List.range d.new_lanes).map d.source)

/-- The variable of the lanes of a let. -/
def lanesName (name : Name) : Option Name :=
  if d.starting_lane = 0 ∧ d.lane_stride = 2 then some (.suffix name ".even_lanes")
  else if d.starting_lane = 1 ∧ d.lane_stride = 2 then some (.suffix name ".odd_lanes")
  else if d.starting_lane = 0 ∧ d.lane_stride = 3 then some (.suffix name ".lanes_0_of_3")
  else if d.starting_lane = 1 ∧ d.lane_stride = 3 then some (.suffix name ".lanes_1_of_3")
  else if d.starting_lane = 2 ∧ d.lane_stride = 3 then some (.suffix name ".lanes_2_of_3")
  else none

/-- `visit(const Variable *)` -/
def visitVariable (T : IntType) (n : Nat) (name : Name) : Option Expr :=
  if n = 1 then some (.var T n name)
  else
    match if d.external_lets name then d.lanesName name else none with
    | some other => some (.var T d.new_lanes other)
    | none => d.pick (.var T n name)

/-- `int * Expr`, which asserts that the type has the integer. -/
def timesLeft (c : Nat) (e : Expr) : Option Expr :=
  if e.type.Has c then some (.bin .mul (.imm e.type c) e) else none

/-- `Expr * int` -/
def timesRight (e : Expr) (c : Nat) : Option Expr :=
  if e.type.Has c then some (.bin .mul e (.imm e.type c)) else none

/-- `visit(const Ramp *)` -/
def visitRamp (base stride : Expr) : Option Expr := do
  let expr := Expr.bin .add base (← timesLeft d.starting_lane stride)
  if d.new_lanes > 1 then
    return .ramp expr (← timesRight stride d.lane_stride) d.new_lanes
  else
    return expr

/-- `visit(const Broadcast *)` -/
def visitBroadcast (value : Expr) : Expr :=
  if d.new_lanes = 1 then value else .broadcast value d.new_lanes

/-- `visit(const Shuffle *)`. In the last case the indices go into a shuffle of the node
itself, not of its vectors. -/
def visitShuffle (T : IntType) (vectors : List Expr) (indices : List Nat) : Option Expr :=
  if Shuffle.is_interleave vectors indices then
    if d.starting_lane < d.lane_stride then
      if vectors.length = d.lane_stride then vectors[d.starting_lane]?
      else if vectors.length % d.lane_stride = 0 then do
        Shuffle.make_interleave (← (List.range (vectors.length / d.lane_stride)).mapM fun i =>
          vectors[i * d.lane_stride + d.starting_lane]?)
      else d.pick (.shuffle T vectors indices)
    else none
  else do
    Shuffle.make [.shuffle T vectors indices]
      (← (List.range d.new_lanes).mapM fun i => indices[d.source i]?)

mutual

def mutate : Expr → Option Expr
  | .imm T v => some (.imm T v)
  | .stringImm s => some (.stringImm s)
  | .var T n name => d.visitVariable T n name
  | .cast T a => if a.lanes = 1 then some (.cast T a) else do return .cast T (← mutate a)
  | .bin op a b => do return .bin op (← mutate a) (← mutate b)
  | .cmp op a b => do return .cmp op (← mutate a) (← mutate b)
  | .not a => do return .not (← mutate a)
  | .select c t f => do return .select (← mutate c) (← mutate t) (← mutate f)
  | .load T n name index predicate =>
      if n = 1 then some (.load T n name index predicate)
      else do return .load T d.new_lanes name (← mutate index) (← mutate predicate)
  | .ramp base stride _ => d.visitRamp base stride
  | .broadcast value _ => some (d.visitBroadcast value)
  | .call T n callee args =>
      if n = 1 then some (.call T n callee args)
      else if callee = .glsl_texture_load then d.pick (.call T n callee args)
      else do return .call T d.new_lanes callee (← mutateAll args)
  | .letIn name value body => do return .letIn name (← mutate value) (← mutate body)
  | .shuffle T vectors indices => d.visitShuffle T vectors indices

def mutateAll : List Expr → Option (List Expr)
  | [] => some []
  | a :: rest => do return (← mutate a) :: (← mutateAll rest)

end

attribute [grind =] mutate

variable (P : Expr → Prop)

mutual

/-- Something holds of an expression and of all its parts that the mutator goes into. -/
def Visited : Expr → Prop
  | .imm T v => P (.imm T v)
  | .stringImm s => P (.stringImm s)
  | .var T n name => P (.var T n name)
  | .cast T a => P (.cast T a) ∧ (a.lanes ≠ 1 → Visited a)
  | .bin op a b => P (.bin op a b) ∧ Visited a ∧ Visited b
  | .cmp op a b => P (.cmp op a b) ∧ Visited a ∧ Visited b
  | .not a => P (.not a) ∧ Visited a
  | .select c t f => P (.select c t f) ∧ Visited c ∧ Visited t ∧ Visited f
  | .load T n name index predicate =>
      P (.load T n name index predicate) ∧ (n ≠ 1 → Visited index ∧ Visited predicate)
  | .ramp base stride n => P (.ramp base stride n)
  | .broadcast value n => P (.broadcast value n)
  | .call T n callee args =>
      P (.call T n callee args) ∧ (n ≠ 1 → callee ≠ .glsl_texture_load → VisitedAll args)
  | .letIn name value body => P (.letIn name value body) ∧ Visited value ∧ Visited body
  | .shuffle T vectors indices => P (.shuffle T vectors indices)

def VisitedAll : List Expr → Prop
  | [] => True
  | a :: rest => Visited a ∧ VisitedAll rest

end

variable {P}

theorem visited_self {e : Expr} (h : Visited P e) : P e := by
  cases e with
  | imm | stringImm | var | ramp | broadcast | shuffle => exact h
  | cast | bin | cmp | not | select | load | call | letIn => exact h.1

end Deinterleaver

/-- `deinterleave`, where the last two passes keep the values. -/
def deinterleave (common_subexpression_elimination simplify : Expr → Expr) (e : Expr)
    (starting_lane lane_stride new_lanes : Nat) (lets : Name → Bool) : Option Expr := do
  let e ← Deinterleaver.mutate ⟨starting_lane, lane_stride, new_lanes, lets⟩ (substitute_in_all_lets e)
  return simplify (common_subexpression_elimination e)

/-- The functions that take lanes, with the lane where they are given one. -/
inductive Extraction where
  | odd_lanes | even_lanes | mod3_lanes (i : Nat) | lane (i : Nat)

namespace Extraction

def starting_lane : Extraction → Nat
  | odd_lanes => 1
  | even_lanes => 0
  | mod3_lanes i | lane i => i

def lane_stride (lanes : Nat) : Extraction → Nat
  | odd_lanes | even_lanes => 2
  | mod3_lanes _ => 3
  | lane _ => lanes

def new_lanes (lanes : Nat) : Extraction → Nat
  | odd_lanes => lanes / 2
  | even_lanes => (lanes + 1) / 2
  | mod3_lanes _ => (lanes + 2) / 3
  | lane _ => 1

/-- The asserted divisibility, and that the lane is one of those there are. -/
def Fits (lanes : Nat) : Extraction → Prop
  | odd_lanes | even_lanes => lanes % 2 = 0
  | mod3_lanes i => lanes % 3 = 0 ∧ i < 3
  | lane i => i < lanes

/-- The lets that the function passes on. -/
def lets (external_lets : Name → Bool) : Extraction → Name → Bool
  | odd_lanes | even_lanes | mod3_lanes _ => external_lets
  | lane _ => fun _ => false

def deinterleaver (x : Extraction) (lanes : Nat) (external_lets : Name → Bool) : Deinterleaver :=
  ⟨x.starting_lane, x.lane_stride lanes, x.new_lanes lanes, x.lets external_lets⟩

end Extraction

section

variable (common_subexpression_elimination simplify : Expr → Expr)

def extract_odd_lanes (e : Expr) (lets : Name → Bool) : Option Expr :=
  if e.lanes % 2 = 0 then
    deinterleave common_subexpression_elimination simplify e 1 2 (e.lanes / 2) lets
  else none

def extract_even_lanes (e : Expr) (lets : Name → Bool) : Option Expr :=
  if e.lanes % 2 = 0 then
    deinterleave common_subexpression_elimination simplify e 0 2 ((e.lanes + 1) / 2) lets
  else none

def extract_mod3_lanes (e : Expr) (lane : Nat) (lets : Name → Bool) : Option Expr :=
  if e.lanes % 3 = 0 then
    deinterleave common_subexpression_elimination simplify e lane 3 ((e.lanes + 2) / 3) lets
  else none

/-- `extract_lane`, which is given no lets. -/
def extract_lane (e : Expr) (lane : Nat) : Option Expr :=
  deinterleave common_subexpression_elimination simplify e lane e.lanes 1 fun _ => false

def Extraction.extract (e : Expr) (lets : Name → Bool) : Extraction → Option Expr
  | odd_lanes => extract_odd_lanes common_subexpression_elimination simplify e lets
  | even_lanes => extract_even_lanes common_subexpression_elimination simplify e lets
  | mod3_lanes i => extract_mod3_lanes common_subexpression_elimination simplify e i lets
  | lane i => extract_lane common_subexpression_elimination simplify e i

end

end Vyasa.Lanes
