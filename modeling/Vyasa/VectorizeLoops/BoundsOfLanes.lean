import Vyasa.Deinterleave.Exact
import Vyasa.Monotonic.Sound
import Mathlib.Order.Bounds.Image

/-! The least and the greatest lane of a vector expression, as expressions for one lane. Of
truth values the least is whether all are true, and the greatest whether one is. -/
namespace Vyasa.Lanes

open Word IRMatch

structure Interval where
  protected min : Expr
  protected max : Expr

/-- The variables that hold the bounds of a vector variable. -/
def minLane (name : Name) : Name := .suffix name ".min_lane"

def maxLane (name : Name) : Name := .suffix name ".max_lane"

def Expr.broadcastValue : Expr → Option Expr
  | .broadcast v _ => some v
  | _ => none

/-- Where the bounds of an operation come from: from those of one operand and the value that
the other one broadcasts, or from all lanes. -/
inductive Route where
  | left (value : Expr)
  | right (value : Expr)
  | lanes

def signKnown (v : Expr) : Bool := v.is_positive_const || v.is_negative_const

/-- A broadcast on the right is seen first. A factor has to be a constant with a sign, and so has
a divisor. -/
def route (op : BinOp) (a b : Expr) : Route :=
  match op, b.broadcastValue, a.broadcastValue with
  | .mod, _, _ => .lanes
  | .div, some v, _ => if signKnown v then .left v else .lanes
  | .div, none, _ => .lanes
  | .mul, some v, _ => if signKnown v then .left v else .lanes
  | .mul, none, some v => if signKnown v then .right v else .lanes
  | _, some v, _ => .left v
  | _, none, some v => .right v
  | _, none, none => .lanes

namespace Interval

/-- Bounds of an operation on a vector and a broadcast value. -/
def leftOf (op : BinOp) (ia : Interval) (v : Expr) : Interval :=
  match op with
  | .mul | .div =>
    if v.is_positive_const then ⟨.bin op ia.min v, .bin op ia.max v⟩ else ⟨.bin op ia.max v, .bin op ia.min v⟩
  | .or => ⟨.bin .and ia.min v, .bin .and ia.max v⟩
  | .add | .sub | .and | .min | .max | .mod => ⟨.bin op ia.min v, .bin op ia.max v⟩

/-- Bounds of an operation on a broadcast value and a vector. -/
def rightOf (op : BinOp) (v : Expr) (ia : Interval) : Interval :=
  match op with
  | .add => ⟨.bin .add v ia.min, .bin .add v ia.max⟩
  | .sub => ⟨.bin .sub v ia.max, .bin .sub v ia.max⟩
  | .mul =>
    if v.is_positive_const then ⟨.bin .mul v ia.min, .bin .mul v ia.max⟩
    else ⟨.bin .mul v ia.max, .bin .mul v ia.min⟩
  | .and | .or => ⟨.bin .and ia.min v, .bin .and ia.max v⟩
  | .min | .max | .div | .mod => ⟨.bin op ia.min v, .bin op ia.max v⟩

/-- The bounds with a lane more. -/
def withLane (T : IntType) (ia : Interval) (next : Expr) : Interval :=
  if T = .bool then ⟨.bin .and ia.min next, .bin .or ia.max next⟩
  else ⟨.bin .min ia.min next, .bin .max ia.max next⟩

/-- The let around an expression that reads its name. -/
def letAround (name : Name) (value e : Expr) : Expr :=
  if e.mentions (fun other => other = name) then .letIn name value e else e

/-- The lets for the bounds and the value of a variable around the bounds of a body. -/
def inLet (ib : Interval) (name : Name) (value : Expr) (ia : Interval) : Interval :=
  let around (e : Expr) : Expr :=
    letAround name value (letAround (maxLane name) ia.max (letAround (minLane name) ia.min e))
  ⟨around ib.min, around ib.max⟩

end Interval

section

variable (common_subexpression_elimination simplify : Expr → Expr)

/-- The explicit bounds over the lanes up to one. -/
def overLanes (e : Expr) : Nat → Option Interval
  | 0 => do
    let lane ← extract_lane common_subexpression_elimination simplify e 0
    return ⟨lane, lane⟩
  | i + 1 => do
    let ia ← overLanes e i
    let next ← extract_lane common_subexpression_elimination simplify e (i + 1)
    return ia.withLane e.type next

def bounds_of_lanes : Expr → Option Interval
  | .bin op a b =>
    match route op a b with
    | .left v => do return (← bounds_of_lanes a).leftOf op v
    | .right v => do return (← bounds_of_lanes b).rightOf op v
    | .lanes => overLanes common_subexpression_elimination simplify (.bin op a b) (a.lanes - 1)
  | .not a => do
    let ia ← bounds_of_lanes a
    return ⟨.not ia.max, .not ia.min⟩
  | .ramp base stride n =>
    let last := Expr.bin .add base (.bin .mul (.imm base.type (base.type.wrap (n - 1))) stride)
    if stride.is_positive_const then some ⟨base, last⟩
    else if stride.is_negative_const then some ⟨last, base⟩
    else overLanes common_subexpression_elimination simplify (.ramp base stride n) (n - 1)
  | .broadcast v _ => some ⟨v, v⟩
  | .var T _ name => some ⟨.var T 1 (minLane name), .var T 1 (maxLane name)⟩
  | .letIn name value body => do
    let ia ← bounds_of_lanes value
    let ib ← bounds_of_lanes body
    return ib.inLet name value ia
  | e => overLanes common_subexpression_elimination simplify e (e.lanes - 1)

end

/-! ### When the bounds are right -/

/-- The checked values of the lanes. -/
def values (ρ : Env) (e : Expr) : Set Int := { v | ∃ i < e.lanes, lane checked ρ e i = some v }

/-- Nothing overflows, and nothing is divided by zero. -/
def Defined (ρ : Env) (e : Expr) : Prop := ∀ i < e.lanes, ∃ v, lane checked ρ e i = some v

/-- The bounds have the least and the greatest of some values. -/
structure Interval.Evaluates (ρ : Env) (ia : Interval) (S : Set Int) : Prop where
  min_eq : ∃ x, lane wrapping ρ ia.min 0 = some x ∧ IsLeast S x
  max_eq : ∃ y, lane wrapping ρ ia.max 0 = some y ∧ IsGreatest S y

/-- The value has the sign that is read off it, casts and all. -/
def SignRight (ρ : Env) (v : Expr) : Prop := ∀ x ∈ values ρ v, SignIs v x

/-- A truth value that is broadcast is that of every lane. -/
def AllEqual (ρ : Env) (a v : Expr) : Prop := ∀ x ∈ values ρ a, ∀ y ∈ values ρ v, x = y

/-- For an operation `e` on a vector `a` and a broadcast value. -/
def RightLeft (ρ : Env) (op : BinOp) (e a v : Expr) : Prop :=
  match op with
  | .mul | .div => SignRight ρ v ∨ (values ρ e).Subsingleton
  | .or => AllEqual ρ a v
  | .add | .sub | .and | .min | .max | .mod => True

/-- For an operation `e` on a broadcast value and a vector `b`. -/
def RightRight (ρ : Env) (op : BinOp) (e v b : Expr) : Prop :=
  match op with
  | .mul => SignRight ρ v ∨ (values ρ e).Subsingleton
  | .sub => (values ρ b).Subsingleton
  | .or => AllEqual ρ b v
  | .add | .and | .min | .max | .div | .mod => True

/-- The lanes are extracted as they should be. -/
def Extracted (e : Expr) : Prop := ∀ i < e.lanes, ∀ ρ,
  Deinterleaver.Visited (((Extraction.lane i).deinterleaver e.lanes fun _ => false).Kept wrapping ρ)
    (substitute_in_all_lets e)

/-- Every part that is looked at is treated as it should be. -/
def Meets : Env → Expr → Prop
  | ρ, .bin op a b =>
    match route op a b with
    | .left v => Meets ρ a ∧ RightLeft ρ op (.bin op a b) a v
    | .right v => Meets ρ b ∧ RightRight ρ op (.bin op a b) v b
    | .lanes => Extracted (.bin op a b)
  | ρ, .not a => Meets ρ a
  | ρ, .ramp base stride n =>
    if signKnown stride then SignRight ρ stride ∨ (values ρ (.ramp base stride n)).Subsingleton
    else Extracted (.ramp base stride n)
  | _, .broadcast _ _ => True
  | _, .var _ _ _ => True
  | ρ, .letIn name value body =>
    Meets ρ value ∧ Meets (ρ.set name fun i => lane checked ρ value i) body
  | _, e => Extracted e

/-- A variable is looked at whose bounds are read, and that is bound outside. -/
def Looks : Expr → IntType → Nat → Name → Prop
  | .bin op a b, T, n, x =>
    match route op a b with
    | .left _ => Looks a T n x
    | .right _ => Looks b T n x
    | .lanes => False
  | .not a, T, n, x => Looks a T n x
  | .var S m y, T, n, x => S = T ∧ m = n ∧ y = x
  | .letIn name value body, T, n, x =>
    (Looks body T n x ∧ x ≠ name) ∨ (∃ S m, Looks body S m name) ∧ Looks value T n x
  | _, _, _, _ => False

/-- The bounds of vector variables are in scope. -/
def InScope (ρ ρ' : Env) (e : Expr) : Prop := ∀ T n x, Looks e T n x →
  (⟨.var T 1 (minLane x), .var T 1 (maxLane x)⟩ : Interval).Evaluates ρ' (values ρ (.var T n x))

def isLaneName : Name → Bool
  | .suffix _ s => s = ".min_lane" || s = ".max_lane"
  | _ => false

/-- No name of the set is read, no let binds a name that holds bounds, and no value of a let reads
the name of the let. -/
def WellNamed (D : Name → Bool) (e : Expr) : Prop :=
  e.mentions D = false ∧
  match e with
  | .bin _ a b => WellNamed D a ∧ WellNamed D b
  | .not a => WellNamed D a
  | .letIn name value body => isLaneName name = false ∧ WellNamed (Function.update D name true) value ∧
      WellNamed (Function.update D name false) body
  | _ => True

/-! ### The values of operations and their bounds -/

section Operations

/-- What an operation computes where no check fails. -/
def opValue : BinOp → Int → Int → Int
  | .add, x, y => x + y
  | .sub, x, y => x - y
  | .mul, x, y => x * y
  | .div, x, y => x / y
  | .mod, x, y => x % y
  | .min, x, y => min x y
  | .max, x, y => max x y
  | .and, x, y => if x ≠ 0 ∧ y ≠ 0 then 1 else 0
  | .or, x, y => if x ≠ 0 ∨ y ≠ 0 then 1 else 0

variable {T : IntType} {op : BinOp} {x y z : Int} {S : Set Int}

theorem evalBin_eq_opValue (h : evalBin .checked T op x y = some z) : z = opValue op x y := by
  cases op with
  | add | sub | mul =>
    simp only [evalBin, arith, Option.ite_none_right_eq_some, Option.some.injEq] at h
    exact h.2.symm
  | div =>
    simp only [evalBin, arith, Option.ite_none_left_eq_some, Option.ite_none_right_eq_some,
      Option.some.injEq] at h
    exact h.2.2.symm
  | mod =>
    simp only [evalBin, Option.ite_none_left_eq_some, Option.some.injEq] at h
    exact h.2.symm
  | min | max | and | or => exact (Option.some.inj h).symm

/-- Truth values. -/
def Truth (S : Set Int) : Prop := ∀ x ∈ S, x = 0 ∨ x = 1

theorem monotoneOn_of_subsingleton {f : Int → Int} (h : (f '' S).Subsingleton) : MonotoneOn f S :=
  fun _ hx _ hy _ => (h (Set.mem_image_of_mem f hx) (Set.mem_image_of_mem f hy)).le

theorem antitoneOn_of_subsingleton {f : Int → Int} (h : (f '' S).Subsingleton) : AntitoneOn f S :=
  fun _ hx _ hy _ => (h (Set.mem_image_of_mem f hx) (Set.mem_image_of_mem f hy)).ge

/-- Operations whose result grows with the left operand. -/
theorem monotoneOn_left (hOp : op = .add ∨ op = .sub ∨ op = .min ∨ op = .max) :
    MonotoneOn (fun x => opValue op x y) S := by
  intro x _ x' _ hle
  rcases hOp with rfl | rfl | rfl | rfl
  · exact Int.add_le_add_right hle y
  · exact Int.sub_le_sub_right hle y
  · exact min_le_min_right y hle
  · exact max_le_max_right y hle

theorem monotoneOn_truth (hOp : op = .and ∨ op = .or) (hS : Truth S) :
    MonotoneOn (fun x => opValue op x y) S := by
  intro x hx x' hx' hle
  rcases hS x hx with rfl | rfl <;> rcases hS x' hx' with rfl | rfl <;> rcases hOp with rfl | rfl <;>
    simp only [opValue] <;> split_ifs <;> omega

theorem opValue_comm (hOp : op = .min ∨ op = .max ∨ op = .and ∨ op = .or) : opValue op x y =
    opValue op y x := by
  rcases hOp with rfl | rfl | rfl | rfl
  · exact min_comm x y
  · exact max_comm x y
  · simp only [opValue, and_comm]
  · simp only [opValue, or_comm]

theorem monotoneOn_of_nonneg (hOp : op = .mul ∨ op = .div) (hy : 0 ≤ y) :
    MonotoneOn (fun x => opValue op x y) S := by
  intro x _ x' _ hle
  rcases hOp with rfl | rfl
  · exact Int.mul_le_mul_of_nonneg_right hle hy
  · rcases hy.eq_or_lt with rfl | hPos
    · simp only [opValue, Int.ediv_zero, le_refl]
    · exact Int.ediv_le_ediv hPos hle

theorem antitoneOn_of_nonpos (hOp : op = .mul ∨ op = .div) (hy : y ≤ 0) :
    AntitoneOn (fun x => opValue op x y) S := by
  intro x _ x' _ hle
  have hNeg := monotoneOn_of_nonneg (S := Set.univ) (y := -y) hOp (by omega) trivial trivial hle
  rcases hOp with rfl | rfl
  · simp only [opValue, Int.mul_neg] at hNeg ⊢
    omega
  · simp only [opValue, Int.ediv_neg] at hNeg ⊢
    omega

end Operations

section Routes

variable {op : BinOp} {a b v : Expr}

theorem broadcastValue_eq_some {e : Expr} (h : e.broadcastValue = some v) : ∃ n, e = .broadcast v n := by
  cases e with
  | broadcast w n =>
    cases h
    exact ⟨n, rfl⟩
  | _ => cases h

theorem route_left (h : route op a b = .left v) :
    (∃ n, b = .broadcast v n) ∧ op ≠ .mod ∧ (op = .mul ∨ op = .div → signKnown v = true) := by
  unfold route at h
  split at h
  all_goals try split_ifs at h with hKnown
  all_goals try cases h
  all_goals simp_all [broadcastValue_eq_some]

theorem route_right (h : route op a b = .right v) :
    (∃ n, a = .broadcast v n) ∧ op ≠ .mod ∧ op ≠ .div ∧ (op = .mul → signKnown v = true) := by
  unfold route at h
  split at h
  all_goals try split_ifs at h with hKnown
  all_goals try cases h
  all_goals simp_all [broadcastValue_eq_some]

end Routes

section Values

variable {ρ : Env} {Γ : Context} {T : IntType} {op : BinOp} {a b v : Expr} {n : Nat} {x y : Int}

theorem truth_values (he : WellFormed Γ a) (hType : a.type = .bool) : Truth (values ρ a) := by
  rintro x ⟨i, -, hx⟩
  have hHas := has_of_lane a he hx
  rw [hType] at hHas
  unfold IntType.Has at hHas
  have hMin : IntType.bool.min = 0 := by decide
  have hMax : IntType.bool.max = 1 := by decide
  omega

theorem mem_values_scalar (hLanes : v.lanes = 1) : y ∈ values ρ v ↔ lane checked ρ v 0 = some y := by
  constructor
  · rintro ⟨i, hi, hy⟩
    obtain rfl : i = 0 := by omega
    exact hy
  · exact fun hy => ⟨0, by omega, hy⟩

theorem values_image {e : Expr} {f : Int → Int} (h : ∀ i, i < e.lanes ↔ i < a.lanes)
    (hLane : ∀ i < a.lanes, ∃ x, lane checked ρ a i = some x ∧ lane checked ρ e i = some (f x)) :
    values ρ e = f '' values ρ a := by
  ext z
  constructor
  · rintro ⟨i, hi, hz⟩
    obtain ⟨x, hx, hz'⟩ := hLane i ((h i).mp hi)
    exact ⟨x, ⟨i, (h i).mp hi, hx⟩, Option.some.inj (hz'.symm.trans hz)⟩
  · rintro ⟨x, ⟨i, hi, hx⟩, rfl⟩
    obtain ⟨x', hx', hz'⟩ := hLane i hi
    obtain rfl := Option.some.inj (hx.symm.trans hx')
    exact ⟨i, (h i).mpr hi, hz'⟩

/-- What holds in every lane holds of all values. -/
theorem values_of_lanes {e : Expr} {f : Int → Int} {P : Int → Prop} (h : ∀ i, i < e.lanes ↔ i < a.lanes)
    (hLane : ∀ i < a.lanes, ∃ x, lane checked ρ a i = some x ∧ P x ∧ lane checked ρ e i = some (f x)) :
    Defined ρ a ∧ values ρ e = f '' values ρ a ∧ ∀ x ∈ values ρ a, P x := by
  refine ⟨fun i hi => ?_, values_image h fun i hi => ?_, ?_⟩
  · obtain ⟨x, hx, -⟩ := hLane i hi
    exact ⟨x, hx⟩
  · obtain ⟨x, hx, -, hz⟩ := hLane i hi
    exact ⟨x, hx, hz⟩
  · rintro x ⟨i, hi, hx⟩
    obtain ⟨x', hx', hP, -⟩ := hLane i hi
    obtain rfl := Option.some.inj (hx.symm.trans hx')
    exact hP

/-- An operation with a broadcast value on the right, lane by lane. -/
theorem values_left (hDefined : Defined ρ (.bin op a (.broadcast v n))) (hPos : 0 < a.lanes) :
    ∃ y, lane checked ρ v 0 = some y ∧ Defined ρ a ∧
      values ρ (.bin op a (.broadcast v n)) = (fun x => opValue op x y) '' values ρ a ∧
      ∀ x ∈ values ρ a, evalBin .checked a.type op x y = some (opValue op x y) := by
  obtain ⟨z, hz⟩ := hDefined 0 hPos
  obtain ⟨-, y, -, hy, -⟩ := lane_bin_eq_some.mp hz
  have hy := (lane_broadcast_eq_some.mp hy).2
  have hLane (i : Nat) (hi : i < a.lanes) : ∃ x, lane checked ρ a i = some x ∧
      evalBin .checked a.type op x y = some (opValue op x y) ∧
      lane checked ρ (.bin op a (.broadcast v n)) i = some (opValue op x y) := by
    obtain ⟨z, hz⟩ := hDefined i hi
    obtain ⟨x, y', hx, hy', hBin⟩ := lane_bin_eq_some.mp hz
    obtain rfl := Option.some.inj (hy.symm.trans (lane_broadcast_eq_some.mp hy').2)
    obtain rfl := evalBin_eq_opValue hBin
    exact ⟨x, hx, hBin, hz⟩
  exact ⟨y, hy, values_of_lanes (fun i => Iff.rfl) hLane⟩

/-- And with one on the left. -/
theorem values_right (hDefined : Defined ρ (.bin op (.broadcast v n) b)) (hLanes : n = b.lanes)
    (hPos : 0 < b.lanes) :
    ∃ y, lane checked ρ v 0 = some y ∧ Defined ρ b ∧
      values ρ (.bin op (.broadcast v n) b) = (fun x => opValue op y x) '' values ρ b ∧
      ∀ x ∈ values ρ b, evalBin .checked v.type op y x = some (opValue op y x) := by
  subst hLanes
  obtain ⟨z, hz⟩ := hDefined 0 hPos
  obtain ⟨y, -, hy, -, -⟩ := lane_bin_eq_some.mp hz
  have hy := (lane_broadcast_eq_some.mp hy).2
  have hLane (i : Nat) (hi : i < b.lanes) : ∃ x, lane checked ρ b i = some x ∧
      evalBin .checked v.type op y x = some (opValue op y x) ∧
      lane checked ρ (.bin op (.broadcast v b.lanes) b) i = some (opValue op y x) := by
    obtain ⟨z, hz⟩ := hDefined i hi
    obtain ⟨y', x, hy', hx, hBin⟩ := lane_bin_eq_some.mp hz
    obtain rfl := Option.some.inj (hy.symm.trans (lane_broadcast_eq_some.mp hy').2)
    obtain rfl := evalBin_eq_opValue hBin
    exact ⟨x, hx, hBin, hz⟩
  exact ⟨y, hy, values_of_lanes (fun i => Iff.rfl) hLane⟩

end Values

namespace Interval

variable {ρ : Env} {ia r : Interval} {S : Set Int} {f : Int → Int}

/-- The bounds are carried through an operation that grows with its operand. -/
theorem Evaluates.image (h : ia.Evaluates ρ S) (hf : MonotoneOn f S)
    (hMin : ∀ x ∈ S, lane wrapping ρ ia.min 0 = some x → lane wrapping ρ r.min 0 = some (f x))
    (hMax : ∀ x ∈ S, lane wrapping ρ ia.max 0 = some x → lane wrapping ρ r.max 0 = some (f x)) :
    r.Evaluates ρ (f '' S) := by
  obtain ⟨⟨x, hx, hLeast⟩, y, hy, hGreatest⟩ := h
  exact ⟨⟨f x, hMin x hLeast.1 hx, hf.map_isLeast hLeast⟩, f y, hMax y hGreatest.1 hy,
    hf.map_isGreatest hGreatest⟩

/-- And through one that falls, where they change places. -/
theorem Evaluates.image_antitone (h : ia.Evaluates ρ S) (hf : AntitoneOn f S)
    (hMin : ∀ x ∈ S, lane wrapping ρ ia.max 0 = some x → lane wrapping ρ r.min 0 = some (f x))
    (hMax : ∀ x ∈ S, lane wrapping ρ ia.min 0 = some x → lane wrapping ρ r.max 0 = some (f x)) :
    r.Evaluates ρ (f '' S) := by
  obtain ⟨⟨x, hx, hLeast⟩, y, hy, hGreatest⟩ := h
  exact ⟨⟨f y, hMin y hGreatest.1 hy, hf.map_isGreatest hGreatest⟩, f x, hMax x hLeast.1 hx,
    hf.map_isLeast hLeast⟩

/-- Both bounds are of a type. -/
def Typed (ia : Interval) (T : IntType) : Prop := ia.min.type = T ∧ ia.max.type = T

section Sides

variable {op : BinOp} {e a b v : Expr} {y : Int} {T : IntType}

theorem lane_bin_left (hBin : ∀ x ∈ S, evalBin .checked T op x y = some (opValue op x y))
    (hv : lane wrapping ρ v 0 = some y) (hType : a.type = T) (x : Int) (hx : x ∈ S)
      (ha : lane wrapping ρ a 0 = some x) :
    lane wrapping ρ (.bin op a v) 0 = some (opValue op x y) :=
  lane_bin_eq_some.mpr ⟨x, y, ha, hv, hType ▸ evalBin_wrapping (hBin x hx)⟩

theorem lane_bin_right (hBin : ∀ x ∈ S, evalBin .checked T op y x = some (opValue op y x))
    (hv : lane wrapping ρ v 0 = some y) (hType : v.type = T) (x : Int) (hx : x ∈ S)
      (hb : lane wrapping ρ b 0 = some x) :
    lane wrapping ρ (.bin op v b) 0 = some (opValue op y x) :=
  lane_bin_eq_some.mpr ⟨y, x, hv, hb, hType ▸ evalBin_wrapping (hBin x hx)⟩

/-- A value whose sign is known is not of the other one. -/
theorem sign_of_known (hKnown : signKnown v = true) (hSign : SignIs v y) :
    if v.is_positive_const = true then 0 ≤ y else y ≤ 0 := by
  split_ifs with hPos
  · exact hSign.1 hPos
  · refine hSign.2 ?_
    rw [signKnown, Bool.or_eq_true] at hKnown
    exact hKnown.resolve_left hPos

theorem Evaluates.leftOf {ρ₀ : Env} (h : ia.Evaluates ρ (values ρ₀ a)) (hTyped : ia.Typed a.type)
    (hv : lane wrapping ρ v 0 = some y) (hy : y ∈ values ρ₀ v)
    (hBin : ∀ x ∈ values ρ₀ a, evalBin .checked a.type op x y = some (opValue op x y))
    (hImage : values ρ₀ e = (fun x => opValue op x y) '' values ρ₀ a) (hOp : op ≠ .mod)
    (hTruth : op = .and ∨ op = .or → Truth (values ρ₀ a))
    (hKnown : op = .mul ∨ op = .div → signKnown v = true) (hRight : RightLeft ρ₀ op e a v) :
    (ia.leftOf op v).Evaluates ρ (values ρ₀ e) := by
  rw [hImage]
  have hMin := lane_bin_left hBin hv hTyped.1
  have hMax := lane_bin_left hBin hv hTyped.2
  have hFactor (hFactor : op = .mul ∨ op = .div) (hRight : SignRight ρ₀ v ∨ (values ρ₀ e).Subsingleton) :
      (if v.is_positive_const then ⟨.bin op ia.min v, .bin op ia.max v⟩
        else ⟨.bin op ia.max v, .bin op ia.min v⟩ : Interval).Evaluates ρ
          ((fun x => opValue op x y) '' values ρ₀ a) := by
    rw [hImage] at hRight
    have hSign (hSign : SignRight ρ₀ v) := sign_of_known (hKnown hFactor) (hSign y hy)
    split_ifs at hSign ⊢ with hPos
    · refine h.image ?_ hMin hMax
      exact hRight.elim (fun hRight => monotoneOn_of_nonneg hFactor (hSign hRight)) monotoneOn_of_subsingleton
    · refine h.image_antitone ?_ hMax hMin
      exact hRight.elim (fun hRight => antitoneOn_of_nonpos hFactor (hSign hRight)) antitoneOn_of_subsingleton
  cases op with
  | add | sub | min | max => exact h.image (monotoneOn_left (by simp)) hMin hMax
  | and => exact h.image (monotoneOn_truth (Or.inl rfl) (hTruth (Or.inl rfl))) hMin hMax
  | mul => exact hFactor (Or.inl rfl) hRight
  | div => exact hFactor (Or.inr rfl) hRight
  | or =>
    -- the conjunction is the disjunction, as both truth values are the same
    have hAnd (x : Int) (hx : x ∈ values ρ₀ a) (r : Expr) (hr : lane wrapping ρ r 0 = some x) :
        lane wrapping ρ (.bin .and r v) 0 = some (opValue .or x y) := by
      obtain rfl := hRight x hx y hy
      refine lane_bin_eq_some.mpr ⟨x, x, hr, hv, ?_⟩
      simp only [evalBin, opValue, and_self, or_self]
    exact h.image (monotoneOn_truth (Or.inr rfl) (hTruth (Or.inr rfl))) (fun x hx => hAnd x hx _)
      fun x hx => hAnd x hx _
  | mod => exact absurd rfl hOp

/-- Of these operations the broadcast value may as well be on the right. -/
theorem rightOf_eq_leftOf (hOp : op = .min ∨ op = .max ∨ op = .and ∨ op = .or) : ia.rightOf op v =
    ia.leftOf op v := by
  rcases hOp with rfl | rfl | rfl | rfl <;> rfl

theorem Evaluates.rightOf {ρ₀ : Env} (h : ia.Evaluates ρ (values ρ₀ b)) (hTyped : ia.Typed b.type)
    (hv : lane wrapping ρ v 0 = some y) (hy : y ∈ values ρ₀ v)
    (hBin : ∀ x ∈ values ρ₀ b, evalBin .checked v.type op y x = some (opValue op y x))
    (hImage : values ρ₀ e = (fun x => opValue op y x) '' values ρ₀ b) (hOp : op ≠ .mod ∧ op ≠ .div)
    (hTruth : op = .and ∨ op = .or → Truth (values ρ₀ b))
    (hKnown : op = .mul → signKnown v = true) (hRight : RightRight ρ₀ op e v b) :
    (ia.rightOf op v).Evaluates ρ (values ρ₀ e) := by
  have hMin := lane_bin_right (b := ia.min) hBin hv rfl
  have hMax := lane_bin_right (b := ia.max) hBin hv rfl
  have hSwap (hSwap : op = .min ∨ op = .max ∨ op = .and ∨ op = .or) (hRight : RightLeft ρ₀ op e b v) :
      (ia.rightOf op v).Evaluates ρ (values ρ₀ e) := by
    have hComm : (fun x => opValue op y x) = fun x => opValue op x y := funext fun x => opValue_comm (by tauto)
    rw [rightOf_eq_leftOf hSwap]
    refine h.leftOf hTyped hv hy (fun x _ => ?_) (hComm ▸ hImage) hOp.1 hTruth (fun hFactor => ?_) hRight
    · rcases hSwap with rfl | rfl | rfl | rfl <;> rfl
    · rcases hSwap with rfl | rfl | rfl | rfl <;> simp at hFactor
  cases op with
  | add => exact hImage ▸ h.image (fun x _ x' _ hle => Int.add_le_add_left hle y) hMin hMax
  | sub =>
    have hSub : (values ρ₀ b).Subsingleton := hRight
    have hMono := monotoneOn_of_subsingleton (hSub.image fun x => opValue .sub y x)
    obtain ⟨⟨x, -, hLeast⟩, x', hx', hGreatest⟩ := h
    obtain rfl := hSub hLeast.1 hGreatest.1
    rw [hImage]
    exact ⟨⟨_, hMax x hLeast.1 hx', hMono.map_isLeast hLeast⟩, _, hMax x hLeast.1 hx',
      hMono.map_isGreatest hGreatest⟩
  | mul =>
    have hComm : (fun x => opValue .mul y x) = fun x => opValue .mul x y := funext fun x => Int.mul_comm y x
    have hRight : SignRight ρ₀ v ∨ (values ρ₀ e).Subsingleton := hRight
    have hSign (hSign : SignRight ρ₀ v) := sign_of_known (hKnown rfl) (hSign y hy)
    rw [hImage] at hRight ⊢
    unfold Interval.rightOf
    split_ifs at hSign ⊢ with hPos
    · refine h.image ?_ hMin hMax
      exact hRight.elim (fun hRight => hComm ▸ monotoneOn_of_nonneg (Or.inl rfl) (hSign hRight))
        monotoneOn_of_subsingleton
    · refine h.image_antitone ?_ hMax hMin
      exact hRight.elim (fun hRight => hComm ▸ antitoneOn_of_nonpos (Or.inl rfl) (hSign hRight))
        antitoneOn_of_subsingleton
  | min => exact hSwap (by simp) trivial
  | max => exact hSwap (by simp) trivial
  | and => exact hSwap (by simp) trivial
  | or => exact hSwap (by simp) hRight
  | mod => exact absurd rfl hOp.1
  | div => exact absurd rfl hOp.2

end Sides

end Interval

end Vyasa.Lanes
