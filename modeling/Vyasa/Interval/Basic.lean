import Vyasa.IR.Eval
import Mathlib.Order.WithBot
import Mathlib.Order.WithBotTop

/-! Ranges between two expressions, either of which may be missing, and the
eagerly simplified minima and maxima that combine them. -/
namespace Vyasa

open Word IRMatch Vyasa.Expr

/-- An end of a range: an expression, or one of the two infinities. -/
inductive Bound where
  | negInf
  | posInf
  | expr (e : Expr)
deriving DecidableEq

namespace Bound

/-- The numbers a bound may stand for. -/
abbrev Extended : Type := WithBot (WithTop Int)

def eval (ρ : Env) : Bound → Option Extended
  | negInf => some ⊥
  | posInf => some ⊤
  | expr e => (exact ρ e).map fun v : Int => ((v : WithTop Int) : Extended)

/-- A change to the expression of a bound, where there is one. -/
def map (f : Expr → Expr) : Bound → Bound
  | expr e => expr (f e)
  | b => b

end Bound

section MinMax

/-- The two operands of a node of this kind. -/
def operandsOf (op : BinOp) : Expr → Option (Expr × Expr)
  | bin op' a b => if op' = op then some (a, b) else none
  | _ => none

/-- The value of a folded `max` or `min`. -/
def pick (op : BinOp) (a b : Int) : Int := if op = .max then Max.max a b else Min.min a b

/-- Rules of `make_max_helper` and `make_min_helper` in which the first operand is
such a node itself with a constant on the right. -/
def liftConst (op : BinOp) (a b : Expr) : Option Expr :=
  match operandsOf op a with
  | some (x, imm T v) =>
      match b with
      | imm _ w => some (bin op x (imm T (pick op v w)))
      | _ => some (bin op (bin op x b) (imm T v))
  | _ => none

/-- The second operand is such a node with a constant on the right. -/
def liftConstRight (op : BinOp) (a b : Expr) : Option Expr :=
  match operandsOf op b with
  | some (y, imm T v) => some (bin op (bin op a y) (imm T v))
  | _ => none

/-- One operand is such a node, of which the other one is an operand. -/
def absorb (op : BinOp) (a b : Expr) : Option Expr :=
  match operandsOf op a with
  | some (x, y) => if b = x ∨ b = y then some a else none
  | none => none

/-- The rules of `make_max_helper` and `make_min_helper` that are not about the
infinities. -/
def minMaxHelper (op : BinOp) (a b : Expr) : Expr :=
  match a, b with
  | imm T v, imm _ w => imm T (pick op v w)
  | imm T v, b => bin op b (imm T v)
  | a, b =>
      ((((liftConst op a b).or (liftConstRight op a b)).or (absorb op a b)).or
        (absorb op b a)).getD (bin op a b)

/-- `Interval::make_max` -/
def makeMax (a b : Bound) : Bound :=
  if a = b then a
  else match a, b with
    | _, .posInf | .posInf, _ => .posInf
    | a, .negInf => a
    | .negInf, b => b
    | .expr a, .expr b => .expr (minMaxHelper .max a b)

/-- `Interval::make_min` -/
def makeMin (a b : Bound) : Bound :=
  if a = b then a
  else match a, b with
    | a, .posInf => a
    | .posInf, b => b
    | _, .negInf | .negInf, _ => .negInf
    | .expr a, .expr b => .expr (minMaxHelper .min a b)

end MinMax

structure Interval where
  min : Bound := .negInf
  max : Bound := .posInf
deriving DecidableEq

namespace Interval

def everything : Interval := ⟨.negInf, .posInf⟩

def nothing : Interval := ⟨.posInf, .negInf⟩

def singlePoint (e : Expr) : Interval := ⟨.expr e, .expr e⟩

def isEmpty (i : Interval) : Bool := i.min = .posInf || i.max = .negInf

def isEverything (i : Interval) : Bool := i.min = .negInf && i.max = .posInf

def isSinglePoint (i : Interval) : Bool := i.min = i.max

def hasUpperBound (i : Interval) : Bool := i.max ≠ .posInf && !i.isEmpty

def hasLowerBound (i : Interval) : Bool := i.min ≠ .negInf && !i.isEmpty

def isBounded (i : Interval) : Bool := i.hasUpperBound && i.hasLowerBound

def makeUnion (a b : Interval) : Interval := ⟨makeMin a.min b.min, makeMax a.max b.max⟩

def makeIntersection (a b : Interval) : Interval := ⟨makeMax a.min b.min, makeMin a.max b.max⟩

/-- A change to the expressions of both bounds. -/
def map (f : Expr → Expr) (i : Interval) : Interval := ⟨i.min.map f, i.max.map f⟩

/-- A change to the bounds of a range that is not empty. -/
def mapFinite (f : Expr → Expr) (i : Interval) : Interval where
  min := if i.hasLowerBound then i.min.map f else i.min
  max := if i.hasUpperBound then i.max.map f else i.max

/-- The range is empty in no other way than `nothing` is. -/
def Proper (i : Interval) : Prop := i.min = .posInf ↔ i.max = .negInf

/-- The bounds at these values of the variables. -/
def Evals (ρ : Env) (i : Interval) (lo hi : Bound.Extended) : Prop :=
  i.min.eval ρ = some lo ∧ i.max.eval ρ = some hi

/-- The value lies in the range, the bounds of which have values. -/
def Has (ρ : Env) (i : Interval) (z : Int) : Prop :=
  ∃ lo hi, i.Evals ρ lo hi ∧ lo ≤ ((z : WithTop Int) : Bound.Extended) ∧
    ((z : WithTop Int) : Bound.Extended) ≤ hi

end Interval

section Values

variable {ρ : Env} {a b : Expr} {x y : Int} {op : BinOp}

theorem operandsOf_eq_some {e : Expr} (h : operandsOf op e = some (a, b)) : e = bin op a b := by
  unfold operandsOf at h
  split at h
  · split_ifs at h with hOp
    cases h
    rw [hOp]
  · cases h

theorem exact_bin_pick (hOp : op = .max ∨ op = .min) (ha : exact ρ a = some x)
    (hb : exact ρ b = some y) : exact ρ (bin op a b) = some (pick op x y) := by
  rw [exact, eval_bin ha hb op]
  rcases hOp with rfl | rfl <;> rfl

theorem exact_of_operandsOf {e : Expr} {v : Int} (hOp : op = .max ∨ op = .min)
    (h : operandsOf op e = some (a, b)) (he : exact ρ e = some v) :
    ∃ x y, exact ρ a = some x ∧ exact ρ b = some y ∧ v = pick op x y := by
  rw [operandsOf_eq_some h] at he
  obtain ⟨x, y, ha, hb, -⟩ := eval_bin_eq_some.mp he
  refine ⟨x, y, ha, hb, ?_⟩
  rw [exact_bin_pick hOp ha hb] at he
  exact (Option.some.inj he).symm

theorem pick_comm (op : BinOp) (x y : Int) : pick op x y = pick op y x := by
  unfold pick
  split_ifs
  · exact max_comm x y
  · exact min_comm x y

theorem pick_assoc (op : BinOp) (x y z : Int) :
    pick op (pick op x y) z = pick op x (pick op y z) := by
  unfold pick
  split_ifs
  · exact max_assoc x y z
  · exact min_assoc x y z

theorem pick_self (op : BinOp) (x : Int) : pick op x x = x := by
  unfold pick
  split_ifs
  · exact max_self x
  · exact min_self x

theorem exact_liftConst {e : Expr} (hOp : op = .max ∨ op = .min) (ha : exact ρ a = some x)
    (hb : exact ρ b = some y) (h : liftConst op a b = some e) :
    exact ρ e = some (pick op x y) := by
  unfold liftConst at h
  split at h
  case h_1 z T v hOperands =>
    obtain ⟨u, w, hz, hv, rfl⟩ := exact_of_operandsOf hOp hOperands ha
    cases hv
    split at h
    · cases h
      cases hb
      rw [pick_assoc]
      exact exact_bin_pick hOp hz rfl
    · cases h
      rw [pick_assoc, pick_comm op v y, ← pick_assoc]
      exact exact_bin_pick hOp (exact_bin_pick hOp hz hb) rfl
  case h_2 => cases h

theorem exact_liftConstRight {e : Expr} (hOp : op = .max ∨ op = .min) (ha : exact ρ a = some x)
    (hb : exact ρ b = some y) (h : liftConstRight op a b = some e) :
    exact ρ e = some (pick op x y) := by
  unfold liftConstRight at h
  split at h
  case h_1 z T v hOperands =>
    obtain ⟨u, w, hz, hv, rfl⟩ := exact_of_operandsOf hOp hOperands hb
    cases hv
    cases h
    rw [← pick_assoc]
    exact exact_bin_pick hOp (exact_bin_pick hOp ha hz) rfl
  case h_2 => cases h

theorem exact_absorb {e : Expr} (hOp : op = .max ∨ op = .min) (ha : exact ρ a = some x)
    (hb : exact ρ b = some y) (h : absorb op a b = some e) :
    exact ρ e = some (pick op x y) := by
  unfold absorb at h
  split at h
  case h_1 c d hOperands =>
    obtain ⟨u, w, hc, hd, rfl⟩ := exact_of_operandsOf hOp hOperands ha
    split_ifs at h with hSide
    cases h
    rw [ha]
    rcases hSide with rfl | rfl
    · cases hb.symm.trans hc
      rw [pick_comm op y w, pick_assoc, pick_self]
    · cases hb.symm.trans hd
      rw [pick_assoc, pick_self]
  case h_2 => cases h

theorem exact_minMaxHelper (hOp : op = .max ∨ op = .min) (ha : exact ρ a = some x)
    (hb : exact ρ b = some y) : exact ρ (minMaxHelper op a b) = some (pick op x y) := by
  unfold minMaxHelper
  split
  · cases ha
    cases hb
    rfl
  · rw [pick_comm]
    exact exact_bin_pick hOp hb ha
  · cases hLeft : liftConst op a b with
    | some e => exact exact_liftConst hOp ha hb hLeft
    | none =>
      cases hRight : liftConstRight op a b with
      | some e => exact exact_liftConstRight hOp ha hb hRight
      | none =>
        cases hFirst : absorb op a b with
        | some e => exact exact_absorb hOp ha hb hFirst
        | none =>
          cases hSecond : absorb op b a with
          | some e =>
            rw [pick_comm]
            exact exact_absorb hOp hb ha hSecond
          | none => exact exact_bin_pick hOp ha hb

/-- What holds of both operands of a node exactly if it holds of the node, and of
constants, holds of the simplified node. -/
theorem minMaxHelper_of {P : Expr → Prop} (hBin : ∀ a b, P (bin op a b) ↔ P a ∧ P b)
    (hImm : ∀ T v, P (imm T v)) (ha : P a) (hb : P b) : P (minMaxHelper op a b) := by
  have hLift (e : Expr) (h : liftConst op a b = some e) : P e := by
    unfold liftConst at h
    split at h
    case h_1 hOperands =>
      rw [operandsOf_eq_some hOperands, hBin] at ha
      split at h <;> cases h
      · exact (hBin _ _).mpr ⟨ha.1, hImm _ _⟩
      · exact (hBin _ _).mpr ⟨(hBin _ _).mpr ⟨ha.1, hb⟩, hImm _ _⟩
    case h_2 => cases h
  have hLiftRight (e : Expr) (h : liftConstRight op a b = some e) : P e := by
    unfold liftConstRight at h
    split at h
    case h_1 hOperands =>
      rw [operandsOf_eq_some hOperands, hBin] at hb
      cases h
      exact (hBin _ _).mpr ⟨(hBin _ _).mpr ⟨ha, hb.1⟩, hImm _ _⟩
    case h_2 => cases h
  have hAbsorb (c d e : Expr) (hc : P c) (h : absorb op c d = some e) : P e := by
    unfold absorb at h
    split at h
    · split_ifs at h
      cases h
      exact hc
    · cases h
  unfold minMaxHelper
  split
  · exact hImm _ _
  · exact (hBin _ _).mpr ⟨hb, hImm _ _⟩
  · cases hLeft : liftConst op a b with
    | some e => exact hLift e hLeft
    | none =>
      cases hRight : liftConstRight op a b with
      | some e => exact hLiftRight e hRight
      | none =>
        cases hFirst : absorb op a b with
        | some e => exact hAbsorb a b e ha hFirst
        | none =>
          cases hSecond : absorb op b a with
          | some e => exact hAbsorb b a e hb hSecond
          | none => exact (hBin _ _).mpr ⟨ha, hb⟩

end Values

namespace Bound

variable {ρ : Env} {a b : Bound} {x y : Extended}

theorem eval_expr_eq_some {e : Expr} : (expr e).eval ρ = some x ↔
    ∃ v : Int, exact ρ e = some v ∧ x = ((v : WithTop Int) : Extended) := by
  simp only [eval, Option.map_eq_some_iff]
  exact exists_congr fun v => and_congr_right fun _ => eq_comm

theorem coe_max (v w : Int) : (((Max.max v w : Int) : WithTop Int) : Extended) =
    Max.max ((v : WithTop Int) : Extended) ((w : WithTop Int) : Extended) := by
  rcases le_total v w with h | h
  · rw [max_eq_right h, max_eq_right (by exact_mod_cast h)]
  · rw [max_eq_left h, max_eq_left (by exact_mod_cast h)]

theorem coe_min (v w : Int) : (((Min.min v w : Int) : WithTop Int) : Extended) =
    Min.min ((v : WithTop Int) : Extended) ((w : WithTop Int) : Extended) := by
  rcases le_total v w with h | h
  · rw [min_eq_left h, min_eq_left (by exact_mod_cast h)]
  · rw [min_eq_right h, min_eq_right (by exact_mod_cast h)]

theorem eval_makeMax (ha : a.eval ρ = some x) (hb : b.eval ρ = some y) :
    (makeMax a b).eval ρ = some (Max.max x y) := by
  unfold makeMax
  split_ifs with hEq
  · subst hEq
    cases ha.symm.trans hb
    rw [max_self, ha]
  · split
    · cases hb
      rw [max_top_right]
      rfl
    · cases ha
      rw [max_top_left]
      rfl
    · cases hb
      rw [max_bot_right, ha]
    · cases ha
      rw [max_bot_left, hb]
    · obtain ⟨v, hv, rfl⟩ := eval_expr_eq_some.mp ha
      obtain ⟨w, hw, rfl⟩ := eval_expr_eq_some.mp hb
      rw [eval_expr_eq_some]
      exact ⟨_, exact_minMaxHelper (Or.inl rfl) hv hw, (coe_max v w).symm⟩

theorem eval_makeMin (ha : a.eval ρ = some x) (hb : b.eval ρ = some y) :
    (makeMin a b).eval ρ = some (Min.min x y) := by
  unfold makeMin
  split_ifs with hEq
  · subst hEq
    cases ha.symm.trans hb
    rw [min_self, ha]
  · split
    · cases hb
      rw [min_top_right, ha]
    · cases ha
      rw [min_top_left, hb]
    · cases hb
      rw [min_bot_right]
      rfl
    · cases ha
      rw [min_bot_left]
      rfl
    · obtain ⟨v, hv, rfl⟩ := eval_expr_eq_some.mp ha
      obtain ⟨w, hw, rfl⟩ := eval_expr_eq_some.mp hb
      rw [eval_expr_eq_some]
      exact ⟨_, exact_minMaxHelper (Or.inr rfl) hv hw, (coe_min v w).symm⟩

/-- A property of expressions, for the expression of a bound if there is one. -/
def Satisfies (P : Expr → Prop) : Bound → Prop
  | expr e => P e
  | _ => True

theorem makeMax_satisfies {P : Expr → Prop} (hBin : ∀ a b, P (bin .max a b) ↔ P a ∧ P b)
    (hImm : ∀ T v, P (imm T v)) (ha : a.Satisfies P) (hb : b.Satisfies P) :
    (makeMax a b).Satisfies P := by
  unfold makeMax
  split_ifs
  · exact ha
  · split
    · trivial
    · trivial
    · exact ha
    · exact hb
    · exact minMaxHelper_of hBin hImm ha hb

theorem makeMin_satisfies {P : Expr → Prop} (hBin : ∀ a b, P (bin .min a b) ↔ P a ∧ P b)
    (hImm : ∀ T v, P (imm T v)) (ha : a.Satisfies P) (hb : b.Satisfies P) :
    (makeMin a b).Satisfies P := by
  unfold makeMin
  split_ifs
  · exact ha
  · split
    · exact ha
    · exact hb
    · trivial
    · trivial
    · exact minMaxHelper_of hBin hImm ha hb

theorem makeMax_eq_posInf : makeMax a b = posInf ↔ a = posInf ∨ b = posInf := by
  unfold makeMax
  split_ifs with h
  · subst h
    simp
  · cases a <;> cases b <;> simp_all

theorem makeMax_eq_negInf : makeMax a b = negInf ↔ a = negInf ∧ b = negInf := by
  unfold makeMax
  split_ifs with h
  · subst h
    simp
  · cases a <;> cases b <;> simp_all

theorem makeMin_eq_posInf : makeMin a b = posInf ↔ a = posInf ∧ b = posInf := by
  unfold makeMin
  split_ifs with h
  · subst h
    simp
  · cases a <;> cases b <;> simp_all

theorem makeMin_eq_negInf : makeMin a b = negInf ↔ a = negInf ∨ b = negInf := by
  unfold makeMin
  split_ifs with h
  · subst h
    simp
  · cases a <;> cases b <;> simp_all

end Bound

namespace Interval

variable {ρ : Env} {i j : Interval} {lo hi lo' hi' : Bound.Extended}

theorem evals_makeUnion (h : i.Evals ρ lo hi) (h' : j.Evals ρ lo' hi') :
    (makeUnion i j).Evals ρ (Min.min lo lo') (Max.max hi hi') :=
  ⟨Bound.eval_makeMin h.1 h'.1, Bound.eval_makeMax h.2 h'.2⟩

theorem evals_makeIntersection (h : i.Evals ρ lo hi) (h' : j.Evals ρ lo' hi') :
    (makeIntersection i j).Evals ρ (Max.max lo lo') (Min.min hi hi') :=
  ⟨Bound.eval_makeMax h.1 h'.1, Bound.eval_makeMin h.2 h'.2⟩

theorem proper_makeUnion (h : i.Proper) (h' : j.Proper) : (makeUnion i j).Proper := by
  unfold Proper makeUnion at *
  rw [Bound.makeMin_eq_posInf, Bound.makeMax_eq_negInf, h, h']

theorem proper_makeIntersection (h : i.Proper) (h' : j.Proper) :
    (makeIntersection i j).Proper := by
  unfold Proper makeIntersection at *
  rw [Bound.makeMax_eq_posInf, Bound.makeMin_eq_negInf, h, h']

/-- A property of expressions, for those of the bounds. -/
def Satisfies (P : Expr → Prop) (i : Interval) : Prop := i.min.Satisfies P ∧ i.max.Satisfies P

section Satisfies

variable {P : Expr → Prop} (hBin : ∀ op a b, P (bin op a b) ↔ P a ∧ P b)
  (hImm : ∀ T v, P (imm T v))

include hBin hImm

theorem satisfies_makeUnion (h : i.Satisfies P) (h' : j.Satisfies P) :
    (makeUnion i j).Satisfies P :=
  ⟨Bound.makeMin_satisfies (hBin .min) hImm h.1 h'.1,
    Bound.makeMax_satisfies (hBin .max) hImm h.2 h'.2⟩

theorem satisfies_makeIntersection (h : i.Satisfies P) (h' : j.Satisfies P) :
    (makeIntersection i j).Satisfies P :=
  ⟨Bound.makeMax_satisfies (hBin .max) hImm h.1 h'.1,
    Bound.makeMin_satisfies (hBin .min) hImm h.2 h'.2⟩

end Satisfies

theorem satisfies_map {P Q : Expr → Prop} {f : Expr → Expr} (h : i.Satisfies P)
    (hf : ∀ e, P e → Q (f e)) : (i.map f).Satisfies Q := by
  obtain ⟨⟨⟩ | ⟨⟩ | e, ⟨⟩ | ⟨⟩ | e'⟩ := i <;>
    exact ⟨by first | trivial | exact hf _ h.1, by first | trivial | exact hf _ h.2⟩

theorem mapFinite_eq_map {f : Expr → Expr} (h : i.Proper) : i.mapFinite f = i.map f := by
  unfold Proper at h
  obtain ⟨lower, upper⟩ := i
  cases lower <;> cases upper <;>
    simp_all [mapFinite, map, hasLowerBound, hasUpperBound, isEmpty, Bound.map]

theorem proper_map {f : Expr → Expr} (h : i.Proper) : (i.map f).Proper := by
  unfold Proper at *
  obtain ⟨lower, upper⟩ := i
  cases lower <;> cases upper <;> simp_all [map, Bound.map]

theorem evals_map {ρ' : Env} {f : Expr → Expr} (h : i.Evals ρ' lo hi)
    (hf : i.Satisfies fun e => exact ρ (f e) = exact ρ' e) : (i.map f).Evals ρ lo hi := by
  have hBound (b : Bound) (hb : b.Satisfies fun e => exact ρ (f e) = exact ρ' e) :
      (b.map f).eval ρ = b.eval ρ' := by
    cases b with
    | expr e => exact congrArg (Option.map _) hb
    | negInf | posInf => rfl
  exact ⟨(hBound _ hf.1).trans h.1, (hBound _ hf.2).trans h.2⟩

theorem satisfies_of_forall {P : Expr → Prop} (h : ∀ e, P e) (i : Interval) : i.Satisfies P := by
  obtain ⟨⟨⟩ | ⟨⟩ | e, ⟨⟩ | ⟨⟩ | e'⟩ := i <;> exact ⟨by first | trivial | exact h _,
    by first | trivial | exact h _⟩

theorem Satisfies.imp {P Q : Expr → Prop} (h : i.Satisfies P) (hImp : ∀ e, P e → Q e) :
    i.Satisfies Q := by
  obtain ⟨⟨⟩ | ⟨⟩ | e, ⟨⟩ | ⟨⟩ | e'⟩ := i <;> exact ⟨by first | trivial | exact hImp _ h.1,
    by first | trivial | exact hImp _ h.2⟩

theorem Evals.lo_eq_bot (h : i.Evals ρ lo hi) (hMin : i.min = .negInf) : lo = ⊥ := by
  have hLo := h.1
  rw [hMin] at hLo
  exact (Option.some.inj hLo).symm

theorem Evals.hi_eq_top (h : i.Evals ρ lo hi) (hMax : i.max = .posInf) : hi = ⊤ := by
  have hHi := h.2
  rw [hMax] at hHi
  exact (Option.some.inj hHi).symm

theorem Evals.unique (h : i.Evals ρ lo hi) (h' : i.Evals ρ lo' hi') : lo = lo' ∧ hi = hi' :=
  ⟨Option.some.inj (h.1.symm.trans h'.1), Option.some.inj (h.2.symm.trans h'.2)⟩

end Interval

end Vyasa
