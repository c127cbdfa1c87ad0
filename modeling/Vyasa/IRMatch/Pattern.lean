import Vyasa.Word.IntType

/-! The patterns of `IRMatch.h`, the constants their folding produces and the
values they stand for. Truth values are `0` and `1`. A constant that folds to the
signed overflow or the indeterminate marker, or whose division traps, is `none`. -/
namespace Vyasa.IRMatch

open Word

inductive BinOp where
  | add | sub | mul | div | mod | min | max | and | or
deriving DecidableEq, Repr

inductive CmpOp where
  | lt | le | gt | ge | eq | ne
deriving DecidableEq, Repr

inductive Intrinsic where
  | likely | likelyIfInnermost
deriving DecidableEq, Repr

/-- `operandA` and `operandB` are the operands of the instance being matched,
which a rule may name as its result. -/
inductive Pattern where
  | wild (i : Nat)
  | wildConst (i : Nat)
  | const (v : Int)
  | bin (op : BinOp) (a b : Pattern)
  | cmp (op : CmpOp) (a b : Pattern)
  | not (a : Pattern)
  | select (c t f : Pattern)
  | ramp (a b : Pattern)
  | broadcast (a : Pattern)
  | negate (a : Pattern)
  | intrin (op : Intrinsic) (a : Pattern)
  | fold (a : Pattern)
  | overflows (a : Pattern)
  | isConst (a : Pattern)
  | canProve (a : Pattern)
  | indeterminate
  | overflow
  | operandA
  | operandB
deriving DecidableEq, Repr

namespace Pattern

abbrev x : Pattern := wild 0
abbrev y : Pattern := wild 1
abbrev z : Pattern := wild 2
abbrev w : Pattern := wild 3
abbrev u : Pattern := wild 4
abbrev v : Pattern := wild 5
abbrev c0 : Pattern := wildConst 0
abbrev c1 : Pattern := wildConst 1
abbrev c2 : Pattern := wildConst 2
abbrev c3 : Pattern := wildConst 3

instance : Add Pattern := ⟨bin .add⟩
instance : Sub Pattern := ⟨bin .sub⟩
instance : Mul Pattern := ⟨bin .mul⟩
instance : Div Pattern := ⟨bin .div⟩
instance : Mod Pattern := ⟨bin .mod⟩
instance : Neg Pattern := ⟨negate⟩
instance : Min Pattern := ⟨bin .min⟩
instance : Max Pattern := ⟨bin .max⟩
instance : AndOp Pattern := ⟨bin .and⟩
instance : OrOp Pattern := ⟨bin .or⟩
instance : Complement Pattern := ⟨not⟩
instance (n : Nat) : OfNat Pattern n := ⟨const n⟩

abbrev lt (a b : Pattern) : Pattern := cmp .lt a b
abbrev le (a b : Pattern) : Pattern := cmp .le a b
abbrev gt (a b : Pattern) : Pattern := cmp .gt a b
abbrev ge (a b : Pattern) : Pattern := cmp .ge a b
abbrev eq (a b : Pattern) : Pattern := cmp .eq a b
abbrev ne (a b : Pattern) : Pattern := cmp .ne a b

/-- The operands that `operandA` and `operandB` name. -/
def operands : Pattern → Pattern × Pattern
  | bin _ a b => (a, b)
  | cmp _ a b => (a, b)
  | p => (p, p)

def instantiate (l r : Pattern) : Pattern → Pattern
  | operandA => l
  | operandB => r
  | bin op a b => bin op (instantiate l r a) (instantiate l r b)
  | cmp op a b => cmp op (instantiate l r a) (instantiate l r b)
  | not a => not (instantiate l r a)
  | select c t f => select (instantiate l r c) (instantiate l r t) (instantiate l r f)
  | ramp a b => ramp (instantiate l r a) (instantiate l r b)
  | broadcast a => broadcast (instantiate l r a)
  | negate a => negate (instantiate l r a)
  | intrin op a => intrin op (instantiate l r a)
  | p => p

def wilds : Pattern → List Nat
  | wild i => [i]
  | bin _ a b => a.wilds ++ b.wilds
  | cmp _ a b => a.wilds ++ b.wilds
  | not a => a.wilds
  | select c t f => c.wilds ++ t.wilds ++ f.wilds
  | ramp a b => a.wilds ++ b.wilds
  | broadcast a => a.wilds
  | negate a => a.wilds
  | intrin _ a => a.wilds
  | _ => []

/-- The wildcards that are bound below a ramp or a broadcast, hence scalar. -/
def scalars : Pattern → List Nat
  | ramp a b => a.wilds ++ b.wilds
  | broadcast a => a.wilds
  | bin _ a b => a.scalars ++ b.scalars
  | cmp _ a b => a.scalars ++ b.scalars
  | not a => a.scalars
  | select c t f => c.scalars ++ t.scalars ++ f.scalars
  | negate a => a.scalars
  | intrin _ a => a.scalars
  | _ => []

end Pattern

def evalCmp : CmpOp → Int → Int → Int
  | .lt, a, b => if a < b then 1 else 0
  | .le, a, b => if a ≤ b then 1 else 0
  | .gt, a, b => if b < a then 1 else 0
  | .ge, a, b => if b ≤ a then 1 else 0
  | .eq, a, b => if a = b then 1 else 0
  | .ne, a, b => if a = b then 0 else 1

/-- Signed arithmetic is not allowed to overflow at 32 bits and up. -/
def noOverflowInt (T : IntType) : Bool := T.signed && 32 ≤ T.bits

/-- The shared tail of `constant_fold_bin_op` for `Add`, `Sub` and `Mul`: set the
overflow flag, or drop the high bits. -/
def foldArith (T : IntType) (r : Int) : Option Int :=
  if noOverflowInt T ∧ ¬ T.Has r then none else some (T.wrap r)

/-- The one quotient of two signed words that traps. -/
def Traps (T : IntType) (a b : Int) : Prop := T.signed = true ∧ a = -2 ^ 63 ∧ b = -1

instance (T : IntType) (a b : Int) : Decidable (Traps T a b) :=
  inferInstanceAs (Decidable (_ ∧ _ ∧ _))

/-- `constant_fold_bin_op`, on integers that stand for the 64-bit words. -/
def constantFoldBinOp (T : IntType) : BinOp → Int → Int → Option Int
  | .add, a, b => foldArith T (a + b)
  | .sub, a, b => foldArith T (a - b)
  | .mul, a, b => foldArith T (a * b)
  | .div, a, b => if b = 0 ∨ Traps T a b then none else some (a / b)
  | .mod, a, b => if b = 0 ∨ Traps T a b then none else some (a % b)
  | .min, a, b => some (min a b)
  | .max, a, b => some (max a b)
  | .and, a, b => some (if a % 2 = 1 ∧ b % 2 = 1 then 1 else 0)
  | .or, a, b => some (if a % 2 = 1 ∨ b % 2 = 1 then 1 else 0)

/-- `make_folded_const`, with the prover that `can_prove` asks. -/
def constantFold (T : IntType) (cs : Nat → Int) (isConst : Nat → Bool) (prove : Pattern → Bool) :
    Pattern → Option Int
  | .wildConst i => some (cs i)
  | .const v => some v
  | .bin op a b => do
      let va ← constantFold T cs isConst prove a
      if (op = .and ∧ va = 0) ∨ (op = .or ∧ va = 1) then return va
      constantFoldBinOp T op va (← constantFold T cs isConst prove b)
  | .cmp op a b => do
      return evalCmp op (← constantFold T cs isConst prove a) (← constantFold T cs isConst prove b)
  | .not a => do
      let va ← constantFold T cs isConst prove a
      return if va % 2 = 0 then 1 else 0
  | .negate a => do
      let va ← constantFold T cs isConst prove a
      if noOverflowInt T ∧ va = T.min then none else some (T.wrap (-va))
  | .fold a => constantFold T cs isConst prove a
  | .overflows a => some (if constantFold T cs isConst prove a = none then 1 else 0)
  | .isConst (.wild i) => some (if isConst i then 1 else 0)
  | .canProve a => some (if prove a then 1 else 0)
  | _ => none

/-- Overflow counts as a failed predicate. -/
def evaluatePredicate (T : IntType) (cs : Nat → Int) (isConst : Nat → Bool) (prove : Pattern → Bool)
    (p : Pattern) : Bool :=
  match constantFold T cs isConst prove p with
  | some v => v ≠ 0
  | none => false

theorem evaluatePredicate_iff {T : IntType} {cs : Nat → Int} {isConst : Nat → Bool}
    {prove : Pattern → Bool} {p : Pattern} : evaluatePredicate T cs isConst prove p = true ↔
      ∃ v, constantFold T cs isConst prove p = some v ∧ v ≠ 0 := by
  unfold evaluatePredicate
  cases constantFold T cs isConst prove p <;> simp

/-- How the arithmetic of an expression is read: wrapping around, over the
integers with a check that every result is a value of the type, or without. -/
inductive Mode where
  | wrapping | checked | exact
deriving DecidableEq, Repr

/-- How an expression of the type is evaluated where its value is asked for: at a
width that may not overflow, its operations are checked. -/
def sourceMode (T : IntType) : Mode := if noOverflowInt T then .checked else .wrapping

/-- How a replacement is evaluated: over the integers where the type may not
overflow. -/
def targetMode (T : IntType) : Mode := if noOverflowInt T then .exact else .wrapping

/-- A literal of a pattern is made with the width of the type. -/
def literal (m : Mode) (T : IntType) (v : Int) : Int :=
  match m with
  | .wrapping => T.wrap v
  | _ => v

def arith (m : Mode) (T : IntType) (r : Int) : Option Int :=
  match m with
  | .wrapping => some (T.wrap r)
  | .checked => if T.Has r then some r else none
  | .exact => some r

def evalBin (m : Mode) (T : IntType) : BinOp → Int → Int → Option Int
  | .add, a, b => arith m T (a + b)
  | .sub, a, b => arith m T (a - b)
  | .mul, a, b => arith m T (a * b)
  | .div, a, b => if b = 0 then none else arith m T (a / b)
  | .mod, a, b => if b = 0 then none else some (a % b)
  | .min, a, b => some (min a b)
  | .max, a, b => some (max a b)
  | .and, a, b => some (if a ≠ 0 ∧ b ≠ 0 then 1 else 0)
  | .or, a, b => some (if a ≠ 0 ∨ b ≠ 0 then 1 else 0)

/-- The value of a pattern in one lane. A folded constant is made with the type's
width; no value comes out of a marker, a zero divisor or a failed check. -/
def eval (m : Mode) (T : IntType) (cs : Nat → Int) (ws : Nat → Nat → Int) (lane : Nat) :
    Pattern → Option Int
  | .wild i => some (ws i lane)
  | .wildConst i => some (cs i)
  | .const v => some (literal m T v)
  | .bin op a b => do evalBin m T op (← eval m T cs ws lane a) (← eval m T cs ws lane b)
  | .cmp op a b => do return evalCmp op (← eval m T cs ws lane a) (← eval m T cs ws lane b)
  | .not a => do return if (← eval m T cs ws lane a) = 0 then 1 else 0
  | .select c t f => do
      let vc ← eval m T cs ws lane c
      let vt ← eval m T cs ws lane t
      let vf ← eval m T cs ws lane f
      return if vc ≠ 0 then vt else vf
  | .ramp a b => do arith m T ((← eval m T cs ws 0 a) + lane * (← eval m T cs ws 0 b))
  | .broadcast a => eval m T cs ws 0 a
  | .negate a => do arith m T (-(← eval m T cs ws lane a))
  | .intrin _ a => eval m T cs ws lane a
  | .fold a => (constantFold T cs (fun _ => false) (fun _ => false) a).map T.wrap
  | _ => none

/-- A call of the rewriter: an instance that matches `before` and satisfies the
predicate is replaced by `after`. -/
structure Rule where
  before : Pattern
  after : Pattern
  predicate : Pattern := .const 1
deriving DecidableEq, Repr

abbrev rewrite (before after : Pattern) (predicate : Pattern := .const 1) : Rule :=
  ⟨before, after, predicate⟩

/-- The replacement, with the instance's operands in their places. -/
def Rule.replacement (r : Rule) : Pattern :=
  Pattern.instantiate r.before.operands.1 r.before.operands.2 r.after

/-- Values for the wildcards of a rule, and which of them are constants. -/
structure Wilds where
  value : Nat → Nat → Int
  isConst : Nat → Bool := fun _ => false

/-- Every wildcard has a value of the type in every lane, the same one in every
lane where it is scalar. -/
def Wilds.Typed (T : IntType) (before : Pattern) (ws : Wilds) : Prop :=
  (∀ i lane, T.Has (ws.value i lane)) ∧
    ∀ i ∈ before.scalars, ∀ lane, ws.value i lane = ws.value i 0

/-- The strongest prover there could be: it proves what is true in every lane. -/
def proves (T : IntType) (lanes : Nat) (cs : Nat → Int) (ws : Wilds) (p : Pattern) : Bool :=
  ∀ lane < lanes, ∃ v ∈ eval .exact T cs ws.value lane p, v ≠ 0

/-- The rule can fire on these constants and values, and the expression it
replaces has a value in every lane. -/
def Rule.Applies (m : Mode) (T : IntType) (lanes : Nat) (r : Rule) (cs : Nat → Int) (ws : Wilds) :
    Prop :=
  ws.Typed T r.before ∧
    evaluatePredicate T cs ws.isConst (proves T lanes cs ws) r.predicate = true ∧
    ∀ lane < lanes, ∃ v, eval m T cs ws.value lane r.before = some v

/-- For these constants, whenever the rule applies its replacement has the value
of what it replaces, lane by lane. -/
def Rule.SoundAt (m m' : Mode) (T : IntType) (lanes : Nat) (r : Rule) (cs : Nat → Int) : Prop :=
  ∀ ws : Wilds, r.Applies m T lanes cs ws → ∀ lane < lanes,
    eval m' T cs ws.value lane r.replacement = eval m T cs ws.value lane r.before

end Vyasa.IRMatch
