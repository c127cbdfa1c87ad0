import Vyasa.Graph.Redirect
import Vyasa.IR.Expr
import Vyasa.Simplify.ExprInfo
import Mathlib.Order.Filter.AtTopBot.Basic
import Mathlib.Order.Filter.Finite

/-! The facts that the simplifier learns from conditions, the scopes it keeps them
in, and the visit of a variable, which mutates what replaces the variable. -/
namespace Vyasa.Simplify

open Word Vyasa.Expr Graph Relation

/-- `Scope`: a stack of values for each name, the inner ones first. -/
@[ext] structure Scope (α : Type) where
  stack : Name → List α := fun _ => []

namespace Scope

variable {α : Type}

def push (scope : Scope α) (name : Name) (value : α) : Scope α :=
  { stack := Function.update scope.stack name (value :: scope.stack name) }

def pop (scope : Scope α) (name : Name) : Scope α :=
  { stack := Function.update scope.stack name (scope.stack name).tail }

def get (scope : Scope α) (name : Name) : Option α := (scope.stack name).head?

def contains (scope : Scope α) (name : Name) : Bool := (scope.get name).isSome

def popAll (scope : Scope α) (names : List Name) : Scope α := names.foldl pop scope

@[simp] theorem get_push_self (scope : Scope α) (name : Name) (value : α) :
    (scope.push name value).get name = some value := by
  simp [push, get]

theorem get_push_of_ne {scope : Scope α} {name other : Name} {value : α} (h : other ≠ name) :
    (scope.push name value).get other = scope.get other := by
  simp [push, get, Function.update_of_ne h]

theorem popAll_stack (scope : Scope α) (names : List Name) (name : Name) :
    (scope.popAll names).stack name = (scope.stack name).drop (names.count name) := by
  induction names generalizing scope with
  | nil => rfl
  | cons n names ih =>
    rw [popAll, List.foldl_cons, ← popAll, ih, pop, List.count_cons]
    by_cases h : n = name
    · subst h
      simp [List.drop_drop, ← List.drop_one, Nat.add_comm]
    · simp [h, Function.update_of_ne (Ne.symm h)]

/-- Pops find the values by name, so the last of them undoes the last push. -/
theorem popAll_push (scope : Scope α) (names : List Name) (name : Name) (value : α) :
    (scope.push name value).popAll (names ++ [name]) = scope.popAll names := by
  ext1
  funext other
  rw [popAll_stack, popAll_stack, List.count_append, push]
  by_cases h : other = name
  · subst h
    simp
  · simp [Function.update_of_ne h, Ne.symm h]

end Scope

/-- What is known of a variable. The counts of its uses are left out. -/
structure VarInfo where
  replacement : Option Expr := none

/-- The scopes of the simplifier. -/
structure Facts where
  varInfo : Scope VarInfo := {}
  boundsAndAlignmentInfo : Scope ExprInfo := {}
  truths : List Expr := []
  falsehoods : List Expr := []

/-- What a learned fact pushed, for its destructor. -/
structure ScopedFact where
  popList : List Name := []
  boundsPopList : List Name := []
  truths : List Expr := []
  falsehoods : List Expr := []

/-- A scoped fact and the simplifier it learns for. -/
structure Learning where
  simplify : Facts
  fact : ScopedFact := {}

/-- `as_const_int`, which is not defined on unsigned constants. -/
def asConstInt : Expr → Option Int64
  | imm T v => if T.signed then some (Int64.ofInt v) else none
  | _ => none

/-- `~ScopedFact` -/
def ScopedFact.destroy (fact : ScopedFact) (simplify : Facts) : Facts where
  varInfo := simplify.varInfo.popAll fact.popList
  boundsAndAlignmentInfo := simplify.boundsAndAlignmentInfo.popAll fact.boundsPopList
  truths := simplify.truths.filter (· ∉ fact.truths)
  falsehoods := simplify.falsehoods.filter (· ∉ fact.falsehoods)

namespace Learning

def learnReplacement (v : Name) (replacement : Expr) (l : Learning) : Learning where
  simplify := { l.simplify with
    varInfo := l.simplify.varInfo.push v { replacement := some replacement } }
  fact := { l.fact with popList := l.fact.popList ++ [v] }

/-- What is already known about the variable is mixed in. -/
def mixInKnown (l : Learning) (v : Name) (info : ExprInfo) : Option ExprInfo :=
  match l.simplify.boundsAndAlignmentInfo.get v with
  | some existing => info.intersect existing
  | none => some info

def learnInfo (v : Name) (info : ExprInfo) (l : Learning) : Option Learning :=
  (l.mixInKnown v info).map fun info => {
    simplify := { l.simplify with
      boundsAndAlignmentInfo := l.simplify.boundsAndAlignmentInfo.push v info }
    fact := { l.fact with boundsPopList := l.fact.boundsPopList ++ [v] } }

def learnUpperBound (v : Name) (val : Int64) : Learning → Option Learning :=
  learnInfo v { maxDefined := true, max := val }

def learnLowerBound (v : Name) (val : Int64) : Learning → Option Learning :=
  learnInfo v { minDefined := true, min := val }

/-- The first side is a variable and the other a constant. -/
def learnSide (a b : Expr) (learn : Name → Int64 → Learning → Option Learning) (l : Learning) :
    Option Learning :=
  match a, asConstInt b with
  | .var _ v, some i => learn v i l
  | _, _ => some l

/-- An ordering of a variable and a constant, on either side. -/
def learnOrder (a b : Expr) (left right : Name → Int64 → Learning → Option Learning)
    (l : Learning) : Option Learning :=
  (learnSide a b left l).bind (learnSide b a right)

/-- `x % modulus == remainder` -/
def learnAlignment (a b : Expr) (l : Learning) : Option Learning :=
  match a with
  | .bin .mod (.var _ v) m =>
      match asConstInt m, asConstInt b with
      | some modulus, some remainder =>
          learnInfo v { alignment := ⟨modulus, remainder⟩ } l
      | _, _ => some l
  | _ => some l

def learnTruth (fact : Expr) (l : Learning) : Learning :=
  if fact ∈ l.simplify.truths then l
  else
    { simplify := { l.simplify with truths := fact :: l.simplify.truths }
      fact := { l.fact with truths := l.fact.truths ++ [fact] } }

def learnFalsehood (fact : Expr) (l : Learning) : Learning :=
  if fact ∈ l.simplify.falsehoods then l
  else
    { simplify := { l.simplify with falsehoods := fact :: l.simplify.falsehoods }
      fact := { l.fact with falsehoods := l.fact.falsehoods ++ [fact] } }

/-- The side of an equality that replaces a variable whole. -/
def replaces : Expr → Bool
  | .var _ _ => true
  | e => e.isConst

section Learn

-- `simplify->mutate(eq->b, &expr_info)`, of which the bounds and alignment are kept.
variable (mutateInfo : Facts → Expr → ExprInfo)

def learnEQ (a b : Expr) (l : Learning) : Option Learning :=
  match a with
  | .var T v =>
      if replaces b then some (l.learnReplacement v b)
      else if T.signed then learnInfo v (mutateInfo l.simplify b) l
      else some l
  | _ => learnAlignment a b l

mutual

def learnTrue : Expr → Learning → Option Learning
  | .var _ v, l => some (l.learnReplacement v constTrue)
  | .cmp .eq a b, l => learnEQ mutateInfo a b l
  | .cmp .lt a b, l =>
      learnOrder a b (fun v i => learnUpperBound v (i - 1)) (fun v i => learnLowerBound v (i + 1)) l
  | .cmp .le a b, l => learnOrder a b learnUpperBound learnLowerBound l
  | .bin .and a b, l => do learnTrue b (← learnTrue a l)
  | .not a, l => learnFalse a l
  | fact, l => some (l.learnTruth fact)

def learnFalse : Expr → Learning → Option Learning
  | .var _ v, l => some (l.learnReplacement v constFalse)
  | .cmp .ne a b, l =>
      match a with
      | .var _ v => some (if b.isConst then l.learnReplacement v b else l)
      | _ => some l
  | .cmp .lt a b, l => learnOrder a b learnLowerBound learnUpperBound l
  | .cmp .le a b, l =>
      learnOrder a b (fun v i => learnLowerBound v (i + 1)) (fun v i => learnUpperBound v (i - 1)) l
  | .bin .or a b, l => do learnFalse b (← learnFalse a l)
  | .not a, l => learnTrue a l
  | fact, l => some (l.learnFalsehood fact)

end

end Learn

end Learning

section Visit

/-- The visitors of all nodes, over the visitor of variables. They return wherever
the variables they meet do. -/
structure Visitors where
  mutate : (IntType → Name → Option Expr) → Expr → Option Expr
  mutate_var : ∀ visit T name, mutate visit (var T name) = visit T name
  returns : ∀ visit e, (∀ name, e.mentions name → ∀ T, (visit T name).isSome) →
    (mutate visit e).isSome

/-- `visit(const Variable *)`, to a depth of nested replacements. -/
def visitVariable (visitors : Visitors) (simplify : Facts) : Nat → IntType → Name → Option Expr
  | 0, _, _ => none
  | depth + 1, T, name =>
      let replaced := match simplify.varInfo.get name with
        | some { replacement := some replacement } =>
            visitors.mutate (visitVariable visitors simplify depth) replacement
        | _ => some (var T name)
      match simplify.boundsAndAlignmentInfo.get name with
      | some b =>
          if b.minDefined && b.maxDefined && b.min = b.max then some (makeConst T b.min.toInt)
          else replaced
      | none => replaced

end Visit

section Run

/-- What a scope of the traversal undoes when it is left. -/
inductive Frame where
  | fact (fact : ScopedFact)
  | variable (name : Name)
  | tracked (name : Name)

/-- The scopes of the simplifier, and those of the traversal it is in. -/
structure State where
  simplify : Facts := {}
  frames : List Frame := []

inductive Step where
  /-- The scope of a condition is entered. -/
  | enter
  | learnTrue (fact : Expr)
  | learnFalse (fact : Expr)
  /-- A let is entered, with what replaces its name. -/
  | bind (name : Name) (info : VarInfo)
  /-- The bounds of a let or of a loop variable are kept. -/
  | track (name : Name) (info : ExprInfo)
  /-- The innermost scope is left. -/
  | leave

variable (mutateInfo : Facts → Expr → ExprInfo)

/-- A fact is learned in the innermost scope, which is that of a condition. -/
def State.learn (s : State) (learn : Learning → Option Learning) : Option State :=
  match s.frames with
  | .fact fact :: frames => do
      let l ← learn { simplify := s.simplify, fact := fact }
      return { simplify := l.simplify, frames := .fact l.fact :: frames }
  | _ => none

def Frame.leave (simplify : Facts) : Frame → Facts
  | .fact learned => learned.destroy simplify
  | .variable name => { simplify with varInfo := simplify.varInfo.pop name }
  | .tracked name =>
      { simplify with boundsAndAlignmentInfo := simplify.boundsAndAlignmentInfo.pop name }

def State.step (s : State) : Step → Option State
  | .enter => some { s with frames := .fact {} :: s.frames }
  | .learnTrue fact => s.learn (Learning.learnTrue mutateInfo fact)
  | .learnFalse fact => s.learn (Learning.learnFalse mutateInfo fact)
  | .bind name info =>
      -- every name is unique
      if s.simplify.varInfo.contains name then none
      else some {
        simplify := { s.simplify with varInfo := s.simplify.varInfo.push name info }
        frames := .variable name :: s.frames }
  | .track name info => some {
      simplify := { s.simplify with
        boundsAndAlignmentInfo := s.simplify.boundsAndAlignmentInfo.push name info }
      frames := .tracked name :: s.frames }
  | .leave =>
      match s.frames with
      | frame :: frames => some { simplify := frame.leave s.simplify, frames := frames }
      | [] => none

end Run

section Replacements

/-- The variable has a replacement that mentions the other one. -/
def Replaces (scope : Scope VarInfo) (v w : Name) : Prop :=
  ∃ replacement, scope.get v = some { replacement := some replacement } ∧ replacement.mentions w

mutual

/-- The replacements that `learn_true` pushes, the first ones first. -/
def replacementsTrue : Expr → List (Name × Expr)
  | .var _ v => [(v, constTrue)]
  | .cmp .eq (.var _ v) b => if Learning.replaces b then [(v, b)] else []
  | .bin .and a b => replacementsTrue a ++ replacementsTrue b
  | .not a => replacementsFalse a
  | _ => []

/-- The replacements that `learn_false` pushes, the first ones first. -/
def replacementsFalse : Expr → List (Name × Expr)
  | .var _ v => [(v, constFalse)]
  | .cmp .ne (.var _ v) b => if b.isConst then [(v, b)] else []
  | .bin .or a b => replacementsFalse a ++ replacementsFalse b
  | .not a => replacementsTrue a
  | _ => []

end

def Scope.replaceAll (scope : Scope VarInfo) (rs : List (Name × Expr)) : Scope VarInfo :=
  rs.foldl (fun scope r => scope.push r.1 { replacement := some r.2 }) scope

/-- No variable of a new replacement is replaced, in however many steps, by the
variable it is for. Each replacement is held against those pushed before it. -/
def Unreached : Scope VarInfo → List (Name × Expr) → Prop
  | _, [] => True
  | scope, (v, replacement) :: rs =>
      (∀ w, replacement.mentions w → ¬ ReflTransGen (Replaces scope) w v) ∧
        Unreached (scope.push v { replacement := some replacement }) rs

/-- The replacements that a step pushes are unreached. -/
def Step.Meets (s : State) : Step → Prop
  | .learnTrue fact => Unreached s.simplify.varInfo (replacementsTrue fact)
  | .learnFalse fact => Unreached s.simplify.varInfo (replacementsFalse fact)
  | .bind name { replacement := some replacement } =>
      Unreached s.simplify.varInfo [(name, replacement)]
  | _ => True

end Replacements

end Vyasa.Simplify
