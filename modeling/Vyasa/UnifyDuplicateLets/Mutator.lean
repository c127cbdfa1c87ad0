import Vyasa.Binding.Term
import Vyasa.CSE.Exact

/-! The pass that lets later lets of a value reuse the name of an earlier one. -/
namespace Vyasa.UnifyDuplicateLets

open Binding IREquality CSE

/-- An expression. The addresses of its nodes have no part here. -/
abbrev Expr : Type := CSE.Term

abbrev Exprs : Type := CSE.Terms

/-- `undefined` is the undefined `Stmt`, which stands for a missing else case. -/
inductive Stmt where
  | undefined
  | LetStmt (name : String) (value : Expr) (body : Stmt)
  | For (name : String) (min extent : Expr) (body : Stmt)
  | Block (first rest : Stmt)
  | IfThenElse (condition : Expr) (then_case else_case : Stmt)
  | Store (name : String) (predicate value index : Expr)

/-- `Load`, and a `Call` for which `is_pure` is false -/
def isImpure : Op → Bool
  | .Load .. => true
  | .Call _ _ call_type _ => !(call_type = .PureExtern || call_type = .Image || call_type = .PureIntrinsic)
  | _ => false

section Comparison

mutual

/-- The term as a graph, whose addresses are not told apart by the order of the fields. -/
def graph : Expr → CSE.Expr
  | .var type x => .Variable 0 type x
  | .letIn x value body => .Let 0 (typeOf body) x (graph value) (graph body)
  | .app op args => .node 0 op (graphs args)

def graphs : Exprs → CSE.Exprs
  | .nil => .nil
  | .cons e rest => .cons (graph e) (graphs rest)

end

/-- Neither is less than the other by `IRDeepCompare`. -/
def equal (a b : Expr) : Bool := (graph a).toTree.order (graph b).toTree = .eq

mutual

theorem term_graph : ∀ e : Expr, (graph e).term = e
  | .var _ _ => rfl
  | .letIn _ value body => by rw [graph, CSE.Expr.term, term_graph value, term_graph body]
  | .app _ args => by rw [graph, CSE.Expr.term, terms_graphs args]

theorem terms_graphs : ∀ es : Exprs, (graphs es).terms = es
  | .nil => rfl
  | .cons e rest => by rw [graphs, CSE.Exprs.terms, term_graph e, terms_graphs rest]

end

/-- Where no two constants are confused, equal expressions are the same. -/
theorem eq_of_equal {floats : Set F64} {a b : Expr} (hExact : Exact floats) (ha : a.All (Op.FloatIn floats))
    (hb : b.All (Op.FloatIn floats)) (h : equal a b = true) : a = b := by
  have hTerm := Expr.term_eq_of_order (a := graph a) (b := graph b) hExact
    (by rwa [term_graph]) (by rwa [term_graph]) (of_decide_eq_true h)
  rwa [term_graph, term_graph] at hTerm

theorem equal_self (e : Expr) : equal e e = true := decide_eq_true (Tree.order_self _)

end Comparison

section Code

/-- The members of the mutator. No two keys of the scope are equal. -/
structure State where
  scope : List (Expr × String) := []
  rewrites : String → Option String := fun _ => none
  isImpure : Bool := false

/-- `scope.find` -/
def State.find (s : State) (e : Expr) : Option String := (s.scope.find? fun entry => equal entry.1 e).map (·.2)

/-- What is to be undone after the body of a let. -/
inductive Undo where
  | nothing
  | pop
  | erase

/-- Between the value of a let, which has been mutated, and its body. -/
def State.enter (s : State) (name : String) (value : Expr) : Expr × State × Undo :=
  if s.isImpure then (value, s, .nothing)
  else
    match s.find value with
    | none => (value, { s with scope := (value, name) :: s.scope }, .pop)
    | some first =>
      (.var (typeOf value) first,
        { s with rewrites := Function.update s.rewrites name (some first) }, .erase)

/-- After the body. -/
def State.leave (s : State) (name : String) (value : Expr) : Undo → State
  | .nothing => s
  | .pop => { s with scope := s.scope.filter fun entry => !equal entry.1 value }
  | .erase => { s with rewrites := Function.update s.rewrites name none }

mutual

/-- `mutate`, with the visitors inlined -/
def mutate : Expr → State → Expr × State
  | .var type x, s =>
    match s.find (.var type x) with
    | some name => (.var type name, s)
    | none => (.var type ((s.rewrites x).getD x), s)
  | .letIn x value body, s =>
    match s.find (.letIn x value body) with
    | some name => (.var (typeOf body) name, s)
    | none =>
      let (value, s) := mutate value { s with isImpure := false }
      let (value, s, undo) := s.enter x value
      let (body, s) := mutate body s
      (.letIn x value body, s.leave x value undo)
  | .app op args, s =>
    match s.find (.app op args) with
    | some name => (.var op.type name, s)
    | none =>
      let (args, s) := mutateArgs args { s with isImpure := s.isImpure || isImpure op }
      (.app op args, s)

def mutateArgs : Exprs → State → Exprs × State
  | .nil, s => (.nil, s)
  | .cons e rest, s =>
    let (e, s) := mutate e s
    let (rest, s) := mutateArgs rest s
    (.cons e rest, s)

end

def mutateStmt : Stmt → State → Stmt × State
  | .undefined, s => (.undefined, s)
  | .LetStmt x value body, s =>
    let (value, s) := mutate value { s with isImpure := false }
    let (value, s, undo) := s.enter x value
    let (body, s) := mutateStmt body s
    (.LetStmt x value body, s.leave x value undo)
  | .For x min extent body, s =>
    let (min, s) := mutate min s
    let (extent, s) := mutate extent s
    let (body, s) := mutateStmt body s
    (.For x min extent body, s)
  | .Block first rest, s =>
    let (first, s) := mutateStmt first s
    let (rest, s) := mutateStmt rest s
    (.Block first rest, s)
  | .IfThenElse condition then_case else_case, s =>
    let (condition, s) := mutate condition s
    let (then_case, s) := mutateStmt then_case s
    let (else_case, s) := mutateStmt else_case s
    (.IfThenElse condition then_case else_case, s)
  | .Store name predicate value index, s =>
    let (predicate, s) := mutate predicate s
    let (value, s) := mutate value s
    let (index, s) := mutate index s
    (.Store name predicate value index, s)

def unifyDuplicateLets (s : Stmt) : Stmt := (mutateStmt s {}).1

end Code

end Vyasa.UnifyDuplicateLets
