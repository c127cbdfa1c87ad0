import Vyasa.Interleave.Basic
import Mathlib.Data.String.Basic

/-! Statements as nodes with addresses, and the events that an execution of them goes through. A
node can be met at several places. -/
namespace Vyasa.EarlyFree

abbrev Name := String

inductive Expr where
  | imm (value : Int)
  | Variable (name : Name)
  | Load (name : Name) (predicate index : Expr)
  | Call (name : Name) (args : List Expr)
  /-- A node of another kind. -/
  | op (args : List Expr)

inductive Event where
  | var (name : Name)
  | load (name : Name)
  | call (name : Name)
  | store (name : Name)
  | allocate (name : Name)
  | free (name : Name)
deriving DecidableEq

/-- The event needs the memory of the function. -/
def Event.refersTo (func : Name) : Event → Bool
  | .var name => name = func || name = func ++ ".buffer"
  | .load name | .call name | .store name => name = func
  | .allocate _ | .free _ => false

mutual

/-- What the evaluation of an expression refers to. -/
def Expr.events : Expr → List Event
  | .imm _ => []
  | .Variable name => [.var name]
  | .Load name predicate index => predicate.events ++ index.events ++ [.load name]
  | .Call name args => eventsAll args ++ [.call name]
  | .op args => eventsAll args

def eventsAll : List Expr → List Event
  | [] => []
  | e :: rest => e.events ++ eventsAll rest

end

inductive Leaf where
  | Store (name : Name) (predicate value index : Expr)
  | Evaluate (value : Expr)
  | Free (name : Name)

/-- The nodes over one statement. An `IfThenElse` here has no `else_case`. -/
inductive Over where
  | LetStmt (name : Name) (value : Expr)
  | ProducerConsumer (name : Name) (is_producer : Bool)
  | For (name : Name) (min extent : Expr)
  | IfThenElse (condition : Expr)
  | Acquire (semaphore count : Expr)
  | Allocate (name : Name) (extents : List Expr) (condition : Expr) (new_expr : Option Expr)

inductive Both where
  | IfThenElse (condition : Expr)
  | Fork

inductive Stmt where
  | leaf (address : Nat) (l : Leaf)
  | nest (address : Nat) (h : Over) (body : Stmt)
  | both (address : Nat) (h : Both) (first rest : Stmt)
  | Block (address : Nat) (first rest : Stmt)

def Leaf.events : Leaf → List Event
  | .Store name predicate value index => predicate.events ++ value.events ++ index.events ++ [.store name]
  | .Evaluate value => value.events
  | .Free name => [.free name]

/-- What is evaluated before the body. -/
def Over.exprs : Over → List Expr
  | .LetStmt _ value => [value]
  | .ProducerConsumer _ _ => []
  | .For _ min extent => [min, extent]
  | .IfThenElse condition => [condition]
  | .Acquire semaphore count => [semaphore, count]
  | .Allocate _ extents condition new_expr => extents ++ [condition] ++ new_expr.toList

def Over.allocated : Over → Option Name
  | .Allocate name _ _ _ => some name
  | _ => none

def Over.events (h : Over) : List Event := eventsAll h.exprs ++ (h.allocated.map Event.allocate).toList

/-- How often the body can be executed. -/
def Over.Turns : Over → Nat → Prop
  | .For _ _ _, _ => True
  | .IfThenElse _, k => k ≤ 1
  | _, k => k = 1

def Both.exprs : Both → List Expr
  | .IfThenElse condition => [condition]
  | .Fork => []

namespace Stmt

def address : Stmt → Nat
  | leaf a _ | nest a _ _ | both a _ _ _ | Block a _ _ => a

/-- The traces of the executions. The two sides of a fork run at the same time. -/
def Exec : Stmt → List Event → Prop
  | leaf _ l, t => t = l.events
  | nest _ h body, t => ∃ ts : List (List Event), h.Turns ts.length ∧ (∀ u ∈ ts, Exec body u) ∧
      t = h.events ++ ts.flatten
  | both _ (.IfThenElse condition) first rest, t =>
      ∃ u, (Exec first u ∨ Exec rest u) ∧ t = condition.events ++ u
  | both _ .Fork first rest, t => ∃ u v, Exec first u ∧ Exec rest v ∧ Interleave u v t
  | Block _ first rest, t => ∃ u v, Exec first u ∧ Exec rest v ∧ t = u ++ v

/-- The events that some execution may go through. -/
def events : Stmt → List Event
  | leaf _ l => l.events
  | nest _ h body => h.events ++ body.events
  | both _ h first rest => eventsAll h.exprs ++ first.events ++ rest.events
  | Block _ first rest => first.events ++ rest.events

/-- The statement and all statements in it. -/
def nodes : Stmt → List Stmt
  | leaf a l => [leaf a l]
  | nest a h body => nest a h body :: body.nodes
  | both a h first rest => both a h first rest :: (first.nodes ++ rest.nodes)
  | Block a first rest => Block a first rest :: (first.nodes ++ rest.nodes)

/-- Nodes at one address are one node. -/
def Consistent (s : Stmt) : Prop := ∀ a ∈ s.nodes, ∀ b ∈ s.nodes, a.address = b.address → a = b

theorem mem_nodes_self (s : Stmt) : s ∈ s.nodes := by
  cases s <;> exact List.mem_cons_self

theorem mem_events {e : Event} : ∀ {s : Stmt} {t : List Event}, Exec s t → e ∈ t → e ∈ s.events
  | leaf _ l, t, h, he => by
    cases h
    exact he
  | nest _ h body, t, ⟨ts, _, hts, ht⟩, he => by
    subst ht
    rcases List.mem_append.mp he with he | he
    · exact List.mem_append_left _ he
    · obtain ⟨u, hu, he⟩ := List.mem_flatten.mp he
      exact List.mem_append_right _ (mem_events (hts u hu) he)
  | both _ (.IfThenElse condition) first rest, t, ⟨u, hu, ht⟩, he => by
    subst ht
    simp only [events, Both.exprs, eventsAll, List.append_nil, List.mem_append]
    rcases List.mem_append.mp he with he | he
    · exact .inl (.inl he)
    · exact hu.elim (fun hu => .inl (.inr (mem_events hu he))) fun hu => .inr (mem_events hu he)
  | both _ .Fork first rest, t, ⟨u, v, hu, hv, ht⟩, he => by
    simp only [events, List.mem_append]
    rcases ht.mem_iff.mp he with he | he
    · exact .inl (.inr (mem_events hu he))
    · exact .inr (mem_events hv he)
  | Block _ first rest, t, ⟨u, v, hu, hv, ht⟩, he => by
    subst ht
    rcases List.mem_append.mp he with he | he
    · exact List.mem_append_left _ (mem_events hu he)
    · exact List.mem_append_right _ (mem_events hv he)

theorem events_of_mem_nodes {a : Stmt} : ∀ {s : Stmt}, a ∈ s.nodes → a.events ⊆ s.events
  | leaf _ l, h => by
    rw [nodes, List.mem_singleton] at h
    exact h ▸ List.Subset.refl _
  | nest _ h body, ha => by
    rcases List.mem_cons.mp ha with rfl | ha
    · exact List.Subset.refl _
    · exact List.Subset.trans (events_of_mem_nodes ha) (List.subset_append_right _ _)
  | both _ h first rest, ha => by
    rcases List.mem_cons.mp ha with rfl | ha
    · exact List.Subset.refl _
    · rcases List.mem_append.mp ha with ha | ha
      · exact List.Subset.trans (events_of_mem_nodes ha)
          (List.Subset.trans (List.subset_append_right _ _) (List.subset_append_left _ _))
      · exact List.Subset.trans (events_of_mem_nodes ha) (List.subset_append_right _ _)
  | Block _ first rest, ha => by
    rcases List.mem_cons.mp ha with rfl | ha
    · exact List.Subset.refl _
    · rcases List.mem_append.mp ha with ha | ha
      · exact List.Subset.trans (events_of_mem_nodes ha) (List.subset_append_left _ _)
      · exact List.Subset.trans (events_of_mem_nodes ha) (List.subset_append_right _ _)

end Stmt

end Vyasa.EarlyFree

/-! The search for the last use of an allocation, and the mutators that put a free behind it. A new
node takes the next free address. -/
namespace Vyasa.EarlyFree

section Uses

variable (func : Name)

mutual

def Expr.mentions : Expr → Bool
  | .imm _ => false
  | .Variable name => name = func || name = func ++ ".buffer"
  | .Load name predicate index => name = func || predicate.mentions || index.mentions
  | .Call name args => name = func || mentionsAny args
  | .op args => mentionsAny args

def mentionsAny : List Expr → Bool
  | [] => false
  | e :: rest => e.mentions || mentionsAny rest

end

def Leaf.mentions : Leaf → Bool
  | .Store name predicate value index =>
      name = func || predicate.mentions func || value.mentions func || index.mentions func
  | .Evaluate value => value.mentions func
  | .Free _ => false

end Uses

/-- The body is visited as if it were in a loop. -/
def Over.in_loop : Over → Bool
  | .For _ _ _ | .IfThenElse _ | .Acquire _ _ => true
  | _ => false

namespace FindLastUse

/-- `last_use` after a visit. All of an expression is visited with the same `containing_stmt`, which is
undefined outside of blocks. -/
def visit (func : Name) : Bool → Option Stmt → Stmt → Option Stmt → Option Stmt
  | _, containing_stmt, .leaf _ l, last_use => if l.mentions func then containing_stmt else last_use
  | in_loop, containing_stmt, .nest _ h body, last_use =>
      visit func (in_loop || h.in_loop) containing_stmt body
        (if mentionsAny func h.exprs then containing_stmt else last_use)
  | _, containing_stmt, .both _ h first rest, last_use =>
      visit func true containing_stmt rest <| visit func true containing_stmt first
        (if mentionsAny func h.exprs then containing_stmt else last_use)
  | true, containing_stmt, .Block _ first rest, last_use =>
      visit func true containing_stmt rest (visit func true containing_stmt first last_use)
  | false, _, .Block _ first rest, last_use =>
      visit func false (some rest) rest (visit func false (some first) first last_use)

end FindLastUse

namespace Stmt

def same_as (s other : Stmt) : Bool := s.address = other.address

/-- `Block::make`, in the canonical nesting order. -/
def block (n : Nat) : Stmt → Stmt → Stmt × Nat
  | .Block _ a b, rest => match block (n + 1) b rest with
    | (s, n') => (.Block n a s, n')
  | first, rest => (.Block n first rest, n + 1)

/-- `Fork::make`, in the canonical nesting order. -/
def fork (n : Nat) : Stmt → Stmt → Stmt × Nat
  | .both _ .Fork a b, rest => match fork (n + 1) b rest with
    | (s, n') => (.both n .Fork a s, n')
  | first, rest => (.both n .Fork first rest, n + 1)

def makeBoth (n : Nat) : Both → Stmt → Stmt → Stmt × Nat
  | .IfThenElse condition, first, rest => (.both n (.IfThenElse condition) first rest, n + 1)
  | .Fork, first, rest => fork n first rest

end Stmt

/-! A mutator makes a node from its mutated parts, which stays the same node if they do. -/
namespace IRMutator

def nest (a : Nat) (h : Over) (body body' : Stmt) (n : Nat) : Stmt × Nat :=
  if body'.same_as body then (.nest a h body, n) else (.nest n h body', n + 1)

def both (a : Nat) (h : Both) (first rest first' rest' : Stmt) (n : Nat) : Stmt × Nat :=
  if first'.same_as first && rest'.same_as rest then (.both a h first rest, n)
  else Stmt.makeBoth n h first' rest'

def block (a : Nat) (first rest first' rest' : Stmt) (n : Nat) : Stmt × Nat :=
  if first'.same_as first && rest'.same_as rest then (.Block a first rest, n)
  else first'.block n rest'

end IRMutator

namespace InjectMarker

structure Marker where
  injected : Bool
  next : Nat

/-- `mutate` of the statement comes with it. -/
def inject_marker (func : Name) (last_use : Stmt) (mutate : Marker → Stmt × Marker) (s : Stmt)
    (m : Marker) : Stmt × Marker :=
  if m.injected then (s, m)
  else if s.same_as last_use then
    match s.block (m.next + 1) (.leaf m.next (.Free func)) with
    | (s', n) => (s', ⟨true, n⟩)
  else mutate m

def Marker.after (m : Marker) (r : Stmt × Nat) : Stmt × Marker := (r.1, { m with next := r.2 })

/-- The rest of a block comes before its first statement. -/
def mutate (func : Name) (last_use : Stmt) : Stmt → Marker → Stmt × Marker
  | .leaf a l, m => (.leaf a l, m)
  | .nest a h body, m => match mutate func last_use body m with
    | (body', m) => m.after (IRMutator.nest a h body body' m.next)
  | .both a h first rest, m => match mutate func last_use first m with
    | (first', m) => match mutate func last_use rest m with
      | (rest', m) => m.after (IRMutator.both a h first rest first' rest' m.next)
  | .Block a first rest, m => match inject_marker func last_use (mutate func last_use rest) rest m with
    | (rest', m) => match inject_marker func last_use (mutate func last_use first) first m with
      | (first', m) => m.after (IRMutator.block a first rest first' rest' m.next)

end InjectMarker

namespace InjectEarlyFrees

/-- The free of an allocation whose parts are done. -/
def free (name : Name) (h : Over) (stmt body : Stmt) (n : Nat) : Stmt × Nat :=
  match FindLastUse.visit name false none stmt none with
  | some last_use =>
    match InjectMarker.mutate name last_use stmt ⟨false, n⟩ with
    | (s, m) => (s, m.next)
  | none =>
    match body.block (n + 1) (.leaf n (.Free name)) with
    | (body', n) => (.nest n h body', n + 1)

def mutate : Stmt → Nat → Stmt × Nat
  | .leaf a l, n => (.leaf a l, n)
  | .nest a h body, n => match mutate body n with
    | (body', n) => match IRMutator.nest a h body body' n with
      | (stmt, n) => match h.allocated with
        | some name => free name h stmt body' n
        | none => (stmt, n)
  | .both a h first rest, n => match mutate first n with
    | (first', n) => match mutate rest n with
      | (rest', n) => IRMutator.both a h first rest first' rest' n
  | .Block a first rest, n => match mutate first n with
    | (first', n) => match mutate rest n with
      | (rest', n) => IRMutator.block a first rest first' rest' n

end InjectEarlyFrees

/-- The addresses from `n` on are free. -/
def inject_early_frees (s : Stmt) (n : Nat) : Stmt := (InjectEarlyFrees.mutate s n).1

end Vyasa.EarlyFree
