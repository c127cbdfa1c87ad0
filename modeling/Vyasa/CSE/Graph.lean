import Vyasa.Binding.Term
import Vyasa.IREquality.Compare

/-! Expressions as graphs of nodes at addresses, which the passes that share subexpressions
work on. -/
namespace Vyasa.CSE

open IREquality Binding

/-- What an expression node has beside its children. -/
inductive Op where
  | IntImm (type : Ty) (value : Int)
  | UIntImm (type : Ty) (value : Nat)
  | FloatImm (type : Ty) (value : F64)
  | StringImm (type : Ty) (value : String)
  | Broadcast (type : Ty)
  | Cast (type : Ty)
  | Binary (op : BinaryOp) (type : Ty)
  | Not (type : Ty)
  | Select (type : Ty)
  | Load (type : Ty) (name : String) (alignment : IREquality.Alignment)
  | Ramp (type : Ty)
  | Call (type : Ty) (name : String) (call_type : CallType) (value_index : Int)
  | Shuffle (type : Ty) (indices : List Int)
deriving DecidableEq

mutual

/-- An expression. Its children are in the order in which a mutator visits them. -/
inductive Expr where
  | Variable (addr : Nat) (type : Ty) (name : String)
  | Let (addr : Nat) (type : Ty) (name : String) (value body : Expr)
  | node (addr : Nat) (op : Op) (args : Exprs)

inductive Exprs where
  | nil
  | cons (e : Expr) (rest : Exprs)

end

namespace Op

def type : Op → Ty
  | IntImm type _ | UIntImm type _ | FloatImm type _ | StringImm type _ | Broadcast type
  | Cast type | Binary _ type | Not type | Select type | Load type _ _ | Ramp type
  | Call type _ _ _ | Shuffle type _ => type

def node_type : Op → IRNodeType
  | IntImm _ _ => .IntImm
  | UIntImm _ _ => .UIntImm
  | FloatImm _ _ => .FloatImm
  | StringImm _ _ => .StringImm
  | Broadcast _ => .Broadcast
  | Cast _ => .Cast
  | Binary op _ => op.node_type
  | Not _ => .Not
  | Select _ => .Select
  | Load _ _ _ => .Load
  | Ramp _ => .Ramp
  | Call _ _ _ _ => .Call
  | Shuffle _ _ => .Shuffle

def rest : (op : Op) → Uncompared op.node_type
  | Binary op _ => op.rest
  | IntImm _ _ | UIntImm _ _ | FloatImm _ _ | StringImm _ _ | Broadcast _ | Cast _ | Not _
  | Select _ | Load _ _ _ | Ramp _ | Call _ _ _ _ | Shuffle _ _ => ()

/-- The fields that are compared before `n` children. -/
def before (n : Nat) : Op → List Scalar
  | IntImm _ value => [.int value]
  | UIntImm _ value => [.nat value]
  | FloatImm _ value => [.float value]
  | StringImm _ value => [.name value]
  | Load _ name _ => [.reversed name]
  | Call _ name call_type value_index => [.name name, .nat call_type.ctorIdx, .int value_index, .nat n]
  | Shuffle _ _ => [.nat n]
  | Broadcast _ | Cast _ | Binary _ _ | Not _ | Select _ | Ramp _ => []

/-- The fields that are compared after the children. -/
def after : Op → List Scalar
  | Load _ _ alignment => [.int alignment.modulus, .int alignment.remainder]
  | Shuffle _ indices => .nat indices.length :: indices.map .int
  | _ => []

end Op

namespace Expr

def addr : Expr → Nat
  | Variable addr _ _ | Let addr _ _ _ _ | node addr _ _ => addr

def type : Expr → Ty
  | Variable _ type _ | Let _ type _ _ _ => type
  | node _ op _ => op.type

def same_as (a b : Expr) : Bool := a.addr = b.addr

end Expr

def Exprs.length : Exprs → Nat
  | nil => 0
  | cons _ rest => rest.length + 1

/-- All of them are the same objects. -/
def Exprs.same_as : Exprs → Exprs → Bool
  | nil, nil => true
  | cons a rest, cons b rest' => a.same_as b && rest.same_as rest'
  | _, _ => false

mutual

/-- The node as the deep comparison reads it. -/
def Expr.toTree : Expr → Tree
  | .Variable addr type name => (Node.Variable type name).make addr
  | .Let addr type name value body => (Node.Let type name value.toTree body.toTree).make addr
  | .node addr op args =>
      .node addr op.node_type op.rest op.type
        (.scalars (op.before args.length) (args.toFields (.scalars op.after .nil)))

def Exprs.toFields : Exprs → Fields → Fields
  | .nil, rest => rest
  | .cons e es, rest => .child e.toTree (es.toFields rest)

end

/-- The terms without sharing. -/
abbrev Term := Binding.Term Op Ty String

abbrev Terms := Binding.Terms Op Ty String

/-- `e.type()` -/
def typeOf : Term → Ty
  | .var type _ => type
  | .letIn _ _ body => typeOf body
  | .app op _ => op.type

mutual

/-- The term that a graph stands for. -/
def Expr.term : Expr → Term
  | .Variable _ type name => .var type name
  | .Let _ _ name value body => .letIn name value.term body.term
  | .node _ op args => .app op args.terms

def Exprs.terms : Exprs → Terms
  | .nil => .nil
  | .cons e rest => .cons e.term rest.terms

end

mutual

/-- The number of nodes, each occurrence counted. -/
def Expr.size : Expr → Nat
  | .Variable .. => 1
  | .Let _ _ _ value body => value.size + body.size + 1
  | .node _ _ args => args.size + 1

def Exprs.size : Exprs → Nat
  | .nil => 0
  | .cons e rest => e.size + rest.size

end

/-! ### The heap -/

/-- The nodes that were made, at addresses below `next`. -/
structure Heap where
  next : Nat
  nodes : Nat → Option Expr

namespace Heap

/-- A new node at an address that is not in use. -/
def alloc (heap : Heap) (make : Nat → Expr) : Expr × Heap :=
  (make heap.next, ⟨heap.next + 1, Function.update heap.nodes heap.next (some (make heap.next))⟩)

/-- There is nothing above the addresses in use. -/
def Ok (heap : Heap) : Prop := ∀ addr, heap.next ≤ addr → heap.nodes addr = none

/-- The nodes of a heap are in a later one. -/
def Le (heap heap' : Heap) : Prop :=
  heap.next ≤ heap'.next ∧ ∀ addr e, heap.nodes addr = some e → heap'.nodes addr = some e

variable {heap heap' heap'' : Heap}

@[refl] theorem Le.refl (heap : Heap) : heap.Le heap := ⟨le_rfl, fun _ _ h => h⟩

theorem Le.trans (h : heap.Le heap') (h' : heap'.Le heap'') : heap.Le heap'' :=
  ⟨h.1.trans h'.1, fun addr e he => h'.2 addr e (h.2 addr e he)⟩

theorem alloc_nodes (heap : Heap) (make : Nat → Expr) :
    (heap.alloc make).2.nodes heap.next = some (make heap.next) :=
  Function.update_self ..

theorem alloc_nodes_of_ne (heap : Heap) (make : Nat → Expr) {addr : Nat} (h : addr ≠ heap.next) :
    (heap.alloc make).2.nodes addr = heap.nodes addr :=
  Function.update_of_ne h ..

theorem Ok.le_alloc (h : heap.Ok) (make : Nat → Expr) : heap.Le (heap.alloc make).2 := by
  refine ⟨Nat.le_succ _, fun addr e he => ?_⟩
  have hne : addr ≠ heap.next := by
    rintro rfl
    rw [h _ le_rfl] at he
    cases he
  rw [alloc_nodes_of_ne heap make hne, he]

theorem Ok.alloc (h : heap.Ok) (make : Nat → Expr) : (heap.alloc make).2.Ok := by
  intro addr ha
  have hLe : heap.next + 1 ≤ addr := ha
  rw [alloc_nodes_of_ne heap make (by omega)]
  exact h addr (by omega)

end Heap

mutual

/-- All nodes of an expression are in the heap at their addresses. -/
def Expr.Lives (heap : Heap) : Expr → Prop
  | .Variable addr type name => heap.nodes addr = some (.Variable addr type name)
  | .Let addr type name value body =>
      heap.nodes addr = some (.Let addr type name value body) ∧ value.Lives heap ∧ body.Lives heap
  | .node addr op args => heap.nodes addr = some (.node addr op args) ∧ args.Lives heap

def Exprs.Lives (heap : Heap) : Exprs → Prop
  | .nil => True
  | .cons e rest => e.Lives heap ∧ rest.Lives heap

end

section Lives

variable {heap heap' : Heap}

theorem Expr.Lives.nodes {e : Expr} (h : e.Lives heap) : heap.nodes e.addr = some e := by
  cases e with
  | Variable addr type name => exact h
  | Let addr type name value body => exact h.1
  | node addr op args => exact h.1

/-- Two references to one object are the same expression. -/
theorem Expr.Lives.eq_of_addr {a b : Expr} (ha : a.Lives heap) (hb : b.Lives heap)
    (h : a.addr = b.addr) : a = b := by
  have hNodes := ha.nodes
  rw [h, hb.nodes] at hNodes
  exact (Option.some.inj hNodes).symm

theorem Exprs.Lives.eq_of_same_as : ∀ {a b : Exprs}, a.Lives heap → b.Lives heap →
    a.same_as b = true → a = b
  | .nil, .nil, _, _, _ => rfl
  | .nil, .cons .., _, _, h => by cases h
  | .cons .., .nil, _, _, h => by cases h
  | .cons a rest, .cons b rest', ha, hb, h => by
    simp only [Exprs.same_as, Expr.same_as, Bool.and_eq_true, decide_eq_true_eq] at h
    rw [ha.1.eq_of_addr hb.1 h.1, Exprs.Lives.eq_of_same_as ha.2 hb.2 h.2]

theorem Expr.Lives.addr_lt {e : Expr} (h : e.Lives heap) (hOk : heap.Ok) : e.addr < heap.next := by
  by_contra hlt
  have hNone := hOk e.addr (not_lt.mp hlt)
  rw [h.nodes] at hNone
  cases hNone

mutual

theorem Expr.Lives.mono (hLe : heap.Le heap') : ∀ {e : Expr}, e.Lives heap → e.Lives heap'
  | .Variable .., h => hLe.2 _ _ h
  | .Let .., h => ⟨hLe.2 _ _ h.1, h.2.1.mono hLe, h.2.2.mono hLe⟩
  | .node .., h => ⟨hLe.2 _ _ h.1, h.2.mono hLe⟩

theorem Exprs.Lives.mono (hLe : heap.Le heap') : ∀ {e : Exprs}, e.Lives heap → e.Lives heap'
  | .nil, _ => trivial
  | .cons _ _, h => ⟨h.1.mono hLe, h.2.mono hLe⟩

end

end Lives

end Vyasa.CSE
