import Vyasa.IR.Expr

/-! Scalar and vector expressions over integer types, and their values lane by lane. A scalar
has one lane, and a truth value is an integer of one unsigned bit. -/
namespace Vyasa.Lanes

open Word IRMatch

/-- The calls that are looked at by name, and all others. -/
inductive Callee where
  | likely | likely_if_innermost | return_second | require | glsl_texture_load
  | fn (name : String)
deriving DecidableEq, Repr

/-- A node that can have more than one lane has its lane count from its operands, or as a
field where these do not determine it. -/
inductive Expr where
  | imm (type : IntType) (value : Int)
  | stringImm (value : String)
  | var (type : IntType) (lanes : Nat) (name : Name)
  | cast (type : IntType) (value : Expr)
  | bin (op : BinOp) (a b : Expr)
  | cmp (op : CmpOp) (a b : Expr)
  | not (a : Expr)
  | select (condition true_value false_value : Expr)
  | load (type : IntType) (lanes : Nat) (name : String) (index predicate : Expr)
  | ramp (base stride : Expr) (lanes : Nat)
  | broadcast (value : Expr) (lanes : Nat)
  | call (type : IntType) (lanes : Nat) (callee : Callee) (args : List Expr)
  | letIn (name : Name) (value body : Expr)
  | shuffle (type : IntType) (vectors : List Expr) (indices : List Nat)

/-- A pointer, such as a string is. -/
def handle : IntType := .uint64

namespace Expr

/-- `type().element_of()` -/
@[simp] def type : Expr → IntType
  | imm T _ | var T _ _ | cast T _ | load T _ _ _ _ | call T _ _ _ | shuffle T _ _ => T
  | stringImm _ => handle
  | bin _ a _ | ramp a _ _ | broadcast a _ | select _ a _ | letIn _ _ a => a.type
  | cmp _ _ _ | not _ => .bool

/-- `type().lanes()` -/
@[simp] def lanes : Expr → Nat
  | imm _ _ | stringImm _ => 1
  | var _ n _ | load _ n _ _ _ | ramp _ _ n | broadcast _ n | call _ n _ _ => n
  | cast _ a | bin _ a _ | cmp _ a _ | not a | select _ a _ | letIn _ _ a => a.lanes
  | shuffle _ _ indices => indices.length

/-- The lane of an operand that goes into a lane of the result. -/
def laneOf (e : Expr) (i : Nat) : Nat := if e.lanes = 1 then 0 else i

end Expr

/-- How many lanes the operands of a shuffle have together. -/
def inputLanes (vectors : List Expr) : Nat := (vectors.map Expr.lanes).sum

/-- The values of the variables lane by lane, of the buffers, of strings and of calls. -/
structure Env where
  vars : Name → Nat → Option Int
  mem : String → Int → Option Int
  strings : String → Int
  calls : String → List Int → Option Int
  texture : List Int → Nat → Option Int

namespace Env

def set (ρ : Env) (name : Name) (v : Nat → Option Int) : Env :=
  { ρ with vars := Function.update ρ.vars name v }

@[simp] theorem set_vars (ρ : Env) (name : Name) (v : Nat → Option Int) :
    (ρ.set name v).vars = Function.update ρ.vars name v := rfl

@[simp] theorem set_mem (ρ : Env) (name : Name) (v : Nat → Option Int) :
    (ρ.set name v).mem = ρ.mem := rfl

@[simp] theorem set_strings (ρ : Env) (name : Name) (v : Nat → Option Int) :
    (ρ.set name v).strings = ρ.strings := rfl

@[simp] theorem set_calls (ρ : Env) (name : Name) (v : Nat → Option Int) :
    (ρ.set name v).calls = ρ.calls := rfl

@[simp] theorem set_texture (ρ : Env) (name : Name) (v : Nat → Option Int) :
    (ρ.set name v).texture = ρ.texture := rfl

end Env

/-- What is read from outside is a value of its type where values are checked. -/
def read (m : Mode) (T : IntType) (v : Int) : Option Int :=
  if m = .checked ∧ ¬ T.Has v then none else some v

/-- A cast drops the high bits. Where values are checked, one between types of 32 bits and
more keeps the value. -/
def evalCast (m : Mode) (S T : IntType) (v : Int) : Option Int :=
  if m = .checked ∧ 32 ≤ S.bits ∧ 32 ≤ T.bits ∧ ¬ T.Has v then none else some (T.wrap v)

/-- A call that is not named gives each lane from that lane of its arguments. -/
def evalCall (m : Mode) (T : IntType) (ρ : Env) (vs : List Int) (i : Nat) : Callee → Option Int
  | .likely | .likely_if_innermost | .return_second => vs.getLast?
  | .require => if vs[0]? = some 0 then none else vs[1]?
  | .glsl_texture_load => do read m T (← ρ.texture vs i)
  | .fn name => do read m T (← ρ.calls name vs)

/-- Nothing is in a lane from the lane count on. -/
def below (lanes i : Nat) (x : Option Int) : Option Int := if i < lanes then x else none

section

variable (mode : IntType → Mode)

mutual

/-- The value of a lane. All operands of a select and of a call are evaluated. A load whose
predicate is false has no value. -/
def lane : Env → Expr → Nat → Option Int
  | _, .imm _ v, i => below 1 i (some v)
  | ρ, .stringImm s, i => below 1 i <| read (mode handle) handle (ρ.strings s)
  | ρ, .var T n name, i => below n i do read (mode T) T (← ρ.vars name i)
  | ρ, .cast T a, i => do evalCast (mode T) a.type T (← lane ρ a i)
  | ρ, .bin op a b, i => do evalBin (mode a.type) a.type op (← lane ρ a i) (← lane ρ b i)
  | ρ, .cmp op a b, i => do return evalCmp op (← lane ρ a i) (← lane ρ b i)
  | ρ, .not a, i => do return if (← lane ρ a i) = 0 then 1 else 0
  | ρ, .select c t f, i => do
      let vc ← lane ρ c (c.laneOf i)
      let vt ← lane ρ t i
      let vf ← lane ρ f i
      return if vc ≠ 0 then vt else vf
  | ρ, .load T n name index predicate, i => below n i do
      let p ← lane ρ predicate i
      let k ← lane ρ index i
      if p = 0 then none else read (mode T) T (← ρ.mem name k)
  | ρ, .ramp base stride n, i => below n i do
      arith (mode base.type) base.type ((← lane ρ base 0) + i * (← lane ρ stride 0))
  | ρ, .broadcast a n, i => below n i (lane ρ a 0)
  | ρ, .call T n callee args, i => below n i do
      evalCall (mode T) T ρ (← laneArgs ρ args i) i callee
  | ρ, .letIn name value body, i => lane (ρ.set name fun k => lane ρ value k) body i
  | ρ, .shuffle _ vectors indices, i => do laneAt ρ vectors (← indices[i]?)

/-- The values that a lane of a call is computed from. -/
def laneArgs : Env → List Expr → Nat → Option (List Int)
  | _, [], _ => some []
  | ρ, a :: rest, i => do return (← lane ρ a (a.laneOf i)) :: (← laneArgs ρ rest i)

/-- A lane of the concatenation of vectors. -/
def laneAt : Env → List Expr → Nat → Option Int
  | _, [], _ => none
  | ρ, a :: rest, k => if k < a.lanes then lane ρ a k else laneAt ρ rest (k - a.lanes)

end

attribute [grind =] lane laneArgs laneAt

end

/-- The element types and lane counts of the names, where they are known. -/
abbrev Context : Type := Name → Option (IntType × Nat)

/-- The calls whose value is that of their last argument. -/
def Callee.Passes : Callee → Prop
  | .likely | .likely_if_innermost | .return_second => True
  | _ => False

section

mutual

/-- What the functions that make the nodes assert, and that a name in the scope of a let is
of the type of its value. -/
def WellFormed : Context → Expr → Prop
  | _, .imm T v => T.Has v
  | _, .stringImm _ => True
  | Γ, .var T n name => 0 < n ∧ ∀ s ∈ Γ name, s = (T, n)
  | Γ, .cast _ a => WellFormed Γ a
  | Γ, .bin op a b => WellFormed Γ a ∧ WellFormed Γ b ∧ a.type = b.type ∧ a.lanes = b.lanes ∧
      (op = .and ∨ op = .or → a.type = .bool)
  | Γ, .cmp _ a b => WellFormed Γ a ∧ WellFormed Γ b ∧ a.type = b.type ∧ a.lanes = b.lanes
  | Γ, .not a => WellFormed Γ a ∧ a.type = .bool
  | Γ, .select c t f => WellFormed Γ c ∧ WellFormed Γ t ∧ WellFormed Γ f ∧ c.type = .bool ∧
      t.type = f.type ∧ t.lanes = f.lanes ∧ (c.lanes = 1 ∨ c.lanes = t.lanes)
  | Γ, .load _ n _ index predicate => WellFormed Γ index ∧ WellFormed Γ predicate ∧
      index.lanes = n ∧ predicate.lanes = n
  | Γ, .ramp base stride n => WellFormed Γ base ∧ WellFormed Γ stride ∧ base.lanes = 1 ∧
      stride.lanes = 1 ∧ 1 < n ∧ stride.type = base.type
  | Γ, .broadcast a n => WellFormed Γ a ∧ a.lanes = 1 ∧ 1 < n
  | Γ, .call T n callee args => WellFormedAll Γ args ∧ (∀ a ∈ args, a.lanes = 1 ∨ a.lanes = n) ∧
      0 < n ∧ (callee.Passes → ∀ a ∈ args.getLast?, a.type = T) ∧
      (callee = .require → ∀ a ∈ args[1]?, a.type = T)
  | Γ, .letIn name value body => WellFormed Γ value ∧
      WellFormed (Function.update Γ name (some (value.type, value.lanes))) body
  | Γ, .shuffle T vectors indices => WellFormedAll Γ vectors ∧ (∀ a ∈ vectors, a.type = T) ∧
      indices ≠ [] ∧ ∀ k ∈ indices, k < inputLanes vectors

def WellFormedAll : Context → List Expr → Prop
  | _, [] => True
  | Γ, a :: rest => WellFormed Γ a ∧ WellFormedAll Γ rest

end

end

namespace Expr

mutual

/-- A name of the set is read, or one of a let that reads such a name. -/
def mentions : (Name → Bool) → Expr → Bool
  | _, imm _ _ | _, stringImm _ => false
  | D, var _ _ name => D name
  | D, cast _ a | D, not a | D, broadcast a _ => a.mentions D
  | D, bin _ a b | D, cmp _ a b | D, ramp a b _ | D, load _ _ _ a b => a.mentions D || b.mentions D
  | D, select c t f => c.mentions D || t.mentions D || f.mentions D
  | D, call _ _ _ args => mentionsAny D args
  | D, letIn name value body => body.mentions (Function.update D name (value.mentions D))
  | D, shuffle _ vectors _ => mentionsAny D vectors

def mentionsAny : (Name → Bool) → List Expr → Bool
  | _, [] => false
  | D, a :: rest => a.mentions D || mentionsAny D rest

end

mutual

/-- A let binds the name. -/
def binds (name : Name) : Expr → Bool
  | imm _ _ | stringImm _ | var _ _ _ => false
  | cast _ a | not a | broadcast a _ => a.binds name
  | bin _ a b | cmp _ a b | ramp a b _ | load _ _ _ a b => a.binds name || b.binds name
  | select c t f => c.binds name || t.binds name || f.binds name
  | call _ _ _ args => bindsAny name args
  | letIn other value body => other = name || value.binds name || body.binds name
  | shuffle _ vectors _ => bindsAny name vectors

def bindsAny (name : Name) : List Expr → Bool
  | [] => false
  | a :: rest => a.binds name || bindsAny name rest

end

end Expr

end Vyasa.Lanes
