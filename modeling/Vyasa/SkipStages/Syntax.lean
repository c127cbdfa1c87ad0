import Mathlib

/-! Statements with realizations, produce and consume nodes, before storage is flattened, and
what they do to the values of functions. -/
namespace Vyasa.SkipStages

mutual

/-- `op` stands for arithmetic, comparisons and casts. A call is to one value of a function. -/
inductive Expr (F : Type)
  | imm (value : Int)
  | var (name : String)
  | op (f : F) (args : Exprs F)
  | not (a : Expr F)
  | and (a b : Expr F)
  | or (a b : Expr F)
  | select (condition true_value false_value : Expr F)
  | letIn (name : String) (value body : Expr F)
  | call (name : String) (args : Exprs F) (value_index : Nat)
  deriving DecidableEq

inductive Exprs (F : Type)
  | nil
  | cons (e : Expr F) (rest : Exprs F)
  deriving DecidableEq

end

/-- `undefined` is the undefined `Stmt`, which stands for a missing else case. -/
inductive Stmt (F : Type)
  | undefined
  | Provide (name : String) (values args : Exprs F)
  | Realize (name : String) (bounds : Exprs F) (condition : Expr F) (body : Stmt F)
  | ProducerConsumer (name : String) (is_producer : Bool) (body : Stmt F)
  | For (name : String) (vectorized : Bool) (min extent : Expr F) (body : Stmt F)
  | LetStmt (name : String) (value : Expr F) (body : Stmt F)
  | IfThenElse (condition : Expr F) (then_case else_case : Stmt F)
  | Block (first rest : Stmt F)

variable {F : Type}

/-! ### Runs -/

/-- The values of each function: by element of the tuple, then by coordinates. -/
abbrev Memory : Type := String → Nat → List Int → Int

abbrev Env : Type := String → Int

def truth (p : Prop) [Decidable p] : Int := if p then 1 else 0

@[simp] theorem truth_ne_zero {p : Prop} [Decidable p] : truth p ≠ 0 ↔ p := by
  unfold truth
  split <;> simp_all

section

variable (sem : F → List Int → Int)

mutual

/-- Of a select only the branch taken counts. -/
def eval (ρ : Env) (σ : Memory) : Expr F → Int
  | .imm v => v
  | .var x => ρ x
  | .op f args => sem f (evalArgs ρ σ args)
  | .not a => truth (eval ρ σ a = 0)
  | .and a b => truth (eval ρ σ a ≠ 0 ∧ eval ρ σ b ≠ 0)
  | .or a b => truth (eval ρ σ a ≠ 0 ∨ eval ρ σ b ≠ 0)
  | .select c t f => if eval ρ σ c ≠ 0 then eval ρ σ t else eval ρ σ f
  | .letIn x v b => eval (Function.update ρ x (eval ρ σ v)) σ b
  | .call g args i => σ g i (evalArgs ρ σ args)

def evalArgs (ρ : Env) (σ : Memory) : Exprs F → List Int
  | .nil => []
  | .cons e rest => eval ρ σ e :: evalArgs ρ σ rest

end

/-- The elements of the tuple from the `i`-th on are written at one location. -/
def provideFrom (location : List Int) (values : List Int) (old : Nat → List Int → Int) :
    Nat → List Int → Int :=
  fun i at_ => if at_ = location then (values[i]?).getD (old i at_) else old i at_

/-- The first `n` iterations of a loop. -/
def iterate (step : Int → Memory → Memory) (min : Int) : Nat → Memory → Memory
  | 0, σ => σ
  | n + 1, σ => step (min + n) (iterate step min n σ)

/-- A realization hides what the name held before; nothing is known of its fresh storage
`junk`. Its condition, under which it is allocated, has no part in the values. -/
def exec (junk : Memory) (ρ : Env) : Stmt F → Memory → Memory
  | .undefined, σ => σ
  | .Provide name values args, σ =>
      Function.update σ name
        (provideFrom (evalArgs sem ρ σ args) (evalArgs sem ρ σ values) (σ name))
  | .Realize name _ _ body, σ =>
      Function.update (exec junk ρ body (Function.update σ name (junk name))) name (σ name)
  | .ProducerConsumer _ _ body, σ => exec junk ρ body σ
  | .For name _ min extent body, σ =>
      iterate (fun i => exec junk (Function.update ρ name i) body) (eval sem ρ σ min)
        (eval sem ρ σ extent).toNat σ
  | .LetStmt name value body, σ => exec junk (Function.update ρ name (eval sem ρ σ value)) body σ
  | .IfThenElse condition then_case else_case, σ =>
      if eval sem ρ σ condition ≠ 0 then exec junk ρ then_case σ else exec junk ρ else_case σ
  | .Block first rest, σ => exec junk ρ rest (exec junk ρ first σ)

end

/-! ### Names -/

mutual

def freeVars : Expr F → List String
  | .imm _ => []
  | .var x => [x]
  | .op _ args => freeVarsArgs args
  | .not a => freeVars a
  | .and a b | .or a b => freeVars a ++ freeVars b
  | .select c t f => freeVars c ++ freeVars t ++ freeVars f
  | .letIn x v b => freeVars v ++ (freeVars b).filter (· ≠ x)
  | .call _ args _ => freeVarsArgs args

def freeVarsArgs : Exprs F → List String
  | .nil => []
  | .cons e rest => freeVars e ++ freeVarsArgs rest

end

mutual

/-- The functions an expression calls. -/
def calls : Expr F → List String
  | .imm _ | .var _ => []
  | .op _ args => callsArgs args
  | .not a => calls a
  | .and a b | .or a b => calls a ++ calls b
  | .select c t f => calls c ++ calls t ++ calls f
  | .letIn _ v b => calls v ++ calls b
  | .call g args _ => g :: callsArgs args

def callsArgs : Exprs F → List String
  | .nil => []
  | .cons e rest => calls e ++ callsArgs rest

end

mutual

def binders : Expr F → List String
  | .imm _ | .var _ => []
  | .op _ args => bindersArgs args
  | .not a => binders a
  | .and a b | .or a b => binders a ++ binders b
  | .select c t f => binders c ++ binders t ++ binders f
  | .letIn x v b => x :: (binders v ++ binders b)
  | .call _ args _ => bindersArgs args

def bindersArgs : Exprs F → List String
  | .nil => []
  | .cons e rest => binders e ++ bindersArgs rest

end

namespace Stmt

def freeVars : Stmt F → List String
  | .undefined => []
  | .Provide _ values args => freeVarsArgs values ++ freeVarsArgs args
  | .Realize _ bounds condition body =>
      freeVarsArgs bounds ++ SkipStages.freeVars condition ++ freeVars body
  | .ProducerConsumer _ _ body => freeVars body
  | .For x _ min extent body =>
      SkipStages.freeVars min ++ SkipStages.freeVars extent ++ (freeVars body).filter (· ≠ x)
  | .LetStmt x v body => SkipStages.freeVars v ++ (freeVars body).filter (· ≠ x)
  | .IfThenElse c t e => SkipStages.freeVars c ++ freeVars t ++ freeVars e
  | .Block a b => freeVars a ++ freeVars b

def binders : Stmt F → List String
  | .undefined => []
  | .Provide _ values args => bindersArgs values ++ bindersArgs args
  | .Realize _ bounds condition body =>
      bindersArgs bounds ++ SkipStages.binders condition ++ binders body
  | .ProducerConsumer _ _ body => binders body
  | .For x _ min extent body =>
      x :: (SkipStages.binders min ++ SkipStages.binders extent ++ binders body)
  | .LetStmt x v body => x :: (SkipStages.binders v ++ binders body)
  | .IfThenElse c t e => SkipStages.binders c ++ binders t ++ binders e
  | .Block a b => binders a ++ binders b

/-- The functions a statement provides or realizes. -/
def modified : Stmt F → List String
  | .undefined => []
  | .Provide name _ _ => [name]
  | .Realize name _ _ body => name :: modified body
  | .ProducerConsumer _ _ body => modified body
  | .For _ _ _ _ body => modified body
  | .LetStmt _ _ body => modified body
  | .IfThenElse _ t e => modified t ++ modified e
  | .Block a b => modified a ++ modified b

end Stmt

/-- No name is bound twice, or bound and free. -/
def Distinct (binders freeVars : List String) : Prop :=
  binders.Nodup ∧ ∀ x ∈ binders, x ∉ freeVars

def Stmt.Unique (s : Stmt F) : Prop := Distinct s.binders s.freeVars

end Vyasa.SkipStages
