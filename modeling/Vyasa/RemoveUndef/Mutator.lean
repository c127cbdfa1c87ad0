import Mathlib.Data.List.Basic
import Mathlib.Logic.Function.Basic

/-! Expressions and statements in which `undef()` stands for a value that must not be stored,
and the mutator that takes it out again. -/
namespace Vyasa.RemoveUndef

mutual

/-- `op` stands for every node whose operands are all mutated in turn: arithmetic, comparisons,
casts, loads and calls. -/
inductive Expr (F : Type)
  | imm (value : Int)
  | var (name : String)
  | op (f : F) (args : Exprs F)
  | not (a : Expr F)
  | and (a b : Expr F)
  | select (condition true_value false_value : Expr F)
  | letIn (name : String) (value body : Expr F)
  | undef
  deriving DecidableEq

inductive Exprs (F : Type)
  | nil
  | cons (e : Expr F) (rest : Exprs F)
  deriving DecidableEq

end

/-- `undefined` is the undefined `Stmt`, which stands for a missing else case. -/
inductive Stmt (F : Type)
  | undefined
  | Store (name : String) (predicate value index : Expr F)
  | Provide (name : String) (values args : List (Expr F))
  | For (name : String) (min extent : Expr F) (body : Stmt F)
  | LetStmt (name : String) (value : Expr F) (body : Stmt F)
  | IfThenElse (condition : Expr F) (then_case else_case : Stmt F)
  | Block (first rest : Stmt F)

variable {F : Type}

/-! ### Runs -/

/-- What the elements of each function or buffer hold. -/
abbrev Memory : Type := String → Nat → List Int → Int

/-- A variable without a value is one whose let is undef. -/
abbrev Env : Type := String → Option Int

structure Write where
  name : String
  element : Nat
  location : List Int
  value : Int
  deriving DecidableEq

structure State where
  mem : Memory
  writes : List Write

def State.write (s : State) (w : Write) : State where
  mem := Function.update s.mem w.name
    (Function.update (s.mem w.name) w.element
      (Function.update (s.mem w.name w.element) w.location w.value))
  writes := s.writes ++ [w]

section

variable (sem : F → Memory → List Int → Int)

mutual

/-- The value, where undef is no value. Of a select only the branch taken counts. -/
def eval (mem : Memory) (ρ : Env) : Expr F → Option Int
  | .imm v => some v
  | .var x => ρ x
  | .op f args => do return sem f mem (← evalArgs mem ρ args)
  | .not a => do return if (← eval mem ρ a) = 0 then 1 else 0
  | .and a b => do
      let va ← eval mem ρ a
      let vb ← eval mem ρ b
      return if va ≠ 0 ∧ vb ≠ 0 then 1 else 0
  | .select c t f => do
      let vc ← eval mem ρ c
      if vc ≠ 0 then eval mem ρ t else eval mem ρ f
  | .letIn x v b => eval mem (Function.update ρ x (eval mem ρ v)) b
  | .undef => none

def evalArgs (mem : Memory) (ρ : Env) : Exprs F → Option (List Int)
  | .nil => some []
  | .cons e rest => do return (← eval mem ρ e) :: (← evalArgs mem ρ rest)

end

/-- The writes of one `Provide`: the elements of the tuple that have a value. -/
def providedWrites (name : String) (location : List Int) : Nat → List (Option Int) → List Write
  | _, [] => []
  | i, none :: rest => providedWrites name location (i + 1) rest
  | i, some v :: rest => ⟨name, i, location, v⟩ :: providedWrites name location (i + 1) rest

/-- A store of an undef value, or to an undef location, is skipped. -/
def exec (ρ : Env) : Stmt F → State → State
  | .undefined, s => s
  | .Store name predicate value index, s =>
      match eval sem s.mem ρ predicate, eval sem s.mem ρ value, eval sem s.mem ρ index with
      | some p, some v, some i => if p ≠ 0 then s.write ⟨name, 0, [i], v⟩ else s
      | _, _, _ => s
  | .Provide name values args, s =>
      match args.mapM (eval sem s.mem ρ) with
      | none => s
      | some location =>
          (providedWrites name location 0 (values.map (eval sem s.mem ρ))).foldl State.write s
  | .For name min extent body, s =>
      match eval sem s.mem ρ min, eval sem s.mem ρ extent with
      | some lo, some n =>
          (List.range n.toNat).foldl
            (fun s (i : Nat) => exec (Function.update ρ name (some (lo + i))) body s) s
      | _, _ => s
  | .LetStmt name value body, s => exec (Function.update ρ name (eval sem s.mem ρ value)) body s
  | .IfThenElse condition then_case else_case, s =>
      match eval sem s.mem ρ condition with
      | none => s
      | some c => if c ≠ 0 then exec ρ then_case s else exec ρ else_case s
  | .Block first rest, s => exec ρ rest (exec ρ first s)

end

/-! ### The mutator -/

mutual

/-- `substitute`: a let of the name hides it. -/
def substitute (name : String) (replacement : Expr F) : Expr F → Expr F
  | .imm v => .imm v
  | .var x => if x = name then replacement else .var x
  | .op f args => .op f (substituteArgs name replacement args)
  | .not a => .not (substitute name replacement a)
  | .and a b => .and (substitute name replacement a) (substitute name replacement b)
  | .select c t f =>
      .select (substitute name replacement c) (substitute name replacement t)
        (substitute name replacement f)
  | .letIn x v b =>
      .letIn x (substitute name replacement v) (if x = name then b else substitute name replacement b)
  | .undef => .undef

def substituteArgs (name : String) (replacement : Expr F) : Exprs F → Exprs F
  | .nil => .nil
  | .cons e rest => .cons (substitute name replacement e) (substituteArgs name replacement rest)

end

/-- The predicate, as the conditions it is the `&&` of, the first one first. It is undefined
where there is none. -/
abbrev Predicate (F : Type) : Type := List (Expr F)

def Predicate.toExpr : Predicate F → Option (Expr F)
  | [] => none
  | c :: rest => some (rest.foldl .and c)

mutual

/-- The mutator on an expression, from the predicate so far; no result is an undefined `Expr`. -/
def mutate (dead_vars : List String) : Expr F → Predicate F → Option (Expr F) × Predicate F
  | .imm v, predicate => (some (.imm v), predicate)
  | .var x, predicate => (if x ∈ dead_vars then none else some (.var x), predicate)
  | .op f args, predicate =>
      match mutateArgs dead_vars args predicate with
      | (none, predicate) => (none, predicate)
      | (some args, predicate) => (some (.op f args), predicate)
  | .not a, predicate =>
      match mutate dead_vars a predicate with
      | (none, predicate) => (none, predicate)
      | (some a, predicate) => (some (.not a), predicate)
  | .and a b, predicate =>
      match mutate dead_vars a predicate with
      | (none, predicate) => (none, predicate)
      | (some a, predicate) =>
          match mutate dead_vars b predicate with
          | (none, predicate) => (none, predicate)
          | (some b, predicate) => (some (.and a b), predicate)
  | .select condition true_value false_value, predicate =>
      let (cond, predicate) := mutate dead_vars condition predicate
      let (t, predicate) := mutate dead_vars true_value predicate
      let (f, predicate) := mutate dead_vars false_value predicate
      match cond, t, f with
      | none, _, _ => (none, predicate)
      | some _, none, none => (none, predicate)
      -- the cases are swapped so that the false one is undefined
      | some cond, none, some f => (some f, predicate ++ [.not cond])
      | some cond, some t, none => (some t, predicate ++ [cond])
      | some cond, some t, some f => (some (.select cond t f), predicate)
  | .letIn name value body, predicate =>
      match mutate dead_vars value predicate with
      | (none, predicate) => mutate (name :: dead_vars) body predicate
      | (some value, predicate) =>
          match mutate dead_vars body predicate with
          | (none, predicate) => (none, predicate)
          | (some body, predicate) =>
              (some (.letIn name value body), predicate.map (substitute name value))
  | .undef, predicate => (none, predicate)

def mutateArgs (dead_vars : List String) : Exprs F → Predicate F → Option (Exprs F) × Predicate F
  | .nil, predicate => (some .nil, predicate)
  | .cons e rest, predicate =>
      match mutate dead_vars e predicate with
      | (none, predicate) => (none, predicate)
      | (some e, predicate) =>
          match mutateArgs dead_vars rest predicate with
          | (none, predicate) => (none, predicate)
          | (some rest, predicate) => (some (.cons e rest), predicate)

end

section

variable [DecidableEq F]

/-- `user_assert` on neighbours: the conditions of the elements are the same. -/
def sameConditions : List (Predicate F) → Bool
  | p :: q :: rest => p.toExpr = q.toExpr && sameConditions (q :: rest)
  | _ => true

/-- The new arguments of a `Provide` with the predicate of each, or the predicate left behind
by an argument that is undefined. -/
def provideArgs (dead_vars : List String) :
    List (Expr F) → Except (Predicate F) (List (Expr F × Predicate F))
  | [] => .ok []
  | arg :: rest =>
      match mutate dead_vars arg [] with
      | (none, predicate) => .error predicate
      | (some arg, predicate) =>
          match provideArgs dead_vars rest with
          | .error predicate => .error predicate
          | .ok rest => .ok ((arg, predicate) :: rest)

/-- The new values of a `Provide`, each with its predicate. -/
def provideValues (dead_vars : List String) (values : List (Expr F)) :
    List (Option (Expr F) × Predicate F) :=
  values.map fun value => mutate dead_vars value []

/-- Guard a statement by the predicate, if there is one. -/
def guarded (predicate : Predicate F) (stmt : Stmt F) : Stmt F :=
  match predicate.toExpr with
  | none => stmt
  | some condition => .IfThenElse condition stmt .undefined

/-- The mutator on a statement. It fails where an assertion of the pass does; a result without
a statement is the undefined `Stmt`. -/
def mutateStmt (dead_vars : List String) :
    Stmt F → Predicate F → Option (Option (Stmt F) × Predicate F)
  | .undefined, predicate => some (none, predicate)
  | .Store name store_predicate value index, _ =>
      let (pred, predicate) := mutate dead_vars store_predicate []
      match mutate dead_vars value predicate with
      | (none, predicate) => some (none, predicate)
      | (some value, predicate) =>
          match mutate dead_vars index predicate with
          | (none, predicate) => some (none, predicate)
          | (some index, predicate) =>
              match pred with
              -- a `Store` with an undefined predicate
              | none => none
              | some pred => some (some (guarded predicate (.Store name pred value index)), [])
  | .Provide name values args, _ =>
      match provideArgs dead_vars args with
      | .error predicate => some (none, predicate)
      | .ok new_args =>
          if !sameConditions (new_args.map Prod.snd) then none
          else
            let new_values := provideValues dead_vars values
            -- the predicate is what the last value, or else the last argument, left in it
            let predicate := ((new_values.map Prod.snd).getLast?.orElse fun _ =>
              (new_args.map Prod.snd).getLast?).getD []
            if new_values.all fun v => v.1.isNone then some (none, predicate)
            else if !sameConditions ((new_values.filter fun v => v.1.isSome).map Prod.snd) then none
            else
              some (some (guarded predicate (.Provide name
                (new_values.map fun v => v.1.getD .undef) (new_args.map Prod.fst))), [])
  | .For name min extent body, predicate =>
      match mutate dead_vars min predicate with
      | (none, predicate) => some (none, predicate)
      | (some min, predicate) =>
          match mutate dead_vars extent predicate with
          | (none, predicate) => some (none, predicate)
          | (some extent, predicate) =>
              match mutateStmt dead_vars body predicate with
              | none => none
              | some (none, predicate) => some (none, predicate)
              | some (some body, predicate) => some (some (.For name min extent body), predicate)
  | .LetStmt name value body, predicate =>
      match mutate dead_vars value predicate with
      | (none, predicate) => mutateStmt (name :: dead_vars) body predicate
      | (some value, predicate) =>
          match mutateStmt dead_vars body predicate with
          | none => none
          | some (none, predicate) => some (none, predicate)
          | some (some body, predicate) =>
              some (some (.LetStmt name value body), predicate.map (substitute name value))
  | .IfThenElse condition then_case else_case, predicate =>
      match mutate dead_vars condition predicate with
      | (none, predicate) => some (none, predicate)
      | (some condition, predicate) =>
          match mutateStmt dead_vars then_case predicate with
          | none => none
          | some (then_case, predicate) =>
              match mutateStmt dead_vars else_case predicate with
              | none => none
              | some (else_case, predicate) =>
                  match then_case, else_case with
                  | none, none => some (none, predicate)
                  | none, some else_case =>
                      some (some (.IfThenElse (.not condition) else_case .undefined), predicate)
                  | some then_case, else_case =>
                      some (some (.IfThenElse condition then_case (else_case.getD .undefined)),
                        predicate)
  | .Block first rest, predicate =>
      match mutateStmt dead_vars first predicate with
      | none => none
      | some (first, predicate) =>
          match mutateStmt dead_vars rest predicate with
          | none => none
          | some (none, predicate) => some (first, predicate)
          | some (some rest, predicate) =>
              match first with
              | none => some (some rest, predicate)
              | some first => some (some (.Block first rest), predicate)

/-- A predicate left at the end is an internal error. -/
def remove_undef (s : Stmt F) : Option (Option (Stmt F)) :=
  match mutateStmt [] s [] with
  | some (s, []) => some s
  | _ => none

end

attribute [grind =] eval exec mutate mutateStmt

end Vyasa.RemoveUndef
