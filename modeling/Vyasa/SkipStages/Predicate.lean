import Vyasa.SkipStages.Values

/-! Where a function is used, and which conditions guard its uses. -/
namespace Vyasa.SkipStages

variable {F : Type} (sem : F → List Int → Int) (junk : Memory)

/-! ### Uses -/

section

variable (buffer : String) (lazy in_produce : Bool)

mutual

/-- Evaluation reads the buffer outside of its produce nodes; where `lazy`, of a select only the
branch taken counts. -/
def needs (ρ : Env) (σ : Memory) : Expr F → Prop
  | .imm _ | .var _ => False
  | .op _ args => needsArgs ρ σ args
  | .not a => needs ρ σ a
  | .and a b | .or a b => needs ρ σ a ∨ needs ρ σ b
  | .select c t f =>
      needs ρ σ c ∨
        if lazy then (if eval sem ρ σ c ≠ 0 then needs ρ σ t else needs ρ σ f)
        else needs ρ σ t ∨ needs ρ σ f
  | .letIn x v b => needs ρ σ v ∨ needs (Function.update ρ x (eval sem ρ σ v)) σ b
  | .call g args _ => needsArgs ρ σ args ∨ (in_produce = false ∧ g = buffer)

def needsArgs (ρ : Env) (σ : Memory) : Exprs F → Prop
  | .nil => False
  | .cons e rest => needs ρ σ e ∨ needsArgs ρ σ rest

end

end

/-- A run reads the buffer outside of its produce nodes, or provides another function inside,
other than one of the given local ones. -/
def needsStmt (buffer : String) (lazy : Bool) (in_produce : Bool) (locals : List String)
    (ρ : Env) : Stmt F → Memory → Prop
  | .undefined, _ => False
  | .Provide name values args, σ =>
      needsArgs sem buffer lazy in_produce ρ σ values ∨
        needsArgs sem buffer lazy in_produce ρ σ args ∨
        (in_produce = true ∧ name ≠ buffer ∧ name ∉ locals)
  | .Realize name bounds condition body, σ =>
      needsArgs sem buffer lazy in_produce ρ σ bounds ∨
        needs sem buffer lazy in_produce ρ σ condition ∨
        needsStmt buffer lazy in_produce (name :: locals) ρ body
          (Function.update σ name (junk name))
  | .ProducerConsumer name is_producer body, σ =>
      needsStmt buffer lazy (in_produce || (is_producer && name = buffer)) locals ρ body σ
  | .For name _ min extent body, σ =>
      needs sem buffer lazy in_produce ρ σ min ∨ needs sem buffer lazy in_produce ρ σ extent ∨
        ∃ k < (eval sem ρ σ extent).toNat,
          needsStmt buffer lazy in_produce locals
            (Function.update ρ name (eval sem ρ σ min + k)) body
            (iterate (fun i => exec sem junk (Function.update ρ name i) body)
              (eval sem ρ σ min) k σ)
  | .LetStmt name value body, σ =>
      needs sem buffer lazy in_produce ρ σ value ∨
        needsStmt buffer lazy in_produce locals
          (Function.update ρ name (eval sem ρ σ value)) body σ
  | .IfThenElse condition then_case else_case, σ =>
      needs sem buffer lazy in_produce ρ σ condition ∨
        if eval sem ρ σ condition ≠ 0 then
          needsStmt buffer lazy in_produce locals ρ then_case σ
        else needsStmt buffer lazy in_produce locals ρ else_case σ
  | .Block first rest, σ =>
      needsStmt buffer lazy in_produce locals ρ first σ ∨
        needsStmt buffer lazy in_produce locals ρ rest (exec sem junk ρ first σ)

/-- The run does what `P` asks at every produce node of the buffer. -/
def atProduce (buffer : String) (P : Env → Memory → Prop) (ρ : Env) : Stmt F → Memory → Prop
  | .undefined, _ | .Provide _ _ _, _ => True
  | .Realize name _ _ body, σ => atProduce buffer P ρ body (Function.update σ name (junk name))
  | .ProducerConsumer name is_producer body, σ =>
      (is_producer = true → name = buffer → P ρ σ) ∧ atProduce buffer P ρ body σ
  | .For name _ min extent body, σ =>
      ∀ k < (eval sem ρ σ extent).toNat,
        atProduce buffer P (Function.update ρ name (eval sem ρ σ min + k)) body
          (iterate (fun i => exec sem junk (Function.update ρ name i) body)
            (eval sem ρ σ min) k σ)
  | .LetStmt name value body, σ =>
      atProduce buffer P (Function.update ρ name (eval sem ρ σ value)) body σ
  | .IfThenElse condition then_case else_case, σ =>
      if eval sem ρ σ condition ≠ 0 then atProduce buffer P ρ then_case σ
      else atProduce buffer P ρ else_case σ
  | .Block first rest, σ =>
      atProduce buffer P ρ first σ ∧ atProduce buffer P ρ rest (exec sem junk ρ first σ)

/-! ### Conditions that guard -/

section

variable (lazy : Bool)

mutual

/-- The variables the guarding conditions depend on, directly or by a let. -/
def guardVars : Expr F → List String
  | .imm _ | .var _ => []
  | .op _ args => guardVarsArgs args
  | .not a => guardVars a
  | .and a b | .or a b => guardVars a ++ guardVars b
  | .select c t f =>
      (if lazy then freeVars c else []) ++ guardVars c ++ guardVars t ++ guardVars f
  | .letIn x v b =>
      guardVars v ++ (guardVars b).filter (· ≠ x) ++ (if x ∈ guardVars b then freeVars v else [])
  | .call _ args _ => guardVarsArgs args

def guardVarsArgs : Exprs F → List String
  | .nil => []
  | .cons e rest => guardVars e ++ guardVarsArgs rest

end

def Stmt.guardVars : Stmt F → List String
  | .undefined => []
  | .Provide _ values args => guardVarsArgs lazy values ++ guardVarsArgs lazy args
  | .Realize _ bounds condition body =>
      guardVarsArgs lazy bounds ++ SkipStages.guardVars lazy condition ++ guardVars body
  | .ProducerConsumer _ _ body => guardVars body
  | .For x _ min extent body =>
      SkipStages.guardVars lazy min ++ SkipStages.guardVars lazy extent ++
        ((guardVars body).filter (· ≠ x) ++
          if x ∈ guardVars body then SkipStages.freeVars min else [])
  | .LetStmt x v body =>
      SkipStages.guardVars lazy v ++ ((guardVars body).filter (· ≠ x) ++
        if x ∈ guardVars body then SkipStages.freeVars v else [])
  | .IfThenElse c t e =>
      SkipStages.freeVars c ++ SkipStages.guardVars lazy c ++ guardVars t ++ guardVars e
  | .Block a b => guardVars a ++ guardVars b

mutual

/-- The names that are bound around what was found before them. -/
def lets : Expr F → List String
  | .imm _ | .var _ => []
  | .op _ args => letsArgs args
  | .not a => lets a
  | .and a b | .or a b => lets a ++ lets b
  | .select c t f => if lazy then [] else lets c ++ (lets t ++ lets f)
  | .letIn x v b => lets v ++ x :: lets b
  | .call _ args _ => letsArgs args

def letsArgs : Exprs F → List String
  | .nil => []
  | .cons e rest => lets e ++ letsArgs rest

end

def Stmt.lets : Stmt F → List String
  | .undefined => []
  | .Provide _ values args => letsArgs lazy values ++ letsArgs lazy args
  | .Realize _ bounds condition body =>
      letsArgs lazy bounds ++ (SkipStages.lets lazy condition ++ lets body)
  | .ProducerConsumer _ _ body => lets body
  | .For x _ min extent body =>
      SkipStages.lets lazy min ++ (SkipStages.lets lazy extent ++ x :: lets body)
  | .LetStmt x v body => SkipStages.lets lazy v ++ x :: lets body
  | .IfThenElse _ _ _ => []
  | .Block a b => lets a ++ lets b

/-- The guarding conditions of an earlier part do not use the names bound by a later one. -/
def Apart (lets guards : List String) : Prop := ∀ x ∈ lets, x ∉ guards

mutual

/-- No let captures a variable of a condition found before it. -/
def Scoped : Expr F → Prop
  | .imm _ | .var _ => True
  | .op _ args => ScopedArgs args
  | .not a => Scoped a
  | .and a b | .or a b => Scoped a ∧ Scoped b ∧ Apart (lets lazy b) (guardVars lazy a)
  | .select c t f =>
      Scoped c ∧ Scoped t ∧ Scoped f ∧
        (lazy = false → Apart (lets lazy t ++ lets lazy f) (guardVars lazy c) ∧
          Apart (lets lazy f) (guardVars lazy t))
  | .letIn x v b => Scoped v ∧ Scoped b ∧ Apart (x :: lets lazy b) (guardVars lazy v)
  | .call _ args _ => ScopedArgs args

def ScopedArgs : Exprs F → Prop
  | .nil => True
  | .cons e rest => Scoped e ∧ ScopedArgs rest ∧ Apart (letsArgs lazy rest) (guardVars lazy e)

end

def Stmt.Scoped : Stmt F → Prop
  | .undefined => True
  | .Provide _ values args =>
      ScopedArgs lazy values ∧ ScopedArgs lazy args ∧
        Apart (letsArgs lazy args) (guardVarsArgs lazy values)
  | .Realize _ bounds condition body =>
      ScopedArgs lazy bounds ∧ SkipStages.Scoped lazy condition ∧ Scoped body ∧
        Apart (SkipStages.lets lazy condition ++ body.lets lazy) (guardVarsArgs lazy bounds) ∧
        Apart (body.lets lazy) (SkipStages.guardVars lazy condition)
  | .ProducerConsumer _ _ body => Scoped body
  | .For x _ min extent body =>
      SkipStages.Scoped lazy min ∧ SkipStages.Scoped lazy extent ∧ Scoped body ∧
        Apart (SkipStages.lets lazy extent ++ x :: body.lets lazy)
          (SkipStages.guardVars lazy min) ∧
        Apart (x :: body.lets lazy) (SkipStages.guardVars lazy extent)
  | .LetStmt x v body =>
      SkipStages.Scoped lazy v ∧ Scoped body ∧
        Apart (x :: body.lets lazy) (SkipStages.guardVars lazy v)
  | .IfThenElse c t e => SkipStages.Scoped lazy c ∧ Scoped t ∧ Scoped e
  | .Block a b => Scoped a ∧ Scoped b ∧ Apart (b.lets lazy) (a.guardVars lazy)

end

/-- Some variable varies, or some function is one in whose pipeline this is. -/
def NamesVary (varying in_pipeline vars gs : List String) : Prop :=
  (∃ x ∈ vars, x ∈ varying) ∨ ∃ g ∈ gs, g ∈ in_pipeline

instance (varying in_pipeline vars gs : List String) :
    Decidable (NamesVary varying in_pipeline vars gs) :=
  inferInstanceAs (Decidable (_ ∨ _))

/-- An expression that uses a varying variable, or calls a function in whose pipeline it is. -/
abbrev variesIn (varying in_pipeline : List String) (e : Expr F) : Prop :=
  NamesVary varying in_pipeline (freeVars e) (calls e)

/-- An expression that varies, or that no function of `M` can change. -/
def Quiet (varying in_pipeline M : List String) (e : Expr F) : Prop :=
  variesIn varying in_pipeline e ∨ ∀ g ∈ calls e, g ∉ M

section

variable (lazy : Bool) (in_pipeline M : List String)

mutual

/-- Every condition that guards is quiet, with the lets it uses. -/
def guardsQuiet (varying : List String) : Expr F → Prop
  | .imm _ | .var _ => True
  | .op _ args => guardsQuietArgs varying args
  | .not a => guardsQuiet varying a
  | .and a b | .or a b => guardsQuiet varying a ∧ guardsQuiet varying b
  | .select c t f =>
      (lazy = true → Quiet varying in_pipeline M c) ∧ guardsQuiet varying c ∧
        guardsQuiet varying t ∧ guardsQuiet varying f
  | .letIn x v b =>
      (x ∈ guardVars lazy b → Quiet varying in_pipeline M v) ∧ guardsQuiet varying v ∧
        guardsQuiet (if variesIn varying in_pipeline v then x :: varying else varying) b
  | .call _ args _ => guardsQuietArgs varying args

def guardsQuietArgs (varying : List String) : Exprs F → Prop
  | .nil => True
  | .cons e rest => guardsQuiet varying e ∧ guardsQuietArgs varying rest

end

end

/-- The names a statement provides. -/
def Stmt.provided : Stmt F → List String
  | .undefined => []
  | .Provide name _ _ => [name]
  | .Realize _ _ _ body => provided body
  | .ProducerConsumer _ _ body => provided body
  | .For _ _ _ _ body => provided body
  | .LetStmt _ _ body => provided body
  | .IfThenElse _ t e => provided t ++ provided e
  | .Block a b => provided a ++ provided b

/-- In the body of a realization: the guarding conditions that do not vary call no function of
`M`, and the produce nodes of the buffer provide no function realized around them. A loop
variable varies unless its loop has the one iteration. -/
def guardsQuietStmt (buffer : String) (lazy : Bool) (M : List String)
    (varying in_pipeline locals : List String) : Stmt F → Prop
  | .undefined => True
  | .Provide _ values args =>
      guardsQuietArgs lazy in_pipeline M varying values ∧
        guardsQuietArgs lazy in_pipeline M varying args
  | .Realize name bounds condition body =>
      guardsQuietArgs lazy in_pipeline M varying bounds ∧
        guardsQuiet lazy in_pipeline M varying condition ∧
        guardsQuietStmt buffer lazy M varying in_pipeline (name :: locals) body
  | .ProducerConsumer name is_producer body =>
      (is_producer = true → name = buffer → ∀ g ∈ locals, g ∉ body.provided) ∧
        guardsQuietStmt buffer lazy M varying (name :: in_pipeline) locals body
  | .For x _ min extent body =>
      (x ∈ body.guardVars lazy → Quiet varying in_pipeline M min) ∧
        guardsQuiet lazy in_pipeline M varying min ∧
        guardsQuiet lazy in_pipeline M varying extent ∧
        guardsQuietStmt buffer lazy M
          (if is_one extent = true ∧ ¬ variesIn varying in_pipeline min then varying
            else x :: varying)
          in_pipeline locals body
  | .LetStmt x v body =>
      (x ∈ body.guardVars lazy → Quiet varying in_pipeline M v) ∧
        guardsQuiet lazy in_pipeline M varying v ∧
        guardsQuietStmt buffer lazy M
          (if variesIn varying in_pipeline v then x :: varying else varying) in_pipeline locals body
  | .IfThenElse c t e =>
      Quiet varying in_pipeline M c ∧ guardsQuiet lazy in_pipeline M varying c ∧
        guardsQuietStmt buffer lazy M varying in_pipeline locals t ∧
        guardsQuietStmt buffer lazy M varying in_pipeline locals e
  | .Block a b =>
      guardsQuietStmt buffer lazy M varying in_pipeline locals a ∧
        guardsQuietStmt buffer lazy M varying in_pipeline locals b

end Vyasa.SkipStages
