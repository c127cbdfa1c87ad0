import Vyasa.SkipStages.Guard
import Vyasa.SkipStages.Names

/-! Skipping stages does not change the outputs, as long as the conditions that guard the uses of
a function keep their values throughout its realization. -/
namespace Vyasa.SkipStages

variable {F : Type} [DecidableEq F]

section

variable (sem : F → List Int → Int) (simplified : Expr F → Expr F) (func : String)

/-- What is asked of the body of a realization of a function: its guarding conditions are quiet,
names are told apart, and simplification keeps the truth of the two predicates. -/
structure Skippable (body : Stmt F) : Prop where
  quiet : ∀ lazy, guardsQuietStmt func lazy (func :: body.modified) [] [] [] body
  names : ∀ lazy, body.Scoped lazy
  apart : ∀ lazy, Apart body.binders (body.guardVars lazy)
  truth : ∀ lazy ρ σ, Holds sem ρ σ (simplified (findPredicate func lazy body)) ↔
    Holds sem ρ σ (findPredicate func lazy body)

/-- The body of every realization of the function. -/
def everyRealize (P : Stmt F → Prop) : Stmt F → Prop
  | .undefined | .Provide _ _ _ => True
  | .Realize name _ _ body => (name = func → P body) ∧ everyRealize P body
  | .ProducerConsumer _ _ body => everyRealize P body
  | .For _ _ _ _ body => everyRealize P body
  | .LetStmt _ _ body => everyRealize P body
  | .IfThenElse _ t e => everyRealize P t ∧ everyRealize P e
  | .Block a b => everyRealize P a ∧ everyRealize P b

def Admissible (s : Stmt F) : Prop := everyRealize func (Skippable sem simplified func) s

variable (junk : Memory)

/-- At every realization of the function a run of the pass's input comes to and the pass guards:
if a value is used, the compute predicate is true at every produce node; if one is loaded, used
or not, the allocate predicate is true. -/
def Covered (vector_vars : List String) (in_vector_loop : Bool) (ρ : Env) :
    Stmt F → Memory → Prop
  | .undefined, _ | .Provide _ _ _, _ => True
  | .Realize name _ _ body, σ =>
      if name = func ∧ is_one (computePredicate simplified func vector_vars body) = false then
        (needsStmt sem junk func true false [] ρ body (Function.update σ name (junk name)) →
          atProduce sem junk func
            (fun ρ σ => Holds sem ρ σ (computePredicate simplified func vector_vars body)) ρ body
            (Function.update σ name (junk name))) ∧
        (needsStmt sem junk func false false [] ρ body (Function.update σ name (junk name)) →
          Holds sem ρ σ (allocPredicate simplified func body))
      else Covered vector_vars in_vector_loop ρ body (Function.update σ name (junk name))
  | .ProducerConsumer _ _ body, σ => Covered vector_vars in_vector_loop ρ body σ
  | .For name vectorized min extent body, σ =>
      ∀ k < (eval sem ρ σ extent).toNat,
        Covered (if vectorized then name :: vector_vars else vector_vars)
          (in_vector_loop || vectorized) (Function.update ρ name (eval sem ρ σ min + k)) body
          (iterate (fun i => exec sem junk (Function.update ρ name i) body)
            (eval sem ρ σ min) k σ)
  | .LetStmt x v body, σ =>
      Covered (if in_vector_loop && expr_uses_vars v vector_vars then x :: vector_vars
          else vector_vars) in_vector_loop (Function.update ρ x (eval sem ρ σ v)) body σ
  | .IfThenElse condition t e, σ =>
      if eval sem ρ σ condition ≠ 0 then Covered vector_vars in_vector_loop ρ t σ
      else Covered vector_vars in_vector_loop ρ e σ
  | .Block a b, σ =>
      Covered vector_vars in_vector_loop ρ a σ ∧
        Covered vector_vars in_vector_loop ρ b (exec sem junk ρ a σ)

end

/-! ### One pass -/

section

variable {sem : F → List Int → Int} {simplified : Expr F → Expr F} {func : String}
  {junk : Memory} {body : Stmt F} {ρ : Env} {σ : Memory} {vector_vars : List String}

theorem Skippable.fixed (h : Skippable sem simplified func body) (lazy : Bool) :
    Fixed sem body.binders (func :: body.modified) (simplified (findPredicate func lazy body)) := by
  obtain ⟨hFixed, _⟩ := findPredicate_carries sem (fun _ _ _ => 0)
    (List.subset_cons_self _ _) (h.quiet lazy) (h.names lazy) (h.apart lazy)
  intro ρ ρ' σ σ' hρ hσ
  rw [h.truth, h.truth, hFixed ρ ρ' σ σ' hρ hσ]

theorem Skippable.holds (h : Skippable sem simplified func body) {lazy : Bool}
    (hNeeds : needsStmt sem junk func lazy false [] ρ body σ) :
    Holds sem ρ σ (simplified (findPredicate func lazy body)) := by
  obtain ⟨_, hHolds⟩ := findPredicate_carries sem junk
    (List.subset_cons_self _ _) (h.quiet lazy) (h.names lazy) (h.apart lazy)
  exact (h.truth lazy ρ σ).mpr (hHolds ρ σ hNeeds)

theorem Skippable.atProduce (h : Skippable sem simplified func body) {lazy : Bool}
    (hHolds : Holds sem ρ σ (simplified (findPredicate func lazy body))) :
    atProduce sem junk func
      (fun ρ σ => Holds sem ρ σ (simplified (findPredicate func lazy body))) ρ body σ := by
  refine atProduce_of_fixed (fun ρ' σ' hρ hσ => (h.fixed lazy ρ ρ' σ σ' hρ hσ).mp hHolds) body
    (List.subset_cons_self _ _) (List.Subset.refl _) .refl .refl

/-- The guarded body differs at most in the function itself. -/
theorem Skippable.exec_guard (h : Skippable sem simplified func body) :
    MemEq [func] (exec sem junk ρ body σ)
      (exec sem junk ρ (guardProduction func (simplified (findPredicate func true body)) body) σ) := by
  by_cases hHolds : Holds sem ρ σ (simplified (findPredicate func true body))
  · rw [exec_guard_of_atProduce body (h.atProduce hHolds)]
    exact .refl
  · refine exec_guard_of_unused (fun ρ' σ' hρ hσ hTrue => ?_) body (List.subset_cons_self _ _)
      (List.Subset.refl _) (h.quiet true) .refl .refl .refl fun hNeeds => hHolds (h.holds hNeeds)
    exact hHolds ((h.fixed true ρ ρ' σ σ' hρ hσ).mpr hTrue)

/-- A predicate that is not trivial is the one found. -/
theorem computePredicate_of_not_one
    (h : is_one (computePredicate simplified func vector_vars body) = false) :
    computePredicate simplified func vector_vars body =
      simplified (findPredicate func true body) := by
  rw [computePredicate] at h ⊢
  split at h
  · cases h
  · rename_i hVector
    rw [if_neg hVector]

/-- A pass over the realizations of one function. -/
theorem exec_stageSkipper (s : Stmt F) (h : Admissible sem simplified func s)
    {in_vector_loop : Bool} : exec sem junk ρ
      (stageSkipper simplified func vector_vars in_vector_loop s) σ = exec sem junk ρ s σ := by
  induction s generalizing ρ σ vector_vars in_vector_loop with
  | undefined | Provide => rfl
  | Realize name bounds condition body ih =>
    rw [stageSkipper]
    split
    · rename_i hHere
      simp only [Bool.and_eq_true, decide_eq_true_iff, Bool.not_eq_true'] at hHere
      obtain ⟨rfl, hOne⟩ := hHere
      rw [computePredicate_of_not_one hOne, exec, exec]
      have hBody : MemEq [name] (exec sem junk ρ body (Function.update σ name (junk name)))
          (exec sem junk ρ (guardProduction name (simplified (findPredicate name true body)) body)
            (Function.update σ name (junk name))) := (h.1 rfl).exec_guard
      funext g
      by_cases hg : g = name
      · rw [hg, Function.update_self, Function.update_self]
      · rw [Function.update_of_ne hg, Function.update_of_ne hg]
        exact (hBody g (by simpa using hg)).symm
    · rw [exec, exec, ih h.2]
  | ProducerConsumer name is_producer body ih => exact ih h
  | For name vectorized min extent body ih =>
    rw [stageSkipper, exec, exec]
    exact iterate_congr fun k _ => ih h
  | LetStmt name value body ih => exact ih h
  | IfThenElse condition then_case else_case ihThen ihElse =>
    rw [stageSkipper, exec, exec, ihThen h.1, ihElse h.2]
  | Block first rest ihFirst ihRest =>
    rw [stageSkipper, exec, exec, ihFirst h.1, ihRest h.2]

theorem covered_of_admissible (s : Stmt F) (h : Admissible sem simplified func s)
    {in_vector_loop : Bool} :
    Covered sem simplified func junk vector_vars in_vector_loop ρ s σ := by
  induction s generalizing ρ σ vector_vars in_vector_loop with
  | undefined | Provide => trivial
  | Realize name bounds condition body ih =>
    rw [Covered]
    split
    · rename_i hHere
      obtain ⟨rfl, hOne⟩ := hHere
      rw [computePredicate_of_not_one hOne]
      refine ⟨fun hNeeds => (h.1 rfl).atProduce ((h.1 rfl).holds hNeeds), fun hNeeds => ?_⟩
      refine ((h.1 rfl).fixed false ρ ρ _ _ .refl ?_).mpr ((h.1 rfl).holds hNeeds)
      exact .update List.mem_cons_self _
    · exact ih h.2
  | ProducerConsumer name is_producer body ih => exact ih h
  | For name vectorized min extent body ih => exact fun k _ => ih h
  | LetStmt name value body ih => exact ih h
  | IfThenElse condition then_case else_case ihThen ihElse =>
    rw [Covered]
    split
    · exact ihThen h.1
    · exact ihElse h.2
  | Block first rest ihFirst ihRest => exact ⟨ihFirst h.1, ihRest h.2⟩

end

/-! ### All passes -/

/-- A fact about every pass: about the function and the statement before it. -/
def Passes (simplified : Expr F → Expr F) (P : String → Stmt F → Prop) :
    List String → Stmt F → Prop
  | [], _ => True
  | func :: order, s => P func s ∧ Passes simplified P order (stageSkipper simplified func [] false s)

/-- Where every pass finds its guarding conditions quiet, a used function is computed, a loaded
one is allocated, and no function outside of its realization changes. -/
theorem skip_stages_outputs {sem : F → List Int → Int} {simplified : Expr F → Expr F}
    {order : List String} {s : Stmt F}
    (h : Passes simplified (Admissible sem simplified) order s) :
    Passes simplified (fun func s => ∀ junk ρ σ,
        Covered sem simplified func junk [] false ρ s σ) order s ∧
      ∀ junk ρ σ, exec sem junk ρ (skip_stages simplified order s) σ = exec sem junk ρ s σ := by
  induction order generalizing s with
  | nil => exact ⟨trivial, fun _ _ _ => rfl⟩
  | cons func order ih =>
    obtain ⟨hCovered, hRest⟩ := ih h.2
    refine ⟨⟨fun junk ρ σ => covered_of_admissible s h.1, hCovered⟩, fun junk ρ σ => ?_⟩
    exact (hRest junk ρ σ).trans (exec_stageSkipper s h.1)

/-! ### Unique names -/

theorem Skippable.of_unique {sem : F → List Int → Int} {simplified : Expr F → Expr F}
    {func : String} {body : Stmt F} (h : body.Unique)
    (hQuiet : ∀ lazy, guardsQuietStmt func lazy (func :: body.modified) [] [] [] body)
    (hTruth : ∀ lazy ρ σ, Holds sem ρ σ (simplified (findPredicate func lazy body)) ↔
      Holds sem ρ σ (findPredicate func lazy body)) :
    Skippable sem simplified func body :=
  ⟨hQuiet, fun _ => h.scoped, fun _ => h.apart, hTruth⟩

/-! ### A condition the realization changes -/

/-- Addition, and equality. -/
inductive ArithOp
  | add
  | eq
  deriving DecidableEq

def ArithOp.sem : ArithOp → List Int → Int
  | .add, args => args.sum
  | .eq, args => truth (args[0]? = args[1]?)

/-- `out() = select(flag() == 1, f(), out() + 1)` over two iterations, with `f` computed before
them. -/
def update_with (flag : String) : Stmt ArithOp :=
  .Realize "f" .nil (.imm 1) (.Block
    (.ProducerConsumer "f" true (.Provide "f" (.cons (.imm 7) .nil) .nil))
    (.ProducerConsumer "f" false (.For "r" false (.imm 0) (.imm 2)
      (.Provide "out" (.cons (.select
        (.op .eq (.cons (.call flag .nil 0) (.cons (.imm 1) .nil)))
        (.call "f" .nil 0)
        (.op .add (.cons (.call "out" .nil 0) (.cons (.imm 1) .nil)))) .nil) .nil))))

theorem update_with_unique (flag : String) : (update_with flag).Unique := by
  simp [Stmt.Unique, Distinct, update_with, Stmt.binders, Stmt.freeVars, binders, bindersArgs,
    freeVars, freeVarsArgs]

theorem skip_stages_outputs_flag :
    exec ArithOp.sem (fun _ _ _ => 0) (fun _ => 0)
      (skip_stages id ["f"] (update_with "flag")) (fun _ _ _ => 1) "out" 0 [] = 7 := by
  have hBody : (update_with "flag").Unique := update_with_unique "flag"
  have hAll : Passes id (Admissible ArithOp.sem id) ["f"] (update_with "flag") := by
    refine ⟨⟨fun _ => .of_unique hBody (fun lazy => ?_) fun _ _ _ => Iff.rfl, trivial, trivial⟩,
      trivial⟩
    simp [guardsQuietStmt, guardsQuietArgs, guardsQuiet, Quiet, Stmt.guardVars, guardVarsArgs,
      guardVars, freeVars, freeVarsArgs, Stmt.modified, calls, callsArgs]
  rw [(skip_stages_outputs hAll).2]
  rfl

/-- The condition is false where `f` is computed, and true where it is used: `out` counts up to
it. -/
theorem skip_stages_stale_condition : (update_with "out").Unique ∧
    exec ArithOp.sem (fun _ _ _ => 0) (fun _ => 0) (update_with "out") (fun _ _ _ => 0)
      "out" 0 [] = 7 ∧
    exec ArithOp.sem (fun _ _ _ => 0) (fun _ => 0)
      (skip_stages id ["f"] (update_with "out")) (fun _ _ _ => 0) "out" 0 [] = 0 :=
  ⟨update_with_unique "out", rfl, rfl⟩

/-- `g` is produced together with `f`, inside its produce node. -/
def produced_together : Stmt ArithOp :=
  .Realize "f" .nil (.imm 1) (.Realize "g" .nil (.imm 1) (.Block
    (.ProducerConsumer "f" true (.Block (.Provide "f" (.cons (.imm 7) .nil) .nil)
      (.Provide "g" (.cons (.imm 8) .nil) .nil)))
    (.Provide "out" (.cons (.select
      (.op .eq (.cons (.call "flag" .nil 0) (.cons (.imm 1) .nil)))
      (.call "f" .nil 0) (.call "g" .nil 0)) .nil) .nil)))

-- Where `f` is not used, `g` is not computed either, as if it were local to the production of `f`.
example :
    exec ArithOp.sem (fun _ _ _ => 0) (fun _ => 0) produced_together (fun _ _ _ => 0)
      "out" 0 [] = 8 ∧
    exec ArithOp.sem (fun _ _ _ => 0) (fun _ => 0) (skip_stages id ["f"] produced_together)
      (fun _ _ _ => 0) "out" 0 [] = 0 :=
  ⟨rfl, rfl⟩

end Vyasa.SkipStages
