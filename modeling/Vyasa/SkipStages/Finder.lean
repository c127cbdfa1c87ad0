import Vyasa.SkipStages.Syntax

/-! The predicate under which a function is used, and the pass that guards its production
with it. -/
namespace Vyasa.SkipStages

variable {F : Type} [DecidableEq F]

def const_true : Expr F := .imm 1

def const_false : Expr F := .imm 0

def is_one : Expr F → Bool
  | .imm v => v = 1
  | _ => false

def is_zero : Expr F → Bool
  | .imm v => v = 0
  | _ => false

mutual

/-- `expr_uses_var`: the name is used or defined. -/
def expr_uses_var (name : String) : Expr F → Bool
  | .imm _ => false
  | .var x => x = name
  | .op _ args => expr_uses_varArgs name args
  | .not a => expr_uses_var name a
  | .and a b | .or a b => expr_uses_var name a || expr_uses_var name b
  | .select c t f => expr_uses_var name c || expr_uses_var name t || expr_uses_var name f
  | .letIn x v b => x = name || expr_uses_var name v || expr_uses_var name b
  | .call g args _ => g = name || expr_uses_varArgs name args

def expr_uses_varArgs (name : String) : Exprs F → Bool
  | .nil => false
  | .cons e rest => expr_uses_var name e || expr_uses_varArgs name rest

end

def expr_uses_vars (e : Expr F) (names : List String) : Bool := names.any (expr_uses_var · e)

/-! ### Logical operators with eager constant folding -/

def make_and (a b : Expr F) : Expr F :=
  if is_zero a || is_one b then a
  else if is_zero b || is_one a then b
  else if a = b then a
  else .and a b

def make_or (a b : Expr F) : Expr F :=
  if is_zero a || is_one b then b
  else if is_zero b || is_one a then a
  else if a = b then a
  else .or a b

def make_not (a : Expr F) : Expr F :=
  if is_one a then .imm 0
  else if is_zero a then .imm 1
  else .not a

def make_select (a b c : Expr F) : Expr F :=
  if is_one a then b
  else if is_zero a then c
  else if is_one b then make_or a c
  else if is_zero b then make_and (make_not a) c
  else if is_one c then make_or (make_not a) b
  else if is_zero c then make_and a b
  else .select a b c

/-! ### `PredicateFinder` -/

/-- The part of the visitor's state that is scoped. -/
structure Scopes where
  buffer : String
  treat_selects_as_guards : Bool
  in_produce : Bool
  varying : List String
  in_pipeline : List String
  local_buffers : List String

/-- The part that is not: the predicate, and whether what was visited varies. -/
structure Found (F : Type) where
  predicate : Expr F
  varies : Bool

/-- What `visit_conditional` makes of the visits of its parts. -/
def Found.conditional (old : Expr F) (condition : Expr F) (true_case false_case cond : Found F) :
    Found F where
  predicate :=
    let predicate := make_or cond.predicate old
    if cond.varies then
      make_or predicate (make_or true_case.predicate false_case.predicate)
    else
      make_or predicate (make_select condition true_case.predicate false_case.predicate)
  varies := cond.varies || false_case.varies

/-- A let around the predicate, where it uses the name. -/
def wrapLet (name : String) (value predicate : Expr F) : Expr F :=
  if expr_uses_var name predicate then .letIn name value predicate else predicate

def Scopes.pushVarying (c : Scopes) (varies : Bool) (name : String) : Scopes :=
  if varies then { c with varying := name :: c.varying } else c

mutual

def find (c : Scopes) : Expr F → Found F → Found F
  | .imm _, s => s
  | .var x, s => { s with varies := s.varies || x ∈ c.varying }
  | .op _ args, s => findArgs c args s
  | .not a, s => find c a s
  | .and a b, s | .or a b, s => find c b (find c a s)
  | .select cond t f, s =>
      if c.treat_selects_as_guards then
        let true_case := find c t ⟨const_false, s.varies⟩
        let false_case := find c f ⟨const_false, true_case.varies⟩
        .conditional s.predicate cond true_case false_case (find c cond ⟨const_false, false⟩)
      else find c f (find c t (find c cond s))
  | .letIn x v b, s =>
      let value := find c v ⟨s.predicate, false⟩
      let body := find (c.pushVarying value.varies x) b
        ⟨value.predicate, value.varies || s.varies⟩
      { body with predicate := wrapLet x v body.predicate }
  | .call g args _, s =>
      let s := findArgs c args { s with varies := s.varies || g ∈ c.in_pipeline }
      if !c.in_produce && g = c.buffer then { s with predicate := const_true } else s

def findArgs (c : Scopes) : Exprs F → Found F → Found F
  | .nil, s => s
  | .cons e rest, s => findArgs c rest (find c e s)

end

def findStmt (c : Scopes) : Stmt F → Found F → Found F
  | .undefined, s => s
  | .Provide name values args, s =>
      let s := findArgs c args (findArgs c values s)
      if c.in_produce && name ≠ c.buffer && name ∉ c.local_buffers then
        { s with predicate := const_true }
      else s
  | .Realize name bounds condition body, s =>
      let c := { c with local_buffers := name :: c.local_buffers }
      findStmt c body (find c condition (findArgs c bounds s))
  | .ProducerConsumer name is_producer body, s =>
      findStmt { c with
        in_pipeline := name :: c.in_pipeline
        in_produce := c.in_produce || (is_producer && name = c.buffer) } body s
  | .For name _ min extent body, s =>
      let min_found := find c min s
      let should_pop := !is_one extent || min_found.varies
      let body := findStmt (c.pushVarying should_pop name) body (find c extent min_found)
      { body with
        predicate := if should_pop then body.predicate else wrapLet name min body.predicate }
  | .LetStmt x v b, s =>
      let value := find c v ⟨s.predicate, false⟩
      let body := findStmt (c.pushVarying value.varies x) b
        ⟨value.predicate, value.varies || s.varies⟩
      { body with predicate := wrapLet x v body.predicate }
  | .IfThenElse cond t e, s =>
      let true_case := findStmt c t ⟨const_false, s.varies⟩
      let false_case := findStmt c e ⟨const_false, true_case.varies⟩
      .conditional s.predicate cond true_case false_case (find c cond ⟨const_false, false⟩)
  | .Block a b, s => findStmt c b (findStmt c a s)

/-- The visitor as it is constructed. -/
def Scopes.start (buffer : String) (treat_selects_as_guards : Bool) : Scopes where
  buffer := buffer
  treat_selects_as_guards := treat_selects_as_guards
  in_produce := false
  varying := []
  in_pipeline := []
  local_buffers := []

def findPredicate (buffer : String) (treat_selects_as_guards : Bool) (body : Stmt F) : Expr F :=
  (findStmt (.start buffer treat_selects_as_guards) body ⟨const_false, false⟩).predicate

/-! ### `ProductionGuarder` and `StageSkipper` -/

def guardProduction (buffer : String) (compute_predicate : Expr F) : Stmt F → Stmt F
  | .undefined => .undefined
  | .Provide name values args => .Provide name values args
  | .Realize name bounds condition body =>
      .Realize name bounds condition (guardProduction buffer compute_predicate body)
  | .ProducerConsumer name is_producer body =>
      let body := guardProduction buffer compute_predicate body
      .ProducerConsumer name is_producer
        (if is_producer && name = buffer then .IfThenElse compute_predicate body .undefined
          else body)
  | .For name vectorized min extent body =>
      .For name vectorized min extent (guardProduction buffer compute_predicate body)
  | .LetStmt x v body => .LetStmt x v (guardProduction buffer compute_predicate body)
  | .IfThenElse cond t e =>
      .IfThenElse cond (guardProduction buffer compute_predicate t)
        (guardProduction buffer compute_predicate e)
  | .Block a b =>
      .Block (guardProduction buffer compute_predicate a) (guardProduction buffer compute_predicate b)

/-- The predicates of a realization. `simplified` is common subexpression elimination followed by
the simplifier. -/
def computePredicate (simplified : Expr F → Expr F) (func : String) (vector_vars : List String)
    (body : Stmt F) : Expr F :=
  let compute_predicate := simplified (findPredicate func true body)
  if expr_uses_vars compute_predicate vector_vars then const_true else compute_predicate

def allocPredicate (simplified : Expr F → Expr F) (func : String) (body : Stmt F) : Expr F :=
  simplified (findPredicate func false body)

def stageSkipper (simplified : Expr F → Expr F) (func : String) (vector_vars : List String)
    (in_vector_loop : Bool) : Stmt F → Stmt F
  | .undefined => .undefined
  | .Provide name values args => .Provide name values args
  | .Realize name bounds condition body =>
      let compute_predicate := computePredicate simplified func vector_vars body
      if name = func && !is_one compute_predicate then
        .Realize name bounds (allocPredicate simplified func body)
          (guardProduction name compute_predicate body)
      else
        .Realize name bounds condition
          (stageSkipper simplified func vector_vars in_vector_loop body)
  | .ProducerConsumer name is_producer body =>
      .ProducerConsumer name is_producer
        (stageSkipper simplified func vector_vars in_vector_loop body)
  | .For name vectorized min extent body =>
      .For name vectorized min extent
        (stageSkipper simplified func (if vectorized then name :: vector_vars else vector_vars)
          (in_vector_loop || vectorized) body)
  | .LetStmt x v body =>
      .LetStmt x v
        (stageSkipper simplified func
          (if in_vector_loop && expr_uses_vars v vector_vars then x :: vector_vars else vector_vars)
          in_vector_loop body)
  | .IfThenElse cond t e =>
      .IfThenElse cond (stageSkipper simplified func vector_vars in_vector_loop t)
        (stageSkipper simplified func vector_vars in_vector_loop e)
  | .Block a b =>
      .Block (stageSkipper simplified func vector_vars in_vector_loop a)
        (stageSkipper simplified func vector_vars in_vector_loop b)

/-- The passes of `skip_stages` over the functions it finds skippable, in its order. -/
def skip_stages (simplified : Expr F → Expr F) (order : List String) (s : Stmt F) : Stmt F :=
  order.foldl (fun s func => stageSkipper simplified func [] false s) s

end Vyasa.SkipStages
