import Vyasa.CSE.Mutator
import Vyasa.CSE.GVN
import Mathlib

/-! The two ways in which lets are substituted into a graph: from the outside with a scope,
and from the inside one let at a time. Both compute the same term. -/
namespace Vyasa.CSE

open Binding

/-! ### The scope of `RemoveLets` -/

/-- The values of a name, the innermost first. -/
abbrev Scope := String → List Expr

namespace Scope

def push (scope : Scope) (name : String) (value : Expr) : Scope :=
  Function.update scope name (value :: scope name)

def pop (scope : Scope) (name : String) : Scope :=
  Function.update scope name (scope name).tail

def get (scope : Scope) (name : String) : Option Expr := (scope name).head?

/-- The terms of the names in scope. -/
def terms (scope : Scope) : Binding.Scope Op IREquality.Ty String :=
  fun name => (scope.get name).map Expr.term

theorem pop_push (scope : Scope) (name : String) (value : Expr) :
    (scope.push name value).pop name = scope := by
  funext x
  by_cases hx : x = name
  · subst hx
    simp [push, pop]
  · simp [push, pop, Function.update_of_ne hx]

theorem terms_push (scope : Scope) (name : String) (value : Expr) :
    (scope.push name value).terms = scope.terms.bind name value.term := by
  funext x
  by_cases hx : x = name
  · subst hx
    simp [terms, get, push]
  · simp [terms, get, push, Function.update_of_ne hx, Scope.bind_of_ne _ hx]

end Scope

namespace RemoveLets

/-- A variable in scope is replaced by its value. -/
def visitVariable (e : Expr) (name : String) : M (Graph Scope) Expr := fun s =>
  ((s.own.own.get name).getD e, s)

/-- The body is mutated with the value in scope and an empty map, and afterwards the map is as
it was before the body. -/
def visitLet (_ : Expr) (name : String) (_ _ : Expr) (mutateValue mutateBody : M (Graph Scope) Expr) :
    M (Graph Scope) Expr := do
  let new_value ← mutateValue
  let tmp := (← get).own.expr_replacements
  modify fun s => { s with own := ⟨[], s.own.own.push name new_value⟩ }
  let result ← mutateBody
  modify fun s => { s with own := ⟨tmp, s.own.own.pop name⟩ }
  pure result

end RemoveLets

def RemoveLets : IRMutator (Graph Scope) where
  mutate := IRGraphMutator.mutate
  visitVariable := RemoveLets.visitVariable
  visitLet := RemoveLets.visitLet

/-! ### Substitution into a graph -/

namespace GraphSubstitute

def visitVariable (var : String) (value : Expr) (e : Expr) (name : String) : M (Graph Unit) Expr :=
  pure (if name = var then value else e)

/-- The body of a let of the same name is left alone. -/
def visitLet (var : String) (_ : Expr) (name : String) (_ body : Expr)
    (mutateValue mutateBody : M (Graph Unit) Expr) : M (Graph Unit) Expr := do
  let new_value ← mutateValue
  let new_body ← if name = var then pure body else mutateBody
  make fun addr => .Let addr new_body.type name new_value new_body

end GraphSubstitute

def GraphSubstitute (var : String) (value : Expr) : IRMutator (Graph Unit) where
  mutate := IRGraphMutator.mutate
  visitVariable := GraphSubstitute.visitVariable var value
  visitLet := GraphSubstitute.visitLet var

def graph_substitute {σ : Type} (name : String) (replacement e : Expr) : M σ Expr := fun s =>
  let (r, s') := (GraphSubstitute name replacement).run e ⟨s.heap, [], ()⟩
  (r, { s with heap := s'.heap })

def SubstituteInAllLets : IRMutator (Graph Unit) where
  mutate := IRGraphMutator.mutate
  visitVariable := visitVariable
  visitLet _ name _ _ mutateValue mutateBody := do
    let value ← mutateValue
    let body ← mutateBody
    graph_substitute name value body

def substitute_in_all_lets (e : Expr) (heap : Heap) : Expr × Heap :=
  let (r, s) := SubstituteInAllLets.run e ⟨heap, [], ()⟩
  (r, s.heap)

/-! ### What they compute -/

namespace Memo

variable {τ C : Type} {R : Memo τ C} {f : C → Binding.Scope Op IREquality.Ty String} {c : C}
  {s : State (Graph τ)}

/-- The results are the terms with the names of the context replaced. -/
def Inlines (R : Memo τ C) (f : C → Binding.Scope Op IREquality.Ty String) : Prop :=
  ∀ c e r, R.Rel c e r ↔ r.term = e.term.inline (f c)

theorem Inlines.all (h : R.Inlines f) : ∀ {args args' : Exprs}, R.spec.RelAll c s args args' →
    args'.terms = args.terms.inline (f c)
  | .nil, .nil, _ => rfl
  | .nil, .cons .., hRel => hRel.elim
  | .cons .., .nil, hRel => hRel.elim
  | .cons .., .cons .., hRel => by
    rw [Exprs.terms, Exprs.terms, Terms.inline, (h _ _ _).mp hRel.1, h.all hRel.2]

theorem Inlines.node (h : R.Inlines f) {addr addr' : Nat} {op : Op} {args args' : Exprs}
    (hRel : R.spec.RelAll c s args args') : R.Rel c (.node addr op args) (.node addr' op args') := by
  rw [h, Expr.term, Expr.term, Term.inline, h.all hRel]

/-- For such results only the visits of variables and lets are to be looked at. -/
theorem Inlines.sound (h : R.Inlines f) {m : IRMutator (Graph τ)}
    (hMutate : m.mutate = IRGraphMutator.mutate)
    (hVariable : ∀ {c addr type name}, R.spec.Visits c (.Variable addr type name)
      (m.visitVariable (.Variable addr type name) name))
    (hLet : ∀ {addr type name value body x y}, (∀ c, R.spec.Mutates c value x) →
      (∀ c, R.spec.Mutates c body y) → ∀ c, R.spec.Visits c (.Let addr type name value body)
        (m.visitLet (.Let addr type name value body) name value body x y)) :
    R.spec.Sound m where
  mutate := hMutate ▸ mutate_computes
  visitVariable := hVariable
  visitLet := hLet
  same _ _ hRel := h.node hRel
  made {_ _ _ op _ args'} _ hInv _ _ hRel :=
    ⟨hInv.alloc _, hInv.ok.le_alloc fun addr => .node addr op args', h.node hRel⟩

end Memo

namespace RemoveLets

/-- The scope is the one of the context, and its values are in the heap. -/
def memo : Memo Scope Scope where
  Pre _ := True
  PreAll _ := True
  pre_node _ := trivial
  pre_cons _ := ⟨trivial, trivial⟩
  Own c heap own := own = c ∧ ∀ name, ∀ e ∈ c name, e.Lives heap
  own_mono hLe h := ⟨h.1, fun name e he => (h.2 name e he).mono hLe⟩
  Rel c e r := r.term = e.term.inline c.terms

theorem visitVariable_computes {c : Scope} {addr : Nat} {type : IREquality.Ty} {name : String} :
    memo.spec.Visits c (.Variable addr type name)
      (visitVariable (.Variable addr type name) name) := by
  intro s _ hInv hLives
  obtain ⟨hOwn, hScope⟩ := hInv.own
  refine ⟨hInv, Heap.Le.refl _, ?_, ?_⟩
  · rw [visitVariable, hOwn]
    cases h : c.get name with
    | none => exact hLives
    | some u => exact hScope name u (List.mem_of_mem_head? h)
  · change ((s.own.own.get name).getD _).term = _
    rw [hOwn, Expr.term, Term.inline, Scope.terms]
    cases c.get name with
    | none => rfl
    | some u => rfl

/-- The results for the body are for another scope, so the map starts empty there. -/
theorem visitLet_computes {addr : Nat} {type : IREquality.Ty} {name : String} {value body : Expr}
    {x y : M (Graph Scope) Expr} (hx : ∀ c, memo.spec.Mutates c value x)
    (hy : ∀ c, memo.spec.Mutates c body y) (c : Scope) :
    memo.spec.Visits c (.Let addr type name value body)
      (visitLet (.Let addr type name value body) name value body x y) := by
  intro s _ hInv hLives
  obtain ⟨hInv₁, hLe₁, hValue, hRel₁⟩ := hx c s trivial hInv hLives.2.1
  have hBody := hLives.2.2.mono hLe₁
  have hInner : memo.Inv (c.push name (x s).1)
      { (x s).2 with own := ⟨[], (x s).2.own.own.push name (x s).1⟩ } := by
    refine ⟨hInv₁.ok, fun p hp => (List.not_mem_nil hp).elim, ?_, fun z e he => ?_⟩
    · rw [hInv₁.own.1]
    · by_cases hz : z = name
      · subst hz
        rw [Scope.push, Function.update_self] at he
        rcases List.mem_cons.mp he with rfl | he
        · exact hValue
        · exact hInv₁.own.2 z e he
      · rw [Scope.push, Function.update_of_ne hz] at he
        exact hInv₁.own.2 z e he
  obtain ⟨hInv₂, hLe₂, hResult, hRel₂⟩ := hy _ _ trivial hInner hBody
  refine ⟨⟨hInv₂.ok, fun p hp => ?_, ?_, fun z e he => (hInv₁.own.2 z e he).mono hLe₂⟩,
    hLe₁.trans hLe₂, hResult, ?_⟩
  · obtain ⟨hKey, hReplacement, hRel⟩ := hInv₁.replacements p hp
    exact ⟨hKey.mono hLe₂, hReplacement.mono hLe₂, hRel⟩
  · exact (congrArg (fun scope => Scope.pop scope name) hInv₂.own.1).trans (c.pop_push ..)
  · refine Eq.trans hRel₂ ?_
    rw [Scope.terms_push, hRel₁, Expr.term, Term.inline]

theorem sound : memo.spec.Sound RemoveLets :=
  Memo.Inlines.sound (f := Scope.terms) (fun _ _ _ => Iff.rfl) rfl visitVariable_computes
    visitLet_computes

/-- All lets are substituted. -/
theorem run_spec {e : Expr} {heap : Heap} (hOk : heap.Ok) (hLives : e.Lives heap) :
    let p := RemoveLets.run e ⟨heap, [], fun _ => []⟩
    p.2.heap.Ok ∧ heap.Le p.2.heap ∧ p.1.Lives p.2.heap ∧ p.1.term = e.term.inline .empty := by
  have hInv : memo.Inv (fun _ => []) ⟨heap, [], fun _ => []⟩ :=
    ⟨hOk, fun p hp => (List.not_mem_nil hp).elim, rfl, fun _ _ h => (List.not_mem_nil h).elim⟩
  obtain ⟨hInv', hLe, hResult, hRel⟩ := sound.run e _ _ trivial hInv hLives
  exact ⟨hInv'.ok, hLe, hResult, hRel⟩

end RemoveLets

namespace GraphSubstitute

/-- The expressions given to it have no lets left. -/
def memo (var : String) (value : Expr) : Memo Unit Unit where
  Pre e := e.term.LetFree
  PreAll args := args.terms.LetFree
  pre_node h := h
  pre_cons h := h
  Own _ heap _ := value.Lives heap
  own_mono hLe h := h.mono hLe
  Rel _ e r := r.term = e.term.inline (Scope.empty.bind var value.term)

theorem sound (var : String) (value : Expr) :
    (memo var value).spec.Sound (GraphSubstitute var value) := by
  refine Memo.Inlines.sound (f := fun _ => Binding.Scope.empty.bind var value.term)
    (fun _ _ _ => Iff.rfl) rfl ?_ ?_
  · intro c addr type name s _ hInv hLives
    by_cases h : name = var
    · have hVisit : (GraphSubstitute var value).visitVariable (.Variable addr type name) name s =
          (value, s) := by
        simp [GraphSubstitute, visitVariable, h, pure, StateT.pure]
      rw [hVisit]
      refine ⟨hInv, Heap.Le.refl _, hInv.own, ?_⟩
      simp [memo, Memo.spec, Expr.term, Term.inline, h]
    · have hVisit : (GraphSubstitute var value).visitVariable (.Variable addr type name) name s =
          (.Variable addr type name, s) := by
        simp [GraphSubstitute, visitVariable, h, pure, StateT.pure]
      rw [hVisit]
      refine ⟨hInv, Heap.Le.refl _, hLives, ?_⟩
      simp [memo, Memo.spec, Expr.term, Term.inline, Scope.bind_of_ne _ h, Scope.empty]
  · intro addr type name value' body x y _ _ c s hPre _ _
    exact hPre.elim

end GraphSubstitute

/-- In an expression without lets. -/
theorem graph_substitute_spec {σ : Type} {name : String} {value e : Expr} {s : State σ}
    (hOk : s.heap.Ok) (hValue : value.Lives s.heap) (hLives : e.Lives s.heap)
    (hLetFree : e.term.LetFree) :
    let p := graph_substitute name value e s
    p.2.heap.Ok ∧ s.heap.Le p.2.heap ∧ p.1.Lives p.2.heap ∧ p.2.own = s.own ∧
      p.1.term = e.term.inline (Scope.empty.bind name value.term) := by
  have hInv : (GraphSubstitute.memo name value).Inv () ⟨s.heap, [], ()⟩ :=
    ⟨hOk, fun p hp => (List.not_mem_nil hp).elim, hValue⟩
  obtain ⟨hInv', hLe, hResult, hRel⟩ :=
    (GraphSubstitute.sound name value).run e () _ hLetFree hInv hLives
  exact ⟨hInv'.ok, hLe, hResult, rfl, hRel⟩

namespace SubstituteInAllLets

def memo : Memo Unit Unit where
  Pre _ := True
  PreAll _ := True
  pre_node _ := trivial
  pre_cons _ := ⟨trivial, trivial⟩
  Own _ _ _ := True
  own_mono _ _ := trivial
  Rel _ e r := r.term = e.term.inline .empty

/-- The body has no lets any more when its let is substituted into it. -/
theorem visitLet_computes {addr : Nat} {type : IREquality.Ty} {name : String} {value body : Expr}
    {x y : M (Graph Unit) Expr} (hx : ∀ c, memo.spec.Mutates c value x)
    (hy : ∀ c, memo.spec.Mutates c body y) (c : Unit) :
    memo.spec.Visits c (.Let addr type name value body)
      (SubstituteInAllLets.visitLet (.Let addr type name value body) name value body x y) := by
  intro s _ hInv hLives
  obtain ⟨hInv₁, hLe₁, hValue, hRel₁⟩ := hx c s trivial hInv hLives.2.1
  obtain ⟨hInv₂, hLe₂, hBody, hRel₂⟩ := hy c _ trivial hInv₁ (hLives.2.2.mono hLe₁)
  have hLetFree : (y (x s).2).1.term.LetFree := by
    rw [hRel₂]
    exact body.term.letFree_inline_empty
  obtain ⟨hOk, hLe₃, hResult, hOwn, hTerm⟩ :=
    @graph_substitute_spec _ name _ _ _ hInv₂.ok (hValue.mono hLe₂) hBody hLetFree
  refine ⟨⟨hOk, fun p hp => ?_, trivial⟩, (hLe₁.trans hLe₂).trans hLe₃, hResult, ?_⟩
  · obtain ⟨hKey, hReplacement, hRel⟩ := hInv₂.replacements p (hOwn ▸ hp)
    exact ⟨hKey.mono hLe₃, hReplacement.mono hLe₃, hRel⟩
  · refine Eq.trans hTerm ?_
    rw [hRel₂, hRel₁, Term.inline_inline, Scope.empty_andThen, Expr.term, Term.inline]

theorem sound : memo.spec.Sound SubstituteInAllLets := by
  refine Memo.Inlines.sound (f := fun _ => .empty) (fun _ _ _ => Iff.rfl) rfl ?_ visitLet_computes
  intro c addr type name s _ hInv hLives
  exact ⟨hInv, Heap.Le.refl _, hLives, rfl⟩

end SubstituteInAllLets

/-- Substituting the lets from the inside gives the same term as from the outside. -/
theorem substitute_in_all_lets_spec {e : Expr} {heap : Heap} (hOk : heap.Ok)
    (hLives : e.Lives heap) :
    let p := substitute_in_all_lets e heap
    p.2.Ok ∧ heap.Le p.2 ∧ p.1.Lives p.2 ∧ p.1.term = e.term.inline .empty := by
  have hInv : SubstituteInAllLets.memo.Inv () ⟨heap, [], ()⟩ :=
    ⟨hOk, fun p hp => (List.not_mem_nil hp).elim, trivial⟩
  obtain ⟨hInv', hLe, hResult, hRel⟩ := SubstituteInAllLets.sound.run e () _ trivial hInv hLives
  exact ⟨hInv'.ok, hLe, hResult, hRel⟩

end Vyasa.CSE

/-! Common subexpression elimination: which entries of the numbering become lets, and how the
expression is rebuilt with them. -/
namespace Vyasa.CSE

open IREquality Binding

/-! ### Which expressions are lifted -/

def is_const : Expr → Bool
  | .node _ (.IntImm _ _) .nil | .node _ (.UIntImm _ _) .nil | .node _ (.FloatImm _ _) .nil
  | .node _ (.StringImm _ _) .nil => true
  | .node _ (.Cast _) (.cons value .nil) => is_const value
  | .node _ (.Ramp _) (.cons base (.cons stride .nil)) => is_const base && is_const stride
  | .node _ (.Broadcast _) (.cons value .nil) => is_const value
  | _ => false

def isVariable : Expr → Bool
  | .Variable .. => true
  | _ => false

/-- The operations that are cheap where an operand is constant. -/
def cheapWithConst : BinaryOp → Bool
  | .Add | .Sub | .Mul | .Div => true
  | _ => false

def should_extract : Expr → Bool → Bool
  | e, lift_all =>
    if is_const e || isVariable e then false
    else if lift_all then true
    else match e with
      | .node _ (.Broadcast _) (.cons value .nil) => should_extract value false
      | .node _ (.Cast _) (.cons value .nil) => should_extract value false
      | .node _ (.Binary op _) (.cons a (.cons b .nil)) =>
          if cheapWithConst op then !(is_const a || is_const b) else true
      | .node _ (.Ramp _) (.cons _ (.cons stride .nil)) => !is_const stride
      | _ => true

/-- The use counts of a numbering, and the nodes visited so far. -/
structure ComputeUseCounts where
  gvn : GVN
  visited : List Nat

namespace ComputeUseCounts

/-- One more use of an entry. -/
def count (s : ComputeUseCounts) (n : Nat) : ComputeUseCounts :=
  { s with gvn := { s.gvn with entries := s.gvn.entries.modify n fun entry =>
    { entry with use_count := entry.use_count + 1 } } }

mutual

/-- `include` of the visitor. What is not to be extracted is passed through; an entry is counted
each time and entered once. -/
def includeExpr (lift_all : Bool) : Expr → ComputeUseCounts → Except String ComputeUseCounts
  | .Variable .., s => .ok s
  | .Let addr type name value body, s =>
      if should_extract (.Let addr type name value body) lift_all then
        match s.gvn.output_numbering.find (.Let addr type name value body) with
        | none => .error "Expr not in shallow numbering!\n"
        | some n =>
            let s := s.count n
            if addr ∈ s.visited then .ok s
            else do
              let s ← includeExpr lift_all value { s with visited := addr :: s.visited }
              includeExpr lift_all body s
      else do
        let s ← includeExpr lift_all value s
        includeExpr lift_all body s
  | .node addr op args, s =>
      if should_extract (.node addr op args) lift_all then
        match s.gvn.output_numbering.find (.node addr op args) with
        | none => .error "Expr not in shallow numbering!\n"
        | some n =>
            let s := s.count n
            if addr ∈ s.visited then .ok s
            else includeAll lift_all args { s with visited := addr :: s.visited }
      else includeAll lift_all args s

def includeAll (lift_all : Bool) : Exprs → ComputeUseCounts → Except String ComputeUseCounts
  | .nil, s => .ok s
  | .cons e rest, s => do
      let s ← includeExpr lift_all e s
      includeAll lift_all rest s

end

end ComputeUseCounts

/-! ### Rebuilding -/

/-- A graph mutator that starts with a map of replacements. -/
def Replacer : IRMutator (Graph Unit) where
  mutate := IRGraphMutator.mutate
  visitVariable := visitVariable
  visitLet := visitLet

def Replacer.erase (e : Expr) : M (Graph Unit) Unit :=
  modify fun s => { s with own := { s.own with expr_replacements := s.own.expr_replacements.erase e } }

/-- The heap, and the counter of the names that start with t. -/
structure Process where
  heap : Heap
  counter : Nat

def t_name (n : Nat) : String := "t" ++ toString n

/-- `unique_name('t')`. -/
def unique_name (process : Process) : String × Process :=
  (t_name process.counter, { process with counter := process.counter + 1 })

/-- The lets for the entries used more than once, with a variable for each. -/
def makeLets : List Entry → Process → List (String × Expr) × ExprMap Expr × Process
  | [], process => ([], [], process)
  | entry :: entries, process =>
      if 1 < entry.use_count then
        let (name, process) := unique_name process
        let (var, heap) := process.heap.alloc fun addr => .Variable addr entry.expr.type name
        let (lets, replacements, process) := makeLets entries { process with heap := heap }
        ((name, entry.expr) :: lets, replacements ++ [(entry.expr, var)], process)
      else makeLets entries process

/-- Wrap an expression in the lets, the last one first. The variable of a let is no replacement in
its own value. -/
def wrapLets : List (String × Expr) → Expr → M (Graph Unit) Expr
  | [], e => pure e
  | (name, value) :: lets, e => do
      let e ← wrapLets lets e
      Replacer.erase value
      let value ← Replacer.run value
      make fun addr => .Let addr e.type name value e

/-- `common_subexpression_elimination`, with an internal error or a result. -/
def common_subexpression_elimination (e_in : Expr) (lift_all : Bool) (process : Process) :
    Except String Expr × Process :=
  if is_const e_in || isVariable e_in then (.ok e_in, process)
  else
    let (e, s) := RemoveLets.run e_in ⟨process.heap, [], fun _ => []⟩
    let (e, s) := GVN.mutator.run e ⟨s.heap, GVN.init⟩
    match ComputeUseCounts.includeExpr lift_all e ⟨s.own, []⟩ with
    | .error message => (.error message, { process with heap := s.heap })
    | .ok counts =>
        let (lets, replacements, process) :=
          makeLets counts.gvn.entries { process with heap := s.heap }
        let (e, s) := (Replacer.run e >>= wrapLets lets) ⟨process.heap, replacements, ()⟩
        (.ok e, { process with heap := s.heap })

end Vyasa.CSE
