import Vyasa.CSE.Graph

/-! Mutators of expression graphs. A mutator overrides `mutate` and the visits of variables
and lets; every other node is rebuilt over its mutated children. -/
namespace Vyasa.CSE

/-- The heap and the members of a mutator. -/
structure State (σ : Type) where
  heap : Heap
  own : σ

abbrev M (σ α : Type) := StateM (State σ) α

section Mutator

variable {σ : Type}

def make (node : Nat → Expr) : M σ Expr := fun s =>
  let (e, heap) := s.heap.alloc node
  (e, { s with heap := heap })

/-- The methods of a mutator. `mutate` gets what `IRMutator::mutate` does for the expression,
and the visit of a let gets what `mutate` does for its value and its body. -/
structure IRMutator (σ : Type) where
  mutate : Expr → M σ Expr → M σ Expr
  visitVariable : Expr → String → M σ Expr
  visitLet : Expr → String → (value body : Expr) → M σ Expr → M σ Expr → M σ Expr

/-- `IRMutator::visit` for the other nodes: the node itself if its children did not change. -/
def rebuild (e : Expr) (op : Op) (args args' : Exprs) : M σ Expr :=
  if args'.same_as args then pure e else make fun addr => .node addr op args'

mutual

def IRMutator.run (m : IRMutator σ) : Expr → M σ Expr
  | .Variable addr type name =>
      m.mutate (.Variable addr type name) (m.visitVariable (.Variable addr type name) name)
  | .Let addr type name value body =>
      m.mutate (.Let addr type name value body)
        (m.visitLet (.Let addr type name value body) name value body (m.run value) (m.run body))
  | .node addr op args =>
      m.mutate (.node addr op args) do
        let args' ← m.runAll args
        rebuild (.node addr op args) op args args'

def IRMutator.runAll (m : IRMutator σ) : Exprs → M σ Exprs
  | .nil => pure .nil
  | .cons e rest => do
      let e' ← m.run e
      let rest' ← m.runAll rest
      pure (.cons e' rest')

end

/-- `IRMutator::visit` for variables. -/
def visitVariable (e : Expr) (_ : String) : M σ Expr := pure e

/-- `IRMutator::visit` for lets. -/
def visitLet (e : Expr) (name : String) (value body : Expr) (mutateValue mutateBody : M σ Expr) :
    M σ Expr := do
  let value' ← mutateValue
  let body' ← mutateBody
  if value'.same_as value && body'.same_as body then pure e
  else make fun addr => .Let addr body'.type name value' body'

end Mutator

/-! ### What a mutator computes -/

/-- What is kept by a mutator in a context, how its state grows for expressions of a size, and
how results are related to expressions: by the visits, and by `mutate`. Only some expressions
may be given to it. -/
structure Spec (σ C : Type) where
  Pre : Expr → Prop
  PreAll : Exprs → Prop
  pre_node : ∀ {addr op args}, Pre (.node addr op args) → PreAll args
  pre_cons : ∀ {e rest}, PreAll (.cons e rest) → Pre e ∧ PreAll rest
  Inv : C → State σ → Prop
  ok : ∀ {c s}, Inv c s → s.heap.Ok
  Grows : Nat → State σ → State σ → Prop
  refl : ∀ n s, Grows n s s
  trans : ∀ {n s s' s''}, Grows n s s' → Grows n s' s'' → Grows n s s''
  weaken : ∀ {n n' s s'}, n ≤ n' → Grows n s s' → Grows n' s s'
  heap_le : ∀ {n s s'}, Grows n s s' → s.heap.Le s'.heap
  Visited : C → State σ → Expr → Expr → Prop
  Rel : C → State σ → Expr → Expr → Prop
  mono : ∀ {n c s s' e r}, Grows n s s' → Rel c s e r → Rel c s' e r

namespace Spec

variable {σ C : Type} (S : Spec σ C)

/-- The results for a list of children. -/
def RelAll (c : C) (s : State σ) : Exprs → Exprs → Prop
  | .nil, .nil => True
  | .cons e rest, .cons r rest' => S.Rel c s e r ∧ RelAll c s rest rest'
  | _, _ => False

/-- The computation keeps the invariant and returns a result for the expression. -/
def Computes (n : Nat) (P : C → State σ → Expr → Expr → Prop) (c : C) (e : Expr) (x : M σ Expr) :
    Prop :=
  ∀ s, S.Pre e → S.Inv c s → e.Lives s.heap →
    S.Inv c (x s).2 ∧ S.Grows n s (x s).2 ∧ (x s).1.Lives (x s).2.heap ∧ P c (x s).2 e (x s).1

/-- A visit looks at what is below the expression. -/
abbrev Visits (c : C) (e : Expr) (x : M σ Expr) : Prop := S.Computes (e.size - 1) S.Visited c e x

abbrev Mutates (c : C) (e : Expr) (x : M σ Expr) : Prop := S.Computes e.size S.Rel c e x

/-- What is to be shown of the methods of a mutator. -/
structure Sound (m : IRMutator σ) : Prop where
  mutate : ∀ {c e x}, S.Visits c e x → S.Mutates c e (m.mutate e x)
  visitVariable : ∀ {c addr type name}, S.Visits c (.Variable addr type name)
    (m.visitVariable (.Variable addr type name) name)
  visitLet : ∀ {addr type name value body x y}, (∀ c, S.Mutates c value x) →
    (∀ c, S.Mutates c body y) → ∀ c, S.Visits c (.Let addr type name value body)
      (m.visitLet (.Let addr type name value body) name value body x y)
  same : ∀ {c s addr op args}, S.Inv c s → Expr.Lives s.heap (.node addr op args) →
    S.RelAll c s args args → S.Visited c s (.node addr op args) (.node addr op args)
  made : ∀ {c s addr op args args'}, S.Pre (.node addr op args) → S.Inv c s →
    Expr.Lives s.heap (.node addr op args) → args'.Lives s.heap → S.RelAll c s args args' →
    let s' := { s with heap := (s.heap.alloc fun addr => .node addr op args').2 }
    S.Inv c s' ∧ S.Grows 0 s s' ∧ S.Visited c s' (.node addr op args) (.node s.heap.next op args')

variable {S} {m : IRMutator σ} {c : C} {s s' : State σ}

theorem RelAll.mono {n : Nat} (hGrows : S.Grows n s s') : ∀ {args args' : Exprs}, S.RelAll c s args args' →
    S.RelAll c s' args args'
  | .nil, .nil, _ => trivial
  | .nil, .cons .., h => h.elim
  | .cons .., .nil, h => h.elim
  | .cons .., .cons .., h => ⟨S.mono hGrows h.1, h.2.mono hGrows⟩

/-- A node over the results for its children, new or as it was. -/
theorem Sound.rebuild (h : S.Sound m) {addr : Nat} {op : Op} {args args' : Exprs}
    (hPre : S.Pre (.node addr op args)) (hInv : S.Inv c s)
    (hLives : Expr.Lives s.heap (.node addr op args)) (hArgs : args'.Lives s.heap)
    (hRel : S.RelAll c s args args') :
    let p := CSE.rebuild (.node addr op args) op args args' s
    S.Inv c p.2 ∧ S.Grows 0 s p.2 ∧ p.1.Lives p.2.heap ∧ S.Visited c p.2 (.node addr op args) p.1 := by
  unfold CSE.rebuild
  split
  · next hSame =>
    have hEq : args' = args := hArgs.eq_of_same_as hLives.2 hSame
    subst hEq
    exact ⟨hInv, S.refl 0 s, hLives, h.same hInv hLives hRel⟩
  · obtain ⟨hInv', hGrows, hVisited⟩ := h.made hPre hInv hLives hArgs hRel
    have hNode := s.heap.alloc_nodes fun addr => .node addr op args'
    exact ⟨hInv', hGrows, ⟨hNode, hArgs.mono (S.heap_le hGrows)⟩, hVisited⟩

mutual

/-- If the methods do what is asked of them then `mutate` does so for every expression. -/
theorem Sound.run (h : S.Sound m) : ∀ (e : Expr) (c : C), S.Mutates c e (m.run e)
  | .Variable .., _ => h.mutate h.visitVariable
  | .Let _ _ _ value body, c => h.mutate (h.visitLet (h.run value) (h.run body) c)
  | .node addr op args, c => by
    refine h.mutate fun s hPre hInv hLives => ?_
    obtain ⟨hInv', hGrows, hArgs, hRel⟩ := h.runAll args c s (S.pre_node hPre) hInv hLives.2
    have hLives' := hLives.mono (S.heap_le hGrows)
    obtain ⟨hInv'', hGrows', hResult⟩ := h.rebuild hPre hInv' hLives' hArgs hRel
    exact ⟨hInv'', S.trans hGrows (S.weaken (Nat.zero_le _) hGrows'), hResult⟩

theorem Sound.runAll (h : S.Sound m) : ∀ (args : Exprs) (c : C) (s : State σ), S.PreAll args →
    S.Inv c s → args.Lives s.heap →
    let p := m.runAll args s
    S.Inv c p.2 ∧ S.Grows args.size s p.2 ∧ p.1.Lives p.2.heap ∧ S.RelAll c p.2 args p.1
  | .nil, _, s, _, hInv, _ => ⟨hInv, S.refl 0 s, trivial, trivial⟩
  | .cons e rest, c, s, hPre, hInv, hLives => by
    obtain ⟨hInv₁, hGrows₁, hLives₁, hRel₁⟩ := h.run e c s (S.pre_cons hPre).1 hInv hLives.1
    have hRest := hLives.2.mono (S.heap_le hGrows₁)
    obtain ⟨hInv₂, hGrows₂, hLives₂, hRel₂⟩ := h.runAll rest c _ (S.pre_cons hPre).2 hInv₁ hRest
    have hGrows := S.trans (S.weaken (Nat.le_add_right e.size rest.size) hGrows₁)
      (S.weaken (Nat.le_add_left rest.size e.size) hGrows₂)
    exact ⟨hInv₂, hGrows, ⟨hLives₁.mono (S.heap_le hGrows₂), hLives₂⟩, S.mono hGrows₂ hRel₁, hRel₂⟩

end

end Spec

/-! ### Mutators that remember their results -/

/-- A map from expressions by their addresses. -/
abbrev ExprMap (α : Type) := List (Expr × α)

namespace ExprMap

variable {α : Type}

def find (l : ExprMap α) (e : Expr) : Option α := (List.find? (fun p => p.1.same_as e) l).map Prod.snd

def insert (l : ExprMap α) (e : Expr) (a : α) : ExprMap α := (e, a) :: l

def erase (l : ExprMap α) (e : Expr) : ExprMap α := List.filter (fun p => !p.1.same_as e) l

theorem mem_of_find {l : ExprMap α} {e : Expr} {a : α} {heap : Heap}
    (hl : ∀ p ∈ l, p.1.Lives heap) (he : e.Lives heap) (h : l.find e = some a) : (e, a) ∈ l := by
  simp only [find, Option.map_eq_some_iff] at h
  obtain ⟨⟨e', a'⟩, hFind, rfl⟩ := h
  have hMem := List.mem_of_find?_eq_some hFind
  have hSame := List.find?_some hFind
  simp only [Expr.same_as, decide_eq_true_eq] at hSame
  rw [← (hl _ hMem).eq_of_addr he hSame]
  exact hMem

end ExprMap

/-- The members of a graph mutator. -/
structure Graph (τ : Type) where
  expr_replacements : ExprMap Expr
  own : τ

/-- `IRGraphMutator::mutate`. The source puts an undefined result in the map first; it is not
met, as no node is inside itself. -/
def IRGraphMutator.mutate {τ : Type} (e : Expr) (x : M (Graph τ) Expr) : M (Graph τ) Expr := fun s =>
  match s.own.expr_replacements.find e with
  | some r => (r, s)
  | none =>
      let (r, s) := x s
      (r, { s with own := { s.own with expr_replacements := s.own.expr_replacements.insert e r } })

/-- What a graph mutator keeps: its map has results for its keys. -/
structure Memo (τ C : Type) where
  Pre : Expr → Prop
  PreAll : Exprs → Prop
  pre_node : ∀ {addr op args}, Pre (.node addr op args) → PreAll args
  pre_cons : ∀ {e rest}, PreAll (.cons e rest) → Pre e ∧ PreAll rest
  Own : C → Heap → τ → Prop
  own_mono : ∀ {c heap heap' own}, heap.Le heap' → Own c heap own → Own c heap' own
  Rel : C → Expr → Expr → Prop

namespace Memo

variable {τ C : Type} (R : Memo τ C)

structure Inv (c : C) (s : State (Graph τ)) : Prop where
  ok : s.heap.Ok
  replacements : ∀ p ∈ s.own.expr_replacements,
    p.1.Lives s.heap ∧ p.2.Lives s.heap ∧ R.Rel c p.1 p.2
  own : R.Own c s.heap s.own.own

def spec : Spec (Graph τ) C where
  Pre := R.Pre
  PreAll := R.PreAll
  pre_node := R.pre_node
  pre_cons := R.pre_cons
  Inv := R.Inv
  ok := Inv.ok
  Grows _ s s' := s.heap.Le s'.heap
  refl _ s := Heap.Le.refl s.heap
  trans := Heap.Le.trans
  weaken _ h := h
  heap_le h := h
  Visited c _ := R.Rel c
  Rel c _ := R.Rel c
  mono _ h := h

variable {R} {c : C} {e : Expr}

theorem Inv.alloc {s : State (Graph τ)} (h : R.Inv c s) (node : Nat → Expr) :
    R.Inv c { s with heap := (s.heap.alloc node).2 } := by
  have hLe := h.ok.le_alloc node
  refine ⟨h.ok.alloc node, fun p hp => ?_, R.own_mono hLe h.own⟩
  obtain ⟨hKey, hValue, hRel⟩ := h.replacements p hp
  exact ⟨hKey.mono hLe, hValue.mono hLe, hRel⟩

/-- A result from the map is as good as a new one. -/
theorem mutate_computes {x : M (Graph τ) Expr} (hx : R.spec.Visits c e x) :
    R.spec.Mutates c e (IRGraphMutator.mutate e x) := by
  intro s hPre hInv hLives
  unfold IRGraphMutator.mutate
  split
  · next r hFind =>
    have hMem := ExprMap.mem_of_find (fun p hp => (hInv.replacements p hp).1) hLives hFind
    obtain ⟨-, hValue, hRel⟩ := hInv.replacements _ hMem
    exact ⟨hInv, Heap.Le.refl _, hValue, hRel⟩
  · obtain ⟨hInv', hGrows, hResult, hRel⟩ := hx s hPre hInv hLives
    refine ⟨⟨hInv'.ok, ?_, hInv'.own⟩, hGrows, hResult, hRel⟩
    intro p hp
    rcases List.mem_cons.mp hp with rfl | hp
    · exact ⟨hLives.mono hGrows, hResult, hRel⟩
    · exact hInv'.replacements p hp

end Memo

end Vyasa.CSE
