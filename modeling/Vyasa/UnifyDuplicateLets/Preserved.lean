import Vyasa.UnifyDuplicateLets.Mutator
import Mathlib

/-! Unifying lets keeps what a statement does to the memory, where every name has one
binder and the comparison takes no expression for the value of a let that it is not. -/
namespace Vyasa.UnifyDuplicateLets

open Binding IREquality CSE

section Runs

/-- What the nodes compute: a load and an impure call depend on the memory and may change
it, and a store changes it. -/
structure Semantics (V M : Type) where
  value : Op → List V → V
  effect : Op → List V → M → V × M
  store : String → V → V → V → M → M
  toInt : V → Int
  ofInt : Int → V
  isTrue : V → Bool

variable {V M : Type}

abbrev Semantics.effects (sem : Semantics V M) : Effects Op V M := ⟨isImpure, sem.value, sem.effect⟩

/-- The first `n` iterations of a loop. -/
def iterate (step : Int → M → M) (min : Int) : Nat → M → M
  | 0, m => m
  | n + 1, m => step (min + n) (iterate step min n m)

/-- The memory after a statement. -/
def exec (sem : Semantics V M) : Stmt → (String → V) → M → M
  | .undefined, _, m => m
  | .LetStmt x value body, ρ, m =>
    let (a, m) := value.run sem.effects ρ m
    exec sem body (Function.update ρ x a) m
  | .For x min extent body, ρ, m =>
    let (first, m) := min.run sem.effects ρ m
    let (count, m) := extent.run sem.effects ρ m
    iterate (fun i => exec sem body (Function.update ρ x (sem.ofInt i))) (sem.toInt first)
      (sem.toInt count).toNat m
  | .Block first rest, ρ, m => exec sem rest ρ (exec sem first ρ m)
  | .IfThenElse condition then_case else_case, ρ, m =>
    let (c, m) := condition.run sem.effects ρ m
    if sem.isTrue c then exec sem then_case ρ m else exec sem else_case ρ m
  | .Store name predicate value index, ρ, m =>
    let (p, m) := predicate.run sem.effects ρ m
    let (v, m) := value.run sem.effects ρ m
    let (i, m) := index.run sem.effects ρ m
    sem.store name p v i m

end Runs

section Names

namespace Stmt

/-- The names that are bound, each as often as it is. -/
def binders : Stmt → List String
  | undefined => []
  | LetStmt x value body => x :: (value.binders ++ body.binders)
  | For x min extent body => x :: ((min.binders ++ extent.binders) ++ body.binders)
  | Block first rest => first.binders ++ rest.binders
  | IfThenElse condition then_case else_case =>
    condition.binders ++ (then_case.binders ++ else_case.binders)
  | Store _ predicate value index => predicate.binders ++ (value.binders ++ index.binders)

def freeVars : Stmt → Set String
  | undefined => ∅
  | LetStmt x value body => value.freeVars ∪ (body.freeVars \ {x})
  | For x min extent body => (min.freeVars ∪ extent.freeVars) ∪ (body.freeVars \ {x})
  | Block first rest => first.freeVars ∪ rest.freeVars
  | IfThenElse condition then_case else_case =>
    condition.freeVars ∪ (then_case.freeVars ∪ else_case.freeVars)
  | Store _ predicate value index => predicate.freeVars ∪ (value.freeVars ∪ index.freeVars)

/-- All nodes of the expressions are of a kind. -/
def All (p : Op → Prop) : Stmt → Prop
  | undefined => True
  | LetStmt _ value body => value.All p ∧ body.All p
  | For _ min extent body => min.All p ∧ extent.All p ∧ body.All p
  | Block first rest => first.All p ∧ rest.All p
  | IfThenElse condition then_case else_case =>
    condition.All p ∧ then_case.All p ∧ else_case.All p
  | Store _ predicate value index => predicate.All p ∧ value.All p ∧ index.All p

end Stmt

/-- The binders have different names, none of which is among these. -/
def Fresh (used : Set String) (binders : List String) (free : Set String) : Prop :=
  binders.Nodup ∧ ∀ x ∈ binders, x ∉ used ∧ x ∉ free

variable {used used' free inner : Set String} {binders binders' : List String} {x : String}

theorem Fresh.left (h : Fresh used (binders ++ binders') (free ∪ inner)) : Fresh used binders free :=
  ⟨(List.nodup_append.mp h.1).1, fun x hx =>
    (h.2 x (List.mem_append_left _ hx)).imp id fun hNot hx => hNot (Or.inl hx)⟩

theorem Fresh.right (h : Fresh used (binders ++ binders') (free ∪ inner)) : Fresh used binders' inner :=
  ⟨(List.nodup_append.mp h.1).2.1, fun x hx =>
    (h.2 x (List.mem_append_right _ hx)).imp id fun hNot hx => hNot (Or.inr hx)⟩

/-- The names of the body of a binder, after those of the binder and its value. -/
theorem Fresh.body (h : Fresh used (x :: (binders ++ binders')) (free ∪ (inner \ {x})))
    (hUsed : used' ⊆ used ∪ free ∪ {y | y = x ∨ y ∈ binders}) : Fresh used' binders' inner := by
  obtain ⟨hNodup, hFresh⟩ := h
  rw [List.nodup_cons, List.nodup_append] at hNodup
  obtain ⟨hx, -, hNodup', hDisjoint⟩ := hNodup
  refine ⟨hNodup', fun y hy => ?_⟩
  have hNe : y ≠ x := fun hEq => hx (hEq ▸ List.mem_append_right _ hy)
  obtain ⟨hNotUsed, hNotFree⟩ := hFresh y (List.mem_cons_of_mem _ (List.mem_append_right _ hy))
  refine ⟨fun hMem => ?_, fun hMem => hNotFree (Or.inr ⟨hMem, hNe⟩)⟩
  rcases hUsed hMem with (hUsed | hFree) | hEq | hBound
  · exact hNotUsed hUsed
  · exact hNotFree (Or.inl hFree)
  · exact hNe hEq
  · exact hDisjoint y hBound y hy rfl

/-- The name of a binder, and those of its value. -/
theorem Fresh.value (h : Fresh used (x :: (binders ++ binders')) (free ∪ (inner \ {x}))) :
    Fresh used binders free ∧ x ∉ used ∧ x ∉ free ∧ x ∉ binders := by
  obtain ⟨hNodup, hFresh⟩ := h
  obtain ⟨hx, hRest⟩ := List.nodup_cons.mp hNodup
  obtain ⟨hUsed, hFree⟩ := hFresh x List.mem_cons_self
  refine ⟨⟨(List.nodup_append.mp hRest).1, fun y hy => ?_⟩, hUsed, fun hMem => hFree (Or.inl hMem),
    fun hMem => hx (List.mem_append_left _ hMem)⟩
  exact (hFresh y (List.mem_cons_of_mem _ (List.mem_append_left _ hy))).imp id fun hNot hy => hNot (Or.inl hy)

end Names

section Separate

mutual

/-- `Pruned e' e` if `e'` is `e` with variables for some of its parts. -/
inductive Pruned : Expr → Expr → Prop where
  | var (type : Ty) (x : String) (e : Expr) : Pruned (.var type x) e
  | letIn {value value' body body' : Expr} (x : String) (hValue : Pruned value' value)
      (hBody : Pruned body' body) : Pruned (.letIn x value' body') (.letIn x value body)
  | app {args args' : Exprs} (op : Op) (hArgs : PrunedArgs args' args) : Pruned (.app op args') (.app op args)

inductive PrunedArgs : Exprs → Exprs → Prop where
  | nil : PrunedArgs .nil .nil
  | cons {e e' : Expr} {rest rest' : Exprs} (hHead : Pruned e' e) (hRest : PrunedArgs rest' rest) :
      PrunedArgs (.cons e' rest') (.cons e rest)

end

/-- With variables for some of their parts, the two are not equal unless they are the same. -/
def Told (a b : Expr) : Prop := ∀ a' b', Pruned a' a → Pruned b' b → equal a' b' = true → a' = b'

mutual

/-- All parts of the expression are told from a value. -/
def Clear (v : Expr) : Expr → Prop
  | .var type x => Told v (.var type x)
  | .letIn x value body => Told v (.letIn x value body) ∧ Clear v value ∧ Clear v body
  | .app op args => Told v (.app op args) ∧ ClearArgs v args

def ClearArgs (v : Expr) : Exprs → Prop
  | .nil => True
  | .cons e rest => Clear v e ∧ ClearArgs v rest

end

def Stmt.Clear (v : Expr) : Stmt → Prop
  | undefined => True
  | LetStmt _ value body => UnifyDuplicateLets.Clear v value ∧ body.Clear v
  | For _ min extent body =>
    UnifyDuplicateLets.Clear v min ∧ UnifyDuplicateLets.Clear v extent ∧ body.Clear v
  | Block first rest => first.Clear v ∧ rest.Clear v
  | IfThenElse condition then_case else_case =>
    UnifyDuplicateLets.Clear v condition ∧ then_case.Clear v ∧ else_case.Clear v
  | Store _ predicate value index => UnifyDuplicateLets.Clear v predicate ∧
    UnifyDuplicateLets.Clear v value ∧ UnifyDuplicateLets.Clear v index

/-- The value of a let may be recorded. -/
def Recorded (v : Expr) : Prop := v.LetFree → v.All (isImpure · = false)

mutual

/-- All expressions in the body of a let are told from its value, if it may be recorded. -/
def Separate : Expr → Prop
  | .var _ _ => True
  | .letIn _ value body => (Recorded value → Clear value body) ∧ Separate value ∧ Separate body
  | .app _ args => SeparateArgs args

def SeparateArgs : Exprs → Prop
  | .nil => True
  | .cons e rest => Separate e ∧ SeparateArgs rest

end

def Stmt.Separate : Stmt → Prop
  | undefined => True
  | LetStmt _ value body =>
    (Recorded value → body.Clear value) ∧ UnifyDuplicateLets.Separate value ∧ body.Separate
  | For _ min extent body =>
    UnifyDuplicateLets.Separate min ∧ UnifyDuplicateLets.Separate extent ∧ body.Separate
  | Block first rest => first.Separate ∧ rest.Separate
  | IfThenElse condition then_case else_case =>
    UnifyDuplicateLets.Separate condition ∧ then_case.Separate ∧ else_case.Separate
  | Store _ predicate value index => UnifyDuplicateLets.Separate predicate ∧
    UnifyDuplicateLets.Separate value ∧ UnifyDuplicateLets.Separate index

mutual

theorem Pruned.refl : ∀ e : Expr, Pruned e e
  | .var type x => .var type x _
  | .letIn x value body => .letIn x (Pruned.refl value) (Pruned.refl body)
  | .app op args => .app op (PrunedArgs.refl args)

theorem PrunedArgs.refl : ∀ es : Exprs, PrunedArgs es es
  | .nil => .nil
  | .cons e rest => .cons (Pruned.refl e) (PrunedArgs.refl rest)

end

theorem Clear.told {v e : Expr} (h : Clear v e) : Told v e := by
  cases e with
  | var type x => exact h
  | letIn x value body => exact h.1
  | app op args => exact h.1

/-! The comparison confuses float constants only. -/

variable {floats : Set F64}

mutual

theorem Pruned.all {p : Op → Prop} : ∀ {e e' : Expr}, Pruned e' e → e.All p → e'.All p
  | _, _, .var .., _ => trivial
  | _, _, .letIn _ hValue hBody, h => ⟨hValue.all h.1, hBody.all h.2⟩
  | _, _, .app _ hArgs, h => ⟨h.1, hArgs.all h.2⟩

theorem PrunedArgs.all {p : Op → Prop} : ∀ {es es' : Exprs}, PrunedArgs es' es → es.All p → es'.All p
  | _, _, .nil, _ => trivial
  | _, _, .cons hHead hRest, h => ⟨hHead.all h.1, hRest.all h.2⟩

end

theorem told_of_exact (hExact : Exact floats) {v e : Expr} (hv : v.All (Op.FloatIn floats))
    (he : e.All (Op.FloatIn floats)) : Told v e :=
  fun _ _ hv' he' hEqual => eq_of_equal hExact (hv'.all hv) (he'.all he) hEqual

mutual

theorem clear_of_exact (hExact : Exact floats) {v : Expr} (hv : v.All (Op.FloatIn floats)) :
    ∀ {e : Expr}, e.All (Op.FloatIn floats) → Clear v e
  | .var _ _, h => told_of_exact hExact hv h
  | .letIn _ _ _, h => ⟨told_of_exact hExact hv h, clear_of_exact hExact hv h.1, clear_of_exact hExact hv h.2⟩
  | .app _ _, h => ⟨told_of_exact hExact hv h, clearArgs_of_exact hExact hv h.2⟩

theorem clearArgs_of_exact (hExact : Exact floats) {v : Expr} (hv : v.All (Op.FloatIn floats)) :
    ∀ {es : Exprs}, es.All (Op.FloatIn floats) → ClearArgs v es
  | .nil, _ => trivial
  | .cons _ _, h => ⟨clear_of_exact hExact hv h.1, clearArgs_of_exact hExact hv h.2⟩

end

theorem Stmt.clear_of_exact (hExact : Exact floats) {v : Expr} (hv : v.All (Op.FloatIn floats)) :
    ∀ {S : Stmt}, S.All (Op.FloatIn floats) → S.Clear v
  | undefined, _ => trivial
  | LetStmt .., h => ⟨UnifyDuplicateLets.clear_of_exact hExact hv h.1, Stmt.clear_of_exact hExact hv h.2⟩
  | For .., h => ⟨UnifyDuplicateLets.clear_of_exact hExact hv h.1,
      UnifyDuplicateLets.clear_of_exact hExact hv h.2.1, Stmt.clear_of_exact hExact hv h.2.2⟩
  | Block .., h => ⟨Stmt.clear_of_exact hExact hv h.1, Stmt.clear_of_exact hExact hv h.2⟩
  | IfThenElse .., h => ⟨UnifyDuplicateLets.clear_of_exact hExact hv h.1,
      Stmt.clear_of_exact hExact hv h.2.1, Stmt.clear_of_exact hExact hv h.2.2⟩
  | Store .., h => ⟨UnifyDuplicateLets.clear_of_exact hExact hv h.1,
      UnifyDuplicateLets.clear_of_exact hExact hv h.2.1, UnifyDuplicateLets.clear_of_exact hExact hv h.2.2⟩

mutual

theorem separate_of_exact (hExact : Exact floats) : ∀ {e : Expr}, e.All (Op.FloatIn floats) → Separate e
  | .var _ _, _ => trivial
  | .letIn _ _ _, h => ⟨fun _ => clear_of_exact hExact h.1 h.2, separate_of_exact hExact h.1,
      separate_of_exact hExact h.2⟩
  | .app _ _, h => separateArgs_of_exact hExact h.2

theorem separateArgs_of_exact (hExact : Exact floats) :
    ∀ {es : Exprs}, es.All (Op.FloatIn floats) → SeparateArgs es
  | .nil, _ => trivial
  | .cons _ _, h => ⟨separate_of_exact hExact h.1, separateArgs_of_exact hExact h.2⟩

end

/-- Where no two constants of a statement are confused, all its lets are told apart. -/
theorem Stmt.separate_of_exact (hExact : Exact floats) :
    ∀ {S : Stmt}, S.All (Op.FloatIn floats) → S.Separate
  | undefined, _ => trivial
  | LetStmt .., h => ⟨fun _ => Stmt.clear_of_exact hExact h.1 h.2,
      UnifyDuplicateLets.separate_of_exact hExact h.1, Stmt.separate_of_exact hExact h.2⟩
  | For .., h => ⟨UnifyDuplicateLets.separate_of_exact hExact h.1,
      UnifyDuplicateLets.separate_of_exact hExact h.2.1, Stmt.separate_of_exact hExact h.2.2⟩
  | Block .., h => ⟨Stmt.separate_of_exact hExact h.1, Stmt.separate_of_exact hExact h.2⟩
  | IfThenElse .., h => ⟨UnifyDuplicateLets.separate_of_exact hExact h.1,
      Stmt.separate_of_exact hExact h.2.1, Stmt.separate_of_exact hExact h.2.2⟩
  | Store .., h => ⟨UnifyDuplicateLets.separate_of_exact hExact h.1,
      UnifyDuplicateLets.separate_of_exact hExact h.2.1, UnifyDuplicateLets.separate_of_exact hExact h.2.2⟩

end Separate

section Scope

variable {V M : Type} {sem : Semantics V M} {values values' : Set Expr} {used used' : Set String}
  {s s' : State} {ρ : String → V} {e e' value : Expr} {x name : String}

/-- The names that occur in a key. -/
def namesOf (e : Expr) : Set String := e.freeVars ∪ {x | x ∈ e.binders}

/-- What is known of the scope: a key without lets is pure. Of one with lets this is not
known, since the flag is reset at each let. -/
structure Known (values : Set Expr) (used : Set String) (s : State) : Prop where
  scope : ∀ entry ∈ s.scope, entry.2 ∈ used ∧ namesOf entry.1 ⊆ used ∧
    (∃ v ∈ values, Pruned entry.1 v) ∧ (entry.1.LetFree → entry.1.All (isImpure · = false))
  rewrites : ∀ x first, s.rewrites x = some first → x ∈ used ∧ first ∈ used

/-- The names in the scope have the values of their keys, and a let that is unified has
that of the earlier one. -/
structure Holds (sem : Semantics V M) (s : State) (ρ : String → V) : Prop where
  scope : ∀ entry ∈ s.scope, entry.1.LetFree → ∀ m, entry.1.run sem.effects ρ m = (ρ entry.2, m)
  rewrites : ∀ x first, s.rewrites x = some first → ρ x = ρ first

theorem Known.congr (h : Known values used s) (hScope : s'.scope = s.scope)
    (hRewrites : s'.rewrites = s.rewrites) : Known values used s' :=
  ⟨hScope ▸ h.scope, hRewrites ▸ h.rewrites⟩

theorem Known.mono (h : Known values used s) (hUsed : used ⊆ used') (hValues : values ⊆ values') :
    Known values' used' s where
  scope entry hEntry := by
    obtain ⟨hName, hNames, ⟨v, hv, hPruned⟩, hRest⟩ := h.scope entry hEntry
    exact ⟨hUsed hName, hNames.trans hUsed, ⟨v, hValues hv, hPruned⟩, hRest⟩
  rewrites x first hFirst := (h.rewrites x first hFirst).imp (@hUsed _) (@hUsed _)

theorem Holds.congr (h : Holds sem s ρ) (hScope : s'.scope = s.scope)
    (hRewrites : s'.rewrites = s.rewrites) : Holds sem s' ρ :=
  ⟨hScope ▸ h.scope, hRewrites ▸ h.rewrites⟩

/-- A name that does not occur in the scope may get any value. -/
theorem Holds.update (h : Holds sem s ρ) (hKnown : Known values used s) (hx : x ∉ used) (a : V) :
    Holds sem s (Function.update ρ x a) where
  scope entry hEntry hLetFree m := by
    obtain ⟨hName, hNames, -⟩ := hKnown.scope entry hEntry
    rw [Function.update_of_ne (ne_of_mem_of_not_mem hName hx), ← h.scope entry hEntry hLetFree m]
    exact entry.1.run_congr _ (fun y hy =>
      Function.update_of_ne (ne_of_mem_of_not_mem (hNames (Or.inl hy)) hx) _ _) m
  rewrites y first hFirst := by
    obtain ⟨hy, hFirstUsed⟩ := hKnown.rewrites y first hFirst
    rw [Function.update_of_ne (ne_of_mem_of_not_mem hy hx),
      Function.update_of_ne (ne_of_mem_of_not_mem hFirstUsed hx)]
    exact h.rewrites y first hFirst

/-- What is found in the scope is pure and has the value of the name: a key with a let
cannot be found, since its binder occurs in the key only. -/
theorem found_spec (sem : Semantics V M) (hKnown : Known values used s)
    (hBinders : ∀ x ∈ e.binders, x ∉ used) (hTold : ∀ v ∈ values, Told v e') (hPruned : Pruned e e')
    (h : s.find e = some name) :
    name ∈ used ∧ e.All (isImpure · = false) ∧
      ∀ ρ : String → V, Holds sem s ρ → ∀ m, e.run sem.effects ρ m = (ρ name, m) := by
  obtain ⟨entry, hFind, rfl⟩ := Option.map_eq_some_iff.mp h
  have hEntry := List.mem_of_find?_eq_some hFind
  obtain ⟨hName, hNames, ⟨v, hv, hKey⟩, hPure⟩ := hKnown.scope entry hEntry
  have hEqual := List.find?_some hFind
  obtain rfl := hTold v hv _ _ hKey hPruned hEqual
  have hLetFree : entry.1.LetFree := by
    refine Term.letFree_of_binders (List.eq_nil_iff_forall_not_mem.mpr fun x hx => ?_)
    exact hBinders x hx (hNames (Or.inr hx))
  exact ⟨hName, hPure hLetFree, fun ρ hHolds m => hHolds.scope entry hEntry hLetFree m⟩

/-- What the visit of an expression does. -/
structure Mutated (sem : Semantics V M) (used : Set String) (s : State) (e e' : Expr) (s' : State) : Prop where
  scope : s'.scope = s.scope
  rewrites : s'.rewrites = s.rewrites
  free : e'.freeVars ⊆ used ∪ namesOf e
  bound : e'.binders ⊆ e.binders
  pruned : Pruned e' e
  pure : e'.LetFree → s'.isImpure = false →
    s.isImpure = false ∧ e'.All (isImpure · = false) ∧ e.All (isImpure · = false)
  run : ∀ ρ, Holds sem s ρ → ∀ m, e'.run sem.effects ρ m = e.run sem.effects ρ m

theorem mutated_of_found (hKnown : Known values used s) (hBinders : ∀ x ∈ e.binders, x ∉ used)
    (hClear : ∀ v ∈ values, Clear v e) (h : s.find e = some name) (type : Ty) :
    Mutated sem used s e (.var type name) s := by
  obtain ⟨hName, hPure, hRun⟩ := found_spec sem hKnown hBinders (fun v hv => (hClear v hv).told)
    (Pruned.refl e) h
  refine ⟨rfl, rfl, ?_, List.nil_subset _, .var .., fun _ hFlag => ⟨hFlag, trivial, hPure⟩,
    fun ρ hHolds m => (hRun ρ hHolds m).symm⟩
  rintro y rfl
  exact Or.inl hName

/-- Between the value and the body of a let. -/
structure Entered (sem : Semantics V M) (values : Set Expr) (used : Set String) (s : State) (x : String)
    (value value' : Expr) (s' : State) (undo : Undo) : Prop where
  known : Known values (used ∪ value.freeVars ∪ {y | y = x ∨ y ∈ value.binders}) s'
  free : value'.freeVars ⊆ used ∪ namesOf value
  bound : value'.binders ⊆ value.binders
  pruned : Pruned value' value
  run : ∀ ρ, Holds sem s ρ → ∀ m, value'.run sem.effects ρ m = value.run sem.effects ρ m ∧
    Holds sem s' (Function.update ρ x (value.run sem.effects ρ m).1)
  leave : ∀ t : State, t.scope = s'.scope → t.rewrites = s'.rewrites →
    (t.leave x value' undo).scope = s.scope ∧ (t.leave x value' undo).rewrites = s.rewrites

theorem used_subset : used ⊆ used ∪ value.freeVars ∪ {y | y = x ∨ y ∈ value.binders} :=
  Set.subset_union_left.trans Set.subset_union_left

/-- The value may be impure, and is not recorded. -/
theorem entered_nothing (hKnown : Known values used s) (hValues : values ⊆ values') (hx : x ∉ used)
    (h : Mutated sem used s value e' s') : Entered sem values' used s x value e' s' .nothing where
  known := (hKnown.congr h.scope h.rewrites).mono used_subset hValues
  free := h.free
  bound := h.bound
  pruned := h.pruned
  run ρ hHolds m := ⟨h.run ρ hHolds m,
    (hHolds.congr h.scope h.rewrites).update (hKnown.congr h.scope h.rewrites) hx _⟩
  leave _ hScope hRewrites := ⟨hScope.trans h.scope, hRewrites.trans h.rewrites⟩

/-- The value becomes a key of the scope, until the body has been mutated. -/
theorem entered_pop (hKnown : Known values used s) (hValues : values ⊆ values')
    (hx : x ∉ used ∧ x ∉ value.freeVars ∧ x ∉ value.binders) (h : Mutated sem used s value e' s')
    (hFlag : s'.isImpure = false) (hRecorded : Recorded value → value ∈ values') (hFind : s'.find e' = none) :
    Entered sem values' used s x value e' { s' with scope := (e', x) :: s'.scope } .pop := by
  have hOld := entered_nothing hKnown hValues hx.1 h
  refine ⟨⟨fun entry hEntry => ?_, hOld.known.rewrites⟩, h.free, h.bound, h.pruned,
    fun ρ hHolds m => ⟨h.run ρ hHolds m, ⟨fun entry hEntry hLetFree m' => ?_, ?_⟩⟩, fun t hs hr => ?_⟩
  · rcases List.mem_cons.mp hEntry with rfl | hEntry
    · refine ⟨Or.inr (Or.inl rfl), ?_, ⟨value, hRecorded ?_, h.pruned⟩,
        fun hLetFree => (h.pure hLetFree hFlag).2.1⟩
      · rintro y (hy | hy)
        · rcases h.free hy with hUsed | hFree | hBinder
          · exact Or.inl (Or.inl hUsed)
          · exact Or.inl (Or.inr hFree)
          · exact Or.inr (Or.inr hBinder)
        · exact Or.inr (Or.inr (h.bound hy))
      · intro hLetFree
        have hNil := List.subset_nil.mp (hLetFree.binders ▸ h.bound)
        exact (h.pure (Term.letFree_of_binders hNil) hFlag).2.2
    · exact hOld.known.scope entry hEntry
  · rcases List.mem_cons.mp hEntry with rfl | hEntry
    · have hPure := (h.pure hLetFree hFlag).2.1
      have hNew : x ∉ e'.freeVars := fun hFree => (h.free hFree).elim hx.1 (Or.rec hx.2.1 hx.2.2)
      rw [← h.run ρ hHolds m, Term.run_pure sem.effects hPure ρ m, Function.update_self,
        ← Term.run_pure sem.effects hPure ρ m']
      exact e'.run_congr _ (fun y hy => Function.update_of_ne (ne_of_mem_of_not_mem hy hNew) _ _) m'
    · exact (hOld.run ρ hHolds m).2.scope entry hEntry hLetFree m'
  · exact (hOld.run ρ hHolds m).2.rewrites
  · refine ⟨?_, hr.trans h.rewrites⟩
    dsimp only [State.leave]
    rw [hs, List.filter_cons_of_neg (by simp [equal_self]), ← h.scope]
    refine List.filter_eq_self.mpr fun entry hEntry => ?_
    have hNone := List.find?_eq_none.mp (Option.map_eq_none_iff.mp hFind) entry hEntry
    simpa using hNone

/-- The earlier let has the value, and its name is the one to use. -/
theorem entered_erase {first : String} (hKnown : Known values used s) (hValues : values ⊆ values')
    (hBinders : ∀ y ∈ value.binders, y ∉ used) (hClear : ∀ v ∈ values, Clear v value) (hx : x ∉ used)
    (h : Mutated sem used s value e' s') (hFind : s'.find e' = some first) (type : Ty) :
    Entered sem values' used s x value (.var type first)
      { s' with rewrites := Function.update s'.rewrites x (some first) } .erase := by
  have hOld := entered_nothing hKnown hValues hx h
  have hKnown' : Known values used s' := hKnown.congr h.scope h.rewrites
  have hHolds' : ∀ ρ, Holds sem s ρ → Holds sem s' ρ := fun ρ hHolds => hHolds.congr h.scope h.rewrites
  obtain ⟨hFirst, -, hFound⟩ := found_spec sem hKnown' (fun y hy => hBinders y (h.bound hy))
    (fun v hv => (hClear v hv).told) h.pruned hFind
  refine ⟨⟨hOld.known.scope, fun y name hName => ?_⟩, ?_, List.nil_subset _, .var ..,
    fun ρ hHolds m => ⟨?_, ⟨(hOld.run ρ hHolds m).2.scope, fun y name hName => ?_⟩⟩,
    fun t hs hr => ⟨hs.trans h.scope, ?_⟩⟩
  · dsimp only at hName
    by_cases hy : y = x
    · rw [hy, Function.update_self] at hName
      cases hName
      exact ⟨Or.inr (Or.inl hy), used_subset hFirst⟩
    · rw [Function.update_of_ne hy] at hName
      exact hOld.known.rewrites y name hName
  · rintro y rfl
    exact Or.inl hFirst
  · rw [← h.run ρ hHolds m, hFound ρ (hHolds' ρ hHolds) m]
    rfl
  · dsimp only at hName
    by_cases hy : y = x
    · rw [hy, Function.update_self] at hName
      cases hName
      rw [hy, Function.update_self, Function.update_of_ne (ne_of_mem_of_not_mem hFirst hx),
        ← h.run ρ hHolds m, hFound ρ (hHolds' ρ hHolds) m]
    · rw [Function.update_of_ne hy] at hName
      exact (hOld.run ρ hHolds m).2.rewrites y name hName
  · dsimp only [State.leave] at hr ⊢
    rw [hr]
    funext y
    by_cases hy : y = x
    · rw [hy, Function.update_self]
      cases hBefore : s.rewrites x with
      | none => rfl
      | some name => exact absurd (hKnown.rewrites x name hBefore).1 hx
    · rw [Function.update_of_ne hy, Function.update_of_ne hy, h.rewrites]

theorem entered_of_mutated (values' : Set Expr) (hKnown : Known values used s) (hValues : values ⊆ values')
    (hRecorded : Recorded value → value ∈ values') (hBinders : ∀ y ∈ value.binders, y ∉ used)
    (hClear : ∀ v ∈ values, Clear v value) (hx : x ∉ used ∧ x ∉ value.freeVars ∧ x ∉ value.binders)
    (h : Mutated sem used s value e' s') :
    Entered sem values' used s x value (s'.enter x e').1 (s'.enter x e').2.1 (s'.enter x e').2.2 := by
  unfold State.enter
  split_ifs with hFlag
  · exact entered_nothing hKnown hValues hx.1 h
  cases hFind : s'.find e' with
  | none => exact entered_pop hKnown hValues hx h (Bool.eq_false_iff.mpr hFlag) hRecorded hFind
  | some first => exact entered_erase hKnown hValues hBinders hClear hx.1 h hFind _

/-- The flag is cleared before a value is visited. -/
theorem Entered.congr {undo : Undo} (h : Entered sem values used s x value e' s' undo) {t : State}
    (hScope : t.scope = s.scope) (hRewrites : t.rewrites = s.rewrites) :
    Entered sem values used t x value e' s' undo where
  known := h.known
  free := h.free
  bound := h.bound
  pruned := h.pruned
  run ρ hHolds := h.run ρ (hHolds.congr hScope.symm hRewrites.symm)
  leave u hs hr := (h.leave u hs hr).imp (·.trans hScope.symm) (·.trans hRewrites.symm)

end Scope

section Expressions

variable {V M : Type} {sem : Semantics V M} {values : Set Expr} {used : Set String} {s s' : State}

/-- What the visit of a list of expressions does. -/
structure MutatedArgs (sem : Semantics V M) (used : Set String) (s : State) (es es' : Exprs)
    (s' : State) : Prop where
  scope : s'.scope = s.scope
  rewrites : s'.rewrites = s.rewrites
  free : es'.freeVars ⊆ used ∪ (es.freeVars ∪ {x | x ∈ es.binders})
  bound : es'.binders ⊆ es.binders
  pruned : PrunedArgs es' es
  pure : es'.LetFree → s'.isImpure = false →
    s.isImpure = false ∧ es'.All (isImpure · = false) ∧ es.All (isImpure · = false)
  run : ∀ ρ, Holds sem s ρ → ∀ m, es'.run sem.effects ρ m = es.run sem.effects ρ m

theorem mutated_var (hKnown : Known values used s) (type : Ty) (x : String) :
    Mutated sem used s (.var type x) (.var type ((s.rewrites x).getD x)) s := by
  refine ⟨rfl, rfl, ?_, List.nil_subset _, .var .., fun _ hFlag => ⟨hFlag, trivial, trivial⟩,
    fun ρ hHolds m => ?_⟩
  · rintro y rfl
    cases hFirst : s.rewrites x with
    | none => exact Or.inr (Or.inl rfl)
    | some first => exact Or.inl (hKnown.rewrites x first hFirst).2
  · rw [Term.run, Term.run]
    cases hFirst : s.rewrites x with
    | none => rfl
    | some first => rw [hHolds.rewrites x first hFirst, Option.getD_some]

mutual

theorem mutated_mutate (sem : Semantics V M) : ∀ (e : Expr) (values : Set Expr) (used : Set String) (s : State),
    Known values used s → (∀ v ∈ values, Clear v e) → Fresh used e.binders e.freeVars → Separate e →
      Mutated sem used s e (mutate e s).1 (mutate e s).2
  | .var type x, values, used, s, hKnown, hClear, hFresh, _ => by
    rw [mutate]
    cases hFind : s.find (.var type x) with
    | some name => exact mutated_of_found hKnown (fun y hy => (hFresh.2 y hy).1) hClear hFind type
    | none => exact mutated_var hKnown type x
  | .letIn x value body, values, used, s, hKnown, hClear, hFresh, hSeparate => by
    rw [mutate]
    cases hFind : s.find (.letIn x value body) with
    | some name => exact mutated_of_found hKnown (fun y hy => (hFresh.2 y hy).1) hClear hFind _
    | none =>
      obtain ⟨hValueFresh, hx⟩ := hFresh.value
      have hKnown' : Known values used { s with isImpure := false } := hKnown.congr rfl rfl
      have hValue := mutated_mutate sem value values used { s with isImpure := false } hKnown'
        (fun v hv => (hClear v hv).2.1) hValueFresh hSeparate.2.1
      have hEnter := (entered_of_mutated {v | Clear v body} hKnown' (fun v hv => (hClear v hv).2.2)
        hSeparate.1 (fun y hy => (hValueFresh.2 y hy).1) (fun v hv => (hClear v hv).2.1) hx hValue).congr
        (t := s) rfl rfl
      have hBody := mutated_mutate sem body _ _ _ hEnter.known (fun v hv => hv) (hFresh.body subset_rfl) hSeparate.2.2
      obtain ⟨hScope, hRewrites⟩ := hEnter.leave _ hBody.scope hBody.rewrites
      refine ⟨hScope, hRewrites, ?_, ?_, .letIn x hEnter.pruned hBody.pruned, fun hLet => hLet.elim,
        fun ρ hHolds m => ?_⟩
      · rintro y (hy | ⟨hy, hNe⟩)
        · exact (hEnter.free hy).imp_right
            (Or.imp Or.inl fun hy => List.mem_cons_of_mem _ (List.mem_append_left _ hy))
        · rcases hBody.free hy with ((hUsed | hFree) | hEq | hBound) | hFree | hBound
          · exact Or.inl hUsed
          · exact Or.inr (Or.inl (Or.inl hFree))
          · exact absurd hEq hNe
          · exact Or.inr (Or.inr (List.mem_cons_of_mem _ (List.mem_append_left _ hBound)))
          · exact Or.inr (Or.inl (Or.inr ⟨hFree, hNe⟩))
          · exact Or.inr (Or.inr (List.mem_cons_of_mem _ (List.mem_append_right _ hBound)))
      · refine List.cons_subset_cons x (List.append_subset.mpr ⟨?_, ?_⟩)
        · exact List.Subset.trans hEnter.bound (List.subset_append_left _ _)
        · exact List.Subset.trans hBody.bound (List.subset_append_right _ _)
      · obtain ⟨hRun, hHolds'⟩ := hEnter.run ρ hHolds m
        dsimp only
        rw [Term.run, Term.run, hRun]
        exact hBody.run _ hHolds' _
  | .app op args, values, used, s, hKnown, hClear, hFresh, hSeparate => by
    rw [mutate]
    cases hFind : s.find (.app op args) with
    | some name => exact mutated_of_found hKnown (fun y hy => (hFresh.2 y hy).1) hClear hFind _
    | none =>
      have hArgs := mutated_mutateArgs sem args values used { s with isImpure := s.isImpure || isImpure op }
        (hKnown.congr rfl rfl) (fun v hv => (hClear v hv).2) hFresh hSeparate
      refine ⟨hArgs.scope, hArgs.rewrites, hArgs.free, hArgs.bound, .app op hArgs.pruned,
        fun hLetFree hFlag => ?_, fun ρ hHolds m => ?_⟩
      · obtain ⟨hBefore, hPure, hPureArgs⟩ := hArgs.pure hLetFree hFlag
        rw [Bool.or_eq_false_iff] at hBefore
        exact ⟨hBefore.1, ⟨hBefore.2, hPure⟩, hBefore.2, hPureArgs⟩
      · rw [Term.run, Term.run, hArgs.run ρ (hHolds.congr rfl rfl) m]

theorem mutated_mutateArgs (sem : Semantics V M) : ∀ (es : Exprs) (values : Set Expr) (used : Set String) (s : State),
    Known values used s → (∀ v ∈ values, ClearArgs v es) → Fresh used es.binders es.freeVars → SeparateArgs es →
      MutatedArgs sem used s es (mutateArgs es s).1 (mutateArgs es s).2
  | .nil, values, used, s, _, _, _, _ =>
    ⟨rfl, rfl, Set.empty_subset _, List.nil_subset _, .nil, fun _ hFlag => ⟨hFlag, trivial, trivial⟩,
      fun _ _ _ => rfl⟩
  | .cons e rest, values, used, s, hKnown, hClear, hFresh, hSeparate => by
    have hHead := mutated_mutate sem e values used s hKnown (fun v hv => (hClear v hv).1) hFresh.left hSeparate.1
    have hRest := mutated_mutateArgs sem rest values used (mutate e s).2
      (hKnown.congr hHead.scope hHead.rewrites) (fun v hv => (hClear v hv).2) hFresh.right hSeparate.2
    refine ⟨hRest.scope.trans hHead.scope, hRest.rewrites.trans hHead.rewrites, ?_, ?_,
      .cons hHead.pruned hRest.pruned, fun hLetFree hFlag => ?_, fun ρ hHolds m => ?_⟩
    · rintro y (hy | hy)
      · exact (hHead.free hy).imp_right (Or.imp Or.inl (List.mem_append_left _))
      · exact (hRest.free hy).imp_right (Or.imp Or.inr (List.mem_append_right _))
    · exact List.append_subset.mpr ⟨List.Subset.trans hHead.bound (List.subset_append_left _ _),
        List.Subset.trans hRest.bound (List.subset_append_right _ _)⟩
    · obtain ⟨hBefore, hRestPure, hRestPure'⟩ := hRest.pure hLetFree.2 hFlag
      obtain ⟨hStart, hHeadPure, hHeadPure'⟩ := hHead.pure hLetFree.1 hBefore
      exact ⟨hStart, ⟨hHeadPure, hRestPure⟩, hHeadPure', hRestPure'⟩
    · rw [mutateArgs, Terms.run, Terms.run]
      dsimp only
      rw [hHead.run ρ hHolds m, hRest.run ρ (hHolds.congr hHead.scope hHead.rewrites)]

end

end Expressions

section Statements

variable {V M : Type} {sem : Semantics V M}

/-- What the visit of a statement does. -/
structure Kept (sem : Semantics V M) (s : State) (S S' : Stmt) (s' : State) : Prop where
  scope : s'.scope = s.scope
  rewrites : s'.rewrites = s.rewrites
  exec : ∀ ρ, Holds sem s ρ → ∀ m, exec sem S' ρ m = exec sem S ρ m

theorem iterate_congr {step step' : Int → M → M} (h : ∀ i m, step i m = step' i m) (min : Int) :
    ∀ n m, iterate step min n m = iterate step' min n m
  | 0, _ => rfl
  | n + 1, m => by rw [iterate, iterate, h, iterate_congr h min n m]

theorem kept_mutateStmt (sem : Semantics V M) : ∀ (S : Stmt) (values : Set Expr) (used : Set String) (s : State),
    Known values used s → (∀ v ∈ values, S.Clear v) → Fresh used S.binders S.freeVars → S.Separate →
      Kept sem s S (mutateStmt S s).1 (mutateStmt S s).2
  | .undefined, values, used, s, _, _, _, _ => ⟨rfl, rfl, fun _ _ _ => rfl⟩
  | .LetStmt x value body, values, used, s, hKnown, hClear, hFresh, hSeparate => by
    obtain ⟨hValueFresh, hx⟩ := Fresh.value hFresh
    have hKnown' : Known values used { s with isImpure := false } := hKnown.congr rfl rfl
    have hValue := mutated_mutate sem value values used { s with isImpure := false } hKnown'
      (fun v hv => (hClear v hv).1) hValueFresh hSeparate.2.1
    have hEnter := (entered_of_mutated {v | body.Clear v} hKnown' (fun v hv => (hClear v hv).2)
      hSeparate.1 (fun y hy => (hValueFresh.2 y hy).1) (fun v hv => (hClear v hv).1) hx hValue).congr
      (t := s) rfl rfl
    have hBody := kept_mutateStmt sem body _ _ _ hEnter.known (fun v hv => hv) (Fresh.body hFresh subset_rfl)
      hSeparate.2.2
    obtain ⟨hScope, hRewrites⟩ := hEnter.leave _ hBody.scope hBody.rewrites
    refine ⟨hScope, hRewrites, fun ρ hHolds m => ?_⟩
    obtain ⟨hRun, hHolds'⟩ := hEnter.run ρ hHolds m
    rw [mutateStmt]
    dsimp only
    rw [exec, exec, hRun]
    exact hBody.exec _ hHolds' _
  | .For x min extent body, values, used, s, hKnown, hClear, hFresh, hSeparate => by
    obtain ⟨hBoundsFresh, hx, hxFree, hxBound⟩ := Fresh.value hFresh
    have hMin := mutated_mutate sem min values used s hKnown (fun v hv => (hClear v hv).1)
      hBoundsFresh.left hSeparate.1
    have hExtent := mutated_mutate sem extent values used (mutate min s).2
      (hKnown.congr hMin.scope hMin.rewrites) (fun v hv => (hClear v hv).2.1) hBoundsFresh.right hSeparate.2.1
    have hScope := hExtent.scope.trans hMin.scope
    have hRewrites := hExtent.rewrites.trans hMin.rewrites
    have hKnown' := hKnown.congr hScope hRewrites
    have hBody := kept_mutateStmt sem body values used (mutate extent (mutate min s).2).2 hKnown'
      (fun v hv => (hClear v hv).2.2)
      (Fresh.body hFresh (Set.subset_union_left.trans Set.subset_union_left)) hSeparate.2.2
    refine ⟨hBody.scope.trans hScope, hBody.rewrites.trans hRewrites, fun ρ hHolds m => ?_⟩
    rw [mutateStmt]
    dsimp only
    rw [exec, exec, hMin.run ρ hHolds]
    dsimp only
    rw [hExtent.run ρ (hHolds.congr hMin.scope hMin.rewrites)]
    refine iterate_congr (fun i m => ?_) _ _ _
    exact hBody.exec _ ((hHolds.congr hScope hRewrites).update hKnown' hx _) m
  | .Block first rest, values, used, s, hKnown, hClear, hFresh, hSeparate => by
    have hFirst := kept_mutateStmt sem first values used s hKnown (fun v hv => (hClear v hv).1) hFresh.left
      hSeparate.1
    have hRest := kept_mutateStmt sem rest values used _ (hKnown.congr hFirst.scope hFirst.rewrites)
      (fun v hv => (hClear v hv).2) hFresh.right hSeparate.2
    refine ⟨hRest.scope.trans hFirst.scope, hRest.rewrites.trans hFirst.rewrites, fun ρ hHolds m => ?_⟩
    rw [mutateStmt]
    dsimp only
    rw [exec, exec, hFirst.exec ρ hHolds, hRest.exec ρ (hHolds.congr hFirst.scope hFirst.rewrites)]
  | .IfThenElse condition then_case else_case, values, used, s, hKnown, hClear, hFresh, hSeparate => by
    have hCondition := mutated_mutate sem condition values used s hKnown
      (fun v hv => (hClear v hv).1) hFresh.left hSeparate.1
    have hCases : Fresh used (then_case.binders ++ else_case.binders)
      (then_case.freeVars ∪ else_case.freeVars) := hFresh.right
    have hThen := kept_mutateStmt sem then_case values used _
      (hKnown.congr hCondition.scope hCondition.rewrites) (fun v hv => (hClear v hv).2.1) hCases.left
      hSeparate.2.1
    have hScope := hThen.scope.trans hCondition.scope
    have hRewrites := hThen.rewrites.trans hCondition.rewrites
    have hElse := kept_mutateStmt sem else_case values used _ (hKnown.congr hScope hRewrites)
      (fun v hv => (hClear v hv).2.2) hCases.right hSeparate.2.2
    refine ⟨hElse.scope.trans hScope, hElse.rewrites.trans hRewrites, fun ρ hHolds m => ?_⟩
    rw [mutateStmt]
    dsimp only
    rw [exec, exec, hCondition.run ρ hHolds]
    dsimp only
    rw [hThen.exec ρ (hHolds.congr hCondition.scope hCondition.rewrites),
      hElse.exec ρ (hHolds.congr hScope hRewrites)]
  | .Store name predicate value index, values, used, s, hKnown, hClear, hFresh, hSeparate => by
    have hPredicate := mutated_mutate sem predicate values used s hKnown
      (fun v hv => (hClear v hv).1) hFresh.left hSeparate.1
    have hOperands : Fresh used (value.binders ++ index.binders) (value.freeVars ∪ index.freeVars) :=
      hFresh.right
    have hValue := mutated_mutate sem value values used _
      (hKnown.congr hPredicate.scope hPredicate.rewrites) (fun v hv => (hClear v hv).2.1) hOperands.left
      hSeparate.2.1
    have hScope := hValue.scope.trans hPredicate.scope
    have hRewrites := hValue.rewrites.trans hPredicate.rewrites
    have hIndex := mutated_mutate sem index values used _ (hKnown.congr hScope hRewrites)
      (fun v hv => (hClear v hv).2.2) hOperands.right hSeparate.2.2
    refine ⟨hIndex.scope.trans hScope, hIndex.rewrites.trans hRewrites, fun ρ hHolds m => ?_⟩
    rw [mutateStmt]
    dsimp only
    rw [exec, exec, hPredicate.run ρ hHolds]
    dsimp only
    rw [hValue.run ρ (hHolds.congr hPredicate.scope hPredicate.rewrites)]
    rw [hIndex.run ρ (hHolds.congr hScope hRewrites)]

def float32 : Ty := ⟨.float, 32, 1, none⟩

def index32 : Ty := ⟨.int, 32, 1, none⟩

def floatImm (x : F64) : Expr := .app (.FloatImm float32 x) .nil

def always : Expr := .app (.UIntImm ⟨.uint, 1, 1, none⟩ 1) .nil

def intImm (n : Int) : Expr := .app (.IntImm index32 n) .nil

/-- Sums of words, and buffers of words. -/
def wordSemantics : Semantics (BitVec 64) (String → BitVec 64 → BitVec 64) where
  value
    | .FloatImm _ x, _ => x.bits
    | .IntImm _ n, _ => BitVec.ofInt 64 n
    | .UIntImm _ n, _ => BitVec.ofNat 64 n
    | _, args => args.sum
  effect _ args m := (args.sum, m)
  store name p v i m := if p = 0 then m else Function.update m name (Function.update (m name) i v)
  toInt := BitVec.toInt
  ofInt := BitVec.ofInt 64
  isTrue v := v ≠ 0

/-- `let a = x + 1 in let b = x + 1 in buf[a] = b` -/
def sumTwice : Stmt :=
  .LetStmt "a" (.app (.Binary .Add index32) (.cons (.var index32 "x") (.cons (intImm 1) .nil)))
    (.LetStmt "b" (.app (.Binary .Add index32) (.cons (.var index32 "x") (.cons (intImm 1) .nil)))
      (.Store "buf" always (.var index32 "b") (.var index32 "a")))

/-- `let a = x + 1 in let b = a in buf[b] = b` -/
def sumOnce : Stmt :=
  .LetStmt "a" (.app (.Binary .Add index32) (.cons (.var index32 "x") (.cons (intImm 1) .nil)))
    (.LetStmt "b" (.var index32 "a") (.Store "buf" always (.var index32 "b") (.var index32 "b")))

/-- `let a = 0.0 in buf[0] = -0.0` -/
def storeNegative : Stmt :=
  .LetStmt "a" (floatImm .zero) (.Store "buf" always (floatImm .negZero) (intImm 0))

end Statements

end Vyasa.UnifyDuplicateLets
