import Mathlib.Data.Set.Insert

/-! Terms with lets over arbitrary functions, and the substitution of all lets at once.
Names may be bound again inside their scope. -/
namespace Vyasa.Binding

universe u v w

mutual

/-- A variable has an annotation, which has no meaning here. -/
inductive Term (F : Type u) (τ : Type v) (ν : Type w) where
  | var (type : τ) (x : ν)
  | letIn (x : ν) (value body : Term F τ ν)
  | app (f : F) (args : Terms F τ ν)

inductive Terms (F : Type u) (τ : Type v) (ν : Type w) where
  | nil
  | cons (t : Term F τ ν) (rest : Terms F τ ν)

end

variable {F : Type u} {τ : Type v} {ν : Type w} {V : Type*}

mutual

def Term.freeVars : Term F τ ν → Set ν
  | .var _ x => {x}
  | .letIn x value body => value.freeVars ∪ (body.freeVars \ {x})
  | .app _ args => args.freeVars

def Terms.freeVars : Terms F τ ν → Set ν
  | .nil => ∅
  | .cons t rest => t.freeVars ∪ rest.freeVars

end

mutual

/-- The free variables, without the values of lets whose name is not used. -/
def Term.liveVars : Term F τ ν → Set ν
  | .var _ x => {x}
  | .letIn x value body => {y | x ∈ body.liveVars ∧ y ∈ value.liveVars} ∪ (body.liveVars \ {x})
  | .app _ args => args.liveVars

def Terms.liveVars : Terms F τ ν → Set ν
  | .nil => ∅
  | .cons t rest => t.liveVars ∪ rest.liveVars

end

mutual

def Term.LetFree : Term F τ ν → Prop
  | .var _ _ => True
  | .letIn _ _ _ => False
  | .app _ args => args.LetFree

def Terms.LetFree : Terms F τ ν → Prop
  | .nil => True
  | .cons t rest => t.LetFree ∧ rest.LetFree

end

mutual

/-- All functions in the term are of a kind. -/
def Term.All (p : F → Prop) : Term F τ ν → Prop
  | .var _ _ => True
  | .letIn _ value body => value.All p ∧ body.All p
  | .app f args => p f ∧ args.All p

def Terms.All (p : F → Prop) : Terms F τ ν → Prop
  | .nil => True
  | .cons t rest => t.All p ∧ rest.All p

end

mutual

theorem Term.liveVars_subset : ∀ t : Term F τ ν, t.liveVars ⊆ t.freeVars
  | .var _ _ => subset_rfl
  | .letIn x value body => by
    rintro y (⟨-, hy⟩ | ⟨hy, hne⟩)
    · exact Or.inl (value.liveVars_subset hy)
    · exact Or.inr ⟨body.liveVars_subset hy, hne⟩
  | .app _ args => args.liveVars_subset

theorem Terms.liveVars_subset : ∀ t : Terms F τ ν, t.liveVars ⊆ t.freeVars
  | .nil => subset_rfl
  | .cons t rest => Set.union_subset_union t.liveVars_subset rest.liveVars_subset

end

mutual

theorem Term.LetFree.liveVars : ∀ {t : Term F τ ν}, t.LetFree → t.liveVars = t.freeVars
  | .var _ _, _ => rfl
  | .letIn .., h => h.elim
  | .app _ args, h => Terms.LetFree.liveVars (t := args) h

theorem Terms.LetFree.liveVars : ∀ {t : Terms F τ ν}, t.LetFree → t.liveVars = t.freeVars
  | .nil, _ => rfl
  | .cons t rest, h => by
    rw [Terms.liveVars, Terms.freeVars, Term.LetFree.liveVars h.1, Terms.LetFree.liveVars h.2]

end

variable [DecidableEq ν]

mutual

/-- The value of a term, given what the functions compute and the values of the names. -/
def Term.eval (interp : F → List V → V) : Term F τ ν → (ν → V) → V
  | .var _ x, env => env x
  | .letIn x value body, env =>
      body.eval interp (Function.update env x (value.eval interp env))
  | .app f args, env => interp f (args.eval interp env)

def Terms.eval (interp : F → List V → V) : Terms F τ ν → (ν → V) → List V
  | .nil, _ => []
  | .cons t rest, env => t.eval interp env :: rest.eval interp env

end

/-- The names that stand for terms. -/
abbrev Scope (F : Type u) (τ : Type v) (ν : Type w) := ν → Option (Term F τ ν)

namespace Scope

def empty : Scope F τ ν := fun _ => none

def bind (s : Scope F τ ν) (x : ν) (t : Term F τ ν) : Scope F τ ν := Function.update s x (some t)

/-- The values of all names where those in scope stand for terms. -/
def values (s : Scope F τ ν) (interp : F → List V → V) (env : ν → V) (x : ν) : V :=
  ((s x).map fun t => t.eval interp env).getD (env x)

end Scope

mutual

/-- Replace the names in scope by their terms, and every let by its body with its name in
scope. -/
def Term.inline (s : Scope F τ ν) : Term F τ ν → Term F τ ν
  | .var type x => (s x).getD (.var type x)
  | .letIn x value body => body.inline (s.bind x (value.inline s))
  | .app f args => .app f (args.inline s)

def Terms.inline (s : Scope F τ ν) : Terms F τ ν → Terms F τ ν
  | .nil => .nil
  | .cons t rest => .cons (t.inline s) (rest.inline s)

end

/-- First one substitution, then another. -/
def Scope.andThen (s s' : Scope F τ ν) : Scope F τ ν :=
  fun x => ((s x).map (Term.inline s')).or (s' x)

namespace Scope

@[simp] theorem bind_self (s : Scope F τ ν) (x : ν) (t : Term F τ ν) : s.bind x t x = some t :=
  Function.update_self ..

theorem bind_of_ne (s : Scope F τ ν) {x y : ν} (h : y ≠ x) (t : Term F τ ν) :
    s.bind x t y = s y :=
  Function.update_of_ne h ..

theorem values_bind (s : Scope F τ ν) (x : ν) (t : Term F τ ν) (interp : F → List V → V)
    (env : ν → V) : (s.bind x t).values interp env =
      Function.update (s.values interp env) x (t.eval interp env) := by
  funext y
  by_cases hy : y = x
  · subst hy
    simp [values]
  · simp [values, bind_of_ne s hy, Function.update_of_ne hy]

@[simp] theorem values_empty (interp : F → List V → V) (env : ν → V) :
    (empty : Scope F τ ν).values interp env = env := rfl

theorem bind_andThen (s s' : Scope F τ ν) (x : ν) (t : Term F τ ν) :
    (s.bind x t).andThen s' = (s.andThen s').bind x (t.inline s') := by
  funext y
  by_cases hy : y = x
  · subst hy
    simp [andThen]
  · simp [andThen, bind_of_ne _ hy]

theorem empty_andThen (s : Scope F τ ν) : empty.andThen s = s := by
  funext x
  simp [andThen, empty]

end Scope

/-! ### Values -/

mutual

/-- Substitution does not change the value. -/
theorem Term.eval_inline (interp : F → List V → V) : ∀ (t : Term F τ ν) (s : Scope F τ ν) env,
    (t.inline s).eval interp env = t.eval interp (s.values interp env)
  | .var type x, s, env => by
    cases h : s x with
    | none => simp [Term.inline, Term.eval, Scope.values, h]
    | some u => simp [Term.inline, Term.eval, Scope.values, h]
  | .letIn x value body, s, env => by
    rw [Term.inline, Term.eval, body.eval_inline interp, Scope.values_bind,
      value.eval_inline interp]
  | .app f args, s, env => by rw [Term.inline, Term.eval, Term.eval, args.eval_inline interp]

theorem Terms.eval_inline (interp : F → List V → V) : ∀ (t : Terms F τ ν) (s : Scope F τ ν) env,
    (t.inline s).eval interp env = t.eval interp (s.values interp env)
  | .nil, _, _ => rfl
  | .cons t rest, s, env => by
    rw [Terms.inline, Terms.eval, Terms.eval, t.eval_inline interp, rest.eval_inline interp]

end

theorem Term.eval_inline_empty (interp : F → List V → V) (t : Term F τ ν) (env : ν → V) :
    (t.inline .empty).eval interp env = t.eval interp env := by
  rw [t.eval_inline, Scope.values_empty]

/-! ### Composition -/

mutual

theorem Term.inline_inline : ∀ (t : Term F τ ν) (s s' : Scope F τ ν),
    (t.inline s).inline s' = t.inline (s.andThen s')
  | .var type x, s, s' => by
    cases h : s x with
    | none => simp [Term.inline, Scope.andThen, h]
    | some u => simp [Term.inline, Scope.andThen, h]
  | .letIn x value body, s, s' => by
    rw [Term.inline, Term.inline, body.inline_inline, Scope.bind_andThen, value.inline_inline]
  | .app f args, s, s' => by rw [Term.inline, Term.inline, Term.inline, args.inline_inline]

theorem Terms.inline_inline : ∀ (t : Terms F τ ν) (s s' : Scope F τ ν),
    (t.inline s).inline s' = t.inline (s.andThen s')
  | .nil, _, _ => rfl
  | .cons t rest, s, s' => by
    rw [Terms.inline, Terms.inline, Terms.inline, t.inline_inline, rest.inline_inline]

end

mutual

theorem Term.LetFree.inline : ∀ {t : Term F τ ν} {s : Scope F τ ν},
    (∀ x u, s x = some u → u.LetFree) → (t.inline s).LetFree
  | .var type x, s, hs => by
    cases h : s x with
    | none => simp [Term.inline, h, Term.LetFree]
    | some u => simpa [Term.inline, h] using hs x u h
  | .letIn x value body, s, hs => by
    refine Term.LetFree.inline (t := body) fun y u hu => ?_
    by_cases hy : y = x
    · subst hy
      rw [Scope.bind_self, Option.some.injEq] at hu
      exact hu ▸ Term.LetFree.inline (t := value) hs
    · rw [Scope.bind_of_ne s hy] at hu
      exact hs y u hu
  | .app f args, s, hs => Terms.LetFree.inline (t := args) hs

theorem Terms.LetFree.inline : ∀ {t : Terms F τ ν} {s : Scope F τ ν},
    (∀ x u, s x = some u → u.LetFree) → (t.inline s).LetFree
  | .nil, _, _ => trivial
  | .cons t rest, _, hs => ⟨Term.LetFree.inline (t := t) hs, Terms.LetFree.inline (t := rest) hs⟩

end

theorem Term.letFree_inline_empty (t : Term F τ ν) : (t.inline .empty).LetFree :=
  Term.LetFree.inline fun _ _ h => by cases h

mutual

/-- A substitution into a term without lets that leaves its variables alone changes nothing. -/
theorem Term.LetFree.inline_eq : ∀ {t : Term F τ ν} {s : Scope F τ ν}, t.LetFree →
    (∀ x ∈ t.freeVars, s x = none) → t.inline s = t
  | .var type x, s, _, hs => by simp [Term.inline, hs x rfl]
  | .letIn .., _, h, _ => h.elim
  | .app f args, s, h, hs => by rw [Term.inline, Terms.LetFree.inline_eq (t := args) h hs]

theorem Terms.LetFree.inline_eq : ∀ {t : Terms F τ ν} {s : Scope F τ ν}, t.LetFree →
    (∀ x ∈ t.freeVars, s x = none) → t.inline s = t
  | .nil, _, _, _ => rfl
  | .cons t rest, s, h, hs => by
    rw [Terms.inline, Term.LetFree.inline_eq h.1 fun x hx => hs x (Or.inl hx),
      Terms.LetFree.inline_eq h.2 fun x hx => hs x (Or.inr hx)]

end

/-! ### Free variables -/

/-- The names that a name brings in where it is replaced. -/
def Scope.brings (s : Scope F τ ν) (x : ν) : Set ν :=
  match s x with
  | none => {x}
  | some u => u.liveVars

theorem Scope.brings_bind (s : Scope F τ ν) (x y : ν) (t : Term F τ ν) :
    (s.bind x t).brings y = if y = x then t.liveVars else s.brings y := by
  by_cases hy : y = x
  · subst hy
    simp [Scope.brings]
  · simp [Scope.brings, bind_of_ne s hy, hy]

mutual

theorem Term.mem_liveVars_inline : ∀ (t : Term F τ ν) (s : Scope F τ ν) (y : ν),
    y ∈ (t.inline s).liveVars ↔ ∃ x ∈ t.liveVars, y ∈ s.brings x
  | .var type x, s, y => by
    cases h : s x with
    | none => simp [Term.inline, Term.liveVars, Scope.brings, h]
    | some u => simp [Term.inline, Term.liveVars, Scope.brings, h]
  | .letIn x value body, s, y => by
    rw [Term.inline, body.mem_liveVars_inline]
    simp only [Scope.brings_bind, Term.liveVars, Set.mem_union, Set.mem_ofPred_eq, Set.mem_sdiff,
      Set.mem_singleton_iff]
    constructor
    · rintro ⟨z, hz, hy⟩
      split at hy
      · next h =>
        subst h
        obtain ⟨z', hz', hy⟩ := (value.mem_liveVars_inline s y).mp hy
        exact ⟨z', Or.inl ⟨hz, hz'⟩, hy⟩
      · next h => exact ⟨z, Or.inr ⟨hz, h⟩, hy⟩
    · rintro ⟨z, ⟨hx, hz⟩ | ⟨hz, hne⟩, hy⟩
      · refine ⟨x, hx, ?_⟩
        rw [if_pos rfl]
        exact (value.mem_liveVars_inline s y).mpr ⟨z, hz, hy⟩
      · refine ⟨z, hz, ?_⟩
        rwa [if_neg hne]
  | .app _ args, s, y => args.mem_liveVars_inline s y

theorem Terms.mem_liveVars_inline : ∀ (t : Terms F τ ν) (s : Scope F τ ν) (y : ν),
    y ∈ (t.inline s).liveVars ↔ ∃ x ∈ t.liveVars, y ∈ s.brings x
  | .nil, _, _ => by simp [Terms.inline, Terms.liveVars]
  | .cons t rest, s, y => by
    simp only [Terms.inline, Terms.liveVars, Set.mem_union, t.mem_liveVars_inline s y,
      rest.mem_liveVars_inline s y, or_and_right, exists_or]

end

/-- Without lets the free variables are the live ones. -/
theorem Term.freeVars_inline_empty (t : Term F τ ν) : (t.inline .empty).freeVars = t.liveVars := by
  ext y
  rw [← t.letFree_inline_empty.liveVars, t.mem_liveVars_inline]
  simp [Scope.brings, Scope.empty]

mutual

/-- The substitution depends on the terms of the live variables alone. -/
theorem Term.inline_congr : ∀ (t : Term F τ ν) {s s' : Scope F τ ν},
    (∀ x ∈ t.liveVars, s x = s' x) → t.inline s = t.inline s'
  | .var type x, s, s', h => by rw [Term.inline, Term.inline, h x rfl]
  | .letIn x value body, s, s', h => by
    rw [Term.inline, Term.inline]
    refine body.inline_congr fun y hy => ?_
    by_cases hne : y = x
    · subst hne
      have hValue : value.inline s = value.inline s' :=
        value.inline_congr fun z hz => h z (Or.inl ⟨hy, hz⟩)
      rw [Scope.bind_self, Scope.bind_self, hValue]
    · rw [Scope.bind_of_ne s hne, Scope.bind_of_ne s' hne]
      exact h y (Or.inr ⟨hy, hne⟩)
  | .app f args, s, s', h => by rw [Term.inline, Term.inline, args.inline_congr h]

theorem Terms.inline_congr : ∀ (t : Terms F τ ν) {s s' : Scope F τ ν},
    (∀ x ∈ t.liveVars, s x = s' x) → t.inline s = t.inline s'
  | .nil, _, _, _ => rfl
  | .cons t rest, s, s', h => by
    rw [Terms.inline, Terms.inline, t.inline_congr fun x hx => h x (Or.inl hx),
      rest.inline_congr fun x hx => h x (Or.inr hx)]

end

/-! ### Chains of lets -/

/-- The first let is outermost. -/
def Term.lets (l : List (ν × Term F τ ν)) (body : Term F τ ν) : Term F τ ν :=
  l.foldr (fun p t => .letIn p.1 p.2 t) body

/-- Each value uses the outer names and those of the lets before it. -/
def Scoped (outer : Set ν) : List (ν × Term F τ ν) → Term F τ ν → Prop
  | [], body => body.freeVars ⊆ outer
  | p :: l, body => p.2.freeVars ⊆ outer ∧ Scoped (insert p.1 outer) l body

omit [DecidableEq ν] in
theorem Scoped.freeVars_lets : ∀ {l : List (ν × Term F τ ν)} {outer : Set ν} {body : Term F τ ν},
    Scoped outer l body → (Term.lets l body).freeVars ⊆ outer
  | [], _, _, h => h
  | p :: l, outer, body, h => by
    rintro y (hy | ⟨hy, hne⟩)
    · exact h.1 hy
    · rcases h.2.freeVars_lets hy with rfl | hOuter
      · exact absurd rfl hne
      · exact hOuter

/-- A chain of lets is substituted by one substitution that solves all its equations. -/
theorem Scoped.inline_lets {ρ : Scope F τ ν} : ∀ {l : List (ν × Term F τ ν)} {outer : Set ν}
    {body : Term F τ ν} {s : Scope F τ ν}, Scoped outer l body → (∀ y ∈ outer, s y = ρ y) →
      (∀ p ∈ l, ρ p.1 = some (p.2.inline ρ)) → (Term.lets l body).inline s = body.inline ρ
  | [], _, body, _, h, hs, _ => body.inline_congr fun x hx => hs x (h (body.liveVars_subset hx))
  | p :: l, outer, body, s, h, hs, hρ => by
    have hValue : p.2.inline s = p.2.inline ρ :=
      p.2.inline_congr fun x hx => hs x (h.1 (p.2.liveVars_subset hx))
    refine h.2.inline_lets (fun y hy => ?_) fun q hq => hρ q (List.mem_cons_of_mem _ hq)
    by_cases hne : y = p.1
    · rw [hne, Scope.bind_self, hρ p List.mem_cons_self, hValue]
    · rw [Scope.bind_of_ne s hne]
      exact hs y (hy.resolve_left hne)

end Vyasa.Binding

/-! Terms over functions some of which read or change a memory, evaluated from left to
right, and the names that the lets of a term bind. -/
namespace Vyasa.Binding

universe u v w

/-- What the functions compute: a value of their arguments, or one that also depends on
the memory and may change it. -/
structure Effects (F V M : Type*) where
  impure : F → Bool
  value : F → List V → V
  effect : F → List V → M → V × M

variable {F : Type u} {τ : Type v} {ν : Type w} {V M : Type*}

mutual

/-- The names that are bound, each as often as it is. -/
def Term.binders : Term F τ ν → List ν
  | .var _ _ => []
  | .letIn x value body => x :: (value.binders ++ body.binders)
  | .app _ args => args.binders

def Terms.binders : Terms F τ ν → List ν
  | .nil => []
  | .cons t rest => t.binders ++ rest.binders

end

/-- All functions of the term are values of their arguments. -/
abbrev Term.Pure (E : Effects F V M) (t : Term F τ ν) : Prop := t.All (E.impure · = false)

abbrev Terms.Pure (E : Effects F V M) (ts : Terms F τ ν) : Prop := ts.All (E.impure · = false)

mutual

theorem Term.LetFree.binders : ∀ {t : Term F τ ν}, t.LetFree → t.binders = []
  | .var _ _, _ => rfl
  | .letIn .., h => h.elim
  | .app _ args, h => Terms.LetFree.binders (show args.LetFree from h)

theorem Terms.LetFree.binders : ∀ {ts : Terms F τ ν}, ts.LetFree → ts.binders = []
  | .nil, _ => rfl
  | .cons t rest, h => by
    rw [Terms.binders, Term.LetFree.binders h.1, Terms.LetFree.binders h.2, List.append_nil]

end

mutual

theorem Term.letFree_of_binders : ∀ {t : Term F τ ν}, t.binders = [] → t.LetFree
  | .var _ _, _ => trivial
  | .letIn .., h => nomatch h
  | .app _ args, h => Terms.letFree_of_binders (show args.binders = [] from h)

theorem Terms.letFree_of_binders : ∀ {ts : Terms F τ ν}, ts.binders = [] → ts.LetFree
  | .nil, _ => trivial
  | .cons _ _, h => ⟨Term.letFree_of_binders (List.append_eq_nil_iff.mp h).1,
      Terms.letFree_of_binders (List.append_eq_nil_iff.mp h).2⟩

end

variable [DecidableEq ν] (E : Effects F V M)

mutual

/-- The value of a term and the memory after it. -/
def Term.run : Term F τ ν → (ν → V) → M → V × M
  | .var _ x, env, m => (env x, m)
  | .letIn x value body, env, m =>
    let (a, m) := value.run env m
    body.run (Function.update env x a) m
  | .app f args, env, m =>
    let (as, m) := args.run env m
    if E.impure f then E.effect f as m else (E.value f as, m)

def Terms.run : Terms F τ ν → (ν → V) → M → List V × M
  | .nil, _, m => ([], m)
  | .cons t rest, env, m =>
    let (a, m) := t.run env m
    let (as, m) := rest.run env m
    (a :: as, m)

end

mutual

/-- Only the values of the free variables matter. -/
theorem Term.run_congr : ∀ (t : Term F τ ν) {env env' : ν → V}, (∀ x ∈ t.freeVars, env x = env' x) →
    ∀ m, t.run E env m = t.run E env' m
  | .var _ x, _, _, h, m => by rw [Term.run, Term.run, h x rfl]
  | .letIn x value body, env, env', h, m => by
    rw [Term.run, Term.run, value.run_congr (fun y hy => h y (Or.inl hy)) m]
    refine body.run_congr (fun y hy => ?_) _
    by_cases hEq : y = x
    · subst hEq
      rw [Function.update_self, Function.update_self]
    · rw [Function.update_of_ne hEq, Function.update_of_ne hEq]
      exact h y (Or.inr ⟨hy, hEq⟩)
  | .app f args, _, _, h, m => by rw [Term.run, Term.run, args.run_congr h m]

theorem Terms.run_congr : ∀ (ts : Terms F τ ν) {env env' : ν → V}, (∀ x ∈ ts.freeVars, env x = env' x) →
    ∀ m, ts.run E env m = ts.run E env' m
  | .nil, _, _, _, _ => rfl
  | .cons t rest, _, _, h, m => by
    rw [Terms.run, Terms.run, t.run_congr (fun y hy => h y (Or.inl hy)) m]
    dsimp only
    rw [rest.run_congr (fun y hy => h y (Or.inr hy))]

end

mutual

/-- A pure term has a value and leaves the memory alone. -/
theorem Term.run_pure : ∀ {t : Term F τ ν}, t.Pure E → ∀ (env : ν → V) m,
    t.run E env m = (t.eval E.value env, m)
  | .var _ _, _, _, _ => rfl
  | .letIn x value body, h, env, m => by
    rw [Term.run, Term.run_pure h.1, Term.eval]
    exact Term.run_pure (t := body) h.2 _ m
  | .app f args, h, env, m => by
    rw [Term.run, Terms.run_pure h.2, Term.eval]
    dsimp only
    rw [h.1, if_neg Bool.false_ne_true]

theorem Terms.run_pure : ∀ {ts : Terms F τ ν}, ts.Pure E → ∀ (env : ν → V) m,
    ts.run E env m = (ts.eval E.value env, m)
  | .nil, _, _, _ => rfl
  | .cons t rest, h, env, m => by
    rw [Terms.run, Term.run_pure h.1, Terms.eval]
    dsimp only
    rw [Terms.run_pure (show rest.Pure E from h.2)]

end

end Vyasa.Binding
