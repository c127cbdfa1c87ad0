import Vyasa.Binding.Term

/-! The functions that the evaluation of a term applies, and terms with other functions. -/
namespace Vyasa.Binding

universe u v w

variable {F : Type u} {τ : Type v} {ν : Type w} {V : Type*} [DecidableEq ν]

mutual

/-- The function is applied to these values. -/
def Term.Applies (interp : F → List V → V) : Term F τ ν → (ν → V) → F → List V → Prop
  | .var _ _, _, _, _ => False
  | .letIn x value body, env, f, vs =>
    value.Applies interp env f vs ∨ body.Applies interp (Function.update env x (value.eval interp env)) f vs
  | .app g args, env, f, vs => (f = g ∧ vs = args.eval interp env) ∨ args.Applies interp env f vs

def Terms.Applies (interp : F → List V → V) : Terms F τ ν → (ν → V) → F → List V → Prop
  | .nil, _, _, _ => False
  | .cons t rest, env, f, vs => t.Applies interp env f vs ∨ rest.Applies interp env f vs

end

mutual

/-- Only what is applied matters. -/
theorem Term.eval_congr_interp {interp interp' : F → List V → V} : ∀ (t : Term F τ ν) {env : ν → V},
    (∀ f vs, t.Applies interp env f vs → interp' f vs = interp f vs) → t.eval interp' env = t.eval interp env
  | .var _ _, _, _ => rfl
  | .letIn x value body, env, h => by
    rw [Term.eval, Term.eval, value.eval_congr_interp fun f vs hf => h f vs (Or.inl hf)]
    exact body.eval_congr_interp fun f vs hf => h f vs (Or.inr hf)
  | .app f args, env, h => by
    rw [Term.eval, Term.eval, args.eval_congr_interp fun g vs hg => h g vs (Or.inr hg)]
    exact h f _ (Or.inl ⟨rfl, rfl⟩)

theorem Terms.eval_congr_interp {interp interp' : F → List V → V} : ∀ (ts : Terms F τ ν) {env : ν → V},
    (∀ f vs, ts.Applies interp env f vs → interp' f vs = interp f vs) →
      ts.eval interp' env = ts.eval interp env
  | .nil, _, _ => rfl
  | .cons t rest, _, h => by
    rw [Terms.eval, Terms.eval, t.eval_congr_interp fun f vs hf => h f vs (Or.inl hf),
      rest.eval_congr_interp fun f vs hf => h f vs (Or.inr hf)]

end

mutual

/-- Only the values of the free variables matter. -/
theorem Term.eval_congr (interp : F → List V → V) : ∀ (t : Term F τ ν) {env env' : ν → V},
    (∀ x ∈ t.freeVars, env x = env' x) → t.eval interp env = t.eval interp env'
  | .var _ x, _, _, h => h x rfl
  | .letIn x value body, env, env', h => by
    rw [Term.eval, Term.eval, value.eval_congr interp fun y hy => h y (Or.inl hy)]
    refine body.eval_congr interp fun y hy => ?_
    by_cases hEq : y = x
    · rw [hEq, Function.update_self, Function.update_self]
    · rw [Function.update_of_ne hEq, Function.update_of_ne hEq]
      exact h y (Or.inr ⟨hy, hEq⟩)
  | .app f args, _, _, h => congrArg (interp f) (args.eval_congr interp h)

theorem Terms.eval_congr (interp : F → List V → V) : ∀ (ts : Terms F τ ν) {env env' : ν → V},
    (∀ x ∈ ts.freeVars, env x = env' x) → ts.eval interp env = ts.eval interp env'
  | .nil, _, _, _ => rfl
  | .cons t rest, _, _, h => by
    rw [Terms.eval, Terms.eval, t.eval_congr interp fun y hy => h y (Or.inl hy),
      rest.eval_congr interp fun y hy => h y (Or.inr hy)]

end

mutual

theorem Term.All.of_applies {p : F → Prop} {interp : F → List V → V} {f : F} {vs : List V} :
    ∀ {t : Term F τ ν} {env : ν → V}, t.All p → t.Applies interp env f vs → p f
  | .var _ _, _, _, h => h.elim
  | .letIn .., _, hAll, h =>
    h.elim (Term.All.of_applies hAll.1) (Term.All.of_applies hAll.2)
  | .app .., _, hAll, h => by
    rcases h with ⟨rfl, -⟩ | h
    · exact hAll.1
    · exact Terms.All.of_applies hAll.2 h

theorem Terms.All.of_applies {p : F → Prop} {interp : F → List V → V} {f : F} {vs : List V} :
    ∀ {ts : Terms F τ ν} {env : ν → V}, ts.All p → ts.Applies interp env f vs → p f
  | .nil, _, _, h => h.elim
  | .cons .., _, hAll, h => h.elim (Term.All.of_applies hAll.1) (Terms.All.of_applies hAll.2)

end

section Map

variable {F G τ ν : Type} [DecidableEq ν] {g : F → Option G}

mutual

/-- Replace every function, unless there is none for one of them. -/
def Term.mapM (g : F → Option G) : Term F τ ν → Option (Term G τ ν)
  | .var type x => some (.var type x)
  | .letIn x value body => do
    let value ← value.mapM g
    let body ← body.mapM g
    return .letIn x value body
  | .app f args => do
    let args ← args.mapM g
    let f ← g f
    return .app f args

def Terms.mapM (g : F → Option G) : Terms F τ ν → Option (Terms G τ ν)
  | .nil => some .nil
  | .cons t rest => do
    let t ← t.mapM g
    let rest ← rest.mapM g
    return .cons t rest

end

mutual

/-- The new functions compute the same. -/
theorem Term.eval_mapM {interp : F → List V → V} {interp' : G → List V → V}
    (hInterp : ∀ f f', g f = some f' → interp' f' = interp f) : ∀ {t : Term F τ ν} {t' : Term G τ ν},
      t.mapM g = some t' → ∀ env, t'.eval interp' env = t.eval interp env
  | .var _ _, _, h, _ => by
    rw [Term.mapM] at h
    cases h
    rfl
  | .letIn x value body, _, h, env => by
    rw [Term.mapM] at h
    obtain ⟨value', hValue, h⟩ := Option.bind_eq_some_iff.mp h
    obtain ⟨body', hBody, h⟩ := Option.bind_eq_some_iff.mp h
    cases h
    rw [Term.eval, Term.eval, Term.eval_mapM hInterp hValue, Term.eval_mapM hInterp hBody]
  | .app f args, _, h, env => by
    rw [Term.mapM] at h
    obtain ⟨args', hArgs, h⟩ := Option.bind_eq_some_iff.mp h
    obtain ⟨f', hf, h⟩ := Option.bind_eq_some_iff.mp h
    cases h
    rw [Term.eval, Term.eval, hInterp f f' hf, Terms.eval_mapM hInterp hArgs]

theorem Terms.eval_mapM {interp : F → List V → V} {interp' : G → List V → V}
    (hInterp : ∀ f f', g f = some f' → interp' f' = interp f) : ∀ {ts : Terms F τ ν} {ts' : Terms G τ ν},
      ts.mapM g = some ts' → ∀ env, ts'.eval interp' env = ts.eval interp env
  | .nil, _, h, _ => by
    rw [Terms.mapM] at h
    cases h
    rfl
  | .cons t rest, _, h, env => by
    rw [Terms.mapM] at h
    obtain ⟨t', hHead, h⟩ := Option.bind_eq_some_iff.mp h
    obtain ⟨rest', hRest, h⟩ := Option.bind_eq_some_iff.mp h
    cases h
    rw [Terms.eval, Terms.eval, Term.eval_mapM hInterp hHead, Terms.eval_mapM hInterp hRest]

end

omit [DecidableEq ν]

mutual

theorem Term.freeVars_mapM : ∀ {t : Term F τ ν} {t' : Term G τ ν}, t.mapM g = some t' → t'.freeVars = t.freeVars
  | .var _ _, _, h => by
    rw [Term.mapM] at h
    cases h
    rfl
  | .letIn x value body, _, h => by
    rw [Term.mapM] at h
    obtain ⟨value', hValue, h⟩ := Option.bind_eq_some_iff.mp h
    obtain ⟨body', hBody, h⟩ := Option.bind_eq_some_iff.mp h
    cases h
    rw [Term.freeVars, Term.freeVars, Term.freeVars_mapM hValue, Term.freeVars_mapM hBody]
  | .app f args, _, h => by
    rw [Term.mapM] at h
    obtain ⟨args', hArgs, h⟩ := Option.bind_eq_some_iff.mp h
    obtain ⟨f', hf, h⟩ := Option.bind_eq_some_iff.mp h
    cases h
    exact Terms.freeVars_mapM hArgs

theorem Terms.freeVars_mapM : ∀ {ts : Terms F τ ν} {ts' : Terms G τ ν}, ts.mapM g = some ts' →
    ts'.freeVars = ts.freeVars
  | .nil, _, h => by
    rw [Terms.mapM] at h
    cases h
    rfl
  | .cons t rest, _, h => by
    rw [Terms.mapM] at h
    obtain ⟨t', hHead, h⟩ := Option.bind_eq_some_iff.mp h
    obtain ⟨rest', hRest, h⟩ := Option.bind_eq_some_iff.mp h
    cases h
    rw [Terms.freeVars, Terms.freeVars, Term.freeVars_mapM hHead, Terms.freeVars_mapM hRest]

end

mutual

theorem Term.all_of_mapM : ∀ {t : Term F τ ν} {t' : Term G τ ν}, t.mapM g = some t' → t.All fun f => (g f).isSome
  | .var _ _, _, _ => trivial
  | .letIn x value body, _, h => by
    rw [Term.mapM] at h
    obtain ⟨value', hValue, h⟩ := Option.bind_eq_some_iff.mp h
    obtain ⟨body', hBody, -⟩ := Option.bind_eq_some_iff.mp h
    exact ⟨Term.all_of_mapM hValue, Term.all_of_mapM hBody⟩
  | .app f args, _, h => by
    rw [Term.mapM] at h
    obtain ⟨args', hArgs, h⟩ := Option.bind_eq_some_iff.mp h
    obtain ⟨f', hf, -⟩ := Option.bind_eq_some_iff.mp h
    exact ⟨Option.isSome_iff_exists.mpr ⟨f', hf⟩, Terms.all_of_mapM hArgs⟩

theorem Terms.all_of_mapM : ∀ {ts : Terms F τ ν} {ts' : Terms G τ ν}, ts.mapM g = some ts' →
    ts.All fun f => (g f).isSome
  | .nil, _, _ => trivial
  | .cons t rest, _, h => by
    rw [Terms.mapM] at h
    obtain ⟨t', hHead, h⟩ := Option.bind_eq_some_iff.mp h
    obtain ⟨rest', hRest, -⟩ := Option.bind_eq_some_iff.mp h
    exact ⟨Term.all_of_mapM hHead, Terms.all_of_mapM hRest⟩

end

end Map

end Vyasa.Binding
