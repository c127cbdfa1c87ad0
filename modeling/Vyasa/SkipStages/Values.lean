import Vyasa.SkipStages.Finder

/-! What values depend on, and what the predicates built by the finder mean. -/
namespace Vyasa.SkipStages

variable {F : Type} {sem : F → List Int → Int} {junk : Memory}

/-! ### Environments and memories that agree -/

/-- The environments agree except on the given variables. -/
def EnvEq (names : List String) (ρ ρ' : Env) : Prop := ∀ x, x ∉ names → ρ x = ρ' x

/-- The memories agree except on the given functions. -/
def MemEq (names : List String) (σ σ' : Memory) : Prop := ∀ g, g ∉ names → σ g = σ' g

section

variable {Y Y' M M' : List String} {ρ ρ' ρ'' : Env} {σ σ' σ'' : Memory} {x : String}

theorem EnvEq.refl : EnvEq Y ρ ρ := fun _ _ => rfl

theorem EnvEq.symm (h : EnvEq Y ρ ρ') : EnvEq Y ρ' ρ := fun x hx => (h x hx).symm

theorem EnvEq.trans (h : EnvEq Y ρ ρ') (h' : EnvEq Y ρ' ρ'') : EnvEq Y ρ ρ'' :=
  fun x hx => (h x hx).trans (h' x hx)

theorem EnvEq.mono (h : EnvEq Y ρ ρ') (hY : Y ⊆ Y') : EnvEq Y' ρ ρ' :=
  fun x hx => h x fun hm => hx (hY hm)

theorem EnvEq.update (hx : x ∈ Y) (v : Int) : EnvEq Y ρ (Function.update ρ x v) := by
  intro y hy
  have hne : y ≠ x := fun he => hy (he ▸ hx)
  rw [Function.update_of_ne hne]

/-- A variable that is set to the same value on both sides agrees from then on. -/
theorem EnvEq.set (h : EnvEq Y ρ ρ') (v : Int) :
    EnvEq (Y.filter (· ≠ x)) (Function.update ρ x v) (Function.update ρ' x v) := by
  intro y hy
  by_cases hyx : y = x
  · rw [hyx, Function.update_self, Function.update_self]
  · rw [Function.update_of_ne hyx, Function.update_of_ne hyx]
    exact h y fun hm => hy (List.mem_filter.mpr ⟨hm, by simpa using hyx⟩)

theorem MemEq.refl : MemEq M σ σ := fun _ _ => rfl

theorem MemEq.symm (h : MemEq M σ σ') : MemEq M σ' σ := fun g hg => (h g hg).symm

theorem MemEq.trans (h : MemEq M σ σ') (h' : MemEq M σ' σ'') : MemEq M σ σ'' :=
  fun g hg => (h g hg).trans (h' g hg)

theorem MemEq.mono (h : MemEq M σ σ') (hM : M ⊆ M') : MemEq M' σ σ' :=
  fun g hg => h g fun hm => hg (hM hm)

theorem MemEq.update_both {v v' : Nat → List Int → Int} (h : MemEq M σ σ')
    (hv : x ∉ M → v = v') : MemEq M (Function.update σ x v) (Function.update σ' x v') := by
  intro g hg
  by_cases hgx : g = x
  · rw [hgx, Function.update_self, Function.update_self, hv (hgx ▸ hg)]
  · rw [Function.update_of_ne hgx, Function.update_of_ne hgx, h g hg]

theorem MemEq.update (hx : x ∈ M) (v : Nat → List Int → Int) :
    MemEq M σ (Function.update σ x v) := by
  intro g hg
  have hne : g ≠ x := fun he => hg (he ▸ hx)
  rw [Function.update_of_ne hne]

end

/-! ### What values depend on -/

mutual

theorem eval_congr {ρ ρ' : Env} {σ σ' : Memory} : ∀ e : Expr F,
    (∀ x ∈ freeVars e, ρ x = ρ' x) → (∀ g ∈ calls e, σ g = σ' g) →
    eval sem ρ σ e = eval sem ρ' σ' e
  | .imm _, _, _ => rfl
  | .var x, hρ, _ => hρ x List.mem_cons_self
  | .op f args, hρ, hσ => by rw [eval, eval, evalArgs_congr args hρ hσ]
  | .not a, hρ, hσ => by rw [eval, eval, eval_congr a hρ hσ]
  | .and a b, hρ, hσ => by
    rw [freeVars, List.forall_mem_append] at hρ
    rw [calls, List.forall_mem_append] at hσ
    rw [eval, eval, eval_congr a hρ.1 hσ.1, eval_congr b hρ.2 hσ.2]
  | .or a b, hρ, hσ => by
    rw [freeVars, List.forall_mem_append] at hρ
    rw [calls, List.forall_mem_append] at hσ
    rw [eval, eval, eval_congr a hρ.1 hσ.1, eval_congr b hρ.2 hσ.2]
  | .select c t f, hρ, hσ => by
    rw [freeVars, List.forall_mem_append, List.forall_mem_append] at hρ
    rw [calls, List.forall_mem_append, List.forall_mem_append] at hσ
    rw [eval, eval, eval_congr c hρ.1.1 hσ.1.1, eval_congr t hρ.1.2 hσ.1.2,
      eval_congr f hρ.2 hσ.2]
  | .letIn x v b, hρ, hσ => by
    rw [freeVars, List.forall_mem_append] at hρ
    rw [calls, List.forall_mem_append] at hσ
    rw [eval, eval, eval_congr v hρ.1 hσ.1]
    refine eval_congr b (fun y hy => ?_) hσ.2
    by_cases hyx : y = x
    · rw [hyx, Function.update_self, Function.update_self]
    · rw [Function.update_of_ne hyx, Function.update_of_ne hyx]
      exact hρ.2 y (List.mem_filter.mpr ⟨hy, by simpa using hyx⟩)
  | .call g args i, hρ, hσ => by
    rw [calls, List.forall_mem_cons] at hσ
    rw [eval, eval, evalArgs_congr args hρ hσ.2, hσ.1]

theorem evalArgs_congr {ρ ρ' : Env} {σ σ' : Memory} : ∀ es : Exprs F,
    (∀ x ∈ freeVarsArgs es, ρ x = ρ' x) → (∀ g ∈ callsArgs es, σ g = σ' g) →
    evalArgs sem ρ σ es = evalArgs sem ρ' σ' es
  | .nil, _, _ => rfl
  | .cons e rest, hρ, hσ => by
    rw [freeVarsArgs, List.forall_mem_append] at hρ
    rw [callsArgs, List.forall_mem_append] at hσ
    rw [evalArgs, evalArgs, eval_congr e hρ.1 hσ.1, evalArgs_congr rest hρ.2 hσ.2]

end

mutual

theorem uses_of_mem_freeVars {x : String} : ∀ e : Expr F, x ∈ freeVars e →
    expr_uses_var x e = true
  | .imm _, h => absurd h List.not_mem_nil
  | .var y, h => by simpa [expr_uses_var, freeVars, eq_comm] using h
  | .op f args, h => by
    rw [expr_uses_var]
    exact usesArgs_of_mem_freeVars args h
  | .not a, h => by
    rw [expr_uses_var]
    exact uses_of_mem_freeVars a h
  | .and a b, h => by
    rw [expr_uses_var, Bool.or_eq_true]
    exact (List.mem_append.mp h).imp (uses_of_mem_freeVars a) (uses_of_mem_freeVars b)
  | .or a b, h => by
    rw [expr_uses_var, Bool.or_eq_true]
    exact (List.mem_append.mp h).imp (uses_of_mem_freeVars a) (uses_of_mem_freeVars b)
  | .select c t f, h => by
    rw [expr_uses_var, Bool.or_eq_true, Bool.or_eq_true]
    refine (List.mem_append.mp h).imp (fun h => ?_) (uses_of_mem_freeVars f)
    exact (List.mem_append.mp h).imp (uses_of_mem_freeVars c) (uses_of_mem_freeVars t)
  | .letIn y v b, h => by
    rw [expr_uses_var, Bool.or_eq_true, Bool.or_eq_true]
    rcases List.mem_append.mp h with h | h
    · exact .inl (.inr (uses_of_mem_freeVars v h))
    · exact .inr (uses_of_mem_freeVars b (List.mem_filter.mp h).1)
  | .call g args i, h => by
    rw [expr_uses_var, Bool.or_eq_true]
    exact .inr (usesArgs_of_mem_freeVars args h)

theorem usesArgs_of_mem_freeVars {x : String} : ∀ es : Exprs F, x ∈ freeVarsArgs es →
    expr_uses_varArgs x es = true
  | .nil, h => absurd h List.not_mem_nil
  | .cons e rest, h => by
    rw [expr_uses_varArgs, Bool.or_eq_true]
    exact (List.mem_append.mp h).imp (uses_of_mem_freeVars e) (usesArgs_of_mem_freeVars rest)

end

/-! ### What the predicates mean -/

/-- The predicate is true. -/
def Holds (sem : F → List Int → Int) (ρ : Env) (σ : Memory) (p : Expr F) : Prop :=
  eval sem ρ σ p ≠ 0

section

variable {Y Y' M : List String} {ρ ρ' : Env} {σ σ' : Memory} {a p v : Expr F} {x : String}

theorem holds_const_true : Holds sem ρ σ (const_true : Expr F) := by
  simp [Holds, const_true, eval]

theorem not_holds_const_false : ¬ Holds sem ρ σ (const_false : Expr F) := by
  simp [Holds, const_false, eval]

theorem holds_of_is_one (h : is_one a = true) : Holds sem ρ σ a := by
  cases a <;> simp_all [is_one, Holds, eval]

theorem not_holds_of_is_zero (h : is_zero a = true) : ¬ Holds sem ρ σ a := by
  cases a <;> simp_all [is_zero, Holds, eval]

theorem holds_make_not : Holds sem ρ σ (make_not a) ↔ ¬ Holds sem ρ σ a := by
  rw [make_not]
  split
  · rename_i h
    exact iff_of_false not_holds_const_false (not_not.mpr (holds_of_is_one h))
  · split
    · rename_i h
      exact iff_of_true holds_const_true (not_holds_of_is_zero h)
    · rw [Holds, eval, truth_ne_zero, Holds, not_not]

/-- A let around a predicate means the predicate under the let, whether it is needed or not. -/
theorem holds_wrapLet : Holds sem ρ σ (wrapLet x v p) ↔
    Holds sem (Function.update ρ x (eval sem ρ σ v)) σ p := by
  rw [wrapLet]
  split
  · rw [Holds, eval]
    rfl
  · rename_i hUnused
    rw [Holds, Holds, eval_congr p (fun y hy => ?_) fun _ _ => rfl]
    rw [Function.update_of_ne]
    rintro rfl
    exact hUnused (uses_of_mem_freeVars p hy)

/-- The predicate does not depend on the given variables and functions. -/
def Fixed (sem : F → List Int → Int) (Y M : List String) (p : Expr F) : Prop :=
  ∀ ρ ρ' σ σ', EnvEq Y ρ ρ' → MemEq M σ σ' → (Holds sem ρ σ p ↔ Holds sem ρ' σ' p)

theorem Fixed.mono (h : Fixed sem Y M p) (hY : Y' ⊆ Y) : Fixed sem Y' M p :=
  fun ρ ρ' σ σ' hρ hσ => h ρ ρ' σ σ' (hρ.mono hY) hσ

theorem fixed_const_true : Fixed sem Y M (const_true : Expr F) := fun _ _ _ _ _ _ =>
  iff_of_true holds_const_true holds_const_true

theorem fixed_const_false : Fixed sem Y M (const_false : Expr F) := fun _ _ _ _ _ _ =>
  iff_of_false not_holds_const_false not_holds_const_false

/-- An expression that mentions none of the variables and functions has one value. -/
theorem eval_fixed (hVars : ∀ y ∈ Y, y ∉ freeVars v) (hCalls : ∀ g ∈ calls v, g ∉ M)
    {ρ ρ' : Env} {σ σ' : Memory} (hρ : EnvEq Y ρ ρ') (hσ : MemEq M σ σ') :
    eval sem ρ σ v = eval sem ρ' σ' v :=
  eval_congr v (fun x hx => hρ x fun hm => hVars x hm hx) fun g hg => hσ g (hCalls g hg)

theorem fixed_of_names (hVars : ∀ y ∈ Y, y ∉ freeVars v) (hCalls : ∀ g ∈ calls v, g ∉ M) :
    Fixed sem Y M v := by
  intro ρ ρ' σ σ' hρ hσ
  rw [Holds, Holds, eval_fixed hVars hCalls hρ hσ]

/-- A let whose value is fixed. -/
theorem Fixed.let_fixed (hp : Fixed sem (Y.filter (· ≠ x)) M p) (hVars : ∀ y ∈ Y, y ∉ freeVars v)
    (hCalls : ∀ g ∈ calls v, g ∉ M) : Fixed sem Y M (wrapLet x v p) := by
  intro ρ ρ' σ σ' hρ hσ
  rw [holds_wrapLet, holds_wrapLet, eval_fixed hVars hCalls hρ hσ]
  exact hp _ _ _ _ (hρ.set _) hσ

/-- A let whose name does not matter. -/
theorem Fixed.let_unused (hp : Fixed sem (x :: Y) M p) : Fixed sem Y M (wrapLet x v p) := by
  intro ρ ρ' σ σ' hρ hσ
  rw [holds_wrapLet, holds_wrapLet]
  refine hp _ _ _ _ (fun y hy => ?_) hσ
  rw [List.mem_cons, not_or] at hy
  rw [Function.update_of_ne hy.1, Function.update_of_ne hy.1]
  exact hρ y hy.2

end

variable [DecidableEq F]

section

variable {ρ ρ' : Env} {σ σ' : Memory} {a b c p v : Expr F} {x : String}

theorem holds_make_or : Holds sem ρ σ (make_or a b) ↔ Holds sem ρ σ a ∨ Holds sem ρ σ b := by
  rw [make_or]
  split
  · rename_i h
    rcases Bool.or_eq_true _ _ ▸ h with h | h
    · exact ⟨.inr, fun hab => hab.resolve_left (not_holds_of_is_zero h)⟩
    · exact ⟨.inr, fun _ => holds_of_is_one h⟩
  · split
    · rename_i h
      rcases Bool.or_eq_true _ _ ▸ h with h | h
      · exact ⟨.inl, fun hab => hab.resolve_right (not_holds_of_is_zero h)⟩
      · exact ⟨.inl, fun _ => holds_of_is_one h⟩
    · split
      · rename_i h
        rw [h, or_self]
      · rw [Holds, eval, truth_ne_zero]
        rfl

theorem holds_make_and : Holds sem ρ σ (make_and a b) ↔ Holds sem ρ σ a ∧ Holds sem ρ σ b := by
  rw [make_and]
  split
  · rename_i h
    rcases Bool.or_eq_true _ _ ▸ h with h | h
    · exact ⟨fun ha => absurd ha (not_holds_of_is_zero h), And.left⟩
    · exact ⟨fun ha => ⟨ha, holds_of_is_one h⟩, And.left⟩
  · split
    · rename_i h
      rcases Bool.or_eq_true _ _ ▸ h with h | h
      · exact ⟨fun hb => absurd hb (not_holds_of_is_zero h), And.right⟩
      · exact ⟨fun hb => ⟨holds_of_is_one h, hb⟩, And.right⟩
    · split
      · rename_i h
        rw [h, and_self]
      · rw [Holds, eval, truth_ne_zero]
        rfl

theorem holds_make_select : Holds sem ρ σ (make_select a b c) ↔
    (Holds sem ρ σ a ∧ Holds sem ρ σ b) ∨ (¬ Holds sem ρ σ a ∧ Holds sem ρ σ c) := by
  rw [make_select]
  by_cases hCond : Holds sem ρ σ a
  · simp only [hCond, true_and, not_true_eq_false, false_and, or_false]
    split
    · rfl
    · split
      · rename_i h
        exact absurd hCond (not_holds_of_is_zero h)
      · split
        · rename_i h
          have hTrue : Holds sem ρ σ b := holds_of_is_one h
          simp [holds_make_or, hCond, hTrue]
        · split
          · rename_i h
            have hFalse : ¬ Holds sem ρ σ b := not_holds_of_is_zero h
            simp [holds_make_and, holds_make_not, hCond, hFalse]
          · split
            · simp [holds_make_or, holds_make_not, hCond]
            · split
              · simp [holds_make_and, hCond]
              · rw [Holds, eval, if_pos (show eval sem ρ σ a ≠ 0 from hCond)]
                rfl
  · simp only [hCond, false_and, not_false_eq_true, true_and, false_or]
    split
    · rename_i h
      exact absurd (holds_of_is_one h) hCond
    · split
      · rfl
      · split
        · simp [holds_make_or, hCond]
        · split
          · simp [holds_make_and, holds_make_not, hCond]
          · split
            · rename_i h
              have hTrue : Holds sem ρ σ c := holds_of_is_one h
              simp [holds_make_or, holds_make_not, hCond, hTrue]
            · split
              · rename_i h
                have hFalse : ¬ Holds sem ρ σ c := not_holds_of_is_zero h
                simp [holds_make_and, hCond, hFalse]
              · rw [Holds, eval, if_neg (show ¬ eval sem ρ σ a ≠ 0 from hCond)]
                rfl

end

section

variable {Y M : List String} {a b p v : Expr F} {x : String}

theorem Fixed.or (ha : Fixed sem Y M a) (hb : Fixed sem Y M b) :
    Fixed sem Y M (make_or a b) := by
  intro ρ ρ' σ σ' hρ hσ
  rw [holds_make_or, holds_make_or, ha ρ ρ' σ σ' hρ hσ, hb ρ ρ' σ σ' hρ hσ]

theorem Fixed.select {c : Expr F} (hc : Fixed sem Y M c) (ha : Fixed sem Y M a)
    (hb : Fixed sem Y M b) : Fixed sem Y M (make_select c a b) := by
  intro ρ ρ' σ σ' hρ hσ
  rw [holds_make_select, holds_make_select, hc ρ ρ' σ σ' hρ hσ, ha ρ ρ' σ σ' hρ hσ,
    hb ρ ρ' σ σ' hρ hσ]

end

end Vyasa.SkipStages
