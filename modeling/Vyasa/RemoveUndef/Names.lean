import Vyasa.RemoveUndef.Mutator

/-! The names free and bound in an expression, and substitution that captures none. -/
namespace Vyasa.RemoveUndef

variable {F : Type}

/-! ### Names in an expression -/

mutual

def FreeIn (x : String) : Expr F → Prop
  | .imm _ | .undef => False
  | .var y => y = x
  | .op _ args => FreeInArgs x args
  | .not a => FreeIn x a
  | .and a b => FreeIn x a ∨ FreeIn x b
  | .select c t f => FreeIn x c ∨ FreeIn x t ∨ FreeIn x f
  | .letIn y v b => FreeIn x v ∨ (x ≠ y ∧ FreeIn x b)

def FreeInArgs (x : String) : Exprs F → Prop
  | .nil => False
  | .cons e rest => FreeIn x e ∨ FreeInArgs x rest

end

mutual

def BoundIn (x : String) : Expr F → Prop
  | .imm _ | .var _ | .undef => False
  | .op _ args => BoundInArgs x args
  | .not a => BoundIn x a
  | .and a b => BoundIn x a ∨ BoundIn x b
  | .select c t f => BoundIn x c ∨ BoundIn x t ∨ BoundIn x f
  | .letIn y v b => x = y ∨ BoundIn x v ∨ BoundIn x b

def BoundInArgs (x : String) : Exprs F → Prop
  | .nil => False
  | .cons e rest => BoundIn x e ∨ BoundInArgs x rest

end

mutual

/-- The names in scope are among `scope`, and no let binds one of them again. -/
def NoRebind (scope : List String) : Expr F → Prop
  | .imm _ | .undef => True
  | .var x => x ∈ scope
  | .op _ args => NoRebindArgs scope args
  | .not a => NoRebind scope a
  | .and a b => NoRebind scope a ∧ NoRebind scope b
  | .select c t f => NoRebind scope c ∧ NoRebind scope t ∧ NoRebind scope f
  | .letIn x v b => x ∉ scope ∧ NoRebind scope v ∧ NoRebind (x :: scope) b

def NoRebindArgs (scope : List String) : Exprs F → Prop
  | .nil => True
  | .cons e rest => NoRebind scope e ∧ NoRebindArgs scope rest

end

mutual

theorem NoRebind.free {scope : List String} {x : String} :
    (e : Expr F) → NoRebind scope e → FreeIn x e → x ∈ scope
  | .imm _, _, hFree | .undef, _, hFree => nomatch hFree
  | .var y, h, hFree => by
      obtain rfl : y = x := hFree
      exact h
  | .op _ args, h, hFree => NoRebindArgs.free args h hFree
  | .not a, h, hFree => NoRebind.free a h hFree
  | .and a b, h, hFree => hFree.elim (NoRebind.free a h.1) (NoRebind.free b h.2)
  | .select c t f, h, hFree => by
      rcases hFree with hFree | hFree | hFree
      · exact NoRebind.free c h.1 hFree
      · exact NoRebind.free t h.2.1 hFree
      · exact NoRebind.free f h.2.2 hFree
  | .letIn y v b, h, hFree => by
      rcases hFree with hFree | ⟨hNe, hFree⟩
      · exact NoRebind.free v h.2.1 hFree
      · exact (List.mem_cons.mp (NoRebind.free b h.2.2 hFree)).resolve_left hNe

theorem NoRebindArgs.free {scope : List String} {x : String} :
    (args : Exprs F) → NoRebindArgs scope args → FreeInArgs x args → x ∈ scope
  | .nil, _, hFree => nomatch hFree
  | .cons e rest, h, hFree => hFree.elim (NoRebind.free e h.1) (NoRebindArgs.free rest h.2)

end

mutual

theorem NoRebind.bound {scope : List String} {x : String} :
    (e : Expr F) → NoRebind scope e → BoundIn x e → x ∉ scope
  | .imm _, _, hBound | .undef, _, hBound | .var _, _, hBound => nomatch hBound
  | .op _ args, h, hBound => NoRebindArgs.bound args h hBound
  | .not a, h, hBound => NoRebind.bound a h hBound
  | .and a b, h, hBound => hBound.elim (NoRebind.bound a h.1) (NoRebind.bound b h.2)
  | .select c t f, h, hBound => by
      rcases hBound with hBound | hBound | hBound
      · exact NoRebind.bound c h.1 hBound
      · exact NoRebind.bound t h.2.1 hBound
      · exact NoRebind.bound f h.2.2 hBound
  | .letIn y v b, h, hBound => by
      rcases hBound with rfl | hBound | hBound
      · exact h.1
      · exact NoRebind.bound v h.2.1 hBound
      · exact fun hx => NoRebind.bound b h.2.2 hBound (List.mem_cons_of_mem _ hx)

theorem NoRebindArgs.bound {scope : List String} {x : String} :
    (args : Exprs F) → NoRebindArgs scope args → BoundInArgs x args → x ∉ scope
  | .nil, _, hBound => nomatch hBound
  | .cons e rest, h, hBound => hBound.elim (NoRebind.bound e h.1) (NoRebindArgs.bound rest h.2)

end

/-! ### Substitution -/

section

variable {sem : F → Memory → List Int → Int} {mem : Memory}

mutual

theorem eval_congr {ρ ρ' : Env} :
    (e : Expr F) → (∀ x, FreeIn x e → ρ x = ρ' x) → eval sem mem ρ e = eval sem mem ρ' e
  | .imm _, _ | .undef, _ => rfl
  | .var x, h => h x rfl
  | .op _ args, h => by simp only [eval, evalArgs_congr args h]
  | .not a, h => by simp only [eval, eval_congr a h]
  | .and a b, h => by
      simp only [eval, eval_congr a fun x hx => h x (.inl hx), eval_congr b fun x hx => h x (.inr hx)]
  | .select c t f, h => by
      simp only [eval, eval_congr c fun x hx => h x (.inl hx),
        eval_congr t fun x hx => h x (.inr (.inl hx)), eval_congr f fun x hx => h x (.inr (.inr hx))]
  | .letIn y v b, h => by
      simp only [eval, eval_congr v fun x hx => h x (.inl hx)]
      apply eval_congr b
      intro x hx
      by_cases hEq : x = y
      · subst hEq
        simp
      · rw [Function.update_of_ne hEq, Function.update_of_ne hEq]
        exact h x (.inr ⟨hEq, hx⟩)

theorem evalArgs_congr {ρ ρ' : Env} : (args : Exprs F) → (∀ x, FreeInArgs x args → ρ x = ρ' x) →
    evalArgs sem mem ρ args = evalArgs sem mem ρ' args
  | .nil, _ => rfl
  | .cons e rest, h => by
      simp only [evalArgs, eval_congr e fun x hx => h x (.inl hx),
        evalArgs_congr rest fun x hx => h x (.inr hx)]

end

mutual

/-- A substitution that captures nothing binds the name to the value of the replacement. -/
theorem eval_substitute {ρ : Env} {x : String} {r : Expr F} :
    (e : Expr F) → (∀ y, BoundIn y e → ¬ FreeIn y r) →
    eval sem mem ρ (substitute x r e) =
      eval sem mem (Function.update ρ x (eval sem mem ρ r)) e
  | .imm _, _ | .undef, _ => rfl
  | .var y, _ => by
      simp only [substitute]
      split
      · rename_i hEq
        subst hEq
        simp [eval]
      · rename_i hNe
        simp [eval, hNe]
  | .op _ args, h => by simp only [substitute, eval, evalArgs_substitute args h]
  | .not a, h => by simp only [substitute, eval, eval_substitute a h]
  | .and a b, h => by
      simp only [substitute, eval, eval_substitute a fun y hy => h y (.inl hy),
        eval_substitute b fun y hy => h y (.inr hy)]
  | .select c t f, h => by
      simp only [substitute, eval, eval_substitute c fun y hy => h y (.inl hy),
        eval_substitute t fun y hy => h y (.inr (.inl hy)),
        eval_substitute f fun y hy => h y (.inr (.inr hy))]
  | .letIn y v b, h => by
      have hy : ¬ FreeIn y r := h y (.inl rfl)
      simp only [substitute, eval, eval_substitute v fun z hz => h z (.inr (.inl hz))]
      split
      · rename_i hEq
        subst hEq
        rw [Function.update_idem]
      · rename_i hNe
        rw [eval_substitute b fun z hz => h z (.inr (.inr hz))]
        -- the let does not change what the replacement is
        have hSame : ∀ o, eval sem mem (Function.update ρ y o) r = eval sem mem ρ r := by
          intro o
          apply eval_congr r
          intro z hz
          have hNe : z ≠ y := by
            rintro rfl
            exact hy hz
          exact Function.update_of_ne hNe _ ρ
        rw [hSame, Function.update_comm hNe]

theorem evalArgs_substitute {ρ : Env} {x : String} {r : Expr F} :
    (args : Exprs F) → (∀ y, BoundInArgs y args → ¬ FreeIn y r) →
    evalArgs sem mem ρ (substituteArgs x r args) =
      evalArgs sem mem (Function.update ρ x (eval sem mem ρ r)) args
  | .nil, _ => rfl
  | .cons e rest, h => by
      simp only [substituteArgs, evalArgs, eval_substitute e fun y hy => h y (.inl hy),
        evalArgs_substitute rest fun y hy => h y (.inr hy)]

end

end

mutual

theorem substitute_of_not_free {x : String} {r : Expr F} :
    (e : Expr F) → ¬ FreeIn x e → substitute x r e = e
  | .imm _, _ | .undef, _ => rfl
  | .var y, h => if_neg h
  | .op _ args, h => by simp only [substitute, substituteArgs_of_not_free args h]
  | .not a, h => by simp only [substitute, substitute_of_not_free a h]
  | .and a b, h => by
      simp only [substitute, substitute_of_not_free a fun hx => h (.inl hx),
        substitute_of_not_free b fun hx => h (.inr hx)]
  | .select c t f, h => by
      simp only [substitute, substitute_of_not_free c fun hx => h (.inl hx),
        substitute_of_not_free t fun hx => h (.inr (.inl hx)),
        substitute_of_not_free f fun hx => h (.inr (.inr hx))]
  | .letIn y v b, h => by
      simp only [substitute, substitute_of_not_free v fun hx => h (.inl hx)]
      split
      · rfl
      · rename_i hNe
        rw [substitute_of_not_free b fun hx => h (.inr ⟨Ne.symm hNe, hx⟩)]

theorem substituteArgs_of_not_free {x : String} {r : Expr F} :
    (args : Exprs F) → ¬ FreeInArgs x args → substituteArgs x r args = args
  | .nil, _ => rfl
  | .cons e rest, h => by
      simp only [substituteArgs, substitute_of_not_free e fun hx => h (.inl hx),
        substituteArgs_of_not_free rest fun hx => h (.inr hx)]

end

mutual

theorem free_of_substitute {x y : String} {r : Expr F} :
    (e : Expr F) → FreeIn y (substitute x r e) → (FreeIn y e ∧ y ≠ x) ∨ FreeIn y r
  | .imm _, h | .undef, h => nomatch h
  | .var z, h => by
      simp only [substitute] at h
      split at h
      · exact .inr h
      · rename_i hNe
        obtain rfl : z = y := h
        exact .inl ⟨rfl, hNe⟩
  | .op _ args, h => free_of_substituteArgs args h
  | .not a, h => free_of_substitute a h
  | .and a b, h => by
      rcases h with h | h
      · exact (free_of_substitute a h).imp_left fun h => ⟨.inl h.1, h.2⟩
      · exact (free_of_substitute b h).imp_left fun h => ⟨.inr h.1, h.2⟩
  | .select c t f, h => by
      rcases h with h | h | h
      · exact (free_of_substitute c h).imp_left fun h => ⟨.inl h.1, h.2⟩
      · exact (free_of_substitute t h).imp_left fun h => ⟨.inr (.inl h.1), h.2⟩
      · exact (free_of_substitute f h).imp_left fun h => ⟨.inr (.inr h.1), h.2⟩
  | .letIn z v b, h => by
      rcases h with h | ⟨hNe, h⟩
      · exact (free_of_substitute v h).imp_left fun h => ⟨.inl h.1, h.2⟩
      · split at h
        · rename_i hEq
          exact .inl ⟨.inr ⟨hNe, h⟩, hEq ▸ hNe⟩
        · exact (free_of_substitute b h).imp_left fun h => ⟨.inr ⟨hNe, h.1⟩, h.2⟩

theorem free_of_substituteArgs {x y : String} {r : Expr F} :
    (args : Exprs F) → FreeInArgs y (substituteArgs x r args) →
    (FreeInArgs y args ∧ y ≠ x) ∨ FreeIn y r
  | .nil, h => nomatch h
  | .cons e rest, h => by
      rcases h with h | h
      · exact (free_of_substitute e h).imp_left fun h => ⟨.inl h.1, h.2⟩
      · exact (free_of_substituteArgs rest h).imp_left fun h => ⟨.inr h.1, h.2⟩

end

mutual

theorem bound_of_substitute {x y : String} {r : Expr F} :
    (e : Expr F) → BoundIn y (substitute x r e) → BoundIn y e ∨ BoundIn y r
  | .imm _, h | .undef, h => nomatch h
  | .var z, h => by
      simp only [substitute] at h
      split at h
      · exact .inr h
      · exact nomatch h
  | .op _ args, h => bound_of_substituteArgs args h
  | .not a, h => bound_of_substitute a h
  | .and a b, h => by
      rcases h with h | h
      · exact (bound_of_substitute a h).imp_left .inl
      · exact (bound_of_substitute b h).imp_left .inr
  | .select c t f, h => by
      rcases h with h | h | h
      · exact (bound_of_substitute c h).imp_left .inl
      · exact (bound_of_substitute t h).imp_left fun h => .inr (.inl h)
      · exact (bound_of_substitute f h).imp_left fun h => .inr (.inr h)
  | .letIn z v b, h => by
      rcases h with h | h | h
      · exact .inl (.inl h)
      · exact (bound_of_substitute v h).imp_left fun h => .inr (.inl h)
      · split at h
        · exact .inl (.inr (.inr h))
        · exact (bound_of_substitute b h).imp_left fun h => .inr (.inr h)

theorem bound_of_substituteArgs {x y : String} {r : Expr F} :
    (args : Exprs F) → BoundInArgs y (substituteArgs x r args) →
    BoundInArgs y args ∨ BoundIn y r
  | .nil, h => nomatch h
  | .cons e rest, h => by
      rcases h with h | h
      · exact (bound_of_substitute e h).imp_left .inl
      · exact (bound_of_substituteArgs rest h).imp_left .inr

end

end Vyasa.RemoveUndef
