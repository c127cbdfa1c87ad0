import Vyasa.SkipStages.Found

/-! Guarding the production of a function: a run does not change where the guard is true
throughout, nor where it is false throughout and the function is not used. -/
namespace Vyasa.SkipStages

variable {F : Type} {sem : F → List Int → Int} {junk : Memory} {buffer : String}

/-! ### Runs that do not use the function -/

section

variable {in_produce : Bool} {σ σ' : Memory}

mutual

/-- An expression that does not need the function has its value without it. -/
theorem eval_of_not_needs (hσ : MemEq [buffer] σ σ') : ∀ {ρ : Env} (e : Expr F),
    ¬ needs sem buffer true false ρ σ e → eval sem ρ σ e = eval sem ρ σ' e
  | ρ, .imm v, h => rfl
  | ρ, .var x, h => rfl
  | ρ, .op f args, h => by rw [eval, eval, evalArgs_of_not_needs hσ args h]
  | ρ, .not a, h => by rw [eval, eval, eval_of_not_needs hσ a h]
  | ρ, .and a b, h => by
    rw [needs, not_or] at h
    rw [eval, eval, eval_of_not_needs hσ a h.1, eval_of_not_needs hσ b h.2]
  | ρ, .or a b, h => by
    rw [needs, not_or] at h
    rw [eval, eval, eval_of_not_needs hσ a h.1, eval_of_not_needs hσ b h.2]
  | ρ, .select c t f, h => by
    rw [needs, not_or, if_pos rfl] at h
    obtain ⟨hCond, hBranch⟩ := h
    rw [eval, eval, ← eval_of_not_needs hσ c hCond]
    by_cases hTaken : eval sem ρ σ c ≠ 0
    · rw [if_pos hTaken] at hBranch
      rw [if_pos hTaken, if_pos hTaken, eval_of_not_needs hσ t hBranch]
    · rw [if_neg hTaken] at hBranch
      rw [if_neg hTaken, if_neg hTaken, eval_of_not_needs hσ f hBranch]
  | ρ, .letIn x v b, h => by
    rw [needs, not_or] at h
    rw [eval, eval, ← eval_of_not_needs hσ v h.1]
    exact eval_of_not_needs hσ b h.2
  | ρ, .call g args i, h => by
    rw [needs, not_or] at h
    have hOther : g ∉ [buffer] := by simpa using h.2
    rw [eval, eval, hσ g hOther, evalArgs_of_not_needs hσ args h.1]

theorem evalArgs_of_not_needs (hσ : MemEq [buffer] σ σ') : ∀ {ρ : Env} (es : Exprs F),
    ¬ needsArgs sem buffer true false ρ σ es → evalArgs sem ρ σ es = evalArgs sem ρ σ' es
  | ρ, .nil, h => rfl
  | ρ, .cons e rest, h => by
    rw [needsArgs, not_or] at h
    rw [evalArgs, evalArgs, eval_of_not_needs hσ e h.1, evalArgs_of_not_needs hσ rest h.2]

end

end

/-- What the production of a function that is not needed can change. -/
theorem produce_memEq {lazy : Bool} (s : Stmt F) {locals : List String} {ρ : Env} {σ : Memory}
    (h : ¬ needsStmt sem junk buffer lazy true locals ρ s σ) :
    MemEq (buffer :: locals) σ (exec sem junk ρ s σ) := by
  induction s generalizing locals ρ σ with
  | undefined => exact .refl
  | Provide name values args =>
    refine .update ?_ _
    by_contra hOut
    rw [List.mem_cons, not_or] at hOut
    exact h (.inr (.inr ⟨rfl, hOut⟩))
  | Realize name bounds condition body ih =>
    simp only [needsStmt, not_or] at h
    exact ((ih h.2.2).mono (by simp)).realize
  | ProducerConsumer name is_producer body ih =>
    rw [needsStmt, Bool.true_or] at h
    exact ih h
  | For name vectorized min extent body ih =>
    simp only [needsStmt, not_or, not_exists, not_and] at h
    exact iterate_memEq fun k hk => ih (h.2.2 k hk)
  | LetStmt name value body ih =>
    rw [needsStmt, not_or] at h
    exact ih h.2
  | IfThenElse condition then_case else_case ihThen ihElse =>
    rw [needsStmt, not_or] at h
    rw [exec]
    split <;> rename_i hTaken
    · exact ihThen (by simpa [hTaken] using h.2)
    · exact ihElse (by simpa [hTaken] using h.2)
  | Block first rest ihFirst ihRest =>
    rw [needsStmt, not_or] at h
    exact (ihFirst h.1).trans (ihRest h.2)

/-! ### The guard -/

@[simp] theorem modified_guardProduction (p : Expr F) (s : Stmt F) :
    (guardProduction buffer p s).modified = s.modified := by
  induction s with
  | undefined | Provide => rfl
  | Realize name bounds condition body ih => rw [guardProduction, Stmt.modified, Stmt.modified, ih]
  | ProducerConsumer name is_producer body ih =>
    rw [guardProduction]
    split <;> simp [Stmt.modified, ih]
  | For name vectorized min extent body ih => exact ih
  | LetStmt name value body ih => exact ih
  | IfThenElse condition then_case else_case ihThen ihElse =>
    rw [guardProduction, Stmt.modified, Stmt.modified, ihThen, ihElse]
  | Block first rest ihFirst ihRest =>
    rw [guardProduction, Stmt.modified, Stmt.modified, ihFirst, ihRest]

/-- Iterations that do the same. -/
theorem iterate_congr {step step' : Int → Memory → Memory} {min : Int} {n : Nat} {σ : Memory}
    (h : ∀ k < n, step' (min + k) (iterate step min k σ) = step (min + k) (iterate step min k σ)) :
    iterate step' min n σ = iterate step min n σ := by
  induction n with
  | zero => rfl
  | succ n ih =>
    rw [iterate, iterate, ih fun k hk => h k (Nat.lt_succ_of_lt hk),
      h n (Nat.lt_succ_self n)]

theorem exec_guard_of_atProduce {p : Expr F} (s : Stmt F) {ρ : Env} {σ : Memory}
    (h : atProduce sem junk buffer (fun ρ σ => Holds sem ρ σ p) ρ s σ) :
    exec sem junk ρ (guardProduction buffer p s) σ = exec sem junk ρ s σ := by
  induction s generalizing ρ σ with
  | undefined | Provide => rfl
  | Realize name bounds condition body ih => rw [guardProduction, exec, exec, ih h]
  | ProducerConsumer name is_producer body ih =>
    rw [guardProduction, exec, exec]
    split
    · rename_i hHere
      rw [Bool.and_eq_true, decide_eq_true_iff] at hHere
      have hTrue : eval sem ρ σ p ≠ 0 := h.1 hHere.1 hHere.2
      rw [exec, if_pos hTrue, ih h.2]
    · exact ih h.2
  | For name vectorized min extent body ih =>
    rw [guardProduction, exec, exec]
    exact iterate_congr fun k hk => ih (h k hk)
  | LetStmt name value body ih => exact ih h
  | IfThenElse condition then_case else_case ihThen ihElse =>
    rw [atProduce] at h
    rw [guardProduction, exec, exec]
    split <;> rename_i hTaken
    · exact ihThen (by simpa [hTaken] using h)
    · exact ihElse (by simpa [hTaken] using h)
  | Block first rest ihFirst ihRest =>
    rw [guardProduction, exec, exec, ihFirst h.1, ihRest h.2]

section

variable {Y M : List String} {P : Env → Memory → Prop} {ρ₀ : Env} {σ₀ : Memory}

/-- A fact that the run of a statement cannot change is there at every produce node. -/
theorem atProduce_of_fixed (hP : ∀ ρ σ, EnvEq Y ρ₀ ρ → MemEq M σ₀ σ → P ρ σ) (s : Stmt F)
    (hM : s.modified ⊆ M) (hY : s.binders ⊆ Y) {ρ : Env} {σ : Memory} (hρ : EnvEq Y ρ₀ ρ)
    (hσ : MemEq M σ₀ σ) : atProduce sem junk buffer P ρ s σ := by
  induction s generalizing ρ σ with
  | undefined | Provide => trivial
  | Realize name bounds condition body ih =>
    obtain ⟨hName, hM⟩ := List.cons_subset.mp hM
    have hY := (List.append_subset.mp hY).2
    exact ih hM hY hρ (hσ.trans (.update hName _))
  | ProducerConsumer name is_producer body ih =>
    exact ⟨fun _ _ => hP ρ σ hρ hσ, ih hM hY hρ hσ⟩
  | For name vectorized min extent body ih =>
    obtain ⟨hName, hY⟩ := List.cons_subset.mp hY
    have hY := (List.append_subset.mp hY).2
    intro k _
    refine ih hM hY (hρ.trans (.update hName _)) (hσ.trans (iterate_memEq fun k _ => ?_))
    exact exec_memEq_of_subset (s := body) hM _ _
  | LetStmt name value body ih =>
    obtain ⟨hName, hY⟩ := List.cons_subset.mp hY
    exact ih hM (List.append_subset.mp hY).2 (hρ.trans (.update hName _)) hσ
  | IfThenElse condition then_case else_case ihThen ihElse =>
    obtain ⟨hThen, hElse⟩ := List.append_subset.mp hM
    obtain ⟨hY, hYElse⟩ := List.append_subset.mp hY
    rw [atProduce]
    split
    · exact ihThen hThen (List.append_subset.mp hY).2 hρ hσ
    · exact ihElse hElse hYElse hρ hσ
  | Block first rest ihFirst ihRest =>
    obtain ⟨hFirst, hRest⟩ := List.append_subset.mp hM
    obtain ⟨hYFirst, hYRest⟩ := List.append_subset.mp hY
    exact ⟨ihFirst hFirst hYFirst hρ hσ,
      ihRest hRest hYRest hρ (hσ.trans (exec_memEq_of_subset hFirst _ _))⟩

/-- Where the guard is false throughout and the function is not used, only the function
differs. -/
theorem exec_guard_of_unused {p : Expr F}
    (hP : ∀ ρ σ, EnvEq Y ρ₀ ρ → MemEq M σ₀ σ → ¬ Holds sem ρ σ p) (s : Stmt F)
    (hM : s.modified ⊆ M) (hY : s.binders ⊆ Y) {V P locals : List String}
    (hApart : guardsQuietStmt buffer true M V P locals s) {ρ : Env} {σ σ' : Memory}
    (hρ : EnvEq Y ρ₀ ρ) (hσ₀ : MemEq M σ₀ σ') (hσ : MemEq [buffer] σ σ')
    (h : ¬ needsStmt sem junk buffer true false locals ρ s σ) :
    MemEq [buffer] (exec sem junk ρ s σ) (exec sem junk ρ (guardProduction buffer p s) σ') := by
  induction s generalizing V P locals ρ σ σ' with
  | undefined => exact hσ
  | Provide name values args =>
    simp only [needsStmt, not_or] at h
    rw [guardProduction, exec, exec, evalArgs_of_not_needs hσ values h.1,
      evalArgs_of_not_needs hσ args h.2.1]
    exact hσ.update_both fun hName => by rw [hσ name hName]
  | Realize name bounds condition body ih =>
    obtain ⟨hName, hM⟩ := List.cons_subset.mp hM
    simp only [needsStmt, not_or] at h
    rw [guardProduction, exec, exec]
    have hBody := ih hM (List.append_subset.mp hY).2 hApart.2.2 hρ
      (hσ₀.trans (.update hName (junk name))) (hσ.update_both fun _ => rfl) h.2.2
    exact hBody.update_both (hσ name)
  | ProducerConsumer name is_producer body ih =>
    rw [guardProduction, exec, exec]
    split
    · rename_i hHere
      rw [needsStmt, hHere, Bool.or_true] at h
      rw [Bool.and_eq_true, decide_eq_true_iff] at hHere
      have hFalse : ¬ eval sem ρ σ' p ≠ 0 := hP ρ σ' hρ hσ₀
      rw [exec, if_neg hFalse, exec]
      have hProduced := produce_memEq body h
      have hProvided : MemEq body.provided σ (exec sem junk ρ body σ) := exec_memEq body ρ σ
      refine MemEq.trans (fun g hg => ?_) hσ
      by_cases hLocal : g ∈ locals
      · exact (hProvided g (hApart.1 hHere.1 hHere.2 g hLocal)).symm
      · refine (hProduced g ?_).symm
        rw [List.mem_cons, not_or]
        exact ⟨by simpa using hg, hLocal⟩
    · rename_i hElsewhere
      rw [needsStmt, Bool.eq_false_iff.mpr hElsewhere, Bool.or_false] at h
      exact ih hM hY hApart.2 hρ hσ₀ hσ h
  | For name vectorized min extent body ih =>
    obtain ⟨hName, hY⟩ := List.cons_subset.mp hY
    have hM : body.modified ⊆ M := hM
    simp only [needsStmt, not_or, not_exists, not_and] at h
    obtain ⟨hMin, hExtent, hBody⟩ := h
    rw [guardProduction, exec, exec, ← eval_of_not_needs hσ min hMin,
      ← eval_of_not_needs hσ extent hExtent]
    have hIter (n : Nat) (hn : n ≤ (eval sem ρ σ extent).toNat) :
        MemEq [buffer]
          (iterate (fun i => exec sem junk (Function.update ρ name i) body) (eval sem ρ σ min) n σ)
          (iterate (fun i => exec sem junk (Function.update ρ name i)
            (guardProduction buffer p body)) (eval sem ρ σ min) n σ') := by
      induction n with
      | zero => exact hσ
      | succ n ihn =>
        refine ih hM (List.append_subset.mp hY).2 hApart.2.2.2 (hρ.trans (.update hName _))
          (hσ₀.trans (iterate_memEq fun k _ => ?_)) (ihn (Nat.le_of_succ_le hn)) (hBody n hn)
        exact exec_memEq_of_subset (by rwa [modified_guardProduction]) _ _
    exact hIter _ (Nat.le_refl _)
  | LetStmt name value body ih =>
    obtain ⟨hName, hY⟩ := List.cons_subset.mp hY
    rw [needsStmt, not_or] at h
    rw [guardProduction, exec, exec, ← eval_of_not_needs hσ value h.1]
    exact ih hM (List.append_subset.mp hY).2 hApart.2.2 (hρ.trans (.update hName _)) hσ₀ hσ h.2
  | IfThenElse condition then_case else_case ihThen ihElse =>
    obtain ⟨hThen, hElse⟩ := List.append_subset.mp hM
    obtain ⟨hY, hYElse⟩ := List.append_subset.mp hY
    rw [needsStmt, not_or] at h
    rw [guardProduction, exec, exec, ← eval_of_not_needs hσ condition h.1]
    split <;> rename_i hTaken
    · exact ihThen hThen (List.append_subset.mp hY).2 hApart.2.2.1 hρ hσ₀ hσ
        (by simpa [hTaken] using h.2)
    · exact ihElse hElse hYElse hApart.2.2.2 hρ hσ₀ hσ (by simpa [hTaken] using h.2)
  | Block first rest ihFirst ihRest =>
    obtain ⟨hFirst, hRest⟩ := List.append_subset.mp hM
    obtain ⟨hYFirst, hYRest⟩ := List.append_subset.mp hY
    rw [needsStmt, not_or] at h
    rw [guardProduction, exec, exec]
    exact ihRest hRest hYRest hApart.2 hρ
      (hσ₀.trans (exec_memEq_of_subset (by rwa [modified_guardProduction]) _ _))
      (ihFirst hFirst hYFirst hApart.1 hρ hσ₀ hσ h.1) h.2

end

end Vyasa.SkipStages
