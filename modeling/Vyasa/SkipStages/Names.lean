import Vyasa.SkipStages.Predicate

/-! Where every name is bound once, lets capture nothing. -/
namespace Vyasa.SkipStages

variable {F : Type}

section

variable {bs bs' fs fs' : List String} {x : String}

theorem Distinct.append (h : Distinct (bs ++ bs') (fs ++ fs')) :
    Distinct bs fs ∧ Distinct bs' fs' ∧ Apart bs' fs := by
  obtain ⟨hNodup, hFree⟩ := h
  obtain ⟨hLeft, hRight, _⟩ := List.nodup_append.mp hNodup
  refine ⟨⟨hLeft, fun y hy hm => ?_⟩, ⟨hRight, fun y hy hm => ?_⟩, fun y hy hm => ?_⟩
  · exact hFree y (List.mem_append_left _ hy) (List.mem_append_left _ hm)
  · exact hFree y (List.mem_append_right _ hy) (List.mem_append_right _ hm)
  · exact hFree y (List.mem_append_right _ hy) (List.mem_append_left _ hm)

theorem Distinct.bind (h : Distinct (x :: (bs ++ bs')) (fs ++ fs'.filter (· ≠ x))) :
    Distinct bs fs ∧ Distinct bs' fs' ∧ Apart (x :: bs') fs := by
  obtain ⟨hNodup, hFree⟩ := h
  obtain ⟨hNew, hNodup⟩ := List.nodup_cons.mp hNodup
  rw [List.mem_append, not_or] at hNew
  obtain ⟨hLeft, hRight, _⟩ := List.nodup_append.mp hNodup
  refine ⟨⟨hLeft, fun y hy hm => ?_⟩, ⟨hRight, fun y hy hm => ?_⟩, fun y hy hm => ?_⟩
  · exact hFree y (by simp [hy]) (List.mem_append_left _ hm)
  · have hyx : y ≠ x := fun h => hNew.2 (h ▸ hy)
    exact hFree y (by simp [hy]) (List.mem_append_right _ (by simp [hm, hyx]))
  · rcases List.mem_cons.mp hy with rfl | hy
    · exact hFree y List.mem_cons_self (List.mem_append_left _ hm)
    · exact hFree y (by simp [hy]) (List.mem_append_left _ hm)

theorem Apart.mono {lets guards : List String} (h : Apart bs fs) (hLets : lets ⊆ bs)
    (hGuards : guards ⊆ fs) : Apart lets guards :=
  fun x hx hm => h x (hLets hx) (hGuards hm)

end

/-! ### Expressions -/

section

variable {lazy : Bool}

mutual

theorem guardVars_subset : ∀ e : Expr F, guardVars lazy e ⊆ freeVars e
  | .imm _ | .var _ => List.nil_subset _
  | .op _ args => guardVarsArgs_subset args
  | .not a => guardVars_subset a
  | .and a b | .or a b => by
    intro x hx
    exact List.mem_append.mpr ((List.mem_append.mp hx).imp (@guardVars_subset a x)
      (@guardVars_subset b x))
  | .select c t f => by
    intro x hx
    simp only [guardVars, List.mem_append] at hx
    simp only [freeVars, List.mem_append]
    rcases hx with ((hx | hx) | hx) | hx
    · split at hx
      · exact .inl (.inl hx)
      · exact absurd hx List.not_mem_nil
    · exact .inl (.inl (guardVars_subset c hx))
    · exact .inl (.inr (guardVars_subset t hx))
    · exact .inr (guardVars_subset f hx)
  | .letIn y v b => by
    intro x hx
    simp only [guardVars, List.mem_append, List.mem_filter] at hx
    simp only [freeVars, List.mem_append, List.mem_filter]
    rcases hx with (hx | ⟨hx, hne⟩) | hx
    · exact .inl (guardVars_subset v hx)
    · exact .inr ⟨guardVars_subset b hx, hne⟩
    · split at hx
      · exact .inl hx
      · exact absurd hx List.not_mem_nil
  | .call _ args _ => guardVarsArgs_subset args

theorem guardVarsArgs_subset : ∀ es : Exprs F, guardVarsArgs lazy es ⊆ freeVarsArgs es
  | .nil => List.nil_subset _
  | .cons e rest => by
    intro x hx
    exact List.mem_append.mpr ((List.mem_append.mp hx).imp (@guardVars_subset e x)
      (@guardVarsArgs_subset rest x))

end

mutual

theorem lets_subset : ∀ e : Expr F, lets lazy e ⊆ binders e
  | .imm _ | .var _ => List.nil_subset _
  | .op _ args => letsArgs_subset args
  | .not a => lets_subset a
  | .and a b | .or a b => by
    intro x hx
    exact List.mem_append.mpr ((List.mem_append.mp hx).imp (@lets_subset a x) (@lets_subset b x))
  | .select c t f => by
    intro x hx
    rw [lets] at hx
    split at hx
    · exact absurd hx List.not_mem_nil
    · simp only [binders, List.mem_append] at hx ⊢
      rcases hx with hx | hx | hx
      · exact .inl (.inl (lets_subset c hx))
      · exact .inl (.inr (lets_subset t hx))
      · exact .inr (lets_subset f hx)
  | .letIn y v b => by
    intro x hx
    simp only [lets, binders, List.mem_append, List.mem_cons] at hx ⊢
    rcases hx with hx | hx | hx
    · exact .inr (.inl (lets_subset v hx))
    · exact .inl hx
    · exact .inr (.inr (lets_subset b hx))
  | .call _ args _ => letsArgs_subset args

theorem letsArgs_subset : ∀ es : Exprs F, letsArgs lazy es ⊆ bindersArgs es
  | .nil => List.nil_subset _
  | .cons e rest => by
    intro x hx
    exact List.mem_append.mpr ((List.mem_append.mp hx).imp (@lets_subset e x)
      (@letsArgs_subset rest x))

end

mutual

theorem scoped_of_distinct : ∀ e : Expr F, Distinct (binders e) (freeVars e) → Scoped lazy e
  | .imm _, _ | .var _, _ => trivial
  | .op _ args, h => scopedArgs_of_distinct args h
  | .not a, h => scoped_of_distinct a h
  | .and a b, h | .or a b, h =>
    have ⟨hA, hB, hApart⟩ := h.append
    ⟨scoped_of_distinct a hA, scoped_of_distinct b hB,
      hApart.mono (lets_subset b) (guardVars_subset a)⟩
  | .select c t f, h => by
    obtain ⟨hCT, hF, hApartF⟩ := Distinct.append h
    obtain ⟨hC, hT, hApartT⟩ := hCT.append
    refine ⟨scoped_of_distinct c hC, scoped_of_distinct t hT, scoped_of_distinct f hF, fun _ => ?_⟩
    have hGuardC := List.Subset.trans (@guardVars_subset _ lazy c)
      (List.subset_append_left _ (freeVars t))
    have hGuardT := List.Subset.trans (@guardVars_subset _ lazy t)
      (List.subset_append_right (freeVars c) _)
    refine ⟨fun x hx => ?_, hApartF.mono (lets_subset f) hGuardT⟩
    rcases List.mem_append.mp hx with hx | hx
    · exact hApartT.mono (lets_subset t) (guardVars_subset c) x hx
    · exact hApartF.mono (lets_subset f) hGuardC x hx
  | .letIn x v b, h =>
    have ⟨hV, hB, hApart⟩ := h.bind
    ⟨scoped_of_distinct v hV, scoped_of_distinct b hB,
      hApart.mono (List.cons_subset_cons x (lets_subset b)) (guardVars_subset v)⟩
  | .call _ args _, h => scopedArgs_of_distinct args h

theorem scopedArgs_of_distinct : ∀ es : Exprs F,
    Distinct (bindersArgs es) (freeVarsArgs es) → ScopedArgs lazy es
  | .nil, _ => trivial
  | .cons e rest, h =>
    have ⟨hE, hRest, hApart⟩ := h.append
    ⟨scoped_of_distinct e hE, scopedArgs_of_distinct rest hRest,
      hApart.mono (letsArgs_subset rest) (guardVars_subset e)⟩

end

/-! ### Statements -/

theorem mem_let {guards free fs : List String} {x y : String} (hSub : guards ⊆ free)
    (h : y ∈ guards.filter (· ≠ x) ++ if x ∈ guards then fs else []) :
    y ∈ fs ∨ y ∈ free.filter (· ≠ x) := by
  rcases List.mem_append.mp h with h | h
  · obtain ⟨hy, hne⟩ := List.mem_filter.mp h
    exact .inr (List.mem_filter.mpr ⟨hSub hy, hne⟩)
  · split at h
    · exact .inl h
    · exact absurd h List.not_mem_nil

theorem Stmt.guardVars_subset (s : Stmt F) : s.guardVars lazy ⊆ s.freeVars := by
  induction s with
  | undefined => exact List.nil_subset _
  | Provide name values args =>
    intro x hx
    exact List.mem_append.mpr ((List.mem_append.mp hx).imp (@guardVarsArgs_subset _ _ values x)
      (@guardVarsArgs_subset _ _ args x))
  | Realize name bounds condition body ih =>
    intro x hx
    simp only [Stmt.guardVars, Stmt.freeVars, List.mem_append] at hx ⊢
    rcases hx with (hx | hx) | hx
    · exact .inl (.inl (guardVarsArgs_subset bounds hx))
    · exact .inl (.inr (SkipStages.guardVars_subset condition hx))
    · exact .inr (ih hx)
  | ProducerConsumer name is_producer body ih => exact ih
  | For name vectorized min extent body ih =>
    intro x hx
    rw [Stmt.guardVars, List.mem_append, List.mem_append] at hx
    rw [Stmt.freeVars, List.mem_append, List.mem_append]
    rcases hx with (hx | hx) | hx
    · exact .inl (.inl (SkipStages.guardVars_subset min hx))
    · exact .inl (.inr (SkipStages.guardVars_subset extent hx))
    · exact (mem_let ih hx).imp_left .inl
  | LetStmt name value body ih =>
    intro x hx
    rw [Stmt.guardVars, List.mem_append] at hx
    rw [Stmt.freeVars, List.mem_append]
    rcases hx with hx | hx
    · exact .inl (SkipStages.guardVars_subset value hx)
    · exact mem_let ih hx
  | IfThenElse condition then_case else_case ihThen ihElse =>
    intro x hx
    simp only [Stmt.guardVars, Stmt.freeVars, List.mem_append] at hx ⊢
    rcases hx with ((hx | hx) | hx) | hx
    · exact .inl (.inl hx)
    · exact .inl (.inl (SkipStages.guardVars_subset condition hx))
    · exact .inl (.inr (ihThen hx))
    · exact .inr (ihElse hx)
  | Block first rest ihFirst ihRest =>
    intro x hx
    exact List.mem_append.mpr ((List.mem_append.mp hx).imp (@ihFirst x) (@ihRest x))

theorem Stmt.lets_subset (s : Stmt F) : s.lets lazy ⊆ s.binders := by
  induction s with
  | undefined => exact List.nil_subset _
  | Provide name values args =>
    intro x hx
    exact List.mem_append.mpr ((List.mem_append.mp hx).imp (@letsArgs_subset _ _ values x)
      (@letsArgs_subset _ _ args x))
  | Realize name bounds condition body ih =>
    intro x hx
    simp only [Stmt.lets, Stmt.binders, List.mem_append] at hx ⊢
    rcases hx with hx | hx | hx
    · exact .inl (.inl (letsArgs_subset bounds hx))
    · exact .inl (.inr (SkipStages.lets_subset condition hx))
    · exact .inr (ih hx)
  | ProducerConsumer name is_producer body ih => exact ih
  | For name vectorized min extent body ih =>
    intro x hx
    simp only [Stmt.lets, Stmt.binders, List.mem_append, List.mem_cons] at hx ⊢
    rcases hx with hx | hx | hx | hx
    · exact .inr (.inl (.inl (SkipStages.lets_subset min hx)))
    · exact .inr (.inl (.inr (SkipStages.lets_subset extent hx)))
    · exact .inl hx
    · exact .inr (.inr (ih hx))
  | LetStmt name value body ih =>
    intro x hx
    simp only [Stmt.lets, Stmt.binders, List.mem_append, List.mem_cons] at hx ⊢
    rcases hx with hx | hx | hx
    · exact .inr (.inl (SkipStages.lets_subset value hx))
    · exact .inl hx
    · exact .inr (.inr (ih hx))
  | IfThenElse => exact List.nil_subset _
  | Block first rest ihFirst ihRest =>
    intro x hx
    exact List.mem_append.mpr ((List.mem_append.mp hx).imp (@ihFirst x) (@ihRest x))

theorem Stmt.Unique.scoped {s : Stmt F} (h : s.Unique) : s.Scoped lazy := by
  induction s with
  | undefined => trivial
  | Provide name values args =>
    obtain ⟨hValues, hArgs, hApart⟩ := Distinct.append h
    exact ⟨scopedArgs_of_distinct values hValues, scopedArgs_of_distinct args hArgs,
      hApart.mono (letsArgs_subset args) (guardVarsArgs_subset values)⟩
  | Realize name bounds condition body ih =>
    obtain ⟨hFirst, hBody, hApartBody⟩ := Distinct.append h
    obtain ⟨hBounds, hCond, hApartCond⟩ := hFirst.append
    have hGuardBounds := List.Subset.trans (@guardVarsArgs_subset _ lazy bounds)
      (List.subset_append_left _ (SkipStages.freeVars condition))
    have hGuardCond := List.Subset.trans (@SkipStages.guardVars_subset _ lazy condition)
      (List.subset_append_right (freeVarsArgs bounds) _)
    refine ⟨scopedArgs_of_distinct bounds hBounds, scoped_of_distinct condition hCond, ih hBody,
      fun x hx => ?_, hApartBody.mono body.lets_subset hGuardCond⟩
    rcases List.mem_append.mp hx with hx | hx
    · exact hApartCond.mono (SkipStages.lets_subset condition) (guardVarsArgs_subset bounds) x hx
    · exact hApartBody.mono body.lets_subset hGuardBounds x hx
  | ProducerConsumer name is_producer body ih => exact ih h
  | For name vectorized min extent body ih =>
    obtain ⟨hFirst, hBody, hApartBody⟩ := Distinct.bind h
    obtain ⟨hMin, hExtent, hApartExtent⟩ := hFirst.append
    have hGuardMin := List.Subset.trans (@SkipStages.guardVars_subset _ lazy min)
      (List.subset_append_left _ (SkipStages.freeVars extent))
    have hGuardExtent := List.Subset.trans (@SkipStages.guardVars_subset _ lazy extent)
      (List.subset_append_right (SkipStages.freeVars min) _)
    have hLets := List.cons_subset_cons name (@Stmt.lets_subset _ lazy body)
    refine ⟨scoped_of_distinct min hMin, scoped_of_distinct extent hExtent, ih hBody,
      fun x hx => ?_, hApartBody.mono hLets hGuardExtent⟩
    rcases List.mem_append.mp hx with hx | hx
    · exact hApartExtent.mono (SkipStages.lets_subset extent)
        (SkipStages.guardVars_subset min) x hx
    · exact hApartBody.mono hLets hGuardMin x hx
  | LetStmt name value body ih =>
    obtain ⟨hValue, hBody, hApart⟩ := Distinct.bind h
    exact ⟨scoped_of_distinct value hValue, ih hBody,
      hApart.mono (List.cons_subset_cons name body.lets_subset)
        (SkipStages.guardVars_subset value)⟩
  | IfThenElse condition then_case else_case ihThen ihElse =>
    obtain ⟨hFirst, hElse, _⟩ := Distinct.append h
    obtain ⟨hCond, hThen, _⟩ := hFirst.append
    exact ⟨scoped_of_distinct condition hCond, ihThen hThen, ihElse hElse⟩
  | Block first rest ihFirst ihRest =>
    obtain ⟨hFirst, hRest, hApart⟩ := Distinct.append h
    exact ⟨ihFirst hFirst, ihRest hRest, hApart.mono rest.lets_subset first.guardVars_subset⟩

theorem Stmt.Unique.apart {s : Stmt F} (h : s.Unique) : Apart s.binders (s.guardVars lazy) :=
  fun x hx hm => h.2 x hx (s.guardVars_subset hm)

end

end Vyasa.SkipStages
