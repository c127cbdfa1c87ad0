import Vyasa.SkipStages.Predicate

/-! The predicate the finder leaves is true wherever the function is used, and has one value
wherever it may be evaluated. -/
namespace Vyasa.SkipStages

variable {F : Type} {sem : F → List Int → Int} {junk : Memory}

/-! ### What is found to vary -/

section

variable {V V' P vars vars' gs gs' : List String}

theorem NamesVary.mono (h : NamesVary V P vars gs) (hV : V ⊆ V') : NamesVary V' P vars gs :=
  h.imp_left fun ⟨x, hx, hm⟩ => ⟨x, hx, hV hm⟩

@[simp] theorem not_namesVary_nil : ¬ NamesVary V P [] [] := by
  simp [NamesVary]

@[simp] theorem namesVary_append : NamesVary V P (vars ++ vars') (gs ++ gs') ↔
    NamesVary V P vars gs ∨ NamesVary V P vars' gs' := by
  simp only [NamesVary, List.mem_append, or_and_right, exists_or]
  exact or_or_or_comm

end

section

variable (c : Scopes) (b : Bool) (x : String)

@[simp] theorem pushVarying_selects :
    (c.pushVarying b x).treat_selects_as_guards = c.treat_selects_as_guards := by
  cases b <;> rfl

@[simp] theorem pushVarying_pipeline : (c.pushVarying b x).in_pipeline = c.in_pipeline := by
  cases b <;> rfl

@[simp] theorem pushVarying_buffer : (c.pushVarying b x).buffer = c.buffer := by
  cases b <;> rfl

@[simp] theorem pushVarying_produce : (c.pushVarying b x).in_produce = c.in_produce := by
  cases b <;> rfl

@[simp] theorem pushVarying_locals : (c.pushVarying b x).local_buffers = c.local_buffers := by
  cases b <;> rfl

theorem subset_pushVarying : c.varying ⊆ (c.pushVarying b x).varying := by
  cases b
  · exact List.Subset.refl _
  · exact List.subset_cons_self _ _

end

/-! ### Variables that guards do not depend on -/

/-- Each of the variables is known to vary, or no guard depends on it. -/
def Away (varying Y guards : List String) : Prop := ∀ y ∈ Y, y ∈ varying ∨ y ∉ guards

section

variable {V V' Y Z guards guards' : List String}

theorem Away.left (h : Away V Y (guards ++ guards')) : Away V Y guards :=
  fun y hy => (h y hy).imp_right fun hOut hIn => hOut (List.mem_append_left _ hIn)

theorem Away.right (h : Away V Y (guards ++ guards')) : Away V Y guards' :=
  fun y hy => (h y hy).imp_right fun hOut hIn => hOut (List.mem_append_right _ hIn)

theorem Away.before (h : Away V Y guards) (hApart : Apart Z guards) : Away V (Z ++ Y) guards := by
  intro y hy
  rcases List.mem_append.mp hy with hy | hy
  · exact .inr (hApart y hy)
  · exact h y hy

theorem Away.cons {x : String} (h : Away V Y (guards.filter (· ≠ x))) (hV : V ⊆ V')
    (hx : x ∈ V' ∨ x ∉ guards) : Away V' (x :: Y) guards := by
  intro y hy
  by_cases hyx : y = x
  · exact hyx ▸ hx
  · have hy : y ∈ Y := (List.mem_cons.mp hy).resolve_left hyx
    refine (h y hy).imp (@hV y) fun hOut hIn => hOut ?_
    exact List.mem_filter.mpr ⟨hIn, by simpa using hyx⟩

end

/-! ### Rules for what a visit does to the predicate -/

/-- A visit that binds `X` turns `p` into `q`: if `p` depends on neither `X`, nor `Y`, nor the
functions of `M`, then `q` does not depend on `Y` and `M`, is true where `p` is, and is true
wherever `N` asks. -/
def Carries (sem : F → List Int → Int) (X Y M : List String) (N : Env → Memory → Prop)
    (p q : Expr F) : Prop :=
  Fixed sem (X ++ Y) M p →
    Fixed sem Y M q ∧ ∀ ρ σ, Holds sem ρ σ p ∨ N ρ σ → Holds sem ρ σ q

section

variable {X Z Y M : List String} {N N' : Env → Memory → Prop} {p q r v : Expr F} {x : String}

theorem Carries.refl : Carries sem [] Y M (fun _ _ => False) p p := fun hp =>
  ⟨hp, fun _ _ h => h.resolve_right id⟩

theorem carries_const_true : Carries sem X Y M N p const_true := fun _ =>
  ⟨fixed_const_true, fun _ _ _ => holds_const_true⟩

theorem Carries.seq (h : Carries sem X (Z ++ Y) M N p q) (h' : Carries sem Z Y M N' q r) :
    Carries sem (X ++ Z) Y M (fun ρ σ => N ρ σ ∨ N' ρ σ) p r := by
  intro hp
  rw [List.append_assoc] at hp
  obtain ⟨hq, hFirst⟩ := h hp
  obtain ⟨hr, hRest⟩ := h' hq
  refine ⟨hr, fun ρ σ hN => hRest ρ σ ?_⟩
  rcases hN with hN | hN | hN
  · exact .inl (hFirst ρ σ (.inl hN))
  · exact .inl (hFirst ρ σ (.inr hN))
  · exact .inr hN

/-- What is asked may also be asked of a state that differs where the predicate is fixed. -/
theorem Carries.at (h : Carries sem X Y M N p q) (hN : ∀ ρ σ, N' ρ σ →
    ∃ ρ' σ', EnvEq Y ρ ρ' ∧ MemEq M σ σ' ∧ N ρ' σ') : Carries sem X Y M N' p q := by
  intro hp
  obtain ⟨hq, hHolds⟩ := h hp
  refine ⟨hq, fun ρ σ hAsked => ?_⟩
  rcases hAsked with hAsked | hAsked
  · exact hHolds ρ σ (.inl hAsked)
  · obtain ⟨ρ', σ', hρ, hσ, hAsked⟩ := hN ρ σ hAsked
    exact (hq ρ ρ' σ σ' hρ hσ).mpr (hHolds ρ' σ' (.inr hAsked))

theorem Carries.of_imp (h : Carries sem X Y M N p q) (hN : ∀ ρ σ, N' ρ σ → N ρ σ) :
    Carries sem X Y M N' p q :=
  h.at fun ρ σ hAsked => ⟨ρ, σ, .refl, .refl, hN ρ σ hAsked⟩

/-- A visit with a varying variable in scope. -/
theorem Carries.bind (h : Carries sem X (x :: Y) M N p q) : Carries sem (x :: X) Y M N p q := by
  intro hp
  obtain ⟨hq, hHolds⟩ := h (hp.mono fun y hy => by
    rcases List.mem_append.mp hy with hy | hy
    · exact List.mem_cons_of_mem x (List.mem_append_left Y hy)
    · rcases List.mem_cons.mp hy with rfl | hy
      · exact List.mem_cons_self
      · exact List.mem_cons_of_mem x (List.mem_append_right X hy))
  exact ⟨hq.mono (List.subset_cons_self x Y), hHolds⟩

/-- The predicate found before a let is true inside it as well. -/
theorem Fixed.holds_let (hp : Fixed sem (x :: X) M p) {ρ : Env} {σ : Memory} {i : Int}
    (h : Holds sem ρ σ p) : Holds sem (Function.update ρ x i) σ p :=
  (hp ρ _ σ σ (EnvEq.update List.mem_cons_self i) .refl).mp h

/-- A let around the predicate: either its name does not matter to the predicate, or its value
is fixed. -/
theorem Carries.wrap {guards V V' : List String}
    (hBody : ∀ Y', Away V' Y' guards → Carries sem X Y' M N p q) (hV : V ⊆ V')
    (hY : Away V Y (guards.filter (· ≠ x) ++ if x ∈ guards then freeVars v else []))
    (hValue : x ∈ V' ∨
      (x ∈ guards → (∀ y ∈ freeVars v, y ∉ V) ∧ ∀ g ∈ calls v, g ∉ M)) :
    Carries sem (x :: X) Y M (fun ρ σ => N (Function.update ρ x (eval sem ρ σ v)) σ) p
      (wrapLet x v q) := by
  intro hp
  have hHolds (q : Expr F) (hq : ∀ ρ σ, Holds sem ρ σ p ∨ N ρ σ → Holds sem ρ σ q) (ρ : Env)
      (σ : Memory) (h : Holds sem ρ σ p ∨ N (Function.update ρ x (eval sem ρ σ v)) σ) :
      Holds sem ρ σ (wrapLet x v q) :=
    holds_wrapLet.mpr (hq _ σ (h.imp_left hp.holds_let))
  by_cases hUsed : x ∈ V' ∨ x ∉ guards
  · obtain ⟨hq, hFound⟩ := hBody _ (hY.left.cons hV hUsed) (hp.mono fun y hy => by
      simp only [List.mem_append, List.mem_cons] at hy ⊢
      tauto)
    exact ⟨hq.let_unused, hHolds q hFound⟩
  · obtain ⟨hNot, hGuard⟩ := not_or.mp hUsed
    rw [not_not] at hGuard
    obtain ⟨hVars, hCalls⟩ := hValue.resolve_left hNot hGuard
    have hY' : Away V' (Y.filter (· ≠ x)) guards := by
      intro y hy
      obtain ⟨hy, hyx⟩ := List.mem_filter.mp hy
      refine (hY.left y hy).imp (@hV y) fun hOut hIn => hOut ?_
      exact List.mem_filter.mpr ⟨hIn, hyx⟩
    obtain ⟨hq, hFound⟩ := hBody _ hY' (hp.mono fun y hy => by
      simp only [List.mem_append, List.mem_cons, List.mem_filter] at hy ⊢
      tauto)
    refine ⟨hq.let_fixed (fun y hy hFree => ?_) hCalls, hHolds q hFound⟩
    refine (hY.right y hy).elim (hVars y hFree) fun hOut => hOut ?_
    rwa [if_pos hGuard]

end

variable [DecidableEq F]

/-- A conditional whose condition varies, or is fixed. -/
theorem carries_conditional {X Z W Y M : List String} {Nc Nt Nf : Env → Memory → Prop}
    {cond : Expr F} (old : Expr F) {true_case false_case c : Found F}
    (hCond : Carries sem X Y M Nc const_false c.predicate)
    (hTrue : Carries sem Z Y M Nt const_false true_case.predicate)
    (hFalse : Carries sem W Y M Nf const_false false_case.predicate)
    (hFixed : c.varies = true ∨ Fixed sem Y M cond) :
    Carries sem [] Y M
      (fun ρ σ => Nc ρ σ ∨ if eval sem ρ σ cond ≠ 0 then Nt ρ σ else Nf ρ σ) old
      (Found.conditional old cond true_case false_case c).predicate := by
  intro hOld
  obtain ⟨hc, hCond⟩ := hCond fixed_const_false
  obtain ⟨ht, hTrue⟩ := hTrue fixed_const_false
  obtain ⟨hf, hFalse⟩ := hFalse fixed_const_false
  rw [Found.conditional]
  by_cases hVaries : c.varies = true
  · simp only [hVaries, if_true]
    refine ⟨(hc.or hOld).or (ht.or hf), fun ρ σ h => ?_⟩
    rw [holds_make_or, holds_make_or, holds_make_or]
    rcases h with h | h | h
    · exact .inl (.inr h)
    · exact .inl (.inl (hCond ρ σ (.inr h)))
    · split at h
      · exact .inr (.inl (hTrue ρ σ (.inr h)))
      · exact .inr (.inr (hFalse ρ σ (.inr h)))
  · simp only [hVaries, Bool.false_eq_true, if_false]
    refine ⟨(hc.or hOld).or ((hFixed.resolve_left hVaries).select ht hf), fun ρ σ h => ?_⟩
    rw [holds_make_or, holds_make_or, holds_make_select]
    rcases h with h | h | h
    · exact .inl (.inr h)
    · exact .inl (.inl (hCond ρ σ (.inr h)))
    · split at h
      · rename_i hTaken
        exact .inr (.inl ⟨hTaken, hTrue ρ σ (.inr h)⟩)
      · rename_i hTaken
        exact .inr (.inr ⟨hTaken, hFalse ρ σ (.inr h)⟩)

/-! ### What a visit notices -/

mutual

/-- A visit notices that an expression varies, and never forgets it. -/
theorem find_varies : ∀ {c : Scopes} (e : Expr F) (s : Found F),
    s.varies = true ∨ variesIn c.varying c.in_pipeline e → (find c e s).varies = true
  | c, .imm v, s, h => h.resolve_right not_namesVary_nil
  | c, .var x, s, h => by
    rw [find, Bool.or_eq_true, decide_eq_true_iff]
    refine h.imp_right ?_
    rintro (⟨y, hy, hm⟩ | ⟨g, hg, _⟩)
    · exact List.mem_singleton.mp hy ▸ hm
    · exact absurd hg List.not_mem_nil
  | c, .op f args, s, h => by
    rw [find]
    exact findArgs_varies args s h
  | c, .not a, s, h => by
    rw [find]
    exact find_varies a s h
  | c, .and a b, s, h => by
    rw [variesIn, freeVars, calls, namesVary_append, ← or_assoc] at h
    rw [find]
    exact find_varies b _ (h.imp_left (find_varies a s))
  | c, .or a b, s, h => by
    rw [variesIn, freeVars, calls, namesVary_append, ← or_assoc] at h
    rw [find]
    exact find_varies b _ (h.imp_left (find_varies a s))
  | c, .select e t f, s, h => by
    rw [variesIn, freeVars, calls, namesVary_append, namesVary_append] at h
    rw [find]
    split
    · rw [Found.conditional, Bool.or_eq_true]
      rcases h with h | (h | h) | h
      · exact .inr (find_varies f _ (.inl (find_varies t _ (.inl h))))
      · exact .inl (find_varies e _ (.inr h))
      · exact .inr (find_varies f _ (.inl (find_varies t _ (.inr h))))
      · exact .inr (find_varies f _ (.inr h))
    · rcases h with h | (h | h) | h
      · exact find_varies f _ (.inl (find_varies t _ (.inl (find_varies e s (.inl h)))))
      · exact find_varies f _ (.inl (find_varies t _ (.inl (find_varies e s (.inr h)))))
      · exact find_varies f _ (.inl (find_varies t _ (.inr h)))
      · exact find_varies f _ (.inr h)
  | c, .letIn x v b, s, h => by
    rw [variesIn, freeVars, calls, namesVary_append] at h
    rw [find]
    refine find_varies b _ ?_
    rw [Bool.or_eq_true, pushVarying_pipeline]
    rcases h with h | h | h
    · exact .inl (.inr h)
    · exact .inl (.inl (find_varies v _ (.inr h)))
    · refine .inr (NamesVary.mono ?_ (subset_pushVarying c _ x))
      exact h.imp_left fun ⟨y, hy, hm⟩ => ⟨y, (List.mem_filter.mp hy).1, hm⟩
  | c, .call g args i, s, h => by
    have hArgs : (findArgs c args { s with varies := s.varies || g ∈ c.in_pipeline }).varies =
        true := by
      refine findArgs_varies args _ ?_
      rw [Bool.or_eq_true, decide_eq_true_iff]
      rcases h with h | ⟨x, hx, hm⟩ | ⟨g', hg, hm⟩
      · exact .inl (.inl h)
      · exact .inr (.inl ⟨x, hx, hm⟩)
      · rcases List.mem_cons.mp hg with rfl | hg
        · exact .inl (.inr hm)
        · exact .inr (.inr ⟨g', hg, hm⟩)
    rw [find]
    split <;> exact hArgs

theorem findArgs_varies : ∀ {c : Scopes} (es : Exprs F) (s : Found F),
    s.varies = true ∨ NamesVary c.varying c.in_pipeline (freeVarsArgs es) (callsArgs es) →
      (findArgs c es s).varies = true
  | c, .nil, s, h => h.resolve_right not_namesVary_nil
  | c, .cons e rest, s, h => by
    rw [freeVarsArgs, callsArgs, namesVary_append, ← or_assoc] at h
    rw [findArgs]
    exact findArgs_varies rest _ (h.imp_left (find_varies e s))

end

/-! ### Expressions -/

/-- A condition that is quiet either is seen to vary or is fixed. -/
theorem Quiet.varies_or_fixed {V M Y : List String} {c : Scopes} {e : Expr F} {s : Found F}
    (h : Quiet V c.in_pipeline M e) (hV : V ⊆ c.varying) (hY : Away c.varying Y (freeVars e)) :
    (find c e s).varies = true ∨ Fixed sem Y M e := by
  by_cases hVaries : variesIn c.varying c.in_pipeline e
  · exact .inl (find_varies e s (.inr hVaries))
  · refine .inr (fixed_of_names (fun y hy hFree => ?_) ?_)
    · exact (hY y hy).elim (fun hm => hVaries (.inl ⟨y, hFree, hm⟩)) fun hOut => hOut hFree
    · exact h.resolve_left fun hv => hVaries (hv.mono hV)

/-- The same for the value of a let, whose name is pushed when it varies. -/
theorem Quiet.pushed_or_fixed {V M guards : List String} {c : Scopes} {v : Expr F} {s : Found F}
    {x : String} (h : x ∈ guards → Quiet V c.in_pipeline M v) (hV : V ⊆ c.varying) :
    x ∈ (c.pushVarying (find c v s).varies x).varying ∨
      (x ∈ guards → (∀ y ∈ freeVars v, y ∉ c.varying) ∧ ∀ g ∈ calls v, g ∉ M) := by
  by_cases hVaries : (find c v s).varies = true
  · rw [hVaries]
    exact .inl List.mem_cons_self
  · refine .inr fun hx => ⟨fun y hy hm => ?_, ?_⟩
    · exact hVaries (find_varies v s (.inr (.inl ⟨y, hy, hm⟩)))
    · exact (h hx).resolve_left fun hv => hVaries (find_varies v s (.inr (hv.mono hV)))

theorem subset_pushed {V : List String} {c : Scopes} {v : Expr F} {s : Found F} {x : String}
    (hV : V ⊆ c.varying) : (if variesIn V c.in_pipeline v then x :: V else V) ⊆
      (c.pushVarying (find c v s).varies x).varying := by
  split
  · rename_i hv
    rw [find_varies v s (.inr (hv.mono hV))]
    exact List.cons_subset_cons x hV
  · exact List.Subset.trans hV (subset_pushVarying c _ x)

variable (sem)

mutual

theorem find_carries {M : List String} : ∀ {c : Scopes} {V Y : List String} (e : Expr F)
    (s : Found F), V ⊆ c.varying → guardsQuiet c.treat_selects_as_guards c.in_pipeline M V e →
    Scoped c.treat_selects_as_guards e →
    Away c.varying Y (guardVars c.treat_selects_as_guards e) →
    Carries sem (lets c.treat_selects_as_guards e) Y M
      (fun ρ σ => needs sem c.buffer c.treat_selects_as_guards c.in_produce ρ σ e) s.predicate
      (find c e s).predicate
  | c, V, Y, .imm v, s, hV, hQuiet, hScoped, hY => .refl
  | c, V, Y, .var x, s, hV, hQuiet, hScoped, hY => .refl
  | c, V, Y, .op f args, s, hV, hQuiet, hScoped, hY => by
    rw [find]
    exact findArgs_carries args s hV hQuiet hScoped hY
  | c, V, Y, .not a, s, hV, hQuiet, hScoped, hY => by
    rw [find]
    exact find_carries a s hV hQuiet hScoped hY
  | c, V, Y, .and a b, s, hV, hQuiet, hScoped, hY => by
    obtain ⟨hA, hB, hApart⟩ := hScoped
    rw [find]
    exact (find_carries a s hV hQuiet.1 hA (hY.left.before hApart)).seq
      (find_carries b _ hV hQuiet.2 hB hY.right)
  | c, V, Y, .or a b, s, hV, hQuiet, hScoped, hY => by
    obtain ⟨hA, hB, hApart⟩ := hScoped
    rw [find]
    exact (find_carries a s hV hQuiet.1 hA (hY.left.before hApart)).seq
      (find_carries b _ hV hQuiet.2 hB hY.right)
  | c, V, Y, .select e t f, s, hV, hQuiet, hScoped, hY => by
    obtain ⟨hGuard, hE, hT, hF⟩ := hQuiet
    obtain ⟨hScopedE, hScopedT, hScopedF, hApart⟩ := hScoped
    have hYE := hY.left.left.right
    have hYT := hY.left.right
    have hYF := hY.right
    rw [find]
    cases hLazy : c.treat_selects_as_guards with
    | true =>
      have hFixed : (find c e ⟨const_false, false⟩).varies = true ∨ Fixed sem Y M e :=
        (hGuard hLazy).varies_or_fixed hV (by simpa [hLazy] using hY.left.left.left)
      have hFound := carries_conditional s.predicate
        (find_carries e ⟨const_false, false⟩ hV hE hScopedE hYE)
        (find_carries t ⟨const_false, s.varies⟩ hV hT hScopedT hYT)
        (find_carries f ⟨const_false, (find c t ⟨const_false, s.varies⟩).varies⟩ hV hF hScopedF hYF)
        hFixed
      rw [hLazy] at hFound
      simpa [needs, lets] using hFound
    | false =>
      obtain ⟨hApartE, hApartT⟩ := hApart hLazy
      have hFound := (find_carries e s hV hE hScopedE (hYE.before hApartE)).seq
        ((find_carries t (find c e s) hV hT hScopedT (hYT.before hApartT)).seq
          (find_carries f (find c t (find c e s)) hV hF hScopedF hYF))
      rw [hLazy] at hFound
      simpa [needs, lets] using hFound
  | c, V, Y, .letIn x v b, s, hV, hQuiet, hScoped, hY => by
    obtain ⟨hGuard, hQuietV, hQuietB⟩ := hQuiet
    obtain ⟨hScopedV, hScopedB, hApart⟩ := hScoped
    rw [guardVars, List.append_assoc] at hY
    rw [find]
    have hValue := find_carries v ⟨s.predicate, false⟩ hV hQuietV hScopedV (hY.left.before hApart)
    have hBody (Y' : List String)
        (hY' : Away (c.pushVarying (find c v ⟨s.predicate, false⟩).varies x).varying Y'
          (guardVars c.treat_selects_as_guards b)) :=
      find_carries b ⟨(find c v ⟨s.predicate, false⟩).predicate,
          (find c v ⟨s.predicate, false⟩).varies || s.varies⟩
        (subset_pushed (x := x) (s := ⟨s.predicate, false⟩) hV)
        (by simpa using hQuietB) (by simpa using hScopedB) (by simpa using hY')
    simp only [pushVarying_selects, pushVarying_buffer, pushVarying_produce] at hBody
    exact hValue.seq (Carries.wrap hBody (subset_pushVarying c _ x) hY.right
      (Quiet.pushed_or_fixed hGuard hV))
  | c, V, Y, .call g args i, s, hV, hQuiet, hScoped, hY => by
    have hArgs := findArgs_carries args { s with varies := s.varies || g ∈ c.in_pipeline }
      hV hQuiet hScoped hY
    rw [find]
    split
    · exact carries_const_true
    · rename_i hOther
      refine hArgs.of_imp fun ρ σ hNeeds => hNeeds.resolve_right ?_
      rintro ⟨hOutside, rfl⟩
      exact hOther (by simp [hOutside])

theorem findArgs_carries {M : List String} : ∀ {c : Scopes} {V Y : List String} (es : Exprs F)
    (s : Found F), V ⊆ c.varying →
    guardsQuietArgs c.treat_selects_as_guards c.in_pipeline M V es →
    ScopedArgs c.treat_selects_as_guards es →
    Away c.varying Y (guardVarsArgs c.treat_selects_as_guards es) →
    Carries sem (letsArgs c.treat_selects_as_guards es) Y M
      (fun ρ σ => needsArgs sem c.buffer c.treat_selects_as_guards c.in_produce ρ σ es) s.predicate
      (findArgs c es s).predicate
  | c, V, Y, .nil, s, hV, hQuiet, hScoped, hY => .refl
  | c, V, Y, .cons e rest, s, hV, hQuiet, hScoped, hY => by
    obtain ⟨hE, hRest, hApart⟩ := hScoped
    rw [findArgs]
    exact (find_carries e s hV hQuiet.1 hE (hY.left.before hApart)).seq
      (findArgs_carries rest _ hV hQuiet.2 hRest hY.right)

end

end Vyasa.SkipStages

/-! The predicate found in the body of a realization, for its runs. -/
namespace Vyasa.SkipStages

variable {F : Type} {sem : F → List Int → Int} {junk : Memory}

/-! ### What a run leaves unchanged -/

theorem iterate_memEq {M : List String} {step : Int → Memory → Memory} {min : Int} {n : Nat}
    {σ : Memory} (hStep : ∀ k < n, MemEq M (iterate step min k σ)
      (step (min + k) (iterate step min k σ))) : MemEq M σ (iterate step min n σ) := by
  induction n with
  | zero => exact .refl
  | succ n ih =>
    exact (ih fun k hk => hStep k (Nat.lt_succ_of_lt hk)).trans
      (hStep n (Nat.lt_succ_self n))

/-- What a realization hides is there again after it. -/
theorem MemEq.realize {M : List String} {name : String} {σ σ' : Memory}
    {fresh : Nat → List Int → Int} (h : MemEq (name :: M) (Function.update σ name fresh) σ') :
    MemEq M σ (Function.update σ' name (σ name)) := by
  intro g hg
  by_cases hName : g = name
  · rw [hName, Function.update_self]
  · have hSame := h g (by simp [hName, hg])
    rw [Function.update_of_ne hName] at hSame
    rw [Function.update_of_ne hName, hSame]

theorem exec_memEq (s : Stmt F) (ρ : Env) (σ : Memory) :
    MemEq s.provided σ (exec sem junk ρ s σ) := by
  induction s generalizing ρ σ with
  | undefined => exact .refl
  | Provide name values args => exact .update List.mem_cons_self _
  | Realize name bounds condition body ih =>
    rw [exec]
    exact ((ih ρ _).mono (List.subset_cons_self _ _)).realize
  | ProducerConsumer name is_producer body ih => exact ih ρ σ
  | For name vectorized min extent body ih => exact iterate_memEq fun k _ => ih _ _
  | LetStmt name value body ih => exact ih _ σ
  | IfThenElse condition then_case else_case ihThen ihElse =>
    rw [exec]
    split
    · exact (ihThen ρ σ).mono (List.subset_append_left _ _)
    · exact (ihElse ρ σ).mono (List.subset_append_right _ _)
  | Block first rest ihFirst ihRest =>
    exact ((ihFirst ρ σ).mono (List.subset_append_left _ _)).trans
      ((ihRest ρ _).mono (List.subset_append_right _ _))

theorem Stmt.provided_subset_modified (s : Stmt F) : s.provided ⊆ s.modified := by
  induction s with
  | undefined | Provide => exact List.Subset.refl _
  | Realize name bounds condition body ih => exact List.Subset.trans ih (List.subset_cons_self _ _)
  | ProducerConsumer name is_producer body ih => exact ih
  | For name vectorized min extent body ih => exact ih
  | LetStmt name value body ih => exact ih
  | IfThenElse condition then_case else_case ihThen ihElse =>
    exact List.append_subset.mpr ⟨List.subset_append_of_subset_left _ ihThen,
      List.subset_append_of_subset_right _ ihElse⟩
  | Block first rest ihFirst ihRest =>
    exact List.append_subset.mpr ⟨List.subset_append_of_subset_left _ ihFirst,
      List.subset_append_of_subset_right _ ihRest⟩

theorem exec_memEq_of_subset {M : List String} {s : Stmt F} (hM : s.modified ⊆ M) (ρ : Env)
    (σ : Memory) : MemEq M σ (exec sem junk ρ s σ) :=
  (exec_memEq s ρ σ).mono (List.Subset.trans s.provided_subset_modified hM)

/-! ### Statements -/

theorem one_of_is_one {e : Expr F} (h : is_one e = true) (ρ : Env) (σ : Memory) :
    eval sem ρ σ e = 1 := by
  cases e <;> simp_all [is_one, eval]

variable [DecidableEq F]

variable (sem junk)

theorem findStmt_carries {M : List String} (s : Stmt F) (hM : s.modified ⊆ M) {c : Scopes}
    {V Y L : List String} (found : Found F) (hV : V ⊆ c.varying)
    (hQuiet : guardsQuietStmt c.buffer c.treat_selects_as_guards M V c.in_pipeline L s)
    (hScoped : s.Scoped c.treat_selects_as_guards)
    (hY : Away c.varying Y (s.guardVars c.treat_selects_as_guards)) :
    Carries sem (s.lets c.treat_selects_as_guards) Y M
      (fun ρ σ => needsStmt sem junk c.buffer c.treat_selects_as_guards c.in_produce
        c.local_buffers ρ s σ) found.predicate (findStmt c s found).predicate := by
  induction s generalizing c V Y L found with
  | undefined => exact .refl
  | Provide name values args =>
    obtain ⟨hScopedValues, hScopedArgs, hApart⟩ := hScoped
    have hFound := (findArgs_carries sem values found hV hQuiet.1 hScopedValues
      (hY.left.before hApart)).seq (findArgs_carries sem args _ hV hQuiet.2 hScopedArgs hY.right)
    rw [findStmt]
    split
    · exact carries_const_true
    · rename_i hOther
      refine hFound.of_imp fun ρ σ hNeeds => ?_
      rcases hNeeds with h | h | ⟨hIn, hName, hLocal⟩
      · exact .inl h
      · exact .inr h
      · exact absurd (by simp [hIn, hName, hLocal]) hOther
  | Realize name bounds condition body ih =>
    obtain ⟨hQuietBounds, hQuietCond, hQuietBody⟩ := hQuiet
    obtain ⟨hScopedBounds, hScopedCond, hScopedBody, hApartBounds, hApartCond⟩ := hScoped
    rw [Stmt.guardVars, List.append_assoc] at hY
    obtain ⟨hName, hM⟩ := List.cons_subset.mp hM
    let c' := { c with local_buffers := name :: c.local_buffers }
    have hFoundBounds := findArgs_carries sem (c := c') bounds found hV hQuietBounds
      hScopedBounds (hY.left.before hApartBounds)
    have hFoundCond := find_carries sem (c := c') condition (findArgs c' bounds found) hV
      hQuietCond hScopedCond (hY.right.left.before hApartCond)
    have hFoundBody := ih hM (c := c') (find c' condition (findArgs c' bounds found)) hV hQuietBody
      hScopedBody hY.right.right
    rw [findStmt]
    exact hFoundBounds.seq (hFoundCond.seq (hFoundBody.at fun ρ σ h =>
      ⟨ρ, _, .refl, .update hName _, h⟩))
  | ProducerConsumer name is_producer body ih =>
    rw [findStmt]
    exact ih hM (c := { c with
        in_pipeline := name :: c.in_pipeline
        in_produce := c.in_produce || (is_producer && name = c.buffer) }) found hV hQuiet.2 hScoped hY
  | For name vectorized min extent body ih =>
    obtain ⟨hGuard, hQuietMin, hQuietExtent, hQuietBody⟩ := hQuiet
    obtain ⟨hScopedMin, hScopedExtent, hScopedBody, hApartMin, hApartExtent⟩ := hScoped
    let minFound := find c min found
    let extentFound := find c extent minFound
    have hFoundMin := find_carries sem min found hV hQuietMin hScopedMin
      (hY.left.left.before hApartMin)
    have hFoundExtent := find_carries sem extent minFound hV hQuietExtent hScopedExtent
      (hY.left.right.before hApartExtent)
    rw [Stmt.guardVars] at hY
    rw [findStmt]
    cases hPop : !is_one extent || minFound.varies with
    | true =>
      have hSub : (if is_one extent = true ∧ ¬ variesIn V c.in_pipeline min then V
          else name :: V) ⊆ (c.pushVarying true name).varying := by
        split
        · exact List.Subset.trans hV (subset_pushVarying c true name)
        · exact List.cons_subset_cons name hV
      have hFoundBody := ih hM (c := c.pushVarying true name) extentFound hSub hQuietBody
        hScopedBody (hY.right.left.cons (subset_pushVarying c true name)
          (.inl List.mem_cons_self))
      refine hFoundMin.seq (hFoundExtent.seq (Carries.bind (hFoundBody.at ?_)))
      rintro ρ σ ⟨k, _, h⟩
      have hBody : body.modified ⊆ M := hM
      exact ⟨_, _, .update List.mem_cons_self _,
        iterate_memEq fun _ _ => exec_memEq_of_subset hBody _ _, h⟩
    | false =>
      obtain ⟨hOne, hMin⟩ := Bool.or_eq_false_iff.mp hPop
      rw [Bool.not_eq_false'] at hOne
      have hFixed := Quiet.pushed_or_fixed (s := found) hGuard hV
      rw [hMin] at hFixed
      have hNot : ¬ variesIn V c.in_pipeline min := fun h =>
        absurd (find_varies min found (.inr (h.mono hV))) (by simpa using hMin)
      rw [if_pos ⟨hOne, hNot⟩] at hQuietBody
      have hFoundBody (Y' : List String)
          (hY' : Away c.varying Y' (body.guardVars c.treat_selects_as_guards)) :=
        ih hM extentFound hV hQuietBody hScopedBody hY'
      have hWrapped := Carries.wrap hFoundBody (List.Subset.refl _) hY.right hFixed
      refine hFoundMin.seq (hFoundExtent.seq (hWrapped.of_imp ?_))
      rintro ρ σ ⟨k, hk, h⟩
      rw [one_of_is_one hOne, Int.toNat_one, Nat.lt_one_iff] at hk
      subst hk
      simpa [iterate] using h
  | LetStmt name value body ih =>
    obtain ⟨hGuard, hQuietValue, hQuietBody⟩ := hQuiet
    obtain ⟨hScopedValue, hScopedBody, hApart⟩ := hScoped
    have hFoundValue := find_carries sem value ⟨found.predicate, false⟩ hV hQuietValue
      hScopedValue (hY.left.before hApart)
    have hFoundBody (Y' : List String)
        (hY' : Away (c.pushVarying (find c value ⟨found.predicate, false⟩).varies name).varying Y'
          (body.guardVars c.treat_selects_as_guards)) :=
      ih hM ⟨(find c value ⟨found.predicate, false⟩).predicate,
          (find c value ⟨found.predicate, false⟩).varies || found.varies⟩
        (subset_pushed (x := name) (s := ⟨found.predicate, false⟩) hV)
        (by simpa using hQuietBody) (by simpa using hScopedBody) (by simpa using hY')
    simp only [pushVarying_selects, pushVarying_buffer, pushVarying_produce,
      pushVarying_locals] at hFoundBody
    rw [findStmt]
    exact hFoundValue.seq (Carries.wrap hFoundBody (subset_pushVarying c _ name) hY.right
      (Quiet.pushed_or_fixed hGuard hV))
  | IfThenElse condition then_case else_case ihThen ihElse =>
    obtain ⟨hGuard, hQuietCond, hQuietThen, hQuietElse⟩ := hQuiet
    obtain ⟨hScopedCond, hScopedThen, hScopedElse⟩ := hScoped
    let trueCase := findStmt c then_case ⟨const_false, found.varies⟩
    have hFoundCond := find_carries sem condition ⟨const_false, false⟩ hV hQuietCond
      hScopedCond hY.left.left.right
    have hFoundThen := ihThen (List.append_subset.mp hM).1
      ⟨const_false, found.varies⟩ hV hQuietThen hScopedThen hY.left.right
    have hFoundElse := ihElse (List.append_subset.mp hM).2
      ⟨const_false, trueCase.varies⟩ hV hQuietElse hScopedElse hY.right
    rw [findStmt]
    exact carries_conditional _ hFoundCond hFoundThen hFoundElse
      (hGuard.varies_or_fixed hV hY.left.left.left)
  | Block first rest ihFirst ihRest =>
    obtain ⟨hScopedFirst, hScopedRest, hApart⟩ := hScoped
    rw [findStmt]
    refine (ihFirst (List.append_subset.mp hM).1 found hV hQuiet.1 hScopedFirst
      (hY.left.before hApart)).seq ?_
    have hRest := ihRest (List.append_subset.mp hM).2 (findStmt c first found) hV
      hQuiet.2 hScopedRest hY.right
    exact hRest.at fun ρ σ h =>
      ⟨ρ, _, .refl, exec_memEq_of_subset (List.append_subset.mp hM).1 ρ σ, h⟩

/-- What is found for a function in the body of its realization. -/
theorem findPredicate_carries {func : String} {lazy : Bool} {M Y : List String} {body : Stmt F}
    (hM : body.modified ⊆ M) (hQuiet : guardsQuietStmt func lazy M [] [] [] body)
    (hScoped : body.Scoped lazy) (hY : Apart Y (body.guardVars lazy)) :
    Fixed sem Y M (findPredicate func lazy body) ∧
      ∀ ρ σ, needsStmt sem junk func lazy false [] ρ body σ →
        Holds sem ρ σ (findPredicate func lazy body) := by
  have hFound := findStmt_carries sem junk body hM (c := .start func lazy)
    ⟨const_false, false⟩ (List.Subset.refl _) hQuiet hScoped fun y hy => .inr (hY y hy)
  obtain ⟨hFixed, hHolds⟩ := hFound fixed_const_false
  exact ⟨hFixed, fun ρ σ h => hHolds ρ σ (.inr h)⟩

end Vyasa.SkipStages
