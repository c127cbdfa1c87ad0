import Vyasa.Schedule.Scope

/-! What a nest visits once the results of a directive are applied to it: what it
visited before, with the old variables defined by the new ones. -/
namespace Vyasa.Schedule

open Word IRMatch Vyasa.Expr

variable {pre : String} {all used used' dims dims' : List String} {ρ : Env} {nest : Nest}
  {n : Name} {d old outer inner : String} {factor e : Expr} {f b : Int}
  {buffers types : Name → IntType}

section Disjoint

theorem InScope.ne_loopVar (h : InScope pre all used dims n) (hAll : d ∈ all) (hd : d ∉ dims) :
    n ≠ loopVar pre d := by
  rcases h with ⟨k, hk, rfl⟩ | ⟨k, hk, rfl | rfl | rfl⟩ | hForeign
  · exact fun hEq => hd (loopVar_injective pre hEq ▸ hk)
  · simp [loopMin, loopVar]
  · simp [loopMax, loopVar]
  · simp [loopExtent, loopVar]
  · exact hForeign.ne hAll (by simp [loopNames])

theorem InScope.ne_baseName (h : InScope pre all used dims n) (hAll : d ∈ all) :
    n ≠ baseName pre d := by
  rcases h with ⟨k, hk, rfl⟩ | ⟨k, hk, rfl | rfl | rfl⟩ | hForeign
  · simp [baseName, loopVar]
  · simp [baseName, loopMin]
  · simp [baseName, loopMax]
  · simp [baseName, loopExtent]
  · exact hForeign.ne hAll (by simp [loopNames])

theorem InScope.ne_rebasedName (h : InScope pre all used dims n) (hAll : d ∈ all) :
    n ≠ rebasedName pre d := by
  rcases h with ⟨k, hk, rfl⟩ | ⟨k, hk, rfl | rfl | rfl⟩ | hForeign
  · simp [rebasedName, loopVar]
  · simp [rebasedName, loopMin]
  · simp [rebasedName, loopMax]
  · simp [rebasedName, loopExtent]
  · exact hForeign.ne hAll (by simp [loopNames])

theorem Hidden.ne_loopVar (h : Hidden pre all used dims n) (hAll : d ∈ all)
    (hd : d ∈ used → d ∈ dims) : n ≠ loopVar pre d := by
  rcases h with ⟨k, hk, hNot, rfl | rfl⟩ | ⟨k, hk, rfl⟩ | hForeign
  · intro hEq
    obtain rfl := loopVar_injective pre hEq
    exact hNot (hd hk)
  · simp [rebasedName, loopVar]
  · simp [baseName, loopVar]
  · exact hForeign.ne hAll (by simp [loopNames])

theorem Hidden.ne_baseName (h : Hidden pre all used dims n) (hAll : d ∈ all) (hd : d ∉ used) :
    n ≠ baseName pre d := by
  rcases h with ⟨k, hk, hNot, rfl | rfl⟩ | ⟨k, hk, rfl⟩ | hForeign
  · simp [baseName, loopVar]
  · simp [baseName, rebasedName]
  · simp only [baseName, ne_eq, Name.suffix.injEq, and_true]
    exact fun hEq => hd (loopVar_injective pre hEq ▸ hk)
  · exact hForeign.ne hAll (by simp [loopNames])

theorem Hidden.ne_rebasedName (h : Hidden pre all used dims n) (hAll : d ∈ all) (hd : d ∈ dims) :
    n ≠ rebasedName pre d := by
  rcases h with ⟨k, hk, hNot, rfl | rfl⟩ | ⟨k, hk, rfl⟩ | hForeign
  · simp [rebasedName, loopVar]
  · simp only [rebasedName, ne_eq, Name.suffix.injEq, and_true]
    intro hEq
    obtain rfl := loopVar_injective pre hEq
    exact hNot hd
  · simp [baseName, rebasedName]
  · exact hForeign.ne hAll (by simp [loopNames])

theorem Hidden.ne_bounds (h : Hidden pre all used dims n) (hAll : d ∈ all) :
    n ≠ loopMin pre d ∧ n ≠ loopMax pre d ∧ n ≠ loopExtent pre d := by
  rcases h with ⟨k, hk, hNot, rfl | rfl⟩ | ⟨k, hk, rfl⟩ | hForeign
  · simp [loopMin, loopMax, loopExtent, loopVar]
  · simp [loopMin, loopMax, loopExtent, rebasedName]
  · simp [loopMin, loopMax, loopExtent, baseName]
  · refine ⟨?_, ?_, ?_⟩ <;> exact hForeign.ne hAll (by simp [loopNames])

theorem Nest.Scoped.not_mentions (hNest : nest.Scoped pre all used dims [] buffers types)
    (h : ∀ k, InScope pre all used dims k → k ≠ n) : nest.mentions n = false := by
  rw [Bool.eq_false_iff]
  intro hn
  exact h n ((hNest.mentions n hn).resolve_left (List.not_mem_nil)) rfl

end Disjoint

/-- The names of all dimensions are variables of `Int(32)`. -/
def LoopTypes (pre : String) (all : List String) (types : Name → IntType) : Prop :=
  ∀ d ∈ all, ∀ n ∈ loopNames pre d, types n = .int32

section Split

/-- The value that `splitResults` defines the old variable with. -/
abbrev splitValue (pre inner : String) : Expr :=
  add (intVar (baseName pre inner)) (intVar (loopVar pre inner))

theorem splitValue_free (hInner : inner ∈ all) (hFresh : inner ∉ used)
    (hn : Hidden pre all used dims n) : (splitValue pre inner).mentions n = false := by
  have hBase := hn.ne_baseName hInner hFresh
  have hVar := hn.ne_loopVar hInner fun h => absurd h hFresh
  simp [hBase.symm, hVar.symm]

theorem visit_splitResults (hTypes : LoopTypes pre all types)
    (hNest : nest.Scoped pre all used dims [] buffers types) (hOld : old ∈ all)
    (hInner : inner ∈ all) (hFresh : inner ∉ used) (hNe : old ≠ inner) (hb : exact ρ e = some b) :
    Nest.visit ρ ((splitResults pre old inner e).foldl Nest.apply nest) =
      Nest.visit (ρ.set (loopVar pre old) (b + ρ.vars (loopVar pre inner))) nest := by
  have hValue : exact (ρ.set (baseName pre inner) b) (splitValue pre inner) =
      some (b + ρ.vars (loopVar pre inner)) := by
    refine exact_add rfl ?_ ?_
    · rw [exact_intVar, Env.set_vars_self]
    · rw [exact_intVar, Env.set_vars_of_ne (by simp [baseName, loopVar])]
  have hSelf : (splitValue pre inner).mentions (loopVar pre old) = false := by
    simpa [baseName, loopVar] using Ne.symm hNe
  have hUnread : nest.mentions (baseName pre inner) = false :=
    hNest.not_mentions fun k hk => hk.ne_baseName hInner
  simp only [splitResults, List.foldl_cons, List.foldl_nil, Nest.apply]
  rw [Nest.visit_letStmt hb, visit_define hNest.typed hValue
    (hTypes old hOld _ (by simp [loopNames])) hSelf
    fun n hn => splitValue_free hInner hFresh (hNest.binds n hn),
    Env.set_comm _ (by simp [baseName, loopVar]), Nest.visit_set hUnread]

theorem scoped_splitResults (hTypes : LoopTypes pre all types)
    (hNest : nest.Scoped pre all used dims [] buffers types)
    (hChange : Changes used dims used' dims' old) (hOld : old ∈ all) (hOldUsed : old ∈ used')
    (hGone : old ∉ dims') (hInner : inner ∈ all) (hFresh : inner ∉ used) (hUsed : inner ∈ used')
    (hDim : inner ∈ dims') (he : Inside pre all used' dims' [] buffers types e)
    (hType : e.type = .int32) :
    ((splitResults pre old inner e).foldl Nest.apply nest).Scoped pre all used' dims' [] buffers
      types := by
  have hValue : Inside pre all used' dims' [baseName pre inner] buffers types
      (splitValue pre inner) := by
    refine Inside.bin _ (Inside.intVar (hTypes inner hInner _ (by simp [loopNames])) ?_)
      (Inside.intVar (hTypes inner hInner _ (by simp [loopNames])) ?_) rfl (by simp)
    · exact Or.inl (List.mem_singleton_self _)
    · exact Or.inr (Or.inl ⟨inner, hDim, rfl⟩)
  have hOldType : types (loopVar pre old) = .int32 := hTypes old hOld _ (by simp [loopNames])
  have hSubst := hNest.substitute hChange (List.nil_subset _) hValue rfl hOldType
    fun n hn => splitValue_free hInner hFresh hn
  have hLet := (hSubst.weaken (List.subset_cons_self (loopVar pre old) _)).letStmt hValue hOldType
    (Or.inl ⟨old, hOldUsed, hGone, Or.inl rfl⟩)
  have hBaseType : types (baseName pre inner) = e.type :=
    (hTypes inner hInner _ (by simp [loopNames])).trans hType.symm
  exact hLet.letStmt he hBaseType (Or.inr (Or.inl ⟨inner, hUsed, rfl⟩))

end Split

section Guard

/-- The old variable in terms of the rebased one. -/
abbrev rebasedValue (pre old : String) : Expr :=
  add (intVar (rebasedName pre old)) (intVar (loopMin pre old))

abbrev rebased (pre outer inner : String) (factor : Expr) : Expr :=
  add (mul (intVar (loopVar pre outer)) factor) (intVar (loopVar pre inner))

/-- The nest behind the predicate of a split. -/
abbrev guardedNest (pre old outer inner : String) (factor : Expr) (nest : Nest) : Nest :=
  .letStmt (rebasedName pre old) (rebased pre outer inner factor)
    (.ifThen (.intrin .likely (lt (intVar (rebasedName pre old)) (intVar (loopExtent pre old))))
      (nest.substitute (loopVar pre old) (rebasedValue pre old)))

theorem guardResults_foldl :
    (guardResults pre old outer inner factor).foldl Nest.apply nest =
      guardedNest pre old outer inner factor nest := rfl

theorem rebasedValue_free (hAll : old ∈ all) (hDim : old ∈ dims)
    (hn : Hidden pre all used dims n) : (rebasedValue pre old).mentions n = false := by
  have hRebased := hn.ne_rebasedName hAll hDim
  have hMin := (hn.ne_bounds hAll).1
  simp [hRebased.symm, hMin.symm]

theorem visit_guardedNest (hTypes : LoopTypes pre all types)
    (hNest : nest.Scoped pre all used dims [] buffers types) (hOld : old ∈ all) (hDim : old ∈ dims)
    (hf : exact ρ factor = some f) :
    Nest.visit ρ (guardedNest pre old outer inner factor nest) =
      if ρ.vars (loopVar pre outer) * f + ρ.vars (loopVar pre inner) <
          ρ.vars (loopExtent pre old) then
        Nest.visit (ρ.set (loopVar pre old) (ρ.vars (loopVar pre outer) * f +
          ρ.vars (loopVar pre inner) + ρ.vars (loopMin pre old))) nest
      else some none := by
  have hRebased : exact ρ (rebased pre outer inner factor) =
      some (ρ.vars (loopVar pre outer) * f + ρ.vars (loopVar pre inner)) :=
    exact_add rfl (exact_mul rfl (exact_intVar ..) hf) (exact_intVar ..)
  set v := ρ.vars (loopVar pre outer) * f + ρ.vars (loopVar pre inner)
  have hCond : exact (ρ.set (rebasedName pre old) v)
      (.intrin .likely (lt (intVar (rebasedName pre old)) (intVar (loopExtent pre old)))) =
      some (evalCmp .lt v (ρ.vars (loopExtent pre old))) := by
    have hLeft : exact (ρ.set (rebasedName pre old) v) (intVar (rebasedName pre old)) = some v := by
      rw [exact_intVar, Env.set_vars_self]
    have hRight : exact (ρ.set (rebasedName pre old) v) (intVar (loopExtent pre old)) =
        some (ρ.vars (loopExtent pre old)) := by
      rw [exact_intVar, Env.set_vars_of_ne (by simp [rebasedName, loopExtent])]
    rw [exact, Expr.eval]
    exact eval_cmp hLeft hRight .lt
  have hValue : exact (ρ.set (rebasedName pre old) v) (rebasedValue pre old) =
      some (v + ρ.vars (loopMin pre old)) := by
    refine exact_add rfl ?_ ?_
    · rw [exact_intVar, Env.set_vars_self]
    · rw [exact_intVar, Env.set_vars_of_ne (by simp [rebasedName, loopMin])]
  have hUnread : nest.mentions (rebasedName pre old) = false :=
    hNest.not_mentions fun k hk => hk.ne_rebasedName hOld
  rw [Nest.visit_letStmt hRebased, Nest.visit_ifThen hCond,
    Nest.visit_substitute hValue hNest.typed (hTypes old hOld _ (by simp [loopNames]))
      fun n hn => rebasedValue_free hOld hDim (hNest.binds n hn),
    Env.set_comm _ (by simp [rebasedName, loopVar]), Nest.visit_set hUnread]
  by_cases hLess : v < ρ.vars (loopExtent pre old) <;> simp [evalCmp, hLess]

theorem scoped_guardedNest (hTypes : LoopTypes pre all types)
    (hNest : nest.Scoped pre all used dims [] buffers types)
    (hChange : Changes used dims used dims' old) (hOld : old ∈ all) (hOldUsed : old ∈ used)
    (hOldDim : old ∈ dims) (hGone : old ∉ dims') (hOuter : outer ∈ all) (hInner : inner ∈ all)
    (hOuterDim : outer ∈ dims') (hInnerDim : inner ∈ dims')
    (hFactor : Outside pre all buffers types factor) :
    (guardedNest pre old outer inner factor nest).Scoped pre all used dims' [] buffers types := by
  have hExtraVar {extra : List Name} (hMem : rebasedName pre old ∈ extra) :
      Inside pre all used dims' extra buffers types (intVar (rebasedName pre old)) :=
    Inside.intVar (hTypes old hOld _ (by simp [loopNames])) (Or.inl hMem)
  have hBound {extra : List Name} {k : Name}
      (hk : k = loopMin pre old ∨ k = loopMax pre old ∨ k = loopExtent pre old)
      (hMem : k ∈ loopNames pre old) :
      Inside pre all used dims' extra buffers types (intVar k) :=
    Inside.intVar (hTypes old hOld k hMem) (Or.inr (Or.inr (Or.inl ⟨old, hOldUsed, hk⟩)))
  have hVar {extra : List Name} {k : String} (hAll : k ∈ all) (hk : k ∈ dims') :
      Inside pre all used dims' extra buffers types (intVar (loopVar pre k)) :=
    Inside.intVar (hTypes k hAll _ (by simp [loopNames])) (Or.inr (Or.inl ⟨k, hk, rfl⟩))
  have hSubst := hNest.substitute hChange (List.nil_subset [rebasedName pre old])
    ((hExtraVar (List.mem_singleton_self _)).bin _ (hBound (Or.inl rfl) (by simp [loopNames])) rfl
      (by simp)) rfl (hTypes old hOld _ (by simp [loopNames]))
    fun n hn => rebasedValue_free hOld hOldDim hn
  have hIf := hSubst.ifThen (Inside.intrin .likely (Inside.cmp .lt
    (hExtraVar (List.mem_singleton_self _))
    (hBound (Or.inr (Or.inr rfl)) (by simp [loopNames])) rfl))
  refine hIf.letStmt (((hVar hOuter hOuterDim).bin _ hFactor.inside hFactor.type.symm
    (by simp)).bin _ (hVar hInner hInnerDim) rfl (by simp))
    (hTypes old hOld _ (by simp [loopNames])) ?_
  exact Or.inl ⟨old, hOldUsed, hGone, Or.inr rfl⟩

end Guard

section Fuse

theorem exact_factor {extent : Name} (h : 0 < ρ.vars extent) :
    exact ρ (max (intVar extent) (int 1)) = some (ρ.vars extent) := by
  rw [exact_max rfl (exact_intVar ..) (exact_int ..), max_eq_left (by omega)]

theorem exact_fusedInner (old : String) (h : 0 < ρ.vars (loopExtent pre inner)) :
    exact ρ (fusedInner pre old inner) =
      some (ρ.vars (loopVar pre old) % ρ.vars (loopExtent pre inner) +
        ρ.vars (loopMin pre inner)) :=
  exact_add rfl (exact_mod rfl (exact_intVar ..) (exact_factor h) h.ne') (exact_intVar ..)

theorem exact_fusedOuter (old outer : String) (h : 0 < ρ.vars (loopExtent pre inner)) :
    exact ρ (fusedOuter pre old outer inner) =
      some (ρ.vars (loopVar pre old) / ρ.vars (loopExtent pre inner) +
        ρ.vars (loopMin pre outer)) :=
  exact_add rfl (exact_div rfl (exact_intVar ..) (exact_factor h) h.ne') (exact_intVar ..)

theorem fusedInner_free (hOld : old ∈ all) (hInner : inner ∈ all) (hFresh : old ∈ used → old ∈ dims)
    (hn : Hidden pre all used dims n) : (fusedInner pre old inner).mentions n = false := by
  have hVar := hn.ne_loopVar hOld hFresh
  obtain ⟨hMin, -, hExtent⟩ := hn.ne_bounds hInner
  simp [fusedInner, hVar.symm, hMin.symm, hExtent.symm]

theorem fusedOuter_free (hOld : old ∈ all) (hInner : inner ∈ all) (hOuter : outer ∈ all)
    (hFresh : old ∈ used → old ∈ dims) (hn : Hidden pre all used dims n) :
    (fusedOuter pre old outer inner).mentions n = false := by
  have hVar := hn.ne_loopVar hOld hFresh
  have hMin := (hn.ne_bounds hOuter).1
  have hExtent := (hn.ne_bounds hInner).2.2
  simp [fusedOuter, hVar.symm, hMin.symm, hExtent.symm]

/-- The nest with the results of a fuse applied. -/
abbrev fusedNest (pre old outer inner : String) (nest : Nest) : Nest :=
  .letStmt (loopVar pre outer) (fusedOuter pre old outer inner)
    (.letStmt (loopVar pre inner) (fusedInner pre old inner)
      ((nest.substitute (loopVar pre inner) (fusedInner pre old inner)).substitute
        (loopVar pre outer) (fusedOuter pre old outer inner)))

theorem fusedInner_inside {extra : List Name} (hTypes : LoopTypes pre all types) (hOld : old ∈ all)
    (hInner : inner ∈ all) (hDim : old ∈ dims) (hUsed : inner ∈ used) :
    Inside pre all used dims extra buffers types (fusedInner pre old inner) := by
  have hBound {k : Name} (hk : k = loopMin pre inner ∨ k = loopMax pre inner ∨
      k = loopExtent pre inner) (hMem : k ∈ loopNames pre inner) :
      Inside pre all used dims extra buffers types (intVar k) :=
    Inside.intVar (hTypes inner hInner k hMem) (Or.inr (Or.inr (Or.inl ⟨inner, hUsed, hk⟩)))
  have hVar : Inside pre all used dims extra buffers types (intVar (loopVar pre old)) :=
    Inside.intVar (hTypes old hOld _ (by simp [loopNames])) (Or.inr (Or.inl ⟨old, hDim, rfl⟩))
  have hFactor := (hBound (Or.inr (Or.inr rfl)) (by simp [loopNames])).bin .max
    (Inside.int 1 (by decide)) rfl (by simp)
  exact (hVar.bin _ hFactor rfl (by simp)).bin _ (hBound (Or.inl rfl) (by simp [loopNames])) rfl
    (by simp)

theorem fusedOuter_inside {extra : List Name} (hTypes : LoopTypes pre all types) (hOld : old ∈ all)
    (hInner : inner ∈ all) (hOuter : outer ∈ all) (hDim : old ∈ dims) (hUsed : inner ∈ used)
    (hUsedOuter : outer ∈ used) :
    Inside pre all used dims extra buffers types (fusedOuter pre old outer inner) := by
  have hExtent : Inside pre all used dims extra buffers types (intVar (loopExtent pre inner)) :=
    Inside.intVar (hTypes inner hInner _ (by simp [loopNames]))
      (Or.inr (Or.inr (Or.inl ⟨inner, hUsed, Or.inr (Or.inr rfl)⟩)))
  have hMin : Inside pre all used dims extra buffers types (intVar (loopMin pre outer)) :=
    Inside.intVar (hTypes outer hOuter _ (by simp [loopNames]))
      (Or.inr (Or.inr (Or.inl ⟨outer, hUsedOuter, Or.inl rfl⟩)))
  have hVar : Inside pre all used dims extra buffers types (intVar (loopVar pre old)) :=
    Inside.intVar (hTypes old hOld _ (by simp [loopNames])) (Or.inr (Or.inl ⟨old, hDim, rfl⟩))
  have hFactor := hExtent.bin .max (Inside.int 1 (by decide)) rfl (by simp)
  exact (hVar.bin _ hFactor rfl (by simp)).bin _ hMin rfl (by simp)

section

variable (hTypes : LoopTypes pre all types)
  (hNest : nest.Scoped pre all used dims [] buffers types) (hOld : old ∈ all) (hFresh : old ∉ used)
  (hInner : inner ∈ all) (hOuter : outer ∈ all) (hNe : outer ≠ inner)
  (hUsedInner : inner ∈ used) (hUsedOuter : outer ∈ used)

include hTypes hNest hOld hFresh hInner hOuter hNe hUsedInner hUsedOuter

omit hOuter hNe hUsedOuter in
/-- The nest with the inner variable substituted. -/
theorem scoped_fuse_inner (hMid : Changes used dims (old :: used) (old :: outer :: dims') inner) :
    (nest.substitute (loopVar pre inner) (fusedInner pre old inner)).Scoped pre all (old :: used)
      (old :: outer :: dims') [] buffers types := by
  refine hNest.substitute hMid (List.Subset.refl _)
    (fusedInner_inside hTypes hOld hInner (by simp) (by simp [hUsedInner])) rfl
    (hTypes inner hInner _ (by simp [loopNames])) fun n hn => ?_
  exact fusedInner_free hOld hInner (fun h => absurd h hFresh) hn

theorem visit_fusedNest (hMid : Changes used dims (old :: used) (old :: outer :: dims') inner)
    (hExtent : 0 < ρ.vars (loopExtent pre inner)) :
    Nest.visit ρ (fusedNest pre old outer inner nest) =
      Nest.visit ((ρ.set (loopVar pre outer) (ρ.vars (loopVar pre old) /
        ρ.vars (loopExtent pre inner) + ρ.vars (loopMin pre outer))).set (loopVar pre inner)
        (ρ.vars (loopVar pre old) % ρ.vars (loopExtent pre inner) +
          ρ.vars (loopMin pre inner))) nest := by
  have hOuterValue := exact_fusedOuter old outer hExtent
  have hInnerValue := exact_fusedInner old hExtent
  set o := ρ.vars (loopVar pre old) / ρ.vars (loopExtent pre inner) + ρ.vars (loopMin pre outer)
  set i := ρ.vars (loopVar pre old) % ρ.vars (loopExtent pre inner) + ρ.vars (loopMin pre inner)
  have hFree {d : String} (hd : d ∈ used) :
      (fusedInner pre old inner).mentions (loopVar pre d) = false ∧
        (fusedOuter pre old outer inner).mentions (loopVar pre d) = false := by
    have hOldNe : old ≠ d := fun hEq => hFresh (hEq ▸ hd)
    simp [fusedInner, fusedOuter, hOldNe, loopExtent, loopMin, loopVar]
  have hVars : loopVar pre outer ≠ loopVar pre inner := fun h => hNe (loopVar_injective pre h)
  have hInnerValue' : exact (ρ.set (loopVar pre outer) o) (fusedInner pre old inner) = some i :=
    (eval_set (hFree hUsedOuter).1 o).trans hInnerValue
  set ρ' := (ρ.set (loopVar pre outer) o).set (loopVar pre inner) i with hEnv
  have hOuterAgain : exact ρ' (fusedOuter pre old outer inner) = some o :=
    (eval_set (hFree hUsedInner).2 i).trans ((eval_set (hFree hUsedOuter).2 o).trans hOuterValue)
  have hInnerAgain : exact ρ' (fusedInner pre old inner) = some i :=
    (eval_set (hFree hUsedInner).1 i).trans hInnerValue'
  have hSame : ρ'.set (loopVar pre outer) o = ρ' := by
    rw [hEnv, Env.set_comm _ hVars.symm, Env.set_set]
  have hSame' : ρ'.set (loopVar pre inner) i = ρ' := by rw [hEnv, Env.set_set]
  have hMidScoped := scoped_fuse_inner hTypes hNest hOld hFresh hInner hUsedInner hMid
  rw [Nest.visit_letStmt hOuterValue, Nest.visit_letStmt hInnerValue',
    Nest.visit_substitute hOuterAgain hMidScoped.typed
      (hTypes outer hOuter _ (by simp [loopNames]))
      fun n hn => fusedOuter_free hOld hInner hOuter (by simp) (hMidScoped.binds n hn),
    hSame, Nest.visit_substitute hInnerAgain hNest.typed
      (hTypes inner hInner _ (by simp [loopNames]))
      fun n hn => fusedInner_free hOld hInner (fun h => absurd h hFresh) (hNest.binds n hn), hSame']

omit hNe in
theorem scoped_fusedNest (hMid : Changes used dims (old :: used) (old :: outer :: dims') inner)
    (hChange : Changes (old :: used) (old :: outer :: dims') (old :: used) (old :: dims') outer)
    (hOuterGone : outer ∉ old :: dims') (hInnerGone : inner ∉ old :: dims') :
    (fusedNest pre old outer inner nest).Scoped pre all (old :: used) (old :: dims') [] buffers
      types := by
  have hMidScoped := scoped_fuse_inner hTypes hNest hOld hFresh hInner hUsedInner hMid
  have hOuterType : types (loopVar pre outer) = .int32 := hTypes outer hOuter _ (by simp [loopNames])
  have hInnerType : types (loopVar pre inner) = .int32 := hTypes inner hInner _ (by simp [loopNames])
  have hSubst := hMidScoped.substitute hChange (List.Subset.refl _)
    (fusedOuter_inside hTypes hOld hInner hOuter (by simp) (by simp [hUsedInner])
      (by simp [hUsedOuter])) rfl
    hOuterType fun n hn => fusedOuter_free hOld hInner hOuter (by simp) hn
  have hLet := (hSubst.weaken (List.nil_subset [loopVar pre inner, loopVar pre outer])).letStmt
    (fusedInner_inside hTypes hOld hInner (by simp) (by simp [hUsedInner])) hInnerType
    (Or.inl ⟨inner, by simp [hUsedInner], hInnerGone, Or.inl rfl⟩)
  exact hLet.letStmt (fusedOuter_inside hTypes hOld hInner hOuter (by simp) (by simp [hUsedInner])
    (by simp [hUsedOuter])) hOuterType (Or.inl ⟨outer, by simp [hUsedOuter], hOuterGone, Or.inl rfl⟩)

end

end Fuse

section Rename

/-- The nest with the results of a rename applied. -/
abbrev renamedNest (pre old outer : String) (nest : Nest) : Nest :=
  .letStmt (loopVar pre old) (intVar (loopVar pre outer))
    (nest.substitute (loopVar pre old) (intVar (loopVar pre outer)))

theorem rename_free (hOuter : outer ∈ all) (hFresh : outer ∉ used)
    (hn : Hidden pre all used dims n) : (intVar (loopVar pre outer)).mentions n = false := by
  have hVar := hn.ne_loopVar hOuter fun h => absurd h hFresh
  simp [hVar.symm]

theorem visit_renamedNest (hTypes : LoopTypes pre all types)
    (hNest : nest.Scoped pre all used dims [] buffers types) (hOld : old ∈ all)
    (hOuter : outer ∈ all) (hFresh : outer ∉ used) (hNe : old ≠ outer) :
    Nest.visit ρ (renamedNest pre old outer nest) =
      Nest.visit (ρ.set (loopVar pre old) (ρ.vars (loopVar pre outer))) nest := by
  refine visit_define hNest.typed (exact_intVar ..) (hTypes old hOld _ (by simp [loopNames])) ?_
    fun n hn => rename_free hOuter hFresh (hNest.binds n hn)
  simpa [loopVar] using Ne.symm hNe

theorem scoped_renamedNest (hTypes : LoopTypes pre all types)
    (hNest : nest.Scoped pre all used dims [] buffers types)
    (hChange : Changes used dims used' dims' old) (hOld : old ∈ all) (hOldUsed : old ∈ used')
    (hGone : old ∉ dims') (hOuter : outer ∈ all) (hFresh : outer ∉ used) (hDim : outer ∈ dims') :
    (renamedNest pre old outer nest).Scoped pre all used' dims' [] buffers types := by
  have hValue {extra : List Name} :
      Inside pre all used' dims' extra buffers types (intVar (loopVar pre outer)) :=
    Inside.intVar (hTypes outer hOuter _ (by simp [loopNames])) (Or.inr (Or.inl ⟨outer, hDim, rfl⟩))
  have hOldType : types (loopVar pre old) = .int32 := hTypes old hOld _ (by simp [loopNames])
  have hSubst := hNest.substitute hChange (List.Subset.refl _) hValue rfl hOldType
    fun n hn => rename_free hOuter hFresh hn
  exact (hSubst.weaken (List.nil_subset _)).letStmt hValue hOldType
    (Or.inl ⟨old, hOldUsed, hGone, Or.inl rfl⟩)

end Rename

end Vyasa.Schedule
