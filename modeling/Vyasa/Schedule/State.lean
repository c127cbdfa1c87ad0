import Vyasa.Schedule.Step

/-! The state between two directives of a schedule, its invariant, and the step of
each kind of directive. -/
namespace Vyasa.Schedule

open Word IRMatch Vyasa.Expr Euclid

/-- The bounds bound so far, the dimensions there were and are, what is known
about their extents, and the nest. -/
structure State where
  env : Env
  used : List String
  dims : List String
  alignment : ExtentAlignment
  nest : Nest

/-- The dimensions that a directive makes. -/
def Split.created : Split → List String
  | .split _ outer inner _ _ => [inner, outer]
  | .fuse oldVar _ _ => [oldVar]
  | .rename _ outer => [outer]

namespace State

def step (simplify : Expr → Expr) (pre : String) (σ : State) (s : Split) : Option State := do
  let (results, alignment) ← applySplit simplify pre σ.alignment s
  let env ← bindBounds σ.env (computeLoopBoundsAfterSplit pre s).reverse
  return { env, used := s.created ++ σ.used, dims := s.dims σ.dims, alignment,
           nest := results.foldl Nest.apply σ.nest }

def run (simplify : Expr → Expr) (pre : String) (σ : State) (splits : List Split) : Option State :=
  splits.foldlM (step simplify pre) σ

/-- What the loops over the dimensions visit. -/
def visits (pre : String) (σ : State) : List (Option (Option Int)) :=
  Schedule.visits pre σ.dims σ.env σ.nest

end State

variable {pre : String} {all : List String} {σ σ' : State} {s : Split} {splits : List Split}
  {simplify : Expr → Expr} {buffers types : Name → IntType} {d old outer inner : String}
  {factor e : Expr} {tail : TailStrategy}

theorem State.step_eq_some (h : σ.step simplify pre s = some σ') :
    ∃ results, applySplit simplify pre σ.alignment s = some (results, σ'.alignment) ∧
      bindBounds σ.env (computeLoopBoundsAfterSplit pre s).reverse = some σ'.env ∧
      σ'.used = s.created ++ σ.used ∧ σ'.dims = s.dims σ.dims ∧
      σ'.nest = results.foldl Nest.apply σ.nest := by
  simp only [State.step, Option.bind_eq_bind, Option.bind_eq_some_iff, Option.pure_def,
    Option.some.injEq] at h
  obtain ⟨⟨results, alignment⟩, hResults, env, hEnv, rfl⟩ := h
  exact ⟨results, hResults, hEnv, rfl, rfl, rfl⟩

/-- A run builds the nest and binds the bounds as the two loops of
`build_loop_nest` do. -/
theorem State.run_eq_some (h : σ.run simplify pre splits = some σ') :
    buildNest simplify pre σ.alignment splits σ.nest = some σ'.nest ∧
      bindLoopBounds pre splits σ.env = some σ'.env ∧
      σ'.dims = splits.foldl (fun dims s => s.dims dims) σ.dims := by
  induction splits generalizing σ with
  | nil =>
      simp only [State.run, List.foldlM_nil, Option.pure_def, Option.some.injEq] at h
      rw [h]
      exact ⟨rfl, rfl, rfl⟩
  | cons s splits ih =>
      simp only [State.run, List.foldlM_cons, Option.bind_eq_bind, Option.bind_eq_some_iff] at h
      obtain ⟨σ₁, hStep, hRun⟩ := h
      obtain ⟨results, hResults, hEnv, -, hDims, hNest⟩ := State.step_eq_some hStep
      obtain ⟨hBuild, hBind, hFold⟩ := ih hRun
      refine ⟨?_, ?_, ?_⟩
      · simp only [buildNest, hResults, Option.bind_eq_bind, Option.bind_some]
        rw [← hNest, hBuild]
      · rw [bindLoopBounds_cons, hEnv, Option.bind_some, hBind]
      · rw [hFold, hDims, List.foldl_cons]

/-- What holds between two directives. -/
structure Invariant (pre : String) (all : List String) (buffers types : Name → IntType)
    (σ : State) : Prop where
  dims : DimsOk all σ.used σ.dims
  extent : ∀ d ∈ σ.dims, 0 < σ.env.vars (loopExtent pre d)
  max : ∀ d ∈ σ.dims, σ.env.vars (loopMax pre d) =
    σ.env.vars (loopMin pre d) + σ.env.vars (loopExtent pre d) - 1
  aligned : ∀ d ∈ σ.dims, ∀ e, σ.alignment d = some e → Outside pre all buffers types e ∧
    ∃ v, exact σ.env e = some v ∧ 0 < v ∧ v ∣ σ.env.vars (loopExtent pre d)
  fresh : ∀ d ∈ all, d ∉ σ.used → σ.alignment d = none
  nest : σ.nest.Scoped pre all σ.used σ.dims [] buffers types

/-- What the schedule's front end establishes of a directive, with a factor that
is positive. -/
def Split.Valid (pre : String) (all : List String) (buffers types : Name → IntType) (ρ : Env)
    (used dims : List String) : Split → Prop
  | .split oldVar outer inner factor tail =>
      SplitNames all used dims oldVar outer inner ∧ tail ≠ .auto ∧
        Outside pre all buffers types factor ∧ factor.isNegativeConst = false ∧
        ∃ f, exact ρ factor = some f ∧ 0 < f
  | .fuse oldVar outer inner =>
      outer ∈ dims ∧ inner ∈ dims ∧ outer ≠ inner ∧ oldVar ∈ all ∧ oldVar ∉ used
  | .rename oldVar outer => oldVar ∈ dims ∧ outer ∈ all ∧ outer ∉ used

/-- The simplifier gives no other value. -/
def SimplifySound (simplify : Expr → Expr) : Prop :=
  ∀ ρ e v w, exact ρ e = some v → exact ρ (simplify e) = some w → w = v

/-- The step of a split: where the old variable is placed, and the loops of the new ones. -/
structure SplitStep (pre : String) (all : List String) (buffers types : Name → IntType)
    (old outer inner : String) (factor : Expr) (f : Int) (placement : Placement) (σ σ' : State) :
    Prop where
  names : SplitNames all σ.used σ.dims old outer inner
  outside : Outside pre all buffers types factor
  value : exact σ.env factor = some f
  positive : 0 < f
  extends_env : Extends pre all σ.used σ.env σ'.env
  used_eq : σ'.used = [inner, outer] ++ σ.used
  dims_eq : σ'.dims = inner :: outer :: σ.dims.erase old
  nest_eq : σ'.nest = (placement.results pre old outer inner factor).foldl Nest.apply σ.nest
  outer_loop : σ'.env.vars (loopMin pre outer) = 0 ∧
    σ'.env.vars (loopExtent pre outer) = (σ.env.vars (loopExtent pre old) - 1 + f) / f ∧
    σ'.env.vars (loopMax pre outer) = (σ.env.vars (loopExtent pre old) - 1 + f) / f - 1
  inner_loop : σ'.env.vars (loopMin pre inner) = 0 ∧ σ'.env.vars (loopExtent pre inner) = f ∧
    σ'.env.vars (loopMax pre inner) = f - 1

/-- The step of a fuse. -/
structure FuseStep (pre : String) (all : List String) (old outer inner : String) (σ σ' : State) :
    Prop where
  outer_mem : outer ∈ σ.dims
  inner_mem : inner ∈ σ.dims
  outer_ne_inner : outer ≠ inner
  old_all : old ∈ all
  old_fresh : old ∉ σ.used
  extends_env : Extends pre all σ.used σ.env σ'.env
  used_eq : σ'.used = [old] ++ σ.used
  dims_eq : σ'.dims = old :: (σ.dims.erase inner).erase outer
  nest_eq : σ'.nest = fusedNest pre old outer inner σ.nest
  old_loop : σ'.env.vars (loopMin pre old) = 0 ∧
    σ'.env.vars (loopExtent pre old) =
      σ.env.vars (loopExtent pre inner) * σ.env.vars (loopExtent pre outer) ∧
    σ'.env.vars (loopMax pre old) =
      σ.env.vars (loopExtent pre inner) * σ.env.vars (loopExtent pre outer) - 1

/-- The step of a rename. -/
structure RenameStep (pre : String) (all : List String) (old outer : String) (σ σ' : State) :
    Prop where
  old_mem : old ∈ σ.dims
  outer_all : outer ∈ all
  outer_fresh : outer ∉ σ.used
  extends_env : Extends pre all σ.used σ.env σ'.env
  used_eq : σ'.used = [outer] ++ σ.used
  dims_eq : σ'.dims = outer :: σ.dims.erase old
  nest_eq : σ'.nest = renamedNest pre old outer σ.nest
  outer_loop : σ'.env.vars (loopMin pre outer) = σ.env.vars (loopMin pre old) ∧
    σ'.env.vars (loopExtent pre outer) = σ.env.vars (loopExtent pre old) ∧
    σ'.env.vars (loopMax pre outer) = σ.env.vars (loopMax pre old)

theorem Outside.bin (op : BinOp) {a b : Expr} (ha : Outside pre all buffers types a)
    (hb : Outside pre all buffers types b) (hOp : ¬ (op = .and ∨ op = .or)) :
    Outside pre all buffers types (.bin op a b) := by
  refine ⟨ha.type, ⟨ha.typed, hb.typed, ha.type.trans hb.type.symm, fun h => absurd h hOp⟩,
    fun n hn => ?_, fun n hn => ?_⟩
  · rw [Expr.mentions, Bool.or_eq_true] at hn
    exact hn.elim (ha.mentions n) (hb.mentions n)
  · rw [Expr.binds, List.mem_append] at hn
    exact hn.elim (ha.binds n) (hb.binds n)

/-- What holds of a dimension and its entry in the alignments. -/
def DimOk (pre : String) (all : List String) (buffers types : Name → IntType) (σ : State)
    (d : String) : Prop :=
  0 < σ.env.vars (loopExtent pre d) ∧
    σ.env.vars (loopMax pre d) =
      σ.env.vars (loopMin pre d) + σ.env.vars (loopExtent pre d) - 1 ∧
    ∀ e, σ.alignment d = some e → Outside pre all buffers types e ∧
      ∃ v, exact σ.env e = some v ∧ 0 < v ∧ v ∣ σ.env.vars (loopExtent pre d)

section

variable (hInv : Invariant pre all buffers types σ)

include hInv

/-- A dimension that stays keeps its bounds and what is known of its extent. -/
theorem Invariant.kept (hExtends : Extends pre all σ.used σ.env σ'.env) (hd : d ∈ σ.dims)
    (hAlign : σ'.alignment d = σ.alignment d) : DimOk pre all buffers types σ' d := by
  obtain ⟨hMin, hMax, hExtent⟩ := hExtends.bounds (hInv.dims.subset hd)
  rw [DimOk, hMin, hMax, hExtent, hAlign]
  refine ⟨hInv.extent d hd, hInv.max d hd, fun e he => ?_⟩
  obtain ⟨hOutside, v, hv, hPos, hDvd⟩ := hInv.aligned d hd e he
  exact ⟨hOutside, v, (hExtends.exact_outside hOutside).trans hv, hPos, hDvd⟩

/-- The invariant after a directive that replaces some dimensions by new ones. -/
theorem Invariant.replace {rest : List String} (created : List String)
    (hExtends : Extends pre all σ.used σ.env σ'.env) (hDims : σ'.dims = created ++ rest)
    (hUsed : σ'.used = created ++ σ.used) (hRest : rest ⊆ σ.dims) (hRestNodup : rest.Nodup)
    (hNodup : created.Nodup) (hFresh : ∀ d ∈ created, d ∈ all ∧ d ∉ σ.used)
    (hCreated : ∀ d ∈ created, DimOk pre all buffers types σ' d)
    (hAlign : ∀ d ∉ created, σ'.alignment d = σ.alignment d)
    (hNest : σ'.nest.Scoped pre all σ'.used σ'.dims [] buffers types) :
    Invariant pre all buffers types σ' := by
  have hOk : ∀ d ∈ σ'.dims, DimOk pre all buffers types σ' d := by
    intro d hd
    rw [hDims, List.mem_append] at hd
    rcases hd with hd | hd
    · exact hCreated d hd
    · exact hInv.kept hExtends (hRest hd)
        (hAlign d fun h => (hFresh d h).2 (hInv.dims.subset (hRest hd)))
  refine ⟨⟨?_, ?_, ?_⟩, fun d hd => (hOk d hd).1, fun d hd => (hOk d hd).2.1,
    fun d hd => (hOk d hd).2.2, fun d hd hNot => ?_, hNest⟩
  · rw [hDims, hUsed]
    exact List.append_subset.mpr ⟨List.subset_append_left ..,
      fun d hd => List.mem_append_right _ (hInv.dims.subset (hRest hd))⟩
  · rw [hUsed]
    exact List.append_subset.mpr ⟨fun d hd => (hFresh d hd).1, hInv.dims.used_subset⟩
  · rw [hDims, List.nodup_append']
    refine ⟨hNodup, hRestNodup, fun d hd hMem => ?_⟩
    exact (hFresh d hd).2 (hInv.dims.subset (hRest hMem))
  · rw [hUsed, List.mem_append, not_or] at hNot
    rw [hAlign d hNot.1]
    exact hInv.fresh d hd hNot.2

/-- The quotient of an extent that the simplifier finds divisible. -/
theorem Invariant.divisible {f : Int} {extent : Expr} (hSimplify : SimplifySound simplify)
    (hOld : old ∈ σ.dims) (hExtent : σ.alignment old = some extent)
    (hFactor : exact σ.env factor = some f) (hPos : 0 < f)
    (hZero : (simplify (mod extent factor)).isZero = true) :
    ∃ v, exact σ.env extent = some v ∧ 0 < v ∧ f ∣ v ∧
      v ∣ σ.env.vars (loopExtent pre old) := by
  obtain ⟨hOutside, v, hv, hvPos, hDvd⟩ := hInv.aligned old hOld extent hExtent
  have hMod := exact_mod hOutside.type hv hFactor hPos.ne'
  have hEq := hSimplify σ.env _ _ 0 hMod (eval_of_isZero hZero)
  exact ⟨v, hv, hvPos, Int.dvd_of_emod_eq_zero hEq.symm, hDvd⟩

/-- The invariant after a split, for what it makes known about the outer dimension. -/
theorem Invariant.split {f : Int} {placement : Placement} (hTypes : LoopTypes pre all types)
    (hStep : SplitStep pre all buffers types old outer inner factor f placement σ σ')
    (hInner : σ'.alignment inner = some factor)
    (hOuter : ∀ e, σ'.alignment outer = some e → Outside pre all buffers types e ∧
      ∃ v, exact σ'.env e = some v ∧ 0 < v ∧ v ∣ σ'.env.vars (loopExtent pre outer))
    (hRest : ∀ d, d ≠ inner → d ≠ outer → σ'.alignment d = σ.alignment d) :
    Invariant pre all buffers types σ' := by
  have hNames := hStep.names
  have hExtent := hInv.extent old hNames.old_mem
  have hPos := hStep.positive
  obtain ⟨hMinO, hExtentO, hMaxO⟩ := hStep.outer_loop
  obtain ⟨hMinI, hExtentI, hMaxI⟩ := hStep.inner_loop
  have hOuterPos : 0 < (σ.env.vars (loopExtent pre old) - 1 + f) / f :=
    (Int.le_ediv_iff_mul_le hPos).mpr (by omega)
  have hOuterOk : DimOk pre all buffers types σ' outer := ⟨by omega, by omega, hOuter⟩
  have hInnerOk : DimOk pre all buffers types σ' inner := by
    refine ⟨by omega, by omega, fun e he => ?_⟩
    rw [hInner, Option.some.injEq] at he
    rw [← he, hExtentI]
    exact ⟨hStep.outside, f, (hStep.extends_env.exact_outside hStep.outside).trans hStep.value,
      hPos, dvd_refl f⟩
  refine hInv.replace [inner, outer] hStep.extends_env hStep.dims_eq hStep.used_eq List.erase_subset
    (hInv.dims.nodup.erase old) (by simp [hNames.outer_ne_inner.symm]) ?_ ?_ ?_ ?_
  · simp [hNames.inner_all, hNames.outer_all, hNames.inner_fresh, hNames.outer_fresh]
  · simp [hInnerOk, hOuterOk]
  · intro d hd
    simp only [List.mem_cons, List.not_mem_nil, or_false, not_or] at hd
    exact hRest d hd.1 hd.2
  · rw [hStep.nest_eq, hStep.dims_eq, hStep.used_eq]
    exact scoped_placement hTypes hInv.dims hNames hInv.nest hStep.outside placement

theorem step_split (hSimplify : SimplifySound simplify) (hTypes : LoopTypes pre all types)
    (hValid : Split.Valid pre all buffers types σ.env σ.used σ.dims
      (.split old outer inner factor tail)) :
    ∃ σ' f placement, σ.step simplify pre (.split old outer inner factor tail) = some σ' ∧
      Invariant pre all buffers types σ' ∧
      SplitStep pre all buffers types old outer inner factor f placement σ σ' ∧
      ((placement = .tiled ∧ f ∣ σ.env.vars (loopExtent pre old)) ∨
        provenDivisible simplify σ.alignment old factor = false ∧ factor.isOne = false ∧
          placement = tail.placement) := by
  obtain ⟨hNames, hAuto, hOutside, hSign, f, hFactor, hPos⟩ := hValid
  have hUsed := hInv.dims.subset hNames.old_mem
  have hSign' : (factor.isNegativeConst || factor.isZero) = false := by
    rw [hSign, Bool.false_or, Bool.eq_false_iff]
    intro hZero
    rw [exact, eval_of_isZero hZero, Option.some.injEq] at hFactor
    omega
  obtain ⟨ρ, hBind, hExtends, hMinO, hExtentO, hMaxO, hMinI, hExtentI, hMaxI⟩ :=
    bindBounds_split hUsed hNames.outer_all hNames.inner_all hNames.outer_fresh hNames.inner_fresh
      hNames.outer_ne_inner hOutside hFactor hPos tail
  have hLength : σ.env.vars (loopMax pre old) - σ.env.vars (loopMin pre old) =
      σ.env.vars (loopExtent pre old) - 1 := by
    have := hInv.max old hNames.old_mem
    omega
  rw [hLength] at hExtentO hMaxO
  have hStep (alignment : ExtentAlignment) (placement : Placement) :
      SplitStep pre all buffers types old outer inner factor f placement σ
        { env := ρ, used := inner :: outer :: σ.used, dims := inner :: outer :: σ.dims.erase old,
          alignment, nest := (placement.results pre old outer inner factor).foldl Nest.apply
            σ.nest } :=
    ⟨hNames, hOutside, hFactor, hPos, hExtends, rfl, rfl, rfl, ⟨hMinO, hExtentO, hMaxO⟩,
      hMinI, hExtentI, hMaxI⟩
  have hRun {placement : Placement} {alignment : ExtentAlignment}
      (h : applySplit simplify pre σ.alignment (.split old outer inner factor tail) =
        some (placement.results pre old outer inner factor, alignment)) :
      σ.step simplify pre (.split old outer inner factor tail) = some
        { env := ρ, used := inner :: outer :: σ.used, dims := inner :: outer :: σ.dims.erase old,
          alignment, nest := (placement.results pre old outer inner factor).foldl Nest.apply
            σ.nest } := by
    simp only [State.step, h, hBind, Option.bind_eq_bind, Option.bind_some, Option.pure_def]
    rfl
  have hOuterNe := hNames.outer_ne_inner
  rcases applySplit_split hAuto (hNames.old_ne hInv.dims).2 hSign' with
    ⟨extent, hExtent, hZero, hApply⟩ | ⟨hProven, hApply⟩
  · obtain ⟨v, hv, hvPos, ⟨k, rfl⟩, hDvd⟩ :=
      hInv.divisible hSimplify hNames.old_mem hExtent hFactor hPos hZero
    have hOutsideE := (hInv.aligned old hNames.old_mem extent hExtent).1
    refine ⟨_, f, .tiled, hRun hApply, hInv.split hTypes (hStep _ _) ?_ ?_ ?_, hStep _ _,
      Or.inl ⟨rfl, (dvd_mul_right f k).trans hDvd⟩⟩
    · simp [ExtentAlignment.set, Function.update_of_ne hOuterNe.symm]
    · intro e he
      simp only [ExtentAlignment.set, Function.update_self, Option.some.injEq] at he
      obtain ⟨l, hl⟩ := hDvd
      have hQuot : f * k / f = k := Int.mul_ediv_cancel_left _ hPos.ne'
      have hTiles : (σ.env.vars (loopExtent pre old) - 1 + f) / f = k * l := by
        have hWhole := tiles_of_dvd hPos ((dvd_mul_right f k).trans ⟨l, hl⟩)
        rw [hl, mul_assoc, mul_comm f] at hWhole
        rw [hl, mul_assoc, mul_comm f]
        exact Int.eq_of_mul_eq_mul_right hPos.ne' hWhole
      have hDiv : exact ρ (div extent factor) = some k := by
        rw [exact_div hOutsideE.type ((hExtends.exact_outside hOutsideE).trans hv)
          ((hExtends.exact_outside hOutside).trans hFactor) hPos.ne', hQuot]
      rw [← he]
      refine ⟨hOutsideE.bin .div hOutside (by simp), k, hDiv, pos_of_mul_pos_right hvPos hPos.le, ?_⟩
      rw [hExtentO, hTiles]
      exact dvd_mul_right k l
    · intro d hNeI hNeO
      simp [ExtentAlignment.set, Function.update_of_ne hNeI, Function.update_of_ne hNeO]
  · refine ⟨_, f, _, hRun hApply, hInv.split hTypes (hStep _ _) ?_ ?_ ?_, hStep _ _, ?_⟩
    · simp [ExtentAlignment.set]
    · intro e he
      simp only [ExtentAlignment.set, Function.update_of_ne hOuterNe] at he
      rw [hInv.fresh outer hNames.outer_all hNames.outer_fresh] at he
      cases he
    · intro d hNeI hNeO
      simp [ExtentAlignment.set, Function.update_of_ne hNeI]
    · by_cases hOne : factor.isOne = true
      · rw [exact, eval_of_isOne hOne, Option.some.injEq] at hFactor
        rw [if_pos hOne, ← hFactor]
        exact Or.inl ⟨rfl, one_dvd _⟩
      · rw [if_neg hOne]
        exact Or.inr ⟨hProven, Bool.eq_false_iff.mpr hOne, rfl⟩

/-- What is known about the extent of a fused dimension. -/
theorem Invariant.fused_aligned (hOuter : outer ∈ σ.dims) (hInner : inner ∈ σ.dims) {i o : Expr}
    (hi : σ.alignment inner = some i) (ho : σ.alignment outer = some o) :
    Outside pre all buffers types (mul i o) ∧ ∃ v, exact σ.env (mul i o) = some v ∧ 0 < v ∧
      v ∣ σ.env.vars (loopExtent pre inner) * σ.env.vars (loopExtent pre outer) := by
  obtain ⟨hOutsideI, v, hv, hvPos, hvDvd⟩ := hInv.aligned inner hInner i hi
  obtain ⟨hOutsideO, w, hw, hwPos, hwDvd⟩ := hInv.aligned outer hOuter o ho
  exact ⟨hOutsideI.bin .mul hOutsideO (by simp), v * w, exact_mul hOutsideI.type hv hw,
    Int.mul_pos hvPos hwPos, mul_dvd_mul hvDvd hwDvd⟩

omit hInv in
/-- The dimensions change in two steps, the inner one first. -/
theorem fuse_changes (inner : String) (hOuter : outer ∈ σ.dims) (hFresh : old ∉ σ.used) :
    Changes σ.used σ.dims (old :: σ.used) (old :: outer :: (σ.dims.erase inner).erase outer) inner ∧
      Changes (old :: σ.used) (old :: outer :: (σ.dims.erase inner).erase outer) (old :: σ.used)
        (old :: (σ.dims.erase inner).erase outer) outer := by
  refine ⟨⟨List.subset_cons_self .., fun d hd hInner => ?_, fun d hd hNot => ?_⟩,
    ⟨List.Subset.refl _, fun d hd hOut => ?_, fun d hd hNot => ?_⟩⟩
  · by_cases hOut : d = outer
    · simp [hOut]
    · simp [(List.mem_erase_of_ne hOut).mpr ((List.mem_erase_of_ne hInner).mpr hd)]
  · have hOld : d ≠ old := fun h => hFresh (h ▸ hd)
    have hOut : d ≠ outer := fun h => hNot (h ▸ hOuter)
    simp only [List.mem_cons, hOld, hOut, false_or]
    exact fun h => hNot (List.mem_of_mem_erase (List.mem_of_mem_erase h))
  · simpa [hOut] using hd
  · exact fun h => hNot (by
      rw [List.mem_cons] at h ⊢
      exact h.imp_right fun h => List.mem_cons_of_mem _ h)

/-- The alignment that a fused loop takes over from the two loops it is made of. -/
def fusedAlignment (alignment : ExtentAlignment) (old outer inner : String) : ExtentAlignment :=
  match alignment inner, alignment outer with
  | some i, some o => alignment.set old (mul i o)
  | _, _ => alignment

theorem step_fuse (hTypes : LoopTypes pre all types)
    (hValid : Split.Valid pre all buffers types σ.env σ.used σ.dims (.fuse old outer inner)) :
    ∃ σ', σ.step simplify pre (.fuse old outer inner) = some σ' ∧
      Invariant pre all buffers types σ' ∧ FuseStep pre all old outer inner σ σ' := by
  obtain ⟨hOuter, hInner, hNe, hOld, hFresh⟩ := hValid
  have hUsedOuter := hInv.dims.subset hOuter
  have hUsedInner := hInv.dims.subset hInner
  obtain ⟨ρ, hBind, hExtends, hMin, hExtent, hMax⟩ :=
    bindBounds_fuse pre σ.env hOld hFresh hUsedOuter hUsedInner
  obtain ⟨hMid, hChange⟩ := fuse_changes inner hOuter hFresh
  let alignment := fusedAlignment σ.alignment old outer inner
  let σ' : State :=
    { env := ρ, used := old :: σ.used, dims := old :: (σ.dims.erase inner).erase outer,
      alignment, nest := fusedNest pre old outer inner σ.nest }
  have hPos : 0 < ρ.vars (loopExtent pre old) := by
    rw [hExtent]
    exact Int.mul_pos (hInv.extent inner hInner) (hInv.extent outer hOuter)
  have hEntry : ∀ e, alignment old = some e → Outside pre all buffers types e ∧
      ∃ v, exact ρ e = some v ∧ 0 < v ∧ v ∣ ρ.vars (loopExtent pre old) := by
    intro e he
    have hNone := hInv.fresh old hOld hFresh
    cases hi : σ.alignment inner with
    | none => simp [alignment, fusedAlignment, hi, hNone] at he
    | some i =>
        cases ho : σ.alignment outer with
        | none => simp [alignment, fusedAlignment, hi, ho, hNone] at he
        | some o =>
            simp only [alignment, fusedAlignment, hi, ho, ExtentAlignment.set, Function.update_self,
              Option.some.injEq] at he
            obtain ⟨hOutside, v, hv, hvPos, hDvd⟩ := hInv.fused_aligned hOuter hInner hi ho
            rw [← he, hExtent]
            exact ⟨hOutside, v, (hExtends.exact_outside hOutside).trans hv, hvPos, hDvd⟩
  have hSame : ∀ d, d ≠ old → alignment d = σ.alignment d := by
    intro d hd
    simp only [alignment, fusedAlignment]
    cases σ.alignment inner with
    | none => rfl
    | some i =>
      cases σ.alignment outer with
      | none => rfl
      | some o => exact Function.update_of_ne hd ..
  have hGone : outer ∉ old :: (σ.dims.erase inner).erase outer ∧
      inner ∉ old :: (σ.dims.erase inner).erase outer := by
    have hNodup := hInv.dims.nodup.erase inner
    have hOuterOld : outer ≠ old := fun h => hFresh (h ▸ hUsedOuter)
    have hInnerOld : inner ≠ old := fun h => hFresh (h ▸ hUsedInner)
    simp only [List.mem_cons, hOuterOld, hInnerOld, false_or]
    exact ⟨hNodup.not_mem_erase, fun h => hInv.dims.nodup.not_mem_erase (List.mem_of_mem_erase h)⟩
  refine ⟨σ', ?_, ?_, hOuter, hInner, hNe, hOld, hFresh, hExtends, rfl, rfl, rfl, hMin, hExtent, hMax⟩
  · simp only [State.step, applySplit, hBind, Option.bind_eq_bind, Option.bind_some,
      Option.pure_def]
    rfl
  · refine hInv.replace [old] hExtends rfl rfl
      (fun d hd => List.mem_of_mem_erase (List.mem_of_mem_erase hd))
      ((hInv.dims.nodup.erase inner).erase outer) (List.nodup_singleton old) ?_ ?_ ?_ ?_
    · simp [hOld, hFresh]
    · intro d hd
      rw [List.mem_singleton] at hd
      rw [hd]
      exact ⟨hPos, by simp only [σ']; omega, hEntry⟩
    · intro d hd
      exact hSame d (by simpa using hd)
    · exact scoped_fusedNest hTypes hInv.nest hOld hFresh (hInv.dims.used_subset hUsedInner)
        (hInv.dims.used_subset hUsedOuter) hUsedInner hUsedOuter hMid hChange hGone.1 hGone.2

theorem step_rename (hTypes : LoopTypes pre all types)
    (hValid : Split.Valid pre all buffers types σ.env σ.used σ.dims (.rename old outer)) :
    ∃ σ', σ.step simplify pre (.rename old outer) = some σ' ∧
      Invariant pre all buffers types σ' ∧ RenameStep pre all old outer σ σ' := by
  obtain ⟨hOld, hOuter, hFresh⟩ := hValid
  have hUsed := hInv.dims.subset hOld
  obtain ⟨ρ, hBind, hExtends, hMin, hExtent, hMax⟩ := bindBounds_rename pre σ.env hUsed hOuter hFresh
  have hNe : old ≠ outer := fun h => hFresh (h ▸ hUsed)
  let σ' : State :=
    { env := ρ, used := outer :: σ.used, dims := outer :: σ.dims.erase old,
      alignment := σ.alignment, nest := renamedNest pre old outer σ.nest }
  have hChange : Changes σ.used σ.dims (outer :: σ.used) (outer :: σ.dims.erase old) old := by
    refine ⟨List.subset_cons_self .., fun d hd hNeOld => ?_, fun d hd hNot => ?_⟩
    · simp [(List.mem_erase_of_ne hNeOld).mpr hd]
    · have hNeOuter : d ≠ outer := fun h => hFresh (h ▸ hd)
      simp only [List.mem_cons, hNeOuter, false_or]
      exact fun h => hNot (List.mem_of_mem_erase h)
  have hGone : old ∉ outer :: σ.dims.erase old := by simp [hNe, hInv.dims.nodup.not_mem_erase]
  refine ⟨σ', ?_, ?_, hOld, hOuter, hFresh, hExtends, rfl, rfl, rfl, hMin, hExtent, hMax⟩
  · simp only [State.step, applySplit, hBind, Option.bind_eq_bind, Option.bind_some,
      Option.pure_def]
    rfl
  · refine hInv.replace [outer] hExtends rfl rfl List.erase_subset
      (hInv.dims.nodup.erase old) (List.nodup_singleton outer) ?_ ?_ (fun _ _ => rfl) ?_
    · simp [hOuter, hFresh]
    · intro d hd
      rw [List.mem_singleton] at hd
      rw [hd]
      have hOldExtent := hInv.extent old hOld
      have hOldMax := hInv.max old hOld
      refine ⟨hExtent.symm ▸ hOldExtent, hMax.trans (by rw [hOldMax, hMin, hExtent]), fun e he => ?_⟩
      rw [hInv.fresh outer hOuter hFresh] at he
      cases he
    · exact scoped_renamedNest hTypes hInv.nest hChange (hInv.dims.used_subset hUsed)
        (List.mem_cons_of_mem _ hUsed) hGone hOuter hFresh (List.mem_cons_self ..)

end

end Vyasa.Schedule
