import Vyasa.Schedule.LoopBounds

/-! One directive: which branch `apply_split` takes, where the old variable goes in
the new loops, and what the new nest visits there. -/
namespace Vyasa.Schedule

open Word IRMatch Vyasa.Expr Euclid

variable {pre : String} {all used dims rest : List String} {ρ ρ' : Env} {nest nest' : Nest}
  {n : Name} {d old outer inner : String} {factor e : Expr} {f x : Int}
  {buffers types : Name → IntType} {simplify : Expr → Expr} {alignment : ExtentAlignment}
  {tail : TailStrategy}

section Placement

/-- The three shapes of the results of a split. -/
inductive Placement where
  | tiled | guarded | shifted
deriving DecidableEq, Repr

/-- The value of the old variable for an outer and an inner one, unless the
predicate fails, where the old loop has `extent` values from `min` on. -/
def Placement.index (min extent factor : Int) : Placement → Int × Int → Option Int
  | .tiled, p => some (tile min factor p)
  | .guarded, p => if p.1 * factor + p.2 < extent then some (p.1 * factor + p.2 + min) else none
  | .shifted, p => some (Min.min (p.1 * factor + min) (min + extent - factor) + p.2)

def Placement.results (pre old outer inner : String) (factor : Expr) :
    Placement → List ApplySplitResult
  | .tiled =>
      splitResults pre old inner (add (mul (intVar (loopVar pre outer)) factor)
        (intVar (loopMin pre old)))
  | .guarded =>
      guardResults pre old outer inner factor ++
        splitResults pre old inner (add (mul (intVar (loopVar pre outer)) factor)
          (intVar (loopMin pre old)))
  | .shifted =>
      splitResults pre old inner (shiftedBase pre old factor
        (add (mul (intVar (loopVar pre outer)) factor) (intVar (loopMin pre old))))

theorem filterMap_tiled {m n e f : Int} (hf : 0 < f) :
    ((interval 0 n ×ˢ interval 0 f).filterMap (Placement.tiled.index m e f)).Perm
      (interval m (n * f)) := by
  have hMap : Placement.tiled.index m e f = some ∘ tile m f := rfl
  rw [hMap, List.filterMap_eq_map]
  exact tiles_perm hf

theorem filterMap_guarded {m n e f : Int} (hf : 0 < f) (h : e ≤ n * f) :
    ((interval 0 n ×ˢ interval 0 f).filterMap (Placement.guarded.index m e f)).Perm
      (interval m e) := by
  have hFilter (l : List (Int × Int)) : l.filterMap (Placement.guarded.index m e f) =
      (l.map (tile m f)).filter (· < m + e) := by
    rw [List.filter_map, ← List.filterMap_eq_map, List.filterMap_filter]
    refine List.filterMap_congr fun p _ => ?_
    have hTile : tile m f p = p.1 * f + p.2 + m := by
      simp only [tile]
      omega
    simp only [Placement.index, Function.comp_apply, hTile, decide_eq_true_eq]
    split_ifs <;> first | rfl | omega
  rw [hFilter]
  exact ((tiles_perm hf).filter _).trans (interval_filter h)

/-- The tail strategy where the factor is not known to divide the extent. -/
def TailStrategy.placement : TailStrategy → Placement
  | .guardWithIf => .guarded
  | .shiftInwards => .shifted
  | .roundUp | .auto => .tiled

/-- The test of `apply_split`: the factor divides what the extent is a multiple of. -/
def provenDivisible (simplify : Expr → Expr) (alignment : ExtentAlignment) (old : String)
    (factor : Expr) : Bool :=
  match alignment old with
  | some extent => (simplify (mod extent factor)).isZero
  | none => false

/-- What the branches of `apply_split` do with a split. -/
theorem applySplit_split (hAuto : tail ≠ .auto) (hNe : old ≠ inner)
    (hSign : (factor.isNegativeConst || factor.isZero) = false) :
    (∃ extent, alignment old = some extent ∧ (simplify (mod extent factor)).isZero = true ∧
      applySplit simplify pre alignment (.split old outer inner factor tail) =
        some (Placement.tiled.results pre old outer inner factor,
          (alignment.set inner factor).set outer (div extent factor))) ∨
    (provenDivisible simplify alignment old factor = false ∧
      applySplit simplify pre alignment (.split old outer inner factor tail) =
        some ((if factor.isOne then Placement.tiled else tail.placement).results pre old outer inner
          factor, alignment.set inner factor)) := by
  have hOld : alignment.set inner factor old = alignment old :=
    Function.update_of_ne hNe ..
  have hUnproven : applySplit.unproven pre old outer inner factor
      (add (mul (intVar (loopVar pre outer)) factor) (intVar (loopMin pre old))) tail
      (alignment.set inner factor) =
      some ((if factor.isOne then Placement.tiled else tail.placement).results pre old outer inner
        factor, alignment.set inner factor) := by
    unfold applySplit.unproven
    rw [if_neg (by rw [hSign]; exact Bool.false_ne_true)]
    split_ifs
    · rfl
    · cases tail with
      | auto => exact absurd rfl hAuto
      | roundUp | guardWithIf | shiftInwards => rfl
  cases hAlign : alignment old with
  | none =>
      refine Or.inr ⟨by rw [provenDivisible, hAlign], ?_⟩
      simp only [applySplit, if_neg hAuto, hOld, hAlign]
      exact hUnproven
  | some extent =>
      by_cases hZero : (simplify (mod extent factor)).isZero = true
      · refine Or.inl ⟨extent, rfl, hZero, ?_⟩
        simp only [applySplit, if_neg hAuto, hOld, hAlign, hZero, if_true]
        rfl
      · refine Or.inr ⟨by simpa [provenDivisible, hAlign] using hZero, ?_⟩
        simp only [applySplit, if_neg hAuto, hOld, hAlign, if_neg hZero]
        exact hUnproven

/-- Inside the loops, only loop variables and names yet to come have other values. -/
structure Around (pre : String) (all used : List String) (ρ ρ' : Env) : Prop where
  mem : ρ'.mem = ρ.mem
  vars : ∀ n, InScope pre all used [] n → ρ'.vars n = ρ.vars n

theorem Around.refl (pre : String) (all used : List String) (ρ : Env) :
    Around pre all used ρ ρ :=
  ⟨rfl, fun _ _ => rfl⟩

theorem Around.set (h : Around pre all used ρ ρ') (hd : d ∈ all) (v : Int) :
    Around pre all used ρ (ρ'.set (loopVar pre d) v) := by
  refine ⟨h.mem, fun n hn => ?_⟩
  rw [Env.set_vars_of_ne (hn.ne_loopVar hd List.not_mem_nil), h.vars n hn]

theorem Around.bounds (h : Around pre all used ρ ρ') (hd : d ∈ used) :
    ρ'.vars (loopMin pre d) = ρ.vars (loopMin pre d) ∧
      ρ'.vars (loopMax pre d) = ρ.vars (loopMax pre d) ∧
      ρ'.vars (loopExtent pre d) = ρ.vars (loopExtent pre d) :=
  ⟨h.vars _ (Or.inr (Or.inl ⟨d, hd, Or.inl rfl⟩)),
    h.vars _ (Or.inr (Or.inl ⟨d, hd, Or.inr (Or.inl rfl)⟩)),
    h.vars _ (Or.inr (Or.inl ⟨d, hd, Or.inr (Or.inr rfl)⟩))⟩

theorem Around.loop (h : Around pre all used ρ ρ') (hd : d ∈ used) :
    loop pre ρ' d = loop pre ρ d := by
  rw [Schedule.loop, Schedule.loop, (h.bounds hd).1, (h.bounds hd).2.2]

theorem Around.exact_outside (h : Around pre all used ρ ρ')
    (he : Outside pre all buffers types e) : exact ρ' e = exact ρ e :=
  eval_congr ⟨fun n hn => h.vars n (Or.inr (Or.inr (he.mentions n hn))), fun _ _ => by rw [h.mem]⟩

end Placement

section SplitStep

/-- A directive that replaces `old` by `outer` and `inner`, all of them known. -/
structure SplitNames (all used dims : List String) (old outer inner : String) : Prop where
  old_mem : old ∈ dims
  outer_all : outer ∈ all
  inner_all : inner ∈ all
  outer_fresh : outer ∉ used
  inner_fresh : inner ∉ used
  outer_ne_inner : outer ≠ inner

/-- What holds of the dimensions at any time. -/
structure DimsOk (all used dims : List String) : Prop where
  subset : dims ⊆ used
  used_subset : used ⊆ all
  nodup : dims.Nodup

variable (hTypes : LoopTypes pre all types) (hDims : DimsOk all used dims)
  (hNames : SplitNames all used dims old outer inner)

section

include hNames

theorem SplitNames.changes :
    Changes used dims (inner :: outer :: used) (inner :: outer :: dims.erase old) old := by
  refine ⟨fun d hd => by simp [hd], fun d hd hNe => ?_, fun d hd hNot => ?_⟩
  · simp [(List.mem_erase_of_ne hNe).mpr hd]
  · have hOuter : d ≠ outer := fun h => hNames.outer_fresh (h ▸ hd)
    have hInner : d ≠ inner := fun h => hNames.inner_fresh (h ▸ hd)
    simp only [List.mem_cons, hOuter, hInner, false_or]
    exact fun h => hNot (List.mem_of_mem_erase h)

/-- The same with the names that are used still the old ones. -/
theorem SplitNames.changes_guard :
    Changes used dims used (inner :: outer :: dims.erase old) old :=
  ⟨List.Subset.refl _, hNames.changes.kept, hNames.changes.gone⟩

theorem SplitNames.changes_after :
    Changes used (inner :: outer :: dims.erase old) (inner :: outer :: used)
      (inner :: outer :: dims.erase old) old :=
  ⟨hNames.changes.grows, fun _ hd _ => hd, fun _ _ hNot => hNot⟩

include hDims

theorem SplitNames.old_ne : old ≠ outer ∧ old ≠ inner := by
  have hUsed := hDims.subset hNames.old_mem
  exact ⟨fun h => hNames.outer_fresh (h ▸ hUsed), fun h => hNames.inner_fresh (h ▸ hUsed)⟩

theorem SplitNames.old_gone : old ∉ inner :: outer :: dims.erase old := by
  obtain ⟨hOuter, hInner⟩ := hNames.old_ne hDims
  simp [hOuter, hInner, hDims.nodup.not_mem_erase]

end

variable (hNest : nest.Scoped pre all used dims [] buffers types)
  (hFactor : Outside pre all buffers types factor)

include hTypes hDims hNames hNest hFactor

theorem visit_placement (hAround : Around pre all used ρ ρ') (hf : exact ρ factor = some f)
    (hMax : ρ.vars (loopMax pre old) =
      ρ.vars (loopMin pre old) + ρ.vars (loopExtent pre old) - 1) (placement : Placement) :
    Nest.visit ρ' ((placement.results pre old outer inner factor).foldl Nest.apply nest) =
      match placement.index (ρ.vars (loopMin pre old)) (ρ.vars (loopExtent pre old)) f
        (ρ'.vars (loopVar pre outer), ρ'.vars (loopVar pre inner)) with
      | some v => Nest.visit (ρ'.set (loopVar pre old) v) nest
      | none => some none := by
  have hOld : old ∈ all := hDims.used_subset (hDims.subset hNames.old_mem)
  have hf' : exact ρ' factor = some f := (hAround.exact_outside hFactor).trans hf
  obtain ⟨hMin, hMax', hExtent⟩ := hAround.bounds (hDims.subset hNames.old_mem)
  have hBase : exact ρ' (add (mul (intVar (loopVar pre outer)) factor) (intVar (loopMin pre old))) =
      some (ρ'.vars (loopVar pre outer) * f + ρ.vars (loopMin pre old)) :=
    exact_add rfl (exact_mul rfl (exact_intVar ..) hf') (by rw [exact_intVar, hMin])
  have hNe := (hNames.old_ne hDims).2
  cases placement with
  | tiled =>
      exact visit_splitResults hTypes hNest hOld hNames.inner_all hNames.inner_fresh hNe hBase
  | guarded =>
      have hScoped := scoped_guardedNest hTypes hNest hNames.changes_guard hOld
        (hDims.subset hNames.old_mem) hNames.old_mem (hNames.old_gone hDims) hNames.outer_all
        hNames.inner_all (by simp) (by simp) hFactor
      rw [Placement.results, List.foldl_append, guardResults_foldl,
        visit_splitResults hTypes hScoped hOld hNames.inner_all hNames.inner_fresh hNe hBase]
      have hf'' : exact (ρ'.set (loopVar pre old) (ρ'.vars (loopVar pre outer) * f +
          ρ.vars (loopMin pre old) + ρ'.vars (loopVar pre inner))) factor = some f :=
        ((hAround.set hOld _).exact_outside hFactor).trans hf
      have hVars : loopVar pre outer ≠ loopVar pre old ∧ loopVar pre inner ≠ loopVar pre old :=
        ⟨fun h => (hNames.old_ne hDims).1 (loopVar_injective pre h).symm,
          fun h => hNe (loopVar_injective pre h).symm⟩
      rw [visit_guardedNest hTypes hNest hOld hNames.old_mem hf'', Env.set_set,
        Env.set_vars_of_ne hVars.1, Env.set_vars_of_ne hVars.2,
        Env.set_vars_of_ne (by simp [loopExtent, loopVar]),
        Env.set_vars_of_ne (by simp [loopMin, loopVar]), hMin, hExtent]
      simp only [Placement.index]
      split_ifs <;> rfl
  | shifted =>
      have hShifted : exact ρ' (shiftedBase pre old factor (add (mul (intVar (loopVar pre outer))
          factor) (intVar (loopMin pre old)))) =
          some (min (ρ'.vars (loopVar pre outer) * f + ρ.vars (loopMin pre old))
            (ρ.vars (loopMin pre old) + ρ.vars (loopExtent pre old) - f)) := by
        have hLast : exact ρ' (add (intVar (loopMax pre old)) (sub (int 1) factor)) =
            some (ρ.vars (loopMin pre old) + ρ.vars (loopExtent pre old) - f) := by
          rw [exact_add rfl (exact_intVar ..) (exact_sub rfl (exact_int ..) hf'), hMax', hMax]
          congr 1
          omega
        exact exact_min rfl hBase hLast
      exact visit_splitResults hTypes hNest hOld hNames.inner_all hNames.inner_fresh hNe hShifted

theorem scoped_placement (placement : Placement) :
    ((placement.results pre old outer inner factor).foldl Nest.apply nest).Scoped pre all
      (inner :: outer :: used) (inner :: outer :: dims.erase old) [] buffers types := by
  have hUsed := hDims.subset hNames.old_mem
  have hOld : old ∈ all := hDims.used_subset hUsed
  have hVar : Inside pre all (inner :: outer :: used) (inner :: outer :: dims.erase old) [] buffers
      types (intVar (loopVar pre outer)) :=
    Inside.intVar (hTypes outer hNames.outer_all _ (by simp [loopNames]))
      (Or.inr (Or.inl ⟨outer, by simp, rfl⟩))
  have hBound {k : Name} (hk : k = loopMin pre old ∨ k = loopMax pre old ∨ k = loopExtent pre old)
      (hMem : k ∈ loopNames pre old) : Inside pre all (inner :: outer :: used)
        (inner :: outer :: dims.erase old) [] buffers types (intVar k) :=
    Inside.intVar (hTypes old hOld k hMem) (Or.inr (Or.inr (Or.inl ⟨old, by simp [hUsed], hk⟩)))
  have hBase := ((hVar.bin .mul hFactor.inside hFactor.type.symm (by simp)).bin .add
    (hBound (Or.inl rfl) (by simp [loopNames])) rfl (by simp))
  cases placement with
  | tiled =>
      exact scoped_splitResults hTypes hNest hNames.changes hOld (by simp [hUsed])
        (hNames.old_gone hDims) hNames.inner_all hNames.inner_fresh (by simp) (by simp) hBase rfl
  | guarded =>
      have hScoped := scoped_guardedNest hTypes hNest hNames.changes_guard hOld hUsed
        hNames.old_mem (hNames.old_gone hDims) hNames.outer_all hNames.inner_all (by simp)
        (by simp) hFactor
      rw [Placement.results, List.foldl_append, guardResults_foldl]
      exact scoped_splitResults hTypes hScoped hNames.changes_after hOld (by simp [hUsed])
        (hNames.old_gone hDims) hNames.inner_all hNames.inner_fresh (by simp) (by simp) hBase rfl
  | shifted =>
      have hLast := (hBound (Or.inr (Or.inl rfl)) (by simp [loopNames])).bin .add
        ((Inside.int 1 (by decide)).bin .sub hFactor.inside hFactor.type.symm (by simp)) rfl
        (by simp)
      exact scoped_splitResults hTypes hNest hNames.changes hOld (by simp [hUsed])
        (hNames.old_gone hDims) hNames.inner_all hNames.inner_fresh (by simp) (by simp)
        (hBase.intrin .likelyIfInnermost |>.bin .min hLast rfl (by simp)) rfl

end SplitStep

section Rearrange

theorem flatMap_product {α β γ : Type} (l : List α) (l' : List β) (g : α × β → List γ) :
    (l ×ˢ l').flatMap g = l.flatMap fun a => l'.flatMap fun b => g (a, b) := by
  simp only [SProd.sprod, List.product, List.flatMap_assoc, List.flatMap_map]

theorem visits_pair (outer inner : String) (rest : List String) (ρ : Env) (nest : Nest) :
    visits pre (outer :: inner :: rest) ρ nest =
      (loop pre ρ outer ×ˢ loop pre ρ inner).flatMap fun p =>
        visits pre rest ((ρ.set (loopVar pre outer) p.1).set (loopVar pre inner) p.2) nest := by
  rw [flatMap_product, visits_cons]
  simp only [visits_cons, loop_set]

/-- Loop variables with values. -/
abbrev loopVars (pre : String) (values : List (String × Int)) : List (Name × Int) :=
  values.map fun p => (loopVar pre p.1, p.2)

theorem ne_loopVars {values : List (String × Int)} (h : ∀ p ∈ values, p.1 ≠ d) :
    ∀ p ∈ loopVars pre values, loopVar pre d ≠ p.1 := by
  intro q hq
  obtain ⟨p, hp, rfl⟩ := List.mem_map.mp hq
  exact fun hEq => h p hp (loopVar_injective pre hEq).symm

/-- What a new nest visits in the loops that stay, where it defines the old
variables (`values`) by the new ones (`fixed`). -/
theorem visits_define (nest : Nest) {ρ₀ : Env} {fixed : List (String × Int)}
    (values : List (String × Int)) (hRest : rest ⊆ used) (hUsed : used ⊆ all)
    (hFixed : ∀ p ∈ fixed, p.1 ∉ rest) (hValues : ∀ p ∈ values, p.1 ∉ rest)
    (hAround : Around pre all used ρ ρ₀)
    (hStart : ∀ p ∈ fixed, ρ₀.vars (loopVar pre p.1) = p.2)
    (hElse : ∀ n, (∀ p ∈ fixed, n ≠ loopVar pre p.1) → ρ₀.vars n = ρ.vars n)
    (hUnread : ∀ p ∈ fixed, nest.mentions (loopVar pre p.1) = false)
    (hVisit : ∀ ρ', Around pre all used ρ ρ' →
      (∀ p ∈ fixed, ρ'.vars (loopVar pre p.1) = p.2) →
      Nest.visit ρ' nest' = Nest.visit (setAll ρ' (loopVars pre values)) nest) :
    visits pre rest ρ₀ nest' = visits pre rest (setAll ρ (loopVars pre values)) nest := by
  -- The loops that stay run in step: on the left the new variables keep their
  -- values, on the right the old ones are set.
  refine iterations_map_congr (R := fun ρa ρb => Around pre all used ρ ρa ∧
    (∀ p ∈ fixed, ρa.vars (loopVar pre p.1) = p.2) ∧ ρb.mem = ρa.mem ∧
    ∀ n, (∀ p ∈ fixed, n ≠ loopVar pre p.1) →
      ρb.vars n = (setAll ρa (loopVars pre values)).vars n) ?_ ?_ ?_ ?_
  · rintro ρa ρb ⟨-, -, -, hb⟩ d -
    have hBound {n : Name} (hn : ∀ k, n ≠ loopVar pre k) : ρb.vars n = ρa.vars n := by
      rw [hb n fun p _ => hn p.1, setAll_vars]
      intro q hq
      obtain ⟨p, -, rfl⟩ := List.mem_map.mp hq
      exact hn p.1
    rw [loop, loop, hBound (n := loopMin pre d) (by simp [loopMin, loopVar]),
      hBound (n := loopExtent pre d) (by simp [loopExtent, loopVar])]
  · rintro ρa ρb ⟨ha, hVars, hMem, hb⟩ d hd w
    refine ⟨ha.set (hUsed (hRest hd)) w, fun p hp => ?_, hMem, fun n hn => ?_⟩
    · have hNe : p.1 ≠ d := fun hEq => hFixed p hp (hEq ▸ hd)
      rw [Env.set_vars_of_ne fun hEq => hNe (loopVar_injective pre hEq), hVars p hp]
    · rw [setAll_set (ne_loopVars fun p hp hEq => hValues p hp (hEq ▸ hd)), Env.set_vars,
        Env.set_vars, hb n hn]
  · rintro ρa ρb ⟨ha, hVars, hMem, hb⟩
    rw [hVisit ρa ha hVars]
    refine Nest.visit_congr ((setAll_mem _).trans hMem.symm) fun n hn => (hb n ?_).symm
    rintro p hp rfl
    rw [hUnread p hp] at hn
    cases hn
  · exact ⟨hAround, hStart, (setAll_mem _).trans hAround.mem.symm,
      fun n hn => setAll_vars_congr (hElse n hn).symm⟩

theorem count_flatMap_filterMap {α β γ : Type} [BEq γ] {l : List α} {g : α → Option β}
    {k : α → List γ} {h : β → List γ} {c : γ}
    (hk : ∀ a, (k a).count c = match g a with | some b => (h b).count c | none => 0) :
    (l.flatMap k).count c = ((l.filterMap g).flatMap h).count c := by
  induction l with
  | nil => rfl
  | cons a l ih =>
      rw [List.flatMap_cons, List.count_append, ih, hk a]
      cases hg : g a with
      | none => rw [List.filterMap_cons_none hg, Nat.zero_add]
      | some b => rw [List.filterMap_cons_some hg, List.flatMap_cons, List.count_append]

end Rearrange

end Vyasa.Schedule
