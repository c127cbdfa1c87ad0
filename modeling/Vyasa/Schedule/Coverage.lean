import Vyasa.Schedule.State

/-! What the loops visit before and after a directive, and after a whole schedule:
with exact splits every index once, with shifted splits every index and nothing
above the maximum, with one rounded split the rest of the last tile as well. -/
namespace Vyasa.Schedule

open Word IRMatch Vyasa.Expr Euclid

variable {pre : String} {all used rest : List String} {σ σ' : State} {s : Split}
  {splits : List Split} {simplify : Expr → Expr} {buffers types : Name → IntType}
  {d old outer inner : String} {factor : Expr} {tail : TailStrategy} {f : Int}
  {placement : Placement} {c : Option (Option Int)} {ρ ρ₀ : Env} {nest : Nest}

theorem visits_eq_of_visit {fixed : List (String × Int)} (hRest : rest ⊆ used) (hUsed : used ⊆ all)
    (hFixed : ∀ p ∈ fixed, p.1 ∉ rest) (hAround : Around pre all used ρ ρ₀)
    (hStart : ∀ p ∈ fixed, ρ₀.vars (loopVar pre p.1) = p.2)
    (hVisit : ∀ ρ', Around pre all used ρ ρ' →
      (∀ p ∈ fixed, ρ'.vars (loopVar pre p.1) = p.2) → Nest.visit ρ' nest = c) :
    ∀ o ∈ visits pre rest ρ₀ nest, o = c := by
  intro o ho
  obtain ⟨ρ', hMem, rfl⟩ := List.mem_map.mp ho
  obtain ⟨ha, hVars⟩ := mem_iterations (P := fun ρ' => Around pre all used ρ ρ' ∧
    ∀ p ∈ fixed, ρ'.vars (loopVar pre p.1) = p.2) hMem ⟨hAround, hStart⟩ (by
      rintro ρ' ⟨ha, hVars⟩ d hd v -
      refine ⟨ha.set (hUsed (hRest hd)) v, fun p hp => ?_⟩
      have hNe : p.1 ≠ d := fun hEq => hFixed p hp (hEq ▸ hd)
      rw [Env.set_vars_of_ne fun hEq => hNe (loopVar_injective pre hEq), hVars p hp])
  exact hVisit ρ' ha hVars

theorem Extends.around {ρ' : Env} (h : Extends pre all used ρ ρ') : Around pre all used ρ ρ' :=
  ⟨h.mem, fun n hn => h.vars n
    (hn.mono (List.Subset.refl _) fun _ hd => absurd hd List.not_mem_nil)⟩

theorem Extends.trans_around {used' : List String} {ρ' : Env} (h : Extends pre all used ρ ρ₀)
    (hUsed : used ⊆ used') (hAround : Around pre all used' ρ₀ ρ') : Around pre all used ρ ρ' := by
  refine ⟨hAround.mem.trans h.mem, fun n hn => ?_⟩
  rw [hAround.vars n (hn.mono hUsed fun _ hd => absurd hd List.not_mem_nil), h.around.vars n hn]

/-- The loops never visit an index above `bound`, also where loop variables are
below their minimum. -/
def Below (pre : String) (all : List String) (bound : Int) (σ : State) : Prop :=
  ∀ ρ, Around pre all σ.used σ.env ρ →
    (∀ d ∈ σ.dims, ρ.vars (loopVar pre d) ≤ σ.env.vars (loopMax pre d)) →
    ∃ o, Nest.visit ρ σ.nest = some o ∧ ∀ i, o = some i → i ≤ bound

theorem Below.visits {bound : Int} (hInv : Invariant pre all buffers types σ)
    (hBelow : Below pre all bound σ) (hc : c ∈ σ.visits pre) :
    ∃ o, c = some o ∧ ∀ i, o = some i → i ≤ bound := by
  obtain ⟨ρ, hMem, rfl⟩ := List.mem_map.mp hc
  have hUsed := hInv.dims.used_subset
  refine hBelow ρ ?_ fun d hd => ?_
  · exact mem_iterations (P := Around pre all σ.used σ.env) hMem (Around.refl ..)
      fun ρ' hAround d hd v _ => hAround.set (hUsed (hInv.dims.subset hd)) v
  · have hLoop := loop_of_mem_iterations hInv.dims.nodup hMem d hd
    rw [mem_interval] at hLoop
    rw [hInv.max d hd]
    omega

section Split

variable (hTypes : LoopTypes pre all types) (hInv : Invariant pre all buffers types σ)
  (hStep : SplitStep pre all buffers types old outer inner factor f placement σ σ')

/-- The pairs of values of the new loops. -/
abbrev pairs (pre : String) (σ : State) (old : String) (f : Int) : List (Int × Int) :=
  interval 0 ((σ.env.vars (loopExtent pre old) - 1 + f) / f) ×ˢ interval 0 f

/-- Where a pair of them puts the old variable. -/
abbrev placed (pre : String) (σ : State) (old : String) (f : Int) (placement : Placement) :
    Int × Int → Option Int :=
  placement.index (σ.env.vars (loopMin pre old)) (σ.env.vars (loopExtent pre old)) f

include hTypes hInv hStep

theorem SplitStep.visit {ρ : Env} (hAround : Around pre all σ.used σ.env ρ) :
    Nest.visit ρ σ'.nest =
      match placed pre σ old f placement
        (ρ.vars (loopVar pre outer), ρ.vars (loopVar pre inner)) with
      | some v => Nest.visit (ρ.set (loopVar pre old) v) σ.nest
      | none => some none := by
  rw [hStep.nest_eq]
  exact visit_placement hTypes hInv.dims hStep.names hInv.nest hStep.outside hAround hStep.value
    (hInv.max old hStep.names.old_mem) placement

/-- What the new loops visit at one pair of values. -/
theorem SplitStep.visits_at (p : Int × Int) :
    (∀ v, placed pre σ old f placement p = some v →
      visits pre (σ.dims.erase old) ((σ'.env.set (loopVar pre outer) p.1).set
        (loopVar pre inner) p.2) σ'.nest =
        visits pre (σ.dims.erase old) (σ.env.set (loopVar pre old) v) σ.nest) ∧
    (placed pre σ old f placement p = none →
      ∀ o ∈ visits pre (σ.dims.erase old) ((σ'.env.set (loopVar pre outer) p.1).set
        (loopVar pre inner) p.2) σ'.nest, o = some none) := by
  have hNames := hStep.names
  have hRest : σ.dims.erase old ⊆ σ.used := fun d hd =>
    hInv.dims.subset (List.mem_of_mem_erase hd)
  have hUsed := hInv.dims.used_subset
  have hVars : loopVar pre outer ≠ loopVar pre inner :=
    fun h => hNames.outer_ne_inner (loopVar_injective pre h)
  have hBase := hStep.extends_env.around
  have hFixed : ∀ q ∈ [(outer, p.1), (inner, p.2)], q.1 ∉ σ.dims.erase old := by
    simp only [List.forall_mem_cons, List.not_mem_nil, false_implies, implies_true, and_true]
    exact ⟨fun h => hNames.outer_fresh (hRest h), fun h => hNames.inner_fresh (hRest h)⟩
  have hAround : Around pre all σ.used σ'.env
      ((σ'.env.set (loopVar pre outer) p.1).set (loopVar pre inner) p.2) :=
    ((Around.refl ..).set hNames.outer_all _).set hNames.inner_all _
  have hStart : ∀ q ∈ [(outer, p.1), (inner, p.2)],
      ((σ'.env.set (loopVar pre outer) p.1).set (loopVar pre inner) p.2).vars (loopVar pre q.1) =
        q.2 := by
    simp [Env.set_vars_of_ne hVars]
  have hVisit {ρ : Env} (ha : Around pre all σ.used σ'.env ρ)
      (hv : ∀ q ∈ [(outer, p.1), (inner, p.2)], ρ.vars (loopVar pre q.1) = q.2) :
      Nest.visit ρ σ'.nest = match placed pre σ old f placement p with
        | some v => Nest.visit (ρ.set (loopVar pre old) v) σ.nest
        | none => some none := by
    have hAt := hStep.visit hTypes hInv
      ⟨ha.mem.trans hBase.mem, fun n hn => (ha.vars n hn).trans (hBase.vars n hn)⟩
    rwa [hv (outer, p.1) (by simp), hv (inner, p.2) (by simp)] at hAt
  constructor
  · intro v hPlaced
    have hUnread {k : String} (hAll : k ∈ all) (hFresh : k ∉ σ.used) :
        σ.nest.mentions (loopVar pre k) = false :=
      hInv.nest.not_mentions fun n hn => hn.ne_loopVar hAll fun h => hFresh (hInv.dims.subset h)
    have hDefine := visits_define σ.nest [(old, v)] hRest hUsed hFixed
      (by simp [hInv.dims.nodup.not_mem_erase]) hAround hStart
      (fun n hn => by
        rw [Env.set_vars_of_ne (hn (inner, p.2) (by simp)),
          Env.set_vars_of_ne (hn (outer, p.1) (by simp))])
      (by
        simp only [List.forall_mem_cons, List.not_mem_nil, false_implies, implies_true, and_true]
        exact ⟨hUnread hNames.outer_all hNames.outer_fresh,
          hUnread hNames.inner_all hNames.inner_fresh⟩)
      (fun ρ' ha hv => by
        rw [hVisit ha hv, hPlaced]
        rfl)
    refine hDefine.trans (visits_extends (hStep.extends_env.set _ v) hRest
      (fun d hd => hUsed (hInv.dims.subset hd)) hInv.nest)
  · intro hNone
    refine visits_eq_of_visit hRest hUsed hFixed hAround hStart fun ρ' ha hv => ?_
    rw [hVisit ha hv, hNone]

omit hTypes in
theorem SplitStep.perm_visits :
    (σ'.visits pre).Perm ((pairs pre σ old f).flatMap fun p =>
      visits pre (σ.dims.erase old) ((σ'.env.set (loopVar pre outer) p.1).set
        (loopVar pre inner) p.2) σ'.nest) := by
  have hInv' : (inner :: outer :: σ.dims.erase old).Nodup := by
    have hRest : σ.dims.erase old ⊆ σ.used := fun d hd =>
      hInv.dims.subset (List.mem_of_mem_erase hd)
    have hInner : inner ∉ σ.dims.erase old := fun h => hStep.names.inner_fresh (hRest h)
    have hOuter : outer ∉ σ.dims.erase old := fun h => hStep.names.outer_fresh (hRest h)
    simp [hInner, hOuter, hStep.names.outer_ne_inner.symm, hInv.dims.nodup.erase]
  have hSwap : (visits pre (inner :: outer :: σ.dims.erase old) σ'.env σ'.nest).Perm
      (visits pre (outer :: inner :: σ.dims.erase old) σ'.env σ'.nest) :=
    visits_perm (List.Perm.swap outer inner (σ.dims.erase old)) hInv' σ'.env σ'.nest
  rw [visits_pair outer inner, loop, loop, hStep.outer_loop.1, hStep.outer_loop.2.1, hStep.inner_loop.1,
    hStep.inner_loop.2.1] at hSwap
  rw [State.visits, hStep.dims_eq]
  exact hSwap

/-- How often the new loops visit an index, from where they place the old variable. -/
theorem SplitStep.count_visits (hc : c ≠ some none) {values : List Int}
    (hPlaced : ((pairs pre σ old f).filterMap (placed pre σ old f placement)).Perm values) :
    (σ'.visits pre).count c = (values.flatMap fun v =>
      visits pre (σ.dims.erase old) (σ.env.set (loopVar pre old) v) σ.nest).count c := by
  rw [(hStep.perm_visits hInv).count_eq, count_flatMap_filterMap (fun p => ?_),
    (hPlaced.flatMap_right _).count_eq]
  obtain ⟨hSome, hNone⟩ := hStep.visits_at hTypes hInv p
  cases hg : placed pre σ old f placement p with
  | none => exact List.count_eq_zero.mpr fun h => hc (hNone hg c h)
  | some v => rw [hSome v hg]

omit hTypes hStep in
theorem visits_old (hOld : old ∈ σ.dims) :
    (σ.visits pre).Perm ((loop pre σ.env old).flatMap fun v =>
      visits pre (σ.dims.erase old) (σ.env.set (loopVar pre old) v) σ.nest) := by
  rw [← visits_cons]
  exact visits_perm (List.perm_cons_erase hOld) hInv.dims.nodup _ _

/-- A split that places the old variable at each of its values once. -/
theorem SplitStep.count_exact (hc : c ≠ some none)
    (hExact : placement = .tiled ∧ f ∣ σ.env.vars (loopExtent pre old) ∨ placement = .guarded) :
    (σ'.visits pre).count c = (σ.visits pre).count c := by
  rw [(visits_old hInv hStep.names.old_mem).count_eq]
  refine hStep.count_visits hTypes hInv hc ?_
  rcases hExact with ⟨rfl, hDvd⟩ | rfl
  · have hTiles : ((pairs pre σ old f).filterMap (placed pre σ old f .tiled)).Perm _ :=
      filterMap_tiled hStep.positive
    rwa [tiles_of_dvd hStep.positive hDvd] at hTiles
  · exact filterMap_guarded hStep.positive (le_tiles hStep.positive)

/-- Every value of the old variable is still placed. -/
theorem SplitStep.covers (hPlaced : placement ≠ .tiled ∨ f ∣ σ.env.vars (loopExtent pre old))
    (h : c ∈ σ.visits pre) : c ∈ σ'.visits pre := by
  have hPos := hStep.positive
  have hFound {v : Int} (hv : v ∈ loop pre σ.env old) :
      ∃ p ∈ pairs pre σ old f, placed pre σ old f placement p = some v := by
    rw [mem_interval] at hv
    cases hPlacement : placement with
    | tiled =>
        have hDvd := hPlaced.resolve_left (fun hNe => hNe hPlacement)
        obtain ⟨p, hp, hTile⟩ := exists_tile hPos hv.1 (by rw [tiles_of_dvd hPos hDvd]; exact hv.2)
        exact ⟨p, hp, congrArg some hTile⟩
    | guarded =>
        have hMem := (filterMap_guarded hPos (le_tiles hPos)).mem_iff.mpr (mem_interval.mpr hv)
        exact List.mem_filterMap.mp hMem
    | shifted =>
        obtain ⟨p, hp, hIndex⟩ := exists_shifted_tile hPos hv.1 hv.2
        exact ⟨p, hp, congrArg some hIndex⟩
  rw [(visits_old hInv hStep.names.old_mem).mem_iff, List.mem_flatMap] at h
  obtain ⟨v, hv, hMem⟩ := h
  obtain ⟨p, hp, hIndex⟩ := hFound hv
  rw [(hStep.perm_visits hInv).mem_iff, List.mem_flatMap]
  exact ⟨p, hp, by rwa [(hStep.visits_at hTypes hInv p).1 v hIndex]⟩

omit hTypes hInv in
theorem SplitStep.around {ρ : Env} (hAround : Around pre all σ'.used σ'.env ρ) :
    Around pre all σ.used σ.env ρ :=
  hStep.extends_env.trans_around (by rw [hStep.used_eq]; exact List.subset_append_right ..) hAround

omit hTypes in
/-- The old variable is placed no higher than before. -/
theorem SplitStep.placed_le {p : Int × Int} {v : Int}
    (hPlaced : placement ≠ .tiled ∨ f ∣ σ.env.vars (loopExtent pre old))
    (hOuter : p.1 ≤ σ'.env.vars (loopMax pre outer))
    (hInner : p.2 ≤ σ'.env.vars (loopMax pre inner))
    (hv : placed pre σ old f placement p = some v) : v ≤ σ.env.vars (loopMax pre old) := by
  rw [hStep.outer_loop.2.2] at hOuter
  rw [hStep.inner_loop.2.2] at hInner
  rw [hInv.max old hStep.names.old_mem]
  cases placement with
  | tiled =>
      have hWhole := tiles_of_dvd hStep.positive (hPlaced.resolve_left (fun h => h rfl))
      have hTile : (p.1 + 1) * f ≤ (σ.env.vars (loopExtent pre old) - 1 + f) / f * f :=
        Int.mul_le_mul_of_nonneg_right (by omega) hStep.positive.le
      rw [hWhole, add_mul, one_mul] at hTile
      simp only [placed, Placement.index, tile, Option.some.injEq] at hv
      omega
  | guarded =>
      simp only [placed, Placement.index] at hv
      split_ifs at hv with hLess
      rw [Option.some.injEq] at hv
      omega
  | shifted =>
      simp only [placed, Placement.index, Option.some.injEq] at hv
      have hMin := min_le_right (p.1 * f + σ.env.vars (loopMin pre old))
        (σ.env.vars (loopMin pre old) + σ.env.vars (loopExtent pre old) - f)
      omega

theorem SplitStep.below {bound : Int}
    (hPlaced : placement ≠ .tiled ∨ f ∣ σ.env.vars (loopExtent pre old))
    (hBelow : Below pre all bound σ) : Below pre all bound σ' := by
  intro ρ hAround hLe
  have hOld : old ∈ all := hInv.dims.used_subset (hInv.dims.subset hStep.names.old_mem)
  rw [hStep.visit hTypes hInv (hStep.around hAround)]
  cases hv : placed pre σ old f placement
      (ρ.vars (loopVar pre outer), ρ.vars (loopVar pre inner)) with
  | none => exact ⟨none, rfl, fun i hi => by cases hi⟩
  | some v =>
      have hValue := hStep.placed_le hInv hPlaced (hLe outer (by simp [hStep.dims_eq]))
        (hLe inner (by simp [hStep.dims_eq])) hv
      refine hBelow _ ((hStep.around hAround).set hOld v) fun d hd => ?_
      by_cases hEq : d = old
      · rw [hEq, Env.set_vars_self]
        exact hValue
      · rw [Env.set_vars_of_ne fun h => hEq (loopVar_injective pre h),
          ← (hStep.extends_env.bounds (hInv.dims.subset hd)).2.1]
        refine hLe d ?_
        rw [hStep.dims_eq]
        simp [(List.mem_erase_of_ne hEq).mpr hd]

end Split

section Fuse

variable (hTypes : LoopTypes pre all types) (hInv : Invariant pre all buffers types σ)
  (hStep : FuseStep pre all old outer inner σ σ')

include hStep

theorem FuseStep.around {ρ : Env} (hAround : Around pre all σ'.used σ'.env ρ) :
    Around pre all σ.used σ.env ρ :=
  hStep.extends_env.trans_around (by rw [hStep.used_eq]; exact List.subset_append_right ..) hAround

include hTypes hInv

theorem FuseStep.visit {ρ : Env} (hAround : Around pre all σ.used σ.env ρ) :
    Nest.visit ρ σ'.nest = Nest.visit ((ρ.set (loopVar pre outer) (ρ.vars (loopVar pre old) /
      σ.env.vars (loopExtent pre inner) + σ.env.vars (loopMin pre outer))).set (loopVar pre inner)
      (ρ.vars (loopVar pre old) % σ.env.vars (loopExtent pre inner) +
        σ.env.vars (loopMin pre inner))) σ.nest := by
  have hInner := hInv.dims.subset hStep.inner_mem
  have hOuter := hInv.dims.subset hStep.outer_mem
  obtain ⟨hMid, -⟩ := fuse_changes inner hStep.outer_mem hStep.old_fresh
  rw [hStep.nest_eq, visit_fusedNest hTypes hInv.nest hStep.old_all hStep.old_fresh
    (hInv.dims.used_subset hInner) (hInv.dims.used_subset hOuter) hStep.outer_ne_inner hInner hOuter
    hMid (by rw [(hAround.bounds hInner).2.2]; exact hInv.extent inner hStep.inner_mem),
    (hAround.bounds hInner).2.2, (hAround.bounds hInner).1, (hAround.bounds hOuter).1]

/-- A fused loop visits what the two loops did. -/
theorem FuseStep.perm_visits : (σ'.visits pre).Perm (σ.visits pre) := by
  have hRestDims : (σ.dims.erase inner).erase outer ⊆ σ.dims := fun d hd =>
    List.mem_of_mem_erase (List.mem_of_mem_erase hd)
  have hRest := fun d hd => hInv.dims.subset (hRestDims (a := d) hd)
  have hUsed := hInv.dims.used_subset
  have hNodup := hInv.dims.nodup.erase inner
  have hAt (x : Int) : visits pre ((σ.dims.erase inner).erase outer)
      (σ'.env.set (loopVar pre old) x) σ'.nest =
      visits pre ((σ.dims.erase inner).erase outer) ((σ.env.set (loopVar pre outer)
        (x / σ.env.vars (loopExtent pre inner) + σ.env.vars (loopMin pre outer))).set
        (loopVar pre inner) (x % σ.env.vars (loopExtent pre inner) +
          σ.env.vars (loopMin pre inner))) σ.nest := by
    have hDefine := visits_define σ.nest
      [(outer, x / σ.env.vars (loopExtent pre inner) + σ.env.vars (loopMin pre outer)),
        (inner, x % σ.env.vars (loopExtent pre inner) + σ.env.vars (loopMin pre inner))]
      hRest hUsed
      (show ∀ p ∈ [(old, x)], p.1 ∉ (σ.dims.erase inner).erase outer by
        simpa using fun h => hStep.old_fresh (hRest old h))
      (by
        simp only [List.forall_mem_cons, List.not_mem_nil, false_implies, implies_true, and_true]
        exact ⟨hNodup.not_mem_erase,
          fun h => hInv.dims.nodup.not_mem_erase (List.mem_of_mem_erase h)⟩)
      ((Around.refl pre all σ.used σ'.env).set hStep.old_all x) (by simp)
      (fun n hn => Env.set_vars_of_ne (hn (old, x) (by simp)))
      (by
        simp only [List.forall_mem_cons, List.not_mem_nil, false_implies, implies_true, and_true]
        exact hInv.nest.not_mentions fun n hn => hn.ne_loopVar hStep.old_all
          fun h => hStep.old_fresh (hInv.dims.subset h))
      (fun ρ' ha hv => by
        have hVisit := hStep.visit hTypes hInv
          (hStep.extends_env.trans_around (List.Subset.refl _) ha)
        rw [hv (old, x) (by simp)] at hVisit
        exact hVisit)
    exact hDefine.trans (visits_extends ((hStep.extends_env.set _ _).set _ _) hRest
      (fun d hd => hUsed (hInv.dims.subset hd)) hInv.nest)
  have hDims : σ.dims.Perm (outer :: inner :: (σ.dims.erase inner).erase outer) := by
    have hOuter : outer ∈ σ.dims.erase inner :=
      (List.mem_erase_of_ne hStep.outer_ne_inner).mpr hStep.outer_mem
    exact ((List.perm_cons_erase hStep.inner_mem).trans
      ((List.perm_cons_erase hOuter).cons inner)).trans (List.Perm.swap ..)
  have hBefore : (visits pre σ.dims σ.env σ.nest).Perm
      (visits pre (outer :: inner :: (σ.dims.erase inner).erase outer) σ.env σ.nest) :=
    visits_perm hDims hInv.dims.nodup σ.env σ.nest
  rw [visits_pair] at hBefore
  rw [State.visits, State.visits, hStep.dims_eq, visits_cons, loop, hStep.old_loop.1,
    hStep.old_loop.2.1]
  simp only [hAt]
  refine List.Perm.trans ?_ hBefore.symm
  have hFuse := (fuse_perm (σ.env.vars (loopMin pre inner)) (σ.env.vars (loopMin pre outer))
    (σ.env.vars (loopExtent pre outer)) (hInv.extent inner hStep.inner_mem)).flatMap_right
      fun p : Int × Int => visits pre ((σ.dims.erase inner).erase outer)
        ((σ.env.set (loopVar pre outer) p.1).set (loopVar pre inner) p.2) σ.nest
  rw [List.flatMap_map] at hFuse
  exact hFuse

theorem FuseStep.below {bound : Int} (hBelow : Below pre all bound σ) :
    Below pre all bound σ' := by
  intro ρ hAround hLe
  have hUsed := hInv.dims.used_subset
  have hAll {k : String} (hk : k ∈ σ.dims) : k ∈ all := hUsed (hInv.dims.subset hk)
  have hPos := hInv.extent inner hStep.inner_mem
  have hFused := hLe old (by simp [hStep.dims_eq])
  rw [hStep.old_loop.2.2] at hFused
  rw [hStep.visit hTypes hInv (hStep.around hAround)]
  refine hBelow _ (((hStep.around hAround).set (hAll hStep.outer_mem) _).set
    (hAll hStep.inner_mem) _) fun d hd => ?_
  by_cases hInner : d = inner
  · have hLess := Int.emod_lt_of_pos (ρ.vars (loopVar pre old)) hPos
    rw [hInner, Env.set_vars_self, hInv.max inner hStep.inner_mem]
    omega
  · rw [Env.set_vars_of_ne fun h => hInner (loopVar_injective pre h)]
    by_cases hOuter : d = outer
    · have hLess : ρ.vars (loopVar pre old) / σ.env.vars (loopExtent pre inner) <
          σ.env.vars (loopExtent pre outer) :=
        Int.ediv_lt_of_lt_mul hPos (by rw [mul_comm]; omega)
      rw [hOuter, Env.set_vars_self, hInv.max outer hStep.outer_mem]
      omega
    · rw [Env.set_vars_of_ne fun h => hOuter (loopVar_injective pre h),
        ← (hStep.extends_env.bounds (hInv.dims.subset hd)).2.1]
      refine hLe d ?_
      rw [hStep.dims_eq]
      exact List.mem_cons_of_mem _
        ((List.mem_erase_of_ne hOuter).mpr ((List.mem_erase_of_ne hInner).mpr hd))

end Fuse

section Rename

variable (hTypes : LoopTypes pre all types) (hInv : Invariant pre all buffers types σ)
  (hStep : RenameStep pre all old outer σ σ')

include hTypes hInv hStep

theorem RenameStep.visit (ρ : Env) :
    Nest.visit ρ σ'.nest =
      Nest.visit (ρ.set (loopVar pre old) (ρ.vars (loopVar pre outer))) σ.nest := by
  have hUsed := hInv.dims.subset hStep.old_mem
  rw [hStep.nest_eq]
  exact visit_renamedNest hTypes hInv.nest (hInv.dims.used_subset hUsed) hStep.outer_all
    hStep.outer_fresh fun h => hStep.outer_fresh (h ▸ hUsed)

theorem RenameStep.perm_visits : (σ'.visits pre).Perm (σ.visits pre) := by
  have hRest : σ.dims.erase old ⊆ σ.used := fun d hd =>
    hInv.dims.subset (List.mem_of_mem_erase hd)
  have hUsed := hInv.dims.used_subset
  have hAt (x : Int) : visits pre (σ.dims.erase old) (σ'.env.set (loopVar pre outer) x) σ'.nest =
      visits pre (σ.dims.erase old) (σ.env.set (loopVar pre old) x) σ.nest := by
    have hDefine := visits_define σ.nest [(old, x)] hRest hUsed
      (show ∀ p ∈ [(outer, x)], p.1 ∉ σ.dims.erase old by
        simpa using fun h => hStep.outer_fresh (hRest h))
      (by simp [hInv.dims.nodup.not_mem_erase])
      ((Around.refl pre all σ.used σ'.env).set hStep.outer_all x) (by simp)
      (fun n hn => Env.set_vars_of_ne (hn (outer, x) (by simp)))
      (by
        simp only [List.forall_mem_cons, List.not_mem_nil, false_implies, implies_true, and_true]
        exact hInv.nest.not_mentions fun n hn => hn.ne_loopVar hStep.outer_all
          fun h => hStep.outer_fresh (hInv.dims.subset h))
      (fun ρ' _ hv => by
        rw [hStep.visit hTypes hInv ρ', hv (outer, x) (by simp)]
        rfl)
    exact hDefine.trans (visits_extends (hStep.extends_env.set _ _) hRest
      (fun d hd => hUsed (hInv.dims.subset hd)) hInv.nest)
  refine List.Perm.trans ?_ (visits_old hInv hStep.old_mem).symm
  rw [State.visits, hStep.dims_eq, visits_cons, loop, hStep.outer_loop.1, hStep.outer_loop.2.1]
  simp only [hAt]
  exact List.Perm.refl _

theorem RenameStep.below {bound : Int} (hBelow : Below pre all bound σ) :
    Below pre all bound σ' := by
  intro ρ hAround hLe
  have hAround' : Around pre all σ.used σ.env ρ := hStep.extends_env.trans_around
    (by rw [hStep.used_eq]; exact List.subset_append_right ..) hAround
  have hOld : old ∈ all := hInv.dims.used_subset (hInv.dims.subset hStep.old_mem)
  rw [hStep.visit hTypes hInv]
  refine hBelow _ (hAround'.set hOld _) fun d hd => ?_
  by_cases hEq : d = old
  · rw [hEq, Env.set_vars_self, ← hStep.outer_loop.2.2]
    exact hLe outer (by simp [hStep.dims_eq])
  · rw [Env.set_vars_of_ne fun h => hEq (loopVar_injective pre h),
      ← (hStep.extends_env.bounds (hInv.dims.subset hd)).2.1]
    refine hLe d ?_
    rw [hStep.dims_eq]
    exact List.mem_cons_of_mem _ ((List.mem_erase_of_ne hEq).mpr hd)

end Rename

section Run

/-- Every split has such a tail strategy, or a factor that is found to divide the extent. -/
def Tails (ok : TailStrategy → Prop) (simplify : Expr → Expr) (pre : String) :
    ExtentAlignment → List Split → Prop
  | _, [] => True
  | alignment, s :: splits =>
      (match s with
        | .split oldVar _ _ factor tail =>
            ok tail ∨ provenDivisible simplify alignment oldVar factor = true ∨ factor.isOne = true
        | _ => True) ∧
      ∀ results alignment', applySplit simplify pre alignment s = some (results, alignment') →
        Tails ok simplify pre alignment' splits

/-- Every directive is valid for the dimensions that the ones before it leave. -/
def ValidSchedule (pre : String) (all : List String) (buffers types : Name → IntType) (ρ : Env) :
    List String → List String → List Split → Prop
  | _, _, [] => True
  | used, dims, s :: splits =>
      s.Valid pre all buffers types ρ used dims ∧
        ValidSchedule pre all buffers types ρ (s.created ++ used) (s.dims dims) splits

theorem Split.Valid.extends {used' dims : List String} {ρ' : Env} (h : Extends pre all used ρ ρ')
    (hValid : s.Valid pre all buffers types ρ used' dims) :
    s.Valid pre all buffers types ρ' used' dims := by
  cases s with
  | split oldVar outer inner factor tail =>
      obtain ⟨hNames, hAuto, hOutside, hSign, f, hf, hPos⟩ := hValid
      exact ⟨hNames, hAuto, hOutside, hSign, f, (h.exact_outside hOutside).trans hf, hPos⟩
  | fuse | rename => exact hValid

theorem ValidSchedule.extends {used' dims : List String} {ρ' : Env} (h : Extends pre all used ρ ρ')
    (hValid : ValidSchedule pre all buffers types ρ used' dims splits) :
    ValidSchedule pre all buffers types ρ' used' dims splits := by
  induction splits generalizing used' dims with
  | nil => trivial
  | cons s splits ih => exact ⟨hValid.1.extends h, ih hValid.2⟩

variable (hSimplify : SimplifySound simplify) (hTypes : LoopTypes pre all types)

include hSimplify hTypes

/-- One directive, whatever it is. -/
theorem step_any (hInv : Invariant pre all buffers types σ)
    (hValid : s.Valid pre all buffers types σ.env σ.used σ.dims) :
    ∃ σ', σ.step simplify pre s = some σ' ∧ Invariant pre all buffers types σ' ∧
      Extends pre all σ.used σ.env σ'.env ∧
      (Tails (· = .guardWithIf) simplify pre σ.alignment [s] →
        ∀ c, c ≠ some none → (σ'.visits pre).count c = (σ.visits pre).count c) ∧
      (Tails (· ≠ .roundUp) simplify pre σ.alignment [s] →
        (∀ c ∈ σ.visits pre, c ∈ σ'.visits pre) ∧
          ∀ bound, Below pre all bound σ → Below pre all bound σ') := by
  cases s with
  | split oldVar outer inner factor tail =>
      obtain ⟨σ', f, placement, hRun, hInv', hStep, hChoice⟩ :=
        step_split hInv hSimplify hTypes hValid
      refine ⟨σ', hRun, hInv', hStep.extends_env, fun hTails c hc => ?_, fun hTails => ?_⟩
      · refine hStep.count_exact hTypes hInv hc (hChoice.imp_right fun h => ?_)
        obtain ⟨hProven, hOne, rfl⟩ := h
        rcases hTails.1 with hTail | hTail | hTail
        · rw [hTail]
          rfl
        · rw [hProven] at hTail
          cases hTail
        · rw [hOne] at hTail
          cases hTail
      · have hPlaced : placement ≠ .tiled ∨ f ∣ σ.env.vars (loopExtent pre oldVar) := by
          rcases hChoice with ⟨-, hDvd⟩ | ⟨hProven, hOne, rfl⟩
          · exact Or.inr hDvd
          · refine Or.inl ?_
            rcases hTails.1 with hTail | hTail | hTail
            · cases tail with
              | roundUp => exact absurd rfl hTail
              | auto => exact absurd rfl hValid.2.1
              | guardWithIf | shiftInwards => exact Placement.noConfusion
            · rw [hProven] at hTail
              cases hTail
            · rw [hOne] at hTail
              cases hTail
        exact ⟨fun c => hStep.covers hTypes hInv hPlaced, fun _ => hStep.below hTypes hInv hPlaced⟩
  | fuse oldVar outer inner =>
      obtain ⟨σ', hRun, hInv', hStep⟩ := step_fuse hInv hTypes hValid
      have hPerm := hStep.perm_visits hTypes hInv
      exact ⟨σ', hRun, hInv', hStep.extends_env, fun _ c _ => hPerm.count_eq c,
        fun _ => ⟨fun c => hPerm.mem_iff.mpr, fun _ => hStep.below hTypes hInv⟩⟩
  | rename oldVar outer =>
      obtain ⟨σ', hRun, hInv', hStep⟩ := step_rename hInv hTypes hValid
      have hPerm := hStep.perm_visits hTypes hInv
      exact ⟨σ', hRun, hInv', hStep.extends_env, fun _ c _ => hPerm.count_eq c,
        fun _ => ⟨fun c => hPerm.mem_iff.mpr, fun _ => hStep.below hTypes hInv⟩⟩

theorem run_any (hInv : Invariant pre all buffers types σ)
    (hValid : ValidSchedule pre all buffers types σ.env σ.used σ.dims splits) :
    ∃ σ', σ.run simplify pre splits = some σ' ∧ Invariant pre all buffers types σ' ∧
      (Tails (· = .guardWithIf) simplify pre σ.alignment splits →
        ∀ c, c ≠ some none → (σ'.visits pre).count c = (σ.visits pre).count c) ∧
      (Tails (· ≠ .roundUp) simplify pre σ.alignment splits →
        (∀ c ∈ σ.visits pre, c ∈ σ'.visits pre) ∧
          ∀ bound, Below pre all bound σ → Below pre all bound σ') := by
  induction splits generalizing σ with
  | nil => exact ⟨σ, rfl, hInv, fun _ _ _ => rfl, fun _ => ⟨fun _ h => h, fun _ h => h⟩⟩
  | cons s splits ih =>
      obtain ⟨σ₁, hStep, hInv₁, hExtends, hExact, hCovers⟩ :=
        step_any hSimplify hTypes hInv hValid.1
      obtain ⟨results, hResults, -, hUsed, hDims, -⟩ := State.step_eq_some hStep
      have hValid₁ : ValidSchedule pre all buffers types σ₁.env σ₁.used σ₁.dims splits := by
        rw [hUsed, hDims]
        exact hValid.2.extends hExtends
      obtain ⟨σ', hRun, hInv', hExact', hCovers'⟩ := ih hInv₁ hValid₁
      refine ⟨σ', ?_, hInv', fun hTails c hc => ?_, fun hTails => ?_⟩
      · simp only [State.run, List.foldlM_cons, hStep, Option.bind_eq_bind, Option.bind_some]
        exact hRun
      · rw [hExact' (hTails.2 _ _ hResults) c hc, hExact ⟨hTails.1, fun _ _ _ => trivial⟩ c hc]
      · obtain ⟨hMem, hBelow⟩ := hCovers ⟨hTails.1, fun _ _ _ => trivial⟩
        obtain ⟨hMem', hBelow'⟩ := hCovers' (hTails.2 _ _ hResults)
        exact ⟨fun c h => hMem' c (hMem c h), fun bound h => hBelow' bound (hBelow bound h)⟩

end Run

section Schedule

/-- The dimensions of a schedule of `x`. -/
def allDims (x : String) (splits : List Split) : List String := x :: splits.flatMap Split.created

/-- A schedule of the dimension `x`, which has bounds `[min, max]`. What is known
about its extent is right, and nothing is known about dimensions to come. -/
structure Scheduled (pre : String) (buffers types : Name → IntType) (ρ : Env) (x : String)
    (min max : Int) (alignment : ExtentAlignment) (splits : List Split) : Prop where
  min_le_max : min ≤ max
  loop_min : ρ.vars (loopMin pre x) = min
  loop_max : ρ.vars (loopMax pre x) = max
  loop_extent : ρ.vars (loopExtent pre x) = max + 1 - min
  loop_types : LoopTypes pre (allDims x splits) types
  valid : ValidSchedule pre (allDims x splits) buffers types ρ [x] [x] splits
  aligned : ∀ e, alignment x = some e → Outside pre (allDims x splits) buffers types e ∧
    ∃ v, exact ρ e = some v ∧ 0 < v ∧ v ∣ max + 1 - min
  fresh : ∀ d ∈ allDims x splits, d ≠ x → alignment d = none

variable {x : String} {min max : Int} {alignment : ExtentAlignment}

/-- The state before the first directive. -/
def initial (pre : String) (ρ : Env) (x : String) (alignment : ExtentAlignment) : State :=
  { env := ρ, used := [x], dims := [x], alignment, nest := .body (intVar (loopVar pre x)) }

theorem count_map_some (l : List Int) (i : Int) :
    (l.map fun v => some (some v)).count (some (some i)) = l.count i :=
  List.count_map_of_injective l (fun v => some (some v)) (fun a b h => by simpa using h) i

theorem visits_initial (pre : String) (ρ : Env) (x : String) (alignment : ExtentAlignment) :
    (initial pre ρ x alignment).visits pre =
      (loop pre ρ x).map fun v => some (some v) := by
  simp only [initial, State.visits, visits, iterations_cons, iterations, List.map_flatMap,
    List.map_cons, List.map_nil, Nest.visit_body, exact_intVar, Env.set_vars_self, Option.map_some]
  exact List.map_eq_flatMap.symm

variable (hSchedule : Scheduled pre buffers types ρ x min max alignment splits)

include hSchedule

theorem Scheduled.invariant :
    Invariant pre (allDims x splits) buffers types (initial pre ρ x alignment) := by
  have hMem : x ∈ allDims x splits := List.mem_cons_self ..
  have hLe := hSchedule.min_le_max
  refine ⟨⟨List.Subset.refl _, ?_, List.nodup_singleton x⟩, ?_, ?_, ?_, ?_, ?_, ?_, ?_⟩
  · simpa [initial] using hMem
  · simp only [initial, List.mem_singleton, forall_eq, hSchedule.loop_extent]
    omega
  · simp only [initial, List.mem_singleton, forall_eq, hSchedule.loop_extent, hSchedule.loop_min,
      hSchedule.loop_max]
    omega
  · simp only [initial, List.mem_singleton, forall_eq, hSchedule.loop_extent]
    exact hSchedule.aligned
  · intro d hd hNot
    exact hSchedule.fresh d hd (by simpa [initial] using hNot)
  · exact hSchedule.loop_types x hMem _ (by simp [loopNames])
  · intro n hn
    refine Or.inr (Or.inl ⟨x, List.mem_singleton_self x, ?_⟩)
    simpa [initial, eq_comm] using hn
  · simp [initial]

theorem Scheduled.below : Below pre (allDims x splits) max (initial pre ρ x alignment) := by
  intro ρ' hAround hLe
  refine ⟨some (ρ'.vars (loopVar pre x)), by simp [initial, Nest.visit_body], fun i hi => ?_⟩
  have hMax := hLe x (by simp [initial])
  simp only [initial, hSchedule.loop_max] at hMax
  rw [Option.some.injEq] at hi
  omega

theorem Scheduled.count_initial (i : Int) :
    ((initial pre ρ x alignment).visits pre).count (some (some i)) =
      if min ≤ i ∧ i ≤ max then 1 else 0 := by
  rw [visits_initial, count_map_some, count_interval, hSchedule.loop_min, hSchedule.loop_extent]
  refine if_congr ?_ rfl rfl
  omega

omit hSchedule in
theorem initial_ne_none {o : Option (Option Int)}
    (ho : o ∈ (initial pre ρ x alignment).visits pre) : o ≠ none := by
  rw [visits_initial, List.mem_map] at ho
  obtain ⟨v, -, rfl⟩ := ho
  exact Option.some_ne_none _

/-- What a single rounded split visits: the whole of its tiles. -/
theorem Scheduled.count_rounded (hSimplify : SimplifySound simplify)
    (hOne : splits = [.split x outer inner factor .roundUp]) (hf : exact ρ factor = some f)
    (hRun : (initial pre ρ x alignment).run simplify pre splits = some σ') (hc : c ≠ some none) :
    (σ'.visits pre).count c = ((interval min ((max + 1 - min - 1 + f) / f * f)).map
      fun v => some (some v)).count c := by
  subst hOne
  obtain ⟨σ₁, f₁, placement, hStep, -, hSplit, hChoice⟩ :=
    step_split hSchedule.invariant hSimplify hSchedule.loop_types hSchedule.valid.1
  simp only [State.run, List.foldlM_cons, List.foldlM_nil, hStep, Option.bind_eq_bind,
    Option.bind_some, Option.pure_def, Option.some.injEq] at hRun
  have hTiled : placement = .tiled := hChoice.elim And.left fun h => h.2.2
  have hValue : f₁ = f := Option.some.inj (hSplit.value.symm.trans hf)
  subst hRun hTiled hValue
  rw [hSplit.count_visits hSchedule.loop_types hSchedule.invariant hc
    (filterMap_tiled hSplit.positive)]
  simp only [initial, List.erase_cons_head, visits, iterations, List.map_cons, List.map_nil,
    Nest.visit_body, exact_intVar, Env.set_vars_self, Option.map_some, hSchedule.loop_min,
    hSchedule.loop_extent, ← List.map_eq_flatMap]

end Schedule

/-- Ten indices in tiles of four, with the two loops fused again. -/
def tenSplits : List Split :=
  [.split "x" "x.o" "x.i" (int 4) .guardWithIf, .fuse "x.i.t" "x.o" "x.i"]

def tenEnv : Env where
  vars n := if n = loopMax "f." "x" then 9 else if n = loopExtent "f." "x" then 10 else 0
  mem _ _ := none

end Vyasa.Schedule
