import Vyasa.AICore.Extents
import Vyasa.Graph.DepthFirst
import Vyasa.Pointwise.Basic

/-! The reuse graph over the loads of a block, its connected components, and the steps
that both kinds of reuse take with the components: the check of the alignment, and the
offsets of the members. -/
namespace Vyasa.AICore

open Relation Vyasa.Expr

section Edges

/-- The pairs that the two nested loops over the loads visit. -/
def pairsBelow (numLoads : Nat) : List (Nat × Nat) :=
  (List.range numLoads).flatMap fun i => ((List.range numLoads).filter (i < ·)).map (i, ·)

/-- `ReuseGraph::AddEdge` -/
def addEdge (adj : Nat → List Nat) (v w : Nat) : Nat → List Nat :=
  let adj := Function.update adj v (adj v ++ [w])
  Function.update adj w (adj w ++ [v])

/-- Step 2 of both builders, where `related` is the test on a pair of loads. -/
def buildEdges (related : Nat → Nat → Option Bool) (numLoads : Nat) : Option (Nat → List Nat) :=
  (pairsBelow numLoads).foldlM
    (fun adj p => do return if ← related p.1 p.2 then addEdge adj p.1 p.2 else adj) fun _ => []

/-- `ReuseGraph::ExtractConnectedComponents` -/
def extractConnectedComponents (adj : Nat → List Nat) (numLoads : Nat) :
    Option (List LogicalMemoryGroup) :=
  (Graph.components adj numLoads (List.range numLoads) []).map (·.map ({ ids := · }))

variable {related : Nat → Nat → Option Bool} {adj adj' : Nat → List Nat} {v w x y numLoads : Nat}

theorem mem_pairsBelow : (v, w) ∈ pairsBelow numLoads ↔ v < w ∧ w < numLoads := by
  simp only [pairsBelow, List.mem_flatMap, List.mem_range, List.mem_map, List.mem_filter,
    decide_eq_true_eq, Prod.mk.injEq]
  constructor
  · rintro ⟨i, hi, j, ⟨hj, hLess⟩, rfl, rfl⟩
    exact ⟨hLess, hj⟩
  · rintro ⟨hLess, hw⟩
    exact ⟨v, hLess.trans hw, w, ⟨hw, hLess⟩, rfl, rfl⟩

theorem mem_addEdge : y ∈ addEdge adj v w x ↔ y ∈ adj x ∨ (x = v ∧ y = w) ∨ (x = w ∧ y = v) := by
  simp only [addEdge, Function.update_apply]
  split_ifs <;> simp_all

/-- An edge added for a pair of the list, in either direction. -/
def Edge (related : Nat → Nat → Option Bool) (pairs : List (Nat × Nat)) (x y : Nat) : Prop :=
  ∃ p ∈ pairs, related p.1 p.2 = some true ∧ ((x = p.1 ∧ y = p.2) ∨ (x = p.2 ∧ y = p.1))

theorem mem_foldlM_addEdge (pairs : List (Nat × Nat))
    (h : pairs.foldlM (fun adj p => do return if ← related p.1 p.2 then addEdge adj p.1 p.2 else adj)
      adj = some adj') :
    (y ∈ adj' x ↔ y ∈ adj x ∨ Edge related pairs x y) ∧
      ∀ p ∈ pairs, ∃ b, related p.1 p.2 = some b := by
  induction pairs generalizing adj with
  | nil =>
    cases h
    exact ⟨by simp [Edge], by simp⟩
  | cons p pairs ih =>
    rw [List.foldlM_cons] at h
    obtain ⟨adj₁, hStep, hRest⟩ := Option.bind_eq_some_iff.mp h
    obtain ⟨b, hb, hStep⟩ := Option.bind_eq_some_iff.mp hStep
    obtain ⟨hEdges, hDefined⟩ := ih hRest
    have hHead : y ∈ adj₁ x ↔ y ∈ adj x ∨ (related p.1 p.2 = some true ∧
        ((x = p.1 ∧ y = p.2) ∨ (x = p.2 ∧ y = p.1))) := by
      cases b with
      | true =>
        cases hStep
        rw [if_pos rfl, mem_addEdge]
        simp only [hb, true_and]
      | false =>
        cases hStep
        simp [hb]
    refine ⟨?_, fun q hq => ?_⟩
    · rw [hEdges, hHead, or_assoc]
      simp only [Edge, List.exists_mem_cons_iff]
    · rcases List.mem_cons.mp hq with rfl | hq
      · exact ⟨b, hb⟩
      · exact hDefined q hq

/-- The edges of the graph are the related pairs. -/
theorem mem_buildEdges (h : buildEdges related numLoads = some adj) :
    y ∈ adj x ↔ x < numLoads ∧ y < numLoads ∧
      ((x < y ∧ related x y = some true) ∨ (y < x ∧ related y x = some true)) := by
  rw [(mem_foldlM_addEdge _ h).1]
  constructor
  · rintro (hNil | ⟨⟨v, w⟩, hp, hRelated, ⟨rfl, rfl⟩ | ⟨rfl, rfl⟩⟩)
    · cases hNil
    · obtain ⟨hLess, hw⟩ := mem_pairsBelow.mp hp
      exact ⟨hLess.trans hw, hw, Or.inl ⟨hLess, hRelated⟩⟩
    · obtain ⟨hLess, hw⟩ := mem_pairsBelow.mp hp
      exact ⟨hw, hLess.trans hw, Or.inr ⟨hLess, hRelated⟩⟩
  · rintro ⟨hx, hy, ⟨hLess, hRelated⟩ | ⟨hLess, hRelated⟩⟩
    · exact Or.inr ⟨(x, y), mem_pairsBelow.mpr ⟨hLess, hy⟩, hRelated, Or.inl ⟨rfl, rfl⟩⟩
    · exact Or.inr ⟨(y, x), mem_pairsBelow.mpr ⟨hLess, hx⟩, hRelated, Or.inr ⟨rfl, rfl⟩⟩

/-- The recursion is never too deep, and the groups are the components. -/
theorem components_of_buildEdges (h : buildEdges related numLoads = some adj) :
    ∃ parts, extractConnectedComponents adj numLoads = some (parts.map ({ ids := · })) ∧
      Graph.Divides adj (List.range numLoads) parts ∧ ∀ x ∈ parts.flatten, x < numLoads := by
  have hInside : ∀ x ∈ Finset.range numLoads, ∀ y ∈ adj x, y ∈ Finset.range numLoads := by
    intro x _ y hy
    exact Finset.mem_range.mpr ((mem_buildEdges h).mp hy).2.1
  obtain ⟨parts, hParts⟩ := Graph.components_isSome hInside (Finset.card_range numLoads).le
    (List.range numLoads) (fun v hv => Finset.mem_range.mpr (List.mem_range.mp hv)) []
  have hSymm : ∀ x y, y ∈ adj x → x ∈ adj y := by
    intro x y hy
    obtain ⟨hx, hy, hPair⟩ := (mem_buildEdges h).mp hy
    exact (mem_buildEdges h).mpr ⟨hy, hx, hPair.symm⟩
  have hDivides := Graph.components_divides hSymm hParts
  refine ⟨parts, by rw [extractConnectedComponents, hParts]; rfl, hDivides, fun x hx => ?_⟩
  obtain ⟨v, hv, hReach⟩ := hDivides.reached x hx
  rcases ReflTransGen.cases_tail hReach with rfl | ⟨u, -, hStep⟩
  · exact List.mem_range.mp hv
  · exact ((mem_buildEdges h).mp hStep).2.1

end Edges

section Steps

/-- Step 5 of both builders, for one group. -/
def checkAlignment (c : Compiler) (extent : Interval) : Option Unit :=
  match extent.min with
  | .expr lo => do
    let alignment ← ModulusRemainder.modulusRemainder lo
    let requirementAlignment := 128 / c.dataTypeSizeInBits
    if !(alignment.modulus = 1 && alignment.remainder = 0) then
      guard (alignment.modulus.toInt.tmod requirementAlignment = 0)
  | _ => none

/-- Step 6 of both builders, for one group. -/
def mapToGroup (simplify : Expr → Expr) (heap : Heap) (loads : List LoadPtr) (label : String)
    (group : LogicalMemoryGroup) (count : Nat) : Option LogicalMemoryGroup := do
  let offsets ← group.ids.mapM fun id => do
    let load ← loads[id]?
    let base ← (heap load).base
    offsetOf simplify group.extent base
  return { group with name := label ++ toString count, offsets := offsets }

/-- Steps 5 and 6 of both builders. -/
def finishGroups (simplify : Expr → Expr) (c : Compiler) (heap : Heap) (loads : List LoadPtr)
    (label : String) (groups : List LogicalMemoryGroup) : Option (List LogicalMemoryGroup) := do
  let _ ← groups.mapM fun group => checkAlignment c group.extent
  groups.zipIdx.mapM fun p => mapToGroup simplify heap loads label p.1 p.2

/-- A group after step 6: the range and the members are as before, and every member
has an offset. -/
structure Mapped (simplify : Expr → Expr) (heap : Heap) (loads : List LoadPtr) (label : String)
    (count : Nat) (group final : LogicalMemoryGroup) : Prop where
  ids : final.ids = group.ids
  extent : final.extent = group.extent
  extentSize : final.extentSize = group.extentSize
  name : final.name = label ++ toString count
  offsets : List.Forall₂ (fun id offset => ∃ load base, loads[id]? = some load ∧
    (heap load).base = some base ∧ offsetOf simplify group.extent base.val = some offset)
    final.ids final.offsets

variable {simplify : Expr → Expr} {c : Compiler} {heap : Heap} {loads : List LoadPtr} {label : String}
  {groups finals : List LogicalMemoryGroup} {group final : LogicalMemoryGroup} {count : Nat}

theorem mapped_of_mapToGroup (h : mapToGroup simplify heap loads label group count = some final) :
    Mapped simplify heap loads label count group final := by
  obtain ⟨offsets, hOffsets, h⟩ := Option.bind_eq_some_iff.mp h
  cases h
  refine ⟨rfl, rfl, rfl, rfl, (Pointwise.of_mapM hOffsets).imp fun id offset hId => ?_⟩
  obtain ⟨load, hLoad, hId⟩ := Option.bind_eq_some_iff.mp hId
  obtain ⟨base, hBase, hId⟩ := Option.bind_eq_some_iff.mp hId
  exact ⟨load, base, hLoad, hBase, hId⟩

/-- The groups keep their members and are numbered, and have passed the check. -/
theorem mapped_of_finishGroups (h : finishGroups simplify c heap loads label groups = some finals) :
    finals.map (·.ids) = groups.map (·.ids) ∧
    finals.map (·.name) = (List.range finals.length).map (label ++ toString ·) ∧
    ∀ final ∈ finals, ∃ group ∈ groups, checkAlignment c group.extent = some () ∧
      ∃ count, Mapped simplify heap loads label count group final := by
  obtain ⟨checks, hChecks, h⟩ := Option.bind_eq_some_iff.mp h
  have hMapped := (Pointwise.of_mapM h).imp fun _ _ hp => mapped_of_mapToGroup hp
  refine ⟨?_, ?_, fun final hFinal => ?_⟩
  · have hFst : groups.zipIdx.map (fun p => p.1.ids) = (groups.zipIdx.map Prod.fst).map (·.ids) := by
      rw [List.map_map]
      rfl
    have hIds := Pointwise.map_eq hMapped fun p final hp => hp.ids.symm
    rw [← hIds, hFst, List.zipIdx_map_fst]
  · have hSnd : groups.zipIdx.map (fun p => label ++ toString p.2) =
        (groups.zipIdx.map Prod.snd).map (label ++ toString ·) := by
      rw [List.map_map]
      rfl
    have hNames := Pointwise.map_eq hMapped fun p final hp => hp.name.symm
    have hLength := hMapped.length_eq
    rw [List.length_zipIdx] at hLength
    rw [← hNames, hSnd, List.zipIdx_map_snd, ← List.range_eq_range', hLength]
  · obtain ⟨p, hp, hFinal⟩ := Pointwise.exists_left hMapped hFinal
    have hGroup := List.fst_mem_of_mem_zipIdx hp
    obtain ⟨_, -, hCheck⟩ := Pointwise.exists_right (Pointwise.of_mapM hChecks) hGroup
    exact ⟨p.1, hGroup, hCheck, p.2, hFinal⟩

end Steps

section Members

/-- The address of a load, at these values of the variables. -/
def AddressAt (ρ : Env) (heap : Heap) (load : LoadPtr) (x : Int) : Prop :=
  ∃ base, (heap load).base = some base ∧ exact ρ base.val = some x

/-- The address of the load with this id. -/
def At (ρ : Env) (heap : Heap) (loads : List LoadPtr) (id : Nat) (x : Int) : Prop :=
  ∃ load, loads[id]? = some load ∧ AddressAt ρ heap load x

/-- The addresses of all loads have values. -/
def Runs (heap : Heap) (loads : List LoadPtr) (ρ : Env) : Prop :=
  ∀ load ∈ loads, ∃ x, AddressAt ρ heap load x

/-- The range starts at the address of the load and ends this far behind it. -/
def Covers (load : Load) (spread : Int) (interval : Interval) : Prop :=
  ∃ (base : Address) (last : Address), load.base = some base ∧ interval = ⟨.expr base, .expr last⟩ ∧
    ∀ ρ x, exact ρ base.val = some x → exact ρ last.val = some (x + spread)

variable {ρ : Env} {simplify : Expr → Expr} {heap : Heap} {loads : List LoadPtr} {ids : List Nat}
  {intervals : List Interval} {spread : LoadPtr → Int} {id : Nat} {x y : Int}

theorem AddressAt.unique {load : LoadPtr} (hx : AddressAt ρ heap load x)
    (hy : AddressAt ρ heap load y) : x = y := by
  obtain ⟨base, hBase, hx⟩ := hx
  obtain ⟨base', hBase', hy⟩ := hy
  cases hBase.symm.trans hBase'
  exact Option.some.inj (hx.symm.trans hy)

theorem At.unique (hx : At ρ heap loads id x) (hy : At ρ heap loads id y) : x = y := by
  obtain ⟨load, hLoad, hx⟩ := hx
  obtain ⟨load', hLoad', hy⟩ := hy
  cases hLoad.symm.trans hLoad'
  exact hx.unique hy

theorem Runs.at (h : Runs heap loads ρ) {load : LoadPtr} (hLoad : loads[id]? = some load) :
    ∃ x, At ρ heap loads id x := by
  obtain ⟨x, hx⟩ := h load (List.mem_of_getElem? hLoad)
  exact ⟨x, load, hLoad, hx⟩

/-- The extent of a group reaches from the least address of a member to the greatest
end of one. -/
theorem extentOf_members (hSimplify : SimplifySound simplify) (hRuns : Runs heap loads ρ)
    (hNonempty : ids ≠ []) (hMembers : List.Forall₂ (fun id interval => ∃ load,
      loads[id]? = some load ∧ Covers (heap load) (spread load) interval) ids intervals) :
    ∃ lo hi, Ranges ρ (extentOf simplify intervals) lo hi ∧
      (∀ id ∈ ids, ∃ load x, loads[id]? = some load ∧ AddressAt ρ heap load x ∧ lo ≤ x ∧
        x + spread load ≤ hi) ∧
      (∃ id ∈ ids, At ρ heap loads id lo) ∧
      ∃ id ∈ ids, ∃ load x, loads[id]? = some load ∧ AddressAt ρ heap load x ∧
        x + spread load = hi := by
  obtain ⟨ranges, rfl, hRanges⟩ := Pointwise.choose (γ := Int × Int)
    (S := fun id interval r => ∃ load, loads[id]? = some load ∧ AddressAt ρ heap load r.1 ∧
      r.2 = r.1 + spread load ∧ Ranges ρ interval r.1 r.2) hMembers (by
    rintro id interval ⟨load, hLoad, base, last, hBase, rfl, hLast⟩
    obtain ⟨x, hx⟩ := hRuns load (List.mem_of_getElem? hLoad)
    have hAt := hx
    obtain ⟨base', hBase', hValue⟩ := hAt
    cases hBase.symm.trans hBase'
    exact ⟨(x, x + spread load), load, hLoad, hx, rfl,
      ranges_of_exact ⟨base.2, last.2⟩ hValue (hLast ρ x hValue)⟩)
  have hMap : ranges ≠ [] := by
    rintro rfl
    exact hNonempty (List.forall₂_nil_right_iff.mp hRanges)
  obtain ⟨lo, hi, hExtent, hBounds, ⟨first, hFirst, hLo⟩, last, hLast, hHi⟩ :=
    extentOf_ranges hSimplify hMap fun r hr => by
      obtain ⟨_, -, _, -, -, -, hRange⟩ := Pointwise.exists_left hRanges hr
      exact hRange
  refine ⟨lo, hi, hExtent, fun id hId => ?_, ?_, ?_⟩
  · obtain ⟨r, hr, load, hLoad, hx, hEnd, -⟩ := Pointwise.exists_right hRanges hId
    exact ⟨load, r.2.1, hLoad, hx, (hBounds r hr).1, hEnd ▸ (hBounds r hr).2⟩
  · obtain ⟨id, hId, load, hLoad, hx, -, -⟩ := Pointwise.exists_left hRanges hFirst
    exact ⟨id, hId, load, hLoad, hLo ▸ hx⟩
  · obtain ⟨id, hId, load, hLoad, hx, hEnd, -⟩ := Pointwise.exists_left hRanges hLast
    exact ⟨id, hId, load, last.2.1, hLoad, hx, hEnd ▸ hHi⟩

/-- The members of a group lie at their offsets from its lower end. -/
def Placed (heap : Heap) (loads : List LoadPtr) (group : LogicalMemoryGroup) : Prop :=
  ∃ lo : Expr, group.extent.min = .expr lo ∧ ∀ ρ, Runs heap loads ρ → ∃ m, exact ρ lo = some m ∧
    List.Forall₂ (fun id offset => At ρ heap loads id (m + offset)) group.ids group.offsets

variable {label : String} {count : Nat} {group final : LogicalMemoryGroup} {lo hi : Int}

/-- The offset of a member is the distance of its address from the lower end. -/
theorem Mapped.offsets_at (hMapped : Mapped simplify heap loads label count group final)
    (hSimplify : SimplifySound simplify) (hRuns : Runs heap loads ρ)
    (hRange : Ranges ρ group.extent lo hi) :
    List.Forall₂ (fun id offset => At ρ heap loads id (lo + offset)) final.ids final.offsets := by
  refine hMapped.offsets.imp fun id offset hMember => ?_
  obtain ⟨load, base, hLoad, hBase, hOffset⟩ := hMember
  obtain ⟨x, base', hBase', hx⟩ := hRuns load (List.mem_of_getElem? hLoad)
  cases hBase.symm.trans hBase'
  have hEq := hSimplify.offset base.2 hRange hx hOffset
  exact ⟨load, hLoad, base, hBase, hEq ▸ hx⟩

theorem Mapped.placed (hMapped : Mapped simplify heap loads label count group final)
    (hSimplify : SimplifySound simplify) (hSome : ∃ ρ, Runs heap loads ρ)
    (hRange : ∀ ρ, Runs heap loads ρ → ∃ lo hi, Ranges ρ group.extent lo hi) :
    Placed heap loads final := by
  obtain ⟨ρ, hRuns⟩ := hSome
  obtain ⟨lo, hi, hAt⟩ := hRange ρ hRuns
  obtain ⟨a, b, hEq, -⟩ := hAt.exprs
  refine ⟨a, by rw [hMapped.extent, hEq], fun ρ hRuns => ?_⟩
  obtain ⟨lo, hi, hAt⟩ := hRange ρ hRuns
  obtain ⟨a', b', hEq', -, -, hLo, -⟩ := hAt.exprs
  rw [hEq] at hEq'
  cases hEq'
  exact ⟨lo, hLo, hMapped.offsets_at hSimplify hRuns hAt⟩

end Members

end Vyasa.AICore
