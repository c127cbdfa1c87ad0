import Vyasa.AICore.ReuseGraph

/-! Groups of vector loads that share elements. Each group becomes one register, which
the permute network of a multiply-accumulate reads. -/
namespace Vyasa.AICore

open Relation Word

/-- Step 1: the vector loads whose stride is a constant. -/
def temporalLoads (heap : Heap) (statements : List TripletIRNode) : List LoadPtr :=
  statements.flatMap fun statement => statement.pairWiseLoads.flatMap fun mac =>
    [mac.1, mac.2].filter fun load => (heap load).isVector && (heap load).stride ≠ -1

/-- The test of step 2 on the loads with these ids. -/
def temporalRelated (simplify : Expr → Expr) (heap : Heap) (loads : List LoadPtr) (i j : Nat) :
    Option Bool := do
  let a ← loads[i]?
  let b ← loads[j]?
  let reuse ← getReuseAmongVectorLoads simplify (heap a) (heap b)
  return 0 < reuse

/-- From the first lane to the last one. -/
def temporalInterval (load : Load) : Option Interval :=
  match load.index with
  | .ramp base _ lanes =>
    some ⟨.expr base, .expr (.add base (.imm .int32 ((lanes - 1) * load.stride)))⟩
  | _ => none

/-- Step 4 for one group. The flag is set by the first group, and must be the same for
all others. -/
def sizeTemporalGroup (simplify : Expr → Expr) (c : Compiler) (heap : Heap) (loads : List LoadPtr)
    (flag : Option Bool) (group : LogicalMemoryGroup) : Option (LogicalMemoryGroup × Bool) := do
  let intervals ← group.ids.mapM fun id => do temporalInterval (heap (← loads[id]?))
  let extent := extentOf simplify intervals
  let extentSize ← extentSizeOf simplify extent
  let small : Bool := extentSize * c.dataTypeSizeInBits ≤ 256
  guard (flag = none ∨ flag = some small)
  guard (extentSize ≤ (1024 / c.dataTypeSizeInBits : Nat))
  return ({ group with extent := extent, extentSize := extentSize }, small)

def sizeTemporalGroups (simplify : Expr → Expr) (c : Compiler) (heap : Heap) (loads : List LoadPtr) :
    Option Bool → List LogicalMemoryGroup → Option (List LogicalMemoryGroup × Option Bool)
  | flag, [] => some ([], flag)
  | flag, group :: groups => do
    let (sized, small) ← sizeTemporalGroup simplify c heap loads flag group
    let (rest, flag) ← sizeTemporalGroups simplify c heap loads (some small) groups
    return (sized :: rest, flag)

/-- The graph, and the flag that the groups fit 256 bits. -/
def buildTemporalReuseGraphAndLogicalMemoryGroups (simplify : Expr → Expr) (c : Compiler) (heap : Heap)
    (statements : List TripletIRNode) : Option (ReuseGraph × Option Bool) :=
  let loads := temporalLoads heap statements
  if loads.length = 0 then some (⟨[], []⟩, c.isTemporalLogicalGroupSmallerThan256b)
  else do
    let adj ← buildEdges (temporalRelated simplify heap loads) loads.length
    let groups ← extractConnectedComponents adj loads.length
    let (groups, flag) ← sizeTemporalGroups simplify c heap loads
      c.isTemporalLogicalGroupSmallerThan256b groups
    let groups ← finishGroups simplify c heap loads "loads_temporal_group_" groups
    return (⟨loads, groups⟩, flag)

variable {simplify : Expr → Expr} {c : Compiler} {heap : Heap} {loads : List LoadPtr}
  {statements : List TripletIRNode} {flag flag' : Option Bool} {small : Bool}
  {group sized : LogicalMemoryGroup} {groups sizeds : List LogicalMemoryGroup} {graph : ReuseGraph}

theorem ramp_of_mem_temporalLoads {load : LoadPtr} (h : load ∈ temporalLoads heap statements) :
    ∃ base stride lanes, (heap load).index = .ramp base stride lanes := by
  obtain ⟨statement, -, h⟩ := List.mem_flatMap.mp h
  obtain ⟨mac, -, h⟩ := List.mem_flatMap.mp h
  have hStride : (heap load).stride ≠ -1 := by
    have hBoth := (List.mem_filter.mp h).2
    simp only [Bool.and_eq_true, decide_eq_true_eq] at hBoth
    exact hBoth.2
  cases hIndex : (heap load).index with
  | ramp base stride lanes => exact ⟨base, stride, lanes, rfl⟩
  | scalar e => exact absurd (by rw [Load.stride, hIndex]; rfl) hStride
  | vector lanes => exact absurd (by rw [Load.stride, hIndex]; rfl) hStride

/-- A group after step 4: its extent is that of its members, and it fits a register. -/
structure SizedTemporal (simplify : Expr → Expr) (c : Compiler) (heap : Heap) (loads : List LoadPtr)
    (group sized : LogicalMemoryGroup) : Prop where
  ids : sized.ids = group.ids
  extent : ∃ intervals, List.Forall₂ (fun id interval => ∃ load, loads[id]? = some load ∧
    temporalInterval (heap load) = some interval) sized.ids intervals ∧
    sized.extent = extentOf simplify intervals
  extentSize : extentSizeOf simplify sized.extent = some sized.extentSize
  fits : sized.extentSize ≤ (1024 / c.dataTypeSizeInBits : Nat)

theorem sized_of_sizeTemporalGroup
    (h : sizeTemporalGroup simplify c heap loads flag group = some (sized, small)) :
    SizedTemporal simplify c heap loads group sized ∧
      small = decide (sized.extentSize * c.dataTypeSizeInBits ≤ 256) ∧
      (flag = none ∨ flag = some small) := by
  obtain ⟨intervals, hIntervals, h⟩ := Option.bind_eq_some_iff.mp h
  obtain ⟨extentSize, hSize, h⟩ := Option.bind_eq_some_iff.mp h
  obtain ⟨_, hFlag, h⟩ := Option.bind_eq_some_iff.mp h
  obtain ⟨_, hFits, h⟩ := Option.bind_eq_some_iff.mp h
  cases h
  rw [Option.guard_eq_some'] at hFlag hFits
  refine ⟨⟨rfl, ⟨intervals, (Pointwise.of_mapM hIntervals).imp fun id interval hId => ?_, rfl⟩, hSize,
    hFits⟩, rfl, hFlag⟩
  exact Option.bind_eq_some_iff.mp hId

theorem sized_of_sizeTemporalGroups
    (h : sizeTemporalGroups simplify c heap loads flag groups = some (sizeds, flag')) :
    List.Forall₂ (SizedTemporal simplify c heap loads) groups sizeds ∧
      (∀ sized ∈ sizeds, flag' = some (decide (sized.extentSize * c.dataTypeSizeInBits ≤ 256))) ∧
      (flag = none ∨ flag' = flag) ∧ (groups ≠ [] → flag' ≠ none) := by
  induction groups generalizing flag sizeds with
  | nil =>
    cases h
    exact ⟨List.Forall₂.nil, by simp, Or.inr rfl, by simp⟩
  | cons group groups ih =>
    obtain ⟨⟨sized, small⟩, hHead, h⟩ := Option.bind_eq_some_iff.mp h
    obtain ⟨⟨rest, flag₁⟩, hRest, h⟩ := Option.bind_eq_some_iff.mp h
    cases h
    obtain ⟨hSized, hSmall, hFlag⟩ := sized_of_sizeTemporalGroup hHead
    obtain ⟨hAll, hFlags, hKept, -⟩ := ih hRest
    have hEq : flag' = some small := hKept.resolve_left (by simp)
    refine ⟨List.Forall₂.cons hSized hAll, fun s hs => ?_, ?_, fun _ => by simp [hEq]⟩
    · rcases List.mem_cons.mp hs with rfl | hs
      · rw [hEq, hSmall]
      · exact hFlags s hs
    · rw [hEq]
      exact hFlag.imp_right Eq.symm

/-- What the builder returns: the components of the reuse relation, each with the range
and the offsets of its members. -/
structure TemporalGroups (simplify : Expr → Expr) (c : Compiler) (heap : Heap)
    (statements : List TripletIRNode) (graph : ReuseGraph) (flag : Option Bool) : Prop where
  loads : graph.loads = temporalLoads heap statements
  components : ∃ adj, buildEdges (temporalRelated simplify heap graph.loads) graph.loads.length = some adj ∧
    Graph.Divides adj (List.range graph.loads.length) (graph.groups.map (·.ids))
  inside : ∀ id ∈ (graph.groups.map (·.ids)).flatten, id < graph.loads.length
  groups : ∀ final ∈ graph.groups, ∃ group sized count,
    SizedTemporal simplify c heap graph.loads group sized ∧ checkAlignment c sized.extent = some () ∧
    Mapped simplify heap graph.loads "loads_temporal_group_" count sized final
  names : graph.groups.map (·.name) =
    (List.range graph.groups.length).map ("loads_temporal_group_" ++ toString ·)
  small : ∀ final ∈ graph.groups,
    flag = some (decide (final.extentSize * c.dataTypeSizeInBits ≤ 256))
  kept : graph.loads = [] → flag = c.isTemporalLogicalGroupSmallerThan256b
  set : graph.loads ≠ [] → flag ≠ none

theorem temporalGroups_of_build
    (h : buildTemporalReuseGraphAndLogicalMemoryGroups simplify c heap statements = some (graph, flag)) :
    TemporalGroups simplify c heap statements graph flag := by
  unfold buildTemporalReuseGraphAndLogicalMemoryGroups at h
  dsimp only at h
  split_ifs at h with hEmpty
  · cases h
    have hNil := List.length_eq_zero_iff.mp hEmpty
    refine ⟨hNil.symm, ⟨fun _ => [], rfl, ?_⟩, by simp, by simp, rfl, by simp, fun _ => rfl, by simp⟩
    exact ⟨List.nodup_nil, by simp, by simp, by simp, by simp⟩
  · obtain ⟨adj, hAdj, h⟩ := Option.bind_eq_some_iff.mp h
    obtain ⟨groups, hGroups, h⟩ := Option.bind_eq_some_iff.mp h
    obtain ⟨⟨sizeds, flag₁⟩, hSizeds, h⟩ := Option.bind_eq_some_iff.mp h
    obtain ⟨finals, hFinals, h⟩ := Option.bind_eq_some_iff.mp h
    cases h
    obtain ⟨parts, hParts, hDivides, hInside⟩ := components_of_buildEdges hAdj
    cases hGroups.symm.trans hParts
    obtain ⟨hSized, hFlags, hKept, hSet⟩ := sized_of_sizeTemporalGroups hSizeds
    obtain ⟨hFinalIds, hNames, hMapped⟩ := mapped_of_finishGroups hFinals
    have hSizedIds := Pointwise.map_eq (f := fun g : LogicalMemoryGroup => g.ids) hSized
      fun group sized hg => hg.ids.symm
    have hIds : finals.map (·.ids) = parts := by
      rw [hFinalIds, ← hSizedIds, List.map_map]
      exact List.map_id _
    have hFrom : ∀ final ∈ finals, ∃ group sized count,
        sized ∈ sizeds ∧ SizedTemporal simplify c heap (temporalLoads heap statements) group sized ∧
        checkAlignment c sized.extent = some () ∧
        Mapped simplify heap (temporalLoads heap statements) "loads_temporal_group_" count sized final := by
      intro final hFinal
      obtain ⟨sized, hMem, hCheck, count, hFinal⟩ := hMapped final hFinal
      obtain ⟨group, -, hGroup⟩ := Pointwise.exists_left hSized hMem
      exact ⟨group, sized, count, hMem, hGroup, hCheck, hFinal⟩
    refine ⟨rfl, ⟨adj, hAdj, ?_⟩, ?_, fun final hFinal => ?_, hNames, fun final hFinal => ?_,
      fun hNil => absurd (congrArg List.length hNil) hEmpty, fun _ => hSet ?_⟩
    · rwa [hIds]
    · rwa [hIds]
    · obtain ⟨group, sized, count, -, hSizedFinal⟩ := hFrom final hFinal
      exact ⟨group, sized, count, hSizedFinal⟩
    · obtain ⟨group, sized, count, hMem, -, -, hFinal⟩ := hFrom final hFinal
      rw [hFinal.extentSize]
      exact hFlags sized hMem
    · rintro hNil
      have hZero := hDivides.covers 0 (List.mem_range.mpr (Nat.pos_of_ne_zero hEmpty))
      rw [List.map_eq_nil_iff.mp hNil] at hZero
      cases hZero

end Vyasa.AICore
