import Vyasa.AICore.Temporal
import Vyasa.Solve.ForIntervalSound

/-! The temporal groups are the classes of loads that are linked by shared elements,
and every group's range is exactly what its members read. -/
namespace Vyasa.AICore

open Relation Vyasa.Expr Word

section Reuse

/-- The two addresses differ by this constant whenever the block runs. -/
def ConstantDistance (heap : Heap) (loads : List LoadPtr) (a b : LoadPtr) (d : Int) : Prop :=
  ∀ ρ, Runs heap loads ρ → ∃ x y, AddressAt ρ heap a x ∧ AddressAt ρ heap b y ∧ x - y = d

/-- Two loads of one buffer that share elements. -/
def PositiveReuse (heap : Heap) (loads : List LoadPtr) (lanes stride : Int) (a b : LoadPtr) : Prop :=
  (heap a).name = (heap b).name ∧
    ∃ d r, ConstantDistance heap loads a b d ∧ reuseAt lanes stride d = some r ∧ 0 < r

/-- The loads with these ids share elements. -/
def Linked (heap : Heap) (loads : List LoadPtr) (lanes stride : Int) (i j : Nat) : Prop :=
  ∃ a b, loads[i]? = some a ∧ loads[j]? = some b ∧ PositiveReuse heap loads lanes stride a b

/-- Simplification decides which distances of addresses are constants. -/
def DecidesDistances (simplify : Expr → Expr) (heap : Heap) (loads : List LoadPtr) : Prop :=
  ∀ a ∈ loads, ∀ b ∈ loads, ∀ baseA ∈ (heap a).base, ∀ baseB ∈ (heap b).base, ∀ d,
    ConstantDistance heap loads a b d → (simplify (.sub baseA baseB)).asIntImm = some d

variable {simplify : Expr → Expr} {c : Compiler} {heap : Heap} {loads : List LoadPtr}
  {statements : List TripletIRNode} {flag : Option Bool} {graph : ReuseGraph}
  {lanes : Nat} {stride d : Int} {i j : Nat} {a b : LoadPtr} {adj : Nat → List Nat}

theorem ConstantDistance.symm (h : ConstantDistance heap loads a b d) :
    ConstantDistance heap loads b a (-d) := by
  intro ρ hRuns
  obtain ⟨x, y, hx, hy, hd⟩ := h ρ hRuns
  exact ⟨y, x, hy, hx, by omega⟩

theorem Linked.symm (h : Linked heap loads lanes stride i j) : Linked heap loads lanes stride j i := by
  obtain ⟨a, b, ha, hb, hName, d, r, hd, hr, hPos⟩ := h
  exact ⟨b, a, hb, ha, hName.symm, -d, r, hd.symm, by rwa [reuseAt_neg], hPos⟩

/-- The shape that all loads of the graph have. -/
def Ramp (load : Load) (lanes : Nat) (stride : Int) : Prop :=
  (∃ base s l, load.index = .ramp base s l) ∧ load.lanes = lanes ∧ load.stride = stride

theorem Ramp.index (h : Ramp (heap a) lanes stride) :
    ∃ base s, (heap a).index = .ramp base s lanes ∧ (heap a).base = some base := by
  obtain ⟨⟨base, s, l, hIndex⟩, hLanes, -⟩ := h
  have hl : l = lanes := by rw [← hLanes, Load.lanes, hIndex]
  exact ⟨base, s, hl ▸ hIndex, by rw [Load.base, hIndex]⟩

theorem getReuse_of_ramp {baseA baseB : Address} (hA : Ramp (heap a) lanes stride)
    (hB : Ramp (heap b) lanes stride) (hBaseA : (heap a).base = some baseA)
    (hBaseB : (heap b).base = some baseB) :
    getReuseAmongVectorLoads simplify (heap a) (heap b) =
      if (heap a).name = (heap b).name then
        match (simplify (.sub baseA baseB)).asIntImm with
        | some d => reuseAt lanes stride d
        | none => some 0
      else some 0 := by
  obtain ⟨baseA', sA, hIndexA, hA'⟩ := hA.index
  obtain ⟨baseB', sB, hIndexB, hB'⟩ := hB.index
  cases hBaseA.symm.trans hA'
  cases hBaseB.symm.trans hB'
  have hSame : lanes = lanes ∧ (heap a).stride = (heap b).stride := ⟨rfl, hA.2.2.trans hB.2.2.symm⟩
  rw [getReuseAmongVectorLoads, hIndexA, hIndexB, ← hA.2.2]
  exact congrArg (fun r => if (heap a).name = (heap b).name then r else some 0) (if_pos hSame)

/-- When the builder finds that two ramps of one shape share elements. -/
theorem temporalRelated_iff {baseA baseB : Address} (ha : loads[i]? = some a) (hb : loads[j]? = some b)
    (hA : Ramp (heap a) lanes stride) (hB : Ramp (heap b) lanes stride)
    (hBaseA : (heap a).base = some baseA) (hBaseB : (heap b).base = some baseB) :
    temporalRelated simplify heap loads i j = some true ↔ (heap a).name = (heap b).name ∧ ∃ d r,
      (simplify (.sub baseA baseB)).asIntImm = some d ∧ reuseAt lanes stride d = some r ∧ 0 < r := by
  simp only [temporalRelated, ha, hb, Option.bind_eq_bind, Option.bind_some,
    getReuse_of_ramp hA hB hBaseA hBaseB]
  by_cases hName : (heap a).name = (heap b).name
  · cases hDiff : (simplify (.sub baseA.val baseB)).asIntImm with
    | none => simp [hName]
    | some d => simp [hName, Option.bind_eq_some_iff]
  · simp [hName]

variable (hSimplify : SimplifySound simplify) (hShape : ∀ a ∈ loads, Ramp (heap a) lanes stride)

include hSimplify hShape in
/-- Loads that the builder finds related are linked. -/
theorem linked_of_related (hi : i < loads.length) (hj : j < loads.length)
    (h : temporalRelated simplify heap loads i j = some true) : Linked heap loads lanes stride i j := by
  have ha := List.getElem?_eq_getElem hi
  have hb := List.getElem?_eq_getElem hj
  have hA := hShape _ (List.mem_of_getElem? ha)
  have hB := hShape _ (List.mem_of_getElem? hb)
  obtain ⟨baseA, -, -, hBaseA⟩ := hA.index
  obtain ⟨baseB, -, -, hBaseB⟩ := hB.index
  obtain ⟨hName, d, r, hd, hr, hPos⟩ := (temporalRelated_iff ha hb hA hB hBaseA hBaseB).mp h
  refine ⟨_, _, ha, hb, hName, d, r, fun ρ hRuns => ?_, hr, hPos⟩
  obtain ⟨x, hx⟩ := hRuns _ (List.mem_of_getElem? ha)
  obtain ⟨y, hy⟩ := hRuns _ (List.mem_of_getElem? hb)
  have hxValue : exact ρ baseA.val = some x := by
    obtain ⟨base, hBase, hx⟩ := hx
    cases hBaseA.symm.trans hBase
    exact hx
  have hyValue : exact ρ baseB.val = some y := by
    obtain ⟨base, hBase, hy⟩ := hy
    cases hBaseB.symm.trans hBase
    exact hy
  exact ⟨x, y, hx, hy, hSimplify.eq_of_asIntImm hd (exact_sub baseA.2 hxValue hyValue)⟩

include hShape in
/-- Linked loads are found, where simplification decides their distance. -/
theorem related_of_linked (hDecides : DecidesDistances simplify heap loads)
    (h : Linked heap loads lanes stride i j) : temporalRelated simplify heap loads i j = some true := by
  obtain ⟨a, b, ha, hb, hName, d, r, hd, hr, hPos⟩ := h
  have hA := hShape a (List.mem_of_getElem? ha)
  have hB := hShape b (List.mem_of_getElem? hb)
  obtain ⟨baseA, -, -, hBaseA⟩ := hA.index
  obtain ⟨baseB, -, -, hBaseB⟩ := hB.index
  have hDecided := hDecides a (List.mem_of_getElem? ha) b (List.mem_of_getElem? hb) baseA hBaseA baseB
    hBaseB d hd
  exact (temporalRelated_iff ha hb hA hB hBaseA hBaseB).mpr ⟨hName, d, r, hDecided, hr, hPos⟩

include hSimplify hShape in
/-- The edges of the graph are the links between different loads. -/
theorem adjacent_iff_linked (hDecides : DecidesDistances simplify heap loads)
    (hAdj : buildEdges (temporalRelated simplify heap loads) loads.length = some adj) :
    Graph.Adjacent adj i j ↔ i ≠ j ∧ Linked heap loads lanes stride i j := by
  rw [Graph.Adjacent, mem_buildEdges hAdj]
  constructor
  · rintro ⟨hi, hj, ⟨hLess, hRelated⟩ | ⟨hLess, hRelated⟩⟩
    · exact ⟨hLess.ne, linked_of_related hSimplify hShape hi hj hRelated⟩
    · exact ⟨hLess.ne', (linked_of_related hSimplify hShape hj hi hRelated).symm⟩
  · rintro ⟨hNe, hLinked⟩
    have hLinked' := hLinked
    obtain ⟨a, b, ha, hb, -⟩ := hLinked'
    refine ⟨(List.getElem?_eq_some_iff.mp ha).1, (List.getElem?_eq_some_iff.mp hb).1, ?_⟩
    rcases lt_or_gt_of_ne hNe with hLess | hLess
    · exact Or.inl ⟨hLess, related_of_linked hShape hDecides hLinked⟩
    · exact Or.inr ⟨hLess, related_of_linked hShape hDecides hLinked.symm⟩

include hSimplify hShape in
theorem reaches_iff_linked (hDecides : DecidesDistances simplify heap loads)
    (hAdj : buildEdges (temporalRelated simplify heap loads) loads.length = some adj) :
    ReflTransGen (Graph.Adjacent adj) i j ↔ ReflTransGen (Linked heap loads lanes stride) i j := by
  constructor
  · refine fun h => ReflTransGen.mono (fun x y h => ?_) i j h
    exact ((adjacent_iff_linked hSimplify hShape hDecides hAdj).mp h).2
  · intro h
    induction h with
    | refl => exact ReflTransGen.refl
    | @tail x y _ hStep ih =>
      by_cases hEq : x = y
      · exact hEq ▸ ih
      · exact ih.tail ((adjacent_iff_linked hSimplify hShape hDecides hAdj).mpr ⟨hEq, hStep⟩)

end Reuse

section Groups

/-- The register of a group: its members lie at their offsets, and the lanes of each
lie within it, from the first element to the last. -/
structure Spans (heap : Heap) (loads : List LoadPtr) (lanes stride : Int) (group : LogicalMemoryGroup) :
    Prop where
  placed : Placed heap loads group
  inside : ∀ offset ∈ group.offsets, 0 ≤ offset ∧ offset + (lanes - 1) * stride ≤ group.extentSize - 1
  first : 0 ∈ group.offsets
  last : ∃ offset ∈ group.offsets, offset + (lanes - 1) * stride = group.extentSize - 1

variable {simplify : Expr → Expr} {c : Compiler} {heap : Heap} {loads : List LoadPtr}
  {statements : List TripletIRNode} {flag : Option Bool} {graph : ReuseGraph} {ρ : Env}
  {group sized final : LogicalMemoryGroup} {count : Nat} {label : String} {lanes : Nat} {stride lo hi : Int}

theorem covers_temporalInterval {load : Load} {interval : Interval}
    (h : temporalInterval load = some interval) :
    Covers load ((load.lanes - 1) * load.stride) interval := by
  unfold temporalInterval at h
  split at h
  case h_1 base s l hIndex =>
    cases h
    have hLanes : load.lanes = l := by rw [Load.lanes, hIndex]
    refine ⟨base, ⟨.add base (.imm .int32 ((l - 1) * load.stride)), base.2⟩, by rw [Load.base, hIndex],
      rfl, fun ρ x hx => ?_⟩
    rw [hLanes]
    exact exact_add base.2 hx rfl
  case h_2 => cases h

/-- The range of a temporal group, at the values of a run. -/
theorem SizedTemporal.range (hSized : SizedTemporal simplify c heap loads group sized)
    (hSimplify : SimplifySound simplify) (hNonempty : sized.ids ≠ []) (hRuns : Runs heap loads ρ) :
    ∃ lo hi, Ranges ρ sized.extent lo hi ∧ sized.extentSize = hi - lo + 1 ∧
      (∀ id ∈ sized.ids, ∃ load x, loads[id]? = some load ∧ AddressAt ρ heap load x ∧ lo ≤ x ∧
        x + ((heap load).lanes - 1) * (heap load).stride ≤ hi) ∧
      (∃ id ∈ sized.ids, At ρ heap loads id lo) ∧
      ∃ id ∈ sized.ids, ∃ load x, loads[id]? = some load ∧ AddressAt ρ heap load x ∧
        x + ((heap load).lanes - 1) * (heap load).stride = hi := by
  obtain ⟨intervals, hIntervals, hExtent⟩ := hSized.extent
  have hMembers := hIntervals.imp (S := fun id interval => ∃ load, loads[id]? = some load ∧
      Covers (heap load) (((heap load).lanes - 1) * (heap load).stride) interval) (by
    rintro id interval ⟨load, hLoad, hInterval⟩
    exact ⟨load, hLoad, covers_temporalInterval hInterval⟩)
  obtain ⟨lo, hi, hRange, hBounds, hFirst, hLast⟩ := extentOf_members hSimplify hRuns hNonempty hMembers
  rw [← hExtent] at hRange
  exact ⟨lo, hi, hRange, hSimplify.extentSize hRange hSized.extentSize, hBounds, hFirst, hLast⟩

theorem placed_of_sized (hSimplify : SimplifySound simplify) (hSome : ∃ ρ, Runs heap loads ρ)
    (hNonempty : final.ids ≠ []) (hSized : SizedTemporal simplify c heap loads group sized)
    (hMapped : Mapped simplify heap loads label count sized final) : Placed heap loads final := by
  rw [hMapped.ids] at hNonempty
  refine hMapped.placed hSimplify hSome fun ρ hRuns => ?_
  obtain ⟨lo, hi, hRange, -⟩ := hSized.range hSimplify hNonempty hRuns
  exact ⟨lo, hi, hRange⟩

theorem TemporalGroups.placed (hGroups : TemporalGroups simplify c heap statements graph flag)
    (hSimplify : SimplifySound simplify) (hSome : ∃ ρ, Runs heap graph.loads ρ) :
    ∀ group ∈ graph.groups, Placed heap graph.loads group := by
  intro final hFinal
  obtain ⟨adj, -, hDivides⟩ := hGroups.components
  obtain ⟨group, sized, count, hSized, -, hMapped⟩ := hGroups.groups final hFinal
  exact placed_of_sized hSimplify hSome (hDivides.nonempty _ (List.mem_map_of_mem hFinal)) hSized hMapped

/-- The loads of a group lie behind its lower end. -/
theorem TemporalGroups.offset_nonneg (hGroups : TemporalGroups simplify c heap statements graph flag)
    (hSimplify : SimplifySound simplify) (hSome : ∃ ρ, Runs heap graph.loads ρ) :
    ∀ group ∈ graph.groups, ∀ offset ∈ group.offsets, 0 ≤ offset := by
  intro final hFinal offset hOffset
  obtain ⟨adj, -, hDivides⟩ := hGroups.components
  obtain ⟨group, sized, count, hSized, -, hMapped⟩ := hGroups.groups final hFinal
  have hNonempty := hDivides.nonempty _ (List.mem_map_of_mem hFinal)
  rw [hMapped.ids] at hNonempty
  obtain ⟨ρ, hRuns⟩ := hSome
  obtain ⟨lo, hi, hRange, -, hBounds, -⟩ := hSized.range hSimplify hNonempty hRuns
  obtain ⟨id, hId, hAt⟩ := Pointwise.exists_left (hMapped.offsets_at hSimplify hRuns hRange) hOffset
  rw [hMapped.ids] at hId
  obtain ⟨load, x, hLoad, hx, hLower, -⟩ := hBounds id hId
  have hEq := At.unique ⟨load, hLoad, hx⟩ hAt
  omega

theorem spans_of_sized (hSimplify : SimplifySound simplify)
    (hShape : ∀ a ∈ loads, Ramp (heap a) lanes stride) (hSome : ∃ ρ, Runs heap loads ρ)
    (hNonempty : final.ids ≠ []) (hSized : SizedTemporal simplify c heap loads group sized)
    (hMapped : Mapped simplify heap loads label count sized final) :
    Spans heap loads lanes stride final := by
  have hPlaced := placed_of_sized hSimplify hSome hNonempty hSized hMapped
  rw [hMapped.ids] at hNonempty
  obtain ⟨ρ, hRuns⟩ := hSome
  obtain ⟨lo, hi, hRange, hSize, hBounds, ⟨first, hFirst, hLo⟩, last, hLast, load, x, hLoad, hx, hHi⟩ :=
    hSized.range hSimplify hNonempty hRuns
  have hOffsets := hMapped.offsets_at hSimplify hRuns hRange
  rw [← hMapped.ids] at hFirst hLast hBounds
  rw [← hMapped.extentSize] at hSize
  constructor
  case placed => exact hPlaced
  case inside =>
    intro offset hOffset
    obtain ⟨id, hId, hAt⟩ := Pointwise.exists_left hOffsets hOffset
    obtain ⟨load, x, hLoad, hx, hLower, hUpper⟩ := hBounds id hId
    obtain ⟨-, hLanes, hStride⟩ := hShape load (List.mem_of_getElem? hLoad)
    rw [hLanes, hStride] at hUpper
    have hEq := At.unique ⟨load, hLoad, hx⟩ hAt
    omega
  case first =>
    obtain ⟨offset, hOffset, hAt⟩ := Pointwise.exists_right hOffsets hFirst
    have hEq := hLo.unique hAt
    have hZero : offset = 0 := by omega
    exact hZero ▸ hOffset
  case last =>
    obtain ⟨offset, hOffset, hAt⟩ := Pointwise.exists_right hOffsets hLast
    obtain ⟨-, hLanes, hStride⟩ := hShape load (List.mem_of_getElem? hLoad)
    rw [hLanes, hStride] at hHi
    have hEq := At.unique ⟨load, hLoad, hx⟩ hAt
    exact ⟨offset, hOffset, by omega⟩

end Groups

/-- Every load is in exactly one group, the groups are the classes of linked loads, and
each group spans exactly what its members read. -/
theorem temporal_groups {simplify : Expr → Expr} {c : Compiler} {heap : Heap}
    {statements : List TripletIRNode} {graph : ReuseGraph} {flag : Option Bool} {lanes : Nat} {stride : Int}
    (hSimplify : SimplifySound simplify)
    (hDecides : DecidesDistances simplify heap (temporalLoads heap statements))
    (hSome : ∃ ρ, Runs heap (temporalLoads heap statements) ρ)
    (hUniform : ∀ load ∈ temporalLoads heap statements,
      (heap load).lanes = lanes ∧ (heap load).stride = stride)
    (h : buildTemporalReuseGraphAndLogicalMemoryGroups simplify c heap statements = some (graph, flag)) :
    graph.loads = temporalLoads heap statements ∧
    (graph.groups.map (·.ids)).flatten.Perm (List.range graph.loads.length) ∧
    (∀ i < graph.loads.length, ∀ j, (∃ group ∈ graph.groups, i ∈ group.ids ∧ j ∈ group.ids) ↔
      ReflTransGen (Linked heap graph.loads lanes stride) i j) ∧
    ∀ group ∈ graph.groups, Spans heap graph.loads lanes stride group := by
  have hGroups := temporalGroups_of_build h
  have hShape : ∀ a ∈ graph.loads, Ramp (heap a) lanes stride := by
    intro a ha
    rw [hGroups.loads] at ha
    exact ⟨ramp_of_mem_temporalLoads ha, hUniform a ha⟩
  rw [← hGroups.loads] at hDecides hSome
  obtain ⟨adj, hAdj, hDivides⟩ := hGroups.components
  refine ⟨hGroups.loads, ?_, fun i hi j => ?_, fun final hFinal => ?_⟩
  · refine (List.perm_ext_iff_of_nodup hDivides.nodup List.nodup_range).mpr fun id => ?_
    exact ⟨fun hId => List.mem_range.mpr (hGroups.inside id hId), hDivides.covers id⟩
  · rw [← reaches_iff_linked hSimplify hShape hDecides hAdj,
      ← hDivides.same_group (List.mem_range.mpr hi)]
    constructor
    · rintro ⟨group, hGroup, hi, hj⟩
      exact ⟨group.ids, List.mem_map_of_mem hGroup, hi, hj⟩
    · rintro ⟨part, hPart, hi, hj⟩
      obtain ⟨group, hGroup, rfl⟩ := List.mem_map.mp hPart
      exact ⟨group, hGroup, hi, hj⟩
  · obtain ⟨group, sized, count, hSized, -, hMapped⟩ := hGroups.groups final hFinal
    exact spans_of_sized hSimplify hShape hSome
      (hDivides.nonempty _ (List.mem_map_of_mem hFinal)) hSized hMapped

section Taps

theorem SimplifySound.foldClosed : SimplifySound Solve.foldClosed where
  value _ _ _ h := Solve.exact_foldClosed h
  type e := by
    cases e with
    | bin op a b =>
      rw [Solve.foldClosed]
      split
      · split <;> rfl
      · rfl
    | cmp op a b =>
      rw [Solve.foldClosed]
      split <;> rfl
    | _ => rfl

/-- Folding decides the distances of constants. -/
theorem decidesDistances_of_constants {heap : Heap} {loads : List LoadPtr}
    (h : ∀ load ∈ loads, ∃ v, (heap load).base = some (constant v)) (hSome : ∃ ρ, Runs heap loads ρ) :
    DecidesDistances Solve.foldClosed heap loads := by
  intro a ha b hb baseA hBaseA baseB hBaseB d hd
  obtain ⟨v, hv⟩ := h a ha
  obtain ⟨w, hw⟩ := h b hb
  cases hBaseA.symm.trans hv
  cases hBaseB.symm.trans hw
  obtain ⟨ρ, hRuns⟩ := hSome
  obtain ⟨x, y, ⟨base, hBase, hx⟩, ⟨base', hBase', hy⟩, rfl⟩ := hd ρ hRuns
  cases hv.symm.trans hBase
  cases hw.symm.trans hBase'
  cases hx
  cases hy
  rfl

/-- A filter with two taps, `in[x] * w[0] + in[x + 1] * w[1]`, in sixteen lanes. -/
def tapsHeap : Heap
  | 0 => { name := "in", index := .ramp (constant 0) (constant 1) 16 }
  | 1 => { name := "in", index := .ramp (constant 1) (constant 1) 16 }
  | 2 => { name := "w", index := .scalar (constant 0) }
  | 3 => { name := "w", index := .scalar (constant 1), alignment := ⟨16, 1⟩ }
  | _ => { name := "out", index := .ramp (constant 0) (constant 1) 16 }

def taps : List TripletIRNode := [{ initialLoads := [4], pairWiseLoads := [(0, 2), (1, 3)] }]

/-- Vectors of sixteen 16-bit numbers. -/
def shorts : Compiler where
  numSimdLanes := 16
  dataTypeSizeInBits := 16
  numSimdColumnsPerLane := 2
  columns := columns_sixteen
  memoryOperationsStrideLength := 1

theorem runs_taps (loads : List LoadPtr) (ρ : Env) : Runs tapsHeap loads ρ := by
  intro load _
  unfold AddressAt tapsHeap
  split <;> exact ⟨_, _, rfl, rfl⟩

def tapsTemporal : ReuseGraph where
  loads := [0, 1]
  groups := [{ ids := [0, 1], offsets := [0, 1], name := "loads_temporal_group_" ++ toString 0
               extent := ⟨.expr (.imm .int32 0), .expr (.imm .int32 16)⟩, extentSize := 17 }]

theorem build_taps : buildTemporalReuseGraphAndLogicalMemoryGroups Solve.foldClosed shorts tapsHeap taps =
    some (tapsTemporal, some false) := rfl

theorem temporal_groups_taps :
    tapsTemporal.loads = temporalLoads tapsHeap taps ∧
    (tapsTemporal.groups.map (·.ids)).flatten.Perm (List.range 2) ∧
    (∀ i < 2, ∀ j, (∃ group ∈ tapsTemporal.groups, i ∈ group.ids ∧ j ∈ group.ids) ↔
      ReflTransGen (Linked tapsHeap [0, 1] 16 1) i j) ∧
    ∀ group ∈ tapsTemporal.groups, Spans tapsHeap [0, 1] 16 1 group := by
  have hLoads : temporalLoads tapsHeap taps = [0, 1] := rfl
  have hSome : ∃ ρ, Runs tapsHeap (temporalLoads tapsHeap taps) ρ :=
    ⟨⟨fun _ => 0, fun _ _ => none⟩, runs_taps _ _⟩
  have hConstants : ∀ load ∈ temporalLoads tapsHeap taps,
      ∃ v, (tapsHeap load).base = some (constant v) := by
    rw [hLoads]
    intro load hLoad
    simp only [List.mem_cons, List.not_mem_nil, or_false] at hLoad
    rcases hLoad with rfl | rfl
    · exact ⟨0, rfl⟩
    · exact ⟨1, rfl⟩
  refine temporal_groups SimplifySound.foldClosed (decidesDistances_of_constants hConstants hSome) hSome
    ?_ build_taps
  rw [hLoads]
  intro load hLoad
  simp only [List.mem_cons, List.not_mem_nil, or_false] at hLoad
  rcases hLoad with rfl | rfl <;> exact ⟨rfl, rfl⟩

end Taps

end Vyasa.AICore
