import Vyasa.AICore.TemporalGroups

/-! Groups of scalar loads that are broadcast to all lanes. Those near each other share
a register; a group that is too wide is cut into registers of the largest size, and one
that is narrow may be widened to it. -/
namespace Vyasa.AICore

open Relation Word Vyasa.Expr

/-- Step 1: the scalar loads. -/
def spatialLoads (heap : Heap) (statements : List TripletIRNode) : List LoadPtr :=
  statements.flatMap fun statement => statement.pairWiseLoads.flatMap fun mac =>
    [mac.1, mac.2].filter fun load => (heap load).isScalar

/-- The test of step 2 on the loads with these ids. -/
def spatialRelated (simplify : Expr → Expr) (c : Compiler) (heap : Heap) (loads : List LoadPtr)
    (i j : Nat) : Option Bool := do
  let a ← loads[i]?
  let b ← loads[j]?
  let spatialDistance ← getSpatialDistanceAmongVectorBroadcasts simplify c (heap a) (heap b)
  return 0 ≤ spatialDistance

/-- From the scalar to the end of the vector it is aligned in. -/
def spatialInterval (c : Compiler) (load : Load) : Option Interval :=
  match load.index with
  | .scalar index =>
    let remainder := (toInt load.alignment.remainder).tmod c.numSimdLanes
    some ⟨.expr index, .expr (.sub (.sub (.add index (.imm .int32 c.numSimdLanes))
      (.imm .int32 remainder)) (.imm .int32 1))⟩
  | _ => none

/-- `max_size_bits`, where the flag must have been set. -/
def maxSizeBits : Option Bool → Option Nat
  | none => none
  | some small => some (if small then 512 else 256)

/-- The load lies in the piece of the group, which its inclusion leaves as it is. -/
def liesIn (simplify : Expr → Expr) (lo hi index : Expr) : Option Bool := do
  let tmp := Interval.makeUnion ⟨.expr lo, .expr hi⟩ (.singlePoint index)
  match tmp.min, tmp.max with
  | .expr tmpMin, .expr tmpMax => do
    let diff1 ← (simplify (.sub lo tmpMin)).asIntImm
    let diff2 ← (simplify (.sub hi tmpMax)).asIntImm
    return diff1 = 0 && diff2 = 0
  | _, _ => none

/-- One turn of the loop that cuts a group into pieces. -/
def physicalGroup (simplify : Expr → Expr) (heap : Heap) (loads : List LoadPtr) (maxSize : Int)
    (lo : Expr) (group : LogicalMemoryGroup) (i : Nat) : Option LogicalMemoryGroup := do
  let min := Expr.add lo (.imm .int32 (i * maxSize))
  let max := Expr.sub (.add lo (.imm .int32 ((i + 1) * maxSize))) (.imm .int32 1)
  let members ← group.ids.mapM fun id => do
    let load ← loads[id]?
    let index ← (heap load).base
    return (id, ← liesIn simplify min max index)
  return { ids := (members.filter (·.2)).map (·.1), name := group.name ++ "_" ++ toString i
           extent := ⟨.expr min, .expr max⟩, extentSize := maxSize }

/-- Step 4 for one group. -/
def physicalMemoryGroups (simplify : Expr → Expr) (c : Compiler) (heap : Heap) (loads : List LoadPtr)
    (flag : Option Bool) (group : LogicalMemoryGroup) : Option (List LogicalMemoryGroup) := do
  let intervals ← group.ids.mapM fun id => do spatialInterval c (heap (← loads[id]?))
  let extent := extentOf simplify intervals
  let extentSize ← extentSizeOf simplify extent
  let maxSize : Int := ((← maxSizeBits flag) / c.dataTypeSizeInBits : Nat)
  match extent.min with
  | .expr lo =>
    if maxSize < extentSize then do
      let pieces ← (List.range ((extentSize.tdiv maxSize).toNat + 1)).mapM
        (physicalGroup simplify heap loads maxSize lo group)
      return pieces.filter (·.ids ≠ [])
    else if flag = some true then
      let padding : Interval :=
        ⟨.expr (.add lo (.imm .int32 maxSize)),
          .expr (.sub (.add lo (.imm .int32 maxSize)) (.imm .int32 1))⟩
      return [{ group with extent := extent.makeUnion padding, extentSize := maxSize }]
    else return [{ group with extent := extent, extentSize := extentSize }]
  | _ => none

def buildSpatialReuseGraphAndLogicalMemoryGroups (simplify : Expr → Expr) (c : Compiler) (heap : Heap)
    (flag : Option Bool) (statements : List TripletIRNode) : Option ReuseGraph :=
  let loads := spatialLoads heap statements
  if loads.length = 0 then some ⟨[], []⟩
  else do
    let adj ← buildEdges (spatialRelated simplify c heap loads) loads.length
    let groups ← extractConnectedComponents adj loads.length
    let physicalGroups ← groups.mapM (physicalMemoryGroups simplify c heap loads flag)
    let groups ← finishGroups simplify c heap loads "loads_spatial_group_" physicalGroups.flatten
    return ⟨loads, groups⟩

variable {simplify : Expr → Expr} {c : Compiler} {heap : Heap} {loads : List LoadPtr} {ρ : Env}
  {group piece : LogicalMemoryGroup} {flag : Option Bool} {lo hi index : Expr} {x l h maxSize : Int}

/-- A piece holds the loads between its ends. -/
theorem liesIn_eq (hSimplify : SimplifySound simplify) (hTypes : lo.type = .int32 ∧ hi.type = .int32)
    (hIndex : index.type = .int32) (hl : exact ρ lo = some l) (hh : exact ρ hi = some h)
    (hx : exact ρ index = some x) {b : Bool} (hIn : liesIn simplify lo hi index = some b) :
    b = decide (l ≤ x ∧ x ≤ h) := by
  have hPoint : Ranges ρ (.singlePoint index) x x := ranges_of_exact ⟨hIndex, hIndex⟩ hx hx
  have hPiece := ranges_of_exact hTypes hl hh
  obtain ⟨tmpMin, tmpMax, hEq, -, -, hMin, hMax⟩ := (hPiece.union hPoint).exprs
  rw [liesIn, hEq] at hIn
  obtain ⟨diff1, hDiff1, hIn⟩ := Option.bind_eq_some_iff.mp hIn
  obtain ⟨diff2, hDiff2, hIn⟩ := Option.bind_eq_some_iff.mp hIn
  cases hIn
  have h1 := hSimplify.eq_of_asIntImm hDiff1 (exact_sub hTypes.1 hl hMin)
  have h2 := hSimplify.eq_of_asIntImm hDiff2 (exact_sub hTypes.2 hh hMax)
  rw [Bool.eq_iff_iff, Bool.and_eq_true, decide_eq_true_eq, decide_eq_true_eq, decide_eq_true_eq]
  grind

/-- The members of a register lie within it. -/
def Contains (ρ : Env) (heap : Heap) (loads : List LoadPtr) (group : LogicalMemoryGroup) : Prop :=
  ∃ lo hi, Ranges ρ group.extent lo hi ∧
    ∀ id ∈ group.ids, ∃ x, At ρ heap loads id x ∧ lo ≤ x ∧ x < lo + group.extentSize

section Pieces

variable {value : Nat → Int} {i : Nat}

/-- A piece has the members whose addresses lie between its ends. -/
theorem physicalGroup_spec (hSimplify : SimplifySound simplify) (hType : lo.type = .int32)
    (hl : exact ρ lo = some l) (hValue : ∀ id ∈ group.ids, At ρ heap loads id (value id))
    (h : physicalGroup simplify heap loads maxSize lo group i = some piece) :
    piece.ids = group.ids.filter (fun id => l + i * maxSize ≤ value id ∧
      value id ≤ l + (i + 1) * maxSize - 1) ∧
    piece.extentSize = maxSize ∧
    Ranges ρ piece.extent (l + i * maxSize) (l + (i + 1) * maxSize - 1) := by
  have hMin : exact ρ (.add lo (.imm .int32 (i * maxSize))) = some (l + i * maxSize) :=
    exact_add hType hl rfl
  have hMax : exact ρ (.sub (.add lo (.imm .int32 ((i + 1) * maxSize))) (.imm .int32 1)) =
      some (l + (i + 1) * maxSize - 1) := exact_sub hType (exact_add hType hl rfl) rfl
  obtain ⟨members, hMembers, h⟩ := Option.bind_eq_some_iff.mp h
  cases h
  refine ⟨?_, rfl, ranges_of_exact ⟨hType, hType⟩ hMin hMax⟩
  have hEq := Pointwise.eq_map_of_mapM
    (g := fun id => (id, decide (l + i * maxSize ≤ value id ∧ value id ≤ l + (i + 1) * maxSize - 1)))
    hMembers (by
      intro id hId member hMember
      obtain ⟨load, hLoad, hMember⟩ := Option.bind_eq_some_iff.mp hMember
      obtain ⟨index, hIndex, hMember⟩ := Option.bind_eq_some_iff.mp hMember
      obtain ⟨b, hIn, hMember⟩ := Option.bind_eq_some_iff.mp hMember
      cases hMember
      obtain ⟨load', hLoad', base, hBase, hx⟩ := hValue id hId
      cases hLoad.symm.trans hLoad'
      cases hIndex.symm.trans hBase
      have hb := liesIn_eq hSimplify (by exact ⟨hType, hType⟩) index.2 hMin hMax hx hIn
      rw [hb])
  rw [hEq, List.filter_map, List.map_map]
  exact List.map_id _

/-- The pieces share out the members, whatever the size of the group. -/
theorem pieces_spec (hSimplify : SimplifySound simplify) (hType : lo.type = .int32)
    (hl : exact ρ lo = some l) (hPos : 0 < maxSize) {size : Int} {pieces : List LogicalMemoryGroup}
    (hValue : ∀ id ∈ group.ids, At ρ heap loads id (value id))
    (hInside : ∀ id ∈ group.ids, l ≤ value id ∧ value id ≤ l + size - 1)
    (h : (List.range ((size.tdiv maxSize).toNat + 1)).mapM
      (physicalGroup simplify heap loads maxSize lo group) = some pieces) :
    (pieces.map (·.ids)).flatten.Perm group.ids ∧
      ∀ piece ∈ pieces, piece.extentSize = maxSize ∧ Contains ρ heap loads piece := by
  have hKey : ∀ id ∈ group.ids, ∀ i : Nat, (l + i * maxSize ≤ value id ∧
      value id ≤ l + (i + 1) * maxSize - 1) ↔ ((value id - l) / maxSize).toNat = i := by
    intro id hId i
    have hNonneg : 0 ≤ (value id - l) / maxSize :=
      Int.ediv_nonneg (sub_nonneg.mpr (hInside id hId).1) hPos.le
    have hQuot : ((value id - l) / maxSize).toNat = i ↔ (value id - l) / maxSize = i := by omega
    rw [hQuot, Int.ediv_eq_iff_of_pos hPos]
    constructor
    · rintro ⟨hLower, hUpper⟩
      constructor <;> nlinarith
    · rintro ⟨hLower, hUpper⟩
      constructor <;> nlinarith
  have hSpec (i : Nat) (piece : LogicalMemoryGroup)
      (hPiece : physicalGroup simplify heap loads maxSize lo group i = some piece) :=
    physicalGroup_spec hSimplify hType hl hValue hPiece
  constructor
  · have hIds : pieces.map (·.ids) = (List.range ((size.tdiv maxSize).toNat + 1)).map
        fun i => group.ids.filter fun id => ((value id - l) / maxSize).toNat = i := by
      refine (Pointwise.map_eq (Pointwise.of_mapM h) fun i piece hPiece => ?_).symm
      rw [(hSpec i piece hPiece).1]
      refine List.filter_congr fun id hId => ?_
      rw [decide_eq_decide]
      exact (hKey id hId i).symm
    rw [hIds, ← List.flatMap_def]
    refine Pointwise.buckets_perm (fun id => ((value id - l) / maxSize).toNat) fun id hId => ?_
    obtain ⟨hLower, hUpper⟩ := hInside id hId
    have hLe : (value id - l) / maxSize ≤ size / maxSize := Int.ediv_le_ediv hPos (by omega)
    rw [Int.tdiv_eq_ediv_of_nonneg (by omega)]
    have hNonneg : 0 ≤ (value id - l) / maxSize := Int.ediv_nonneg (by omega) hPos.le
    omega
  · intro piece hPiece
    obtain ⟨i, -, hPiece⟩ := Pointwise.exists_left (Pointwise.of_mapM h) hPiece
    obtain ⟨hIds, hSize, hRange⟩ := hSpec i piece hPiece
    refine ⟨hSize, _, _, hRange, fun id hId => ?_⟩
    rw [hIds, List.mem_filter, decide_eq_true_eq] at hId
    obtain ⟨hId, hLower, hUpper⟩ := hId
    refine ⟨value id, hValue id hId, hLower, ?_⟩
    rw [hSize]
    linarith

end Pieces

theorem covers_spatialInterval {load : Load} {interval : Interval}
    (h : spatialInterval c load = some interval) :
    Covers load (c.numSimdLanes - (toInt load.alignment.remainder).tmod c.numSimdLanes - 1) interval := by
  unfold spatialInterval at h
  split at h
  case h_1 index hIndex =>
    cases h
    generalize (toInt load.alignment.remainder).tmod c.numSimdLanes = remainder
    refine ⟨index, ⟨.sub (.sub (.add index (.imm .int32 c.numSimdLanes)) (.imm .int32 remainder))
      (.imm .int32 1), index.2⟩, by rw [Load.base, hIndex], rfl, fun ρ x hx => ?_⟩
    have hVector : exact ρ (.add index.val (.imm .int32 c.numSimdLanes)) = some (x + c.numSimdLanes) :=
      exact_add index.2 hx rfl
    have hRest : exact ρ (.sub (.add index.val (.imm .int32 c.numSimdLanes)) (.imm .int32 remainder)) =
        some (x + c.numSimdLanes - remainder) := exact_sub index.2 hVector rfl
    have hEnd := exact_sub (b := .imm .int32 1) (y := 1) (by exact index.2) hRest rfl
    rw [hEnd, add_sub_assoc, add_sub_assoc]
  case h_2 => cases h

section Groups

variable {pieces : List LogicalMemoryGroup} {graph : ReuseGraph} {statements : List TripletIRNode}

/-- The registers that one group becomes. -/
structure Physical (c : Compiler) (heap : Heap) (loads : List LoadPtr) (flag : Option Bool)
    (group : LogicalMemoryGroup) (pieces : List LogicalMemoryGroup) : Prop where
  perm : (pieces.map (·.ids)).flatten.Perm group.ids
  fits : ∃ small, flag = some small ∧
    ∀ piece ∈ pieces, piece.extentSize * c.dataTypeSizeInBits ≤ if small then 512 else 256
  contains : ∀ ρ, Runs heap loads ρ → ∀ piece ∈ pieces, Contains ρ heap loads piece

theorem Compiler.bits_pos (c : Compiler) : 0 < c.dataTypeSizeInBits ∧ c.dataTypeSizeInBits ≤ 32 := by
  rcases c.shape with ⟨-, h, -⟩ | ⟨-, h, -⟩ | ⟨-, h, -⟩ <;> omega

theorem Compiler.lanes_pos (c : Compiler) : 0 < c.numSimdLanes := by
  rcases c.shape with ⟨h, -⟩ | ⟨h, -⟩ | ⟨h, -⟩ <;> omega

/-- The range of a spatial group, at the values of a run. -/
theorem spatial_range (hSimplify : SimplifySound simplify) (hNonempty : group.ids ≠ [])
    {intervals : List Interval} {size : Int}
    (hIntervals : group.ids.mapM (fun id => do spatialInterval c (heap (← loads[id]?))) = some intervals)
    (hSize : extentSizeOf simplify (extentOf simplify intervals) = some size)
    (hRuns : Runs heap loads ρ) :
    ∃ l h, Ranges ρ (extentOf simplify intervals) l h ∧ size = h - l + 1 ∧
      ∀ id ∈ group.ids, ∃ x, At ρ heap loads id x ∧ l ≤ x ∧ x ≤ l + size - 1 := by
  have hMembers := (Pointwise.of_mapM hIntervals).imp
    (S := fun id interval => ∃ load, loads[id]? = some load ∧ Covers (heap load)
      ((c.numSimdLanes : Int) - (toInt (heap load).alignment.remainder).tmod c.numSimdLanes - 1) interval)
    (by
      intro id interval hId
      obtain ⟨load, hLoad, hInterval⟩ := Option.bind_eq_some_iff.mp hId
      exact ⟨load, hLoad, covers_spatialInterval hInterval⟩)
  obtain ⟨l, h, hRange, hBounds, -⟩ := extentOf_members hSimplify hRuns hNonempty hMembers
  have hEq := hSimplify.extentSize hRange hSize
  refine ⟨l, h, hRange, hEq, fun id hId => ?_⟩
  obtain ⟨load, x, hLoad, hx, hLower, hUpper⟩ := hBounds id hId
  have hLanes : (0 : Int) < c.numSimdLanes := by exact_mod_cast c.lanes_pos
  have hLess := Int.tmod_lt_of_pos (toInt (heap load).alignment.remainder) hLanes
  exact ⟨x, ⟨load, hLoad, hx⟩, hLower, by omega⟩

theorem physical_of_physicalMemoryGroups (hSimplify : SimplifySound simplify)
    (hSome : ∃ ρ, Runs heap loads ρ) (hNonempty : group.ids ≠ [])
    (h : physicalMemoryGroups simplify c heap loads flag group = some pieces) :
    Physical c heap loads flag group pieces := by
  obtain ⟨intervals, hIntervals, h⟩ := Option.bind_eq_some_iff.mp h
  obtain ⟨size, hSize, h⟩ := Option.bind_eq_some_iff.mp h
  obtain ⟨bits, hBits, h⟩ := Option.bind_eq_some_iff.mp h
  obtain ⟨small, rfl⟩ : ∃ small, flag = some small := by
    cases flag with
    | none => cases hBits
    | some small => exact ⟨small, rfl⟩
  have hBitsEq : bits = if small then 512 else 256 := (Option.some.inj hBits).symm
  have hRangeAt (ρ : Env) (hRuns : Runs heap loads ρ) :=
    spatial_range hSimplify hNonempty hIntervals hSize hRuns
  obtain ⟨ρ₀, hRuns₀⟩ := hSome
  obtain ⟨l₀, h₀, hRange₀, -⟩ := hRangeAt ρ₀ hRuns₀
  obtain ⟨lo, hi, hExtent, hLoType, -⟩ := hRange₀.exprs
  rw [hExtent] at hRangeAt
  have hLo {ρ : Env} {l h : Int} (hRange : Ranges ρ ⟨.expr lo, .expr hi⟩ l h) : exact ρ lo = some l := by
    obtain ⟨a, b, hEq, -, -, hl, -⟩ := hRange.exprs
    cases hEq
    exact hl
  have hLimit : bits / c.dataTypeSizeInBits * c.dataTypeSizeInBits ≤ if small then 512 else 256 :=
    hBitsEq ▸ Nat.div_mul_le_self _ _
  have hPos : 0 < bits / c.dataTypeSizeInBits := by
    have hAtLeast : 256 ≤ bits := by
      rw [hBitsEq]
      split <;> omega
    exact Nat.div_pos (c.bits_pos.2.trans (by omega)) c.bits_pos.1
  rw [hExtent] at h
  generalize hMax : bits / c.dataTypeSizeInBits = maxSize at h hLimit hPos
  have hLimitInt : (maxSize : Int) * c.dataTypeSizeInBits ≤ if small then 512 else 256 := by
    split_ifs at hLimit ⊢ <;> exact_mod_cast hLimit
  have hLess {m : Int} (hm : m ≤ maxSize) : m * c.dataTypeSizeInBits ≤ if small then 512 else 256 :=
    (mul_le_mul_of_nonneg_right hm (Int.natCast_nonneg _)).trans hLimitInt
  dsimp only at h
  split_ifs at h with hLarge hSmall
  · -- The group is cut into pieces.
    obtain ⟨all, hAll, h⟩ := Option.bind_eq_some_iff.mp h
    cases h
    have hPieces (ρ : Env) (hRuns : Runs heap loads ρ) : (all.map (·.ids)).flatten.Perm group.ids ∧
        ∀ piece ∈ all, piece.extentSize = maxSize ∧ Contains ρ heap loads piece := by
      obtain ⟨l, h, hRange, -, hBounds⟩ := hRangeAt ρ hRuns
      choose! value hValue using hBounds
      exact pieces_spec hSimplify hLoType (hLo hRange) (by exact_mod_cast hPos)
        (fun id hId => (hValue id hId).1) (fun id hId => (hValue id hId).2) hAll
    refine ⟨?_, ⟨small, rfl, fun piece hPiece => ?_⟩, fun ρ hRuns piece hPiece => ?_⟩
    · have hKept : (all.filter (·.ids ≠ [])).map (·.ids) = (all.map (·.ids)).filter (· ≠ []) := by
        rw [List.filter_map]
        rfl
      rw [hKept, List.flatten_filter_ne_nil]
      exact (hPieces ρ₀ hRuns₀).1
    · rw [((hPieces ρ₀ hRuns₀).2 piece (List.mem_of_mem_filter hPiece)).1]
      exact hLess le_rfl
    · exact ((hPieces ρ hRuns).2 piece (List.mem_of_mem_filter hPiece)).2
  · -- The group is widened.
    cases h
    refine ⟨by simp, ⟨small, rfl, fun piece hPiece => ?_⟩, fun ρ hRuns piece hPiece => ?_⟩
    · cases List.mem_singleton.mp hPiece
      exact hLess le_rfl
    · cases List.mem_singleton.mp hPiece
      obtain ⟨l, h, hRange, hSizeEq, hBounds⟩ := hRangeAt ρ hRuns
      have hStart : exact ρ (.add lo (.imm .int32 maxSize)) = some (l + maxSize) :=
        exact_add hLoType (hLo hRange) rfl
      have hEnd : exact ρ (.sub (.add lo (.imm .int32 maxSize)) (.imm .int32 1)) =
          some (l + maxSize - 1) := exact_sub hLoType hStart rfl
      have hPadded := hRange.union (ranges_of_exact (by exact ⟨hLoType, hLoType⟩) hStart hEnd)
      have hMin : min l (l + maxSize) = l := min_eq_left (by omega)
      rw [hMin] at hPadded
      refine ⟨l, _, hPadded, fun id hId => ?_⟩
      obtain ⟨x, hx, hLower, hUpper⟩ := hBounds id hId
      exact ⟨x, hx, hLower, show x < l + (maxSize : Int) by omega⟩
  · cases h
    refine ⟨by simp, ⟨small, rfl, fun piece hPiece => ?_⟩, fun ρ hRuns piece hPiece => ?_⟩
    · cases List.mem_singleton.mp hPiece
      exact hLess (not_lt.mp hLarge)
    · cases List.mem_singleton.mp hPiece
      obtain ⟨l, h, hRange, hSizeEq, hBounds⟩ := hRangeAt ρ hRuns
      refine ⟨l, h, hRange, fun id hId => ?_⟩
      obtain ⟨x, hx, hLower, hUpper⟩ := hBounds id hId
      exact ⟨x, hx, hLower, show x < l + size by omega⟩

theorem perm_of_physical {groups : List LogicalMemoryGroup} {physicals : List (List LogicalMemoryGroup)}
    (h : List.Forall₂ (Physical c heap loads flag) groups physicals) :
    (physicals.flatten.map (·.ids)).flatten.Perm (groups.map (·.ids)).flatten := by
  induction h with
  | nil => exact List.Perm.nil
  | cons hHead _ ih =>
    rw [List.flatten_cons, List.map_append, List.flatten_append, List.map_cons, List.flatten_cons]
    exact hHead.perm.append ih

/-- What the builder returns: the loads shared out over registers, in each of which
they have offsets. -/
structure SpatialGroups (simplify : Expr → Expr) (c : Compiler) (heap : Heap) (flag : Option Bool)
    (statements : List TripletIRNode) (graph : ReuseGraph) : Prop where
  loads : graph.loads = spatialLoads heap statements
  perm : (graph.groups.map (·.ids)).flatten.Perm (List.range graph.loads.length)
  groups : ∀ final ∈ graph.groups, ∃ group pieces piece count, Physical c heap graph.loads flag group pieces ∧
    piece ∈ pieces ∧ checkAlignment c piece.extent = some () ∧
    Mapped simplify heap graph.loads "loads_spatial_group_" count piece final
  names : graph.groups.map (·.name) =
    (List.range graph.groups.length).map ("loads_spatial_group_" ++ toString ·)
  set : graph.loads ≠ [] → flag ≠ none

theorem spatialGroups_of_build (hSimplify : SimplifySound simplify)
    (hSome : ∃ ρ, Runs heap (spatialLoads heap statements) ρ)
    (h : buildSpatialReuseGraphAndLogicalMemoryGroups simplify c heap flag statements = some graph) :
    SpatialGroups simplify c heap flag statements graph := by
  unfold buildSpatialReuseGraphAndLogicalMemoryGroups at h
  dsimp only at h
  split_ifs at h with hEmpty
  · cases h
    exact ⟨(List.length_eq_zero_iff.mp hEmpty).symm, List.Perm.nil, by simp, rfl, by simp⟩
  · obtain ⟨adj, hAdj, h⟩ := Option.bind_eq_some_iff.mp h
    obtain ⟨groups, hGroups, h⟩ := Option.bind_eq_some_iff.mp h
    obtain ⟨physicals, hPhysicals, h⟩ := Option.bind_eq_some_iff.mp h
    obtain ⟨finals, hFinals, h⟩ := Option.bind_eq_some_iff.mp h
    cases h
    obtain ⟨parts, hParts, hDivides, hInside⟩ := components_of_buildEdges hAdj
    cases hGroups.symm.trans hParts
    obtain ⟨hFinalIds, hNames, hMapped⟩ := mapped_of_finishGroups hFinals
    have hPhysical : List.Forall₂ (Physical c heap (spatialLoads heap statements) flag)
        (parts.map ({ ids := · })) physicals := by
      have hRuns := Pointwise.of_mapM hPhysicals
      rw [List.forall₂_map_left_iff] at hRuns ⊢
      refine List.Forall₂.imp (fun part pieces hPieces => ?_) ((List.forall₂_and_left _ _).mpr
        ⟨fun part hPart => hDivides.nonempty part hPart, hRuns⟩)
      exact physical_of_physicalMemoryGroups hSimplify hSome hPieces.1 hPieces.2
    have hPerm : (finals.map (·.ids)).flatten.Perm parts.flatten := by
      rw [hFinalIds]
      have hAll := perm_of_physical hPhysical
      rwa [List.map_map, Function.comp_def, List.map_id'] at hAll
    refine ⟨rfl, hPerm.trans ?_, fun final hFinal => ?_, hNames, fun _ => ?_⟩
    · refine (List.perm_ext_iff_of_nodup hDivides.nodup List.nodup_range).mpr fun id => ?_
      exact ⟨fun hId => List.mem_range.mpr (hInside id hId), hDivides.covers id⟩
    · obtain ⟨piece, hPiece, hCheck, count, hFinal⟩ := hMapped final hFinal
      obtain ⟨pieces, hPieces, hMem⟩ := List.mem_flatten.mp hPiece
      obtain ⟨group, -, hGroup⟩ := Pointwise.exists_left hPhysical hPieces
      exact ⟨group, pieces, piece, count, hGroup, hMem, hCheck, hFinal⟩
    · have hZero := hDivides.covers 0 (List.mem_range.mpr (Nat.pos_of_ne_zero hEmpty))
      obtain ⟨part, hPart, -⟩ := List.mem_flatten.mp hZero
      obtain ⟨pieces, -, hPieces⟩ := Pointwise.exists_right hPhysical (List.mem_map_of_mem hPart)
      obtain ⟨small, hFlag, -⟩ := hPieces.fits
      rw [hFlag]
      exact Option.some_ne_none small

/-- The members of a register lie at their offsets, each of which is within it. -/
structure Located (heap : Heap) (loads : List LoadPtr) (group : LogicalMemoryGroup) : Prop where
  placed : Placed heap loads group
  inside : ∀ offset ∈ group.offsets, 0 ≤ offset ∧ offset < group.extentSize

theorem located_of_contains {label : String} {count : Nat} {final : LogicalMemoryGroup}
    (hSimplify : SimplifySound simplify) (hSome : ∃ ρ, Runs heap loads ρ)
    (hContains : ∀ ρ, Runs heap loads ρ → Contains ρ heap loads piece)
    (hMapped : Mapped simplify heap loads label count piece final) : Located heap loads final := by
  have hPlaced : Placed heap loads final := by
    refine hMapped.placed hSimplify hSome fun ρ hRuns => ?_
    obtain ⟨lo, hi, hRange, -⟩ := hContains ρ hRuns
    exact ⟨lo, hi, hRange⟩
  obtain ⟨ρ, hRuns⟩ := hSome
  obtain ⟨lo, hi, hRange, hInside⟩ := hContains ρ hRuns
  constructor
  case placed => exact hPlaced
  case inside =>
    intro offset hOffset
    obtain ⟨id, hId, hAt⟩ := Pointwise.exists_left (hMapped.offsets_at hSimplify hRuns hRange) hOffset
    rw [hMapped.ids] at hId
    obtain ⟨x, hx, hLower, hUpper⟩ := hInside id hId
    have hEq := hx.unique hAt
    rw [hMapped.extentSize]
    omega

theorem SpatialGroups.located (hGroups : SpatialGroups simplify c heap flag statements graph)
    (hSimplify : SimplifySound simplify) (hSome : ∃ ρ, Runs heap graph.loads ρ) :
    ∀ group ∈ graph.groups, Located heap graph.loads group := by
  intro final hFinal
  obtain ⟨group, pieces, piece, count, hPhysical, hPiece, -, hMapped⟩ := hGroups.groups final hFinal
  exact located_of_contains hSimplify hSome (fun ρ hRuns => hPhysical.contains ρ hRuns piece hPiece) hMapped

end Groups

/-- Every scalar load is in exactly one register and within it, and no register is
wider than the flag of the temporal groups allows. -/
theorem spatial_groups {statements : List TripletIRNode} {temporal graph : ReuseGraph}
    (hSimplify : SimplifySound simplify) (hSome : ∃ ρ, Runs heap (spatialLoads heap statements) ρ)
    (hTemporal : buildTemporalReuseGraphAndLogicalMemoryGroups simplify c heap statements =
      some (temporal, flag))
    (h : buildSpatialReuseGraphAndLogicalMemoryGroups simplify c heap flag statements = some graph) :
    (∀ group ∈ temporal.groups,
      flag = some (decide (group.extentSize * c.dataTypeSizeInBits ≤ 256))) ∧
    graph.loads = spatialLoads heap statements ∧
    (graph.groups.map (·.ids)).flatten.Perm (List.range graph.loads.length) ∧
    ∀ group ∈ graph.groups, Located heap graph.loads group ∧
      group.extentSize * c.dataTypeSizeInBits ≤ if flag = some true then 512 else 256 := by
  have hGroups := spatialGroups_of_build hSimplify hSome h
  rw [← hGroups.loads] at hSome
  refine ⟨(temporalGroups_of_build hTemporal).small, hGroups.loads, hGroups.perm, fun final hFinal =>
    ⟨hGroups.located hSimplify hSome final hFinal, ?_⟩⟩
  obtain ⟨group, pieces, piece, count, hPhysical, hPiece, -, hMapped⟩ := hGroups.groups final hFinal
  obtain ⟨small, rfl, hFits⟩ := hPhysical.fits
  rw [hMapped.extentSize]
  have hFit := hFits piece hPiece
  cases small <;> exact hFit

section Taps

def tapsSpatial : ReuseGraph where
  loads := [2, 3]
  groups := [{ ids := [0, 1], offsets := [0, 1], name := "loads_spatial_group_" ++ toString 0
               extent := ⟨.expr (.imm .int32 0), .expr (.imm .int32 15)⟩, extentSize := 16 }]

theorem build_taps_spatial : buildSpatialReuseGraphAndLogicalMemoryGroups Solve.foldClosed shorts tapsHeap
    (some false) taps = some tapsSpatial := rfl

theorem spatial_groups_taps :
    (∀ group ∈ tapsTemporal.groups, some false = some (decide (group.extentSize * 16 ≤ 256))) ∧
    tapsSpatial.loads = spatialLoads tapsHeap taps ∧
    (tapsSpatial.groups.map (·.ids)).flatten.Perm (List.range 2) ∧
    ∀ group ∈ tapsSpatial.groups, Located tapsHeap [2, 3] group ∧
      group.extentSize * 16 ≤ if some false = some true then 512 else 256 :=
  spatial_groups SimplifySound.foldClosed ⟨⟨fun _ => 0, fun _ _ => none⟩, runs_taps _ _⟩ build_taps
    build_taps_spatial

end Taps

end Vyasa.AICore

/-! What the alignment check of a group says about the addresses that its register is
loaded from. The check looks at the modulus only. -/
namespace Vyasa.AICore

open Word Vyasa.Expr ModulusRemainder

variable {simplify : Expr → Expr} {c : Compiler} {heap : Heap} {statements : List TripletIRNode}
  {graph : ReuseGraph} {flag : Option Bool} {group : LogicalMemoryGroup} {extent : Interval}
  {lo : Expr} {m : ModulusRemainder}

/-- The graph is one that the compiler builds for the statements. -/
def Built (simplify : Expr → Expr) (c : Compiler) (heap : Heap) (statements : List TripletIRNode)
    (graph : ReuseGraph) : Prop :=
  (∃ flag, buildTemporalReuseGraphAndLogicalMemoryGroups simplify c heap statements = some (graph, flag)) ∨
    ∃ flag, buildSpatialReuseGraphAndLogicalMemoryGroups simplify c heap flag statements = some graph

theorem checked_of_finishGroups {label : String} {loads : List LoadPtr}
    {groups finals : List LogicalMemoryGroup}
    (h : finishGroups simplify c heap loads label groups = some finals) (hGroup : group ∈ finals) :
    checkAlignment c group.extent = some () := by
  obtain ⟨-, -, hMapped⟩ := mapped_of_finishGroups h
  obtain ⟨piece, -, hCheck, count, hFinal⟩ := hMapped group hGroup
  rwa [hFinal.extent]

/-- Every group of a graph has passed the check. -/
theorem Built.checked (h : Built simplify c heap statements graph) (hGroup : group ∈ graph.groups) :
    checkAlignment c group.extent = some () := by
  rcases h with ⟨flag, h⟩ | ⟨flag, h⟩
  · obtain ⟨before, sized, count, -, hCheck, hMapped⟩ := (temporalGroups_of_build h).groups group hGroup
    rwa [hMapped.extent]
  · unfold buildSpatialReuseGraphAndLogicalMemoryGroups at h
    dsimp only at h
    split_ifs at h with hEmpty
    · cases h
      cases hGroup
    · obtain ⟨adj, -, h⟩ := Option.bind_eq_some_iff.mp h
      obtain ⟨groups, -, h⟩ := Option.bind_eq_some_iff.mp h
      obtain ⟨physicals, -, h⟩ := Option.bind_eq_some_iff.mp h
      obtain ⟨finals, hFinals, h⟩ := Option.bind_eq_some_iff.mp h
      cases h
      exact checked_of_finishGroups hFinals hGroup

/-- The number of elements in 128 bits. -/
def requirementAlignment (c : Compiler) : Int := (128 / c.dataTypeSizeInBits : Nat)

/-- What the check establishes, where the analysis knows anything. -/
theorem dvd_modulus_of_checkAlignment (h : checkAlignment c extent = some ())
    (hLo : extent.min = .expr lo) (hAlign : modulusRemainder lo = some m)
    (hInfo : ¬ (m.modulus = 1 ∧ m.remainder = 0)) : requirementAlignment c ∣ m.modulus.toInt := by
  rw [checkAlignment, hLo] at h
  dsimp only at h
  rw [hAlign, Option.bind_eq_bind, Option.bind_some] at h
  have hCheck : (!(decide (m.modulus = 1) && decide (m.remainder = 0))) = true := by
    simpa [← imp_iff_not_or] using hInfo
  rw [if_pos hCheck, Option.guard_eq_some'] at h
  exact Int.dvd_of_tmod_eq_zero h

/-- The register of an accepted group is aligned exactly if the remainder is, which
nothing checks. -/
theorem alignment_accepted_iff (hBuilt : Built simplify c heap statements graph)
    (hGroup : group ∈ graph.groups) (hLo : group.extent.min = .expr lo)
    (hAlign : modulusRemainder lo = some m) (hInfo : ¬ (m.modulus = 1 ∧ m.remainder = 0))
    (hTracked : Tracked [] lo) (hSome : ∃ ρ z, exact ρ lo = some z) :
    (∀ ρ z, exact ρ lo = some z → requirementAlignment c ∣ z) ↔
      requirementAlignment c ∣ m.remainder.toInt := by
  have hModulus := dvd_modulus_of_checkAlignment (hBuilt.checked hGroup) hLo hAlign hInfo
  have hValue (ρ : Env) (z : Int) (hz : exact ρ lo = some z) :
      requirementAlignment c ∣ z ↔ requirementAlignment c ∣ m.remainder.toInt := by
    obtain ⟨k, rfl⟩ := mem_iff.mp (modulusRemainder_mem hTracked hAlign hz)
    exact (Int.dvd_add_right (hModulus.mul_right k))
  constructor
  · intro h
    obtain ⟨ρ, z, hz⟩ := hSome
    exact (hValue ρ z hz).mp (h ρ z hz)
  · exact fun h ρ z hz => (hValue ρ z hz).mpr h

section Unaligned

/-- A single product, of a vector at a constant address. -/
def vectorAt (v : Int) : Heap
  | 0 => { name := "in", index := .ramp (constant v) (constant 1) 16 }
  | 1 => { name := "w", index := .scalar (constant 0) }
  | _ => { name := "out", index := .ramp (constant 0) (constant 1) 16 }

def product : List TripletIRNode := [{ initialLoads := [2], pairWiseLoads := [(0, 1)] }]

def productTemporal (v : Int) : ReuseGraph where
  loads := [0]
  groups := [{ ids := [0], offsets := [0], name := "loads_temporal_group_" ++ toString 0
               extent := ⟨.expr (.imm .int32 v), .expr (.imm .int32 (v + 15))⟩, extentSize := 16 }]

theorem built_eight : Built Solve.foldClosed shorts (vectorAt 8) product (productTemporal 8) :=
  Or.inl ⟨some true, rfl⟩

/-- The vector at address 8 is accepted, with a remainder that is aligned. -/
theorem alignment_accepted_eight :
    (∀ ρ z, exact ρ (.imm .int32 8) = some z → requirementAlignment shorts ∣ z) ↔
      requirementAlignment shorts ∣ (8 : Int64).toInt :=
  alignment_accepted_iff built_eight List.mem_cons_self rfl (m := ⟨0, 8⟩) rfl (by decide)
    (by decide : IntType.int32.Has 8) ⟨⟨fun _ => 0, fun _ _ => none⟩, 8, rfl⟩

/-- The vector at address 1 is accepted, and so is one at `8 * x + 1`. -/
theorem alignment_accepted_unaligned :
    (∃ group ∈ (productTemporal 1).groups, Built Solve.foldClosed shorts (vectorAt 1) product (productTemporal 1) ∧
      ∃ lo, group.extent.min = .expr lo ∧ modulusRemainder lo = some ⟨0, 1⟩ ∧
        ∃ ρ, exact ρ lo = some 1 ∧ ¬ requirementAlignment shorts ∣ 1) ∧
    ∃ lo, checkAlignment shorts ⟨.expr lo, .expr lo⟩ = some () ∧ modulusRemainder lo = some ⟨8, 1⟩ ∧
      ∃ ρ, exact ρ lo = some 1 ∧ ¬ requirementAlignment shorts ∣ 1 := by
  let x : Expr := .add (.mul (.var .int32 (.mk "x")) (.imm .int32 8)) (.imm .int32 1)
  refine ⟨⟨_, List.mem_cons_self, Or.inl ⟨some true, rfl⟩, .imm .int32 1, rfl, rfl,
    ⟨fun _ => 0, fun _ _ => none⟩, rfl, by decide⟩, x, ?_, ?_, ⟨fun _ => 0, fun _ _ => none⟩, rfl, by decide⟩
  · decide
  · decide

end Unaligned

end Vyasa.AICore
