import Vyasa.AICore.Spatial

/-! The products of a statement whose operands are in the same two registers become one
statement, with a column for each product. -/
namespace Vyasa.AICore

open Vyasa.Expr

/-- Where a load is found: its register, whether that is one of the temporal reuse
graph, and the offset in it. -/
structure GroupInformation where
  group : LogicalMemoryGroup
  isTemporal : Bool
  offset : Int

/-- The first group with this member. A group has as many offsets as members. -/
def groupOfId (groups : List LogicalMemoryGroup) (id : Nat) : Option (LogicalMemoryGroup × Int) :=
  groups.findSome? fun group =>
    ((group.ids.zip group.offsets).find? (·.1 = id)).map fun p => (group, p.2)

def getLogicalMemoryGroupInformationGivenALoad (temporal spatial : ReuseGraph) (targetLoad : LoadPtr) :
    Option GroupInformation :=
  let temporalId := temporal.loads.idxOf? targetLoad
  match temporalId.bind (groupOfId temporal.groups) with
  | some (group, offset) => some ⟨group, true, offset⟩
  | none =>
    match spatial.loads.idxOf? targetLoad with
    | some id => (groupOfId spatial.groups id).map fun p => ⟨p.1, false, p.2⟩
    -- The id that the load has in the first graph is still set.
    | none => (temporalId.bind (groupOfId spatial.groups)).map fun p => ⟨p.1, true, p.2⟩

namespace AIVectorMacOperation

/-- `new AIVectorMacOperation`, with its first offsets -/
def new (c : Compiler) (operand1 operand2 : String) (offsets : Int × Int) : AIVectorMacOperation where
  operand1GroupName := operand1
  operand2GroupName := operand2
  simdColumns := 1
  simdLanes := c.numSimdLanes
  operandOffsets := [offsets]

def key (mac : AIVectorMacOperation) : String × String :=
  (mac.operand1GroupName, mac.operand2GroupName)

def addColumn (mac : AIVectorMacOperation) (offsets : Int × Int) : AIVectorMacOperation :=
  { mac with simdColumns := mac.simdColumns + 1, operandOffsets := mac.operandOffsets ++ [offsets] }

/-- The operands of each product: the register and the offset in it. -/
def products (mac : AIVectorMacOperation) : List ((String × Int) × (String × Int)) :=
  mac.operandOffsets.map fun offsets =>
    ((mac.operand1GroupName, offsets.1), (mac.operand2GroupName, offsets.2))

end AIVectorMacOperation

/-- A column for the product in every statement with its two registers. -/
def addVectorMac (c : Compiler) (operand1 operand2 : String) (offsets : Int × Int)
    (fusedVectorMacs : List AIVectorMacOperation) : List AIVectorMacOperation :=
  if fusedVectorMacs.isEmpty then [.new c operand1 operand2 offsets]
  else if fusedVectorMacs.any (·.key = (operand1, operand2)) then
    fusedVectorMacs.map fun mac => if mac.key = (operand1, operand2) then mac.addColumn offsets else mac
  else fusedVectorMacs ++ [.new c operand1 operand2 offsets]

/-- One turn of the loop over the products. The flag is an `int`, of which only `0`
keeps the order of the operands. -/
def fuseVectorMac (c : Compiler) (temporal spatial : ReuseGraph) (flag : Option Bool)
    (fusedVectorMacs : List AIVectorMacOperation) (vectorMac : LoadPtr × LoadPtr) :
    Option (List AIVectorMacOperation) := do
  let op1 := if flag = some false then vectorMac.1 else vectorMac.2
  let operand1 ← getLogicalMemoryGroupInformationGivenALoad temporal spatial op1
  let op2 := if flag = some false then vectorMac.2 else vectorMac.1
  let operand2 ← getLogicalMemoryGroupInformationGivenALoad temporal spatial op2
  return addVectorMac c operand1.group.name operand2.group.name (operand1.offset, operand2.offset)
    fusedVectorMacs

def fuseVectorMacOperations (c : Compiler) (temporal spatial : ReuseGraph) (flag : Option Bool)
    (statements : List TripletIRNode) : Option (List TripletIRNode) :=
  statements.mapM fun statement => do
    let fusedVectorMacs ← statement.pairWiseLoads.foldlM (fuseVectorMac c temporal spatial flag) []
    return { statement with fusedVectorMacs := fusedVectorMacs }

section Columns

variable {c : Compiler} {macs macs' : List AIVectorMacOperation} {operand1 operand2 : String}
  {offsets : Int × Int} {temporal spatial : ReuseGraph} {flag : Option Bool}

namespace AIVectorMacOperation

@[simp] theorem key_new : (new c operand1 operand2 offsets).key = (operand1, operand2) := rfl

@[simp] theorem key_addColumn (mac : AIVectorMacOperation) : (mac.addColumn offsets).key = mac.key := rfl

@[simp] theorem products_new : (new c operand1 operand2 offsets).products =
    [((operand1, offsets.1), (operand2, offsets.2))] := rfl

theorem products_addColumn {mac : AIVectorMacOperation} (h : mac.key = (operand1, operand2)) :
    (mac.addColumn offsets).products =
      mac.products ++ [((operand1, offsets.1), (operand2, offsets.2))] := by
  cases h
  rw [products, products, addColumn, List.map_append]
  rfl

end AIVectorMacOperation

/-- Where the registers of the statements are distinct, one of them gets the column. -/
theorem products_addToMatching (hNodup : (macs.map (·.key)).Nodup)
    (hMem : (operand1, operand2) ∈ macs.map (·.key)) :
    ((macs.map fun mac => if mac.key = (operand1, operand2) then mac.addColumn offsets else mac).flatMap
      (·.products)).Perm (macs.flatMap (·.products) ++ [((operand1, offsets.1), (operand2, offsets.2))]) := by
  induction macs with
  | nil => cases hMem
  | cons mac macs ih =>
    rw [List.map_cons, List.nodup_cons] at hNodup
    rw [List.map_cons, List.flatMap_cons, List.flatMap_cons, List.append_assoc]
    by_cases hKey : mac.key = (operand1, operand2)
    · have hRest : (macs.map fun mac =>
          if mac.key = (operand1, operand2) then mac.addColumn offsets else mac) = macs := by
        refine (List.map_congr_left fun other hOther => if_neg fun hEq => ?_).trans (List.map_id macs)
        exact hNodup.1 (List.mem_map.mpr ⟨other, hOther, hEq.trans hKey.symm⟩)
      rw [if_pos hKey, hRest, AIVectorMacOperation.products_addColumn hKey, List.append_assoc]
      exact List.perm_append_comm.append_left _
    · have hMem' : (operand1, operand2) ∈ macs.map (·.key) := by
        rcases List.mem_cons.mp hMem with hEq | hMem
        · exact absurd hEq.symm hKey
        · exact hMem
      rw [if_neg hKey]
      exact (ih hNodup.2 hMem').append_left _

/-- A product is added once, and the registers of the statements stay distinct. -/
theorem products_addVectorMac (c : Compiler) (operand1 operand2 : String) (offsets : Int × Int)
    (hNodup : (macs.map (·.key)).Nodup) :
    ((addVectorMac c operand1 operand2 offsets macs).flatMap (·.products)).Perm
      (macs.flatMap (·.products) ++ [((operand1, offsets.1), (operand2, offsets.2))]) ∧
    ((addVectorMac c operand1 operand2 offsets macs).map (·.key)).Nodup := by
  unfold addVectorMac
  split_ifs with hEmpty hAny
  · cases List.isEmpty_iff.mp hEmpty
    exact ⟨List.Perm.refl _, List.nodup_singleton _⟩
  · obtain ⟨mac, hMac, hKey⟩ := List.any_eq_true.mp hAny
    refine ⟨products_addToMatching hNodup ?_, ?_⟩
    · exact List.mem_map.mpr ⟨mac, hMac, of_decide_eq_true hKey⟩
    · have hKeys : (macs.map fun mac =>
          if mac.key = (operand1, operand2) then mac.addColumn offsets else mac).map (·.key) =
          macs.map (·.key) := by
        rw [List.map_map]
        refine List.map_congr_left fun mac _ => ?_
        rw [Function.comp_apply]
        split_ifs <;> rfl
      rwa [hKeys]
  · refine ⟨by simp, ?_⟩
    rw [List.map_append, List.nodup_append]
    refine ⟨hNodup, List.nodup_singleton _, fun a ha b hb hEq => hAny (List.any_eq_true.mpr ?_)⟩
    obtain ⟨mac, hMac, rfl⟩ := List.mem_map.mp ha
    cases List.mem_singleton.mp hb
    exact ⟨mac, hMac, decide_eq_true hEq⟩

/-- The operands of a product as they are looked up, the second one first where the
temporal groups are small. -/
def lookUp (temporal spatial : ReuseGraph) (flag : Option Bool) (vectorMac : LoadPtr × LoadPtr) :
    Option (GroupInformation × GroupInformation) := do
  let first ← getLogicalMemoryGroupInformationGivenALoad temporal spatial vectorMac.1
  let second ← getLogicalMemoryGroupInformationGivenALoad temporal spatial vectorMac.2
  return if flag = some true then (second, first) else (first, second)

/-- The product of two operands that were looked up. -/
def productOf (operands : GroupInformation × GroupInformation) : (String × Int) × (String × Int) :=
  ((operands.1.group.name, operands.1.offset), (operands.2.group.name, operands.2.offset))

theorem fuseVectorMac_eq {vectorMac : LoadPtr × LoadPtr} (hFlag : flag ≠ none)
    (h : fuseVectorMac c temporal spatial flag macs vectorMac = some macs') :
    ∃ operands, lookUp temporal spatial flag vectorMac = some operands ∧
      macs' = addVectorMac c operands.1.group.name operands.2.group.name
        (operands.1.offset, operands.2.offset) macs := by
  obtain ⟨operand1, h1, h⟩ := Option.bind_eq_some_iff.mp h
  obtain ⟨operand2, h2, h⟩ := Option.bind_eq_some_iff.mp h
  cases h
  unfold lookUp
  rcases flag with _ | _ | _
  · exact absurd rfl hFlag
  · rw [if_pos rfl] at h1 h2
    rw [h1, h2]
    exact ⟨(operand1, operand2), rfl, rfl⟩
  · rw [if_neg (by decide)] at h1 h2
    rw [h1, h2]
    exact ⟨(operand1, operand2), rfl, rfl⟩

/-- The loop over the products adds what is looked up for each. -/
theorem products_foldlM {pairs : List (LoadPtr × LoadPtr)} (hFlag : pairs ≠ [] → flag ≠ none)
    (h : pairs.foldlM (fuseVectorMac c temporal spatial flag) macs = some macs')
    (hNodup : (macs.map (·.key)).Nodup) :
    ∃ found, pairs.mapM (lookUp temporal spatial flag) = some found ∧
      (macs'.flatMap (·.products)).Perm (macs.flatMap (·.products) ++ found.map productOf) ∧
      (macs'.map (·.key)).Nodup := by
  induction pairs generalizing macs with
  | nil =>
    cases h
    exact ⟨[], rfl, by simp, hNodup⟩
  | cons pair pairs ih =>
    rw [List.foldlM_cons] at h
    obtain ⟨macs₁, hStep, hRest⟩ := Option.bind_eq_some_iff.mp h
    obtain ⟨operands, hOperands, rfl⟩ := fuseVectorMac_eq (hFlag (List.cons_ne_nil _ _)) hStep
    obtain ⟨hAdded, hNodup⟩ := products_addVectorMac c operands.1.group.name
      operands.2.group.name (operands.1.offset, operands.2.offset) hNodup
    obtain ⟨found, hFound, hProducts, hNodup⟩ := ih (fun _ => hFlag (List.cons_ne_nil _ _)) hRest hNodup
    refine ⟨operands :: found, ?_, hProducts.trans ?_, hNodup⟩
    · rw [List.mapM_cons, hOperands, hFound]
      rfl
    · rw [List.map_cons, ← List.singleton_append, ← List.append_assoc]
      exact hAdded.append_right _

end Columns

section Found

variable {simplify : Expr → Expr} {c : Compiler} {heap : Heap} {statements : List TripletIRNode}
  {temporal spatial : ReuseGraph} {flag : Option Bool} {groups : List LogicalMemoryGroup}
  {group : LogicalMemoryGroup} {loads : List LoadPtr} {id : Nat} {offset : Int} {load : LoadPtr}
  {found : GroupInformation}

theorem mem_of_groupOfId (h : groupOfId groups id = some (group, offset)) :
    group ∈ groups ∧ (id, offset) ∈ group.ids.zip group.offsets := by
  obtain ⟨g, hGroup, h⟩ := List.exists_of_findSome?_eq_some h
  obtain ⟨p, hFind, h⟩ := Option.map_eq_some_iff.mp h
  cases h
  have hId := List.find?_some hFind
  cases of_decide_eq_true hId
  exact ⟨hGroup, List.mem_of_find?_eq_some hFind⟩

theorem groupOfId_isSome (hGroup : group ∈ groups) (hId : id ∈ group.ids)
    (hLength : group.ids.length = group.offsets.length) : groupOfId groups id ≠ none := by
  intro hNone
  have hHere := List.findSome?_eq_none_iff.mp hNone group hGroup
  rw [Option.map_eq_none_iff, List.find?_eq_none] at hHere
  rw [← List.map_fst_zip hLength.le] at hId
  obtain ⟨p, hp, rfl⟩ := List.mem_map.mp hId
  exact hHere p hp (decide_eq_true rfl)

theorem idxOf?_eq_some (h : loads.idxOf? load = some id) : loads[id]? = some load := by
  rw [List.idxOf?, List.findIdx?_eq_some_iff_getElem] at h
  obtain ⟨hLess, hEq, -⟩ := h
  rw [List.getElem?_eq_getElem hLess, eq_of_beq hEq]

/-- The group of a load and its offset there: the load lies that far behind the lower
end, whenever the loads of the graph have addresses. -/
def Locates (heap : Heap) (graph : ReuseGraph) (load : LoadPtr) (group : LogicalMemoryGroup)
    (offset : Int) : Prop :=
  group ∈ graph.groups ∧ offset ∈ group.offsets ∧ ∃ lo : Expr, group.extent.min = .expr lo ∧
    ∀ ρ, Runs heap graph.loads ρ → ∃ m, exact ρ lo = some m ∧ AddressAt ρ heap load (m + offset)

theorem length_of_placed (hSome : ∃ ρ, Runs heap loads ρ) (hPlaced : Placed heap loads group) :
    group.ids.length = group.offsets.length := by
  obtain ⟨ρ, hRuns⟩ := hSome
  obtain ⟨lo, -, hPlaced⟩ := hPlaced
  obtain ⟨m, -, hAt⟩ := hPlaced ρ hRuns
  exact hAt.length_eq

/-- Every member of a group is found, and its offset is that of the group. -/
theorem locates_of_placed {graph : ReuseGraph} (hPlaced : ∀ group ∈ graph.groups, Placed heap graph.loads group)
    (hLoad : graph.loads[id]? = some load) (h : groupOfId graph.groups id = some (group, offset)) :
    Locates heap graph load group offset := by
  obtain ⟨hGroup, hMem⟩ := mem_of_groupOfId h
  obtain ⟨lo, hLo, hPlaced⟩ := hPlaced group hGroup
  refine ⟨hGroup, (List.of_mem_zip hMem).2, lo, hLo, fun ρ hRuns => ?_⟩
  obtain ⟨m, hm, hAt⟩ := hPlaced ρ hRuns
  obtain ⟨load', hLoad', hx⟩ := List.forall₂_zip hAt hMem
  cases hLoad.symm.trans hLoad'
  exact ⟨m, hm, hx⟩

theorem found_of_temporal (spatial : ReuseGraph)
    (hGroups : TemporalGroups simplify c heap statements temporal flag)
    (hSimplify : SimplifySound simplify) (hSome : ∃ ρ, Runs heap temporal.loads ρ)
    (hLoad : load ∈ temporal.loads) :
    ∃ group offset, getLogicalMemoryGroupInformationGivenALoad temporal spatial load =
      some ⟨group, true, offset⟩ ∧ Locates heap temporal load group offset := by
  have hPlaced := hGroups.placed hSimplify hSome
  obtain ⟨id, hId⟩ := Option.isSome_iff_exists.mp (List.isSome_idxOf?.mpr hLoad)
  have hAt := idxOf?_eq_some hId
  obtain ⟨adj, -, hDivides⟩ := hGroups.components
  obtain ⟨ids, hIds, hMem⟩ := List.mem_flatten.mp
    (hDivides.covers id (List.mem_range.mpr (List.getElem?_eq_some_iff.mp hAt).1))
  obtain ⟨owner, hOwner, rfl⟩ := List.mem_map.mp hIds
  obtain ⟨⟨group, offset⟩, hFound⟩ := Option.ne_none_iff_exists'.mp
    (groupOfId_isSome hOwner hMem (length_of_placed hSome (hPlaced owner hOwner)))
  refine ⟨group, offset, ?_, locates_of_placed hPlaced hAt hFound⟩
  simp only [getLogicalMemoryGroupInformationGivenALoad, hId, Option.bind_some, hFound]

theorem found_of_spatial (hGroups : SpatialGroups simplify c heap flag statements spatial)
    (hSimplify : SimplifySound simplify) (hSome : ∃ ρ, Runs heap spatial.loads ρ)
    (hOther : load ∉ temporal.loads) (hLoad : load ∈ spatial.loads) :
    ∃ group offset, getLogicalMemoryGroupInformationGivenALoad temporal spatial load =
      some ⟨group, false, offset⟩ ∧ Locates heap spatial load group offset := by
  have hPlaced : ∀ group ∈ spatial.groups, Placed heap spatial.loads group :=
    fun group hGroup => (hGroups.located hSimplify hSome group hGroup).placed
  obtain ⟨id, hId⟩ := Option.isSome_iff_exists.mp (List.isSome_idxOf?.mpr hLoad)
  have hAt := idxOf?_eq_some hId
  obtain ⟨ids, hIds, hMem⟩ := List.mem_flatten.mp
    (hGroups.perm.mem_iff.mpr (List.mem_range.mpr (List.getElem?_eq_some_iff.mp hAt).1))
  obtain ⟨owner, hOwner, rfl⟩ := List.mem_map.mp hIds
  obtain ⟨⟨group, offset⟩, hFound⟩ := Option.ne_none_iff_exists'.mp
    (groupOfId_isSome hOwner hMem (length_of_placed hSome (hPlaced owner hOwner)))
  refine ⟨group, offset, ?_, locates_of_placed hPlaced hAt hFound⟩
  simp only [getLogicalMemoryGroupInformationGivenALoad, List.idxOf?_eq_none_iff.mpr hOther, hId,
    Option.bind_none, hFound, Option.map_some]

theorem mem_loads_of_found
    (h : getLogicalMemoryGroupInformationGivenALoad temporal spatial load = some found) :
    load ∈ temporal.loads ∨ load ∈ spatial.loads := by
  by_contra hNone
  rw [not_or] at hNone
  simp [getLogicalMemoryGroupInformationGivenALoad, List.idxOf?_eq_none_iff.mpr hNone.1,
    List.idxOf?_eq_none_iff.mpr hNone.2] at h

/-- The groups of both graphs have different names. -/
theorem names_nodup (hTemporal : TemporalGroups simplify c heap statements temporal flag)
    (hSpatial : SpatialGroups simplify c heap flag statements spatial) :
    ((temporal.groups ++ spatial.groups).map (·.name)).Nodup := by
  have hNumbered (label : String) (n : Nat) : ((List.range n).map (label ++ toString ·)).Nodup :=
    List.nodup_range.map fun i j hEq => Nat.repr_injective ((String.append_right_inj label).mp hEq)
  rw [List.map_append, hTemporal.names, hSpatial.names, List.nodup_append]
  refine ⟨hNumbered _ _, hNumbered _ _, fun a ha b hb hEq => ?_⟩
  obtain ⟨i, -, rfl⟩ := List.mem_map.mp ha
  obtain ⟨j, -, rfl⟩ := List.mem_map.mp hb
  have hChars := congrArg String.toList hEq
  simp at hChars

theorem located_of_found (hTemporal : TemporalGroups simplify c heap statements temporal flag)
    (hSpatial : SpatialGroups simplify c heap flag statements spatial) (hSimplify : SimplifySound simplify)
    (hSomeT : ∃ ρ, Runs heap temporal.loads ρ) (hSomeS : ∃ ρ, Runs heap spatial.loads ρ)
    (h : getLogicalMemoryGroupInformationGivenALoad temporal spatial load = some found) :
    Locates heap (if found.isTemporal then temporal else spatial) load found.group found.offset := by
  by_cases hLoad : load ∈ temporal.loads
  · obtain ⟨group, offset, hFound, hLocates⟩ :=
      found_of_temporal spatial hTemporal hSimplify hSomeT hLoad
    cases h.symm.trans hFound
    exact hLocates
  · have hOther := (mem_loads_of_found h).resolve_left hLoad
    obtain ⟨group, offset, hFound, hLocates⟩ := found_of_spatial hSpatial hSimplify hSomeS hLoad hOther
    cases h.symm.trans hFound
    exact hLocates

/-- The flag is set where a load is found. -/
theorem flag_of_found (hTemporal : TemporalGroups simplify c heap statements temporal flag)
    (hSpatial : SpatialGroups simplify c heap flag statements spatial)
    (h : getLogicalMemoryGroupInformationGivenALoad temporal spatial load = some found) : flag ≠ none := by
  rcases mem_loads_of_found h with hLoad | hLoad
  · exact hTemporal.set (List.ne_nil_of_mem hLoad)
  · exact hSpatial.set (List.ne_nil_of_mem hLoad)

theorem flag_of_foldlM {pairs : List (LoadPtr × LoadPtr)} {macs macs' : List AIVectorMacOperation}
    (hTemporal : TemporalGroups simplify c heap statements temporal flag)
    (hSpatial : SpatialGroups simplify c heap flag statements spatial)
    (h : pairs.foldlM (fuseVectorMac c temporal spatial flag) macs = some macs') (hPairs : pairs ≠ []) :
    flag ≠ none := by
  cases pairs with
  | nil => exact absurd rfl hPairs
  | cons pair pairs =>
    rw [List.foldlM_cons] at h
    obtain ⟨macs₁, hStep, -⟩ := Option.bind_eq_some_iff.mp h
    obtain ⟨operand1, hFound, -⟩ := Option.bind_eq_some_iff.mp hStep
    exact flag_of_found hTemporal hSpatial hFound

/-- What is looked up for a product are its two loads. -/
theorem lookUp_loads {pairs : List (LoadPtr × LoadPtr)} {all : List (GroupInformation × GroupInformation)}
    (h : pairs.mapM (lookUp temporal spatial flag) = some all) :
    ∀ pair ∈ pairs, ∀ load ∈ [pair.1, pair.2], ∃ found,
      getLogicalMemoryGroupInformationGivenALoad temporal spatial load = some found := by
  intro pair hPair load hLoad
  obtain ⟨operands, -, hOperands⟩ := Pointwise.exists_right (Pointwise.of_mapM h) hPair
  obtain ⟨first, hFirst, hOperands⟩ := Option.bind_eq_some_iff.mp hOperands
  obtain ⟨second, hSecond, -⟩ := Option.bind_eq_some_iff.mp hOperands
  rcases List.mem_pair.mp hLoad with rfl | rfl
  · exact ⟨first, hFirst⟩
  · exact ⟨second, hSecond⟩

/-- The operands of the fused statements are operands that were looked up. -/
theorem found_of_product {result : TripletIRNode} {fused : List TripletIRNode} {mac : AIVectorMacOperation}
    {offsets : Int × Int} (hTemporal : TemporalGroups simplify c heap statements temporal flag)
    (hSpatial : SpatialGroups simplify c heap flag statements spatial)
    (h : fuseVectorMacOperations c temporal spatial flag statements = some fused)
    (hResult : result ∈ fused) (hMac : mac ∈ result.fusedVectorMacs) (hOffsets : offsets ∈ mac.operandOffsets) :
    ∃ load1 load2 found1 found2,
      getLogicalMemoryGroupInformationGivenALoad temporal spatial load1 = some found1 ∧
      getLogicalMemoryGroupInformationGivenALoad temporal spatial load2 = some found2 ∧
      mac.operand1GroupName = found1.group.name ∧ offsets.1 = found1.offset ∧
      mac.operand2GroupName = found2.group.name ∧ offsets.2 = found2.offset := by
  obtain ⟨statement, -, hStatement⟩ := Pointwise.exists_left (Pointwise.of_mapM h) hResult
  obtain ⟨macs, hMacs, hStatement⟩ := Option.bind_eq_some_iff.mp hStatement
  cases hStatement
  obtain ⟨found, hFound, hProducts, -⟩ :=
    products_foldlM (flag_of_foldlM hTemporal hSpatial hMacs) hMacs List.nodup_nil
  have hMem : ((mac.operand1GroupName, offsets.1), (mac.operand2GroupName, offsets.2)) ∈
      macs.flatMap (·.products) := List.mem_flatMap.mpr ⟨mac, hMac, List.mem_map_of_mem hOffsets⟩
  obtain ⟨operands, hOperands, hEq⟩ := List.mem_map.mp (hProducts.mem_iff.mp hMem)
  obtain ⟨pair, -, hPair⟩ := Pointwise.exists_left (Pointwise.of_mapM hFound) hOperands
  obtain ⟨first, hFirst, hPair⟩ := Option.bind_eq_some_iff.mp hPair
  obtain ⟨second, hSecond, hPair⟩ := Option.bind_eq_some_iff.mp hPair
  simp only [productOf, Prod.mk.injEq] at hEq
  obtain ⟨⟨hName1, hOffset1⟩, hName2, hOffset2⟩ := hEq
  rw [← hName1, ← hName2, ← hOffset1, ← hOffset2]
  cases hPair
  by_cases hFlag : flag = some true
  · rw [if_pos hFlag]
    exact ⟨pair.2, pair.1, second, first, hSecond, hFirst, rfl, rfl, rfl, rfl⟩
  · rw [if_neg hFlag]
    exact ⟨pair.1, pair.2, first, second, hFirst, hSecond, rfl, rfl, rfl, rfl⟩

end Found

/-- Both graphs, in an environment in which the addresses of all loads have values. -/
theorem groups_of_build {simplify : Expr → Expr} {c : Compiler} {heap : Heap} {statements : List TripletIRNode}
    {temporal spatial : ReuseGraph} {flag : Option Bool} (hSimplify : SimplifySound simplify)
    (hSome : ∃ ρ, Runs heap (temporalLoads heap statements ++ spatialLoads heap statements) ρ)
    (hTemporal : buildTemporalReuseGraphAndLogicalMemoryGroups simplify c heap statements =
      some (temporal, flag))
    (hSpatial : buildSpatialReuseGraphAndLogicalMemoryGroups simplify c heap flag statements = some spatial) :
    TemporalGroups simplify c heap statements temporal flag ∧
      SpatialGroups simplify c heap flag statements spatial ∧
      (∃ ρ, Runs heap temporal.loads ρ) ∧ ∃ ρ, Runs heap spatial.loads ρ := by
  obtain ⟨ρ, hRuns⟩ := hSome
  have hRunsS : Runs heap (spatialLoads heap statements) ρ :=
    fun load hLoad => hRuns load (List.mem_append_right _ hLoad)
  have hT := temporalGroups_of_build hTemporal
  have hS := spatialGroups_of_build hSimplify ⟨ρ, hRunsS⟩ hSpatial
  refine ⟨hT, hS, ⟨ρ, ?_⟩, ρ, ?_⟩
  · rw [hT.loads]
    exact fun load hLoad => hRuns load (List.mem_append_left _ hLoad)
  · rw [hS.loads]
    exact hRunsS

/-- Every product of a statement is in one fused statement, these have different pairs
of registers, and the operands lie at their offsets. -/
theorem fused_macs {simplify : Expr → Expr} {c : Compiler} {heap : Heap} {statements fused : List TripletIRNode}
    {temporal spatial : ReuseGraph} {flag : Option Bool} (hSimplify : SimplifySound simplify)
    (hSome : ∃ ρ, Runs heap (temporalLoads heap statements ++ spatialLoads heap statements) ρ)
    (hTemporal : buildTemporalReuseGraphAndLogicalMemoryGroups simplify c heap statements =
      some (temporal, flag))
    (hSpatial : buildSpatialReuseGraphAndLogicalMemoryGroups simplify c heap flag statements = some spatial)
    (h : fuseVectorMacOperations c temporal spatial flag statements = some fused) :
    ((temporal.groups ++ spatial.groups).map (·.name)).Nodup ∧
    List.Forall₂ (fun statement result =>
      result = { statement with fusedVectorMacs := result.fusedVectorMacs } ∧
      (∃ found, statement.pairWiseLoads.mapM (lookUp temporal spatial flag) = some found ∧
        (result.fusedVectorMacs.flatMap (·.products)).Perm (found.map productOf)) ∧
      (result.fusedVectorMacs.map (·.key)).Nodup ∧
      ∀ pair ∈ statement.pairWiseLoads, ∀ load ∈ [pair.1, pair.2], ∃ found,
        getLogicalMemoryGroupInformationGivenALoad temporal spatial load = some found ∧
        Locates heap (if found.isTemporal then temporal else spatial) load found.group found.offset)
      statements fused := by
  obtain ⟨hT, hS, hSomeT, hSomeS⟩ := groups_of_build hSimplify hSome hTemporal hSpatial
  refine ⟨names_nodup hT hS, (Pointwise.of_mapM h).imp fun statement result hResult => ?_⟩
  obtain ⟨macs, hMacs, hResult⟩ := Option.bind_eq_some_iff.mp hResult
  cases hResult
  obtain ⟨found, hFound, hProducts, hNodup⟩ :=
    products_foldlM (flag_of_foldlM hT hS hMacs) hMacs List.nodup_nil
  refine ⟨rfl, ⟨found, hFound, hProducts⟩, hNodup, fun pair hPair load hLoad => ?_⟩
  obtain ⟨operand, hOperand⟩ := lookUp_loads hFound pair hPair load hLoad
  exact ⟨operand, hOperand, located_of_found hT hS hSimplify hSomeT hSomeS hOperand⟩

section Taps

/-- Both products of the filter read the same two registers. -/
def tapsFused : List TripletIRNode :=
  [{ initialLoads := [4], pairWiseLoads := [(0, 2), (1, 3)]
     fusedVectorMacs := [{ operand1GroupName := "loads_temporal_group_" ++ toString 0
                           operand2GroupName := "loads_spatial_group_" ++ toString 0
                           simdColumns := 2, simdLanes := 16, operandOffsets := [(0, 0), (1, 1)] }] }]

theorem fuse_taps : fuseVectorMacOperations shorts tapsTemporal tapsSpatial (some false) taps =
    some tapsFused := rfl

theorem fused_macs_taps :
    ((tapsTemporal.groups ++ tapsSpatial.groups).map (·.name)).Nodup ∧
    List.Forall₂ (fun statement result =>
      result = { statement with fusedVectorMacs := result.fusedVectorMacs } ∧
      (∃ found, statement.pairWiseLoads.mapM (lookUp tapsTemporal tapsSpatial (some false)) = some found ∧
        (result.fusedVectorMacs.flatMap (·.products)).Perm (found.map productOf)) ∧
      (result.fusedVectorMacs.map (·.key)).Nodup ∧
      ∀ pair ∈ statement.pairWiseLoads, ∀ load ∈ [pair.1, pair.2], ∃ found,
        getLogicalMemoryGroupInformationGivenALoad tapsTemporal tapsSpatial load = some found ∧
        Locates tapsHeap (if found.isTemporal then tapsTemporal else tapsSpatial) load found.group
          found.offset)
      taps tapsFused :=
  fused_macs SimplifySound.foldClosed ⟨⟨fun _ => 0, fun _ _ => none⟩, runs_taps _ _⟩ build_taps
    build_taps_spatial fuse_taps

end Taps

end Vyasa.AICore
