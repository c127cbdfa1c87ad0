import Vyasa.AICore.GenerateCode
import Vyasa.History.Basic
import Vyasa.Pointwise.Basic
import Mathlib.Logic.Relation

/-! The emission of the code for a block as a run of small steps, each of which loads
vectors of a register or adds a line. -/
namespace Vyasa.AICore

open Relation History

section Loads

variable {c : Compiler} {group : LogicalMemoryGroup} {offset : Int} {isTemporal : Bool} {loadName : String}
  {s s' : Emission} {first last k : Int}

theorem mem_loadRange : k ∈ loadRange first last ↔ first ≤ k ∧ k ≤ last := by
  simp only [loadRange, List.mem_map, List.mem_range]
  constructor
  · rintro ⟨i, hi, rfl⟩
    omega
  · rintro ⟨hFirst, hLast⟩
    exact ⟨(k - first).toNat, by omega, by omega⟩

theorem nodup_loadRange : (loadRange first last).Nodup :=
  List.nodup_range.map fun _ _ hEq => Int.ofNat_inj.mp (add_left_cancel hEq)

/-- The vectors that an operand with this offset is to find in its register. -/
abbrev neededVectors (c : Compiler) (group : LogicalMemoryGroup) (offset : Int) (isTemporal : Bool) :
    List Int :=
  loadRange (loadRangeStart c offset) (loadRangeEnd c group offset isTemporal)

/-- What `DeclareAndInitializeLoads` adds for the vectors that are missing. -/
inductive Added (c : Compiler) (group : LogicalMemoryGroup) (isFirst : Bool) (new : List Int) :
    List Line → Prop where
  | none (h : new = []) : Added c group isFirst new []
  | updates (lanes : Nat) (buffer : String) (hWide : isLargerThanVectorLength c group = true)
      (h : new ≠ []) : Added c group isFirst new
        ((if isFirst then [.declare lanes group.name] else []) ++
          new.map (.updW group.name · buffer group.extent.min))
  | whole (buffer : String) (hNarrow : isLargerThanVectorLength c group = false) (h : new.length = 1) :
      Added c group isFirst new [.load group.name buffer group.extent.min]

/-- What is missing is loaded, and nothing else changes. -/
theorem declareAndInitializeLoads_spec
    (h : declareAndInitializeLoads c group offset isTemporal loadName s = some s') :
    ∃ new lines, new = (neededVectors c group offset isTemporal).filter (· ∉ s.allocations group.name) ∧
      Added c group (s.allocations group.name).isEmpty new lines ∧ s'.lines = s.lines ++ lines ∧
      s'.allocations = Function.update s.allocations group.name (s.allocations group.name ++ new) ∧
      s'.useMulIntrinsic = s.useMulIntrinsic ∧ s'.stmtId = s.stmtId := by
  simp only [declareAndInitializeLoads] at h
  split_ifs at h with hEmpty
  · cases h
    have hNil := List.isEmpty_iff.mp hEmpty
    refine ⟨[], [], hNil.symm, Added.none rfl, (List.append_nil _).symm, ?_, rfl, rfl⟩
    rw [List.append_nil, Function.update_eq_self]
  · have hNew : unallocatedLoadRanges c group offset isTemporal s ≠ [] :=
      fun hNil => hEmpty (List.isEmpty_iff.mpr hNil)
    obtain ⟨lanes, -, h⟩ := Option.bind_eq_some_iff.mp h
    obtain ⟨lines, hLines, h⟩ := Option.bind_eq_some_iff.mp h
    cases h
    refine ⟨_, lines, rfl, ?_, rfl, rfl, rfl, rfl⟩
    unfold loadLines at hLines
    by_cases hWide : isLargerThanVectorLength c group = true
    · rw [if_pos hWide] at hLines
      cases hLines
      exact Added.updates lanes _ hWide hNew
    · rw [if_neg hWide] at hLines
      split_ifs at hLines with hLength
      cases hLines
      exact Added.whole _ (Bool.eq_false_iff.mpr hWide) hLength

/-- The vectors that were there stay there, and those that are needed are there. -/
theorem allocations_of_declareAndInitializeLoads
    (h : declareAndInitializeLoads c group offset isTemporal loadName s = some s') :
    (∀ register, s.allocations register ⊆ s'.allocations register) ∧
      neededVectors c group offset isTemporal ⊆ s'.allocations group.name := by
  obtain ⟨new, lines, rfl, -, -, hAllocations, -, -⟩ := declareAndInitializeLoads_spec h
  rw [hAllocations]
  refine ⟨fun register => ?_, fun k hk => ?_⟩
  · by_cases hEq : register = group.name
    · subst hEq
      rw [Function.update_self]
      exact List.subset_append_left _ _
    · rw [Function.update_of_ne hEq]
      exact List.Subset.refl _
  · rw [Function.update_self, List.mem_append, List.mem_filter, decide_eq_true_eq]
    exact (Classical.em _).imp_right fun hNot => ⟨hk, hNot⟩

end Loads

section Steps

variable {c : Compiler} {heap : Heap} {temporal spatial : ReuseGraph} {used : String → Int → Prop}
  {s s' : Emission}

/-- The group with this name, and whether it is a temporal one. -/
abbrev findGroup (temporal spatial : ReuseGraph) (name : String) : Option (LogicalMemoryGroup × Bool) :=
  getLogicalMemoryGroupInformationGivenTheNameOfGroup name temporal spatial

/-- A line that neither touches a register nor calls an intrinsic. -/
def Line.isOther : Line → Bool
  | accumulator _ | initialLoad .. | addInitial _ | store .. => true
  | _ => false

/-- The vectors that the operand needs for this offset are in its register. -/
def Operand.Loaded (c : Compiler) (temporal spatial : ReuseGraph) (used : String → Int → Prop)
    (s : Emission) (operand : Operand) (offset : Int) : Prop :=
  used operand.register offset ∧ ∃ group,
    findGroup temporal spatial operand.register = some (group, operand.isTemporal) ∧
    neededVectors c group offset operand.isTemporal ⊆ s.allocations operand.register

/-- The steps of the emission, where the operands are some that are used. -/
inductive Step (c : Compiler) (temporal spatial : ReuseGraph) (used : String → Int → Prop) :
    Emission → Emission → Prop where
  | load {s s' : Emission} {group : LogicalMemoryGroup} {offset : Int} {isTemporal : Bool} {loadName : String}
      (hGroup : findGroup temporal spatial group.name = some (group, isTemporal))
      (hUsed : used group.name offset)
      (h : declareAndInitializeLoads c group offset isTemporal loadName s = some s') :
      Step c temporal spatial used s s'
  | call {s s' : Emission} {call : Call}
      (hLoaded : ∀ offsets ∈ call.columns,
        call.operand1.Loaded c temporal spatial used s offsets.1 ∧
        call.operand2.Loaded c temporal spatial used s offsets.2)
      (hLines : s'.lines = s.lines ++ [.call call]) (hAllocations : s'.allocations = s.allocations) :
      Step c temporal spatial used s s'
  | other {s s' : Emission} {lines : List Line} (hOther : ∀ line ∈ lines, line.isOther = true)
      (hLines : s'.lines = s.lines ++ lines) (hAllocations : s'.allocations = s.allocations) :
      Step c temporal spatial used s s'

abbrev Emits (c : Compiler) (temporal spatial : ReuseGraph) (used : String → Int → Prop) :
    Emission → Emission → Prop := ReflTransGen (Step c temporal spatial used)

theorem Step.grows (h : Step c temporal spatial used s s') :
    s.lines ⊆ s'.lines ∧ ∀ register, s.allocations register ⊆ s'.allocations register := by
  cases h with
  | load _ _ h =>
    refine ⟨?_, (allocations_of_declareAndInitializeLoads h).1⟩
    obtain ⟨new, lines, -, -, hLines, -⟩ := declareAndInitializeLoads_spec h
    rw [hLines]
    exact List.subset_append_left _ _
  | call _ hLines hAllocations =>
    rw [hLines, hAllocations]
    exact ⟨List.subset_append_left _ _, fun _ => List.Subset.refl _⟩
  | other _ hLines hAllocations =>
    rw [hLines, hAllocations]
    exact ⟨List.subset_append_left _ _, fun _ => List.Subset.refl _⟩

theorem Emits.grows (h : Emits c temporal spatial used s s') :
    s.lines ⊆ s'.lines ∧ ∀ register, s.allocations register ⊆ s'.allocations register := by
  induction h with
  | refl => exact ⟨List.Subset.refl _, fun _ => List.Subset.refl _⟩
  | tail _ hStep ih =>
    exact ⟨List.Subset.trans ih.1 hStep.grows.1, fun r => List.Subset.trans (ih.2 r) (hStep.grows.2 r)⟩

theorem name_of_findGroup {name : String} {group : LogicalMemoryGroup} {isTemporal : Bool}
    (h : findGroup temporal spatial name = some (group, isTemporal)) : group.name = name := by
  unfold findGroup getLogicalMemoryGroupInformationGivenTheNameOfGroup at h
  split at h
  case h_1 found hFound =>
    cases h
    have hName := List.find?_some hFound
    exact of_decide_eq_true hName
  case h_2 =>
    obtain ⟨found, hFound, h⟩ := Option.map_eq_some_iff.mp h
    cases h
    have hName := List.find?_some hFound
    exact of_decide_eq_true hName

/-- The loads of one operand: a step, after which the operand finds what it needs. -/
theorem emits_load {name loadName : String} {group : LogicalMemoryGroup} {isTemporal : Bool} {offset : Int}
    (hGroup : findGroup temporal spatial name = some (group, isTemporal)) (hUsed : used name offset)
    (h : declareAndInitializeLoads c group offset isTemporal loadName s = some s') :
    Emits c temporal spatial used s s' ∧
      neededVectors c group offset isTemporal ⊆ s'.allocations name := by
  cases name_of_findGroup hGroup
  exact ⟨ReflTransGen.single (Step.load hGroup hUsed h), (allocations_of_declareAndInitializeLoads h).2⟩

variable {name1 name2 : String} {group1 group2 : LogicalMemoryGroup} {isTemporal1 isTemporal2 : Bool}
  {names : String × String}

theorem emits_loadColumn {offsets : Int × Int}
    (hGroup1 : findGroup temporal spatial name1 = some (group1, isTemporal1))
    (hGroup2 : findGroup temporal spatial name2 = some (group2, isTemporal2))
    (hUsed : used name1 offsets.1 ∧ used name2 offsets.2)
    (h : loadColumn c (group1, isTemporal1) (group2, isTemporal2) names s offsets = some s') :
    Emits c temporal spatial used s s' ∧
      neededVectors c group1 offsets.1 isTemporal1 ⊆ s'.allocations name1 ∧
      neededVectors c group2 offsets.2 isTemporal2 ⊆ s'.allocations name2 := by
  obtain ⟨s₁, hFirst, hSecond⟩ := Option.bind_eq_some_iff.mp h
  obtain ⟨hEmits1, hNeeded1⟩ := emits_load hGroup1 hUsed.1 hFirst
  obtain ⟨hEmits2, hNeeded2⟩ := emits_load hGroup2 hUsed.2 hSecond
  exact ⟨hEmits1.trans hEmits2, List.Subset.trans hNeeded1 (hEmits2.grows.2 name1), hNeeded2⟩

/-- A call: the loads of all columns, and the line. -/
theorem emits_emitCall {steps : Int × Int} {operandOffsets : List (Int × Int)} {i : Nat}
    (hUsed : ∀ offsets ∈ operandOffsets, used name1 offsets.1 ∧ used name2 offsets.2)
    (h : emitCall c (findGroup temporal spatial name1) (findGroup temporal spatial name2) names steps
      operandOffsets s i = some s') :
    Emits c temporal spatial used s s' ∧
      ∃ call : Call, .call call ∈ s'.lines ∧ call.operand1.register = name1 ∧
        call.operand2.register = name2 ∧
        ∀ col < c.numSimdColumnsPerLane, ∃ offsets ∈ call.columns, operandOffsets[i + col]? = some offsets := by
  obtain ⟨columns, hColumns, h⟩ := Option.bind_eq_some_iff.mp h
  obtain ⟨⟨group1, isTemporal1⟩, hGroup1, h⟩ := Option.bind_eq_some_iff.mp h
  obtain ⟨⟨group2, isTemporal2⟩, hGroup2, h⟩ := Option.bind_eq_some_iff.mp h
  obtain ⟨s₁, hLoads, h⟩ := Option.bind_eq_some_iff.mp h
  obtain ⟨first, -, h⟩ := Option.bind_eq_some_iff.mp h
  obtain ⟨coefficients1, -, h⟩ := Option.bind_eq_some_iff.mp h
  obtain ⟨coefficients2, -, h⟩ := Option.bind_eq_some_iff.mp h
  cases h
  have hMapped := Pointwise.of_mapM hColumns
  have hColumnUsed : ∀ offsets ∈ columns, used name1 offsets.1 ∧ used name2 offsets.2 := by
    intro offsets hOffsets
    obtain ⟨col, -, hAt⟩ := Pointwise.exists_left hMapped hOffsets
    exact hUsed offsets (List.mem_of_getElem? hAt)
  have hEmits : Emits c temporal spatial used s s₁ := by
    refine foldlM_invariant (fun t offsets t' hOffsets hRun hStep => ?_) ReflTransGen.refl hLoads
    exact hRun.trans (emits_loadColumn hGroup1 hGroup2 (hColumnUsed offsets hOffsets) hStep).1
  have hNeeded := foldlM_each
    (R := fun offsets t => neededVectors c group1 offsets.1 isTemporal1 ⊆ t.allocations name1 ∧
      neededVectors c group2 offsets.2 isTemporal2 ⊆ t.allocations name2)
    (fun t offsets t' hOffsets hStep =>
      (emits_loadColumn hGroup1 hGroup2 (hColumnUsed offsets hOffsets) hStep).2)
    (fun t offsets t' other hOffsets hStep hOther => by
      have hGrows := (emits_loadColumn hGroup1 hGroup2 (hColumnUsed offsets hOffsets) hStep).1.grows.2
      exact ⟨List.Subset.trans hOther.1 (hGrows name1), List.Subset.trans hOther.2 (hGrows name2)⟩) hLoads
  cases name_of_findGroup hGroup1
  cases name_of_findGroup hGroup2
  refine ⟨hEmits.tail (Step.call (fun offsets hOffsets => ?_) rfl rfl), _,
    List.mem_append_right _ List.mem_cons_self, rfl, rfl, fun col hCol => ?_⟩
  · exact ⟨⟨(hColumnUsed offsets hOffsets).1, group1, hGroup1, (hNeeded offsets hOffsets).1⟩,
      (hColumnUsed offsets hOffsets).2, group2, hGroup2, (hNeeded offsets hOffsets).2⟩
  · exact Pointwise.exists_right hMapped (List.mem_range.mpr hCol)

/-- There is a call with this product among its columns. -/
def HasCall (lines : List Line) (name1 name2 : String) (offsets : Int × Int) : Prop :=
  ∃ call : Call, .call call ∈ lines ∧ call.operand1.register = name1 ∧ call.operand2.register = name2 ∧
    offsets ∈ call.columns

theorem HasCall.mono {lines lines' : List Line} {offsets : Int × Int} (h : HasCall lines name1 name2 offsets)
    (hSubset : lines ⊆ lines') : HasCall lines' name1 name2 offsets := by
  obtain ⟨call, hCall, hRest⟩ := h
  exact ⟨call, hSubset hCall, hRest⟩

theorem Compiler.columns_pos (c : Compiler) : 0 < c.numSimdColumnsPerLane := by
  rcases c.shape with ⟨-, -, h⟩ | ⟨-, -, h⟩ | ⟨-, -, h⟩ <;> omega

/-- Every product of a fused statement is a column of a call. -/
theorem emits_emitVectorMac {mac : AIVectorMacOperation}
    (hUsed : ∀ offsets ∈ mac.operandOffsets,
      used mac.operand1GroupName offsets.1 ∧ used mac.operand2GroupName offsets.2)
    (h : emitVectorMac c temporal spatial names s mac = some s') :
    Emits c temporal spatial used s s' ∧ ∀ offsets ∈ mac.operandOffsets,
      HasCall s'.lines mac.operand1GroupName mac.operand2GroupName offsets := by
  obtain ⟨steps, -, h⟩ := Option.bind_eq_some_iff.mp h
  constructor
  · refine foldlM_invariant (fun t i t' _ hRun hStep => ?_) ReflTransGen.refl h
    exact hRun.trans (emits_emitCall hUsed hStep).1
  · have hCalls := foldlM_each
      (R := fun i t => ∀ col < c.numSimdColumnsPerLane, ∃ offsets,
        mac.operandOffsets[i + col]? = some offsets ∧
        HasCall t.lines mac.operand1GroupName mac.operand2GroupName offsets)
      (fun t i t' _ hStep col hCol => by
        obtain ⟨call, hCall, hName1, hName2, hColumns⟩ := (emits_emitCall hUsed hStep).2
        obtain ⟨offsets, hOffsets, hAt⟩ := hColumns col hCol
        exact ⟨offsets, hAt, call, hCall, hName1, hName2, hOffsets⟩)
      (fun t i t' j _ hStep hOther col hCol => by
        obtain ⟨offsets, hAt, hCall⟩ := hOther col hCol
        exact ⟨offsets, hAt, hCall.mono (emits_emitCall hUsed hStep).1.grows.1⟩) h
    intro offsets hOffsets
    obtain ⟨i, hi, rfl⟩ := List.getElem_of_mem hOffsets
    have hFirst : i / c.numSimdColumnsPerLane * c.numSimdColumnsPerLane ∈
        firstOfCalls c.numSimdColumnsPerLane mac.operandOffsets.length := by
      refine List.mem_filter.mpr ⟨List.mem_range.mpr ?_, decide_eq_true (Nat.mul_mod_left _ _)⟩
      exact (Nat.div_mul_le_self _ _).trans_lt hi
    obtain ⟨offsets, hAt, hCall⟩ := hCalls _ hFirst (i % c.numSimdColumnsPerLane)
      (Nat.mod_lt _ c.columns_pos)
    rw [Nat.div_add_mod', List.getElem?_eq_getElem hi] at hAt
    cases hAt
    exact hCall

/-- The operands of the statements for which code is emitted. -/
def Used (statements : List TripletIRNode) (name : String) (offset : Int) : Prop :=
  ∃ statement ∈ statements, statement.pairWiseLoads ≠ [] ∧ ∃ mac ∈ statement.fusedVectorMacs,
    ∃ offsets ∈ mac.operandOffsets, (name = mac.operand1GroupName ∧ offset = offsets.1) ∨
      (name = mac.operand2GroupName ∧ offset = offsets.2)

theorem isOther_of_storeLines {eliminate : Bool} {stmtId : Nat} {initial : LoadPtr} {lines : List Line}
    (h : storeLines heap eliminate stmtId initial = some lines) : ∀ line ∈ lines, line.isOther = true := by
  unfold storeLines at h
  split at h
  case h_1 base stride lanes hIndex =>
    cases h
    cases eliminate <;> simp [Line.isOther]
  case h_2 => cases h

variable {statement : TripletIRNode} {eliminate : Bool}

theorem emits_emitStatement
    (hUsed : statement.pairWiseLoads ≠ [] → ∀ mac ∈ statement.fusedVectorMacs,
      ∀ offsets ∈ mac.operandOffsets,
        used mac.operand1GroupName offsets.1 ∧ used mac.operand2GroupName offsets.2)
    (h : emitStatement c heap temporal spatial eliminate s statement = some s') :
    Emits c temporal spatial used s s' ∧
      (statement.pairWiseLoads ≠ [] → ∀ mac ∈ statement.fusedVectorMacs, ∀ offsets ∈ mac.operandOffsets,
        HasCall s'.lines mac.operand1GroupName mac.operand2GroupName offsets) := by
  obtain ⟨_, -, h⟩ := Option.bind_eq_some_iff.mp h
  cases hPairs : statement.pairWiseLoads with
  | nil =>
    rw [hPairs] at h
    cases h
    exact ⟨ReflTransGen.refl, fun hNe => absurd rfl hNe⟩
  | cons pair pairs =>
    rw [hPairs] at h hUsed
    have hMacs := hUsed (List.cons_ne_nil _ _)
    obtain ⟨s₁, hLoop, h⟩ := Option.bind_eq_some_iff.mp h
    obtain ⟨initial, -, h⟩ := Option.bind_eq_some_iff.mp h
    obtain ⟨lines, hLines, h⟩ := Option.bind_eq_some_iff.mp h
    cases h
    have hStart : Emits c temporal spatial used s
        { s.emit [.accumulator s.stmtId] with useMulIntrinsic := true } :=
      ReflTransGen.single (Step.other (by simp [Line.isOther]) rfl rfl)
    have hRun : Emits c temporal spatial used s s₁ := by
      refine foldlM_invariant (fun t mac t' hMac hRun hStep => ?_) hStart hLoop
      exact hRun.trans (emits_emitVectorMac (hMacs mac hMac) hStep).1
    have hStore : Step c temporal spatial used s₁ { s₁.emit lines with stmtId := s₁.stmtId + 1 } :=
      Step.other (isOther_of_storeLines hLines) rfl rfl
    refine ⟨hRun.tail hStore, fun _ mac hMac offsets hOffsets => ?_⟩
    have hCalls := foldlM_each
      (R := fun mac t => ∀ offsets ∈ mac.operandOffsets,
        HasCall t.lines mac.operand1GroupName mac.operand2GroupName offsets)
      (fun t mac t' hMac hStep => (emits_emitVectorMac (hMacs mac hMac) hStep).2)
      (fun t mac t' other hMac hStep hOther offsets hOffsets =>
        (hOther offsets hOffsets).mono (emits_emitVectorMac (hMacs mac hMac) hStep).1.grows.1) hLoop
    exact (hCalls mac hMac offsets hOffsets).mono hStore.grows.1

/-- The code for a block is emitted in steps, and every product is a column of a call. -/
theorem emits_generateCode {statements : List TripletIRNode} {lines : List Line}
    (h : generateCode c heap statements temporal spatial eliminate = some lines) :
    (∃ s, s.lines = lines ∧ Emits c temporal spatial (Used statements) {} s) ∧
      ∀ statement ∈ statements, statement.pairWiseLoads ≠ [] → ∀ mac ∈ statement.fusedVectorMacs,
        ∀ offsets ∈ mac.operandOffsets,
          HasCall lines mac.operand1GroupName mac.operand2GroupName offsets := by
  obtain ⟨s, hLoop, h⟩ := Option.bind_eq_some_iff.mp h
  cases h
  have hUsed : ∀ statement ∈ statements, statement.pairWiseLoads ≠ [] →
      ∀ mac ∈ statement.fusedVectorMacs, ∀ offsets ∈ mac.operandOffsets,
        Used statements mac.operand1GroupName offsets.1 ∧ Used statements mac.operand2GroupName offsets.2 := by
    intro statement hStatement hPairs mac hMac offsets hOffsets
    exact ⟨⟨statement, hStatement, hPairs, mac, hMac, offsets, hOffsets, Or.inl ⟨rfl, rfl⟩⟩,
      statement, hStatement, hPairs, mac, hMac, offsets, hOffsets, Or.inr ⟨rfl, rfl⟩⟩
  refine ⟨⟨s, rfl, ?_⟩, ?_⟩
  · refine foldlM_invariant (fun t statement t' hStatement hRun hStep => ?_) ReflTransGen.refl hLoop
    exact hRun.trans (emits_emitStatement (hUsed statement hStatement) hStep).1
  · exact foldlM_each
      (fun t statement t' hStatement hStep => (emits_emitStatement (hUsed statement hStatement) hStep).2)
      (fun t statement t' other hStatement hStep hOther hPairs mac hMac offsets hOffsets =>
        (hOther hPairs mac hMac offsets hOffsets).mono
          (emits_emitStatement (hUsed statement hStatement) hStep).1.grows.1) hLoop

end Steps

end Vyasa.AICore
