import Vyasa.AICore.Residency

/-! The buffers that the registers are loaded from. Their names come from the first product of a statement,
not from the loads in the group of the register. -/
namespace Vyasa.AICore

open History

/-- The register that the line loads, and the buffer that it loads from. -/
def Line.loads : Line → Option (String × String)
  | updW register _ buffer _ | load register buffer _ => some (register, buffer)
  | _ => none

/-- The loads in the group of a register. -/
def members (temporal spatial : ReuseGraph) (register : String) : List LoadPtr :=
  match findGroup temporal spatial register with
  | some (group, isTemporal) =>
      group.ids.filterMap fun i => (if isTemporal then temporal else spatial).loads[i]?
  | none => []

/-- Each line that loads a register loads it from the buffer of the loads in its group. -/
def LoadsOwnBuffers (heap : Heap) (temporal spatial : ReuseGraph) (lines : List Line) : Prop :=
  ∀ line ∈ lines, ∀ register buffer, line.loads = some (register, buffer) →
    ∀ load ∈ members temporal spatial register, buffer = (heap load).name ++ "_buffer"

/-- An operand of a product: its register, its offset there, and the name of the load that is passed on
with it. -/
structure Use where
  register : String
  offset : Int
  loadName : String

def usesOfColumn (names : String × String) (mac : AIVectorMacOperation) (offsets : Int × Int) : List Use :=
  [⟨mac.operand1GroupName, offsets.1, names.1⟩, ⟨mac.operand2GroupName, offsets.2, names.2⟩]

def usesOfCall (c : Compiler) (names : String × String) (mac : AIVectorMacOperation) (i : Nat) : List Use :=
  ((List.range c.numSimdColumnsPerLane).filterMap fun col => mac.operandOffsets[i + col]?).flatMap
    (usesOfColumn names mac)

def usesOfMac (c : Compiler) (names : String × String) (mac : AIVectorMacOperation) : List Use :=
  (firstOfCalls c.numSimdColumnsPerLane mac.operandOffsets.length).flatMap (usesOfCall c names mac)

/-- The operands of a statement in the order of its calls. The names are those of its first product. -/
def usesOf (c : Compiler) (heap : Heap) (statement : TripletIRNode) : List Use :=
  match statement.pairWiseLoads with
  | [] => []
  | pair :: _ => statement.fusedVectorMacs.flatMap (usesOfMac c ((heap pair.1).name, (heap pair.2).name))

def Use.needs (c : Compiler) (temporal spatial : ReuseGraph) (use : Use) : List Int :=
  match findGroup temporal spatial use.register with
  | some (group, isTemporal) => neededVectors c group use.offset isTemporal
  | none => []

/-- The operand is the first one that needs some vector of its register. -/
def Use.IsFirst (c : Compiler) (temporal spatial : ReuseGraph) (before : List Use) (use : Use) : Prop :=
  ∃ k ∈ use.needs c temporal spatial, ∀ earlier ∈ before, earlier.register = use.register →
    k ∉ earlier.needs c temporal spatial

/-- An operand that is the first one to need some vector of its register comes with the name of the loads
there. -/
def OwnNames (c : Compiler) (heap : Heap) (temporal spatial : ReuseGraph) (uses : List Use) : Prop :=
  EachAfter (fun before use => use.IsFirst c temporal spatial before →
    ∀ load ∈ members temporal spatial use.register, use.loadName = (heap load).name) uses

section Runs

variable {c : Compiler} {heap : Heap} {temporal spatial : ReuseGraph} {Q : String → String → Prop}
  {uses : List Use} {s s' : Emission} {lines : List Line} {names : String × String}

/-- What is loaded, and from where, after these operands. -/
structure Sources (c : Compiler) (temporal spatial : ReuseGraph) (Q : String → String → Prop)
    (uses : List Use) (s : Emission) : Prop where
  allocated : ∀ register k, k ∈ s.allocations register ↔
    ∃ use ∈ uses, use.register = register ∧ k ∈ use.needs c temporal spatial
  loaded : (∀ line ∈ s.lines, ∀ register buffer, line.loads = some (register, buffer) → Q register buffer) ↔
    EachAfter (fun before use => use.IsFirst c temporal spatial before →
      Q use.register (use.loadName ++ "_buffer")) uses

theorem sources_empty : Sources c temporal spatial Q [] {} where
  allocated register k := by simp
  loaded := iff_of_true (by simp) eachAfter_nil

theorem Sources.other (hInv : Sources c temporal spatial Q uses s) (hOther : ∀ line ∈ lines, line.loads = none)
    (hLines : s'.lines = s.lines ++ lines) (hAllocations : s'.allocations = s.allocations) :
    Sources c temporal spatial Q uses s' where
  allocated register k := by rw [hAllocations, hInv.allocated]
  loaded := by
    rw [← hInv.loaded, hLines]
    refine ⟨fun h line hLine => h line (List.mem_append_left _ hLine),
      fun h line hLine register buffer hLoads => ?_⟩
    rcases List.mem_append.mp hLine with hLine | hLine
    · exact h line hLine register buffer hLoads
    · rw [hOther line hLine] at hLoads
      cases hLoads

/-- The lines that load what is missing name one buffer. -/
theorem loads_of_declareAndInitializeLoads {group : LogicalMemoryGroup} {offset : Int} {isTemporal : Bool}
    {loadName : String} (h : declareAndInitializeLoads c group offset isTemporal loadName s = some s') :
    ∃ lines, s'.lines = s.lines ++ lines ∧ ((∀ line ∈ lines, ∀ register buffer,
      line.loads = some (register, buffer) → Q register buffer) ↔
        ((∃ k ∈ neededVectors c group offset isTemporal, k ∉ s.allocations group.name) →
          Q group.name (loadName ++ "_buffer"))) := by
  have hNew : (∃ k ∈ neededVectors c group offset isTemporal, k ∉ s.allocations group.name) ↔
      unallocatedLoadRanges c group offset isTemporal s ≠ [] := by
    rw [unallocatedLoadRanges, ne_eq, List.filter_eq_nil_iff]
    simp
  rw [hNew]
  simp only [declareAndInitializeLoads] at h
  split_ifs at h with hEmpty
  · cases h
    refine ⟨[], (List.append_nil _).symm, iff_of_true (by simp) fun hNe => ?_⟩
    exact absurd (List.isEmpty_iff.mp hEmpty) hNe
  · have hNe : unallocatedLoadRanges c group offset isTemporal s ≠ [] :=
      fun hNil => hEmpty (List.isEmpty_iff.mpr hNil)
    obtain ⟨lanes, -, h⟩ := Option.bind_eq_some_iff.mp h
    obtain ⟨lines, hLines, h⟩ := Option.bind_eq_some_iff.mp h
    cases h
    refine ⟨lines, rfl, ?_⟩
    rw [imp_iff_right hNe]
    unfold loadLines at hLines
    by_cases hWide : isLargerThanVectorLength c group = true
    · rw [if_pos hWide] at hLines
      cases hLines
      constructor
      · intro hAll
        obtain ⟨k, hk⟩ := List.exists_mem_of_ne_nil _ hNe
        exact hAll _ (List.mem_append_right _ (List.mem_map_of_mem hk)) _ _ rfl
      · intro hQ line hLine register buffer hLoads
        rcases List.mem_append.mp hLine with hLine | hLine
        · split_ifs at hLine
          · cases List.mem_singleton.mp hLine
            cases hLoads
          · cases hLine
        · obtain ⟨k, -, rfl⟩ := List.mem_map.mp hLine
          cases hLoads
          exact hQ
    · rw [if_neg hWide] at hLines
      split_ifs at hLines with hLength
      cases hLines
      constructor
      · exact fun hAll => hAll _ List.mem_cons_self _ _ rfl
      · intro hQ line hLine register buffer hLoads
        cases List.mem_singleton.mp hLine
        cases hLoads
        exact hQ

theorem Sources.load {name loadName : String} {group : LogicalMemoryGroup} {offset : Int} {isTemporal : Bool}
    (hInv : Sources c temporal spatial Q uses s)
    (hGroup : findGroup temporal spatial name = some (group, isTemporal))
    (h : declareAndInitializeLoads c group offset isTemporal loadName s = some s') :
    Sources c temporal spatial Q (uses ++ [⟨name, offset, loadName⟩]) s' := by
  cases name_of_findGroup hGroup
  have hNeeds : (Use.mk group.name offset loadName).needs c temporal spatial =
      neededVectors c group offset isTemporal := by
    rw [Use.needs, hGroup]
  constructor
  case allocated =>
    obtain ⟨new, lines, hNew, -, -, hAllocations, -, -⟩ := declareAndInitializeLoads_spec h
    intro register k
    have hOld := hInv.allocated register k
    rw [hAllocations]
    simp only [List.mem_append, List.mem_singleton, or_and_right, exists_or, exists_eq_left, hNeeds, ← hOld]
    by_cases hName : register = group.name
    · subst hName
      rw [Function.update_self, List.mem_append, hNew, List.mem_filter, decide_eq_true_eq]
      tauto
    · rw [Function.update_of_ne hName]
      exact (or_iff_left fun hBoth => hName hBoth.1.symm).symm
  case loaded =>
    obtain ⟨lines, hLines, hLoads⟩ := loads_of_declareAndInitializeLoads (Q := Q) h
    have hFirst : (Use.mk group.name offset loadName).IsFirst c temporal spatial uses ↔
        ∃ k ∈ neededVectors c group offset isTemporal, k ∉ s.allocations group.name := by
      rw [Use.IsFirst, hNeeds]
      refine exists_congr fun k => and_congr_right fun _ => ?_
      rw [hInv.allocated]
      push Not
      rfl
    rw [eachAfter_concat, ← hInv.loaded, hFirst, ← hLoads, hLines]
    simp only [List.mem_append, or_imp, forall_and]

/-- A loop whose turns load for operands of their own. -/
theorem Sources.foldlM {α : Type} {f : Emission → α → Option Emission} {g : α → List Use} {xs : List α}
    (hStep : ∀ x s s' uses, Sources c temporal spatial Q uses s → f s x = some s' →
      Sources c temporal spatial Q (uses ++ g x) s')
    (hInv : Sources c temporal spatial Q uses s) (h : xs.foldlM f s = some s') :
    Sources c temporal spatial Q (uses ++ xs.flatMap g) s' := by
  induction xs generalizing s uses with
  | nil =>
    cases h
    rwa [List.flatMap_nil, List.append_nil]
  | cons x xs ih =>
    rw [List.foldlM_cons] at h
    obtain ⟨s₁, hHead, hRest⟩ := Option.bind_eq_some_iff.mp h
    rw [List.flatMap_cons, ← List.append_assoc]
    exact ih (hStep x s s₁ uses hInv hHead) hRest

theorem filterMap_of_mapM {α β : Type} {f : α → Option β} {as : List α} {bs : List β}
    (h : as.mapM f = some bs) : as.filterMap f = bs := by
  have hAll := Pointwise.of_mapM h
  clear h
  induction hAll with
  | nil => rfl
  | cons hHead _ ih => rw [List.filterMap_cons_some hHead, ih]

theorem Sources.emitCall {mac : AIVectorMacOperation} {steps : Int × Int} {i : Nat}
    (hInv : Sources c temporal spatial Q uses s)
    (h : emitCall c (findGroup temporal spatial mac.operand1GroupName)
      (findGroup temporal spatial mac.operand2GroupName) names steps mac.operandOffsets s i = some s') :
    Sources c temporal spatial Q (uses ++ usesOfCall c names mac i) s' := by
  obtain ⟨columns, hColumns, h⟩ := Option.bind_eq_some_iff.mp h
  obtain ⟨⟨group1, isTemporal1⟩, hGroup1, h⟩ := Option.bind_eq_some_iff.mp h
  obtain ⟨⟨group2, isTemporal2⟩, hGroup2, h⟩ := Option.bind_eq_some_iff.mp h
  obtain ⟨s₁, hLoads, h⟩ := Option.bind_eq_some_iff.mp h
  obtain ⟨first, -, h⟩ := Option.bind_eq_some_iff.mp h
  obtain ⟨coefficients1, -, h⟩ := Option.bind_eq_some_iff.mp h
  obtain ⟨coefficients2, -, h⟩ := Option.bind_eq_some_iff.mp h
  cases h
  rw [usesOfCall, filterMap_of_mapM hColumns]
  have hRun : Sources c temporal spatial Q (uses ++ columns.flatMap (usesOfColumn names mac)) s₁ := by
    refine hInv.foldlM (fun offsets s s' uses hInv hStep => ?_) hLoads
    obtain ⟨s₂, hFirst, hSecond⟩ := Option.bind_eq_some_iff.mp hStep
    have hBoth := (hInv.load hGroup1 hFirst).load hGroup2 hSecond
    rwa [List.append_assoc] at hBoth
  refine hRun.other ?_ rfl rfl
  intro line hLine
  cases List.mem_singleton.mp hLine
  rfl

theorem Sources.emitVectorMac {mac : AIVectorMacOperation} (hInv : Sources c temporal spatial Q uses s)
    (h : emitVectorMac c temporal spatial names s mac = some s') :
    Sources c temporal spatial Q (uses ++ usesOfMac c names mac) s' := by
  obtain ⟨steps, -, h⟩ := Option.bind_eq_some_iff.mp h
  exact hInv.foldlM (fun i s s' uses hInv hStep => hInv.emitCall hStep) h

theorem loads_of_isOther {line : Line} (h : line.isOther = true) : line.loads = none := by
  cases line with
  | accumulator _ | initialLoad _ _ _ | addInitial _ | store _ _ _ => rfl
  | declare _ _ | updW _ _ _ _ | load _ _ _ | call _ => exact absurd h Bool.false_ne_true

theorem Sources.emitStatement {statement : TripletIRNode} {eliminate : Bool}
    (hInv : Sources c temporal spatial Q uses s)
    (h : emitStatement c heap temporal spatial eliminate s statement = some s') :
    Sources c temporal spatial Q (uses ++ usesOf c heap statement) s' := by
  obtain ⟨_, -, h⟩ := Option.bind_eq_some_iff.mp h
  rw [usesOf]
  cases hPairs : statement.pairWiseLoads with
  | nil =>
    rw [hPairs] at h
    cases h
    rwa [List.append_nil]
  | cons pair pairs =>
    rw [hPairs] at h
    obtain ⟨s₁, hLoop, h⟩ := Option.bind_eq_some_iff.mp h
    obtain ⟨initial, -, h⟩ := Option.bind_eq_some_iff.mp h
    obtain ⟨lines, hLines, h⟩ := Option.bind_eq_some_iff.mp h
    cases h
    have hStart : Sources c temporal spatial Q uses
        { s.emit [.accumulator s.stmtId] with useMulIntrinsic := true } := by
      refine hInv.other ?_ rfl rfl
      intro line hLine
      cases List.mem_singleton.mp hLine
      rfl
    have hRun := hStart.foldlM (fun mac s s' uses hInv hStep => hInv.emitVectorMac hStep) hLoop
    exact hRun.other (fun line hLine => loads_of_isOther (isOther_of_storeLines hLines line hLine)) rfl rfl

theorem sources_generateCode {statements : List TripletIRNode} {eliminate : Bool}
    (h : generateCode c heap statements temporal spatial eliminate = some lines) :
    (∀ line ∈ lines, ∀ register buffer, line.loads = some (register, buffer) → Q register buffer) ↔
      EachAfter (fun before use => use.IsFirst c temporal spatial before →
        Q use.register (use.loadName ++ "_buffer")) (statements.flatMap (usesOf c heap)) := by
  obtain ⟨s, hLoop, h⟩ := Option.bind_eq_some_iff.mp h
  cases h
  exact (sources_empty.foldlM (fun statement s s' uses hInv hStep => hInv.emitStatement hStep) hLoop).loaded

end Runs

/-- The registers are loaded from the buffers of their own loads exactly if the operands come with their own
names. -/
theorem loadsOwnBuffers_iff {c : Compiler} {heap : Heap} {statements : List TripletIRNode}
    {temporal spatial : ReuseGraph} {eliminate : Bool} {lines : List Line}
    (h : generateCode c heap statements temporal spatial eliminate = some lines) :
    LoadsOwnBuffers heap temporal spatial lines ↔
      OwnNames c heap temporal spatial (statements.flatMap (usesOf c heap)) := by
  have hRun := sources_generateCode (Q := fun register buffer =>
    ∀ load ∈ members temporal spatial register, buffer = (heap load).name ++ "_buffer") h
  simp only [String.append_left_inj] at hRun
  exact hRun

theorem loadsOwnBuffers_iff_taps : ∃ lines,
    generateCode shorts tapsHeap tapsFused tapsTemporal tapsSpatial false = some lines ∧
    (LoadsOwnBuffers tapsHeap tapsTemporal tapsSpatial lines ↔
      OwnNames shorts tapsHeap tapsTemporal tapsSpatial (tapsFused.flatMap (usesOf shorts tapsHeap))) := by
  obtain ⟨lines, hLines⟩ := generate_taps
  exact ⟨lines, hLines, loadsOwnBuffers_iff hLines⟩

section Swapped

/-- One product `in[x] * w[0]` in eight lanes of 32 bits, whose temporal group fits 256 bits. -/
def dotHeap : Heap
  | 0 => { name := "in", index := .ramp (constant 0) (constant 1) 8 }
  | load => reversedHeap load

def dotCompiler : Compiler := { words with memoryOperationsStrideLength := 1 }

def dotTemporal : ReuseGraph where
  loads := [0]
  groups := [{ ids := [0], offsets := [0], name := "loads_temporal_group_" ++ toString 0
               extent := ⟨.expr (.imm .int32 0), .expr (.imm .int32 7)⟩, extentSize := 8 }]

theorem loads_dot : (generateCode dotCompiler dotHeap reversedFused dotTemporal reversedSpatial
    false).map (·.filterMap Line.loads) =
      some [("loads_spatial_group_0", "in_buffer"), ("loads_temporal_group_0", "w_buffer")] := rfl

/-- The operands are swapped and the names are not, so that each is loaded from the buffer of the other. -/
theorem not_loadsOwnBuffers_dot :
    buildTemporalReuseGraphAndLogicalMemoryGroups Solve.foldClosed dotCompiler dotHeap reversed =
      some (dotTemporal, some true) ∧
    buildSpatialReuseGraphAndLogicalMemoryGroups Solve.foldClosed dotCompiler dotHeap (some true) reversed =
      some reversedSpatial ∧
    fuseVectorMacOperations dotCompiler dotTemporal reversedSpatial (some true) reversed =
      some reversedFused ∧
    ∃ lines, generateCode dotCompiler dotHeap reversedFused dotTemporal reversedSpatial false = some lines ∧
      ¬ LoadsOwnBuffers dotHeap dotTemporal reversedSpatial lines := by
  obtain ⟨lines, hLines, hLoads⟩ := Option.map_eq_some_iff.mp loads_dot
  refine ⟨rfl, rfl, rfl, lines, hLines, fun hOwn => ?_⟩
  have hMem : ("loads_temporal_group_0", "w_buffer") ∈ lines.filterMap Line.loads := by
    rw [hLoads]
    exact List.mem_cons_of_mem _ List.mem_cons_self
  obtain ⟨line, hLine, hEq⟩ := List.mem_filterMap.mp hMem
  have hName := hOwn line hLine _ _ hEq 0 List.mem_cons_self
  exact absurd hName (by decide)

end Swapped

end Vyasa.AICore
