import Vyasa.AICore.Emitted
import Vyasa.AICore.Fuse
import Mathlib.Tactic.Linarith

/-! The vectors of a register that a call reads are filled before the call, each of them
once, where the operands fit the registers. -/
namespace Vyasa.AICore

open Relation History

section Lines

/-- The line fills this vector of the register. One that is no wider than a vector is
filled as a whole. -/
def Line.fills (register : String) (chunk : Int) : Line → Bool
  | updW r k _ _ => r = register && k = chunk
  | load r _ _ => r = register && chunk = 0
  | _ => false

def Line.declares (register : String) : Line → Bool
  | declare _ r => r = register
  | _ => false

def Line.updates (register : String) : Line → Bool
  | updW r _ _ _ => r = register
  | _ => false

/-- The element of its register that a lane of an operand reads for a column. -/
def elementRead (c : Compiler) (isTemporal : Bool) (offset : Int) (lane : Nat) : Int :=
  if isTemporal then offset + lane * c.memoryOperationsStrideLength else offset

/-- The vector that an element of a register lies in. -/
def chunkOf (c : Compiler) (element : Int) : Int := element / c.numSimdLanes

def Filled (lines : List Line) (register : String) (chunk : Int) : Prop :=
  ∃ line ∈ lines, line.fills register chunk = true

/-- The vectors that an operand reads for a column are filled by the lines. -/
def OperandFilled (c : Compiler) (lines : List Line) (operand : Operand) (offset : Int) : Prop :=
  ∀ lane < c.numSimdLanes,
    Filled lines operand.register (chunkOf c (elementRead c operand.isTemporal offset lane))

/-- The register of this name is wider than a vector. -/
def isWide (c : Compiler) (temporal spatial : ReuseGraph) (register : String) : Bool :=
  match findGroup temporal spatial register with
  | some (group, _) => isLargerThanVectorLength c group
  | none => false

/-- The registers are filled in time, at most once, and the wide ones are declared once
and in time. -/
structure Resident (c : Compiler) (temporal spatial : ReuseGraph) (lines : List Line) : Prop where
  filled : EachAfter (fun before line => ∀ call, line = .call call → ∀ offsets ∈ call.columns,
    OperandFilled c before call.operand1 offsets.1 ∧ OperandFilled c before call.operand2 offsets.2) lines
  once : ∀ register chunk, lines.countP (·.fills register chunk) ≤ 1
  declared : ∀ register, isWide c temporal spatial register = true →
    (∃ chunk, Filled lines register chunk) → lines.countP (·.declares register) = 1
  before : EachAfter (fun before line => ∀ register, line.updates register = true →
    ∃ earlier ∈ before, earlier.declares register = true) lines

end Lines

section Consistent

variable {c : Compiler} {temporal spatial : ReuseGraph} {used : String → Int → Prop} {s s' : Emission}
  {group : LogicalMemoryGroup} {isFirst isTemporal : Bool} {new : List Int} {lines : List Line}
  {register : String} {k : Int}

theorem isWide_of_found (h : findGroup temporal spatial group.name = some (group, isTemporal)) :
    isWide c temporal spatial group.name = isLargerThanVectorLength c group := by
  rw [isWide, h]

theorem Added.countP_fills (h : Added c group isFirst new lines) (hNodup : new.Nodup) :
    lines.countP (·.fills register k) =
      if register ≠ group.name then 0
      else if isLargerThanVectorLength c group then (if k ∈ new then 1 else 0)
      else if k = 0 then new.length else 0 := by
  cases h with
  | none hNil => simp [hNil]
  | updates lanes buffer hWide _ =>
    have hDeclare : (if isFirst then [Line.declare lanes group.name] else []).countP (·.fills register k) =
        0 := by
      cases isFirst <;> rfl
    rw [List.countP_append, hDeclare, Nat.zero_add, List.countP_map, if_pos hWide]
    split_ifs with hName hMem
    · refine List.countP_eq_zero.mpr fun i _ hFills => hName ?_
      have hBoth := Bool.and_eq_true_iff.mp hFills
      exact (of_decide_eq_true hBoth.1).symm
    · have hEq : new.countP ((fun line : Line => line.fills register k) ∘
          fun i => .updW group.name i buffer group.extent.min) = new.count k := by
        refine List.countP_congr fun i _ => ?_
        simp [Line.fills, not_not.mp hName]
      rw [hEq, List.count_eq_one_of_mem hNodup hMem]
    · refine List.countP_eq_zero.mpr fun i hi hFills => hMem ?_
      have hBoth := Bool.and_eq_true_iff.mp hFills
      exact of_decide_eq_true hBoth.2 ▸ hi
  | whole buffer hNarrow hLength =>
    rw [hNarrow, hLength, List.countP_singleton]
    by_cases hName : register = group.name
    · simp [Line.fills, hName]
    · simp [Line.fills, hName, Ne.symm hName]

theorem Added.countP_declares (h : Added c group isFirst new lines) :
    lines.countP (·.declares register) = if isLargerThanVectorLength c group = true ∧
      register = group.name ∧ isFirst = true ∧ new ≠ [] then 1 else 0 := by
  cases h with
  | none hNil => simp [hNil]
  | updates lanes buffer hWide hNew =>
    have hUpdates : (new.map (Line.updW group.name · buffer group.extent.min)).countP
        (·.declares register) = 0 := by
      rw [List.countP_map]
      exact List.countP_eq_zero.mpr fun i _ hDeclares => Bool.false_ne_true hDeclares
    rw [List.countP_append, hUpdates, Nat.add_zero]
    cases isFirst with
    | false => simp
    | true => simp [Line.declares, hWide, hNew, eq_comm]
  | whole buffer hNarrow _ => simp [Line.declares, hNarrow]

/-- The lines fill exactly what is recorded as filled. -/
structure Consistent (c : Compiler) (temporal spatial : ReuseGraph) (s : Emission) : Prop where
  fills : ∀ register k, s.lines.countP (·.fills register k) =
    if isWide c temporal spatial register then (if k ∈ s.allocations register then 1 else 0)
    else if k = 0 then (s.allocations register).length else 0
  declares : ∀ register, isWide c temporal spatial register = true →
    s.lines.countP (·.declares register) = if s.allocations register = [] then 0 else 1
  before : EachAfter (fun before line => ∀ register, line.updates register = true →
    ∃ earlier ∈ before, earlier.declares register = true) s.lines

theorem Added.before {before : List Line} (h : Added c group isFirst new lines)
    (hBefore : isFirst = false → isLargerThanVectorLength c group = true →
      ∃ earlier ∈ before, earlier.declares group.name = true)
    (hLines : EachAfter (fun before line => ∀ register, line.updates register = true →
      ∃ earlier ∈ before, earlier.declares register = true) before) :
    EachAfter (fun before line => ∀ register, line.updates register = true →
      ∃ earlier ∈ before, earlier.declares register = true) (before ++ lines) := by
  cases h with
  | none _ => rwa [List.append_nil]
  | whole buffer _ _ =>
    refine eachAfter_concat.mpr ⟨hLines, fun register hUpdates => ?_⟩
    exact absurd hUpdates Bool.false_ne_true
  | updates lanes buffer hWide _ =>
    have hDeclared : EachAfter (fun before line => ∀ register, line.updates register = true →
          ∃ earlier ∈ before, earlier.declares register = true)
          (before ++ if isFirst then [.declare lanes group.name] else []) ∧
        ∃ earlier ∈ before ++ (if isFirst then [.declare lanes group.name] else []),
          earlier.declares group.name = true := by
      cases isFirst with
      | false =>
        rw [if_neg Bool.false_ne_true, List.append_nil]
        exact ⟨hLines, hBefore rfl hWide⟩
      | true =>
        refine ⟨eachAfter_concat.mpr ⟨hLines, fun register hUpdates => ?_⟩,
          .declare lanes group.name, List.mem_append_right _ List.mem_cons_self, decide_eq_true rfl⟩
        exact absurd hUpdates Bool.false_ne_true
    rw [← List.append_assoc]
    refine hDeclared.1.append fun line hLine more register hUpdates => ?_
    obtain ⟨k, -, rfl⟩ := List.mem_map.mp hLine
    cases of_decide_eq_true hUpdates
    obtain ⟨earlier, hEarlier, hDeclares⟩ := hDeclared.2
    exact ⟨earlier, List.mem_append_left _ hEarlier, hDeclares⟩

theorem consistent_empty : Consistent c temporal spatial {} where
  fills register k := by simp
  declares register _ := by simp
  before := eachAfter_nil

theorem Consistent.load {offset : Int} {loadName : String} (hInv : Consistent c temporal spatial s)
    (hGroup : findGroup temporal spatial group.name = some (group, isTemporal))
    (h : declareAndInitializeLoads c group offset isTemporal loadName s = some s') :
    Consistent c temporal spatial s' := by
  obtain ⟨new, lines, hNew, hAdded, hLines, hAllocations, -, -⟩ := declareAndInitializeLoads_spec h
  have hNodup : new.Nodup := hNew ▸ nodup_loadRange.filter _
  have hFresh : ∀ k ∈ new, k ∉ s.allocations group.name := by
    intro k hk
    rw [hNew, List.mem_filter, decide_eq_true_eq] at hk
    exact hk.2
  have hWideEq := isWide_of_found (c := c) hGroup
  constructor
  case fills =>
    intro register k
    rw [hLines, List.countP_append, hInv.fills, hAdded.countP_fills hNodup, hAllocations]
    by_cases hName : register = group.name
    · subst hName
      rw [hWideEq, Function.update_self, if_neg (not_not.mpr rfl), List.length_append]
      simp only [List.mem_append]
      have hNotBoth := hFresh k
      split_ifs <;> grind
    · rw [Function.update_of_ne hName, if_pos hName, Nat.add_zero]
  case declares =>
    intro register hWide
    rw [hLines, List.countP_append, hInv.declares register hWide, hAdded.countP_declares, hAllocations]
    by_cases hName : register = group.name
    · subst hName
      rw [hWideEq] at hWide
      rw [Function.update_self]
      simp only [List.append_eq_nil_iff, List.isEmpty_iff]
      split_ifs <;> grind
    · rw [Function.update_of_ne hName]
      simp [hName]
  case before =>
    rw [hLines]
    refine hAdded.before (fun hFirst hWide => ?_) hInv.before
    have hCount := hInv.declares group.name (hWideEq.trans hWide)
    rw [if_neg fun hNil => ?_] at hCount
    · have hPos : 0 < s.lines.countP (·.declares group.name) := by omega
      exact List.countP_pos_iff.mp hPos
    · rw [hNil] at hFirst
      exact absurd hFirst.symm Bool.false_ne_true

/-- Lines that touch no register change nothing. -/
theorem Consistent.other (hInv : Consistent c temporal spatial s)
    (hOther : ∀ line ∈ lines, ∀ register, (∀ k, line.fills register k = false) ∧
      line.declares register = false ∧ line.updates register = false)
    (hLines : s'.lines = s.lines ++ lines) (hAllocations : s'.allocations = s.allocations) :
    Consistent c temporal spatial s' := by
  have hNone (p : Line → Bool) (hp : ∀ line ∈ lines, p line = false) : lines.countP p = 0 :=
    List.countP_eq_zero.mpr fun line hLine hTrue => Bool.false_ne_true ((hp line hLine).symm.trans hTrue)
  constructor
  case fills =>
    intro register k
    rw [hLines, hAllocations, List.countP_append, hNone _ fun line hLine => (hOther line hLine register).1 k]
    exact hInv.fills register k
  case declares =>
    intro register hWide
    rw [hLines, hAllocations, List.countP_append, hNone _ fun line hLine => (hOther line hLine register).2.1]
    exact hInv.declares register hWide
  case before =>
    rw [hLines]
    refine hInv.before.append fun line hLine more register hUpdates => ?_
    rw [(hOther line hLine register).2.2] at hUpdates
    exact absurd hUpdates Bool.false_ne_true

theorem Consistent.step (hInv : Consistent c temporal spatial s) (h : Step c temporal spatial used s s') :
    Consistent c temporal spatial s' := by
  cases h with
  | load hGroup _ h => exact hInv.load hGroup h
  | call _ hLines hAllocations =>
    refine hInv.other (fun line hLine register => ?_) hLines hAllocations
    cases List.mem_singleton.mp hLine
    exact ⟨fun _ => rfl, rfl, rfl⟩
  | other hOther hLines hAllocations =>
    refine hInv.other (fun line hLine register => ?_) hLines hAllocations
    have hLine := hOther line hLine
    cases line with
    | accumulator _ | initialLoad _ _ _ | addInitial _ | store _ _ _ => exact ⟨fun _ => rfl, rfl, rfl⟩
    | declare _ _ | updW _ _ _ _ | load _ _ _ | call _ => exact absurd hLine Bool.false_ne_true

theorem consistent_of_emits (h : Emits c temporal spatial used {} s) : Consistent c temporal spatial s := by
  induction h with
  | refl => exact consistent_empty
  | tail _ hStep ih => exact ih.step hStep

/-- The vectors that the lines have filled. -/
theorem Consistent.filled_iff (hInv : Consistent c temporal spatial s) :
    Filled s.lines register k ↔ if isWide c temporal spatial register then k ∈ s.allocations register
      else k = 0 ∧ s.allocations register ≠ [] := by
  rw [Filled, ← List.countP_pos_iff, hInv.fills]
  split_ifs <;> simp_all [List.length_pos_iff]

end Consistent

section Operands

variable {c : Compiler} {temporal spatial : ReuseGraph} {used : String → Int → Prop} {s s' : Emission}
  {group : LogicalMemoryGroup} {isTemporal : Bool} {offset k : Int} {lane : Nat}

/-- The offset is one of a member of the group. -/
def InRange (group : LogicalMemoryGroup) (isTemporal : Bool) (offset : Int) : Prop :=
  0 ≤ offset ∧ (isTemporal = false → offset < group.extentSize)

/-- The lanes of a temporal operand do not lie before its offset, and none is beyond a
register that is no wider than a vector. -/
def Fits (c : Compiler) (group : LogicalMemoryGroup) (isTemporal : Bool) (offset : Int) : Prop :=
  isTemporal = true → 0 ≤ c.memoryOperationsStrideLength ∧
    (isLargerThanVectorLength c group = false →
      offset + c.memoryOperationsStrideLength * (c.numSimdLanes - 1) < c.numSimdLanes)

theorem Compiler.two_le_lanes (c : Compiler) : (2 : Int) ≤ c.numSimdLanes := by
  rcases c.shape with ⟨h, -⟩ | ⟨h, -⟩ | ⟨h, -⟩ <;> omega

theorem loadRangeStart_eq (h : 0 ≤ offset) : loadRangeStart c offset = offset / c.numSimdLanes :=
  Int.tdiv_eq_ediv_of_nonneg h

/-- The elements of a lane lie between those of the first lane and the last one. -/
theorem elementRead_bounds (offset : Int) (hStride : 0 ≤ c.memoryOperationsStrideLength) (hLane : lane < c.numSimdLanes) :
    offset ≤ elementRead c true offset lane ∧
      elementRead c true offset lane ≤ offset + c.memoryOperationsStrideLength * (c.numSimdLanes - 1) := by
  have hLess : (lane : Int) ≤ c.numSimdLanes - 1 := by omega
  have hLower : 0 ≤ (lane : Int) * c.memoryOperationsStrideLength := by positivity
  have hUpper := mul_le_mul_of_nonneg_right hLess hStride
  rw [mul_comm _ c.memoryOperationsStrideLength] at hUpper
  rw [elementRead, if_pos rfl]
  constructor <;> linarith

/-- An operand of a wide register needs all vectors that it reads. -/
theorem chunk_mem_neededVectors (hRange : InRange group isTemporal offset) (hFits : Fits c group isTemporal offset)
    (hWide : isLargerThanVectorLength c group = true) (hLane : lane < c.numSimdLanes) :
    chunkOf c (elementRead c isTemporal offset lane) ∈ neededVectors c group offset isTemporal := by
  have hLanes : (0 : Int) < c.numSimdLanes := by linarith [c.two_le_lanes]
  rw [neededVectors, mem_loadRange, loadRangeStart_eq hRange.1, loadRangeEnd, hWide, chunkOf]
  cases isTemporal with
  | false => simp [elementRead, loadRangeStart_eq hRange.1]
  | true =>
    obtain ⟨hLower, hUpper⟩ := elementRead_bounds offset (hFits rfl).1 hLane
    rw [Bool.true_and, if_pos rfl,
      Int.tdiv_eq_ediv_of_nonneg (hRange.1.trans (hLower.trans hUpper))]
    exact ⟨Int.ediv_le_ediv hLanes hLower, Int.ediv_le_ediv hLanes hUpper⟩

/-- An operand of a register that is no wider than a vector reads that vector. -/
theorem narrow_operand (hRange : InRange group isTemporal offset) (hFits : Fits c group isTemporal offset)
    (hNarrow : isLargerThanVectorLength c group = false) :
    neededVectors c group offset isTemporal = [0] ∧
      ∀ lane < c.numSimdLanes, chunkOf c (elementRead c isTemporal offset lane) = 0 := by
  have hSize : group.extentSize ≤ c.numSimdLanes := by
    rw [isLargerThanVectorLength, decide_eq_false_iff_not] at hNarrow
    exact not_lt.mp hNarrow
  have hZero {x : Int} (hLower : 0 ≤ x) (hUpper : x < c.numSimdLanes) : chunkOf c x = 0 :=
    Int.ediv_eq_zero_of_lt hLower hUpper
  have hOffset : offset < c.numSimdLanes := by
    cases isTemporal with
    | false => exact (hRange.2 rfl).trans_le hSize
    | true =>
      obtain ⟨hStride, hLast⟩ := hFits rfl
      have hMul := mul_nonneg hStride (by linarith [c.two_le_lanes] : (0 : Int) ≤ c.numSimdLanes - 1)
      linarith [hLast hNarrow]
  constructor
  · rw [neededVectors, loadRangeEnd, hNarrow, Bool.false_and, if_neg Bool.false_ne_true,
      loadRangeStart_eq hRange.1, Int.ediv_eq_zero_of_lt hRange.1 hOffset]
    rfl
  · intro lane hLane
    cases isTemporal with
    | false => exact hZero hRange.1 hOffset
    | true =>
      obtain ⟨hStride, hLast⟩ := hFits rfl
      obtain ⟨hLower, hUpper⟩ := elementRead_bounds offset hStride hLane
      exact hZero (hRange.1.trans hLower) (hUpper.trans_lt (hLast hNarrow))

/-- What is read is filled, where the needed vectors are there. -/
theorem operandFilled_of_loaded {operand : Operand} (hInv : Consistent c temporal spatial s)
    (hOperands : ∀ name offset, used name offset → ∀ group isTemporal,
      findGroup temporal spatial name = some (group, isTemporal) →
        InRange group isTemporal offset ∧ Fits c group isTemporal offset)
    (hLoaded : operand.Loaded c temporal spatial used s offset) :
    OperandFilled c s.lines operand offset := by
  obtain ⟨hUsed, group, hGroup, hNeeded⟩ := hLoaded
  obtain ⟨hRange, hFits⟩ := hOperands _ _ hUsed group _ hGroup
  have hWideEq : isWide c temporal spatial operand.register = isLargerThanVectorLength c group := by
    rw [isWide, hGroup]
  intro lane hLane
  rw [hInv.filled_iff, hWideEq]
  cases hWide : isLargerThanVectorLength c group with
  | true => exact hNeeded (chunk_mem_neededVectors hRange hFits hWide hLane)
  | false =>
    obtain ⟨hVectors, hZero⟩ := narrow_operand hRange hFits hWide
    rw [hVectors] at hNeeded
    exact ⟨hZero lane hLane, List.ne_nil_of_mem (hNeeded List.mem_cons_self)⟩

/-- Wide registers of scalars aside, an operand whose lanes run backwards needs at most
the first vector. -/
theorem neededVectors_backwards (hStride : c.memoryOperationsStrideLength ≤ -2) (hOffset : 0 ≤ offset)
    (hWide : isLargerThanVectorLength c group = true) (hk : k ∈ neededVectors c group offset true) :
    k = 0 := by
  rw [neededVectors, mem_loadRange, loadRangeStart_eq hOffset, loadRangeEnd, hWide, Bool.true_and,
    if_pos rfl] at hk
  have hLanes := c.two_le_lanes
  generalize (c.numSimdLanes : Int) = lanes at *
  generalize c.memoryOperationsStrideLength = stride at *
  have hPos : 0 < lanes := by linarith
  have hFar : offset + stride * (lanes - 1) ≤ offset - lanes := by nlinarith
  have hFirst : 0 ≤ offset / lanes := Int.ediv_nonneg hOffset hPos.le
  rcases le_or_gt 0 (offset + stride * (lanes - 1)) with hLast | hLast
  · rw [Int.tdiv_eq_ediv_of_nonneg hLast] at hk
    have hLess : (offset + stride * (lanes - 1)) / lanes ≤ (offset - lanes) / lanes :=
      Int.ediv_le_ediv hPos hFar
    have hSub : (offset - lanes) / lanes = offset / lanes - 1 := by
      have hStep := Int.add_mul_ediv_right offset (-1) hPos.ne'
      rwa [neg_one_mul, ← sub_eq_add_neg, ← sub_eq_add_neg] at hStep
    omega
  · have hNonneg := Int.tdiv_nonneg (neg_nonneg.mpr hLast.le) hPos.le
    rw [Int.neg_tdiv] at hNonneg
    omega

end Operands

section Runs

variable {c : Compiler} {temporal spatial : ReuseGraph} {used : String → Int → Prop} {s s' : Emission}

/-- The register of a group that is no wider than a vector is filled at most once. -/
theorem narrow_allocations (hOperands : ∀ name offset, used name offset → ∀ group isTemporal,
      findGroup temporal spatial name = some (group, isTemporal) →
        InRange group isTemporal offset ∧ Fits c group isTemporal offset)
    (h : Emits c temporal spatial used {} s) {register : String}
    (hNarrow : isWide c temporal spatial register = false) :
    s.allocations register = [] ∨ s.allocations register = [0] := by
  induction h with
  | refl => exact Or.inl rfl
  | tail _ hStep ih =>
    cases hStep with
    | @load group offset isTemporal _ hGroup hUsed h =>
      obtain ⟨new, lines, rfl, -, -, hAllocations, -, -⟩ := declareAndInitializeLoads_spec h
      rw [hAllocations]
      by_cases hName : register = group.name
      · subst hName
        obtain ⟨hRange, hFits⟩ := hOperands _ _ hUsed group _ hGroup
        rw [isWide_of_found hGroup] at hNarrow
        rw [Function.update_self, (narrow_operand hRange hFits hNarrow).1]
        rcases ih with hNil | hZero
        · exact Or.inr (by simp [hNil])
        · exact Or.inr (by simp [hZero])
      · rw [Function.update_of_ne hName]
        exact ih
    | call _ _ hAllocations => rwa [hAllocations]
    | other _ _ hAllocations => rwa [hAllocations]

/-- Where the lanes run backwards, nothing but the first vector of a wide register is
ever filled for a temporal operand. -/
theorem backward_allocations (hStride : c.memoryOperationsStrideLength ≤ -2)
    (hRange : ∀ name offset, used name offset → ∀ group isTemporal,
      findGroup temporal spatial name = some (group, isTemporal) → InRange group isTemporal offset)
    (h : Emits c temporal spatial used {} s) {register : String} {group : LogicalMemoryGroup}
    (hGroup : findGroup temporal spatial register = some (group, true))
    (hWide : isLargerThanVectorLength c group = true) :
    ∀ k ∈ s.allocations register, k = 0 := by
  induction h with
  | refl => simp
  | tail _ hStep ih =>
    cases hStep with
    | @load loaded offset isTemporal _ hLoaded hUsed h =>
      obtain ⟨new, lines, rfl, -, -, hAllocations, -, -⟩ := declareAndInitializeLoads_spec h
      rw [hAllocations]
      by_cases hName : register = loaded.name
      · subst hName
        cases hGroup.symm.trans hLoaded
        rw [Function.update_self]
        intro k hk
        rcases List.mem_append.mp hk with hOld | hNew
        · exact ih k hOld
        · exact neededVectors_backwards hStride (hRange _ _ hUsed _ _ hGroup).1 hWide
            (List.mem_of_mem_filter hNew)
      · rw [Function.update_of_ne hName]
        exact ih
    | call _ _ hAllocations => rwa [hAllocations]
    | other _ _ hAllocations => rwa [hAllocations]

theorem Added.call_not_mem {group : LogicalMemoryGroup} {isFirst : Bool} {new : List Int}
    {lines : List Line} (h : Added c group isFirst new lines) {call : Call} : .call call ∉ lines := by
  intro hCall
  cases h with
  | none _ => cases hCall
  | updates lanes buffer _ _ =>
    rcases List.mem_append.mp hCall with hCall | hCall
    · split at hCall
      · cases List.mem_singleton.mp hCall
      · cases hCall
    · obtain ⟨k, -, hEq⟩ := List.mem_map.mp hCall
      cases hEq
  | whole buffer _ _ => cases List.mem_singleton.mp hCall

/-- The operands of all calls are used ones, of groups that exist. -/
theorem operands_of_emits (h : Emits c temporal spatial used {} s) {call : Call}
    (hCall : .call call ∈ s.lines) : ∀ offsets ∈ call.columns,
      (∃ group, findGroup temporal spatial call.operand1.register = some (group, call.operand1.isTemporal)) ∧
      ∃ group, findGroup temporal spatial call.operand2.register =
        some (group, call.operand2.isTemporal) := by
  induction h with
  | refl => cases hCall
  | tail _ hStep ih =>
    cases hStep with
    | load _ _ h =>
      obtain ⟨new, lines, -, hAdded, hLines, -⟩ := declareAndInitializeLoads_spec h
      rw [hLines] at hCall
      exact ih ((List.mem_append.mp hCall).resolve_right hAdded.call_not_mem)
    | call hLoaded hLines _ =>
      rw [hLines] at hCall
      rcases List.mem_append.mp hCall with hOld | hNew
      · exact ih hOld
      · cases List.mem_singleton.mp hNew
        intro offsets hOffsets
        obtain ⟨⟨-, group1, hGroup1, -⟩, -, group2, hGroup2, -⟩ := hLoaded offsets hOffsets
        exact ⟨⟨group1, hGroup1⟩, group2, hGroup2⟩
    | other hOther hLines _ =>
      rw [hLines] at hCall
      refine ih ((List.mem_append.mp hCall).resolve_right fun hNew => ?_)
      exact Bool.false_ne_true (hOther _ hNew)

/-- The registers are filled in time, where all operands fit. -/
theorem resident_of_emits (hOperands : ∀ name offset, used name offset → ∀ group isTemporal,
      findGroup temporal spatial name = some (group, isTemporal) →
        InRange group isTemporal offset ∧ Fits c group isTemporal offset)
    (h : Emits c temporal spatial used {} s) : Resident c temporal spatial s.lines := by
  have hInv := consistent_of_emits h
  constructor
  case filled =>
    clear hInv
    induction h with
    | refl => exact eachAfter_nil
    | @tail s s' hRun hStep ih =>
      cases hStep with
      | load hGroup hUsed hLoad =>
        obtain ⟨new, lines, -, hAdded, hLines, -⟩ := declareAndInitializeLoads_spec hLoad
        rw [hLines]
        refine ih.append fun line hLine more call hCall => ?_
        cases hCall
        exact absurd hLine hAdded.call_not_mem
      | call hLoaded hLines _ =>
        rw [hLines]
        refine eachAfter_concat.mpr ⟨ih, fun call hCall offsets hOffsets => ?_⟩
        cases hCall
        exact (hLoaded offsets hOffsets).imp
          (operandFilled_of_loaded (consistent_of_emits hRun) hOperands)
          (operandFilled_of_loaded (consistent_of_emits hRun) hOperands)
      | other hOther hLines _ =>
        rw [hLines]
        refine ih.append fun line hLine more call hCall => ?_
        cases hCall
        exact absurd (hOther _ hLine) Bool.false_ne_true
  case once =>
    intro register chunk
    rw [hInv.fills]
    cases hWide : isWide c temporal spatial register with
    | true =>
      rw [if_pos rfl]
      split_ifs <;> omega
    | false => rcases narrow_allocations hOperands h hWide with hNil | hZero <;> split_ifs <;> simp_all
  case declared =>
    rintro register hWide ⟨chunk, hFilled⟩
    rw [hInv.filled_iff, if_pos hWide] at hFilled
    rw [hInv.declares register hWide, if_neg (List.ne_nil_of_mem hFilled)]
  case before => exact hInv.before

/-- An operand whose vectors are filled by the lines fits its register. -/
theorem fits_of_filled (hStride : c.memoryOperationsStrideLength ≠ -1)
    (hRange : ∀ name offset, used name offset → ∀ group isTemporal,
      findGroup temporal spatial name = some (group, isTemporal) → InRange group isTemporal offset)
    (h : Emits c temporal spatial used {} s) {operand : Operand} {offset : Int} {group : LogicalMemoryGroup}
    (hGroup : findGroup temporal spatial operand.register = some (group, operand.isTemporal))
    (hFilled : OperandFilled c s.lines operand offset) :
    Fits c group operand.isTemporal offset := by
  intro hTemporal
  have hInv := consistent_of_emits h
  have hLanes := c.two_le_lanes
  have hWideEq : isWide c temporal spatial operand.register = isLargerThanVectorLength c group := by
    rw [isWide, hGroup]
  have hLast : (((c.numSimdLanes - 1 : Nat) : Int)) = c.numSimdLanes - 1 := by omega
  have hRead0 := hFilled 0 (by omega)
  have hRead1 := hFilled (c.numSimdLanes - 1) (by omega)
  rw [elementRead, hTemporal, if_pos rfl, Nat.cast_zero, zero_mul, add_zero, hInv.filled_iff, hWideEq]
    at hRead0
  rw [elementRead, hTemporal, if_pos rfl, hLast, hInv.filled_iff, hWideEq] at hRead1
  have hWithin {x : Int} (hx : chunkOf c x = 0) : 0 ≤ x ∧ x < c.numSimdLanes := by
    obtain ⟨hLower, hUpper⟩ := (Int.ediv_eq_iff_of_pos (by linarith)).mp hx
    exact ⟨by linarith, by linarith⟩
  have hContra (hZero0 : chunkOf c offset = 0)
      (hZero1 : chunkOf c (offset + (c.numSimdLanes - 1) * c.memoryOperationsStrideLength) = 0) :
      ¬ c.memoryOperationsStrideLength ≤ -2 := by
    intro hBack
    have hFirst := (hWithin hZero0).2
    have hNonneg := (hWithin hZero1).1
    nlinarith
  cases hWide : isLargerThanVectorLength c group with
  | true =>
    rw [hWide, if_pos rfl] at hRead0 hRead1
    refine ⟨?_, fun hNarrow => absurd hNarrow.symm Bool.false_ne_true⟩
    by_contra hNeg
    have hBack : c.memoryOperationsStrideLength ≤ -2 := by omega
    rw [hTemporal] at hGroup
    have hZero := backward_allocations hBack hRange h hGroup hWide
    exact hContra (hZero _ hRead0) (hZero _ hRead1) hBack
  | false =>
    rw [hWide, if_neg Bool.false_ne_true] at hRead0 hRead1
    refine ⟨?_, fun _ => ?_⟩
    · by_contra hNeg
      exact hContra hRead0.1 hRead1.1 (by omega)
    · rw [mul_comm]
      exact (hWithin hRead1.1).2

end Runs

section Statements

variable {simplify : Expr → Expr} {c : Compiler} {heap : Heap} {statements fused ordered : List TripletIRNode}
  {temporal spatial : ReuseGraph} {flag : Option Bool} {group : LogicalMemoryGroup} {name : String}
  {offset : Int} {isTemporal : Bool}

theorem find?_of_nodup {groups : List LogicalMemoryGroup} (hNodup : (groups.map (·.name)).Nodup)
    (hGroup : group ∈ groups) : groups.find? (·.name = group.name) = some group := by
  induction groups with
  | nil => cases hGroup
  | cons first groups ih =>
    rw [List.map_cons, List.nodup_cons] at hNodup
    rcases List.mem_cons.mp hGroup with rfl | hGroup
    · exact List.find?_cons_of_pos (decide_eq_true rfl)
    · have hNe : ¬ first.name = group.name :=
        fun hEq => hNodup.1 (hEq ▸ List.mem_map_of_mem hGroup)
      rw [List.find?_cons_of_neg (by simpa using hNe)]
      exact ih hNodup.2 hGroup

/-- Where the names are different, a group is found by its name. -/
theorem findGroup_of_mem (hNames : ((temporal.groups ++ spatial.groups).map (·.name)).Nodup)
    (hGroup : group ∈ (if isTemporal then temporal else spatial).groups) :
    findGroup temporal spatial group.name = some (group, isTemporal) := by
  rw [List.map_append, List.nodup_append] at hNames
  obtain ⟨hTemporal, hSpatial, hDisjoint⟩ := hNames
  unfold findGroup getLogicalMemoryGroupInformationGivenTheNameOfGroup
  cases isTemporal with
  | true => rw [find?_of_nodup hTemporal hGroup]
  | false =>
    have hNone : temporal.groups.find? (·.name = group.name) = none := by
      refine List.find?_eq_none.mpr fun other hOther hEq => ?_
      exact hDisjoint _ (List.mem_map_of_mem hOther) _ (List.mem_map_of_mem hGroup) (of_decide_eq_true hEq)
    rw [hNone]
    dsimp only
    rw [find?_of_nodup hSpatial hGroup]
    rfl

/-- The statements that are fused, each with its calls in any order. -/
def Reordered (fused ordered : List TripletIRNode) : Prop :=
  List.Forall₂ (fun result statement => ∃ macs : List AIVectorMacOperation,
    macs.Perm result.fusedVectorMacs ∧ statement = { result with fusedVectorMacs := macs }) fused ordered

/-- The operands have the offsets of members of their groups. -/
theorem inRange_of_used (hTemporal : TemporalGroups simplify c heap statements temporal flag)
    (hSpatial : SpatialGroups simplify c heap flag statements spatial) (hSimplify : SimplifySound simplify)
    (hSomeT : ∃ ρ, Runs heap temporal.loads ρ) (hSomeS : ∃ ρ, Runs heap spatial.loads ρ)
    (hFuse : fuseVectorMacOperations c temporal spatial flag statements = some fused)
    (hOrder : Reordered fused ordered) (hUsed : Used ordered name offset)
    (hGroup : findGroup temporal spatial name = some (group, isTemporal)) :
    InRange group isTemporal offset := by
  have hFound {load : LoadPtr} {found : GroupInformation}
      (hLoad : getLogicalMemoryGroupInformationGivenALoad temporal spatial load = some found)
      (hName : name = found.group.name) (hOffset : offset = found.offset) :
      InRange group isTemporal offset := by
    obtain ⟨hMem, hOffsetMem, -⟩ :=
      located_of_found hTemporal hSpatial hSimplify hSomeT hSomeS hLoad
    have hSame := findGroup_of_mem (names_nodup hTemporal hSpatial) hMem
    rw [← hName, hGroup] at hSame
    cases hSame
    rw [hOffset]
    cases hKind : found.isTemporal with
    | true =>
      rw [hKind, if_pos rfl] at hMem
      exact ⟨hTemporal.offset_nonneg hSimplify hSomeT _ hMem _ hOffsetMem, by simp⟩
    | false =>
      rw [hKind, if_neg Bool.false_ne_true] at hMem
      obtain ⟨hLower, hUpper⟩ := (hSpatial.located hSimplify hSomeS _ hMem).inside _ hOffsetMem
      exact ⟨hLower, fun _ => hUpper⟩
  obtain ⟨statement, hStatement, -, mac, hMac, offsets, hOffsets, hOperand⟩ := hUsed
  obtain ⟨result, hResult, macs, hPerm, rfl⟩ := Pointwise.exists_left hOrder hStatement
  obtain ⟨load1, load2, found1, found2, hLoad1, hLoad2, hName1, hOffset1, hName2, hOffset2⟩ :=
    found_of_product hTemporal hSpatial hFuse hResult (hPerm.mem_iff.mp hMac) hOffsets
  rcases hOperand with ⟨hName, hOffset⟩ | ⟨hName, hOffset⟩
  · exact hFound hLoad1 (hName.trans hName1) (hOffset.trans hOffset1)
  · exact hFound hLoad2 (hName.trans hName2) (hOffset.trans hOffset2)

/-- All operands fit where the vector loads are of one shape and do not run backwards. -/
theorem fits_of_uniform (hTemporal : TemporalGroups simplify c heap statements temporal flag)
    (hSimplify : SimplifySound simplify) (hSome : ∃ ρ, Runs heap temporal.loads ρ)
    (hUniform : ∀ load ∈ temporalLoads heap statements,
      (heap load).lanes = c.numSimdLanes ∧ (heap load).stride = c.memoryOperationsStrideLength)
    (hStride : 0 ≤ c.memoryOperationsStrideLength) :
    ∀ group ∈ temporal.groups, ∀ offset ∈ group.offsets, Fits c group true offset := by
  intro final hFinal offset hOffset _
  have hShape : ∀ a ∈ temporal.loads, Ramp (heap a) c.numSimdLanes c.memoryOperationsStrideLength := by
    intro a ha
    rw [hTemporal.loads] at ha
    exact ⟨ramp_of_mem_temporalLoads ha, hUniform a ha⟩
  obtain ⟨adj, -, hDivides⟩ := hTemporal.components
  obtain ⟨group, sized, count, hSized, -, hMapped⟩ := hTemporal.groups final hFinal
  have hSpans := spans_of_sized hSimplify hShape hSome
    (hDivides.nonempty _ (List.mem_map_of_mem hFinal)) hSized hMapped
  refine ⟨hStride, fun hNarrow => ?_⟩
  have hInside := (hSpans.inside offset hOffset).2
  rw [isLargerThanVectorLength, decide_eq_false_iff_not, not_lt] at hNarrow
  rw [mul_comm]
  linarith

end Statements

/-- The registers of a block are filled in time and once exactly if all of its operands
fit their registers. -/
theorem resident_iff {simplify : Expr → Expr} {c : Compiler} {heap : Heap}
    {statements fused ordered : List TripletIRNode} {temporal spatial : ReuseGraph} {flag : Option Bool}
    {eliminate : Bool} {lines : List Line} (hSimplify : SimplifySound simplify)
    (hSome : ∃ ρ, Runs heap (temporalLoads heap statements ++ spatialLoads heap statements) ρ)
    (hTemporal : buildTemporalReuseGraphAndLogicalMemoryGroups simplify c heap statements =
      some (temporal, flag))
    (hSpatial : buildSpatialReuseGraphAndLogicalMemoryGroups simplify c heap flag statements = some spatial)
    (hFuse : fuseVectorMacOperations c temporal spatial flag statements = some fused)
    (hOrder : Reordered fused ordered) (hStride : c.memoryOperationsStrideLength ≠ -1)
    (h : generateCode c heap ordered temporal spatial eliminate = some lines) :
    Resident c temporal spatial lines ↔ ∀ name offset, Used ordered name offset → ∀ group isTemporal,
      findGroup temporal spatial name = some (group, isTemporal) → Fits c group isTemporal offset := by
  obtain ⟨hT, hS, hSomeT, hSomeS⟩ := groups_of_build hSimplify hSome hTemporal hSpatial
  have hRange : ∀ name offset, Used ordered name offset → ∀ group isTemporal,
      findGroup temporal spatial name = some (group, isTemporal) → InRange group isTemporal offset :=
    fun name offset hUsed group isTemporal hGroup =>
      inRange_of_used hT hS hSimplify hSomeT hSomeS hFuse hOrder hUsed hGroup
  obtain ⟨⟨s, rfl, hEmits⟩, hCalls⟩ := emits_generateCode h
  constructor
  · rintro hResident name offset ⟨statement, hStatement, hPairs, mac, hMac, offsets, hOffsets, hOperand⟩
      group isTemporal hGroup
    obtain ⟨call, hCall, hName1, hName2, hColumn⟩ := hCalls statement hStatement hPairs mac hMac offsets hOffsets
    obtain ⟨⟨group1, hGroup1⟩, group2, hGroup2⟩ := operands_of_emits hEmits hCall offsets hColumn
    obtain ⟨before, after, hLines, hBefore⟩ := hResident.filled.of_mem hCall
    obtain ⟨hFilled1, hFilled2⟩ := hBefore call rfl offsets hColumn
    have hEarlier : before ⊆ s.lines := by
      rw [hLines]
      exact List.subset_append_left _ _
    have hAll {operand : Operand} {offset : Int} (hFilled : OperandFilled c before operand offset) :
        OperandFilled c s.lines operand offset := by
      intro lane hLane
      obtain ⟨line, hLine, hFills⟩ := hFilled lane hLane
      exact ⟨line, hEarlier hLine, hFills⟩
    rcases hOperand with ⟨rfl, rfl⟩ | ⟨rfl, rfl⟩
    · rw [← hName1, hGroup1] at hGroup
      cases hGroup
      exact fits_of_filled hStride hRange hEmits hGroup1 (hAll hFilled1)
    · rw [← hName2, hGroup2] at hGroup
      cases hGroup
      exact fits_of_filled hStride hRange hEmits hGroup2 (hAll hFilled2)
  · intro hFits
    exact resident_of_emits (fun name offset hUsed group isTemporal hGroup =>
      ⟨hRange name offset hUsed group isTemporal hGroup, hFits name offset hUsed group isTemporal hGroup⟩)
      hEmits

section Runs

theorem reordered_refl (statements : List TripletIRNode) : Reordered statements statements :=
  List.forall₂_same.mpr fun _ _ => ⟨_, List.Perm.refl _, rfl⟩

theorem generate_taps : ∃ lines,
    generateCode shorts tapsHeap tapsFused tapsTemporal tapsSpatial false = some lines :=
  Option.isSome_iff_exists.mp rfl

theorem resident_iff_taps : ∃ lines,
    generateCode shorts tapsHeap tapsFused tapsTemporal tapsSpatial false = some lines ∧
    (Resident shorts tapsTemporal tapsSpatial lines ↔ ∀ name offset, Used tapsFused name offset →
      ∀ group isTemporal, findGroup tapsTemporal tapsSpatial name = some (group, isTemporal) →
        Fits shorts group isTemporal offset) := by
  obtain ⟨lines, hLines⟩ := generate_taps
  exact ⟨lines, hLines, resident_iff SimplifySound.foldClosed
    ⟨⟨fun _ => 0, fun _ _ => none⟩, runs_taps _ _⟩ build_taps build_taps_spatial fuse_taps
    (reordered_refl _) (by decide) hLines⟩

/-- A product with every other element in reverse, `in[14 - 2 * x] * w[0]`, in eight
lanes of 32 bits. -/
def reversedHeap : Heap
  | 0 => { name := "in", index := .ramp (constant 14) (constant (-2)) 8 }
  | 1 => { name := "w", index := .scalar (constant 0) }
  | _ => { name := "out", index := .ramp (constant 0) (constant 1) 8 }

def reversed : List TripletIRNode := [{ initialLoads := [2], pairWiseLoads := [(0, 1)] }]

def words : Compiler where
  numSimdLanes := 8
  dataTypeSizeInBits := 32
  numSimdColumnsPerLane := 1
  memoryOperationsStrideLength := -2

def reversedTemporal : ReuseGraph where
  loads := [0]
  groups := [{ ids := [0], offsets := [0], name := "loads_temporal_group_" ++ toString 0
               extent := ⟨.expr (.imm .int32 14), .expr (.imm .int32 0)⟩, extentSize := -13 }]

theorem build_reversed : buildTemporalReuseGraphAndLogicalMemoryGroups Solve.foldClosed words reversedHeap
    reversed = some (reversedTemporal, some true) := rfl

/-- The register of the scalar is widened to sixteen elements. -/
def reversedSpatial : ReuseGraph where
  loads := [1]
  groups := [{ ids := [0], offsets := [0], name := "loads_spatial_group_" ++ toString 0, extentSize := 16
               extent := Interval.makeUnion ⟨.expr (.imm .int32 0), .expr (.imm .int32 7)⟩
                ⟨.expr (.add (.imm .int32 0) (.imm .int32 16)),
                  .expr (.sub (.add (.imm .int32 0) (.imm .int32 16)) (.imm .int32 1))⟩ }]

theorem build_reversed_spatial : buildSpatialReuseGraphAndLogicalMemoryGroups Solve.foldClosed words
    reversedHeap (some true) reversed = some reversedSpatial := rfl

def reversedFused : List TripletIRNode :=
  [{ initialLoads := [2], pairWiseLoads := [(0, 1)]
     fusedVectorMacs := [{ operand1GroupName := "loads_spatial_group_" ++ toString 0
                           operand2GroupName := "loads_temporal_group_" ++ toString 0
                           simdColumns := 1, simdLanes := 8, operandOffsets := [(0, 0)] }] }]

theorem fuse_reversed : fuseVectorMacOperations words reversedTemporal reversedSpatial (some true) reversed =
    some reversedFused := rfl

def reversedCall : Call where
  useMul := true
  stmtId := 0
  operand1 := { register := "loads_spatial_group_0", isTemporal := false
                coefficients := ⟨some 0, "0", "-1", some (-1), "-1"⟩ }
  operand2 := { register := "loads_temporal_group_0", isTemporal := true
                coefficients := ⟨some 0, "0x76543210", "-1", some (-1), "-1"⟩ }
  columns := [(0, 0)]

/-- The lines before the call: the register of the vector is filled with the elements
from 14 on. -/
def reversedLoads : List Line :=
  [.accumulator 0, .declare 16 "loads_spatial_group_0",
    .updW "loads_spatial_group_0" 0 "in_buffer" (.expr (.min (.add (.imm .int32 0) (.imm .int32 16)) (.imm .int32 0))),
    .load "loads_temporal_group_0" "w_buffer" (.expr (.imm .int32 14))]

def reversedLines : List Line :=
  reversedLoads ++ .call reversedCall ::
    [.initialLoad 0 "out_buffer" (constant 0), .addInitial 0, .store 0 "out_buffer" (constant 0)]

theorem generate_reversed : generateCode words reversedHeap reversedFused reversedTemporal reversedSpatial
    false = some reversedLines := rfl

/-- The second lane reads the element before the register. -/
theorem not_resident_reversed :
    buildTemporalReuseGraphAndLogicalMemoryGroups Solve.foldClosed words reversedHeap reversed =
      some (reversedTemporal, some true) ∧
    buildSpatialReuseGraphAndLogicalMemoryGroups Solve.foldClosed words reversedHeap (some true) reversed =
      some reversedSpatial ∧
    fuseVectorMacOperations words reversedTemporal reversedSpatial (some true) reversed = some reversedFused ∧
    generateCode words reversedHeap reversedFused reversedTemporal reversedSpatial false =
      some reversedLines ∧
    ¬ Resident words reversedTemporal reversedSpatial reversedLines := by
  refine ⟨build_reversed, build_reversed_spatial, fuse_reversed, generate_reversed, fun hResident => ?_⟩
  have hFilled := (hResident.filled reversedLoads (.call reversedCall) _ rfl reversedCall rfl (0, 0)
    List.mem_cons_self).2 1 (by decide)
  obtain ⟨line, hLine, hFills⟩ := hFilled
  have hNone : ∀ line ∈ reversedLoads, line.fills "loads_temporal_group_0" (-1) = false := by
    simp [reversedLoads, Line.fills]
  exact Bool.false_ne_true ((hNone line hLine).symm.trans hFills)

end Runs

end Vyasa.AICore
