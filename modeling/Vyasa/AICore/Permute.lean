import Vyasa.AICore.Parser
import Mathlib.Tactic.IntervalCases

/-! The coefficients of the permute network, as hexadecimal numbers in the text of a
call, and the elements that the network selects for them. -/
namespace Vyasa.AICore

section Code

/-- The texts that `GetPermuteCoefficients` sets. A number is printed by `to_string`;
what is not set is `none` or empty. -/
structure PermuteCoefficients where
  start : Option Int := none
  offsetLo : String := ""
  offsetHi : String := ""
  step : Option Int := none
  miniSquare : String := ""
deriving DecidableEq, Repr

def getHexValueOfaDigit (digit : Int) : Option String :=
  if 0 ≤ digit ∧ digit < 16 then
    some (if digit ≤ 9 then toString digit
      else if digit = 10 then "A"
      else if digit = 11 then "B"
      else if digit = 12 then "C"
      else if digit = 13 then "D"
      else if digit = 14 then "E"
      else "F")
  else none

def reverse (s : String) : String := String.ofList s.toList.reverse

/-- One of the two loops over the lanes, from this lane on, and the reversal after it. -/
def offsetText (offsetFromStart stride miniSquareLaneIncrement : Int) (lane : Int) : Option String := do
  let digits ← [lane, lane + 2, lane + 4, lane + 6].foldlM (fun text i => do
    let offset ← getHexValueOfaDigit ((offsetFromStart + i * stride).tdiv 2)
    let increment ← getHexValueOfaDigit miniSquareLaneIncrement
    return text ++ (offset ++ increment)) ""
  return reverse (digits ++ "x0")

/-- `mini_square` and `mini_square_lane_increment` -/
def miniSquareAndLaneIncrement (stride offsetStep offsetFromStart : Int) : Option (String × Int) :=
  if stride = offsetStep then some ("0x2110", 0)
  else if stride.tmod 2 = 0 then some ("0x3210", (stride - 2 - 2 * offsetFromStart).tdiv 2)
  else none

def getPermuteCoefficients (c : Compiler) (offsetFromMemoryGroupBase offsetStep : Int)
    (isOperandLoadInTemporalGroup : Bool) : Option PermuteCoefficients :=
  if c.numSimdLanes = 8 ∧ c.dataTypeSizeInBits = 32 then
    some { start := some offsetFromMemoryGroupBase
           offsetLo := if isOperandLoadInTemporalGroup then "0x76543210" else "0"
           offsetHi := "-1", step := some (-1), miniSquare := "-1" }
  else if c.numSimdLanes = 16 ∧ c.dataTypeSizeInBits = 16 then
    if isOperandLoadInTemporalGroup then do
      let accessGranularity : Int := (32 / c.dataTypeSizeInBits : Nat)
      let start := offsetFromMemoryGroupBase.tdiv accessGranularity * accessGranularity
      let offsetFromStart := offsetFromMemoryGroupBase - start
      guard (offsetFromStart.tmod 2 = 0)
      let stride := c.memoryOperationsStrideLength
      let square ← miniSquareAndLaneIncrement stride offsetStep offsetFromStart
      let offsetLo ← offsetText offsetFromStart stride square.2 0
      let offsetHi ← offsetText offsetFromStart stride square.2 8
      return ⟨some start, offsetLo, offsetHi, some offsetStep, square.1⟩
    else if offsetStep = -1 then none
    else some { start := some offsetFromMemoryGroupBase, offsetLo := toString (0 : Int)
                offsetHi := toString (0 : Int), step := some offsetStep, miniSquare := "-1" }
  else some {}

end Code

section Network

def hexValue (ch : Char) : Option Nat :=
  if '0' ≤ ch ∧ ch ≤ '9' then some (ch.toNat - '0'.toNat)
  else if 'A' ≤ ch ∧ ch ≤ 'F' then some (ch.toNat - 'A'.toNat + 10)
  else none

/-- The digits of a hexadecimal literal, the least significant one first. -/
def nibbles (text : String) : Option (List Nat) :=
  match text.toList with
  | '0' :: 'x' :: digits => digits.reverse.mapM hexValue
  | _ => none

/-- The element of the register that a lane reads in a column. A pair of lanes selects
two pairs of elements, and the mini square selects from these four. -/
def laneElement (p : PermuteCoefficients) (lane column : Nat) : Option Int := do
  let start ← p.start
  let o := (← nibbles p.offsetLo) ++ (← nibbles p.offsetHi)
  let s ← nibbles p.miniSquare
  let first ← o[lane / 2 * 2]?
  let second ← o[lane / 2 * 2 + 1]?
  let a := start + 2 * first
  let b := start + 2 * (first + second + 1)
  [a, a + 1, b, b + 1][← s[lane % 2 * 2 + column]?]?

end Network

section Accepted

variable {c : Compiler} {offset step stride increment lane : Int} {p : PermuteCoefficients} {text : String}

theorem digit_of_getHexValueOfaDigit {digit : Int} (h : getHexValueOfaDigit digit = some text) :
    0 ≤ digit ∧ digit < 16 := by
  unfold getHexValueOfaDigit at h
  split_ifs at h with hDigit <;> exact hDigit

/-- The offset of the last pair of lanes is a digit. -/
theorem digit_of_offsetText (h : offsetText 0 stride increment lane = some text) :
    ((lane + 6) * stride).tdiv 2 < 16 := by
  obtain ⟨digits, hDigits, -⟩ := Option.bind_eq_some_iff.mp h
  obtain ⟨text₁, -, hDigits⟩ := Option.bind_eq_some_iff.mp hDigits
  obtain ⟨text₂, -, hDigits⟩ := Option.bind_eq_some_iff.mp hDigits
  obtain ⟨text₃, -, hDigits⟩ := Option.bind_eq_some_iff.mp hDigits
  obtain ⟨text₄, hLast, -⟩ := Option.bind_eq_some_iff.mp hDigits
  obtain ⟨offset, hOffset, -⟩ := Option.bind_eq_some_iff.mp hLast
  have hDigit := (digit_of_getHexValueOfaDigit hOffset).2
  rwa [zero_add] at hDigit

/-- The register starts at the even number that is not beyond the offset, and an odd
offset is not accepted. -/
theorem offsetFromStart_eq_zero (h : (offset - offset.tdiv 2 * 2).tmod 2 = 0) :
    offset.tdiv 2 * 2 = offset := by
  have hDiv := Int.mul_tdiv_add_tmod offset 2
  have hLess := Int.tmod_lt_of_pos offset (by norm_num : (0 : Int) < 2)
  have hGreater := Int.lt_tmod_of_pos offset (by norm_num : (0 : Int) < 2)
  have hEq : offset - offset.tdiv 2 * 2 = offset.tmod 2 := by omega
  rw [hEq] at h
  have hZero : offset.tmod 2 = 0 := by
    interval_cases offset.tmod 2
    · exact absurd h (by decide)
    · rfl
    · exact absurd h (by decide)
  omega

/-- The few coefficients that the encoding can express, for strides of one and two. -/
theorem permute_cases (hBits : c.numSimdLanes = 16) (hStride : 1 ≤ c.memoryOperationsStrideLength)
    (h : getPermuteCoefficients c offset step true = some p) :
    (c.memoryOperationsStrideLength = 1 ∧ step = 1 ∧
      p = ⟨some offset, "0x03020100", "0x07060504", some step, "0x2110"⟩) ∨
    (c.memoryOperationsStrideLength = 2 ∧ step = 2 ∧
      p = ⟨some offset, "0x06040200", "0x0E0C0A08", some step, "0x2110"⟩) ∨
    (c.memoryOperationsStrideLength = 2 ∧ step ≠ 2 ∧
      p = ⟨some offset, "0x06040200", "0x0E0C0A08", some step, "0x3210"⟩) := by
  have hShape : c.dataTypeSizeInBits = 16 := by
    rcases c.shape with ⟨h8, -⟩ | ⟨h8, -⟩ | ⟨-, h16, -⟩ <;> omega
  rw [getPermuteCoefficients, if_neg (by omega), if_pos ⟨hBits, hShape⟩, if_pos rfl, hShape] at h
  obtain ⟨_, hGuard, h⟩ := Option.bind_eq_some_iff.mp h
  obtain ⟨⟨mini, increment⟩, hMini, h⟩ := Option.bind_eq_some_iff.mp h
  obtain ⟨lo, hLo, h⟩ := Option.bind_eq_some_iff.mp h
  obtain ⟨hi, hHi, h⟩ := Option.bind_eq_some_iff.mp h
  cases h
  rw [Option.guard_eq_some'] at hGuard
  have hStart : offset.tdiv ((32 / 16 : Nat) : Int) * ((32 / 16 : Nat) : Int) = offset :=
    offsetFromStart_eq_zero hGuard
  rw [hStart, sub_self] at hLo hHi hMini
  rw [hStart]
  have hLast := digit_of_offsetText hHi
  generalize c.memoryOperationsStrideLength = stride at *
  have hSmall : stride = 1 ∨ stride = 2 := by
    have hMul : (8 + 6 : Int) * stride = 2 * (7 * stride) := by ring
    rw [hMul, Int.mul_tdiv_cancel_left _ (by norm_num)] at hLast
    omega
  unfold miniSquareAndLaneIncrement at hMini
  rcases hSmall with rfl | rfl
  · split_ifs at hMini with hEq hEven
    · cases hMini
      have hLoText : offsetText 0 1 0 0 = some "0x03020100" := by decide
      have hHiText : offsetText 0 1 0 8 = some "0x07060504" := by decide
      cases hLo.symm.trans hLoText
      cases hHi.symm.trans hHiText
      exact Or.inl ⟨rfl, hEq.symm, rfl⟩
    · exact absurd hEven (by decide)
  · have hLoText : offsetText 0 2 0 0 = some "0x06040200" := by decide
    have hHiText : offsetText 0 2 0 8 = some "0x0E0C0A08" := by decide
    split_ifs at hMini with hEq
    · cases hMini
      cases hLo.symm.trans hLoText
      cases hHi.symm.trans hHiText
      exact Or.inr (Or.inl ⟨rfl, hEq.symm, rfl⟩)
    · cases hMini
      cases hLo.symm.trans hLoText
      cases hHi.symm.trans hHiText
      exact Or.inr (Or.inr ⟨rfl, Ne.symm hEq, rfl⟩)

end Accepted

section Elements

variable {c : Compiler} {offset step : Int} {p : PermuteCoefficients}

/-- The elements move with the start. -/
theorem laneElement_start (start : Int) (lo hi mini : String) (st : Option Int) (lane column : Nat) :
    laneElement ⟨some start, lo, hi, st, mini⟩ lane column =
      (laneElement ⟨some 0, lo, hi, none, mini⟩ lane column).map (start + ·) := by
  have hList (first second : Nat) : [start + 2 * (first : Int), start + 2 * first + 1,
      start + 2 * (first + second + 1), start + 2 * (first + second + 1) + 1] =
      [(0 : Int) + 2 * first, 0 + 2 * first + 1, 0 + 2 * (first + second + 1),
        0 + 2 * (first + second + 1) + 1].map (start + ·) := by
    simp only [List.map_cons, List.map_nil, zero_add, add_assoc]
  simp only [laneElement, Option.bind_eq_bind, Option.bind_some, hList, List.getElem?_map,
    Option.map_bind, Function.comp_def]

/-- What the three encodings select, in order of the lanes and columns. -/
theorem laneElement_encodings :
    (∀ lane < 16, ∀ column < 2, laneElement ⟨some 0, "0x03020100", "0x07060504", none, "0x2110"⟩ lane column =
      some (lane * 1 + column : Int)) ∧
    (∀ lane < 16, ∀ column < 2, laneElement ⟨some 0, "0x06040200", "0x0E0C0A08", none, "0x3210"⟩ lane column =
      some (lane * 2 + column : Int)) ∧
    laneElement ⟨some 0, "0x06040200", "0x0E0C0A08", none, "0x2110"⟩ 0 1 = some 1 := by
  refine ⟨?_, ?_, ?_⟩ <;> decide

/-- The lanes of a temporal operand read the elements that the offset, the stride and
the step ask for exactly if the step is one. -/
theorem permute_reads_iff (hLanes : c.numSimdLanes = 16) (hStride : 1 ≤ c.memoryOperationsStrideLength)
    (h : getPermuteCoefficients c offset step true = some p) :
    (∀ lane < 16, ∀ column < 2, laneElement p lane column =
      some (offset + lane * c.memoryOperationsStrideLength + column * step)) ↔ step = 1 := by
  obtain ⟨hOne, hTwo, hOverlap⟩ := laneElement_encodings
  have hReads {s : Int} {lo hi mini : String} (hEncoding : ∀ lane < 16, ∀ column < 2,
      laneElement ⟨some 0, lo, hi, none, mini⟩ lane column = some (lane * s + column : Int)) :
      (∀ lane < 16, ∀ column < 2, laneElement ⟨some offset, lo, hi, some step, mini⟩ lane column =
        some (offset + lane * s + column * step)) ↔ step = 1 := by
    constructor
    · intro hAll
      have hSecond := hAll 0 (by norm_num) 1 (by norm_num)
      rw [laneElement_start, hEncoding 0 (by norm_num) 1 (by norm_num), Option.map_some,
        Option.some.injEq] at hSecond
      push_cast at hSecond
      omega
    · rintro rfl lane hLane column hColumn
      rw [laneElement_start, hEncoding lane hLane column hColumn, Option.map_some, mul_one, add_assoc]
  rcases permute_cases hLanes hStride h with ⟨hs, -, rfl⟩ | ⟨hs, rfl, rfl⟩ | ⟨hs, -, rfl⟩
  · rw [hs]
    exact hReads hOne
  · refine iff_of_false (fun hAll => ?_) (by norm_num)
    have hSecond := hAll 0 (by norm_num) 1 (by norm_num)
    rw [laneElement_start, hOverlap, Option.map_some, Option.some.injEq] at hSecond
    push_cast at hSecond
    omega
  · rw [hs]
    exact hReads hTwo

/-- Sixteen lanes of 16 bits. -/
def sixteen (stride : Int) : Compiler where
  numSimdLanes := 16
  dataTypeSizeInBits := 16
  numSimdColumnsPerLane := 2
  columns := columns_sixteen
  memoryOperationsStrideLength := stride

/-- The second product of a row, from element 2 on. -/
theorem permute_reads_row : (∀ lane < 16, ∀ column < 2,
    laneElement ⟨some 2, "0x03020100", "0x07060504", some 1, "0x2110"⟩ lane column =
      some (2 + lane * 1 + column * 1 : Int)) ↔ (1 : Int) = 1 :=
  permute_reads_iff (c := sixteen 1) rfl le_rfl (by decide)

/-- With a stride of two and a step of two, the second column of the first lane reads
element 1; so it does with a step of three. -/
theorem permute_reads_strided :
    (∃ p, getPermuteCoefficients (sixteen 2) 0 2 true = some p ∧ laneElement p 0 1 = some 1 ∧
      laneElement p 0 1 ≠ some (0 + 0 * 2 + 1 * 2)) ∧
    ∃ p, getPermuteCoefficients (sixteen 2) 0 3 true = some p ∧ laneElement p 0 1 = some 1 ∧
      laneElement p 0 1 ≠ some (0 + 0 * 2 + 1 * 3) := by
  refine ⟨⟨⟨some 0, "0x06040200", "0x0E0C0A08", some 2, "0x2110"⟩, ?_⟩,
    ⟨some 0, "0x06040200", "0x0E0C0A08", some 3, "0x3210"⟩, ?_⟩ <;> decide

end Elements

end Vyasa.AICore
