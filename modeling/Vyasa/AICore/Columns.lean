import Vyasa.AICore.Parser
import Mathlib.Algebra.Group.Prod

/-! The check that the products fused into the columns of a lane lie a constant step
apart. The step is compared inside a chunk of columns only, and that of the last chunk
is returned for all. -/
namespace Vyasa.AICore

/-- The locals of the loop, for both operands. -/
structure Steps where
  offsetPrev : Int × Int := (-1, -1)
  stepPrev : Int × Int := (-1, -1)

/-- One turn of the loop. -/
def validateStep (columns : Nat) (s : Nat × Steps) (vectorMac : Int × Int) : Option (Nat × Steps) := do
  let stepCur := (vectorMac.1 - s.2.offsetPrev.1, vectorMac.2 - s.2.offsetPrev.2)
  let stepPrev ←
    if s.1 % columns ≠ 0 then
      if s.1 % columns = 1 then some stepCur
      else if stepCur.1 = s.2.stepPrev.1 ∧ stepCur.2 = s.2.stepPrev.2 then some s.2.stepPrev
      else none
    else some s.2.stepPrev
  return (s.1 + 1, ⟨vectorMac, stepPrev⟩)

def validateOffsetsAndReturnStepOfFusedMACOperations (columns : Nat) (offsets : List (Int × Int)) :
    Option (Int × Int) := do
  guard (offsets.length % columns = 0)
  let s ← offsets.foldlM (validateStep columns) (0, {})
  return s.2.stepPrev

variable {columns : Nat} {offsets : List (Int × Int)} {step : Int × Int} {s s' : Steps} {j j' k c : Nat}

/-- The offsets of one product, which are read within bounds. -/
def offsetAt (offsets : List (Int × Int)) (i : Nat) : Int × Int := offsets.getD i 0

/-- Before the product with this number: the locals hold what the products before it
leave, and steps agree inside each chunk so far. -/
structure Uniform (columns : Nat) (offsets : List (Int × Int)) (j : Nat) (s : Steps) : Prop where
  offset : ∀ i, j = i + 1 → s.offsetPrev = offsetAt offsets i
  step : ∀ i, i + 1 < j → (i + 1) % columns ≠ 0 → (∀ l, i + 1 < l → l < j → l % columns = 0) →
    s.stepPrev = offsetAt offsets (i + 1) - offsetAt offsets i
  agree : ∀ i, i + 2 < j → 2 ≤ (i + 2) % columns →
    offsetAt offsets (i + 2) - offsetAt offsets (i + 1) = offsetAt offsets (i + 1) - offsetAt offsets i

theorem uniform_zero : Uniform columns offsets 0 {} where
  offset := by simp
  step := by simp
  agree := by simp

/-- The number before one inside a chunk is in the same chunk. -/
theorem pred_mod {i : Nat} (h : (i + 1) % columns ≠ 0) (hColumns : 2 ≤ columns) :
    i % columns = (i + 1) % columns - 1 := by
  have hLess : i % columns < columns := Nat.mod_lt i (by omega)
  have hSucc := Nat.add_mod i 1 columns
  rw [Nat.mod_eq_of_lt (by omega : 1 < columns)] at hSucc
  rcases Nat.lt_or_ge (i % columns + 1) columns with hIn | hOut
  · rw [Nat.mod_eq_of_lt hIn] at hSucc
    omega
  · have hEq : i % columns + 1 = columns := by omega
    rw [hEq, Nat.mod_self] at hSucc
    exact absurd hSucc h

/-- What one turn of the loop can do. -/
theorem validateStep_cases {vectorMac : Int × Int}
    (h : validateStep columns (j, s) vectorMac = some (j', s')) :
    j' = j + 1 ∧ s'.offsetPrev = vectorMac ∧
      (j % columns = 0 → s'.stepPrev = s.stepPrev) ∧
      (j % columns ≠ 0 → s'.stepPrev = vectorMac - s.offsetPrev) ∧
      (2 ≤ j % columns → s.stepPrev = vectorMac - s.offsetPrev) := by
  simp only [validateStep] at h
  split_ifs at h with hChunk hFirst hSame
  · cases h
    exact ⟨rfl, rfl, fun h0 => absurd h0 hChunk, fun _ => rfl, fun h2 => by omega⟩
  · cases h
    have hEq : s.stepPrev = vectorMac - s.offsetPrev := (Prod.ext hSame.1 hSame.2).symm
    exact ⟨rfl, rfl, fun h0 => absurd h0 hChunk, fun _ => hEq, fun _ => hEq⟩
  · cases h
  · cases h
    exact ⟨rfl, rfl, fun _ => rfl, fun h0 => absurd h0 hChunk, fun h2 => by omega⟩

theorem uniform_step (hColumns : 2 ≤ columns) (hInv : Uniform columns offsets j s)
    (h : validateStep columns (j, s) (offsetAt offsets j) = some (j', s')) :
    j' = j + 1 ∧ Uniform columns offsets (j + 1) s' := by
  obtain ⟨hj, hOffset, hStart, hInside, hLater⟩ := validateStep_cases h
  refine ⟨hj, ⟨fun i hi => ?_, fun i hi hChunk hLast => ?_, fun i hi hChunk => ?_⟩⟩
  · cases hi
    exact hOffset
  · rcases Nat.lt_or_ge (i + 1) j with hLess | hGe
    · rw [hStart (hLast j hLess (Nat.lt_succ_self j))]
      exact hInv.step i hLess hChunk fun l hl hlj => hLast l hl (by omega)
    · have hEq : j = i + 1 := by omega
      subst hEq
      rw [hInside hChunk, hInv.offset i rfl]
  · rcases Nat.lt_or_ge (i + 2) j with hLess | hGe
    · exact hInv.agree i hLess hChunk
    · have hEq : j = i + 2 := by omega
      subst hEq
      have hNe : (i + 2) % columns ≠ 0 := by omega
      have hPred : (i + 1) % columns = (i + 2) % columns - 1 := pred_mod hNe hColumns
      rw [← hInv.step i (by omega) (by omega) fun l hl hlj => by omega, hLater hChunk,
        hInv.offset (i + 1) rfl]

/-- The loop keeps the invariant up to the last product. -/
theorem uniform_foldlM (hColumns : 2 ≤ columns) (hInv : Uniform columns offsets j s)
    (hLess : j ≤ offsets.length)
    (h : (offsets.drop j).foldlM (validateStep columns) (j, s) = some (j', s')) :
    Uniform columns offsets offsets.length s' := by
  induction hRest : offsets.drop j generalizing j s with
  | nil =>
    have hLength : offsets.length ≤ j := List.drop_eq_nil_iff.mp hRest
    rw [hRest] at h
    cases h
    exact (Nat.le_antisymm hLess hLength) ▸ hInv
  | cons mac rest ih =>
    have hIn : j < offsets.length := by
      have hLength := congrArg List.length hRest
      rw [List.length_drop, List.length_cons] at hLength
      omega
    rw [List.drop_eq_getElem_cons hIn] at h
    obtain ⟨⟨j₁, s₁⟩, hStep, h⟩ := Option.bind_eq_some_iff.mp h
    have hAt : offsets[j] = offsetAt offsets j := (List.getD_eq_getElem offsets 0 hIn).symm
    rw [hAt] at hStep
    obtain ⟨rfl, hNext⟩ := uniform_step hColumns hInv hStep
    have hTail : offsets.drop (j + 1) = rest := by
      rw [List.drop_eq_getElem_cons hIn] at hRest
      exact (List.cons.inj hRest).2
    exact ih hNext hIn h hTail

/-- Steps agree inside a chunk that the loop has passed. -/
theorem diff_in_chunk (hInv : Uniform columns offsets offsets.length s)
    (hBound : k * columns + columns ≤ offsets.length) (hc : c + 1 < columns) :
    offsetAt offsets (k * columns + c + 1) - offsetAt offsets (k * columns + c) =
      offsetAt offsets (k * columns + 1) - offsetAt offsets (k * columns) := by
  induction c with
  | zero => rfl
  | succ c ih =>
    have hMod : (k * columns + c + 2) % columns = c + 2 := by
      rw [Nat.add_assoc, Nat.mul_comm, Nat.mul_add_mod, Nat.mod_eq_of_lt (by omega)]
    have hAgree := hInv.agree (k * columns + c) (by omega) (by omega)
    exact hAgree.trans (ih (by omega))

/-- The products of a chunk lie the step of its first two apart. -/
theorem offset_in_chunk (hInv : Uniform columns offsets offsets.length s)
    (hBound : k * columns + columns ≤ offsets.length) (hc : c < columns) :
    offsetAt offsets (k * columns + c) = offsetAt offsets (k * columns) +
      (c : Int) • (offsetAt offsets (k * columns + 1) - offsetAt offsets (k * columns)) := by
  induction c with
  | zero => simp
  | succ c ih =>
    have hStep := diff_in_chunk hInv hBound hc
    have hEq : offsetAt offsets (k * columns + (c + 1)) = offsetAt offsets (k * columns + c) +
        (offsetAt offsets (k * columns + 1) - offsetAt offsets (k * columns)) := by
      rw [← hStep]
      exact (add_sub_cancel _ _).symm
    rw [hEq, ih (by omega)]
    push_cast
    rw [add_smul, one_smul, add_assoc]

/-- The returned step is that of the last chunk. -/
theorem step_of_last (hColumns : 2 ≤ columns) (hInv : Uniform columns offsets offsets.length s)
    (hLength : k * columns + columns = offsets.length) :
    s.stepPrev = offsetAt offsets (k * columns + 1) - offsetAt offsets (k * columns) := by
  obtain ⟨c, rfl⟩ : ∃ c, columns = c + 2 := ⟨columns - 2, by omega⟩
  have hMod : (k * (c + 2) + c + 1) % (c + 2) = c + 1 := by
    rw [Nat.add_assoc, Nat.mul_comm, Nat.mul_add_mod, Nat.mod_eq_of_lt (by omega)]
  rw [← diff_in_chunk hInv hLength.le (c := c) (by omega)]
  exact hInv.step (k * (c + 2) + c) (by omega) (by omega) fun l hl hlLess => by omega

theorem chunk_bound (hk : k < offsets.length / columns) : k * columns + columns ≤ offsets.length := by
  have hMul := Nat.mul_le_mul_right columns (Nat.succ_le_of_lt hk)
  rw [Nat.succ_mul] at hMul
  exact hMul.trans (Nat.div_mul_le_self _ _)

/-- All products of all chunks lie the returned step apart, which the generated calls
rely on. -/
def StepsApart (columns : Nat) (offsets : List (Int × Int)) (step : Int × Int) : Prop :=
  ∀ k < offsets.length / columns, ∀ c < columns,
    (offsetAt offsets (k * columns + c)).1 = (offsetAt offsets (k * columns)).1 + c * step.1 ∧
    (offsetAt offsets (k * columns + c)).2 = (offsetAt offsets (k * columns)).2 + c * step.2

/-- The step between the first two products of a chunk. -/
def firstStep (columns : Nat) (offsets : List (Int × Int)) (k : Nat) : Int × Int :=
  offsetAt offsets (k * columns + 1) - offsetAt offsets (k * columns)

/-- What an accepted list of offsets is: whole chunks, each of them uniform. The steps
that are returned fit all chunks exactly if every chunk starts with the step that the
last one starts with. -/
theorem validateOffsets_steps_iff (hColumns : 2 ≤ columns)
    (h : validateOffsetsAndReturnStepOfFusedMACOperations columns offsets = some step) :
    columns ∣ offsets.length ∧
    (StepsApart columns offsets step ↔ ∀ k < offsets.length / columns,
      firstStep columns offsets k = firstStep columns offsets (offsets.length / columns - 1)) := by
  obtain ⟨_, hDvd, h⟩ := Option.bind_eq_some_iff.mp h
  obtain ⟨⟨n, s⟩, hLoop, h⟩ := Option.bind_eq_some_iff.mp h
  cases h
  rw [Option.guard_eq_some'] at hDvd
  have hInv := uniform_foldlM (j := 0) hColumns uniform_zero (Nat.zero_le _) hLoop
  refine ⟨Nat.dvd_of_mod_eq_zero hDvd, ?_⟩
  rcases Nat.eq_zero_or_pos (offsets.length / columns) with hZero | hPos
  · simp [StepsApart, hZero]
  have hLast : (offsets.length / columns - 1) * columns + columns = offsets.length := by
    rw [← Nat.succ_mul, Nat.succ_eq_add_one, Nat.sub_add_cancel hPos,
      Nat.div_mul_cancel (Nat.dvd_of_mod_eq_zero hDvd)]
  have hStep : s.stepPrev = firstStep columns offsets (offsets.length / columns - 1) :=
    step_of_last hColumns hInv hLast
  dsimp only
  rw [hStep]
  constructor
  · intro hApart k hk
    obtain ⟨h1, h2⟩ := hApart k hk 1 hColumns
    have hFirst : offsetAt offsets (k * columns + 1) = offsetAt offsets (k * columns) +
        firstStep columns offsets (offsets.length / columns - 1) := by
      refine Prod.ext ?_ ?_
      · rw [h1, Prod.fst_add]
        push_cast
        ring
      · rw [h2, Prod.snd_add]
        push_cast
        ring
    rw [firstStep, hFirst, add_sub_cancel_left]
  · intro hSame k hk c hc
    have hOffset := offset_in_chunk hInv (chunk_bound hk) hc
    have hFirst : offsetAt offsets (k * columns + 1) - offsetAt offsets (k * columns) =
        firstStep columns offsets (offsets.length / columns - 1) := hSame k hk
    rw [hFirst] at hOffset
    rw [hOffset]
    exact ⟨rfl, rfl⟩

def row : List (Int × Int) := [(0, 0), (1, 1), (2, 2), (3, 3)]

/-- Four taps in a row, in chunks of two. -/
theorem validateOffsets_steps_row : 2 ∣ row.length ∧ (StepsApart 2 row (1, 1) ↔
    ∀ k < row.length / 2, firstStep 2 row k = firstStep 2 row (row.length / 2 - 1)) := by
  have hRow : validateOffsetsAndReturnStepOfFusedMACOperations 2 row = some (1, 1) := by decide
  exact validateOffsets_steps_iff le_rfl hRow

/-- Four taps with a gap are accepted, with a step that does not fit the first chunk. -/
theorem validateOffsets_gap :
    validateOffsetsAndReturnStepOfFusedMACOperations 2 [(0, 0), (1, 1), (2, 2), (4, 4)] = some (2, 2) ∧
      ¬ StepsApart 2 [(0, 0), (1, 1), (2, 2), (4, 4)] (2, 2) := by
  refine ⟨by decide, fun h => ?_⟩
  have hFirst := (h 0 (by decide) 1 (by decide)).1
  exact absurd hFirst (by decide)

end Vyasa.AICore
