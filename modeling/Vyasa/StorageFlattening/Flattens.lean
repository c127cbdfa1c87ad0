import Vyasa.StorageFlattening.Access

/-! Storage is flattened right exactly where the rounded extents and the differences from the mins
do not wrap around. -/
namespace Vyasa.StorageFlattening

open Word IRMatch Vyasa.Expr

variable {large : Bool} {f : Func} {r : Realize} {ρ : Env} {mins extents : Nat → Int}
  {alignments : Nat → Option Int}

/-- The index of every access lies in the allocation, and two accesses have the same index where
they have the same coordinates, however their arguments are written. -/
def Flattens (large : Bool) (f : Func) (r : Realize) (ρ : Env) : Prop :=
  ∃ s ρ' sizes, visitRealize f r = some s ∧ s.enter ρ = some (ρ', sizes) ∧
    (∀ σ args x, Access f r ρ' σ args x →
      ∃ i, eval .wrapping σ (flattenArgs large r.name true args) = some i ∧ 0 ≤ i ∧ i < sizes.prod) ∧
    ∀ σ σ' args args' x x', Access f r ρ' σ args x → Access f r ρ' σ' args' x' →
      (eval .wrapping σ (flattenArgs large r.name true args) =
        eval .wrapping σ' (flattenArgs large r.name true args') ↔ ∀ j < f.args.length, x j = x' j)

section Exact

/-- What holds of the body of a realization. -/
private theorem entered (hEval : Evaluates f r ρ mins extents alignments)
    (hSizes : Sizes f.args.length extents alignments) :
    ∃ s ρ', visitRealize f r = some s ∧
      s.enter ρ = some (ρ', (List.range f.args.length).map fun j => machinePadded (extents j) (alignments j)) ∧
      Shaped f r mins extents (fun j => machinePadded (extents j) (alignments j)) ρ' :=
  enter_visitRealize hEval fun j hj a ha => (hSizes.alignment_pos j hj a ha).1.ne'

private theorem Evaluates.mins_has (h : Evaluates f r ρ mins extents alignments) :
    ∀ j < f.args.length, IntType.int32.Has (mins j) := fun j hj =>
  (h.min j _ (List.getElem?_eq_getElem (h.length ▸ hj))).has

private theorem Evaluates.extents_has (h : Evaluates f r ρ mins extents alignments)
    (hSizes : Sizes f.args.length extents alignments) :
    ∀ j < f.args.length, 0 < extents j ∧ IntType.int32.Has (extents j) := fun j hj =>
  ⟨(hSizes.extent_pos j hj).1, (h.extent j _ (List.getElem?_eq_getElem (h.length ▸ hj))).has⟩

private theorem Sizes.covers (h : Sizes f.args.length extents alignments)
    (hRounds : ∀ j < f.args.length, ∀ a ∈ alignments j, Rounds (extents j) a) :
    Covers f.args.length extents fun j => machinePadded (extents j) (alignments j) :=
  ⟨fun j hj => (h.extent_pos j hj).1, (h.covered hRounds).1, (h.covered hRounds).2⟩

/-- A padded extent that cannot be rounded up leaves no room for any index. -/
theorem rounds_of_flattens (hEval : Evaluates f r ρ mins extents alignments)
    (hSizes : Sizes f.args.length extents alignments) (h : Flattens large f r ρ) :
    ∀ j < f.args.length, ∀ a ∈ alignments j, Rounds (extents j) a := by
  obtain ⟨s, ρ', hVisit, hEnter, hShaped⟩ := entered hEval hSizes
  obtain ⟨s', ρ'', sizes, hVisit', hEnter', hIndex, -⟩ := h
  obtain rfl := Option.some.inj (hVisit.symm.trans hVisit')
  obtain ⟨rfl, rfl⟩ := Prod.mk.inj (Option.some.inj (hEnter.symm.trans hEnter'))
  intro j hj a ha
  by_contra hNot
  have hAccess : Access f r ρ' (shapeEnv ρ') ((List.range f.args.length).map fun j => imm .int32 (mins j)) mins :=
    access_mins hShaped hEval.mins_has (hEval.extents_has hSizes) (fun j hj => ⟨hEval.mins_has j hj, rfl⟩) fun _ _ => rfl
  obtain ⟨i, -, hNonneg, hLt⟩ := hIndex _ _ _ hAccess
  have hNeg : ((List.range f.args.length).map fun j => machinePadded (extents j) (alignments j)).prod < 0 :=
    hSizes.prod_neg hj ha hNot
  omega

theorem nonneg_of_flattens (hEval : Evaluates f r ρ mins extents alignments)
    (hSizes : Sizes f.args.length extents alignments) (h : Flattens true f r ρ) :
    ∀ j < f.args.length, 0 ≤ mins j := by
  have hCovers := hSizes.covers (rounds_of_flattens hEval hSizes h)
  obtain ⟨s, ρ', hVisit, hEnter, hShaped⟩ := entered hEval hSizes
  obtain ⟨s', ρ'', sizes, hVisit', hEnter', hIndex, -⟩ := h
  obtain rfl := Option.some.inj (hVisit.symm.trans hVisit')
  obtain ⟨rfl, rfl⟩ := Prod.mk.inj (Option.some.inj (hEnter.symm.trans hEnter'))
  intro k hk
  by_contra hNot
  have hNeg := not_le.mp hNot
  obtain ⟨i, hIndexEq, hNonneg, -⟩ :=
    hIndex _ _ _ (access_far hShaped hEval.mins_has (hEval.extents_has hSizes) hNeg)
  obtain ⟨i', hNeg', hEq⟩ := index_far hShaped hCovers hEval.mins_has (hEval.extents_has hSizes) hk hNeg
  rw [hIndexEq, Option.some.injEq] at hEq
  omega

theorem flattens_of_rounds (hEval : Evaluates f r ρ mins extents alignments)
    (hSizes : Sizes f.args.length extents alignments)
    (hRounds : ∀ j < f.args.length, ∀ a ∈ alignments j, Rounds (extents j) a)
    (hLarge : large = true → ∀ j < f.args.length, 0 ≤ mins j) : Flattens large f r ρ := by
  have hCovers := hSizes.covers hRounds
  obtain ⟨s, ρ', hVisit, hEnter, hShaped⟩ := entered hEval hSizes
  have hIndex {σ : Env} {args : List Expr} {x : Nat → Int} (h : Access f r ρ' σ args x) :=
    h.index_eq hShaped hCovers hLarge
  have hWithin {σ : Env} {args : List Expr} {x : Nat → Int} (h : Access f r ρ' σ args x) :
      Strided.Within f.args.length (fun k => machinePadded (extents (stored f k)) (alignments (stored f k)))
        fun k => x (stored f k) - mins (stored f k) := by
    have hDiff : ∀ j < f.args.length,
        0 ≤ x j - mins j ∧ x j - mins j < machinePadded (extents j) (alignments j) := by
      intro j hj
      have hRange := h.within j hj
      rw [hShaped.min j hj, hShaped.extent j hj] at hRange
      have hLe : extents j ≤ machinePadded (extents j) (alignments j) := hCovers.extent_le j hj
      omega
    exact within_stored hDiff
  refine ⟨s, ρ', _, hVisit, hEnter, fun σ args x h => ?_, fun σ σ' args args' x x' h h' => ?_⟩
  · have hPlace := Strided.place_bounds (hWithin h)
    rw [← prod_stored f fun j => machinePadded (extents j) (alignments j)] at hPlace
    exact ⟨_, hIndex h, hPlace⟩
  · rw [hIndex h, hIndex h', Option.some.injEq]
    constructor
    · intro hEq j hj
      obtain ⟨k, hk, rfl⟩ := exists_stored hj
      have hSame := Strided.place_injective (hWithin h) (hWithin h') hEq k hk
      exact sub_left_injective hSame
    · intro hEq
      unfold Strided.place
      refine Finset.sum_congr rfl fun k hk => ?_
      change (x (stored f k) - _) * _ = (x' (stored f k) - _) * _
      rw [hEq _ (stored_lt (Finset.mem_range.mp hk))]

end Exact

/-- The storage is flattened right exactly where every padded extent can be rounded up in 32 bits
and, with large buffers, no min is negative. -/
theorem flattens_iff (large : Bool) (f : Func) (r : Realize) (ρ : Env) (mins extents : Nat → Int)
    (alignments : Nat → Option Int) (hEval : Evaluates f r ρ mins extents alignments)
    (hSizes : Sizes f.args.length extents alignments) :
    Flattens large f r ρ ↔ (∀ j < f.args.length, ∀ a ∈ alignments j, Rounds (extents j) a) ∧
      (large = true → ∀ j < f.args.length, 0 ≤ mins j) := by
  constructor
  · intro h
    refine ⟨rounds_of_flattens hEval hSizes h, ?_⟩
    rintro rfl
    exact nonneg_of_flattens hEval hSizes h
  · rintro ⟨hRounds, hLarge⟩
    exact flattens_of_rounds hEval hSizes hRounds hLarge

section Samples

private theorem carries_imm {name : Name} {v : Int} (h : IntType.int32.Has v) : Carries name ρ (imm .int32 v) v :=
  ⟨rfl, rfl, h, fun _ _ => rfl⟩

/-- A plane whose rows are stored aligned, the second argument innermost. -/
def plane : Func where
  args := [.mk "x", .mk "y"]
  storageDims := [⟨.mk "y", none⟩, ⟨.mk "x", some (imm .int32 4)⟩]
  nodup := by decide
  perm := by decide

/-- A column that is padded to the largest value of 32 bits. -/
def column : Func where
  args := [.mk "x"]
  storageDims := [⟨.mk "x", some (imm .int32 2147483647)⟩]
  nodup := by decide
  perm := by decide

def planeRealize : Realize where
  name := .mk "f"
  bounds := [⟨imm .int32 2, imm .int32 3⟩, ⟨imm .int32 7, imm .int32 5⟩]

def columnRealize : Realize where
  name := .mk "f"
  bounds := [⟨imm .int32 0, imm .int32 3⟩]

/-- No variable is bound and no buffer may be read. -/
def noEnv : Env where
  vars _ := 0
  mem _ _ := none

private theorem evaluates_plane : Evaluates plane planeRealize noEnv (fun j => if j = 0 then 2 else 7)
    (fun j => if j = 0 then 3 else 5) fun j => if j = 0 then some 4 else none where
  length := rfl
  min j range h := by
    match j, h with
    | 0, h => exact Option.some.inj h ▸ carries_imm (by decide)
    | 1, h => exact Option.some.inj h ▸ carries_imm (by decide)
  extent j range h := by
    match j, h with
    | 0, h => exact Option.some.inj h ▸ carries_imm (by decide)
    | 1, h => exact Option.some.inj h ▸ carries_imm (by decide)
  aligned dim hDim a ha := by
    rcases List.mem_pair.mp hDim with rfl | rfl
    · cases ha
    · exact ⟨4, by decide, Option.some.inj ha ▸ carries_imm (by decide)⟩
  unaligned dim hDim hNone := by
    rcases List.mem_pair.mp hDim with rfl | rfl
    · decide
    · cases hNone

private theorem evaluates_column : Evaluates column columnRealize noEnv (fun _ => 0) (fun _ => 3)
    fun _ => some 2147483647 where
  length := rfl
  min j range h := by
    match j, h with
    | 0, h => exact Option.some.inj h ▸ carries_imm (by decide)
  extent j range h := by
    match j, h with
    | 0, h => exact Option.some.inj h ▸ carries_imm (by decide)
  aligned dim hDim a ha := by
    obtain rfl := List.mem_singleton.mp hDim
    exact ⟨2147483647, rfl, Option.some.inj ha ▸ carries_imm (by decide)⟩
  unaligned dim hDim hNone := by
    obtain rfl := List.mem_singleton.mp hDim
    cases hNone

end Samples

theorem flattens_plane : Flattens true plane planeRealize noEnv :=
  (flattens_iff true plane planeRealize noEnv _ _ _ evaluates_plane
    ⟨by decide, by decide, by decide⟩).mpr ⟨by decide, by decide⟩

/-- The padded extent of the column is `2147483647`, but the sum before it wraps around. -/
theorem not_flattens_column :
    Evaluates column columnRealize noEnv (fun _ => 0) (fun _ => 3) (fun _ => some 2147483647) ∧
      Sizes column.args.length (fun _ => 3) (fun _ => some 2147483647) ∧
      ¬ Flattens false column columnRealize noEnv := by
  have hSizes : Sizes column.args.length (fun _ => 3) fun _ => some 2147483647 :=
    ⟨by decide, by decide, by decide⟩
  refine ⟨evaluates_column, hSizes, fun h => ?_⟩
  have hRounds := rounds_of_flattens evaluates_column hSizes h 0 (by decide) 2147483647 rfl
  revert hRounds
  decide

end Vyasa.StorageFlattening
