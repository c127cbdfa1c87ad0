import Vyasa.IRMatch.Wrapping
import Vyasa.Simplify.Rules.Arithmetic
import Vyasa.Euclid.Division

set_option linter.unusedSimpArgs false

/-! The rules of `visit(Add)`, `visit(Sub)` and `visit(Mul)`. Those outside the
guard are identities of rings, the others identities of ordered integers with
Euclidean division. -/
namespace Vyasa.Simplify

open Word IRMatch Pattern Euclid

section Unguarded

variable {P : Nat → Int → Prop} {T : IntType} {lanes : Nat} {cs : Nat → Int}

theorem arithmeticReturned_identity :
    ∀ r ∈ addReturned ++ subReturned ++ mulReturned, r.WrapIdentity P T lanes cs := by
  simp only [addReturned, subReturned, mulReturned, List.forall_mem_append, List.forall_mem_cons, List.not_mem_nil,
    false_implies, implies_true, Rule.WrapIdentity, Rule.replacement, replacement_equations,
    operands_equations, value_equations, fold_equations, defined_equations, facts_equations,
    CmpHolds, and_true, true_and, true_implies]
  and_intros <;> intros <;> ring

theorem arithmeticRamps_identity :
    ∀ r ∈ addRamps ++ subRamps, r.WrapIdentity P T lanes cs := by
  simp only [addRamps, subRamps, List.forall_mem_append, List.forall_mem_cons, List.not_mem_nil,
    false_implies, implies_true, Rule.WrapIdentity, Rule.replacement, replacement_equations,
    operands_equations, value_equations, fold_equations, defined_equations, facts_equations,
    CmpHolds, and_true, true_and, true_implies]
  and_intros <;> intro ws _ lane _ <;> ring

theorem arithmeticSelects_identity :
    ∀ r ∈ addSelects ++ (subSelects ++ subSelectSums), r.WrapIdentity P T lanes cs := by
  simp only [addSelects, subSelects, subSelectSums, List.forall_mem_append, List.forall_mem_cons, List.not_mem_nil,
    false_implies, implies_true, Rule.WrapIdentity, Rule.replacement, replacement_equations,
    operands_equations, value_equations, fold_equations, defined_equations, facts_equations,
    CmpHolds, and_true, true_and, true_implies]
  and_intros <;> intro ws _ lane _ <;> split_ifs <;> ring

theorem arithmeticLinear_identity :
    ∀ r ∈ addLinear ++ ([subConstant] ++ subSums ++ subLinear), r.WrapIdentity P T lanes cs := by
  simp only [addLinear, subConstant, subSums, subLinear, List.forall_mem_append, List.forall_mem_cons, List.not_mem_nil,
    false_implies, implies_true, Rule.WrapIdentity, Rule.replacement, replacement_equations,
    operands_equations, value_equations, fold_equations, defined_equations, facts_equations,
    CmpHolds, and_true, true_and, true_implies]
  and_intros <;> intros <;> ring

theorem arithmeticFactors_identity :
    ∀ r ∈ addFactors ++ (subFactors ++ subCancelled), r.WrapIdentity P T lanes cs := by
  simp only [addFactors, subFactors, subCancelled, List.forall_mem_append, List.forall_mem_cons, List.not_mem_nil,
    false_implies, implies_true, Rule.WrapIdentity, Rule.replacement, replacement_equations,
    operands_equations, value_equations, fold_equations, defined_equations, facts_equations,
    CmpHolds, and_true, true_and, true_implies]
  and_intros <;> intro ws _ lane _ <;> ring

theorem mulMutate_identity : ∀ r ∈ mulMutateRules, r.WrapIdentity P T lanes cs := by
  simp only [mulMutateRules, List.forall_mem_append, List.forall_mem_cons, List.not_mem_nil,
    false_implies, implies_true, Rule.WrapIdentity, Rule.replacement, replacement_equations,
    operands_equations, value_equations, fold_equations, defined_equations, facts_equations,
    CmpHolds, and_true, true_and, true_implies]
  and_intros
  on_goal 6 =>
    intro ws _ lane _
    rw [mul_comm (max _ _), min_mul_max]
  on_goal 6 =>
    intro ws _ lane _
    rw [mul_comm (max _ _), max_comm, min_mul_max]
  all_goals
    intros
    ring

end Unguarded

section Guarded

variable {P : Nat → Int → Prop} {T : IntType} {lanes : Nat} {cs : Nat → Int}

theorem arithmeticProducts_identity :
    ∀ r ∈ addProducts ++ subProducts, r.Identity P T lanes cs := by
  simp only [addProducts, subProducts, List.forall_mem_append, List.forall_mem_cons,
    List.not_mem_nil, false_implies, implies_true, Rule.Identity, Rule.replacement,
    replacement_equations, operands_equations, value_equations, fold_equations, defined_equations,
    holds_equations, and_true, true_and, true_implies]
  and_intros <;> intro ws _ lane _ <;> ring

theorem arithmeticMinMax_identity :
    ∀ r ∈ addMinMax ++ (subExtremes ++ subMinMax), r.Identity P T lanes cs := by
  simp only [addMinMax, subExtremes, subMinMax, List.forall_mem_append, List.forall_mem_cons,
    List.not_mem_nil, false_implies, implies_true, Rule.Identity, Rule.replacement,
    replacement_equations, operands_equations, value_equations, fold_equations, defined_equations,
    holds_equations, and_true, true_and, true_implies]
  and_intros <;> intros <;> grind

theorem subCorrelatedMin_identity : ∀ r ∈ subCorrelatedMin, r.Identity P T lanes cs := by
  simp only [subCorrelatedMin, List.forall_mem_cons, List.not_mem_nil, false_implies, implies_true,
    Rule.Identity, Rule.replacement, replacement_equations, operands_equations, value_equations,
    fold_equations, defined_equations, holds_equations, and_true, true_and, true_implies]
  and_intros <;> intro ws _ hProve lane hLane <;> have hLane := hProve lane hLane <;>
    split_ifs at hLane <;> grind

theorem subCorrelatedMax_identity : ∀ r ∈ subCorrelatedMax, r.Identity P T lanes cs := by
  simp only [subCorrelatedMax, List.forall_mem_cons, List.not_mem_nil, false_implies, implies_true,
    Rule.Identity, Rule.replacement, replacement_equations, operands_equations, value_equations,
    fold_equations, defined_equations, holds_equations, and_true, true_and, true_implies]
  and_intros <;> intro ws _ hProve lane hLane <;> have hLane := hProve lane hLane <;>
    split_ifs at hLane <;> grind

theorem addQuotients_identity : ∀ r ∈ addQuotients, r.Identity P T lanes cs := by
  simp only [addQuotients, List.forall_mem_cons, List.not_mem_nil, false_implies, implies_true,
    Rule.Identity, Rule.replacement, replacement_equations, operands_equations, value_equations,
    fold_equations, defined_equations, holds_equations, and_true, true_and, true_implies]
  and_intros
  on_goal 4 =>
    intro ws _ hc lane _ h0
    exact ⟨(add_eq_ediv h0 (by ring)).symm, h0⟩
  all_goals
    intro ws _ lane _ h0
    refine ⟨?_, h0⟩
    first
      | exact (add_eq_ediv h0 (by ring)).symm
      | exact ((add_comm _ _).trans (add_eq_ediv h0 (by ring))).symm
      | rw [← add_eq_ediv (t := ws 1 lane + cs 0) (q := cs 2) h0 (by ring)]
        ring

theorem addRemainders_identity : ∀ r ∈ addRemainders, r.Identity P T lanes cs := by
  simp only [addRemainders, List.forall_mem_cons, List.not_mem_nil, false_implies, implies_true,
    Rule.Identity, Rule.replacement, replacement_equations, operands_equations, value_equations,
    fold_equations, defined_equations, holds_equations, and_true, true_and, true_implies]
  and_intros
  on_goal 10 =>
    intro ws _ lane _
    omega
  on_goal 10 =>
    intro ws _ hc lane _ h0
    have hStep := Int.ediv_mul_add_emod (cs 0 - ws 0 lane) (cs 1)
    exact ⟨by omega, h0⟩
  on_goal 10 =>
    intro ws _ hc lane _ h0
    have hStep := Int.ediv_mul_add_emod (cs 0 - ws 0 lane) (cs 1)
    exact ⟨by linear_combination -hStep, h0⟩
  on_goal 10 =>
    intro ws _ hc lane _ h0
    have hStep := Int.ediv_mul_add_emod (cs 0 - ws 0 lane) (cs 1)
    exact ⟨by linear_combination -hStep, h0⟩
  all_goals
    intro ws _ lane _ _
    have hStep := Int.ediv_mul_add_emod (ws 0 lane) (ws 1 lane)
    linear_combination -hStep

theorem subQuotients_identity : ∀ r ∈ subQuotients, r.Identity P T lanes cs := by
  simp only [subQuotients, List.forall_mem_cons, List.not_mem_nil, false_implies, implies_true,
    Rule.Identity, Rule.replacement, replacement_equations, operands_equations, value_equations,
    fold_equations, defined_equations, holds_equations, and_true, true_and, true_implies]
  and_intros
  all_goals
    first
      | intro ws _ hc lane _ h0
        exact ⟨(sub_ediv_eq hc (by ring)).symm, h0⟩
      | intro ws _ lane _ h0
        exact ⟨(sub_eq_ediv h0 (by ring)).symm, h0⟩

theorem subRemainders_identity : ∀ r ∈ subRemainders, r.Identity P T lanes cs := by
  simp only [subRemainders, List.forall_mem_cons, List.not_mem_nil, false_implies, implies_true,
    Rule.Identity, Rule.replacement, replacement_equations, operands_equations, value_equations,
    fold_equations, defined_equations, holds_equations, and_true, true_and, true_implies]
  and_intros
  · intro ws _ hc lane _ h0
    have hStep := Int.ediv_mul_add_emod (ws 0 lane) (cs 0)
    exact ⟨by omega, h0⟩
  · intro ws _ hc lane _ h0
    have hStep := Int.ediv_mul_add_emod (ws 0 lane) (cs 0)
    exact ⟨by omega, h0⟩
  · rintro ws _ ⟨hc, hNext⟩ lane _ h0
    rw [neg_emod_eq hc, show cs 1 - 1 = cs 0 by omega]
    exact ⟨rfl, h0⟩
  · rintro ws _ ⟨hc, hNext⟩ lane _ h0
    have hStep := Int.ediv_mul_add_emod (ws 0 lane + cs 0) (cs 1)
    exact ⟨by omega, h0⟩

theorem subDivisions_identity : ∀ r ∈ subDivisions, r.Identity P T lanes cs := by
  simp only [subDivisions, List.forall_mem_cons, List.not_mem_nil, false_implies, implies_true,
    Rule.Identity, Rule.replacement, replacement_equations, operands_equations, value_equations,
    fold_equations, defined_equations, holds_equations, and_true, true_and, true_implies]
  and_intros <;> intro ws _ hc lane _ h0
  · rw [add_comm (ws 1 lane) (ws 0 lane)]
    exact ⟨rfl, h0⟩
  · rw [add_comm (ws 1 lane), sub_self]
  all_goals
    have hStep := Int.ediv_mul_add_emod (ws 0 lane) (cs 0)
    have hStep' := Int.ediv_mul_add_emod (ws 0 lane + cs 1) (cs 0)
    have hReduced := Int.add_emod_emod (ws 0 lane) (cs 1) (cs 0)
    refine ⟨?_, h0⟩
    first
      | exact (sub_eq_ediv h0.1 (by omega)).symm
      | exact (sub_ediv_eq hc (by omega)).symm

/-- A coefficient that is a quotient, put back in front of its divisor. -/
theorem arithmeticMultiples_identity : ∀ r ∈ addMultiples ++ subMultiples,
    FoldsFit T cs r.replacement → r.Identity P T lanes cs := by
  simp only [addMultiples, subMultiples, List.forall_mem_append, List.forall_mem_cons,
    List.not_mem_nil, false_implies, implies_true, Rule.Identity, Rule.replacement,
    replacement_equations, operands_equations, value_equations, fold_equations, defined_equations,
    holds_equations, FoldsFit, forallFolds_equations, quotientFits_iff, and_true, true_and,
    true_implies]
  and_intros <;> rintro ⟨-, hFit⟩ ws _ hDvd lane _ <;> rw [IntType.wrap_of_has hFit] <;>
    have hCancel := ediv_mul_cancel_of_emod_eq_zero hDvd
  · linear_combination ws 1 lane * hCancel
  · linear_combination ws 0 lane * hCancel
  · linear_combination ws 0 lane * hCancel
  · linear_combination -ws 1 lane * hCancel

theorem addMultiples_congruence : ∀ r ∈ addMultiples, r.Congruence T lanes cs := by
  simp only [addMultiples, List.forall_mem_cons, List.not_mem_nil, false_implies, implies_true,
    Rule.Congruence, Rule.replacement, replacement_equations, operands_equations, value_equations,
    fold_equations, defined_equations, facts_equations, CmpHolds, and_true, true_and, true_implies]
  and_intros
  · intro ws _ hDvd lane _
    have hWrap := ((T.wrap_modEq (cs 1 / cs 0)).mul_left (ws 1 lane)).add_left (ws 0 lane)
    refine (hWrap.mul_right (cs 0)).trans ?_
    rw [add_mul, mul_assoc (ws 1 lane), ediv_mul_cancel_of_emod_eq_zero hDvd]
  · intro ws _ hDvd lane _
    have hWrap := ((T.wrap_modEq (cs 0 / cs 1)).mul_left (ws 0 lane)).add_right (ws 1 lane)
    refine (hWrap.mul_right (cs 1)).trans ?_
    rw [add_mul, mul_assoc (ws 0 lane), ediv_mul_cancel_of_emod_eq_zero hDvd]

end Guarded

section Soundness

variable {P : Nat → Int → Prop} {T : IntType} {lanes : Nat} {cs : Nat → Int}

/-- The rules of the three visitors that every integer type meets. -/
def arithmeticUnguarded (T : IntType) : List Rule :=
  addReturned ++ addUnguarded ++ subReturned ++ subUnguarded T ++ mulReturned ++ mulMutateRules

/-- Those that only types without overflow meet. -/
def arithmeticGuarded : List Rule := addGuarded ++ subGuarded

theorem arithmeticUnguarded_identity {r : Rule} (hr : r ∈ arithmeticUnguarded T)
    (hMultiples : r ∉ addMultiples) : r.WrapIdentity P T lanes cs := by
  have hMem : r ∈ addReturned ++ subReturned ++ mulReturned ∨ r ∈ addRamps ++ subRamps ∨
      r ∈ addSelects ++ (subSelects ++ subSelectSums) ∨
      r ∈ addLinear ++ ([subConstant] ++ subSums ++ subLinear) ∨
      r ∈ addFactors ++ (subFactors ++ subCancelled) ∨ r ∈ mulMutateRules := by
    simp only [arithmeticUnguarded, addUnguarded, subUnguarded, List.mem_append,
      List.mem_ite_nil_right] at hr ⊢
    tauto
  rcases hMem with hr | hr | hr | hr | hr | hr
  · exact arithmeticReturned_identity r hr
  · exact arithmeticRamps_identity r hr
  · exact arithmeticSelects_identity r hr
  · exact arithmeticLinear_identity r hr
  · exact arithmeticFactors_identity r hr
  · exact mulMutate_identity r hr

theorem arithmeticGuarded_identity {r : Rule} (hr : r ∈ arithmeticGuarded)
    (hMultiples : r ∈ subMultiples → FoldsFit T cs r.replacement) : r.Identity P T lanes cs := by
  simp only [arithmeticGuarded, addGuarded, subGuarded, List.mem_append] at hr
  rcases hr with (((hr | hr) | hr) | hr) | ((((((((hr | hr) | hr) | hr) | hr) | hr) | hr) | hr) | hr)
  · exact arithmeticProducts_identity r (List.mem_append_left _ hr)
  · exact addQuotients_identity r hr
  · exact arithmeticMinMax_identity r (List.mem_append_left _ hr)
  · exact addRemainders_identity r hr
  · exact arithmeticMinMax_identity r (List.mem_append_right _ (List.mem_append_left _ hr))
  · exact arithmeticProducts_identity r (List.mem_append_right _ hr)
  · exact arithmeticMinMax_identity r (List.mem_append_right _ (List.mem_append_right _ hr))
  · exact subCorrelatedMin_identity r hr
  · exact subCorrelatedMax_identity r hr
  · exact subQuotients_identity r hr
  · exact subRemainders_identity r hr
  · exact arithmeticMultiples_identity r (List.mem_append_right _ hr) (hMultiples hr)
  · exact subDivisions_identity r hr

theorem arithmeticUnguarded_ring {r : Rule} (hr : r ∈ arithmeticUnguarded T) :
    Ring T r.before ∧ Ring T r.replacement := by
  have hRules : ∀ r ∈ addReturned ++ addUnguarded ++ subReturned ++
      ([subConstant] ++ subRamps ++ subSelects ++ subSums ++ subSelectSums ++ subLinear ++
        subFactors ++ subCancelled) ++ mulReturned ++ mulMutateRules,
      Ring T r.before ∧ Ring T r.replacement := by
    simp only [addReturned, addUnguarded, addRamps, addSelects, addLinear, addFactors, addMultiples,
      subReturned, subConstant, subRamps, subSelects, subSums, subSelectSums, subLinear, subFactors,
      subCancelled, mulReturned, mulMutateRules, List.forall_mem_append, List.forall_mem_cons,
      List.not_mem_nil, false_implies, implies_true, Rule.replacement, replacement_equations,
      operands_equations, ring_equations, plain_equations, and_true, true_and]
    and_intros <;> rfl
  refine hRules r ?_
  simp only [arithmeticUnguarded, subUnguarded, List.mem_append, List.mem_ite_nil_right] at hr ⊢
  tauto

set_option maxRecDepth 8000 in
theorem arithmeticGuarded_wellFormed : arithmeticGuarded.all Rule.wellFormed = true := rfl

theorem subMultiples_fit (hT : noOverflowInt T = true) (hcs : ∀ i, T.Has (cs i)) (hLanes : 0 < lanes) :
    ∀ r ∈ subMultiples, (∃ ws, r.Applies .checked T lanes cs ws) →
      r.SoundAt .checked .exact T lanes cs → FoldsFit T cs r.replacement := by
  have hSigned : T.signed = true := (Bool.and_eq_true_iff.mp hT).1
  obtain ⟨hMin, hMax, hLarge⟩ := IntType.bounds_of_signed hSigned
  have hWrap := IntType.wrap_neg_min hSigned
  have hNeg : T.min / -1 = -T.min := by rw [Int.ediv_neg, Int.ediv_one]
  have hMinusOne : T.Has (-1) := by
    unfold IntType.Has
    omega
  have hNext : T.Has (T.min + 1) ∧ T.Has (-1 - T.min) := by
    unfold IntType.Has
    omega
  simp only [subMultiples, List.forall_mem_cons, List.not_mem_nil, false_implies, implies_true,
    and_true]
  -- where the quotient wraps around, the value one for every wildcard shows it
  and_intros <;> rintro ⟨ws, hApplies⟩ h <;>
    have hFolds := (Rule.value_of_soundAt hT hcs rfl h ws hApplies hLanes).2 <;>
    simp only [Rule.replacement, replacement_equations, FoldsFit, FoldsDefined,
      forallFolds_equations, true_and, and_true] at hFolds ⊢ <;>
    refine quotientFits_of T cs hcs hFolds (fun _ hi hj => ?_) <;>
    have hVal := (Rule.value_of_soundAt hT hcs rfl h (Wilds.uniform 1)
      ⟨Wilds.uniform_typed T.has_one, hApplies.2.1, fun lane _ => by
        simp [eval_equations, arith, Wilds.uniform, hi, hj, T.has_min, hMinusOne, hNext]⟩
      hLanes).1 <;>
    simp only [Rule.replacement, replacement_equations, value_equations, fold_equations, hi, hj,
      Wilds.uniform, hNeg, hWrap] at hVal <;>
    omega

theorem arithmetic_wrapping_iff (hLanes : 0 < lanes) (hcs : ∀ i, T.Has (cs i)) {r : Rule}
    (hr : r ∈ arithmeticUnguarded T) (hSome : ∃ ws, r.Applies .wrapping T lanes cs ws) :
    r.SoundAt .wrapping .wrapping T lanes cs ↔ FoldsDefined T cs r.replacement := by
  obtain ⟨hBefore, hAfter⟩ := arithmeticUnguarded_ring hr
  refine ⟨Rule.foldsDefined_of_wrapping hcs hAfter hLanes hSome, fun hFolds => ?_⟩
  refine Rule.soundAt_wrapping hcs hBefore hAfter ?_ hFolds
  by_cases hMultiples : r ∈ addMultiples
  · exact addMultiples_congruence r hMultiples
  · exact (arithmeticUnguarded_identity hr hMultiples).congruence

theorem arithmetic_checked_iff (hT : noOverflowInt T = true) (hLanes : 0 < lanes)
    (hcs : ∀ i, T.Has (cs i)) {r : Rule} (hr : r ∈ arithmeticGuarded)
    (hSome : ∃ ws, r.Applies .checked T lanes cs ws) :
    r.SoundAt .checked .exact T lanes cs ↔
      FoldsDefined T cs r.replacement ∧ (r ∈ subMultiples → FoldsFit T cs r.replacement) := by
  have hForm := List.all_eq_true.mp arithmeticGuarded_wellFormed r hr
  constructor
  · intro h
    exact ⟨Rule.foldsDefined_of_soundAt hT hcs hForm hLanes hSome h,
      fun hMultiples => subMultiples_fit hT hcs hLanes r hMultiples hSome h⟩
  · rintro ⟨hFolds, hFit⟩
    exact Rule.soundAt_of_identity hT hcs hForm (arithmeticGuarded_identity hr hFit) hFolds

end Soundness

end Vyasa.Simplify
