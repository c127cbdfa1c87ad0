import Vyasa.IRMatch.Wrapping
import Vyasa.Simplify.Rules.DivMod
import Vyasa.Simplify.BoundsSound

set_option linter.unusedSimpArgs false

/-! The rules of `visit(Div)` and `visit(Mod)` are identities of Euclidean
division. -/
namespace Vyasa.Simplify

open Word IRMatch Pattern Euclid

section Identities

variable {P : Nat → Int → Prop} {T : IntType} {lanes : Nat} {cs : Nat → Int}

theorem divMarkers_identity :
    ∀ r ∈ divMarkers ++ divNonZero ++ [divBroadcast], r.Identity P T lanes cs := by
  simp only [divMarkers, divNonZero, divBroadcast, List.forall_mem_append, List.forall_mem_cons,
    List.not_mem_nil, false_implies, implies_true, Rule.Identity, Rule.replacement,
    replacement_equations, operands_equations, value_equations, fold_equations, defined_equations,
    holds_equations, and_true, true_and, true_implies]
  and_intros <;> intro ws _ lane _ h
  · exact h.1.elim
  · exact h.1.elim
  · exact h.1.elim
  · exact h.1.elim
  · rw [Int.ediv_one]
  · exact absurd rfl h
  · rw [Int.zero_ediv]
  · rw [Int.ediv_self h]
  · exact h

theorem divRepeated_identity (hcs : ∀ i, T.Has (cs i)) :
    ∀ r ∈ divRepeated, r.Identity P T lanes cs := by
  simp only [divRepeated, List.forall_mem_append, List.forall_mem_cons, List.not_mem_nil,
    false_implies, implies_true, Rule.Identity, Rule.replacement, replacement_equations,
    operands_equations, value_equations, fold_equations, defined_equations, holds_equations,
    and_true, true_and, true_implies]
  and_intros
  · rintro ws _ ⟨hc, _⟩ lane _ ⟨h0, h2⟩
    exact ⟨(Int.ediv_ediv_of_nonneg hc.le).symm, mul_ne_zero h0 h2⟩
  · rintro ws _ ⟨hc, _⟩ lane _ ⟨h0, h2⟩
    rw [← Int.ediv_ediv_of_nonneg hc.le, Int.add_mul_ediv_right _ _ h0]
    exact ⟨rfl, mul_ne_zero h0 h2⟩
  · rintro ws _ ⟨⟨hDvd, hc⟩, hne⟩ lane _ h1
    rw [IntType.wrap_of_has (IntType.has_ediv (hcs 1) hc)]
    refine ⟨?_, hne⟩
    conv_rhs => rw [← ediv_mul_cancel_of_emod_eq_zero hDvd]
    exact (Int.mul_ediv_mul_of_pos_left _ _ hc).symm

theorem divMultiples_identity (hcs : ∀ i, T.Has (cs i)) :
    ∀ r ∈ divMultiples, r.Identity P T lanes cs := by
  simp only [divMultiples, List.forall_mem_append, List.forall_mem_cons, List.not_mem_nil,
    false_implies, implies_true, Rule.Identity, Rule.replacement, replacement_equations,
    operands_equations, value_equations, fold_equations, defined_equations, holds_equations,
    and_true, true_and, true_implies]
  and_intros <;> rintro ws _ ⟨hDvd, hc⟩ lane _ h1 <;>
    rw [IntType.wrap_of_has (IntType.has_ediv (hcs 0) hc)] <;>
    have hCancel := ediv_mul_cancel_of_emod_eq_zero hDvd
  · rw [← Int.mul_ediv_assoc _ (Int.dvd_of_emod_eq_zero hDvd)]
  all_goals
    refine ⟨?_, h1⟩
    first
      | exact add_eq_ediv h1 (by linear_combination (-ws 0 lane) * hCancel)
      | exact sub_eq_ediv h1 (by linear_combination ws 0 lane * hCancel)

theorem divCancelled_identity : ∀ r ∈ divCancelled, r.Identity P T lanes cs := by
  simp only [divCancelled, List.forall_mem_append, List.forall_mem_cons, List.not_mem_nil,
    false_implies, implies_true, Rule.Identity, Rule.replacement, replacement_equations,
    operands_equations, value_equations, fold_equations, defined_equations, holds_equations,
    and_true, true_and, true_implies]
  and_intros <;> intro ws _ lane _ h0
  all_goals
    first
      | exact ⟨add_eq_ediv h0 (by ring), h0⟩
      | exact ⟨(add_comm _ _).trans (add_eq_ediv h0 (by ring)), h0⟩
      | exact (Int.mul_ediv_cancel_left _ h0).symm
      | exact (Int.mul_ediv_cancel _ h0).symm

theorem divShifted_identity (hFit : T.Has (cs 0 / cs 1)) : divShifted.Identity P T lanes cs := by
  simp only [divShifted, Rule.Identity, Rule.replacement, replacement_equations, value_equations,
    fold_equations, defined_equations, holds_equations, and_true, true_and, true_implies]
  intro ws _ hDvd lane _ h1
  have hCancel := ediv_mul_cancel_of_emod_eq_zero hDvd
  rw [IntType.wrap_of_has hFit]
  exact ⟨add_eq_ediv h1 (by rw [hCancel]), h1⟩

theorem divRamp_identity (hFit : 1 < lanes → T.Has (cs 0 / cs 1)) :
    divRamp.Identity P T lanes cs := by
  simp only [divRamp, Rule.Identity, Rule.replacement, replacement_equations, value_equations,
    fold_equations, defined_equations, holds_equations, and_true, true_and, true_implies]
  intro ws _ hDvd lane hLane h1
  refine ⟨?_, h1⟩
  rcases Nat.eq_zero_or_pos lane with rfl | hPos
  · rw [Nat.cast_zero, zero_mul, zero_mul, add_zero, add_zero]
  · have hCancel := ediv_mul_cancel_of_emod_eq_zero hDvd
    rw [IntType.wrap_of_has (hFit (by omega))]
    exact add_eq_ediv h1 (by rw [mul_assoc, hCancel])

theorem divRampConstant_identity : (divRampConstant lanes).Identity P T lanes cs := by
  simp only [divRampConstant, Rule.Identity, Rule.replacement, replacement_equations,
    value_equations, fold_equations, defined_equations, holds_equations, and_true, true_and,
    true_implies]
  intro ws _ hProve lane hLane h1
  have h0 : (ws 0 0 % cs 1 + (lanes - 1) * cs 0) / cs 1 = 0 := by
    rw [mul_comm]
    have hFirst := hProve 0 (by omega)
    split_ifs at hFirst with hZero
    · exact hZero
    · exact absurd rfl hFirst
  exact ⟨(line_ediv h1 (Int.natCast_nonneg lane) (by omega) h0).1.symm, h1⟩

theorem divScalar_identity (hcs : ∀ i, T.Has (cs i)) : ∀ r ∈ divScalar, r.Identity P T lanes cs := by
  simp only [divScalar, List.forall_mem_append, List.forall_mem_cons, List.not_mem_nil,
    false_implies, implies_true, Rule.Identity, Rule.replacement, replacement_equations,
    operands_equations, value_equations, fold_equations, defined_equations, holds_equations,
    and_true, true_and, true_implies]
  and_intros
  · intro ws _ lane _ _
    rw [Int.ediv_neg, Int.ediv_one]
  · intro ws _ h0 lane _ hy
    rw [h0]
    rcases lt_or_gt_of_ne hy with hNeg | hPos
    · rw [if_pos hNeg, if_pos one_ne_zero, Int.neg_one_ediv, Int.sign_eq_neg_one_of_neg hNeg]
    · rw [if_neg hPos.not_gt, if_neg (not_not.mpr rfl), Int.neg_one_ediv,
        Int.sign_eq_one_of_pos hPos]
  · rintro ws _ ⟨⟨hc2, hc0⟩, hDvd⟩ lane _ h2
    have hCancel := ediv_mul_cancel_of_emod_eq_zero hDvd
    have hne : cs 2 / cs 0 ≠ 0 := by
      intro hZero
      rw [hZero, zero_mul] at hCancel
      exact h2 hCancel.symm
    rw [IntType.wrap_of_has (IntType.has_ediv (hcs 1) hc0),
      IntType.wrap_of_has (IntType.has_ediv (hcs 2) hc0)]
    refine ⟨?_, hne⟩
    conv_rhs => rw [← hCancel, mul_comm (cs 2 / cs 0), ← Int.ediv_ediv_of_nonneg hc0.le]
    rw [← add_eq_ediv (n := ws 0 lane * cs 0 + cs 1) (t := cs 1) hc0.ne' (add_comm _ _), add_comm]
  · rintro ws _ ⟨hc2, hDvd⟩ lane _ h2
    have hCancel := ediv_mul_cancel_of_emod_eq_zero hDvd
    rw [IntType.wrap_of_has (IntType.has_ediv (hcs 0) hc2),
      IntType.wrap_of_has (IntType.has_ediv (hcs 1) hc2), add_comm]
    exact add_eq_ediv h2 (by linear_combination (-ws 0 lane) * hCancel)
  · intro ws _ hOdd lane _ h2
    rw [IntType.wrap_of_has (IntType.has_ediv (hcs 0) two_pos)]
    omega

theorem modMarkers_identity :
    ∀ r ∈ [modFold] ++ modMarkers ++ modNonZero ++ modConstants ++ [modBroadcast],
      r.Identity P T lanes cs := by
  simp only [modFold, modMarkers, modNonZero, modConstants, modBroadcast, List.forall_mem_append,
    List.forall_mem_cons, List.not_mem_nil, false_implies, implies_true, Rule.Identity,
    Rule.replacement, replacement_equations, operands_equations, value_equations, fold_equations,
    defined_equations, holds_equations, and_true, true_and, true_implies]
  and_intros <;> intro ws _ lane _ h
  · exact h.1.elim
  · exact h.1.elim
  · exact h.1.elim
  · exact h.1.elim
  · rw [Int.zero_emod]
  · rw [Int.emod_self]
  · exact absurd rfl h
  · rw [Int.emod_one]
  · exact h

theorem modLinear_identity (hcs : ∀ i, T.Has (cs i)) : ∀ r ∈ modLinear, r.Identity P T lanes cs := by
  simp only [modLinear, List.forall_mem_append, List.forall_mem_cons, List.not_mem_nil,
    false_implies, implies_true, Rule.Identity, Rule.replacement, replacement_equations,
    operands_equations, value_equations, fold_equations, defined_equations, holds_equations,
    and_true, true_and, true_implies]
  and_intros
  · intro ws _ _ lane _ h1
    exact ⟨(Int.mod_modEq _ _).mul_left _, h1⟩
  · intro ws _ _ lane _ h1
    exact ⟨(Int.mod_modEq _ _).add_left _, h1⟩
  · rintro ws _ ⟨hc, hDvd⟩ lane _ h1
    have hCancel := ediv_mul_cancel_of_emod_eq_zero hDvd
    rw [IntType.wrap_of_has (IntType.has_ediv (hcs 1) hc)]
    constructor
    · conv_rhs => rw [← hCancel]
      rw [mul_comm (ws 0 lane), mul_comm (cs 1 / cs 0), Int.mul_emod_mul_of_pos _ _ hc, mul_comm]
    · intro hZero
      rw [hZero, zero_mul] at hCancel
      exact h1 hCancel.symm
  · intro ws _ hDvd lane _ h1
    exact ⟨emod_eq_add_multiple hDvd (by ring), h1⟩
  · intro ws _ hDvd lane _ h1
    exact ⟨emod_eq_add_multiple hDvd rfl, h1⟩
  · intro ws _ hDvd lane _ h1
    exact ⟨emod_eq_add_multiple hDvd (by ring), h1⟩
  · intro ws _ hDvd lane _ h1
    exact ⟨emod_eq_add_multiple (q := -ws 0 lane) hDvd (by ring), h1⟩
  · intro ws _ lane _ h2
    omega

theorem modRamps_identity : ∀ r ∈ modRamps lanes, r.Identity P T lanes cs := by
  simp only [modRamps, List.forall_mem_append, List.forall_mem_cons, List.not_mem_nil,
    false_implies, implies_true, Rule.Identity, Rule.replacement, replacement_equations,
    operands_equations, value_equations, fold_equations, defined_equations, holds_equations,
    and_true, true_and, true_implies]
  and_intros
  · intro ws _ hDvd lane _ h1
    exact ⟨emod_eq_add_multiple hDvd rfl, h1⟩
  · intro ws _ hProve lane hLane h1
    have h0 : (ws 0 0 % cs 1 + (lanes - 1) * cs 0) / cs 1 = 0 := by
      rw [mul_comm]
      have hFirst := hProve 0 (by omega)
      split_ifs at hFirst with hZero
      · exact hZero
      · exact absurd rfl hFirst
    exact ⟨(line_ediv h1 (Int.natCast_nonneg lane) (by omega) h0).2.symm, h1⟩
  · intro ws _ _ lane _ h1
    exact ⟨((Int.mod_modEq _ _).mul_left _).add ((Int.mod_modEq _ _).mul_left _), h1⟩
  · intro ws _ _ lane _ h1
    exact ⟨((Int.mod_modEq _ _).add_left _).add ((Int.mod_modEq _ _).mul_left _), h1⟩
  · intro ws _ hDvd lane _ h1
    have hStride := ((Int.mod_modEq (cs 2) (cs 1)).mul_left (lane : Int)).add_left (ws 1 0)
    exact ⟨hStride.trans (emod_eq_add_multiple hDvd (by ring)), h1⟩
  · intro ws _ hDvd lane _ h1
    have hStride := ((Int.mod_modEq (cs 2) (cs 1)).mul_left (lane : Int)).add_left (ws 1 0)
    exact ⟨hStride.trans (emod_eq_add_multiple (q := ws 0 0) hDvd (by ring)), h1⟩
end Identities

section Soundness

variable {P : Nat → Int → Prop} {T : IntType} {lanes : Nat} {cs : Nat → Int}

/-- The rules of both visitors, where the divisor may be known not to be zero. -/
def divModRules (T : IntType) (lanes : Nat) : List Rule :=
  divReturnRules true ++ divMutateRules T lanes ++ modReturnRules true ++ modMutateRules T lanes

def divModSafe (lanes : Int) : List Rule :=
  divMarkers ++ divNonZero ++ [divBroadcast] ++ divRepeated ++ divMultiples ++ divCancelled ++
    [divRampConstant lanes] ++ divScalar ++
    ([modFold] ++ modMarkers ++ modNonZero ++ modConstants ++ [modBroadcast]) ++ modLinear ++
    modRamps lanes

theorem divModSafe_identity (hcs : ∀ i, T.Has (cs i)) {r : Rule} (hr : r ∈ divModSafe lanes) :
    r.Identity P T lanes cs := by
  unfold divModSafe at hr
  rcases List.mem_append.mp hr with hr | hr
  on_goal 2 => exact modRamps_identity r hr
  rcases List.mem_append.mp hr with hr | hr
  on_goal 2 => exact modLinear_identity hcs r hr
  rcases List.mem_append.mp hr with hr | hr
  on_goal 2 => exact modMarkers_identity r hr
  rcases List.mem_append.mp hr with hr | hr
  on_goal 2 => exact divScalar_identity hcs r hr
  rcases List.mem_append.mp hr with hr | hr
  on_goal 2 =>
    rw [List.mem_singleton] at hr
    exact hr ▸ divRampConstant_identity
  rcases List.mem_append.mp hr with hr | hr
  on_goal 2 => exact divCancelled_identity r hr
  rcases List.mem_append.mp hr with hr | hr
  on_goal 2 => exact divMultiples_identity hcs r hr
  rcases List.mem_append.mp hr with hr | hr
  · exact divMarkers_identity r hr
  · exact divRepeated_identity hcs r hr

set_option maxRecDepth 4000 in
theorem divModRules_wellFormed (lanes : Int) :
    (divModSafe lanes ++ [divFold, divSelect, divShifted, divRamp]).all Rule.wellFormed = true :=
  rfl

theorem mem_divModRules {r : Rule} (hr : r ∈ divModRules T lanes) :
    r ∈ divModSafe lanes ++ [divFold, divSelect, divShifted, divRamp] := by
  simp only [divModRules, divReturnRules, divMutateRules, modReturnRules, modMutateRules, divModSafe,
    ↓reduceIte] at hr ⊢
  split_ifs at hr <;>
    simp only [List.mem_append, List.mem_cons, List.not_mem_nil, or_false] at hr ⊢ <;> tauto

/-- A constant quotient that is a value of the type is folded to it. -/
theorem constantFold_quotient {i j : Nat} (h0 : cs j ≠ 0) (hHas : T.Has (cs i / cs j)) :
    constantFold T cs (fun _ => false) (fun _ => false) (wildConst i / wildConst j) =
      some (cs i / cs j) := by
  change (if cs j = 0 ∨ IRMatch.Traps T (cs i) (cs j) then none else some (cs i / cs j)) = _
  rw [if_neg]
  rintro (hZero | ⟨hSigned, hi, hj⟩)
  · exact h0 hZero
  · rw [hi, hj] at hHas
    have hMax := hHas.2
    have hBound := (IntType.bounds_of_signed hSigned).2.1
    have hPow : (2 : Int) ^ (T.bits - 1) ≤ 2 ^ 63 :=
      pow_le_pow_right₀ (by norm_num) (by have := T.le_sixtyFour; omega)
    norm_num at hMax hPow
    omega

theorem divFold_sound : divFold.SoundAt .checked .exact T lanes cs := by
  intro ws hApplies lane hLane
  obtain ⟨v, hv⟩ := hApplies.2.2 lane hLane
  rw [hv]
  change (if cs 1 = 0 then none else if T.Has (cs 0 / cs 1) then some (cs 0 / cs 1) else none) =
    some v at hv
  change (constantFold T cs (fun _ => false) (fun _ => false) (c0 / c1)).map T.wrap = some v
  split_ifs at hv with h0 hHas
  rw [constantFold_quotient h0 hHas, ← hv, Option.map_some, IntType.wrap_of_has hHas]

theorem divSelect_sound (hFolds : FoldsDefined T cs divSelect.replacement) :
    divSelect.SoundAt .checked .exact T lanes cs := by
  intro ws hApplies lane hLane
  obtain ⟨v, hv⟩ := hApplies.2.2 lane hLane
  obtain ⟨q0, h0⟩ := Option.ne_none_iff_exists'.mp hFolds.2.1
  obtain ⟨q1, h1⟩ := Option.ne_none_iff_exists'.mp hFolds.2.2
  rw [hv]
  change (if cs 2 = 0 then none else
    if T.Has ((if ws.value 0 lane ≠ 0 then cs 0 else cs 1) / cs 2) then
      some ((if ws.value 0 lane ≠ 0 then cs 0 else cs 1) / cs 2) else none) = some v at hv
  change (do
    let t ← (constantFold T cs (fun _ => false) (fun _ => false) (c0 / c2)).map T.wrap
    let f ← (constantFold T cs (fun _ => false) (fun _ => false) (c1 / c2)).map T.wrap
    return if ws.value 0 lane ≠ 0 then t else f : Option Int) = some v
  rw [h0, h1, ← hv]
  split_ifs at hv ⊢ with hx hZero hHas hZero hHas
  · rw [constantFold_quotient hZero hHas] at h0
    cases h0
    exact congrArg some (IntType.wrap_of_has hHas)
  · rw [constantFold_quotient hZero hHas] at h1
    cases h1
    exact congrArg some (IntType.wrap_of_has hHas)

/-- The wrapped quotient is the opposite of the quotient. -/
theorem quotient_fits_of_value (hcs : ∀ i, T.Has (cs i))
    (hDefined : constantFold T cs (fun _ => false) (fun _ => false) (c0 / c1) ≠ none)
    {v : Int} (hValue : v / cs 1 + T.wrap (cs 0 / cs 1) = (v + cs 0) / cs 1) :
    T.Has (cs 0 / cs 1) := by
  refine ((quotientFits_iff T cs 0 1).mp (quotientFits_of T cs hcs hDefined ?_)).2
  intro hSigned h0 h1
  obtain ⟨hMin, -, hLarge⟩ := IntType.bounds_of_signed hSigned
  rw [h0, h1, Int.ediv_neg, Int.ediv_neg, Int.ediv_neg, Int.ediv_one, Int.ediv_one, Int.ediv_one,
    IntType.wrap_neg_min hSigned] at hValue
  omega

theorem divShifted_fits (hT : noOverflowInt T = true) (hcs : ∀ i, T.Has (cs i)) (hLanes : 0 < lanes)
    (hSome : ∃ ws, divShifted.Applies .checked T lanes cs ws)
    (h : divShifted.SoundAt .checked .exact T lanes cs) : T.Has (cs 0 / cs 1) := by
  obtain ⟨ws, hApplies⟩ := hSome
  obtain ⟨hValue, hFolds⟩ := Rule.value_of_soundAt hT hcs rfl h _ hApplies hLanes
  exact quotient_fits_of_value hcs hFolds.2 hValue

theorem divRamp_fits (hT : noOverflowInt T = true) (hcs : ∀ i, T.Has (cs i)) (hLanes : 1 < lanes)
    (hSome : ∃ ws, divRamp.Applies .checked T lanes cs ws)
    (h : divRamp.SoundAt .checked .exact T lanes cs) : T.Has (cs 0 / cs 1) := by
  obtain ⟨ws, hApplies⟩ := hSome
  obtain ⟨hValue, hFolds⟩ := Rule.value_of_soundAt hT hcs rfl h _ hApplies hLanes
  refine quotient_fits_of_value hcs hFolds.2 (v := ws.value 0 0) ?_
  change ws.value 0 0 / cs 1 + (1 : Nat) * T.wrap (cs 0 / cs 1) =
    (ws.value 0 0 + (1 : Nat) * cs 0) / cs 1 at hValue
  rwa [Nat.cast_one, one_mul, one_mul] at hValue

/-- All constants fold, and where a negative divisor is divided out of a constant
that is then added, the quotient is a value of the type. -/
def DivModSound (T : IntType) (lanes : Nat) (cs : Nat → Int) (r : Rule) : Prop :=
  FoldsDefined T cs r.replacement ∧
    (r = divShifted ∨ r = divRamp ∧ 1 < lanes → T.Has (cs 0 / cs 1))

theorem divMod_rule_sound_iff (hT : noOverflowInt T = true) (hLanes : 0 < lanes)
    (hcs : ∀ i, T.Has (cs i)) {r : Rule} (hr : r ∈ divModRules T lanes)
    (hSome : ∃ ws, r.Applies .checked T lanes cs ws) :
    r.SoundAt .checked .exact T lanes cs ↔ DivModSound T lanes cs r := by
  have hMem := mem_divModRules hr
  have hForm := List.all_eq_true.mp (divModRules_wellFormed lanes) r hMem
  constructor
  · intro h
    refine ⟨Rule.foldsDefined_of_soundAt hT hcs hForm hLanes hSome h, ?_⟩
    rintro (rfl | ⟨rfl, hMany⟩)
    · exact divShifted_fits hT hcs hLanes hSome h
    · exact divRamp_fits hT hcs hMany hSome h
  · rintro ⟨hFolds, hFit⟩
    rcases List.mem_append.mp hMem with hSafe | hMem
    · exact Rule.soundAt_of_identity hT hcs hForm (divModSafe_identity hcs hSafe) hFolds
    · simp only [List.mem_cons, List.not_mem_nil, or_false] at hMem
      rcases hMem with rfl | rfl | rfl | rfl
      · exact divFold_sound
      · exact divSelect_sound hFolds
      · exact Rule.soundAt_of_identity hT hcs rfl (divShifted_identity (hFit (Or.inl rfl))) hFolds
      · refine Rule.soundAt_of_identity hT hcs rfl (divRamp_identity fun h => ?_) hFolds
        exact hFit (Or.inr ⟨rfl, h⟩)

/-- What the two visitors return before any rule is tried agrees with evaluation. -/
structure EarlyReturns (a b : ExprInfo) (x y : Int) : Prop where
  quotientConstant : ∀ bounds interval, ExprInfo.divInterval bounds a b = some interval →
    interval.isConstant = true → x / y = interval.min.toInt
  ownRemainder : ExprInfo.isOwnRemainder a b = true → x % y = x
  remainderConstant : ExprInfo.ModBoundOk b → ∀ info, ExprInfo.mod a b = some info →
    info.isConstant = true → x % y = info.min.toInt

theorem earlyReturns {a b : ExprInfo} {x y : Int} (ha : a.Holds x) (hb : b.Holds y) (h0 : y ≠ 0) :
    EarlyReturns a b x y where
  quotientConstant := by
    intro bounds interval hInterval hConstant
    have hWithin := ExprInfo.divInterval_within hInterval ⟨ha.1, ha.2.1⟩ ⟨hb.1, hb.2.1⟩
    exact ExprInfo.eq_of_isConstant hConstant hWithin
  ownRemainder := ExprInfo.emod_of_isOwnRemainder ⟨ha.1, ha.2.1⟩ ⟨hb.1, hb.2.1⟩
  remainderConstant := fun hOk _ h hConstant =>
    ExprInfo.mod_eq_of_isConstant ha hb h0 hOk h hConstant

/-- The rules are sound exactly where the constants they fold are, the bound of a
remainder exactly where no absolute value wraps around, and the early returns
with it. -/
theorem divMod_sound_iff (T : IntType) (hT : noOverflowInt T = true) :
    (∀ (lanes : Nat) (cs : Nat → Int), 0 < lanes → (∀ i, T.Has (cs i)) →
      ∀ r ∈ divModRules T lanes, (∃ ws, r.Applies .checked T lanes cs ws) →
        (r.SoundAt .checked .exact T lanes cs ↔ DivModSound T lanes cs r)) ∧
    (∀ b : ExprInfo, (∀ x y, b.Within y → y ≠ 0 → (ExprInfo.modInterval b).Within (x % y)) ↔
      ExprInfo.ModBoundOk b) ∧
    (∀ (a b : ExprInfo) (x y : Int), a.Holds x → b.Holds y → y ≠ 0 → EarlyReturns a b x y) ∧
    (∀ (b : ExprInfo) (y : Int), b.Sound y → b.nonZero = true → y ≠ 0) := by
  refine ⟨?_, fun b => ExprInfo.modInterval_within_iff, ?_, ?_⟩
  · intro lanes cs hLanes hcs r hr hSome
    exact divMod_rule_sound_iff hT hLanes hcs hr hSome
  · intro a b x y ha hb h0
    exact earlyReturns ha hb h0
  · intro b y hb h
    exact ExprInfo.ne_zero_of_nonZero hb h

theorem divMod_sound_iff_shifted :
    divShifted.SoundAt .checked .exact .int32 1 (constants [4, 2]) ∧
      EarlyReturns (ExprInfo.constant 7) (ExprInfo.constant 2) 7 2 := by
  obtain ⟨hRules, -, hEarly, -⟩ := divMod_sound_iff .int32 rfl
  constructor
  · refine (hRules 1 (constants [4, 2]) (by decide) (has_constants (by decide)) divShifted
      (by decide) ⟨Wilds.uniform 0, Wilds.uniform_typed IntType.int32.has_zero, by decide,
        fun _ _ => ⟨2, rfl⟩⟩).mpr ⟨?_, fun _ => by decide⟩
    have hFold : constantFold .int32 (constants [4, 2]) (fun _ => false) (fun _ => false)
        (c0 / c1) ≠ none := by decide
    exact ⟨⟨trivial, trivial⟩, hFold⟩
  · exact hEarly _ _ _ _ (ExprInfo.sound_constant 7).1 (ExprInfo.sound_constant 2).1 (by decide)

/-- The least integer divided by minus one wraps around when it is folded; and the
remainder by anything negative is taken to be zero where the divisor has no lower
bound but the least word. -/
theorem divShifted_not_sound :
    (divShifted ∈ divModRules .int32 1 ∧
    divShifted.Applies .checked .int32 1 (constants [-2147483648, -1]) (Wilds.uniform 1) ∧
    eval .checked .int32 (constants [-2147483648, -1]) (Wilds.uniform 1).value 0
      divShifted.before = some 2147483647 ∧
    eval .exact .int32 (constants [-2147483648, -1]) (Wilds.uniform 1).value 0
      divShifted.replacement = some (-2147483649)) ∧
    ExprInfo.mod {} { min := Int64.minValue, max := -1, minDefined := true, maxDefined := true } =
      some (ExprInfo.constant 0) :=
  ⟨⟨by decide, ⟨Wilds.uniform_typed (by decide), by decide, fun _ _ => ⟨2147483647, rfl⟩⟩, rfl, rfl⟩,
    by decide⟩

end Soundness

end Vyasa.Simplify
