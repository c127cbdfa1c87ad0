import Vyasa.IRMatch.Wrapping
import Vyasa.Simplify.Rules.LT

set_option linter.unusedSimpArgs false

/-! The rules of `visit(LT)` are identities between integers, but for two. -/
namespace Vyasa.Simplify

open Word IRMatch Pattern Euclid

section Identities

variable {P : Nat → Int → Prop} {T : IntType} {lanes : Nat} {cs : Nat → Int}

theorem ltSame_identity : ∀ r ∈ ltSame ++ ltExtremes, r.WrapIdentity P T lanes cs := by
  simp only [ltSame, ltExtremes, List.forall_mem_append, List.forall_mem_cons, List.not_mem_nil,
    false_implies, implies_true, Rule.WrapIdentity, Rule.replacement, replacement_equations,
    value_equations, fold_equations, defined_equations, facts_equations, and_true, true_and,
    true_implies]
  and_intros <;> intro ws _ lane _ <;> grind

theorem ltRange_identity (hP : ∀ i v, P i v → T.Has v) :
    ∀ r ∈ ltRange T, r.WrapIdentity P T lanes cs := by
  simp only [ltRange, List.forall_mem_cons, List.not_mem_nil, false_implies, implies_true,
    Rule.WrapIdentity, Rule.replacement, replacement_equations, value_equations,
    defined_equations, facts_equations, and_true, true_implies]
  and_intros <;> intro ws hws lane _ <;> have hRange := hP _ _ (hws 0 lane) <;>
    unfold IntType.Has at hRange <;> omega

theorem ltReturned_identity {r : Rule} (hr : r ∈ ltReturned T)
    (hP : r ∈ ltRange T → ∀ i v, P i v → T.Has v) : r.WrapIdentity P T lanes cs := by
  simp only [ltReturned, List.mem_append] at hr
  rcases hr with (hr | hr) | hr
  · exact ltSame_identity r (List.mem_append_left _ hr)
  · exact ltRange_identity (hP hr) r hr
  · exact ltSame_identity r (List.mem_append_right _ hr)

theorem ltLanes_identity : ∀ r ∈ ltLanes lanes, r.Identity P T lanes cs := by
  simp only [ltLanes, List.forall_mem_cons, List.not_mem_nil, false_implies, implies_true,
    Rule.Identity, Rule.replacement, replacement_equations, value_equations, fold_equations,
    defined_equations, holds_equations, and_true, true_and, true_implies]
  and_intros <;> intro ws _ hProve lane hLane <;> have h0 := hProve 0 (by omega) <;>
    have hBounds := line_between (b := cs 1) (n := lanes - 1) (Int.natCast_nonneg lane) (by omega) <;>
    rw [mul_comm (cs 1)] at h0 <;> omega

theorem ltBroadcast_identity : ∀ r ∈ ltBroadcast, r.WrapIdentity P T lanes cs := by
  simp only [ltBroadcast, List.forall_mem_cons, List.not_mem_nil, false_implies, implies_true,
    Rule.WrapIdentity, Rule.replacement, replacement_equations, value_equations, fold_equations,
    defined_equations, facts_equations, and_true, true_and, true_implies]

theorem ltLinear_identity : ∀ r ∈ ltLinear, r.Identity P T lanes cs := by
  simp only [ltLinear, List.forall_mem_cons, List.not_mem_nil, false_implies, implies_true,
    Rule.Identity, Rule.replacement, replacement_equations, value_equations, fold_equations,
    defined_equations, holds_equations, and_true, true_and, true_implies]
  and_intros <;> intro ws _ lane _ <;> grind

theorem ltScaled_identity (hcs : ∀ i, T.Has (cs i)) : ∀ r ∈ ltScaled, r.Identity P T lanes cs := by
  simp only [ltScaled, List.forall_mem_cons, List.not_mem_nil, false_implies, implies_true,
    Rule.Identity, Rule.replacement, replacement_equations, value_equations, fold_equations,
    defined_equations, holds_equations, and_true, true_and, true_implies]
  and_intros <;> intro ws _ hc lane _
  · simp only [mul_lt_mul_iff_left₀ hc]
  · simp only [mul_lt_mul_right_of_neg hc]
  · rw [IntType.wrap_of_has (IntType.has_ediv_up (hcs 1) hc)]
    simp only [mul_lt_iff_lt_ediv hc]
  · rw [IntType.wrap_of_has (IntType.has_ediv (hcs 1) hc)]
    simp only [Int.ediv_lt_iff_lt_mul hc]
  · intro _
    simp only [Int.ediv_lt_iff_lt_mul hc]
  · intro _
    have hIff := Int.le_ediv_iff_mul_le (a := cs 0 + 1) (b := ws 0 lane) hc
    omega

theorem ltMinMax_identity : ∀ r ∈ ltMinMax, r.Identity P T lanes cs := by
  simp only [ltMinMax, List.forall_mem_cons, List.not_mem_nil, false_implies, implies_true,
    Rule.Identity, Rule.replacement, replacement_equations, value_equations, fold_equations,
    defined_equations, holds_equations, and_true, true_and, true_implies]
  and_intros <;> intro ws _ lane _ <;> grind

theorem ltSelect_identity : ∀ r ∈ ltSelect, r.Identity P T lanes cs := by
  simp only [ltSelect, List.forall_mem_cons, List.not_mem_nil, false_implies, implies_true,
    Rule.Identity, Rule.replacement, replacement_equations, value_equations, fold_equations,
    defined_equations, holds_equations, and_true, true_and, true_implies]
  and_intros <;> intro ws _ hc lane _ <;> grind

theorem ltRamps_identity : ∀ r ∈ ltRamps, r.Identity P T lanes cs := by
  simp only [ltRamps, List.forall_mem_cons, List.not_mem_nil, false_implies, implies_true,
    Rule.Identity, Rule.replacement, replacement_equations, value_equations, fold_equations,
    defined_equations, holds_equations, and_true, true_and, true_implies]
  intro ws _ lane _
  rw [mul_sub]
  omega

theorem ltMultiples_identity (hcs : ∀ i, T.Has (cs i)) :
    ∀ r ∈ ltMultiples, r.Identity P T lanes cs := by
  simp only [ltMultiples, List.forall_mem_cons, List.not_mem_nil, false_implies, implies_true,
    Rule.Identity, Rule.replacement, replacement_equations, value_equations, fold_equations,
    defined_equations, holds_equations, and_true, true_and, true_implies]
  and_intros
  · rintro ws _ ⟨hDvd, hc⟩ lane _
    rw [IntType.wrap_of_has (IntType.has_ediv (hcs 1) hc)]
    conv_rhs => rw [← ediv_mul_cancel_of_emod_eq_zero hDvd, ← mul_assoc]
    simp only [mul_lt_mul_iff_left₀ hc]
  · rintro ws _ ⟨hDvd, hc⟩ lane _
    rw [IntType.wrap_of_has (IntType.has_ediv (hcs 0) hc)]
    conv_rhs => rw [← ediv_mul_cancel_of_emod_eq_zero hDvd, ← mul_assoc]
    simp only [mul_lt_mul_iff_left₀ hc]
  · intro ws _ hc lane _
    rw [IntType.wrap_of_has (IntType.has_ediv_up (hcs 1) hc)]
    have hIff := mul_lt_iff_lt_ediv (a := ws 0 lane - ws 1 lane) (b := cs 1) hc
    rw [sub_mul] at hIff
    omega
  · intro ws _ hc lane _
    rw [IntType.wrap_of_has (IntType.has_ediv (hcs 1) hc)]
    have hIff := Int.ediv_lt_iff_lt_mul (a := cs 1) (b := ws 1 lane - ws 0 lane) hc
    rw [sub_mul] at hIff
    omega

theorem ltStairs_identity : ∀ r ∈ ltStairs, r.Identity P T lanes cs := by
  simp only [ltStairs, List.forall_mem_cons, List.not_mem_nil, false_implies, implies_true,
    Rule.Identity, Rule.replacement, replacement_equations, value_equations, fold_equations,
    defined_equations, holds_equations, and_true, true_and, true_implies]
  and_intros <;> intro ws _ hc lane _ h0 <;>
    have hStep := Int.ediv_mul_add_emod (ws 0 lane + cs 0) (cs 1) <;>
    have hStep' := Int.ediv_mul_add_emod (ws 0 lane) (cs 1) <;>
    have hNonneg := Int.emod_nonneg (ws 0 lane) h0 <;>
    grind

theorem ltDivisions_identity : ∀ r ∈ ltDivisions, r.Identity P T lanes cs := by
  simp only [ltDivisions, List.forall_mem_cons, List.not_mem_nil, false_implies, implies_true,
    Rule.Identity, Rule.replacement, replacement_equations, value_equations, fold_equations,
    defined_equations, holds_equations, and_true, true_and, true_implies]
  and_intros <;> rintro ws _ ⟨hc, _⟩ lane _ _
  · have hLe := ediv_add_le (a := ws 0 lane + cs 2) (b := ws 0 lane + cs 1) (k := 0) hc (by omega)
    omega
  · have hLt := ediv_lt_add (a := ws 0 lane + cs 1) (b := ws 0 lane + cs 2) (k := 0) hc (by omega)
    omega
  · have hLe := ediv_add_le (a := ws 0 lane + cs 2) (b := ws 0 lane) (k := 0) hc (by omega)
    omega
  · have hLt := ediv_lt_add (a := ws 0 lane) (b := ws 0 lane + cs 2) (k := 0) hc (by omega)
    omega
  · have hLe := ediv_add_le (a := ws 0 lane) (b := ws 0 lane + cs 1) (k := 0) hc (by omega)
    omega
  · have hLt := ediv_lt_add (a := ws 0 lane + cs 1) (b := ws 0 lane) (k := 0) hc (by omega)
    omega
  · have hLe := ediv_add_le (a := ws 0 lane) (b := ws 0 lane + cs 1) (k := cs 2) hc (by omega)
    omega
  · have hLt := ediv_lt_add (a := ws 0 lane + cs 1) (b := ws 0 lane) (k := cs 2) hc (by omega)
    omega

theorem ltDivisionsMinMax_identity : ∀ r ∈ ltDivisionsMinMax, r.Identity P T lanes cs := by
  simp only [ltDivisionsMinMax, List.forall_mem_cons, List.not_mem_nil, false_implies, implies_true,
    Rule.Identity, Rule.replacement, replacement_equations, value_equations, fold_equations,
    defined_equations, holds_equations, and_true, true_and, true_implies]
  and_intros <;> rintro ws _ ⟨hc, _⟩ lane _ _
  · have hLe := ediv_add_le (a := ws 0 lane) (b := ws 0 lane + cs 1) (k := cs 2) hc (by omega)
    omega
  · have hLt := ediv_lt_add (a := ws 0 lane + cs 1) (b := ws 0 lane) (k := cs 2) hc (by omega)
    omega
  · have hLe := ediv_add_le (a := ws 0 lane + cs 2) (b := ws 0 lane + cs 1) (k := 0) hc (by omega)
    omega
  · have hLt := ediv_lt_add (a := ws 0 lane + cs 1) (b := ws 0 lane + cs 2) (k := 0) hc (by omega)
    omega
  · have hLe := ediv_add_le (a := ws 0 lane) (b := ws 0 lane + cs 1) (k := 0) hc (by omega)
    omega
  · have hLt := ediv_lt_add (a := ws 0 lane + cs 1) (b := ws 0 lane) (k := 0) hc (by omega)
    omega
  · have hLe := ediv_add_le (a := ws 0 lane) (b := ws 0 lane + cs 1) (k := cs 2) hc (by omega)
    omega
  · have hLt := ediv_lt_add (a := ws 0 lane + cs 1) (b := ws 0 lane) (k := cs 2) hc (by omega)
    omega
  · have hLe := ediv_add_le (a := ws 0 lane + cs 2) (b := ws 0 lane + cs 1) (k := 0) hc (by omega)
    omega
  · have hLt := ediv_lt_add (a := ws 0 lane + cs 1) (b := ws 0 lane + cs 2) (k := 0) hc (by omega)
    omega
  · have hLe := ediv_add_le (a := ws 0 lane) (b := ws 0 lane + cs 1) (k := 0) hc (by omega)
    omega
  · have hLt := ediv_lt_add (a := ws 0 lane + cs 1) (b := ws 0 lane) (k := 0) hc (by omega)
    omega
  · have hLe := ediv_add_le (a := ws 0 lane + cs 1) (b := ws 0 lane + cs 2) (k := 0) hc (by omega)
    omega
  · have hLt := ediv_lt_add (a := ws 0 lane + cs 2) (b := ws 0 lane + cs 1) (k := 0) hc (by omega)
    omega
  · have hLe := ediv_add_le (a := ws 0 lane + cs 1) (b := ws 0 lane) (k := 0) hc (by omega)
    omega
  · have hLt := ediv_lt_add (a := ws 0 lane) (b := ws 0 lane + cs 1) (k := 0) hc (by omega)
    omega
  · have hLe := ediv_add_le (a := ws 0 lane + cs 1) (b := ws 0 lane + cs 2) (k := 0) hc (by omega)
    omega
  · have hLt := ediv_lt_add (a := ws 0 lane + cs 2) (b := ws 0 lane + cs 1) (k := 0) hc (by omega)
    omega
  · have hLe := ediv_add_le (a := ws 0 lane + cs 1) (b := ws 0 lane) (k := 0) hc (by omega)
    omega
  · have hLt := ediv_lt_add (a := ws 0 lane) (b := ws 0 lane + cs 1) (k := 0) hc (by omega)
    omega
  · have hLe := ediv_add_le (a := ws 0 lane) (b := ws 0 lane + cs 2) (k := cs 1) hc (by omega)
    omega
  · have hLt := ediv_lt_add (a := ws 0 lane + cs 2) (b := ws 0 lane) (k := cs 1) hc (by omega)
    omega
  · have hLe := ediv_add_le (a := ws 0 lane) (b := ws 0 lane + cs 2) (k := cs 1) hc (by omega)
    omega
  · have hLt := ediv_lt_add (a := ws 0 lane + cs 2) (b := ws 0 lane) (k := cs 1) hc (by omega)
    omega
  · have hLe := ediv_add_le (a := ws 0 lane + cs 2) (b := ws 0 lane) (k := 0) hc (by omega)
    omega
  · have hLt := ediv_lt_add (a := ws 0 lane) (b := ws 0 lane + cs 2) (k := 0) hc (by omega)
    omega
  · have hLe := ediv_add_le (a := ws 0 lane + cs 2) (b := ws 0 lane) (k := 0) hc (by omega)
    omega
  · have hLt := ediv_lt_add (a := ws 0 lane) (b := ws 0 lane + cs 2) (k := 0) hc (by omega)
    omega
  · have hLe := ediv_add_le (a := ws 0 lane) (b := ws 0 lane + cs 2) (k := 0) hc (by omega)
    omega
  · have hLt := ediv_lt_add (a := ws 0 lane + cs 2) (b := ws 0 lane) (k := 0) hc (by omega)
    omega
  · have hLe := ediv_add_le (a := ws 0 lane) (b := ws 0 lane + cs 2) (k := 0) hc (by omega)
    omega
  · have hLt := ediv_lt_add (a := ws 0 lane + cs 2) (b := ws 0 lane) (k := 0) hc (by omega)
    omega

theorem ltMinMin_identity : ltMinMin.Identity P T lanes cs := by
  simp only [ltMinMin, Rule.Identity, Rule.replacement, replacement_equations, value_equations,
    defined_equations, holds_equations, and_true, true_implies]
  intro ws _ hp lane _
  grind

theorem ltMaxMax_identity : ltMaxMax.Identity P T lanes cs := by
  simp only [ltMaxMax, Rule.Identity, Rule.replacement, replacement_equations, value_equations,
    defined_equations, holds_equations, and_true, true_implies]
  intro ws _ hp lane _
  grind

theorem ltMinMinPlus_identity (hShift : cs 2 ≤ 0) : ltMinMinPlus.Identity P T lanes cs := by
  simp only [ltMinMinPlus, Rule.Identity, Rule.replacement, replacement_equations, value_equations,
    defined_equations, holds_equations, and_true, true_implies]
  intro ws _ hp lane _
  grind

theorem ltMaxMaxPlus_identity (hShift : cs 2 ≤ 0) : ltMaxMaxPlus.Identity P T lanes cs := by
  simp only [ltMaxMaxPlus, Rule.Identity, Rule.replacement, replacement_equations, value_equations,
    defined_equations, holds_equations, and_true, true_implies]
  intro ws _ hp lane _
  grind

theorem ltAligned_identity (hcs : ∀ i, T.Has (cs i)) :
    ∀ r ∈ ltAligned lanes, r.Identity P T lanes cs := by
  simp only [ltAligned, List.forall_mem_cons, List.not_mem_nil, false_implies, implies_true,
    Rule.Identity, Rule.replacement, replacement_equations, value_equations, fold_equations,
    defined_equations, holds_equations, and_true, true_and, true_implies]
  and_intros
  · rintro ws _ ⟨⟨⟨hc, hDvd⟩, hu⟩, hl⟩ lane hLane
    rw [IntType.wrap_of_has (IntType.has_ediv (hcs 3) hc),
      IntType.wrap_of_has (IntType.has_ediv (hcs 2) hc)]
    have hBounds := line_bounds (i := lane) (n := lanes - 1) (Int.natCast_nonneg lane) (by omega)
      (Int.emod_nonneg (cs 2) hc.ne') (Int.emod_lt_of_pos (cs 2) hc)
      (by rwa [mul_comm]) (by rwa [mul_comm])
    have hScale := scaled_lt_iff (p := ws 0 0 * (cs 3 / cs 0) + cs 2 / cs 0) (q := ws 2 0) hBounds.1
      hBounds.2
    have hSplit : (ws 0 0 * (cs 3 / cs 0) + cs 2 / cs 0) * cs 0 + (cs 2 % cs 0 + lane * cs 1) =
        ws 0 0 * cs 3 + cs 2 + lane * cs 1 := by
      rw [add_mul, mul_assoc, ediv_mul_cancel_of_emod_eq_zero hDvd]
      have hE := Int.ediv_mul_add_emod (cs 2) (cs 0)
      omega
    rw [hSplit] at hScale
    simp only [hScale]
  · rintro ws _ ⟨⟨⟨hc, hDvd⟩, hu⟩, hl⟩ lane hLane
    rw [IntType.wrap_of_has (IntType.has_ediv (hcs 3) hc)]
    have hBounds := line_bounds (a := 0) (i := lane) (n := lanes - 1) (Int.natCast_nonneg lane)
      (by omega) le_rfl hc (by rwa [zero_add, mul_comm]) (by rwa [zero_add, mul_comm])
    have hScale := scaled_lt_iff (p := ws 0 0 * (cs 3 / cs 0)) (q := ws 2 0) hBounds.1 hBounds.2
    rw [mul_assoc, ediv_mul_cancel_of_emod_eq_zero hDvd, zero_add] at hScale
    simp only [hScale]

/-- All guarded rules but the two that compare with a shifted minimum or maximum. -/
theorem ltGuarded_identity (hcs : ∀ i, T.Has (cs i)) {r : Rule} (hr : r ∈ ltGuarded lanes)
    (hMin : r = ltMinMinPlus → cs 2 ≤ 0) (hMax : r = ltMaxMaxPlus → cs 2 ≤ 0) :
    r.Identity P T lanes cs := by
  simp only [ltGuarded, ltClamps, List.mem_append, List.mem_cons, List.not_mem_nil, or_false] at hr
  rcases hr with (((((((((hr | hr) | hr) | hr) | hr) | hr) | hr) | hr) | hr) | hr) | hr
  · exact ltLinear_identity r hr
  · exact ltScaled_identity hcs r hr
  · exact ltMinMax_identity r hr
  · exact ltSelect_identity r hr
  · exact ltRamps_identity r hr
  · exact ltMultiples_identity hcs r hr
  · exact ltStairs_identity r hr
  · exact ltDivisions_identity r hr
  · exact ltDivisionsMinMax_identity r hr
  · rcases hr with rfl | rfl | rfl | rfl
    · exact ltMinMin_identity
    · exact ltMinMinPlus_identity (hMin rfl)
    · exact ltMaxMax_identity
    · exact ltMaxMaxPlus_identity (hMax rfl)
  · exact ltAligned_identity hcs r hr

end Identities

set_option maxRecDepth 4000 in
theorem ltRules_wellFormed (T : IntType) (lanes : Int) :
    (ltReturned T ++ ltLanes lanes ++ ltBroadcast ++ ltGuarded lanes).all Rule.wellFormed = true :=
  rfl

section Soundness

variable {P : Nat → Int → Prop} {T : IntType} {lanes : Nat} {cs : Nat → Int}

theorem ltPlus_predicate (hT : noOverflowInt T = true) {isConst : Nat → Bool}
    {prove : Pattern → Bool} (h : evaluatePredicate T cs isConst prove (ge c0 (c1 + c2)) = true) :
    cs 1 + cs 2 ≤ cs 0 ∧ T.Has (cs 1 + cs 2) := by
  have hSum : ∃ v, foldArith T (cs 1 + cs 2) = some v := by
    rw [← Option.ne_none_iff_exists']
    intro hNone
    obtain ⟨v, hv, -⟩ := evaluatePredicate_iff.mp h
    change (do return evalCmp .ge (← some (cs 0)) (← foldArith T (cs 1 + cs 2)) : Option Int) = some v at hv
    rw [hNone] at hv
    cases hv
  obtain ⟨v, hv⟩ := hSum
  obtain ⟨rfl, hHas⟩ := foldArith_eq hT hv
  obtain ⟨w, hw, hNe⟩ := evaluatePredicate_iff.mp h
  change (do return evalCmp .ge (← some (cs 0)) (← foldArith T (cs 1 + cs 2)) : Option Int) = some w at hw
  rw [hv] at hw
  cases hw
  exact ⟨@cmpHolds_of_ne_zero .ge _ _ hNe, hHas⟩

/-- With a positive shift, a wildcard below both constants makes the comparison
true. -/
theorem ltMinMinPlus_unsound (hT : noOverflowInt T = true) (hcs : ∀ i, T.Has (cs i))
    (hLanes : 0 < lanes) (hSome : ∃ ws, ltMinMinPlus.Applies .checked T lanes cs ws)
    (h : ltMinMinPlus.SoundAt .checked .exact T lanes cs) : cs 2 ≤ 0 := by
  by_contra hShift
  obtain ⟨ws, -, hPred, -⟩ := hSome
  obtain ⟨hLe, hHas⟩ := ltPlus_predicate hT hPred
  have hBefore (lane : Nat) :
      eval .checked T cs (Wilds.uniform (cs 1)).value lane ltMinMinPlus.before = some 1 := by
    change (do
      let b ← arith .checked T (min (cs 1) (cs 1) + cs 2)
      return evalCmp .lt (min (cs 1) (cs 0)) b : Option Int) = some 1
    rw [min_self, arith, if_pos hHas, min_eq_left (by omega)]
    simp only [Option.bind_eq_bind, Option.bind_some, Option.pure_def, evalCmp, Option.some.injEq]
    omega
  have hSame := h (Wilds.uniform (cs 1))
    ⟨Wilds.uniform_typed (hcs 1), hPred, fun lane _ => ⟨1, hBefore lane⟩⟩ 0 hLanes
  rw [hBefore] at hSame
  exact absurd (Option.some.inj hSame) (by simp [literal])

theorem ltMaxMaxPlus_unsound (hT : noOverflowInt T = true) (hcs : ∀ i, T.Has (cs i))
    (hLanes : 0 < lanes) (hSome : ∃ ws, ltMaxMaxPlus.Applies .checked T lanes cs ws)
    (h : ltMaxMaxPlus.SoundAt .checked .exact T lanes cs) : cs 2 ≤ 0 ∨ cs 0 = T.max := by
  by_contra hNot
  rw [not_or] at hNot
  obtain ⟨hShift, hTop⟩ := hNot
  obtain ⟨ws, -, hPred, -⟩ := hSome
  obtain ⟨hLe, hHas⟩ := ltPlus_predicate hT hPred
  have hc0 := hcs 0
  have hc1 := hcs 1
  unfold IntType.Has at hc0 hc1 hHas
  have hBefore (lane : Nat) : eval .checked T cs (Wilds.uniform (cs 0 - cs 2 + 1)).value lane
      ltMaxMaxPlus.before = some 1 := by
    change (do
      let b ← arith .checked T (max (cs 0 - cs 2 + 1) (cs 1) + cs 2)
      return evalCmp .lt (max (cs 0 - cs 2 + 1) (cs 0)) b : Option Int) = some 1
    rw [max_eq_left (by omega), max_eq_right (by omega), arith,
      if_pos (show T.Has _ by unfold IntType.Has; omega)]
    simp only [Option.bind_eq_bind, Option.bind_some, Option.pure_def, evalCmp, Option.some.injEq]
    omega
  have hSame := h (Wilds.uniform (cs 0 - cs 2 + 1))
    ⟨Wilds.uniform_typed (by unfold IntType.Has; omega), hPred, fun lane _ => ⟨1, hBefore lane⟩⟩ 0 hLanes
  rw [hBefore] at hSame
  exact absurd (Option.some.inj hSame) (by simp [literal])

/-- The largest constant is at least anything that does not overflow. -/
theorem ltMaxMaxPlus_sound_of_max (hTop : cs 0 = T.max) :
    ltMaxMaxPlus.SoundAt .checked .exact T lanes cs := by
  intro ws hApplies lane hLane
  obtain ⟨v, hv⟩ := hApplies.2.2 lane hLane
  have hx := (hApplies.1.1 0 lane).2
  change (do
    let b ← arith .checked T (max (ws.value 0 lane) (cs 1) + cs 2)
    return evalCmp .lt (max (ws.value 0 lane) (cs 0)) b : Option Int) = some v at hv
  change some 0 = _
  rw [show eval .checked T cs ws.value lane ltMaxMaxPlus.before = some v from hv]
  simp only [arith] at hv
  split_ifs at hv with hHas
  · simp only [Option.bind_eq_bind, Option.bind_some, Option.pure_def, evalCmp,
      Option.some.injEq] at hv
    rw [← hv, if_neg (by have hMax := hHas.2; omega)]
  · cases hv

/-- The two rules that compare a minimum or a maximum with a shifted one are
sound only for a shift that is not positive; at the top of the type the second
one has nothing left to compare. -/
def LtShiftSound (T : IntType) (cs : Nat → Int) (r : Rule) : Prop :=
  (r = ltMinMinPlus → cs 2 ≤ 0) ∧ (r = ltMaxMaxPlus → cs 2 ≤ 0 ∨ cs 0 = T.max)

variable (cs) in
theorem ltReturned_plain : ∀ r ∈ ltReturned T ++ ltBroadcast,
    Plain T r.before ∧ Plain T r.replacement ∧ FoldsDefined T cs r.replacement := by
  simp only [ltReturned, ltSame, ltRange, ltExtremes, ltBroadcast, List.cons_append, List.nil_append, List.forall_mem_cons,
    List.not_mem_nil, false_implies, implies_true, Rule.replacement, replacement_equations,
    plain_equations, FoldsDefined, forallFolds_equations, T.has_zero, T.has_min, T.has_max, and_true, true_and]
  exact ⟨⟨rfl, rfl⟩, by simp [FoldsDefined, constantFold]⟩

theorem ltUnguarded_identity {r : Rule} (hr : r ∈ ltReturned T ++ ltBroadcast) :
    r.WrapIdentity (fun _ => T.Has) T lanes cs := by
  rcases List.mem_append.mp hr with hr | hr
  · exact ltReturned_identity hr (fun _ _ _ hv => hv)
  · exact ltBroadcast_identity r hr

/-- Exactly when a rule of `visit(LT)` is sound, for constants it can fire on. -/
theorem lt_sound_iff (T : IntType) (lanes : Nat) (hLanes : 0 < lanes) (cs : Nat → Int)
    (hcs : ∀ i, T.Has (cs i)) (r : Rule) (hr : r ∈ ltRules T lanes)
    (hSome : ∃ ws, r.Applies (sourceMode T) T lanes cs ws) :
    r.SoundAt (sourceMode T) (targetMode T) T lanes cs ↔
      FoldsDefined T cs r.replacement ∧ LtShiftSound T cs r := by
  cases hT : noOverflowInt T with
  | true =>
      simp only [sourceMode, targetMode, hT, ↓reduceIte] at hSome ⊢
      simp only [ltRules, ltReturnRules, ltMutateRules, hT, ↓reduceIte, ← List.append_assoc] at hr
      have hForm := List.all_eq_true.mp (ltRules_wellFormed T lanes) r hr
      constructor
      · intro h
        refine ⟨Rule.foldsDefined_of_soundAt hT hcs hForm hLanes hSome h, ?_, ?_⟩
        · rintro rfl
          exact ltMinMinPlus_unsound hT hcs hLanes hSome h
        · rintro rfl
          exact ltMaxMaxPlus_unsound hT hcs hLanes hSome h
      · rintro ⟨hFolds, hMin, hMax⟩
        by_cases hTop : r = ltMaxMaxPlus ∧ cs 0 = T.max
        · rw [hTop.1]
          exact ltMaxMaxPlus_sound_of_max hTop.2
        · refine Rule.soundAt_of_identity hT hcs hForm ?_ hFolds
          simp only [List.mem_append] at hr
          rcases hr with ((hr | hr) | hr) | hr
          · exact Rule.identity_of_wrap (ltReturned_identity hr fun _ _ _ hv => hv)
          · exact ltLanes_identity r hr
          · exact Rule.identity_of_wrap (ltBroadcast_identity r hr)
          · exact ltGuarded_identity hcs hr hMin
              (fun h => (hMax h).resolve_right (fun hEq => hTop ⟨h, hEq⟩))
  | false =>
      simp only [ltRules, ltReturnRules, ltMutateRules, hT, Bool.false_eq_true, ↓reduceIte,
        List.append_nil] at hr
      obtain ⟨hBefore, hAfter, hFolds⟩ := ltReturned_plain cs r hr
      refine iff_of_true (Rule.soundAt_plain hcs hBefore hAfter (ltUnguarded_identity hr) hFolds) ?_
      refine ⟨hFolds, ?_, ?_⟩
      · rintro rfl
        exact absurd hBefore.2 not_false
      · rintro rfl
        exact absurd hBefore.2 not_false

theorem lt_sound_iff_linear :
    (rewrite (lt (x + c0) y) (lt x (y + fold (-c0)))).SoundAt .checked .exact .int32 1 (constants [5, 1, 2]) :=
  (lt_sound_iff .int32 1 (by decide) (constants [5, 1, 2]) (has_constants (by decide))
    (rewrite (lt (x + c0) y) (lt x (y + fold (-c0)))) (by decide)
    ⟨Wilds.uniform 0, Wilds.uniform_typed IntType.int32.has_zero, by decide, fun _ _ => ⟨0, rfl⟩⟩).mpr
    ⟨by simp [Rule.replacement, rewrite, operands, instantiate, FoldsDefined,
      ForallFolds, constantFold]; decide,
      by decide, by decide⟩

/-- Zero is less than one plus two, whatever is between them and five. -/
theorem ltMinMinPlus_not_sound :
    ltMinMinPlus ∈ ltRules .int32 1 ∧
    ltMinMinPlus.Applies .checked .int32 1 (constants [5, 1, 2]) (Wilds.uniform 0) ∧
    eval .checked .int32 (constants [5, 1, 2]) (Wilds.uniform 0).value 0 ltMinMinPlus.before = some 1 ∧
    eval .exact .int32 (constants [5, 1, 2]) (Wilds.uniform 0).value 0 ltMinMinPlus.replacement = some 0 :=
  ⟨by decide, ⟨Wilds.uniform_typed IntType.int32.has_zero, by decide, fun _ _ => ⟨1, rfl⟩⟩, rfl, rfl⟩

end Soundness

end Vyasa.Simplify
