import Vyasa.IRMatch.Wrapping
import Vyasa.Simplify.Rules.MinMax
import Vyasa.Euclid.Division

set_option linter.unusedSimpArgs false

/-! The rules of `visit(Min)` and `visit(Max)` are identities between integers.
Outside the guard one family of them needs a product not to wrap around. -/
namespace Vyasa.Simplify

open Word IRMatch Pattern Euclid

section Identities

variable {P : Nat → Int → Prop} {T : IntType} {lanes : Nat} {cs : Nat → Int}

theorem minMaxMarkers_identity :
    ∀ r ∈ minMarkers ++ maxMarkers, r.WrapIdentity P T lanes cs := by
  simp only [minMarkers, maxMarkers, List.forall_mem_append, List.forall_mem_cons, List.not_mem_nil,
    false_implies, implies_true, Rule.WrapIdentity, Rule.replacement, replacement_equations,
    operands_equations, value_equations, fold_equations, defined_equations, facts_equations,
    CmpHolds, and_true, true_and, true_implies]
  and_intros <;> intro ws _ lane _ <;> omega

theorem minMaxRange_identity (hP : ∀ i v, P i v → T.Has v) :
    ∀ r ∈ minRange T ++ maxRange T, r.WrapIdentity P T lanes cs := by
  simp only [minRange, maxRange, List.forall_mem_append, List.forall_mem_cons, List.not_mem_nil,
    false_implies, implies_true, Rule.WrapIdentity, Rule.replacement, replacement_equations,
    operands_equations, value_equations, fold_equations, defined_equations, facts_equations,
    CmpHolds, and_true, true_and, true_implies]
  and_intros <;> intro ws hws lane _ <;> have hRange := hP _ _ (hws 0 lane) <;>
    unfold IntType.Has at hRange <;> omega

theorem minMaxReturned_identity {r : Rule} (hr : r ∈ minReturned T ++ maxReturned T)
    (hP : r ∈ minRange T ++ maxRange T → ∀ i v, P i v → T.Has v) : r.WrapIdentity P T lanes cs := by
  have hMem : r ∈ minMarkers ++ maxMarkers ∨ r ∈ minRange T ++ maxRange T := by
    simp only [minReturned, maxReturned, List.mem_append] at hr ⊢
    tauto
  rcases hMem with hr | hr
  · exact minMaxMarkers_identity r hr
  · exact minMaxRange_identity (hP hr) r hr

theorem minMaxFloor_identity : ∀ r ∈ minFloor ++ maxFloor, r.WrapIdentity P T lanes cs := by
  simp only [minFloor, maxFloor, List.forall_mem_append, List.forall_mem_cons, List.not_mem_nil,
    false_implies, implies_true, Rule.WrapIdentity, Rule.replacement, replacement_equations,
    operands_equations, value_equations, fold_equations, defined_equations, facts_equations,
    CmpHolds, and_true, true_and, true_implies]
  and_intros <;> intro ws _ hc lane _ h0 <;>
    have hStep := Int.ediv_mul_le (ws 0 lane) h0 <;> omega

theorem minMaxNested_identity : ∀ r ∈ minNested ++ maxNested, r.WrapIdentity P T lanes cs := by
  simp only [minNested, maxNested, List.forall_mem_append, List.forall_mem_cons, List.not_mem_nil,
    false_implies, implies_true, Rule.WrapIdentity, Rule.replacement, replacement_equations,
    operands_equations, value_equations, fold_equations, defined_equations, facts_equations,
    CmpHolds, and_true, true_and, true_implies]
  and_intros <;> intros <;> grind

theorem minMaxMerged_identity : ∀ r ∈ minMerged ++ maxMerged, r.WrapIdentity P T lanes cs := by
  simp only [minMerged, maxMerged, List.forall_mem_append, List.forall_mem_cons, List.not_mem_nil,
    false_implies, implies_true, Rule.WrapIdentity, Rule.replacement, replacement_equations,
    operands_equations, value_equations, fold_equations, defined_equations, facts_equations,
    CmpHolds, and_true, true_and, true_implies]
  and_intros <;> intros <;> grind

theorem minMaxDistributed_identity :
    ∀ r ∈ minDistributed ++ maxDistributed, r.WrapIdentity P T lanes cs := by
  simp only [minDistributed, maxDistributed, List.forall_mem_append, List.forall_mem_cons, List.not_mem_nil,
    false_implies, implies_true, Rule.WrapIdentity, Rule.replacement, replacement_equations,
    operands_equations, value_equations, fold_equations, defined_equations, facts_equations,
    CmpHolds, and_true, true_and, true_implies]
  and_intros <;> intros <;> grind

theorem minMaxCommuted_identity : ∀ r ∈ [minCommuted, maxCommuted], r.Identity P T lanes cs := by
  simp only [minCommuted, maxCommuted, List.forall_mem_append, List.forall_mem_cons, List.not_mem_nil,
    false_implies, implies_true, Rule.Identity, Rule.replacement, replacement_equations,
    operands_equations, value_equations, fold_equations, defined_equations, holds_equations,
    and_true, true_and, true_implies]
  exact ⟨fun ws _ lane _ => min_comm _ _, fun ws _ lane _ => max_comm _ _⟩

theorem minMaxLanes_identity :
    ∀ r ∈ minLanes lanes ++ maxLanes lanes, r.Identity P T lanes cs := by
  simp only [minLanes, maxLanes, List.forall_mem_append, List.forall_mem_cons, List.not_mem_nil,
    false_implies, implies_true, Rule.Identity, Rule.replacement, replacement_equations,
    operands_equations, value_equations, fold_equations, defined_equations, holds_equations,
    and_true, true_and, true_implies]
  and_intros <;> intro ws _ hProve lane hLane <;> have h0 := hProve 0 (by omega) <;>
    have hBounds := line_between (b := ws 1 0) (n := lanes - 1) (Int.natCast_nonneg lane) (by omega) <;>
    rw [mul_comm (ws 1 0)] at h0 <;> omega

theorem minMaxStairs_identity : ∀ r ∈ minStairs ++ maxStairs, r.Identity P T lanes cs := by
  simp only [minStairs, maxStairs, List.forall_mem_append, List.forall_mem_cons, List.not_mem_nil,
    false_implies, implies_true, Rule.Identity, Rule.replacement, replacement_equations,
    operands_equations, value_equations, fold_equations, defined_equations, holds_equations,
    and_true, true_and, true_implies]
  and_intros <;> intro ws _ hc lane _ h0 <;>
    have hStep := Int.ediv_mul_add_emod (ws 0 lane + cs 0) (cs 1) <;>
    have hStep' := Int.ediv_mul_add_emod (ws 0 lane) (cs 1) <;>
    have hNonneg := Int.emod_nonneg (ws 0 lane + cs 0) h0 <;>
    have hNonneg' := Int.emod_nonneg (ws 0 lane) h0 <;>
    have hLess := Int.emod_lt_of_pos (ws 0 lane + cs 0) hc.1 <;>
    have hLess' := Int.emod_lt_of_pos (ws 0 lane) hc.1 <;>
    omega

theorem minMaxLinear_identity : ∀ r ∈ minLinear ++ maxLinear, r.Identity P T lanes cs := by
  simp only [minLinear, maxLinear, List.forall_mem_append, List.forall_mem_cons, List.not_mem_nil,
    false_implies, implies_true, Rule.Identity, Rule.replacement, replacement_equations,
    operands_equations, value_equations, fold_equations, defined_equations, holds_equations,
    and_true, true_and, true_implies]
  and_intros <;> intros <;> grind

theorem minMaxScaled_identity : ∀ r ∈ minScaled ++ maxScaled, r.Identity P T lanes cs := by
  simp only [minScaled, maxScaled, List.forall_mem_append, List.forall_mem_cons, List.not_mem_nil,
    false_implies, implies_true, Rule.Identity, Rule.replacement, replacement_equations,
    operands_equations, value_equations, fold_equations, defined_equations, holds_equations,
    and_true, true_and, true_implies]
  and_intros <;> intro ws _ hEq lane _ <;> rw [← hEq, add_mul, mul_assoc] <;> omega

theorem minMaxSums_identity : ∀ r ∈ minSums ++ maxSums, r.Identity P T lanes cs := by
  simp only [minSums, maxSums, List.forall_mem_append, List.forall_mem_cons, List.not_mem_nil,
    false_implies, implies_true, Rule.Identity, Rule.replacement, replacement_equations,
    operands_equations, value_equations, fold_equations, defined_equations, holds_equations,
    and_true, true_and, true_implies]
  and_intros <;> intros <;> grind

theorem minMaxSelects_identity : ∀ r ∈ minSelects ++ maxSelects, r.Identity P T lanes cs := by
  simp only [minSelects, maxSelects, List.forall_mem_append, List.forall_mem_cons, List.not_mem_nil,
    false_implies, implies_true, Rule.Identity, Rule.replacement, replacement_equations,
    operands_equations, value_equations, fold_equations, defined_equations, holds_equations,
    and_true, true_and, true_implies]
  and_intros <;> intro ws _ lane _
  · split_ifs <;> rfl
  · omega
  · split_ifs <;> rfl
  · omega

theorem minMaxMultiples_identity : ∀ r ∈ minMultiples ++ maxMultiples,
    FoldsFit T cs r.replacement → r.Identity P T lanes cs := by
  simp only [minMultiples, maxMultiples, List.forall_mem_append, List.forall_mem_cons,
    List.not_mem_nil, false_implies, implies_true, Rule.Identity, Rule.replacement,
    replacement_equations, operands_equations, value_equations, fold_equations, defined_equations,
    holds_equations, FoldsFit, forallFolds_equations, quotientFits_iff, and_true, true_and,
    true_implies]
  and_intros <;> rintro ⟨-, hFit⟩ ws _ ⟨hc, hDvd⟩ lane _ <;> rw [IntType.wrap_of_has hFit] <;>
    have hCancel := ediv_mul_cancel_of_emod_eq_zero hDvd <;>
    simp (disch := omega) only [min_mul_of_nonneg, max_mul_of_nonneg, min_mul_of_neg,
      max_mul_of_neg, add_mul, mul_assoc, hCancel]

theorem minMaxDivisions_identity : ∀ r ∈ minDivisions ++ maxDivisions, r.Identity P T lanes cs := by
  simp only [minDivisions, maxDivisions, List.forall_mem_append, List.forall_mem_cons, List.not_mem_nil,
    false_implies, implies_true, Rule.Identity, Rule.replacement, replacement_equations,
    operands_equations, value_equations, fold_equations, defined_equations, holds_equations,
    and_true, true_and, true_implies]
  and_intros <;> intro ws _ hc lane _ h0 <;> refine ⟨?_, by omega⟩
  · exact (monotone_ediv hc).map_min
  · exact (antitone_ediv hc).map_max
  · rw [← Int.add_mul_ediv_right _ _ (by omega)]
    exact (monotone_ediv hc).map_min
  · rw [← Int.add_mul_ediv_right _ _ (by omega)]
    exact (antitone_ediv hc).map_max
  · exact (monotone_ediv hc).map_max
  · exact (antitone_ediv hc).map_min
  · rw [← Int.add_mul_ediv_right _ _ (by omega)]
    exact (monotone_ediv hc).map_max
  · rw [← Int.add_mul_ediv_right _ _ (by omega)]
    exact (antitone_ediv hc).map_min

end Identities

section Soundness

variable {P : Nat → Int → Prop} {T : IntType} {lanes : Nat} {cs : Nat → Int}

def minMaxGuarded (lanes : Int) : List Rule :=
  minLanes lanes ++ maxLanes lanes ++ (minStairs ++ maxStairs) ++ (minLinear ++ maxLinear) ++
    (minScaled ++ maxScaled) ++ (minSums ++ maxSums) ++ (minDivisions ++ maxDivisions) ++
    (minSelects ++ maxSelects) ++ [minCommuted, maxCommuted]

def minMaxPlain (T : IntType) : List Rule :=
  minReturned T ++ maxReturned T ++ (minNested ++ maxNested) ++ (minMerged ++ maxMerged) ++
    (minDistributed ++ maxDistributed)

theorem minMaxGuarded_identity {r : Rule} (hr : r ∈ minMaxGuarded lanes) :
    r.Identity P T lanes cs := by
  unfold minMaxGuarded at hr
  rcases List.mem_append.mp hr with hr | hr
  on_goal 2 => exact minMaxCommuted_identity r hr
  rcases List.mem_append.mp hr with hr | hr
  on_goal 2 => exact minMaxSelects_identity r hr
  rcases List.mem_append.mp hr with hr | hr
  on_goal 2 => exact minMaxDivisions_identity r hr
  rcases List.mem_append.mp hr with hr | hr
  on_goal 2 => exact minMaxSums_identity r hr
  rcases List.mem_append.mp hr with hr | hr
  on_goal 2 => exact minMaxScaled_identity r hr
  rcases List.mem_append.mp hr with hr | hr
  on_goal 2 => exact minMaxLinear_identity r hr
  rcases List.mem_append.mp hr with hr | hr
  · exact minMaxLanes_identity r hr
  · exact minMaxStairs_identity r hr

theorem minMaxPlain_identity {r : Rule} (hr : r ∈ minMaxPlain T)
    (hP : r ∈ minRange T ++ maxRange T → ∀ i v, P i v → T.Has v) : r.WrapIdentity P T lanes cs := by
  unfold minMaxPlain at hr
  rcases List.mem_append.mp hr with hr | hr
  on_goal 2 => exact minMaxDistributed_identity r hr
  rcases List.mem_append.mp hr with hr | hr
  on_goal 2 => exact minMaxMerged_identity r hr
  rcases List.mem_append.mp hr with hr | hr
  · exact minMaxReturned_identity hr hP
  · exact minMaxNested_identity r hr

set_option maxRecDepth 4000 in
theorem minMaxRules_wellFormed (T : IntType) (lanes : Int) :
    (minMaxPlain T ++ (minFloor ++ maxFloor) ++ minMaxGuarded lanes ++
      (minMultiples ++ maxMultiples)).all Rule.wellFormed = true :=
  rfl

set_option maxRecDepth 4000 in
theorem minMaxRules_foldsReduced (T : IntType) (lanes : Int) :
    (minMaxPlain T ++ (minFloor ++ maxFloor) ++ minMaxGuarded lanes).all
      (fun r => r.replacement.foldsReduced) = true :=
  rfl

theorem mem_minMax {r : Rule} (hr : r ∈ minRules T lanes ++ maxRules T lanes) :
    r ∈ minMaxPlain T ∨ r ∈ minFloor ++ maxFloor ∨ r = minCommuted ∨ r = maxCommuted ∨
      noOverflowInt T = true ∧ (r ∈ minMaxGuarded lanes ∨ r ∈ minMultiples ++ maxMultiples) := by
  cases hT : noOverflowInt T <;>
    simp only [minRules, maxRules, minReturnRules, maxReturnRules, minMutateRules, maxMutateRules,
      minGuarded, maxGuarded, minMaxPlain, minMaxGuarded, hT, Bool.false_eq_true, ↓reduceIte,
      List.mem_append, List.mem_cons, List.not_mem_nil, or_false] at hr ⊢ <;> tauto
variable (cs) in
theorem minMax_plain : ∀ r ∈ minMaxPlain T,
    Plain T r.before ∧ Plain T r.replacement ∧ FoldsDefined T cs r.replacement := by
  simp only [minMaxPlain, minReturned, maxReturned, minMarkers, maxMarkers, minRange, maxRange, minNested, maxNested, minMerged, maxMerged,
    minDistributed, maxDistributed, List.forall_mem_append, List.forall_mem_cons,
    List.not_mem_nil, false_implies, implies_true, Rule.replacement, replacement_equations,
    operands_equations, plain_equations, FoldsDefined, forallFolds_equations, T.has_min, T.has_max,
    and_true, true_and]
  and_intros <;> first | rfl | exact Option.some_ne_none _

/-- A product that rounds down wraps around below the least value, unless that is
a multiple. -/
theorem wrap_floor_le_iff {c : Int} (hc : 0 < c) (hHas : T.Has c) :
    (∀ x, T.Has x → T.wrap (x / c * c) ≤ x) ↔ T.min % c = 0 := by
  constructor
  · intro h
    have hLow := le_antisymm (h _ T.has_min) (T.has_wrap _).1
    have hDvd := (T.wrap_modEq (T.min / c * c)).symm.dvd
    rw [hLow] at hDvd
    have hRem : T.min - T.min / c * c = T.min % c := by
      have hStep := Int.ediv_mul_add_emod T.min c
      omega
    rw [hRem] at hDvd
    have hSmall : T.min % c < 2 ^ T.bits := by
      have hLess := Int.emod_lt_of_pos T.min hc
      have hMax := hHas.2
      have hPow := T.two_pow
      unfold IntType.max at hMax
      split_ifs at hMax <;> omega
    exact Int.eq_zero_of_dvd_of_nonneg_of_lt (Int.emod_nonneg _ hc.ne') hSmall hDvd
  · intro h x hx
    have hLe := Int.ediv_mul_le x hc.ne'
    have hMono := mul_le_mul_of_nonneg_right (Int.ediv_le_ediv hc hx.1) hc.le
    rw [ediv_mul_cancel_of_emod_eq_zero h] at hMono
    rw [IntType.wrap_of_has ⟨hMono, hLe.trans hx.2⟩]
    exact hLe

theorem eval_floor {ws : Nat → Nat → Int} {lane : Nat} (hc : 0 < cs 0) (hx : T.Has (ws 0 lane)) :
    eval .wrapping T cs ws lane (x / c0 * c0) = some (T.wrap (ws 0 lane / cs 0 * cs 0)) := by
  change Option.bind (if cs 0 = 0 then none else some (T.wrap (ws 0 lane / cs 0)))
    (fun q => some (T.wrap (q * cs 0))) = _
  rw [if_neg hc.ne', IntType.wrap_of_has (IntType.has_ediv hx hc)]
  rfl

theorem minMaxFloor_eval {ws : Nat → Nat → Int} (lane : Nat) (hc : 0 < cs 0)
    (hx : T.Has (ws 0 lane)) : ∀ r ∈ minFloor ++ maxFloor,
      eval .wrapping T cs ws lane r.before ≠ none ∧
        (eval .wrapping T cs ws lane r.replacement = eval .wrapping T cs ws lane r.before ↔
          T.wrap (ws 0 lane / cs 0 * cs 0) ≤ ws 0 lane) := by
  simp only [minFloor, maxFloor, List.forall_mem_append, List.forall_mem_cons, List.not_mem_nil,
    false_implies, implies_true, Rule.replacement, replacement_equations, operands_equations,
    eval_floor hc hx, eval_equations, Option.bind_eq_bind, Option.bind_some,
    Option.pure_def, Option.some.injEq, ne_eq, reduceCtorEq, not_false_eq_true, and_true, true_and]
  omega

theorem minMaxFloor_sound_iff (hLanes : 0 < lanes) (hcs : ∀ i, T.Has (cs i)) {r : Rule}
    (hr : r ∈ minFloor ++ maxFloor) (hSome : ∃ ws, r.Applies .wrapping T lanes cs ws) :
    r.SoundAt .wrapping .wrapping T lanes cs ↔ T.min % cs 0 = 0 := by
  obtain ⟨ws, -, hPred, -⟩ := hSome
  have hGt : r.predicate = gt c0 0 := by
    revert r
    simp [minFloor, maxFloor]
  rw [hGt] at hPred
  have hFacts : Facts T cs ws.value (gt c0 0) := facts_of_predicate hPred
  have hc : 0 < cs 0 := hFacts
  rw [← wrap_floor_le_iff hc (hcs 0)]
  constructor
  · intro h v hv
    have hTyped := Wilds.uniform_typed (p := r.before) hv
    have hEval (lane : Nat) := minMaxFloor_eval lane hc (hTyped.1 0 lane) r hr
    refine (hEval 0).2.mp (h (Wilds.uniform v) ⟨hTyped, ?_, fun lane _ => ?_⟩ 0 hLanes)
    · rw [hGt]
      exact hPred
    · exact Option.ne_none_iff_exists'.mp (hEval lane).1
  · intro h ws hApplies lane _
    exact (minMaxFloor_eval lane hc (hApplies.1.1 0 lane) r hr).2.mpr (h _ (hApplies.1.1 0 lane))

theorem minMaxCommuted_sound (m : Mode) :
    ∀ r ∈ [minCommuted, maxCommuted], r.SoundAt m m T lanes cs := by
  simp only [minCommuted, maxCommuted, List.forall_mem_cons, List.not_mem_nil, false_implies,
    implies_true, and_true, Rule.SoundAt, Rule.replacement, replacement_equations,
    operands_equations, eval_equations]
  constructor <;> intro ws _ lane _ <;>
    cases eval m T cs ws.value lane (broadcast x) <;>
    cases eval m T cs ws.value lane (ramp y z) <;>
    simp [min_comm, max_comm]

theorem minMaxMultiples_fit (hT : noOverflowInt T = true) (hcs : ∀ i, T.Has (cs i))
    (hLanes : 0 < lanes) : ∀ r ∈ minMultiples ++ maxMultiples,
      (∃ ws, r.Applies .checked T lanes cs ws) → r.SoundAt .checked .exact T lanes cs →
        FoldsFit T cs r.replacement := by
  have hSigned : T.signed = true := (Bool.and_eq_true_iff.mp hT).1
  obtain ⟨hMin, hMax, hLarge⟩ := IntType.bounds_of_signed hSigned
  have hNeg : T.min / -1 = -T.min := by rw [Int.ediv_neg, Int.ediv_one]
  have hWrap := IntType.wrap_neg_min hSigned
  simp only [minMultiples, maxMultiples, List.forall_mem_append, List.forall_mem_cons,
    List.not_mem_nil, false_implies, implies_true, and_true]
  have hMinusOne : T.Has (-1) := by
    unfold IntType.Has
    omega
  and_intros <;> rintro ⟨ws, hApplies⟩ h <;>
    have hHolds := holds_of_predicate hT hcs (ne_zero_of_proves hT hcs ws) rfl hApplies.2.1 <;>
    have hFolds := (Rule.value_of_soundAt hT hcs rfl h ws hApplies hLanes).2 <;>
    simp only [Rule.replacement, replacement_equations, FoldsFit, FoldsDefined,
      forallFolds_equations, holds_equations, value_equations, true_and, and_true] at hHolds hFolds ⊢ <;>
    refine quotientFits_of T cs hcs hFolds (fun _ hi hj => ?_)
  -- A positive divisor is not `-1`. For a negative one, a value of zero or one for
  -- every wildcard shows that the wrapped quotient changes the result.
  all_goals
    first
      | omega
      | have hVal := (Rule.value_of_soundAt hT hcs rfl h (Wilds.uniform 0)
            ⟨Wilds.uniform_typed T.has_zero, hApplies.2.1, fun lane _ => by
              simp [eval_equations, arith, Wilds.uniform, hi, hj, T.has_zero, T.has_min, hMinusOne]⟩
            hLanes).1
        simp only [Rule.replacement, replacement_equations, value_equations, fold_equations, hi, hj,
          Wilds.uniform, hNeg, hWrap] at hVal
        omega
      | have hVal := (Rule.value_of_soundAt hT hcs rfl h (Wilds.uniform 1)
            ⟨Wilds.uniform_typed T.has_one, hApplies.2.1, fun lane _ => by
              simp [eval_equations, arith, Wilds.uniform, hi, hj, T.has_zero, T.has_min, hMinusOne]⟩
            hLanes).1
        simp only [Rule.replacement, replacement_equations, value_equations, fold_equations, hi, hj,
          Wilds.uniform, hNeg, hWrap] at hVal
        omega

/-- Where the type may not overflow, every folded constant is a value of it;
elsewhere, a stair-step function that no guard protects has the least value of
the type on a step. -/
def MinMaxSound (T : IntType) (cs : Nat → Int) (r : Rule) : Prop :=
  if noOverflowInt T then FoldsFit T cs r.replacement
  else r ∈ minFloor ++ maxFloor → T.min % cs 0 = 0

theorem minMax_checked_iff (hT : noOverflowInt T = true) (hLanes : 0 < lanes)
    (hcs : ∀ i, T.Has (cs i)) {r : Rule} (hr : r ∈ minRules T lanes ++ maxRules T lanes)
    (hSome : ∃ ws, r.Applies .checked T lanes cs ws) :
    r.SoundAt .checked .exact T lanes cs ↔ FoldsFit T cs r.replacement := by
  have hMem : r ∈ minMaxPlain T ++ (minFloor ++ maxFloor) ++ minMaxGuarded lanes ∨
      r ∈ minMultiples ++ maxMultiples := by
    rcases mem_minMax hr with hr | hr | rfl | rfl | ⟨-, hr | hr⟩
    · exact Or.inl (List.mem_append_left _ (List.mem_append_left _ hr))
    · exact Or.inl (List.mem_append_left _ (List.mem_append_right _ hr))
    · exact Or.inl (List.mem_append_right _ (List.mem_append_right _ (by simp)))
    · exact Or.inl (List.mem_append_right _ (List.mem_append_right _ (by simp)))
    · exact Or.inl (List.mem_append_right _ hr)
    · exact Or.inr hr
  have hForm : r.wellFormed = true :=
    List.all_eq_true.mp (minMaxRules_wellFormed T lanes) r (List.mem_append.mpr hMem)
  rcases hMem with hr | hr
  · have hReduced := List.all_eq_true.mp (minMaxRules_foldsReduced T lanes) r hr
    refine ⟨fun h => foldsFit_of_reduced hcs hReduced
      (Rule.foldsDefined_of_soundAt hT hcs hForm hLanes hSome h), fun h => ?_⟩
    refine Rule.soundAt_of_identity hT hcs hForm ?_ h.defined
    rcases List.mem_append.mp hr with hr | hr
    · rcases List.mem_append.mp hr with hr | hr
      · exact Rule.identity_of_wrap (minMaxPlain_identity hr fun _ _ _ hv => hv)
      · exact Rule.identity_of_wrap (minMaxFloor_identity r hr)
    · exact minMaxGuarded_identity hr
  · exact ⟨minMaxMultiples_fit hT hcs hLanes r hr hSome, fun h =>
      Rule.soundAt_of_identity hT hcs hForm (minMaxMultiples_identity r hr h) h.defined⟩

theorem minMax_wrapping_iff (hT : noOverflowInt T = false) (hLanes : 0 < lanes)
    (hcs : ∀ i, T.Has (cs i)) {r : Rule} (hr : r ∈ minRules T lanes ++ maxRules T lanes)
    (hSome : ∃ ws, r.Applies .wrapping T lanes cs ws) :
    r.SoundAt .wrapping .wrapping T lanes cs ↔
      (r ∈ minFloor ++ maxFloor → T.min % cs 0 = 0) := by
  by_cases hFloor : r ∈ minFloor ++ maxFloor
  · rw [minMaxFloor_sound_iff hLanes hcs hFloor hSome]
    exact ⟨fun h _ => h, fun h => h hFloor⟩
  · refine iff_of_true ?_ (fun h => absurd h hFloor)
    rcases mem_minMax hr with hr | hr | rfl | rfl | ⟨hTrue, -⟩
    · obtain ⟨hBefore, hAfter, hFolds⟩ := minMax_plain cs r hr
      exact Rule.soundAt_plain hcs hBefore hAfter (minMaxPlain_identity hr fun _ _ _ hv => hv) hFolds
    · exact absurd hr hFloor
    · exact minMaxCommuted_sound .wrapping minCommuted (by simp)
    · exact minMaxCommuted_sound .wrapping maxCommuted (by simp)
    · rw [hT] at hTrue
      cases hTrue

/-- Exactly when a rule of `visit(Min)` or `visit(Max)` is sound, for constants it
can fire on. -/
theorem minMax_sound_iff (T : IntType) (lanes : Nat) (hLanes : 0 < lanes) (cs : Nat → Int)
    (hcs : ∀ i, T.Has (cs i)) (r : Rule) (hr : r ∈ minRules T lanes ++ maxRules T lanes)
    (hSome : ∃ ws, r.Applies (sourceMode T) T lanes cs ws) :
    r.SoundAt (sourceMode T) (targetMode T) T lanes cs ↔ MinMaxSound T cs r := by
  unfold MinMaxSound
  cases hT : noOverflowInt T with
  | true =>
      simp only [sourceMode, targetMode, hT, ↓reduceIte] at hSome ⊢
      exact minMax_checked_iff hT hLanes hcs hr hSome
  | false =>
      simp only [sourceMode, targetMode, hT, Bool.false_eq_true, ↓reduceIte] at hSome ⊢
      exact minMax_wrapping_iff hT hLanes hcs hr hSome

/-- Eight bits and steps of four, of which the least value is a multiple. -/
theorem minMax_sound_iff_floor :
    (rewrite (min (x / c0 * c0) x) operandA (gt c0 0)).SoundAt .wrapping .wrapping .int8 1
      (constants [4]) :=
  (minMax_sound_iff .int8 1 (by decide) (constants [4]) (has_constants (by decide))
    (rewrite (min (x / c0 * c0) x) operandA (gt c0 0)) (by decide)
    ⟨Wilds.uniform 0, Wilds.uniform_typed IntType.int8.has_zero, by decide,
      fun _ _ => ⟨0, rfl⟩⟩).mpr (fun _ => by decide)

/-- With steps of one hundred, the least value rounds down to a positive one. -/
theorem minFloor_not_sound :
    rewrite (min (x / c0 * c0) x) operandA (gt c0 0) ∈ minRules .int8 1 ∧
    (rewrite (min (x / c0 * c0) x) operandA (gt c0 0)).Applies .wrapping .int8 1 (constants [100])
      (Wilds.uniform (-128)) ∧
    eval .wrapping .int8 (constants [100]) (Wilds.uniform (-128)).value 0
      (min (x / c0 * c0) x) = some (-128) ∧
    eval .wrapping .int8 (constants [100]) (Wilds.uniform (-128)).value 0
      (rewrite (min (x / c0 * c0) x) operandA (gt c0 0)).replacement = some 56 :=
  ⟨by decide, ⟨Wilds.uniform_typed (by decide), by decide, fun _ _ => ⟨-128, rfl⟩⟩, rfl, rfl⟩

end Soundness

end Vyasa.Simplify
