import Vyasa.IRMatch.Soundness

/-! The meaning of a pattern, operator by operator. -/
namespace Vyasa.IRMatch

open Word Pattern

section Equations

variable (T : IntType) (lanes : Nat) (cs : Nat → Int) (ws : Nat → Nat → Int) (lane : Nat)
variable (a b c : Pattern)

/-- The integer of each operator. -/
theorem value_equations :
    (∀ i, value T cs ws lane (wild i) = ws i lane) ∧
    (∀ i, value T cs ws lane (wildConst i) = cs i) ∧
    (∀ v, value T cs ws lane (const v) = v) ∧
    (value T cs ws lane 0 = 0) ∧ (value T cs ws lane 1 = 1) ∧ (value T cs ws lane 2 = 2) ∧
    (∀ a b, value T cs ws lane (a + b) = value T cs ws lane a + value T cs ws lane b) ∧
    (∀ a b, value T cs ws lane (a - b) = value T cs ws lane a - value T cs ws lane b) ∧
    (∀ a b, value T cs ws lane (a * b) = value T cs ws lane a * value T cs ws lane b) ∧
    (∀ a b, value T cs ws lane (a / b) = value T cs ws lane a / value T cs ws lane b) ∧
    (∀ a b, value T cs ws lane (a % b) = value T cs ws lane a % value T cs ws lane b) ∧
    (∀ a b, value T cs ws lane (min a b) = min (value T cs ws lane a) (value T cs ws lane b)) ∧
    (∀ a b, value T cs ws lane (max a b) = max (value T cs ws lane a) (value T cs ws lane b)) ∧
    (∀ a b, value T cs ws lane (a &&& b) =
      if value T cs ws lane a ≠ 0 ∧ value T cs ws lane b ≠ 0 then 1 else 0) ∧
    (∀ a b, value T cs ws lane (a ||| b) =
      if value T cs ws lane a ≠ 0 ∨ value T cs ws lane b ≠ 0 then 1 else 0) ∧
    (∀ a, value T cs ws lane (~~~a) = if value T cs ws lane a = 0 then 1 else 0) ∧
    (∀ a, value T cs ws lane (-a) = -value T cs ws lane a) ∧
    (∀ a b, value T cs ws lane (lt a b) = if value T cs ws lane a < value T cs ws lane b then 1 else 0) ∧
    (∀ a b, value T cs ws lane (le a b) = if value T cs ws lane a ≤ value T cs ws lane b then 1 else 0) ∧
    (∀ a b, value T cs ws lane (gt a b) = if value T cs ws lane b < value T cs ws lane a then 1 else 0) ∧
    (∀ a b, value T cs ws lane (ge a b) = if value T cs ws lane b ≤ value T cs ws lane a then 1 else 0) ∧
    (∀ a b, value T cs ws lane (eq a b) = if value T cs ws lane a = value T cs ws lane b then 1 else 0) ∧
    (∀ a b, value T cs ws lane (ne a b) = if value T cs ws lane a = value T cs ws lane b then 0 else 1) ∧
    (∀ a b c, value T cs ws lane (select a b c) =
      if value T cs ws lane a ≠ 0 then value T cs ws lane b else value T cs ws lane c) ∧
    (∀ a b, value T cs ws lane (ramp a b) = value T cs ws 0 a + lane * value T cs ws 0 b) ∧
    (∀ a, value T cs ws lane (broadcast a) = value T cs ws 0 a) ∧
    (∀ op a, value T cs ws lane (intrin op a) = value T cs ws lane a) := by
  exact ⟨fun _ => rfl, fun _ => rfl, fun _ => rfl, rfl, rfl, rfl, fun _ _ => rfl, fun _ _ => rfl,
    fun _ _ => rfl, fun _ _ => rfl, fun _ _ => rfl, fun _ _ => rfl, fun _ _ => rfl, fun _ _ => rfl,
    fun _ _ => rfl, fun _ => rfl, fun _ => rfl, fun _ _ => rfl, fun _ _ => rfl, fun _ _ => rfl,
    fun _ _ => rfl, fun _ _ => rfl, fun _ _ => rfl, fun _ _ _ => rfl, fun _ _ => rfl, fun _ => rfl,
    fun _ _ => rfl⟩

/-- Where each operator has a value. -/
theorem defined_equations :
    (∀ a b, Defined T cs ws lane (a + b) = (Defined T cs ws lane a ∧ Defined T cs ws lane b)) ∧
    (∀ a b, Defined T cs ws lane (a - b) = (Defined T cs ws lane a ∧ Defined T cs ws lane b)) ∧
    (∀ a b, Defined T cs ws lane (a * b) = (Defined T cs ws lane a ∧ Defined T cs ws lane b)) ∧
    (∀ a b, Defined T cs ws lane (a &&& b) = (Defined T cs ws lane a ∧ Defined T cs ws lane b)) ∧
    (∀ a b, Defined T cs ws lane (a ||| b) = (Defined T cs ws lane a ∧ Defined T cs ws lane b)) ∧
    (∀ a b, Defined T cs ws lane (a / b) =
      (Defined T cs ws lane a ∧ Defined T cs ws lane b ∧ value T cs ws lane b ≠ 0)) ∧
    (∀ a b, Defined T cs ws lane (a % b) =
      (Defined T cs ws lane a ∧ Defined T cs ws lane b ∧ value T cs ws lane b ≠ 0)) ∧
    (∀ a b : Pattern, Defined T cs ws lane (min a b) = (Defined T cs ws lane a ∧ Defined T cs ws lane b)) ∧
    (∀ a b : Pattern, Defined T cs ws lane (max a b) = (Defined T cs ws lane a ∧ Defined T cs ws lane b)) ∧
    (∀ op a b, Defined T cs ws lane (cmp op a b) = (Defined T cs ws lane a ∧ Defined T cs ws lane b)) ∧
    (∀ a, Defined T cs ws lane (~~~a) = Defined T cs ws lane a) ∧
    (∀ a, Defined T cs ws lane (-a) = Defined T cs ws lane a) ∧
    (∀ a b c, Defined T cs ws lane (select a b c) =
      (Defined T cs ws lane a ∧ Defined T cs ws lane b ∧ Defined T cs ws lane c)) ∧
    (∀ a b, Defined T cs ws lane (ramp a b) = (Defined T cs ws 0 a ∧ Defined T cs ws 0 b)) ∧
    (∀ a, Defined T cs ws lane (broadcast a) = Defined T cs ws 0 a) ∧
    (∀ op a, Defined T cs ws lane (intrin op a) = Defined T cs ws lane a) ∧
    (∀ i, Defined T cs ws lane (wild i) = True) ∧
    (∀ i, Defined T cs ws lane (wildConst i) = True) ∧
    (∀ v, Defined T cs ws lane (const v) = True) ∧
    (Defined T cs ws lane 0 = True) ∧
    (Defined T cs ws lane 1 = True) ∧
    (Defined T cs ws lane 2 = True) ∧
    (∀ a, Defined T cs ws lane (fold a) = True) ∧
    (Defined T cs ws lane indeterminate = False) ∧
    (Defined T cs ws lane overflow = False) := by
  exact ⟨fun _ _ => rfl, fun _ _ => rfl, fun _ _ => rfl, fun _ _ => rfl, fun _ _ => rfl,
    fun _ _ => rfl, fun _ _ => rfl, fun _ _ => rfl, fun _ _ => rfl, fun _ _ _ => rfl, fun _ => rfl,
    fun _ => rfl, fun _ _ _ => rfl, fun _ _ => rfl, fun _ => rfl, fun _ _ => rfl, fun _ => rfl,
    fun _ => rfl, fun _ => rfl, rfl, rfl, rfl, fun _ => rfl, rfl, rfl⟩

/-- The integer of each folded operator. -/
theorem fold_equations :
    (∀ a b, value T cs ws lane (fold (a + b)) = value T cs ws lane a + value T cs ws lane b) ∧
    (∀ a b, value T cs ws lane (fold (a - b)) = value T cs ws lane a - value T cs ws lane b) ∧
    (∀ a b, value T cs ws lane (fold (a * b)) = value T cs ws lane a * value T cs ws lane b) ∧
    (∀ a b, value T cs ws lane (fold (a / b)) =
      T.wrap (value T cs ws lane a / value T cs ws lane b)) ∧
    (∀ a i, value T cs ws lane (fold (a % wildConst i)) = value T cs ws lane a % cs i) ∧
    (∀ i j, value T cs ws lane (fold (min (wildConst i) (wildConst j))) = min (cs i) (cs j)) ∧
    (∀ a b, value T cs ws lane (fold (min 0 (a * b))) =
      min 0 (value T cs ws lane a * value T cs ws lane b)) ∧
    (∀ i j, value T cs ws lane (fold (max (wildConst i) (wildConst j))) = max (cs i) (cs j)) ∧
    (∀ a b, value T cs ws lane (fold (max 0 (a * b))) =
      max 0 (value T cs ws lane a * value T cs ws lane b)) ∧
    (∀ a, value T cs ws lane (fold (-a)) = -value T cs ws lane a) ∧
    (∀ op a b, value T cs ws lane (fold (cmp op a b)) = value T cs ws lane (cmp op a b)) := by
  exact ⟨fun _ _ => rfl, fun _ _ => rfl, fun _ _ => rfl, fun _ _ => rfl, fun _ _ => rfl,
    fun _ _ => rfl, fun _ _ => rfl, fun _ _ => rfl, fun _ _ => rfl, fun _ => rfl, fun _ _ _ => rfl⟩

/-- What each predicate says. -/
theorem holds_equations :
    (∀ a b, Holds T lanes cs ws (a &&& b) = (Holds T lanes cs ws a ∧ Holds T lanes cs ws b)) ∧
    (∀ a b, Holds T lanes cs ws (a ||| b) = (Holds T lanes cs ws a ∨ Holds T lanes cs ws b)) ∧
    (∀ a b, Holds T lanes cs ws (lt a b) = (value T cs ws 0 a < value T cs ws 0 b)) ∧
    (∀ a b, Holds T lanes cs ws (le a b) = (value T cs ws 0 a ≤ value T cs ws 0 b)) ∧
    (∀ a b, Holds T lanes cs ws (gt a b) = (value T cs ws 0 b < value T cs ws 0 a)) ∧
    (∀ a b, Holds T lanes cs ws (ge a b) = (value T cs ws 0 b ≤ value T cs ws 0 a)) ∧
    (∀ a b, Holds T lanes cs ws (eq a b) = (value T cs ws 0 a = value T cs ws 0 b)) ∧
    (∀ a b, Holds T lanes cs ws (ne a b) = (value T cs ws 0 a ≠ value T cs ws 0 b)) ∧
    (∀ a, Holds T lanes cs ws (canProve a) = ∀ lane < lanes, value T cs ws lane a ≠ 0) ∧
    (∀ a, Holds T lanes cs ws (~~~a) = True) ∧
    (∀ v, Holds T lanes cs ws (const v) = True) := by
  exact ⟨fun _ _ => rfl, fun _ _ => rfl, fun _ _ => rfl, fun _ _ => rfl, fun _ _ => rfl,
    fun _ _ => rfl, fun _ _ => rfl, fun _ _ => rfl, fun _ => rfl, fun _ => rfl, fun _ => rfl⟩

/-- A replacement with the operands of the instance put in. -/
theorem replacement_equations (l r : Pattern) :
    (∀ a b, instantiate l r (a + b) = instantiate l r a + instantiate l r b) ∧
    (∀ a b, instantiate l r (a - b) = instantiate l r a - instantiate l r b) ∧
    (∀ a b, instantiate l r (a * b) = instantiate l r a * instantiate l r b) ∧
    (∀ a b, instantiate l r (a / b) = instantiate l r a / instantiate l r b) ∧
    (∀ a b, instantiate l r (a % b) = instantiate l r a % instantiate l r b) ∧
    (∀ a b, instantiate l r (a &&& b) = instantiate l r a &&& instantiate l r b) ∧
    (∀ a b, instantiate l r (a ||| b) = instantiate l r a ||| instantiate l r b) ∧
    (∀ a b, instantiate l r (min a b) = min (instantiate l r a) (instantiate l r b)) ∧
    (∀ a b, instantiate l r (max a b) = max (instantiate l r a) (instantiate l r b)) ∧
    (∀ op a b, instantiate l r (cmp op a b) = cmp op (instantiate l r a) (instantiate l r b)) ∧
    (∀ a, instantiate l r (~~~a) = ~~~instantiate l r a) ∧
    (∀ a, instantiate l r (-a) = -instantiate l r a) ∧
    (∀ a b c, instantiate l r (select a b c) =
      select (instantiate l r a) (instantiate l r b) (instantiate l r c)) ∧
    (∀ a b, instantiate l r (ramp a b) = ramp (instantiate l r a) (instantiate l r b)) ∧
    (∀ a, instantiate l r (broadcast a) = broadcast (instantiate l r a)) ∧
    (∀ i, instantiate l r (wild i) = wild i) ∧
    (∀ i, instantiate l r (wildConst i) = wildConst i) ∧
    (∀ i, instantiate l r (const i) = const i) ∧
    (∀ i, instantiate l r (fold i) = fold i) ∧
    (instantiate l r 0 = 0) ∧
    (instantiate l r 1 = 1) ∧
    (instantiate l r 2 = 2) ∧
    (instantiate l r indeterminate = indeterminate) ∧
    (instantiate l r overflow = overflow) ∧
    (instantiate l r operandA = l) ∧
    (instantiate l r operandB = r) := by
  exact ⟨fun _ _ => rfl, fun _ _ => rfl, fun _ _ => rfl, fun _ _ => rfl, fun _ _ => rfl,
    fun _ _ => rfl, fun _ _ => rfl, fun _ _ => rfl, fun _ _ => rfl, fun _ _ _ => rfl, fun _ => rfl,
    fun _ => rfl, fun _ _ _ => rfl, fun _ _ => rfl, fun _ => rfl, fun _ => rfl, fun _ => rfl,
    fun _ => rfl, fun _ => rfl, rfl, rfl, rfl, rfl, rfl, rfl, rfl⟩

/-- The operands that a replacement can mention. -/
theorem operands_equations :
    (∀ a b : Pattern, (min a b).operands = (a, b)) ∧
    (∀ a b : Pattern, (max a b).operands = (a, b)) ∧
    (∀ a b : Pattern, (a + b).operands = (a, b)) ∧
    (∀ a b : Pattern, (a - b).operands = (a, b)) ∧
    (∀ a b : Pattern, (a * b).operands = (a, b)) ∧
    (∀ a b : Pattern, (a / b).operands = (a, b)) ∧
    (∀ a b : Pattern, (a % b).operands = (a, b)) ∧
    (∀ op a b, (cmp op a b).operands = (a, b)) := by
  exact ⟨fun _ _ => rfl, fun _ _ => rfl, fun _ _ => rfl, fun _ _ => rfl, fun _ _ => rfl,
    fun _ _ => rfl, fun _ _ => rfl, fun _ _ _ => rfl⟩

/-- The folds of each operator. -/
theorem forallFolds_equations (P : Pattern → Prop) :
    (∀ a b, ForallFolds P (a + b) = (ForallFolds P a ∧ ForallFolds P b)) ∧
    (∀ a b, ForallFolds P (a - b) = (ForallFolds P a ∧ ForallFolds P b)) ∧
    (∀ a b, ForallFolds P (a * b) = (ForallFolds P a ∧ ForallFolds P b)) ∧
    (∀ a b, ForallFolds P (a / b) = (ForallFolds P a ∧ ForallFolds P b)) ∧
    (∀ a b, ForallFolds P (a % b) = (ForallFolds P a ∧ ForallFolds P b)) ∧
    (∀ a b, ForallFolds P (a &&& b) = (ForallFolds P a ∧ ForallFolds P b)) ∧
    (∀ a b, ForallFolds P (a ||| b) = (ForallFolds P a ∧ ForallFolds P b)) ∧
    (∀ a b : Pattern, ForallFolds P (min a b) = (ForallFolds P a ∧ ForallFolds P b)) ∧
    (∀ a b : Pattern, ForallFolds P (max a b) = (ForallFolds P a ∧ ForallFolds P b)) ∧
    (∀ op a b, ForallFolds P (cmp op a b) = (ForallFolds P a ∧ ForallFolds P b)) ∧
    (∀ a b, ForallFolds P (ramp a b) = (ForallFolds P a ∧ ForallFolds P b)) ∧
    (∀ a b c, ForallFolds P (select a b c) =
      (ForallFolds P a ∧ ForallFolds P b ∧ ForallFolds P c)) ∧
    (∀ a, ForallFolds P (~~~a) = ForallFolds P a) ∧
    (∀ a, ForallFolds P (-a) = ForallFolds P a) ∧
    (∀ a, ForallFolds P (broadcast a) = ForallFolds P a) ∧
    (∀ op a, ForallFolds P (intrin op a) = ForallFolds P a) ∧
    (∀ i, ForallFolds P (wild i) = True) ∧
    (∀ i, ForallFolds P (wildConst i) = True) ∧
    (∀ i, ForallFolds P (const i) = True) ∧
    (ForallFolds P 0 = True) ∧
    (ForallFolds P 1 = True) ∧
    (ForallFolds P 2 = True) ∧
    (ForallFolds P indeterminate = True) ∧
    (ForallFolds P overflow = True) ∧
    (∀ a, ForallFolds P (fold a) = P a) := by
  exact ⟨fun _ _ => rfl, fun _ _ => rfl, fun _ _ => rfl, fun _ _ => rfl, fun _ _ => rfl,
    fun _ _ => rfl, fun _ _ => rfl, fun _ _ => rfl, fun _ _ => rfl, fun _ _ _ => rfl,
    fun _ _ => rfl, fun _ _ _ => rfl, fun _ => rfl, fun _ => rfl, fun _ => rfl, fun _ _ => rfl,
    fun _ => rfl, fun _ => rfl, fun _ => rfl, rfl, rfl, rfl, rfl, rfl,
    fun _ => rfl⟩

/-- One step of evaluation, for each operator. -/
theorem eval_equations (m : Mode) (ws : Nat → Nat → Int) (lane : Nat) :
    (∀ a b, eval m T cs ws lane (a + b) =
      (do arith m T ((← eval m T cs ws lane a) + (← eval m T cs ws lane b)))) ∧
    (∀ a b, eval m T cs ws lane (a - b) =
      (do arith m T ((← eval m T cs ws lane a) - (← eval m T cs ws lane b)))) ∧
    (∀ a b, eval m T cs ws lane (a * b) =
      (do arith m T ((← eval m T cs ws lane a) * (← eval m T cs ws lane b)))) ∧
    (∀ a b : Pattern, eval m T cs ws lane (min a b) =
      (do return min (← eval m T cs ws lane a) (← eval m T cs ws lane b))) ∧
    (∀ a b : Pattern, eval m T cs ws lane (max a b) =
      (do return max (← eval m T cs ws lane a) (← eval m T cs ws lane b))) ∧
    (∀ i, eval m T cs ws lane (wild i) = some (ws i lane)) ∧
    (∀ i, eval m T cs ws lane (wildConst i) = some (cs i)) := by
  exact ⟨fun _ _ => rfl, fun _ _ => rfl, fun _ _ => rfl, fun _ _ => rfl, fun _ _ => rfl,
    fun _ => rfl, fun _ => rfl⟩

/-- A quotient that can be folded at all need not be a value of the type. -/
theorem quotientFits_iff (i j : Nat) :
    (∃ v ∈ constantFold T cs (fun _ => false) (fun _ => false) (wildConst i / wildConst j),
      T.Has v) ↔ (cs j ≠ 0 ∧ ¬ Traps T (cs i) (cs j)) ∧ T.Has (cs i / cs j) := by
  have hFold : constantFold T cs (fun _ => false) (fun _ => false) (wildConst i / wildConst j) =
      if cs j = 0 ∨ Traps T (cs i) (cs j) then none else some (cs i / cs j) := rfl
  rw [hFold]
  split_ifs with h
  · simp only [Option.mem_def, reduceCtorEq, false_and, exists_false, ← not_or, h,
      not_true_eq_false]
  · simp only [Option.mem_def, Option.some.injEq, exists_eq_left', ← not_or, h,
      not_false_eq_true, true_and]

/-- The one quotient to rule out. -/
theorem quotientFits_of (hcs : ∀ i, T.Has (cs i)) {i j : Nat}
    (hDefined : constantFold T cs (fun _ => false) (fun _ => false) (wildConst i / wildConst j) ≠ none)
    (hMin : T.signed = true → cs i = T.min → cs j = -1 → False) :
    ∃ v ∈ constantFold T cs (fun _ => false) (fun _ => false) (wildConst i / wildConst j),
      T.Has v := by
  have hFold : constantFold T cs (fun _ => false) (fun _ => false) (wildConst i / wildConst j) =
      if cs j = 0 ∨ Traps T (cs i) (cs j) then none else some (cs i / cs j) := rfl
  rw [quotientFits_iff]
  rw [hFold] at hDefined
  split_ifs at hDefined with h
  · exact absurd rfl hDefined
  · rw [not_or] at h
    exact ⟨h, (IntType.has_ediv_or (hcs i) (hcs j) h.1).resolve_right
      (fun ⟨hSigned, hi, hj⟩ => hMin hSigned hi hj)⟩

end Equations

end Vyasa.IRMatch
