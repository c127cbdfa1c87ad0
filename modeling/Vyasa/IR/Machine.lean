import Vyasa.IR.Eval

/-! The values of expressions in the arithmetic of the machine: they are values of the type,
and where no check fails they are the checked values. -/
namespace Word.IntType

variable {T : IntType} {x y : Int} {k : Nat}

section Bits

private theorem ldiff_lt {a b : Nat} (h : a < 2 ^ k) : Nat.ldiff a b < 2 ^ k := by
  refine Nat.lt_pow_two_of_testBit _ fun i hi => ?_
  rw [Nat.testBit_ldiff, Nat.testBit_lt_two_pow (h.trans_le (Nat.pow_le_pow_right Nat.two_pos hi)),
    Bool.false_and]

private theorem land_bounds (hx : -2 ^ k ≤ x ∧ x < 2 ^ k) (hy : -2 ^ k ≤ y ∧ y < 2 ^ k) :
    -2 ^ k ≤ Int.land x y ∧ Int.land x y < 2 ^ k := by
  have hCast : ((2 ^ k : Nat) : Int) = 2 ^ k := Nat.cast_pow 2 k
  rw [← hCast] at hx hy ⊢
  cases x with
  | ofNat a =>
    cases y with
    | ofNat b =>
      have hLe : a &&& b ≤ a := Nat.and_le_left
      rw [show Int.land (Int.ofNat a) (Int.ofNat b) = ((a &&& b : Nat) : Int) from rfl]
      rw [Int.ofNat_eq_natCast] at hx
      omega
    | negSucc b =>
      rw [Int.ofNat_eq_natCast] at hx
      have hLt : Nat.ldiff a b < 2 ^ k := ldiff_lt (by omega)
      rw [show Int.land (Int.ofNat a) (Int.negSucc b) = ((Nat.ldiff a b : Nat) : Int) from rfl]
      omega
  | negSucc a =>
    cases y with
    | ofNat b =>
      rw [Int.ofNat_eq_natCast] at hy
      have hLt : Nat.ldiff b a < 2 ^ k := ldiff_lt (by omega)
      rw [show Int.land (Int.negSucc a) (Int.ofNat b) = ((Nat.ldiff b a : Nat) : Int) from rfl]
      omega
    | negSucc b =>
      have hLt : a ||| b < 2 ^ k := Nat.or_lt_two_pow (by omega) (by omega)
      rw [show Int.land (Int.negSucc a) (Int.negSucc b) = Int.negSucc (a ||| b) from rfl]
      omega

private theorem lor_eq (x y : Int) : Int.lor x y = -1 - Int.land (-1 - x) (-1 - y) := by
  have hNot (z : Int) : -1 - z = Int.lnot z := by
    cases z with
    | ofNat a =>
      change -1 - (a : Int) = Int.negSucc a
      omega
    | negSucc a =>
      change -1 - Int.negSucc a = (a : Int)
      omega
  rw [hNot, hNot, hNot]
  cases x with
  | ofNat a =>
    cases y with
    | ofNat b => rfl
    | negSucc b => rfl
  | negSucc a =>
    cases y with
    | ofNat b => rfl
    | negSucc b => rfl

private theorem lor_bounds (hx : -2 ^ k ≤ x ∧ x < 2 ^ k) (hy : -2 ^ k ≤ y ∧ y < 2 ^ k) :
    -2 ^ k ≤ Int.lor x y ∧ Int.lor x y < 2 ^ k := by
  have hLand := land_bounds (x := -1 - x) (y := -1 - y) (k := k) (by omega) (by omega)
  rw [lor_eq]
  omega

private theorem land_nonneg (hx : 0 ≤ x) (hy : 0 ≤ y) : 0 ≤ Int.land x y := by
  obtain ⟨a, rfl⟩ := Int.eq_ofNat_of_zero_le hx
  obtain ⟨b, rfl⟩ := Int.eq_ofNat_of_zero_le hy
  exact Int.natCast_nonneg (a &&& b)

private theorem lor_nonneg (hx : 0 ≤ x) (hy : 0 ≤ y) : 0 ≤ Int.lor x y := by
  obtain ⟨a, rfl⟩ := Int.eq_ofNat_of_zero_le hx
  obtain ⟨b, rfl⟩ := Int.eq_ofNat_of_zero_le hy
  exact Int.natCast_nonneg (a ||| b)

theorem has_land (hx : T.Has x) (hy : T.Has y) : T.Has (Int.land x y) := by
  unfold Has min max at *
  split_ifs at * with hSigned
  · have := land_bounds (k := T.bits - 1) (x := x) (y := y) (by omega) (by omega)
    omega
  · have := land_bounds (k := T.bits) (x := x) (y := y) (by omega) (by omega)
    have := land_nonneg hx.1 hy.1
    omega

theorem has_lor (hx : T.Has x) (hy : T.Has y) : T.Has (Int.lor x y) := by
  unfold Has min max at *
  split_ifs at * with hSigned
  · have := lor_bounds (k := T.bits - 1) (x := x) (y := y) (by omega) (by omega)
    omega
  · have := lor_bounds (k := T.bits) (x := x) (y := y) (by omega) (by omega)
    have := lor_nonneg hx.1 hy.1
    omega

end Bits

theorem has_abs (hx : T.Has x) : T.toUnsigned.Has |x| := by
  have hPow := T.two_pow
  have hPos : (0 : Int) < 2 ^ (T.bits - 1) := by positivity
  have hRange : 0 ≤ |x| ∧ |x| ≤ 2 ^ T.bits - 1 := by
    unfold Has min max at hx
    rcases abs_cases x with h | h
    · split_ifs at hx <;> omega
    · split_ifs at hx <;> omega
  exact hRange

end Word.IntType

namespace Vyasa.Expr

open Word IRMatch

variable {m : Mode} {ρ : Env} {T : IntType} {v x y : Int} {e : Expr} {buffers types : Name → IntType}

theorem modeAt_ne_exact (hMode : m ≠ .exact) (T : IntType) : modeAt m T ≠ .exact := by
  unfold modeAt
  split_ifs
  · exact hMode
  · exact Mode.noConfusion

theorem has_of_arith (hMode : m ≠ .exact) (h : arith m T x = some v) : T.Has v := by
  cases m with
  | wrapping =>
    rw [← Option.some.inj h]
    exact T.has_wrap x
  | checked =>
    simp only [arith] at h
    split_ifs at h with hHas
    rw [← Option.some.inj h]
    exact hHas
  | exact => exact absurd rfl hMode

private theorem has_ite (T : IntType) (c : Prop) [Decidable c] : T.Has (if c then 1 else 0) := by
  split_ifs
  · exact T.has_one
  · exact T.has_zero

theorem has_of_evalBin {op : BinOp} (hMode : m ≠ .exact) (hx : T.Has x) (hy : T.Has y)
    (h : evalBin m T op x y = some v) : T.Has v := by
  cases op with
  | add | sub | mul => exact has_of_arith hMode h
  | div =>
    simp only [evalBin] at h
    split_ifs at h
    exact has_of_arith hMode h
  | mod =>
    simp only [evalBin] at h
    split_ifs at h with hZero
    rw [← Option.some.inj h]
    exact IntType.has_emod hy hZero
  | min =>
    rw [← Option.some.inj h]
    rcases min_choice x y with hMin | hMin <;> rwa [hMin]
  | max =>
    rw [← Option.some.inj h]
    rcases max_choice x y with hMax | hMax <;> rwa [hMax]
  | and | or =>
    rw [← Option.some.inj h]
    exact has_ite ..

theorem has_of_evalBinCall {op : BinCall} (hMode : m ≠ .exact) (hx : T.Has x) (hy : T.Has y)
    (h : evalBinCall m T op x y = some v) : T.Has v := by
  cases op with
  | shiftLeft =>
    simp only [evalBinCall] at h
    split_ifs at h
    exact has_of_arith (modeAt_ne_exact hMode T) h
  | shiftRight =>
    simp only [evalBinCall] at h
    split_ifs at h
    rw [← Option.some.inj h]
    exact IntType.has_ediv hx (by positivity)
  | bitwiseAnd =>
    rw [← Option.some.inj h]
    exact IntType.has_land hx hy
  | bitwiseOr =>
    rw [← Option.some.inj h]
    exact IntType.has_lor hx hy

private theorem evalCmp_eq_zero_or_one (op : CmpOp) (x y : Int) : evalCmp op x y = 0 ∨ evalCmp op x y = 1 := by
  cases op with
  | lt | le | gt | ge | eq | ne =>
    simp only [evalCmp]
    split_ifs
    all_goals simp

/-- In typed environments the values are values of the type. -/
theorem has_of_eval (hMode : m ≠ .exact) (he : WellTyped buffers types e) (hρ : ρ.Typed buffers types)
    (h : eval m ρ e = some v) : e.type.Has v := by
  induction e generalizing ρ v types with
  | imm T w =>
    rw [← Option.some.inj h]
    exact he
  | var T n =>
    rw [← Option.some.inj h]
    exact he ▸ hρ.1 n
  | marker _ _ => cases h
  | cast T a =>
    obtain ⟨x, -, hCast⟩ := eval_cast_eq_some.mp h
    unfold evalCast at hCast
    split_ifs at hCast
    rw [← Option.some.inj hCast]
    exact T.has_wrap x
  | bin op a b iha ihb =>
    obtain ⟨x, y, hx, hy, hBin⟩ := eval_bin_eq_some.mp h
    exact has_of_evalBin (modeAt_ne_exact hMode _) (iha he.1 hρ hx) (he.2.2.1 ▸ ihb he.2.1 hρ hy) hBin
  | cmp op a b =>
    obtain ⟨x, y, -, -, rfl⟩ := eval_cmp_eq_some.mp h
    rcases evalCmp_eq_zero_or_one op x y with hCmp | hCmp
    · rw [hCmp]
      exact IntType.bool.has_zero
    · rw [hCmp]
      exact IntType.bool.has_one
  | not a =>
    obtain ⟨x, -, rfl⟩ := eval_not_eq_some.mp h
    exact has_ite ..
  | select c t f ihc iht ihf =>
    obtain ⟨z, x, y, -, hx, hy, rfl⟩ := eval_select_eq_some.mp h
    obtain ⟨-, ht, hf, -, hType⟩ := he
    split_ifs
    · exact iht ht hρ hx
    · exact hType ▸ ihf hf hρ hy
  | load T n a =>
    obtain ⟨x, -, hLoad⟩ := eval_load_eq_some.mp h
    exact he.2 ▸ hρ.2 n x v hLoad
  | binCall op a b iha ihb =>
    obtain ⟨x, y, hx, hy, hCall⟩ := eval_binCall_eq_some.mp h
    exact has_of_evalBinCall hMode (iha he.1 hρ hx) (he.2.2 ▸ ihb he.2.1 hρ hy) hCall
  | unaryCall op a ih =>
    obtain ⟨x, hx, hCall⟩ := eval_unaryCall_eq_some.mp h
    cases op with
    | bitwiseNot => exact has_of_arith (modeAt_ne_exact hMode _) hCall
    | abs =>
      rw [← Option.some.inj hCall]
      exact IntType.has_abs (ih he hρ hx)
  | intrin _ a ih => exact ih he hρ h
  | letIn n value body ihv ihb =>
    obtain ⟨x, hx, hBody⟩ := eval_letIn_eq_some.mp h
    have hTyped : (ρ.set n x).Typed buffers (Function.update types n value.type) := by
      refine ⟨fun k => ?_, hρ.2⟩
      by_cases hk : k = n
      · rw [hk, Function.update_self, Env.set_vars_self]
        exact ihv he.1 hρ hx
      · rw [Function.update_of_ne hk, Env.set_vars_of_ne hk]
        exact hρ.1 k
    exact ihb he.2 hTyped hBody

section Checked

theorem arith_wrapping_of_checked (h : arith (modeAt .checked T) T x = some v) :
    arith (modeAt .wrapping T) T x = some v := by
  unfold modeAt at h ⊢
  split_ifs at h ⊢
  · simp only [arith] at h ⊢
    split_ifs at h with hHas
    rw [T.wrap_of_has hHas, h]
  · exact h

theorem evalBin_wrapping_of_checked {op : BinOp} (h : evalBin (modeAt .checked T) T op x y = some v) :
    evalBin (modeAt .wrapping T) T op x y = some v := by
  cases op with
  | add | sub | mul => exact arith_wrapping_of_checked h
  | div =>
    simp only [evalBin] at h ⊢
    split_ifs at h ⊢
    exact arith_wrapping_of_checked h
  | mod | min | max | and | or => exact h

/-- A value that passes its checks is the value that the machine computes. -/
theorem wrapping_of_run (h : run ρ e = some v) : eval .wrapping ρ e = some v := by
  unfold run at h
  induction e generalizing ρ v with
  | imm _ _ | var _ _ => exact h
  | marker _ _ => cases h
  | cast T _ ih =>
    obtain ⟨x, hx, hCast⟩ := eval_cast_eq_some.mp h
    refine eval_cast_eq_some.mpr ⟨x, ih hx, ?_⟩
    unfold evalCast at hCast ⊢
    split_ifs at hCast
    rw [if_neg fun hAnd => Mode.noConfusion hAnd.1, hCast]
  | bin op _ _ iha ihb =>
    obtain ⟨x, y, hx, hy, hBin⟩ := eval_bin_eq_some.mp h
    exact eval_bin_eq_some.mpr ⟨x, y, iha hx, ihb hy, evalBin_wrapping_of_checked hBin⟩
  | cmp op _ _ iha ihb =>
    obtain ⟨x, y, hx, hy, hCmp⟩ := eval_cmp_eq_some.mp h
    exact eval_cmp_eq_some.mpr ⟨x, y, iha hx, ihb hy, hCmp⟩
  | not _ ih =>
    obtain ⟨x, hx, hNot⟩ := eval_not_eq_some.mp h
    exact eval_not_eq_some.mpr ⟨x, ih hx, hNot⟩
  | select _ _ _ ihc iht ihf =>
    obtain ⟨z, x, y, hz, hx, hy, hSelect⟩ := eval_select_eq_some.mp h
    exact eval_select_eq_some.mpr ⟨z, x, y, ihc hz, iht hx, ihf hy, hSelect⟩
  | load _ _ _ ih =>
    obtain ⟨x, hx, hLoad⟩ := eval_load_eq_some.mp h
    exact eval_load_eq_some.mpr ⟨x, ih hx, hLoad⟩
  | binCall op _ _ iha ihb =>
    obtain ⟨x, y, hx, hy, hCall⟩ := eval_binCall_eq_some.mp h
    refine eval_binCall_eq_some.mpr ⟨x, y, iha hx, ihb hy, ?_⟩
    cases op with
    | shiftLeft =>
      simp only [evalBinCall] at hCall ⊢
      split_ifs at hCall ⊢
      exact arith_wrapping_of_checked hCall
    | shiftRight | bitwiseAnd | bitwiseOr => exact hCall
  | unaryCall op _ ih =>
    obtain ⟨x, hx, hCall⟩ := eval_unaryCall_eq_some.mp h
    refine eval_unaryCall_eq_some.mpr ⟨x, ih hx, ?_⟩
    cases op with
    | bitwiseNot => exact arith_wrapping_of_checked hCall
    | abs => exact hCall
  | intrin _ _ ih => exact ih h
  | letIn _ _ _ ihv ihb =>
    obtain ⟨x, hx, hBody⟩ := eval_letIn_eq_some.mp h
    exact eval_letIn_eq_some.mpr ⟨x, ihv hx, ihb hBody⟩

end Checked

end Vyasa.Expr
