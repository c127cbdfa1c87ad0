import Vyasa.IRMatch.Equations

/-! Rules outside the guards of the simplifier also apply to types that wrap
around. There a pattern without arithmetic has its integer as value, and one of
additions, subtractions and multiplications has it modulo the type's width. -/
namespace Vyasa.IRMatch

open Word Pattern

/-- Constants whose folding cannot wrap around. -/
def Pattern.simple : Pattern → Bool
  | wildConst _ | const _ => true
  | bin .div a b | bin .mod a b | bin .min a b | bin .max a b | cmp _ a b => a.simple && b.simple
  | _ => false

/-- What a satisfied predicate says in every type: only its comparisons of
simple constants. -/
def Facts (T : IntType) (cs : Nat → Int) (ws : Nat → Nat → Int) : Pattern → Prop
  | .bin .and a b => Facts T cs ws a ∧ Facts T cs ws b
  | .cmp op a b =>
      if a.simple && b.simple then CmpHolds op (value T cs ws 0 a) (value T cs ws 0 b) else True
  | _ => True

/-- No arithmetic outside folds of simple constants. -/
def Plain (T : IntType) : Pattern → Prop
  | .wild _ | .wildConst _ | .indeterminate | .overflow => True
  | .const v => T.Has v
  | .bin .min a b | .bin .max a b | .cmp _ a b => Plain T a ∧ Plain T b
  | .intrin _ a | .broadcast a => Plain T a
  | .select c t f => Plain T c ∧ Plain T t ∧ Plain T f
  | .fold a => a.simple = true ∧ a.reduced = true
  | _ => False

/-- Constants whose folding respects congruence. -/
def Pattern.ringFold : Pattern → Bool
  | wildConst _ | const _ => true
  | bin .add a b | bin .sub a b | bin .mul a b => a.ringFold && b.ringFold
  | negate a => a.ringFold
  | bin .div a b | bin .mod a b | bin .min a b | bin .max a b | cmp _ a b => a.simple && b.simple
  | _ => false

/-- Additions, subtractions and multiplications over plain patterns. -/
def Ring (T : IntType) : Pattern → Prop
  | .wild _ | .wildConst _ | .const _ | .indeterminate | .overflow => True
  | .bin .add a b | .bin .sub a b | .bin .mul a b | .ramp a b => Ring T a ∧ Ring T b
  | .bin .min a b | .bin .max a b => Plain T a ∧ Plain T b
  | .negate a | .broadcast a | .intrin _ a => Ring T a
  | .select c t f => Plain T c ∧ Ring T t ∧ Ring T f
  | .fold a => a.ringFold = true
  | _ => False

/-- Which operators are plain. -/
theorem plain_equations (T : IntType) :
    (∀ a b : Pattern, Plain T (min a b) = (Plain T a ∧ Plain T b)) ∧
    (∀ a b : Pattern, Plain T (max a b) = (Plain T a ∧ Plain T b)) ∧
    (∀ op a b, Plain T (cmp op a b) = (Plain T a ∧ Plain T b)) ∧
    (∀ a b c, Plain T (select a b c) = (Plain T a ∧ Plain T b ∧ Plain T c)) ∧
    (∀ a, Plain T (broadcast a) = Plain T a) ∧
    (∀ op a, Plain T (intrin op a) = Plain T a) ∧
    (∀ i, Plain T (wild i) = True) ∧
    (∀ i, Plain T (wildConst i) = True) ∧
    (∀ v, Plain T (const v) = T.Has v) ∧
    (Plain T 0 = T.Has 0) ∧
    (Plain T 1 = T.Has 1) ∧
    (Plain T indeterminate = True) ∧
    (Plain T overflow = True) ∧
    (∀ a, Plain T (fold a) = (a.simple = true ∧ a.reduced = true)) := by
  exact ⟨fun _ _ => rfl, fun _ _ => rfl, fun _ _ _ => rfl, fun _ _ _ => rfl, fun _ => rfl,
    fun _ _ => rfl, fun _ => rfl, fun _ => rfl, fun _ => rfl, rfl, rfl, rfl, rfl, fun _ => rfl⟩

/-- Which operators are ring operators. -/
theorem ring_equations (T : IntType) :
    (∀ a b, Ring T (a + b) = (Ring T a ∧ Ring T b)) ∧
    (∀ a b, Ring T (a - b) = (Ring T a ∧ Ring T b)) ∧
    (∀ a b, Ring T (a * b) = (Ring T a ∧ Ring T b)) ∧
    (∀ a b, Ring T (ramp a b) = (Ring T a ∧ Ring T b)) ∧
    (∀ a b : Pattern, Ring T (min a b) = (Plain T a ∧ Plain T b)) ∧
    (∀ a b : Pattern, Ring T (max a b) = (Plain T a ∧ Plain T b)) ∧
    (∀ a b c, Ring T (select a b c) = (Plain T a ∧ Ring T b ∧ Ring T c)) ∧
    (∀ a, Ring T (-a) = Ring T a) ∧
    (∀ a, Ring T (broadcast a) = Ring T a) ∧
    (∀ op a, Ring T (intrin op a) = Ring T a) ∧
    (∀ i, Ring T (wild i) = True) ∧
    (∀ i, Ring T (wildConst i) = True) ∧
    (∀ i, Ring T (const i) = True) ∧
    (Ring T 0 = True) ∧
    (Ring T 1 = True) ∧
    (Ring T 2 = True) ∧
    (Ring T indeterminate = True) ∧
    (Ring T overflow = True) ∧
    (∀ a, Ring T (fold a) = (a.ringFold = true)) := by
  exact ⟨fun _ _ => rfl, fun _ _ => rfl, fun _ _ => rfl, fun _ _ => rfl, fun _ _ => rfl,
    fun _ _ => rfl, fun _ _ _ => rfl, fun _ => rfl, fun _ => rfl, fun _ _ => rfl, fun _ => rfl,
    fun _ => rfl, fun _ => rfl, rfl, rfl, rfl, rfl, rfl, fun _ => rfl⟩

section Folding

variable {T : IntType} {cs : Nat → Int} {ws : Nat → Nat → Int} {isConst : Nat → Bool}
variable {prove : Pattern → Bool}

variable (ws) in
theorem constantFold_simple (lane : Nat) {p : Pattern} (hp : p.simple = true) {v : Int}
    (h : constantFold T cs isConst prove p = some v) : v = value T cs ws lane p := by
  induction p generalizing v with
  | wildConst i => exact (Option.some.inj h).symm
  | const c => exact (Option.some.inj h).symm
  | bin op a b iha ihb =>
      simp only [constantFold, Option.bind_eq_bind, Option.bind_eq_some_iff] at h
      obtain ⟨va, hva, h⟩ := h
      cases op with
      | div | mod =>
          simp only [Pattern.simple, Bool.and_eq_true] at hp
          simp only [reduceCtorEq, false_and, or_self, ↓reduceIte, Option.bind_eq_some_iff,
            constantFoldBinOp] at h
          obtain ⟨vb, hvb, h⟩ := h
          split_ifs at h
          cases h
          rw [iha hp.1 hva, ihb hp.2 hvb]
          rfl
      | min | max =>
          simp only [Pattern.simple, Bool.and_eq_true] at hp
          simp only [reduceCtorEq, false_and, or_self, ↓reduceIte, Option.bind_eq_some_iff,
            constantFoldBinOp, Option.some.injEq] at h
          obtain ⟨vb, hvb, rfl⟩ := h
          rw [iha hp.1 hva, ihb hp.2 hvb]
          rfl
      | add | sub | mul | and | or => simp [Pattern.simple] at hp
  | cmp op a b iha ihb =>
      simp only [Pattern.simple, Bool.and_eq_true] at hp
      simp only [constantFold, Option.bind_eq_bind, Option.bind_eq_some_iff, Option.pure_def,
        Option.some.injEq] at h
      obtain ⟨va, hva, vb, hvb, rfl⟩ := h
      rw [iha hp.1 hva, ihb hp.2 hvb]
      rfl
  | _ => simp [Pattern.simple] at hp

theorem facts_of_constantFold {p : Pattern} {v : Int}
    (h : constantFold T cs isConst prove p = some v) (hv : v ≠ 0) : Facts T cs ws p := by
  induction p generalizing v with
  | bin op a b iha ihb =>
      cases op with
      | and =>
          simp only [constantFold, Option.bind_eq_bind, Option.bind_eq_some_iff] at h
          obtain ⟨va, hva, h⟩ := h
          by_cases h0 : va = 0
          · simp only [h0, and_self, true_or, ↓reduceIte, Option.pure_def, Option.some.injEq] at h
            exact absurd h.symm hv
          · simp only [h0, and_false, reduceCtorEq, false_and, or_self, ↓reduceIte,
              Option.bind_eq_some_iff, constantFoldBinOp, Option.some.injEq] at h
            obtain ⟨vb, hvb, rfl⟩ := h
            split_ifs at hv with hOdd
            · exact ⟨iha hva h0, ihb hvb (by omega)⟩
            · exact absurd rfl hv
      | _ => trivial
  | cmp op a b _ _ =>
      simp only [Facts]
      split_ifs with hp
      · rw [Bool.and_eq_true] at hp
        simp only [constantFold, Option.bind_eq_bind, Option.bind_eq_some_iff, Option.pure_def,
          Option.some.injEq] at h
        obtain ⟨va, hva, vb, hvb, rfl⟩ := h
        rw [constantFold_simple ws 0 hp.1 hva, constantFold_simple ws 0 hp.2 hvb] at hv
        exact cmpHolds_of_ne_zero hv
  | _ => trivial

theorem facts_of_predicate {p : Pattern} (h : evaluatePredicate T cs isConst prove p = true) :
    Facts T cs ws p := by
  unfold evaluatePredicate at h
  split at h
  · rename_i v hv
    exact facts_of_constantFold hv (by simpa using h)
  · cases h

variable (ws) in
/-- A fold of constants that cannot wrap around is the integer it stands for. -/
theorem fold_simple (hcs : ∀ i, T.Has (cs i)) (lane : Nat) {p : Pattern} (hp : p.simple = true)
    (hr : p.reduced = true) {v : Int}
    (h : constantFold T cs (fun _ => false) (fun _ => false) p = some v) :
    T.wrap v = value T cs ws lane (.fold p) ∧ T.Has (value T cs ws lane (.fold p)) := by
  have hHas := has_of_reduced hcs hr h
  rw [IntType.wrap_of_has hHas, value, if_pos hr, ← constantFold_simple ws lane hp h]
  exact ⟨rfl, hHas⟩

end Folding

section Plain

variable {m : Mode} {T : IntType} {cs : Nat → Int} {ws : Nat → Nat → Int}

theorem literal_of_has {v : Int} (h : T.Has v) : literal m T v = v := by
  cases m with
  | wrapping => exact IntType.wrap_of_has h
  | checked => rfl
  | exact => rfl

theorem has_evalCmp (op : CmpOp) (a b : Int) : T.Has (evalCmp op a b) := by
  cases op <;> simp only [evalCmp] <;> split_ifs <;> first | exact T.has_one | exact T.has_zero

theorem has_min {a b : Int} (ha : T.Has a) (hb : T.Has b) : T.Has (min a b) := by
  rcases min_choice a b with h | h <;> rw [h] <;> assumption

theorem has_max {a b : Int} (ha : T.Has a) (hb : T.Has b) : T.Has (max a b) := by
  rcases max_choice a b with h | h <;> rw [h] <;> assumption

/-- In every mode, a plain pattern that has a value has its integer. -/
theorem eval_plain (hcs : ∀ i, T.Has (cs i)) (hws : ∀ i lane, T.Has (ws i lane)) {lane : Nat}
    {p : Pattern} (hp : Plain T p) {r : Int} (h : eval m T cs ws lane p = some r) :
    r = value T cs ws lane p ∧ T.Has r ∧ Defined T cs ws lane p ∧ FoldsDefined T cs p := by
  induction p generalizing lane r with
  | wild i =>
      cases h
      exact ⟨rfl, hws i lane, trivial, trivial⟩
  | wildConst i =>
      cases h
      exact ⟨rfl, hcs i, trivial, trivial⟩
  | const c =>
      rw [eval, literal_of_has hp] at h
      cases h
      exact ⟨rfl, hp, trivial, trivial⟩
  | bin op a b iha ihb =>
      simp only [eval, Option.bind_eq_bind, Option.bind_eq_some_iff] at h
      obtain ⟨va, hva, vb, hvb, h⟩ := h
      cases op with
      | min =>
          obtain ⟨rfl, ha, hda, hfa⟩ := iha hp.1 hva
          obtain ⟨rfl, hb, hdb, hfb⟩ := ihb hp.2 hvb
          cases h
          exact ⟨rfl, has_min ha hb, ⟨hda, hdb⟩, hfa, hfb⟩
      | max =>
          obtain ⟨rfl, ha, hda, hfa⟩ := iha hp.1 hva
          obtain ⟨rfl, hb, hdb, hfb⟩ := ihb hp.2 hvb
          cases h
          exact ⟨rfl, has_max ha hb, ⟨hda, hdb⟩, hfa, hfb⟩
      | _ => exact absurd hp (by simp [Plain])
  | cmp op a b iha ihb =>
      simp only [eval, Option.bind_eq_bind, Option.bind_eq_some_iff, Option.pure_def,
        Option.some.injEq] at h
      obtain ⟨va, hva, vb, hvb, rfl⟩ := h
      obtain ⟨rfl, -, hda, hfa⟩ := iha hp.1 hva
      obtain ⟨rfl, -, hdb, hfb⟩ := ihb hp.2 hvb
      exact ⟨rfl, has_evalCmp op _ _, ⟨hda, hdb⟩, hfa, hfb⟩
  | select c t f ihc iht ihf =>
      simp only [eval, Option.bind_eq_bind, Option.bind_eq_some_iff, Option.pure_def,
        Option.some.injEq] at h
      obtain ⟨vc, hvc, vt, hvt, vf, hvf, rfl⟩ := h
      obtain ⟨rfl, -, hdc, hfc⟩ := ihc hp.1 hvc
      obtain ⟨rfl, ht, hdt, hft⟩ := iht hp.2.1 hvt
      obtain ⟨rfl, hf, hdf, hff⟩ := ihf hp.2.2 hvf
      refine ⟨rfl, ?_, ⟨hdc, hdt, hdf⟩, hfc, hft, hff⟩
      split_ifs <;> assumption
  | broadcast a ih => exact ih hp h
  | intrin op a ih => exact ih hp h
  | fold a _ =>
      simp only [eval, Option.map_eq_some_iff] at h
      obtain ⟨va, hva, rfl⟩ := h
      obtain ⟨hEq, hHas⟩ := fold_simple ws hcs lane hp.1 hp.2 hva
      rw [hEq]
      refine ⟨rfl, hHas, trivial, ?_⟩
      simp only [FoldsDefined, Pattern.ForallFolds, hva]
      simp
  | indeterminate => cases h
  | overflow => cases h
  | _ => exact absurd hp (by simp [Plain])

theorem eval_of_plain (hcs : ∀ i, T.Has (cs i)) {lane : Nat} {p : Pattern} (hp : Plain T p)
    (hd : Defined T cs ws lane p) (hf : FoldsDefined T cs p) :
    eval m T cs ws lane p = some (value T cs ws lane p) := by
  induction p generalizing lane with
  | wild i => rfl
  | wildConst i => rfl
  | const c => rw [eval, literal_of_has hp, value]
  | bin op a b iha ihb =>
      cases op with
      | min | max => simp [eval, iha hp.1 hd.1 hf.1, ihb hp.2 hd.2 hf.2, value, evalBin, valueBin]
      | _ => exact absurd hp (by simp [Plain])
  | cmp op a b iha ihb => simp [eval, iha hp.1 hd.1 hf.1, ihb hp.2 hd.2 hf.2, value]
  | select c t f ihc iht ihf =>
      simp [eval, ihc hp.1 hd.1 hf.1, iht hp.2.1 hd.2.1 hf.2.1, ihf hp.2.2 hd.2.2 hf.2.2, value]
  | broadcast a ih => exact ih hp hd hf
  | intrin op a ih => exact ih hp hd hf
  | fold a _ =>
      obtain ⟨va, hva⟩ := Option.ne_none_iff_exists'.mp hf
      simp only [eval, hva, Option.map_some]
      rw [(fold_simple ws hcs lane hp.1 hp.2 hva).1]
  | indeterminate => cases hd
  | overflow => cases hd
  | _ => exact absurd hp (by simp [Plain])

end Plain

section Ring

variable {T : IntType} {cs : Nat → Int} {ws : Nat → Nat → Int} {isConst : Nat → Bool}
variable {prove : Pattern → Bool}

theorem foldArith_modEq {r v : Int} (h : foldArith T r = some v) : v ≡ r [ZMOD 2 ^ T.bits] := by
  unfold foldArith at h
  split_ifs at h
  cases h
  exact T.wrap_modEq r

variable (ws) in
theorem constantFold_modEq (lane : Nat) {p : Pattern} (hp : p.ringFold = true) {v : Int}
    (h : constantFold T cs isConst prove p = some v) :
    v ≡ value T cs ws lane p [ZMOD 2 ^ T.bits] := by
  induction p generalizing v with
  | wildConst i =>
      cases h
      rfl
  | const c =>
      cases h
      rfl
  | bin op a b iha ihb =>
      cases op with
      | add | sub | mul =>
          simp only [Pattern.ringFold, Bool.and_eq_true] at hp
          simp only [constantFold, Option.bind_eq_bind, Option.bind_eq_some_iff, reduceCtorEq,
            false_and, or_self, ↓reduceIte, constantFoldBinOp] at h
          obtain ⟨va, hva, vb, hvb, h⟩ := h
          refine (foldArith_modEq h).trans ?_
          first
            | exact (iha hp.1 hva).add (ihb hp.2 hvb)
            | exact (iha hp.1 hva).sub (ihb hp.2 hvb)
            | exact (iha hp.1 hva).mul (ihb hp.2 hvb)
      | div | mod | min | max => rw [constantFold_simple ws lane (by exact hp) h]
      | and | or => simp [Pattern.ringFold] at hp
  | cmp op a b _ _ => rw [constantFold_simple ws lane (by exact hp) h]
  | negate a ih =>
      simp only [constantFold, Option.bind_eq_bind, Option.bind_eq_some_iff] at h
      obtain ⟨va, hva, h⟩ := h
      split_ifs at h
      cases h
      exact (T.wrap_modEq _).trans (ih hp hva).neg
  | _ => simp [Pattern.ringFold] at hp

theorem fold_modEq (lane : Nat) {p : Pattern} (hp : p.ringFold = true) {v : Int}
    (h : constantFold T cs isConst prove p = some v) :
    T.wrap v ≡ value T cs ws lane (.fold p) [ZMOD 2 ^ T.bits] := by
  have hValue := (T.wrap_modEq v).trans (constantFold_modEq ws lane hp h)
  simp only [value]
  split_ifs
  · exact hValue
  · exact hValue.trans (T.wrap_modEq _).symm

/-- A ring pattern that wraps around has a value congruent to its integer. -/
theorem eval_ring (hcs : ∀ i, T.Has (cs i)) (hws : ∀ i lane, T.Has (ws i lane)) {lane : Nat}
    {p : Pattern} (hp : Ring T p) {r : Int} (h : eval .wrapping T cs ws lane p = some r) :
    r ≡ value T cs ws lane p [ZMOD 2 ^ T.bits] ∧ T.Has r ∧ Defined T cs ws lane p ∧
      FoldsDefined T cs p := by
  induction p generalizing lane r with
  | wild i =>
      cases h
      exact ⟨rfl, hws i lane, trivial, trivial⟩
  | wildConst i =>
      cases h
      exact ⟨rfl, hcs i, trivial, trivial⟩
  | const c =>
      cases h
      exact ⟨T.wrap_modEq c, T.has_wrap c, trivial, trivial⟩
  | bin op a b iha ihb =>
      cases op with
      | add | sub | mul =>
          simp only [eval, Option.bind_eq_bind, Option.bind_eq_some_iff, evalBin, arith,
            Option.some.injEq] at h
          obtain ⟨va, hva, vb, hvb, rfl⟩ := h
          obtain ⟨hma, -, hda, hfa⟩ := iha hp.1 hva
          obtain ⟨hmb, -, hdb, hfb⟩ := ihb hp.2 hvb
          refine ⟨(T.wrap_modEq _).trans ?_, T.has_wrap _, ⟨hda, hdb⟩, hfa, hfb⟩
          first
            | exact hma.add hmb
            | exact hma.sub hmb
            | exact hma.mul hmb
      | min | max =>
          obtain ⟨rfl, hHas, hd, hf⟩ := eval_plain hcs hws (by exact hp) h
          exact ⟨rfl, hHas, hd, hf⟩
      | _ => exact absurd hp (by simp [Ring])
  | select c t f ihc iht ihf =>
      simp only [eval, Option.bind_eq_bind, Option.bind_eq_some_iff, Option.pure_def,
        Option.some.injEq] at h
      obtain ⟨vc, hvc, vt, hvt, vf, hvf, rfl⟩ := h
      obtain ⟨rfl, -, hdc, hfc⟩ := eval_plain hcs hws hp.1 hvc
      obtain ⟨hmt, ht, hdt, hft⟩ := iht hp.2.1 hvt
      obtain ⟨hmf, hf, hdf, hff⟩ := ihf hp.2.2 hvf
      refine ⟨?_, ?_, ⟨hdc, hdt, hdf⟩, hfc, hft, hff⟩
      · simp only [value]
        split_ifs <;> assumption
      · split_ifs <;> assumption
  | ramp a b iha ihb =>
      simp only [eval, Option.bind_eq_bind, Option.bind_eq_some_iff, arith, Option.some.injEq] at h
      obtain ⟨va, hva, vb, hvb, rfl⟩ := h
      obtain ⟨hma, -, hda, hfa⟩ := iha hp.1 hva
      obtain ⟨hmb, -, hdb, hfb⟩ := ihb hp.2 hvb
      exact ⟨(T.wrap_modEq _).trans (hma.add (hmb.mul_left _)), T.has_wrap _, ⟨hda, hdb⟩, hfa, hfb⟩
  | broadcast a ih => exact ih hp h
  | negate a ih =>
      simp only [eval, Option.bind_eq_bind, Option.bind_eq_some_iff, arith, Option.some.injEq] at h
      obtain ⟨va, hva, rfl⟩ := h
      obtain ⟨hma, -, hda, hfa⟩ := ih hp hva
      exact ⟨(T.wrap_modEq _).trans hma.neg, T.has_wrap _, hda, hfa⟩
  | intrin op a ih => exact ih hp h
  | fold a _ =>
      simp only [eval, Option.map_eq_some_iff] at h
      obtain ⟨va, hva, rfl⟩ := h
      refine ⟨fold_modEq lane hp hva, T.has_wrap _, trivial, ?_⟩
      simp only [FoldsDefined, Pattern.ForallFolds, hva]
      simp
  | indeterminate => cases h
  | overflow => cases h
  | _ => exact absurd hp (by simp [Ring])

theorem eval_of_ring (hcs : ∀ i, T.Has (cs i)) {lane : Nat} {p : Pattern} (hp : Ring T p)
    (hd : Defined T cs ws lane p) (hf : FoldsDefined T cs p) :
    ∃ r, eval .wrapping T cs ws lane p = some r := by
  induction p generalizing lane with
  | wild i => exact ⟨_, rfl⟩
  | wildConst i => exact ⟨_, rfl⟩
  | const c => exact ⟨_, rfl⟩
  | bin op a b iha ihb =>
      cases op with
      | add | sub | mul =>
          obtain ⟨va, hva⟩ := iha hp.1 hd.1 hf.1
          obtain ⟨vb, hvb⟩ := ihb hp.2 hd.2 hf.2
          simp only [eval, hva, hvb, Option.bind_eq_bind, Option.bind_some, evalBin, arith]
          exact ⟨_, rfl⟩
      | min | max => exact ⟨_, eval_of_plain hcs (by exact hp) hd hf⟩
      | _ => exact absurd hp (by simp [Ring])
  | select c t f ihc iht ihf =>
      obtain ⟨vt, hvt⟩ := iht hp.2.1 hd.2.1 hf.2.1
      obtain ⟨vf, hvf⟩ := ihf hp.2.2 hd.2.2 hf.2.2
      have hvc := eval_of_plain (m := .wrapping) hcs hp.1 hd.1 hf.1
      simp only [eval, hvc, hvt, hvf, Option.bind_eq_bind, Option.bind_some, Option.pure_def]
      exact ⟨_, rfl⟩
  | ramp a b iha ihb =>
      obtain ⟨va, hva⟩ := iha hp.1 hd.1 hf.1
      obtain ⟨vb, hvb⟩ := ihb hp.2 hd.2 hf.2
      simp only [eval, hva, hvb, Option.bind_eq_bind, Option.bind_some, arith]
      exact ⟨_, rfl⟩
  | broadcast a ih => exact ih hp hd hf
  | negate a ih =>
      obtain ⟨va, hva⟩ := ih hp hd hf
      simp only [eval, hva, Option.bind_eq_bind, Option.bind_some, arith]
      exact ⟨_, rfl⟩
  | intrin op a ih => exact ih hp hd hf
  | fold a _ =>
      obtain ⟨va, hva⟩ := Option.ne_none_iff_exists'.mp hf
      simp only [eval, hva, Option.map_some]
      exact ⟨_, rfl⟩
  | indeterminate => cases hd
  | overflow => cases hd
  | _ => exact absurd hp (by simp [Ring])

end Ring

/-- The identity of a rule that does not depend on a guard against overflow. -/
def Rule.WrapIdentity (P : Nat → Int → Prop) (T : IntType) (lanes : Nat) (cs : Nat → Int) (r : Rule) : Prop :=
  ∀ ws : Nat → Nat → Int, (∀ i lane, P i (ws i lane)) → Facts T cs ws r.predicate →
    ∀ lane < lanes, Defined T cs ws lane r.before →
      value T cs ws lane r.replacement = value T cs ws lane r.before ∧
        Defined T cs ws lane r.replacement

/-- The same, modulo the width of the type. -/
def Rule.Congruence (T : IntType) (lanes : Nat) (cs : Nat → Int) (r : Rule) : Prop :=
  ∀ ws : Nat → Nat → Int, (∀ i lane, T.Has (ws i lane)) → Facts T cs ws r.predicate →
    ∀ lane < lanes, Defined T cs ws lane r.before →
      value T cs ws lane r.replacement ≡ value T cs ws lane r.before [ZMOD 2 ^ T.bits] ∧
        Defined T cs ws lane r.replacement

/-- What each predicate says in every type. -/
theorem facts_equations (T : IntType) (cs : Nat → Int) (ws : Nat → Nat → Int) :
    (∀ a b, Facts T cs ws (a &&& b) = (Facts T cs ws a ∧ Facts T cs ws b)) ∧
    (∀ op i, Facts T cs ws (cmp op (wildConst i) 0) = CmpHolds op (cs i) 0) ∧
    (∀ op i j, Facts T cs ws (cmp op (wildConst i) (wildConst j)) = CmpHolds op (cs i) (cs j)) ∧
    (∀ op i j, Facts T cs ws (cmp op (wildConst i % wildConst j) 0) =
      CmpHolds op (cs i % cs j) 0) ∧
    (∀ op a b, Facts T cs ws (cmp op (-a) b) = True) ∧
    (∀ a, Facts T cs ws (~~~a) = True) ∧ (∀ v, Facts T cs ws (const v) = True) := by
  exact ⟨fun _ _ => rfl, fun _ _ => rfl, fun _ _ _ => rfl, fun _ _ _ => rfl, fun _ _ _ => rfl,
    fun _ => rfl, fun _ => rfl⟩

section Rules

variable {T : IntType} {lanes : Nat} {cs : Nat → Int} {r : Rule}

theorem facts_of_holds {ws : Nat → Nat → Int} {p : Pattern} (h : Holds T lanes cs ws p) :
    Facts T cs ws p := by
  induction p with
  | bin op a b iha ihb =>
      cases op with
      | and => exact ⟨iha h.1, ihb h.2⟩
      | _ => trivial
  | cmp op a b _ _ =>
      simp only [Facts]
      split_ifs
      exact h
  | _ => trivial

theorem Rule.identity_of_wrap {P : Nat → Int → Prop} (h : r.WrapIdentity P T lanes cs) :
    r.Identity P T lanes cs :=
  fun ws hws hHolds => h ws hws (facts_of_holds hHolds)

theorem Rule.WrapIdentity.congruence (h : r.WrapIdentity (fun _ => T.Has) T lanes cs) :
    r.Congruence T lanes cs := by
  intro ws hws hFacts lane hLane hDefined
  obtain ⟨hSame, hAfter⟩ := h ws hws hFacts lane hLane hDefined
  exact ⟨hSame ▸ rfl, hAfter⟩

/-- A rule between ring patterns is sound modulo the width of the type. -/
theorem Rule.soundAt_wrapping (hcs : ∀ i, T.Has (cs i)) (hb : Ring T r.before)
    (ha : Ring T r.replacement) (hId : r.Congruence T lanes cs)
    (hFolds : FoldsDefined T cs r.replacement) : r.SoundAt .wrapping .wrapping T lanes cs := by
  intro ws hApplies lane hLane
  obtain ⟨hTyped, hPred, hEval⟩ := hApplies
  obtain ⟨v, hv⟩ := hEval lane hLane
  obtain ⟨hModB, hHasB, hDefined, -⟩ := eval_ring hcs hTyped.1 hb hv
  obtain ⟨hSame, hAfter⟩ := hId ws.value hTyped.1 (facts_of_predicate hPred) lane hLane hDefined
  obtain ⟨v', hv'⟩ := eval_of_ring hcs ha hAfter hFolds
  obtain ⟨hModA, hHasA, -⟩ := eval_ring hcs hTyped.1 ha hv'
  rw [hv, hv', IntType.eq_of_modEq hHasA hHasB (hModA.trans (hSame.trans hModB.symm))]

theorem Rule.foldsDefined_of_wrapping (hcs : ∀ i, T.Has (cs i)) (ha : Ring T r.replacement)
    (hLanes : 0 < lanes) (hSome : ∃ ws, r.Applies .wrapping T lanes cs ws)
    (h : r.SoundAt .wrapping .wrapping T lanes cs) : FoldsDefined T cs r.replacement := by
  obtain ⟨ws, hApplies⟩ := hSome
  obtain ⟨v, hv⟩ := hApplies.2.2 0 hLanes
  have hSame := h ws hApplies 0 hLanes
  rw [hv] at hSame
  exact (eval_ring hcs hApplies.1.1 ha hSame).2.2.2

/-- A rule between plain patterns is sound in every type. -/
theorem Rule.soundAt_plain {m m' : Mode} (hcs : ∀ i, T.Has (cs i)) (hb : Plain T r.before)
    (ha : Plain T r.replacement) (hId : r.WrapIdentity (fun _ => T.Has) T lanes cs)
    (hFolds : FoldsDefined T cs r.replacement) : r.SoundAt m m' T lanes cs := by
  intro ws hApplies lane hLane
  obtain ⟨hTyped, hPred, hEval⟩ := hApplies
  obtain ⟨v, hv⟩ := hEval lane hLane
  obtain ⟨rfl, -, hDefined, -⟩ := eval_plain hcs hTyped.1 hb hv
  obtain ⟨hSame, hAfter⟩ := hId ws.value hTyped.1 (facts_of_predicate hPred) lane hLane hDefined
  rw [hv, eval_of_plain hcs ha hAfter hFolds, hSame]

end Rules

end Vyasa.IRMatch
