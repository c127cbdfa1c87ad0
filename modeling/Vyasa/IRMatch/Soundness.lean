import Vyasa.IRMatch.Pattern

/-! The integer a pattern stands for, apart from overflow. Where a pattern has a
value at all and its type does not wrap around, this integer is the value; where
it wraps around, the value is this integer modulo the type's width. -/
namespace Vyasa.IRMatch

open Word Pattern

/-- Folds of these shapes are values of the type as soon as they are computed.
A quotient need not be one. -/
def Pattern.reduced : Pattern → Bool
  | wildConst _ => true
  | const v => v = 0 ∨ v = 1
  | bin .add _ _ | bin .sub _ _ | bin .mul _ _ | negate _ | cmp _ _ _ => true
  | bin .mod _ b => b.reduced
  | bin .min a b | bin .max a b => a.reduced && b.reduced
  | _ => false

def valueBin : BinOp → Int → Int → Int
  | .add, a, b => a + b
  | .sub, a, b => a - b
  | .mul, a, b => a * b
  | .div, a, b => a / b
  | .mod, a, b => a % b
  | .min, a, b => min a b
  | .max, a, b => max a b
  | .and, a, b => if a ≠ 0 ∧ b ≠ 0 then 1 else 0
  | .or, a, b => if a ≠ 0 ∨ b ≠ 0 then 1 else 0

def value (T : IntType) (cs : Nat → Int) (ws : Nat → Nat → Int) (lane : Nat) : Pattern → Int
  | .wild i => ws i lane
  | .wildConst i => cs i
  | .const v => v
  | .bin op a b => valueBin op (value T cs ws lane a) (value T cs ws lane b)
  | .cmp op a b => evalCmp op (value T cs ws lane a) (value T cs ws lane b)
  | .not a => if value T cs ws lane a = 0 then 1 else 0
  | .select c t f =>
      if value T cs ws lane c ≠ 0 then value T cs ws lane t else value T cs ws lane f
  | .ramp a b => value T cs ws 0 a + lane * value T cs ws 0 b
  | .broadcast a => value T cs ws 0 a
  | .negate a => -value T cs ws lane a
  | .intrin _ a => value T cs ws lane a
  | .fold a => if a.reduced then value T cs ws lane a else T.wrap (value T cs ws lane a)
  | _ => 0

/-- No marker and no zero divisor. -/
def Defined (T : IntType) (cs : Nat → Int) (ws : Nat → Nat → Int) (lane : Nat) : Pattern → Prop
  | .wild _ | .wildConst _ | .const _ | .fold _ => True
  | .bin .div a b | .bin .mod a b =>
      Defined T cs ws lane a ∧ Defined T cs ws lane b ∧ value T cs ws lane b ≠ 0
  | .bin _ a b | .cmp _ a b => Defined T cs ws lane a ∧ Defined T cs ws lane b
  | .not a | .negate a | .intrin _ a => Defined T cs ws lane a
  | .select c t f => Defined T cs ws lane c ∧ Defined T cs ws lane t ∧ Defined T cs ws lane f
  | .ramp a b => Defined T cs ws 0 a ∧ Defined T cs ws 0 b
  | .broadcast a => Defined T cs ws 0 a
  | _ => False

/-- Every constant that the pattern folds satisfies `P`. -/
def Pattern.ForallFolds (P : Pattern → Prop) : Pattern → Prop
  | fold a => P a
  | bin _ a b | cmp _ a b | ramp a b => a.ForallFolds P ∧ b.ForallFolds P
  | not a | negate a | intrin _ a | broadcast a => a.ForallFolds P
  | select c t f => c.ForallFolds P ∧ t.ForallFolds P ∧ f.ForallFolds P
  | _ => True

/-- Every constant that the pattern folds comes out as a constant. -/
def FoldsDefined (T : IntType) (cs : Nat → Int) (p : Pattern) : Prop :=
  p.ForallFolds fun a => constantFold T cs (fun _ => false) (fun _ => false) a ≠ none

/-- Every constant that the pattern folds comes out as a value of the type. -/
def FoldsFit (T : IntType) (cs : Nat → Int) (p : Pattern) : Prop :=
  p.ForallFolds fun a => ∃ v ∈ constantFold T cs (fun _ => false) (fun _ => false) a, T.Has v

def Pattern.foldsReduced : Pattern → Bool
  | fold a => a.reduced
  | bin _ a b | cmp _ a b | ramp a b => a.foldsReduced && b.foldsReduced
  | not a | negate a | intrin _ a | broadcast a => a.foldsReduced
  | select c t f => c.foldsReduced && t.foldsReduced && f.foldsReduced
  | _ => true

theorem Pattern.ForallFolds.imp {P Q : Pattern → Prop} (hPQ : ∀ a, P a → Q a) {p : Pattern}
    (h : p.ForallFolds P) : p.ForallFolds Q := by
  induction p with
  | fold a _ => exact hPQ a h
  | bin op a b iha ihb => exact ⟨iha h.1, ihb h.2⟩
  | cmp op a b iha ihb => exact ⟨iha h.1, ihb h.2⟩
  | ramp a b iha ihb => exact ⟨iha h.1, ihb h.2⟩
  | not a ih => exact ih h
  | negate a ih => exact ih h
  | intrin op a ih => exact ih h
  | broadcast a ih => exact ih h
  | select c t f ihc iht ihf => exact ⟨ihc h.1, iht h.2.1, ihf h.2.2⟩
  | _ => trivial

theorem FoldsFit.defined {T : IntType} {cs : Nat → Int} {p : Pattern} (h : FoldsFit T cs p) :
    FoldsDefined T cs p :=
  Pattern.ForallFolds.imp (fun _ ⟨_, hv, _⟩ => Option.ne_none_iff_exists'.mpr ⟨_, hv⟩) h

/-- Arithmetic on constants and literals. -/
def Pattern.foldable : Pattern → Bool
  | wildConst _ | const _ => true
  | bin .and _ _ | bin .or _ _ => false
  | bin _ a b | cmp _ a b => a.foldable && b.foldable
  | negate (wildConst _) => true
  | _ => false

/-- What is folded can be folded. -/
def Pattern.wellFormed : Pattern → Bool
  | fold a => a.foldable
  | bin _ a b | cmp _ a b | ramp a b => a.wellFormed && b.wellFormed
  | not a | negate a | intrin _ a | broadcast a => a.wellFormed
  | select c t f => c.wellFormed && t.wellFormed && f.wellFormed
  | _ => true

section NoOverflow

variable {T : IntType} {cs : Nat → Int} {ws : Nat → Nat → Int}

theorem foldArith_eq (hT : noOverflowInt T = true) {r v : Int} (h : foldArith T r = some v) :
    v = r ∧ T.Has r := by
  unfold foldArith at h
  split_ifs at h with hFits
  rw [not_and, not_not] at hFits
  have hHas := hFits hT
  rw [IntType.wrap_of_has hHas] at h
  cases h
  exact ⟨rfl, hHas⟩

theorem has_of_foldArith {r v : Int} (h : foldArith T r = some v) : T.Has v := by
  unfold foldArith at h
  split_ifs at h
  cases h
  exact T.has_wrap r

theorem constantFoldBinOp_eq (hT : noOverflowInt T = true) {op : BinOp} {a b v : Int}
    (h : constantFoldBinOp T op a b = some v) (hAnd : op ≠ .and) (hOr : op ≠ .or) :
    v = valueBin op a b := by
  cases op with
  | add => exact (foldArith_eq hT h).1
  | sub => exact (foldArith_eq hT h).1
  | mul => exact (foldArith_eq hT h).1
  | div =>
      simp only [constantFoldBinOp] at h
      split_ifs at h
      cases h
      rfl
  | mod =>
      simp only [constantFoldBinOp] at h
      split_ifs at h
      cases h
      rfl
  | min => exact (Option.some.inj h).symm
  | max => exact (Option.some.inj h).symm
  | and => exact absurd rfl hAnd
  | or => exact absurd rfl hOr

theorem has_neg (hT : noOverflowInt T = true) {a : Int} (ha : T.Has a) (hMin : a ≠ T.min) :
    T.Has (-a) := by
  have hSigned : T.signed = true := by
    unfold noOverflowInt at hT
    exact (Bool.and_eq_true _ _ ▸ hT).1
  unfold IntType.Has IntType.min IntType.max at *
  simp only [hSigned, ↓reduceIte] at *
  omega

variable (ws) in
/-- A folded constant is the integer it stands for: the arithmetic that could
have wrapped around has set a flag instead. -/
theorem constantFold_eq (hT : noOverflowInt T = true) (hcs : ∀ i, T.Has (cs i))
    {isConst : Nat → Bool} {prove : Pattern → Bool} (lane : Nat) {p : Pattern}
    (hp : p.foldable = true) {v : Int} (h : constantFold T cs isConst prove p = some v) :
    v = value T cs ws lane p := by
  induction p generalizing v with
  | wildConst i => exact (Option.some.inj h).symm
  | const c => exact (Option.some.inj h).symm
  | bin op a b iha ihb =>
      have hOp : op ≠ .and ∧ op ≠ .or ∧ a.foldable = true ∧ b.foldable = true := by
        cases op <;> simp_all [Pattern.foldable]
      obtain ⟨hAnd, hOr, ha, hb⟩ := hOp
      simp only [constantFold, Option.bind_eq_bind, Option.bind_eq_some_iff, hAnd, hOr, false_and,
        or_self, ↓reduceIte] at h
      obtain ⟨va, hva, vb, hvb, h⟩ := h
      rw [constantFoldBinOp_eq hT h hAnd hOr, iha ha hva, ihb hb hvb]
      rfl
  | cmp op a b iha ihb =>
      simp only [Pattern.foldable, Bool.and_eq_true] at hp
      simp only [constantFold, Option.bind_eq_bind, Option.bind_eq_some_iff, Option.pure_def,
        Option.some.injEq] at h
      obtain ⟨va, hva, vb, hvb, h⟩ := h
      rw [← h, iha hp.1 hva, ihb hp.2 hvb]
      rfl
  | negate a _ =>
      cases a with
      | wildConst i =>
          simp only [constantFold, Option.bind_eq_bind, Option.bind_some, hT, true_and] at h
          split_ifs at h with hMin
          rw [IntType.wrap_of_has (has_neg hT (hcs i) hMin)] at h
          exact (Option.some.inj h).symm
      | _ => simp [Pattern.foldable] at hp
  | _ => simp [Pattern.foldable] at hp

/-- A fold of a reduced shape is a value of the type. -/
theorem has_of_reduced (hcs : ∀ i, T.Has (cs i)) {isConst : Nat → Bool}
    {prove : Pattern → Bool} {p : Pattern} (hp : p.reduced = true) {v : Int}
    (h : constantFold T cs isConst prove p = some v) : T.Has v := by
  induction p generalizing v with
  | wildConst i =>
      cases h
      exact hcs i
  | const c =>
      simp only [Pattern.reduced, decide_eq_true_eq] at hp
      cases h
      rcases hp with rfl | rfl
      · exact T.has_zero
      · exact T.has_one
  | bin op a b iha ihb =>
      simp only [constantFold, Option.bind_eq_bind, Option.bind_eq_some_iff] at h
      obtain ⟨va, hva, h⟩ := h
      cases op with
      | add | sub | mul =>
          simp only [reduceCtorEq, false_and, or_self, ↓reduceIte, Option.bind_eq_some_iff,
            constantFoldBinOp] at h
          obtain ⟨vb, -, h⟩ := h
          exact has_of_foldArith h
      | mod =>
          simp only [reduceCtorEq, false_and, or_self, ↓reduceIte, Option.bind_eq_some_iff,
            constantFoldBinOp] at h
          obtain ⟨vb, hvb, h⟩ := h
          split_ifs at h with hZero
          cases h
          exact IntType.has_emod (ihb hp hvb) (fun h0 => hZero (Or.inl h0))
      | min =>
          simp only [Pattern.reduced, Bool.and_eq_true] at hp
          simp only [reduceCtorEq, false_and, or_self, ↓reduceIte, Option.bind_eq_some_iff,
            constantFoldBinOp, Option.some.injEq] at h
          obtain ⟨vb, hvb, rfl⟩ := h
          rcases min_choice va vb with hMin | hMin
          · rw [hMin]
            exact iha hp.1 hva
          · rw [hMin]
            exact ihb hp.2 hvb
      | max =>
          simp only [Pattern.reduced, Bool.and_eq_true] at hp
          simp only [reduceCtorEq, false_and, or_self, ↓reduceIte, Option.bind_eq_some_iff,
            constantFoldBinOp, Option.some.injEq] at h
          obtain ⟨vb, hvb, rfl⟩ := h
          rcases max_choice va vb with hMax | hMax
          · rw [hMax]
            exact iha hp.1 hva
          · rw [hMax]
            exact ihb hp.2 hvb
      | div | and | or => simp [Pattern.reduced] at hp
  | cmp op a b _ _ =>
      simp only [constantFold, Option.bind_eq_bind, Option.bind_eq_some_iff, Option.pure_def,
        Option.some.injEq] at h
      obtain ⟨va, -, vb, -, rfl⟩ := h
      cases op <;> simp only [evalCmp] <;> split_ifs <;> first | exact T.has_one | exact T.has_zero
  | negate a _ =>
      simp only [constantFold, Option.bind_eq_bind, Option.bind_eq_some_iff] at h
      obtain ⟨va, -, h⟩ := h
      split_ifs at h
      cases h
      exact T.has_wrap _
  | _ => simp [Pattern.reduced] at hp

theorem fold_eq (hT : noOverflowInt T = true) (hcs : ∀ i, T.Has (cs i)) (lane : Nat) {p : Pattern}
    (hp : p.foldable = true) {v : Int}
    (h : constantFold T cs (fun _ => false) (fun _ => false) p = some v) :
    T.wrap v = value T cs ws lane (.fold p) := by
  have hValue := constantFold_eq ws hT hcs lane hp h
  simp only [value]
  split_ifs with hReduced
  · rw [IntType.wrap_of_has (has_of_reduced hcs hReduced h), hValue]
  · rw [hValue]

/-- Only a fold of another shape can come out beyond the type. -/
theorem foldsFit_of_reduced (hcs : ∀ i, T.Has (cs i)) {p : Pattern} (hp : p.foldsReduced = true)
    (h : FoldsDefined T cs p) : FoldsFit T cs p := by
  induction p with
  | fold a _ =>
      obtain ⟨v, hv⟩ := Option.ne_none_iff_exists'.mp h
      exact ⟨v, hv, has_of_reduced hcs hp hv⟩
  | bin op a b iha ihb | cmp op a b iha ihb | ramp a b iha ihb =>
      simp only [Pattern.foldsReduced, Bool.and_eq_true] at hp
      exact ⟨iha hp.1 h.1, ihb hp.2 h.2⟩
  | not a ih | negate a ih | intrin op a ih | broadcast a ih => exact ih hp h
  | select c t f ihc iht ihf =>
      simp only [Pattern.foldsReduced, Bool.and_eq_true] at hp
      exact ⟨ihc hp.1.1 h.1, iht hp.1.2 h.2.1, ihf hp.2 h.2.2⟩
  | _ => trivial

theorem arith_eq {m : Mode} (hm : m ≠ .wrapping) {r v : Int} (h : arith m T r = some v) : v = r := by
  cases m with
  | wrapping => exact absurd rfl hm
  | checked =>
      simp only [arith] at h
      split_ifs at h
      exact (Option.some.inj h).symm
  | exact => exact (Option.some.inj h).symm

theorem literal_eq {m : Mode} (hm : m ≠ .wrapping) (v : Int) : literal m T v = v := by
  cases m with
  | wrapping => exact absurd rfl hm
  | checked => rfl
  | exact => rfl

theorem evalBin_eq {m : Mode} (hm : m ≠ .wrapping) {op : BinOp} {a b v : Int}
    (h : evalBin m T op a b = some v) :
    v = valueBin op a b ∧ (op = .div ∨ op = .mod → b ≠ 0) := by
  cases op with
  | add => exact ⟨arith_eq hm h, by simp⟩
  | sub => exact ⟨arith_eq hm h, by simp⟩
  | mul => exact ⟨arith_eq hm h, by simp⟩
  | div =>
      simp only [evalBin] at h
      split_ifs at h with hb
      exact ⟨arith_eq hm h, fun _ => hb⟩
  | mod =>
      simp only [evalBin] at h
      split_ifs at h with hb
      exact ⟨(Option.some.inj h).symm, fun _ => hb⟩
  | min => exact ⟨(Option.some.inj h).symm, by simp⟩
  | max => exact ⟨(Option.some.inj h).symm, by simp⟩
  | and => exact ⟨(Option.some.inj h).symm, by simp⟩
  | or => exact ⟨(Option.some.inj h).symm, by simp⟩

/-- A value that does not come from wrapping around is the pattern's integer,
and everything it needed was defined. -/
theorem eval_eq {m : Mode} (hm : m ≠ .wrapping) (hT : noOverflowInt T = true)
    (hcs : ∀ i, T.Has (cs i)) {lane : Nat} {p : Pattern} (hp : p.wellFormed = true) {r : Int}
    (h : eval m T cs ws lane p = some r) :
    r = value T cs ws lane p ∧ Defined T cs ws lane p ∧ FoldsDefined T cs p := by
  induction p generalizing lane r with
  | wild i => exact ⟨(Option.some.inj h).symm, trivial, trivial⟩
  | wildConst i => exact ⟨(Option.some.inj h).symm, trivial, trivial⟩
  | const c =>
      refine ⟨?_, trivial, trivial⟩
      rw [eval, literal_eq hm] at h
      exact (Option.some.inj h).symm
  | bin op a b iha ihb =>
      simp only [Pattern.wellFormed, Bool.and_eq_true] at hp
      simp only [eval, Option.bind_eq_bind, Option.bind_eq_some_iff] at h
      obtain ⟨va, hva, vb, hvb, h⟩ := h
      obtain ⟨rfl, hda, hfa⟩ := iha hp.1 hva
      obtain ⟨rfl, hdb, hfb⟩ := ihb hp.2 hvb
      obtain ⟨rfl, hZero⟩ := evalBin_eq hm h
      refine ⟨rfl, ?_, hfa, hfb⟩
      cases op <;> simp_all [Defined]
  | cmp op a b iha ihb =>
      simp only [Pattern.wellFormed, Bool.and_eq_true] at hp
      simp only [eval, Option.bind_eq_bind, Option.bind_eq_some_iff, Option.pure_def,
        Option.some.injEq] at h
      obtain ⟨va, hva, vb, hvb, rfl⟩ := h
      obtain ⟨rfl, hda, hfa⟩ := iha hp.1 hva
      obtain ⟨rfl, hdb, hfb⟩ := ihb hp.2 hvb
      exact ⟨rfl, ⟨hda, hdb⟩, hfa, hfb⟩
  | not a ih =>
      simp only [eval, Option.bind_eq_bind, Option.bind_eq_some_iff, Option.pure_def,
        Option.some.injEq] at h
      obtain ⟨va, hva, rfl⟩ := h
      obtain ⟨rfl, hda, hfa⟩ := ih hp hva
      exact ⟨rfl, hda, hfa⟩
  | select c t f ihc iht ihf =>
      simp only [Pattern.wellFormed, Bool.and_eq_true] at hp
      simp only [eval, Option.bind_eq_bind, Option.bind_eq_some_iff, Option.pure_def,
        Option.some.injEq] at h
      obtain ⟨vc, hvc, vt, hvt, vf, hvf, rfl⟩ := h
      obtain ⟨rfl, hdc, hfc⟩ := ihc hp.1.1 hvc
      obtain ⟨rfl, hdt, hft⟩ := iht hp.1.2 hvt
      obtain ⟨rfl, hdf, hff⟩ := ihf hp.2 hvf
      exact ⟨rfl, ⟨hdc, hdt, hdf⟩, hfc, hft, hff⟩
  | ramp a b iha ihb =>
      simp only [Pattern.wellFormed, Bool.and_eq_true] at hp
      simp only [eval, Option.bind_eq_bind, Option.bind_eq_some_iff] at h
      obtain ⟨va, hva, vb, hvb, h⟩ := h
      obtain ⟨rfl, hda, hfa⟩ := iha hp.1 hva
      obtain ⟨rfl, hdb, hfb⟩ := ihb hp.2 hvb
      exact ⟨arith_eq hm h, ⟨hda, hdb⟩, hfa, hfb⟩
  | broadcast a ih => exact ih hp h
  | negate a ih =>
      simp only [eval, Option.bind_eq_bind, Option.bind_eq_some_iff] at h
      obtain ⟨va, hva, h⟩ := h
      obtain ⟨rfl, hda, hfa⟩ := ih hp hva
      exact ⟨arith_eq hm h, hda, hfa⟩
  | intrin op a ih => exact ih hp h
  | fold a _ =>
      simp only [eval, Option.map_eq_some_iff] at h
      obtain ⟨va, hva, rfl⟩ := h
      refine ⟨fold_eq hT hcs lane hp hva, trivial, ?_⟩
      simp only [FoldsDefined, Pattern.ForallFolds, hva]
      simp
  | _ => simp [eval] at h

/-- Conversely, a pattern with everything defined has its integer as value. -/
theorem eval_exact (hT : noOverflowInt T = true) (hcs : ∀ i, T.Has (cs i)) {lane : Nat}
    {p : Pattern} (hp : p.wellFormed = true) (hd : Defined T cs ws lane p)
    (hf : FoldsDefined T cs p) : eval .exact T cs ws lane p = some (value T cs ws lane p) := by
  induction p generalizing lane with
  | wild i => rfl
  | wildConst i => rfl
  | const c => rfl
  | bin op a b iha ihb =>
      simp only [Pattern.wellFormed, Bool.and_eq_true] at hp
      have hParts : Defined T cs ws lane a ∧ Defined T cs ws lane b := by
        cases op <;> simp_all [Defined]
      simp only [eval, iha hp.1 hParts.1 hf.1, ihb hp.2 hParts.2 hf.2, Option.bind_eq_bind,
        Option.bind_some, value]
      cases op <;> simp_all [Defined, evalBin, valueBin, arith]
  | cmp op a b iha ihb =>
      simp only [Pattern.wellFormed, Bool.and_eq_true] at hp
      simp [eval, iha hp.1 hd.1 hf.1, ihb hp.2 hd.2 hf.2, value]
  | not a ih => simp [eval, ih hp hd hf, value]
  | select c t f ihc iht ihf =>
      simp only [Pattern.wellFormed, Bool.and_eq_true] at hp
      simp [eval, ihc hp.1.1 hd.1 hf.1, iht hp.1.2 hd.2.1 hf.2.1, ihf hp.2 hd.2.2 hf.2.2, value]
  | ramp a b iha ihb =>
      simp only [Pattern.wellFormed, Bool.and_eq_true] at hp
      simp [eval, iha hp.1 hd.1 hf.1, ihb hp.2 hd.2 hf.2, value, arith]
  | broadcast a ih => exact ih hp hd hf
  | negate a ih => simp [eval, ih hp hd hf, value, arith]
  | intrin op a ih => exact ih hp hd hf
  | fold a _ =>
      obtain ⟨va, hva⟩ := Option.ne_none_iff_exists'.mp hf
      simp only [eval, hva, Option.map_some]
      rw [fold_eq hT hcs lane hp hva]
  | _ => simp [Defined] at hd

end NoOverflow

end Vyasa.IRMatch

/-! What the soundness of a rewrite rule comes down to: an identity between
integers under the rule's predicate, and constants that fold. -/
namespace Vyasa.IRMatch

open Word Pattern

def CmpHolds : CmpOp → Int → Int → Prop
  | .lt, a, b => a < b
  | .le, a, b => a ≤ b
  | .gt, a, b => b < a
  | .ge, a, b => b ≤ a
  | .eq, a, b => a = b
  | .ne, a, b => a ≠ b

/-- What a satisfied predicate says about the integers. -/
def Holds (T : IntType) (lanes : Nat) (cs : Nat → Int) (ws : Nat → Nat → Int) : Pattern → Prop
  | .bin .and a b => Holds T lanes cs ws a ∧ Holds T lanes cs ws b
  | .bin .or a b => Holds T lanes cs ws a ∨ Holds T lanes cs ws b
  | .cmp op a b => CmpHolds op (value T cs ws 0 a) (value T cs ws 0 b)
  | .canProve a => ∀ lane < lanes, value T cs ws lane a ≠ 0
  | _ => True

def Pattern.isPredicate : Pattern → Bool
  | const _ => true
  | bin .and a b | bin .or a b => a.isPredicate && b.isPredicate
  | cmp _ a b => a.foldable && b.foldable
  | not (overflows _) | not (isConst _) => true
  | canProve a => a.wellFormed
  | _ => false

theorem cmpHolds_of_ne_zero {op : CmpOp} {a b : Int} (h : evalCmp op a b ≠ 0) : CmpHolds op a b := by
  cases op <;> simp only [evalCmp] at h <;> split_ifs at h <;> simp_all [CmpHolds]

section Predicates

variable {T : IntType} {lanes : Nat} {cs : Nat → Int}

variable {ws : Nat → Nat → Int} {isConst : Nat → Bool} {prove : Pattern → Bool}

/-- A prover that proves only what is true in every lane makes predicates say what
they are meant to say. -/
theorem holds_of_constantFold (hT : noOverflowInt T = true) (hcs : ∀ i, T.Has (cs i))
    (hProve : ∀ a : Pattern, a.wellFormed = true → prove a = true →
      ∀ lane < lanes, value T cs ws lane a ≠ 0)
    {p : Pattern} (hp : p.isPredicate = true) {v : Int}
    (h : constantFold T cs isConst prove p = some v) (hv : v ≠ 0) : Holds T lanes cs ws p := by
  induction p generalizing v with
  | bin op a b iha ihb =>
      have hOp : (op = .and ∨ op = .or) ∧ a.isPredicate = true ∧ b.isPredicate = true := by
        cases op <;> simp_all [Pattern.isPredicate]
      obtain ⟨hOp, ha, hb⟩ := hOp
      simp only [constantFold, Option.bind_eq_bind, Option.bind_eq_some_iff] at h
      obtain ⟨va, hva, h⟩ := h
      rcases hOp with rfl | rfl
      · by_cases h0 : va = 0
        · simp only [h0, and_self, true_or, ↓reduceIte, Option.pure_def, Option.some.injEq] at h
          exact absurd h.symm hv
        · simp only [h0, and_false, reduceCtorEq, false_and, or_self, ↓reduceIte,
            Option.bind_eq_some_iff, constantFoldBinOp, Option.some.injEq] at h
          obtain ⟨vb, hvb, rfl⟩ := h
          split_ifs at hv with hOdd
          · exact ⟨iha ha hva h0, ihb hb hvb (by omega)⟩
          · exact absurd rfl hv
      · by_cases h1 : va = 1
        · exact Or.inl (iha ha hva (by omega))
        · simp only [h1, and_false, reduceCtorEq, false_and, or_self, ↓reduceIte,
            Option.bind_eq_some_iff, constantFoldBinOp, Option.some.injEq] at h
          obtain ⟨vb, hvb, rfl⟩ := h
          split_ifs at hv with hOdd
          · rcases hOdd with hOdd | hOdd
            · exact Or.inl (iha ha hva (by omega))
            · exact Or.inr (ihb hb hvb (by omega))
          · exact absurd rfl hv
  | cmp op a b _ _ =>
      simp only [Pattern.isPredicate, Bool.and_eq_true] at hp
      simp only [constantFold, Option.bind_eq_bind, Option.bind_eq_some_iff, Option.pure_def,
        Option.some.injEq] at h
      obtain ⟨va, hva, vb, hvb, rfl⟩ := h
      rw [constantFold_eq ws hT hcs 0 hp.1 hva,
        constantFold_eq ws hT hcs 0 hp.2 hvb] at hv
      exact cmpHolds_of_ne_zero hv
  | canProve a _ =>
      simp only [constantFold, Option.some.injEq] at h
      split_ifs at h with hTrue
      · exact hProve a hp hTrue
      · exact absurd h.symm hv
  | _ => trivial

theorem holds_of_predicate (hT : noOverflowInt T = true) (hcs : ∀ i, T.Has (cs i))
    (hProve : ∀ a : Pattern, a.wellFormed = true → prove a = true →
      ∀ lane < lanes, value T cs ws lane a ≠ 0)
    {p : Pattern} (hp : p.isPredicate = true) (h : evaluatePredicate T cs isConst prove p = true) :
    Holds T lanes cs ws p := by
  unfold evaluatePredicate at h
  split at h
  · rename_i v hv
    exact holds_of_constantFold hT hcs hProve hp hv (by simpa using h)
  · cases h

theorem ne_zero_of_proves (hT : noOverflowInt T = true) (hcs : ∀ i, T.Has (cs i)) (ws : Wilds)
    (a : Pattern) (ha : a.wellFormed = true) (h : proves T lanes cs ws a = true) :
    ∀ lane < lanes, value T cs ws.value lane a ≠ 0 := by
  intro lane hLane
  rw [proves, decide_eq_true_eq] at h
  obtain ⟨r, hr, hne⟩ := h lane hLane
  rw [← (eval_eq (by simp) hT hcs ha hr).1]
  exact hne

end Predicates

def Rule.wellFormed (r : Rule) : Bool :=
  r.before.wellFormed && r.replacement.wellFormed && r.predicate.isPredicate

/-- For wildcards in `P`, both sides of the rule stand for the same integer where its
predicate holds, and the replacement has no zero divisor that was not there before. -/
def Rule.Identity (P : Nat → Int → Prop) (T : IntType) (lanes : Nat) (cs : Nat → Int) (r : Rule) : Prop :=
  ∀ ws : Nat → Nat → Int, (∀ i lane, P i (ws i lane)) → Holds T lanes cs ws r.predicate →
    ∀ lane < lanes, Defined T cs ws lane r.before →
      value T cs ws lane r.replacement = value T cs ws lane r.before ∧
        Defined T cs ws lane r.replacement

section Rules

variable {T : IntType} {lanes : Nat} {cs : Nat → Int} {r : Rule}

theorem Rule.soundAt_of_identity (hT : noOverflowInt T = true) (hcs : ∀ i, T.Has (cs i))
    (hr : r.wellFormed = true) (hId : r.Identity (fun _ => T.Has) T lanes cs)
    (hFolds : FoldsDefined T cs r.replacement) : r.SoundAt .checked .exact T lanes cs := by
  intro ws hApplies lane hLane
  obtain ⟨hTyped, hPred, hEval⟩ := hApplies
  simp only [Rule.wellFormed, Bool.and_eq_true] at hr
  obtain ⟨v, hv⟩ := hEval lane hLane
  obtain ⟨rfl, hDefined, -⟩ := eval_eq (by simp) hT hcs hr.1.1 hv
  obtain ⟨hSame, hAfter⟩ :=
    hId ws.value hTyped.1 (holds_of_predicate hT hcs (ne_zero_of_proves hT hcs ws) hr.2 hPred) lane hLane hDefined
  rw [hv, eval_exact hT hcs hr.1.2 hAfter hFolds, hSame]

/-- Where a sound rule applies, its replacement has folded all its constants and
stands for the integer of what it replaces. -/
theorem Rule.value_of_soundAt (hT : noOverflowInt T = true) (hcs : ∀ i, T.Has (cs i))
    (hr : r.wellFormed = true) (h : r.SoundAt .checked .exact T lanes cs) (ws : Wilds)
    (hApplies : r.Applies .checked T lanes cs ws) {lane : Nat} (hLane : lane < lanes) :
    value T cs ws.value lane r.replacement = value T cs ws.value lane r.before ∧
      FoldsDefined T cs r.replacement := by
  simp only [Rule.wellFormed, Bool.and_eq_true] at hr
  obtain ⟨v, hv⟩ := hApplies.2.2 lane hLane
  have hSame := h ws hApplies lane hLane
  rw [hv] at hSame
  obtain ⟨hAfter, -, hFolds⟩ := eval_eq (by simp) hT hcs hr.1.2 hSame
  exact ⟨hAfter.symm.trans (eval_eq (by simp) hT hcs hr.1.1 hv).1, hFolds⟩

theorem Rule.foldsDefined_of_soundAt (hT : noOverflowInt T = true) (hcs : ∀ i, T.Has (cs i))
    (hr : r.wellFormed = true) (hLanes : 0 < lanes) (hSome : ∃ ws, r.Applies .checked T lanes cs ws)
    (h : r.SoundAt .checked .exact T lanes cs) : FoldsDefined T cs r.replacement := by
  obtain ⟨ws, hApplies⟩ := hSome
  exact (Rule.value_of_soundAt hT hcs hr h ws hApplies hLanes).2

end Rules

/-- The same value for every wildcard, in every lane. -/
def Wilds.uniform (v : Int) : Wilds := { value := fun _ _ => v }

theorem Wilds.uniform_typed {T : IntType} {p : Pattern} {v : Int} (hv : T.Has v) :
    (Wilds.uniform v).Typed T p :=
  ⟨fun _ _ => hv, fun _ _ _ => rfl⟩

/-- Constants given by a list, and zero for the rest. -/
def constants (l : List Int) (i : Nat) : Int := l.getD i 0

theorem has_constants {T : IntType} {l : List Int} (h : ∀ c ∈ l, T.Has c) (i : Nat) :
    T.Has (constants l i) := by
  unfold constants
  by_cases hi : i < l.length
  · rw [List.getD_eq_getElem _ _ hi]
    exact h _ (List.getElem_mem hi)
  · rw [List.getD_eq_default _ _ (by omega)]
    exact T.has_zero

end Vyasa.IRMatch
