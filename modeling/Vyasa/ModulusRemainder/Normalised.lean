import Vyasa.ModulusRemainder.Soundness

/-! Which operations keep the modulus non-negative and the remainder reduced. -/
namespace Vyasa.ModulusRemainder

open Word

def Normalised (m : ModulusRemainder) : Prop :=
  0 ≤ m.modulus.toInt ∧
    (0 < m.modulus.toInt → 0 ≤ m.remainder.toInt ∧ m.remainder.toInt < m.modulus.toInt)

instance (m : ModulusRemainder) : Decidable m.Normalised := inferInstanceAs (Decidable (_ ∧ _))

/-- Whatever the operation returns is normalised. -/
def Keeps (r : Option ModulusRemainder) : Prop := ∀ c, r = some c → c.Normalised

theorem keeps_none : Keeps none := by
  intro c hc
  cases hc

theorem keeps_some {m : ModulusRemainder} : Keeps (some m) ↔ m.Normalised := by
  constructor
  · intro h
    exact h m rfl
  · intro h c hc
    cases hc
    exact h

theorem normalised_all : Normalised {} := by decide

theorem normalised_constant (r : Int64) : Normalised ⟨0, r⟩ := by
  constructor
  · simp
  · simp

theorem normalised_multiples {m : Int64} (hm : 0 ≤ m.toInt) : Normalised ⟨m, 0⟩ := by
  refine ⟨hm, ?_⟩
  intro hPos
  exact ⟨by simp, by simpa using hPos⟩

/-- A reduced remainder different from zero keeps zero out of the set. -/
theorem zero_not_mem {m : ModulusRemainder} (hm : m.Normalised) (hr : m.remainder ≠ 0) :
    (0 : Int) ∉ m := by
  intro h
  obtain ⟨hMod, hRem⟩ := hm
  have hr' := toInt_ne_zero hr
  rw [mem_iff_dvd, zero_sub, dvd_neg] at h
  by_cases h0 : 0 < m.modulus.toInt
  · obtain ⟨hNonneg, hLt⟩ := hRem h0
    have hLe := Int.le_of_dvd (by omega) h
    omega
  · rw [show m.modulus.toInt = 0 by omega, zero_dvd_iff] at h
    exact hr' h

theorem not_traps_of_nonneg {a b : Int64} (hb : 0 ≤ b.toInt) : ¬ Traps a b := by
  rw [traps_iff_toInt]
  omega

theorem mod_normalised {s g r : Int64} (hg : 0 ≤ g.toInt) (h : mod s g = some r) :
    Normalised ⟨g, r⟩ := by
  refine ⟨hg, ?_⟩
  intro hPos
  obtain ⟨r', hr', hEq⟩ := mod_eq (s := s) (not_traps_of_nonneg hg)
  rw [h] at hr'
  cases hr'
  change 0 ≤ r.toInt ∧ r.toInt < g.toInt
  rw [hEq]
  exact ⟨Int.emod_nonneg _ (by change 0 < g.toInt at hPos; omega), Int.emod_lt_of_pos _ hPos⟩

theorem gcd_nonneg {a b g : Int64} (ha : 0 ≤ a.toInt) (hb : 0 ≤ b.toInt) (h : gcd a b = some g) :
    0 ≤ g.toInt := by
  obtain ⟨g', hg', -, hSign⟩ := gcd_eq (not_traps_of_nonneg (a := a) hb) (not_traps_of_nonneg (a := b) ha)
  rw [h] at hg'
  cases hg'
  exact hSign ha hb

theorem reduce_keeps {s : Int64} {g : Option Int64} (hg : ∀ m, g = some m → 0 ≤ m.toInt) :
    Keeps (reduce s g) := by
  intro c hc
  cases g with
  | none => simp [reduce] at hc
  | some m =>
      cases hr : mod s m with
      | none => simp [reduce, hr] at hc
      | some r =>
          simp only [reduce, hr, Option.bind_eq_bind, Option.bind_some, Option.pure_def,
            Option.some.injEq] at hc
          rw [← hc]
          exact mod_normalised (hg m rfl) hr

theorem add_keeps {a b : ModulusRemainder} (ha : a.Normalised) (hb : b.Normalised) :
    Keeps (add a b) := by
  rw [add_eq]
  split_ifs
  · exact keeps_some.mpr normalised_all
  · exact reduce_keeps (fun _ => gcd_nonneg ha.1 hb.1)

theorem sub_keeps {a b : ModulusRemainder} (ha : a.Normalised) (hb : b.Normalised) :
    Keeps (sub a b) := by
  rw [sub_eq]
  split_ifs
  · exact keeps_some.mpr normalised_all
  · exact reduce_keeps (fun _ => gcd_nonneg ha.1 hb.1)

theorem intersect_keeps {a b : ModulusRemainder} (ha : a.Normalised) (hb : b.Normalised) :
    (intersect a b).Normalised := by
  unfold intersect
  split_ifs
  · exact ha
  · exact hb
  · exact ha
  · exact hb

theorem unifyOrdered_keeps {a b : ModulusRemainder} (ha : a.Normalised) (hb : b.Normalised)
    (hOrder : b.remainder.toInt ≤ a.remainder.toInt) : Keeps (unifyOrdered a b) := by
  intro c hc
  cases hm : gcd a.modulus b.modulus with
  | none => simp [unifyOrdered, hm] at hc
  | some m =>
      cases hOver : subWouldOverflow 64 a.remainder b.remainder with
      | true =>
          simp only [unifyOrdered, hm, hOver, Option.bind_eq_bind, Option.bind_some, ↓reduceIte,
            Option.pure_def, Option.some.injEq] at hc
          rw [← hc]
          exact normalised_constant 1
      | false =>
          have hDiff : 0 ≤ (a.remainder - b.remainder).toInt := by
            rw [toInt_sub_of_fits]
            · omega
            · by_contra hNot
              rw [← subWouldOverflow_iff le_rfl (fits_toInt _), hOver] at hNot
              cases hNot
          cases hg : gcd (a.remainder - b.remainder) m with
          | none => simp [unifyOrdered, hm, hOver, hg] at hc
          | some g =>
              have hNonneg := gcd_nonneg hDiff (gcd_nonneg ha.1 hb.1 hm) hg
              obtain ⟨ra, hra, -⟩ := mod_eq (s := a.remainder) (not_traps_of_nonneg hNonneg)
              obtain ⟨rb, hrb, -⟩ := mod_eq (s := b.remainder) (not_traps_of_nonneg hNonneg)
              simp only [unifyOrdered, hm, hOver, hg, hra, hrb, Option.bind_eq_bind,
                Option.bind_some, Bool.false_eq_true, ↓reduceIte, Option.pure_def] at hc
              split_ifs at hc
              cases hc
              exact mod_normalised hNonneg hra

theorem unify_keeps {a b : ModulusRemainder} (ha : a.Normalised) (hb : b.Normalised) :
    Keeps (unify a b) := by
  unfold unify
  split_ifs with h
  · rw [Int64.lt_iff_toInt_lt] at h
    exact unifyOrdered_keeps hb ha h.le
  · rw [Int64.lt_iff_toInt_lt] at h
    exact unifyOrdered_keeps ha hb (by omega)

/-- A negative constant times a strided set that is not a constant, with no
overflow: the product's modulus is negative. -/
def NegativeScale (c : Int64) (m : ModulusRemainder) : Prop :=
  c.toInt < 0 ∧ 0 < m.modulus.toInt ∧ Fits 64 (c.toInt * m.modulus.toInt) ∧
    Fits 64 (c.toInt * m.remainder.toInt)

theorem mulWouldOverflow_false_iff {a b : Int64} :
    mulWouldOverflow 64 a b = false ↔ Fits 64 (a.toInt * b.toInt) := by
  rw [← Bool.not_eq_true, mulWouldOverflow_iff le_rfl (fits_toInt _) (fits_toInt _), not_not]

theorem scale_keeps_iff {c r : Int64} {m : ModulusRemainder} (hm : m.Normalised)
    (hMod : Fits 64 (c.toInt * m.modulus.toInt)) (hr : r.toInt = c.toInt * m.remainder.toInt)
    (hRem : Fits 64 (c.toInt * m.remainder.toInt)) :
    Normalised ⟨c * m.modulus, r⟩ ↔ ¬ NegativeScale c m := by
  obtain ⟨h0, hLt⟩ := hm
  unfold Normalised NegativeScale
  simp only [toInt_mul_of_fits hMod, hr]
  constructor
  · rintro ⟨hNonneg, -⟩ ⟨hc, hPos, -⟩
    have hNeg := mul_neg_of_neg_of_pos hc hPos
    omega
  · intro h
    by_cases hPos : 0 < m.modulus.toInt
    · have hc : 0 ≤ c.toInt := by
        by_contra hc
        exact h ⟨by omega, hPos, hMod, hRem⟩
      obtain ⟨hr0, hrLt⟩ := hLt hPos
      refine ⟨mul_nonneg hc h0, ?_⟩
      intro hPos'
      have hc' : 0 < c.toInt := pos_of_mul_pos_left hPos' h0
      exact ⟨mul_nonneg hc hr0, mul_lt_mul_of_pos_left hrLt hc'⟩
    · rw [show m.modulus.toInt = 0 by omega, mul_zero]
      omega

theorem scaled_keeps {m : Int64} {g : Option Int64} (hm : 0 ≤ m.toInt)
    (hg : ∀ x, g = some x → 0 ≤ x.toInt) : Keeps (scaled m g) := by
  intro c hc
  cases g with
  | none => simp [scaled] at hc
  | some x =>
      cases hTest : mulWouldOverflow 64 m x with
      | true =>
          simp only [scaled, hTest, Option.bind_eq_bind, Option.bind_some, Bool.not_true,
            Bool.false_eq_true, ↓reduceIte, Option.pure_def, Option.some.injEq] at hc
          rw [← hc]
          exact normalised_all
      | false =>
          simp only [scaled, hTest, Option.bind_eq_bind, Option.bind_some, Bool.not_false,
            ↓reduceIte, Option.pure_def, Option.some.injEq] at hc
          rw [← hc]
          apply normalised_multiples
          rw [toInt_mul_of_tested hTest]
          exact mul_nonneg hm (hg x rfl)

def MulKeeps (a b : ModulusRemainder) : Prop :=
  ¬ (a.modulus = 0 ∧ NegativeScale a.remainder b) ∧ ¬ (b.modulus = 0 ∧ NegativeScale b.remainder a)

theorem not_negativeScale_of_constant {c : Int64} {m : ModulusRemainder} (h : m.modulus = 0) :
    ¬ NegativeScale c m := by
  rintro ⟨-, hPos, -⟩
  rw [h, toInt_zero] at hPos
  exact lt_irrefl _ hPos

theorem keeps_tested_iff {c r : Int64} {m : ModulusRemainder} (hm : m.Normalised)
    (hr : Fits 64 (c.toInt * m.remainder.toInt) → r.toInt = c.toInt * m.remainder.toInt)
    {test : Bool} (hTest : test = true ↔ Fits 64 (c.toInt * m.modulus.toInt) ∧
      Fits 64 (c.toInt * m.remainder.toInt)) :
    Keeps (if test then some ⟨c * m.modulus, r⟩ else some {}) ↔ ¬ NegativeScale c m := by
  split_ifs with h
  · obtain ⟨hMod, hRem⟩ := hTest.mp h
    rw [keeps_some]
    exact scale_keeps_iff hm hMod (hr hRem) hRem
  · refine iff_of_true (keeps_some.mpr normalised_all) ?_
    rintro ⟨-, -, hMod, hRem⟩
    exact h (hTest.mpr ⟨hMod, hRem⟩)

theorem remainder_nonneg {m : ModulusRemainder} (hm : m.Normalised) (h : m.modulus ≠ 0) :
    0 ≤ m.remainder.toInt := by
  have hne := toInt_ne_zero h
  obtain ⟨h0, hLt⟩ := hm
  exact (hLt (by omega)).1

theorem mul_keeps_iff {a b : ModulusRemainder} (ha : a.Normalised) (hb : b.Normalised) :
    Keeps (mul a b) ↔ MulKeeps a b := by
  unfold mul MulKeeps
  by_cases hma : a.modulus = 0
  · have hNot : ¬ (b.modulus = 0 ∧ NegativeScale b.remainder a) := fun h =>
      not_negativeScale_of_constant hma h.2
    simp only [hma, ↓reduceIte, true_and, hNot, not_false_eq_true, and_true]
    refine keeps_tested_iff hb (fun h => toInt_mul_of_fits h) ?_
    rw [Bool.and_eq_true, Bool.not_eq_true', Bool.not_eq_true', mulWouldOverflow_false_iff,
      mulWouldOverflow_false_iff]
  by_cases hmb : b.modulus = 0
  · simp only [hma, hmb, ↓reduceIte, true_and, false_and, not_false_eq_true]
    refine keeps_tested_iff ha ?_ ?_
    · intro h
      rw [mul_comm] at h ⊢
      exact toInt_mul_of_fits h
    · rw [Bool.and_eq_true, Bool.not_eq_true', Bool.not_eq_true', mulWouldOverflow_false_iff,
        mulWouldOverflow_false_iff, mul_comm a.remainder.toInt]
  have hra := remainder_nonneg ha hma
  have hrb := remainder_nonneg hb hmb
  simp only [hma, hmb, ↓reduceIte, false_and, not_false_eq_true, and_self, iff_true]
  split_ifs with h0 hTest
  · rw [Bool.not_eq_true'] at hTest
    apply keeps_some.mpr
    apply normalised_multiples
    rw [toInt_mul_of_tested hTest]
    exact mul_nonneg ha.1 hb.1
  · exact keeps_some.mpr normalised_all
  · exact scaled_keeps ha.1 (fun _ => gcd_nonneg hb.1 hrb)
  · exact scaled_keeps hb.1 (fun _ => gcd_nonneg ha.1 hra)
  · exact reduce_keeps (fun _ => gcd_nonneg ha.1 hb.1)
  · exact keeps_some.mpr normalised_all

/-- A negative constant that divides a positive modulus. -/
def DivKeeps (a b : ModulusRemainder) : Prop :=
  ¬ (b.modulus = 0 ∧ b.remainder.toInt < 0 ∧ 0 < a.modulus.toInt ∧
    b.remainder.toInt ∣ a.modulus.toInt)

theorem div_keeps_iff {a b : ModulusRemainder} (ha : a.Normalised) :
    Keeps (div a b) ↔ DivKeeps a b := by
  unfold DivKeeps
  by_cases hm : b.modulus = 0
  · by_cases hr : b.remainder = 0
    · refine iff_of_true ?_ ?_
      · simp only [div, hm, hr, ne_eq, not_true_eq_false, and_false, ↓reduceIte]
        exact keeps_some.mpr normalised_all
      · simp [hr]
    have hr' := toInt_ne_zero hr
    have hTraps : ¬ Traps a.modulus b.remainder := by
      rw [traps_iff_toInt]
      have h0 := ha.1
      omega
    rw [div_of_constant hm hr hTraps]
    simp only [hm, true_and]
    split_ifs with hDvd
    · by_cases hTrap : Traps a.remainder b.remainder
      · rw [divImp_of_traps hTrap]
        refine iff_of_true keeps_none ?_
        rintro ⟨-, hPos, -⟩
        rw [traps_iff_toInt] at hTrap
        have hRem := ha.2 hPos
        omega
      · obtain ⟨q, hq, hEq⟩ := divImp_eq hr hTrap
        rw [hq]
        change Keeps (some _) ↔ _
        rw [keeps_some]
        obtain ⟨t, ht⟩ := hDvd
        have hQuot : (a.modulus / b.remainder).toInt = t := by
          rw [toInt_quot hTraps, ht, Int.mul_tdiv_cancel_left _ hr']
        unfold Normalised
        simp only [hQuot, hEq]
        constructor
        · rintro ⟨hNonneg, -⟩ ⟨hNeg, hPos, -⟩
          rw [ht] at hPos
          exact absurd (mul_nonpos_of_nonpos_of_nonneg hNeg.le hNonneg) (by omega)
        · intro h
          by_cases hPos : 0 < a.modulus.toInt
          · have hb : 0 < b.remainder.toInt := by
              by_contra hNot
              exact h ⟨by omega, hPos, t, ht⟩
            obtain ⟨hr0, hrLt⟩ := ha.2 hPos
            rw [ht] at hPos hrLt
            have htPos := pos_of_mul_pos_right hPos hb.le
            refine ⟨htPos.le, fun _ => ⟨Int.ediv_nonneg hr0 hb.le, ?_⟩⟩
            rw [Int.ediv_lt_iff_lt_mul hb, mul_comm]
            exact hrLt
          · have h0 : a.modulus.toInt = 0 := by
              have hNonneg := ha.1
              omega
            rw [ht] at h0
            have ht0 : t = 0 := (mul_eq_zero.mp h0).resolve_left hr'
            omega
    · refine iff_of_true (keeps_some.mpr normalised_all) ?_
      rintro ⟨-, -, h⟩
      exact hDvd h
  · refine iff_of_true ?_ (fun h => hm h.1)
    unfold div
    rw [if_neg (fun h => hm h.1)]
    exact keeps_some.mpr normalised_all

/-- Whether Euclid's algorithm takes an even number of division steps. -/
def evenSteps : Nat → Nat → Bool
  | _, 0 => true
  | a, b + 1 => !evenSteps (b + 1) (a % (b + 1))
termination_by _ b => b
decreasing_by exact Nat.mod_lt _ (Nat.succ_pos _)

theorem evenSteps_zero (a : Nat) : evenSteps a 0 = true := by
  rw [evenSteps]

theorem evenSteps_of_ne_zero {a b : Nat} (h : b ≠ 0) : evenSteps a b = !evenSteps b (a % b) := by
  cases b with
  | zero => exact absurd rfl h
  | succ b => rw [evenSteps]

/-- The remainders keep the signs of the two operands in turn, so with operands
of opposite signs the sign of the result is decided by the number of steps. -/
theorem gcdLoop_sign (fuel : Nat) {a b g : Int64} (h : gcdLoop fuel a b = some g)
    (hg : g.toInt ≠ 0) :
    (0 ≤ a.toInt → b.toInt ≤ 0 →
      (0 < g.toInt ↔ evenSteps a.toInt.natAbs b.toInt.natAbs = true)) ∧
    (a.toInt ≤ 0 → 0 ≤ b.toInt →
      (g.toInt < 0 ↔ evenSteps a.toInt.natAbs b.toInt.natAbs = true)) := by
  induction fuel generalizing a b with
  | zero => simp [gcdLoop] at h
  | succ fuel ih =>
      by_cases hb : b = 0
      · simp only [gcdLoop, hb, ↓reduceIte, Option.some.injEq] at h
        subst h hb
        simp only [toInt_zero, Int.natAbs_zero, evenSteps_zero, iff_true]
        constructor <;> intro _ _ <;> omega
      · have hb' := toInt_ne_zero hb
        rw [evenSteps_of_ne_zero (by omega)]
        by_cases hTraps : Traps a b
        · simp [gcdLoop, rem, hTraps.1, hTraps.2] at h
        · rw [gcdLoop, if_neg hb, rem_of_not_traps hb hTraps, Option.bind_some] at h
          have hStep := ih h
          have hMod : (a % b).toInt = a.toInt.tmod b.toInt := Int64.toInt_mod a b
          rw [hMod, Int.natAbs_tmod] at hStep
          rw [Bool.not_eq_true']
          constructor
          · intro ha hbNeg
            have hChild := hStep.2 hbNeg (Int.tmod_nonneg _ ha)
            rw [← Bool.not_eq_true, ← hChild]
            omega
          · intro ha hbPos
            have hNonneg := Int.tmod_nonneg b.toInt (by omega : 0 ≤ -a.toInt)
            rw [Int.neg_tmod] at hNonneg
            have hChild := hStep.1 hbPos (by omega)
            rw [← Bool.not_eq_true, ← hChild]
            omega

/-- A negative constant divisor leaves the sign of the modulus to the number of
steps of the second gcd, unless the reduction traps and there is no result. -/
def EmodKeeps (a b : ModulusRemainder) : Prop :=
  b.modulus = 0 → b.remainder.toInt < 0 →
    evenSteps a.modulus.toInt.natAbs b.remainder.toInt.natAbs = true ∨
      (a.modulus = 0 ∧ Traps a.remainder b.remainder)

theorem gcd_zero_right {a : Int64} (ha : 0 ≤ a.toInt) : gcd a 0 = some a := by
  unfold gcd
  rw [if_neg (by rw [lt_zero_iff_toInt]; omega)]
  rfl

theorem gcd_zero_left {b : Int64} (hb : b.toInt < 0) : gcd 0 b = some b := by
  have hb0 : b ≠ 0 := by
    rintro rfl
    exact lt_irrefl _ hb
  obtain ⟨n, hn⟩ : ∃ n, b.toInt.natAbs = n + 1 := Nat.exists_eq_succ_of_ne_zero (by omega)
  rw [gcd, if_neg (by rw [Int64.lt_iff_toInt_lt, toInt_zero]; omega), hn]
  simp only [gcdLoop, hb0, ↓reduceIte]
  rw [rem_of_not_traps hb0 (by rw [traps_iff_toInt, toInt_zero]; omega)]
  simp

theorem gcd_neg_sign {a b g : Int64} (ha : 0 ≤ a.toInt) (hb : b.toInt < 0) (h : gcd a b = some g) :
    0 ≤ g.toInt ↔ evenSteps a.toInt.natAbs b.toInt.natAbs = true := by
  have hne : g.toInt ≠ 0 := by
    intro h0
    have hDvd := (gcd_some_dvd h).2
    rw [h0, zero_dvd_iff] at hDvd
    omega
  unfold gcd at h
  rw [if_neg (by rw [Int64.lt_iff_toInt_lt]; omega)] at h
  rw [← (gcdLoop_sign _ h hne).1 ha hb.le]
  omega

/-- Remainders leave a reduced pair wherever the modulus is not negative. -/
theorem emod_normalised {a b m : ModulusRemainder} (h : ModulusRemainder.emod a b = some m)
    (hm : 0 ≤ m.modulus.toInt) : m.Normalised := by
  simp only [ModulusRemainder.emod, Option.bind_eq_bind, Option.bind_eq_some_iff, Option.pure_def,
    Option.some.injEq] at h
  obtain ⟨-, -, g, -, r, hr, rfl⟩ := h
  exact mod_normalised hm hr

theorem emod_keeps_iff {a b : ModulusRemainder} (ha : a.Normalised) (hb : b.Normalised) :
    Keeps (ModulusRemainder.emod a b) ↔ EmodKeeps a b := by
  have hEmod : ∃ m, gcd a.modulus b.modulus = some m ∧ 0 ≤ m.toInt ∧
      ModulusRemainder.emod a b = reduce a.remainder (gcd m b.remainder) := by
    obtain ⟨m, hm⟩ := gcd_isSome_iff.mpr
      ⟨not_traps_of_nonneg (a := a.modulus) hb.1, not_traps_of_nonneg (a := b.modulus) ha.1⟩
    exact ⟨m, hm, gcd_nonneg ha.1 hb.1 hm, by simp [ModulusRemainder.emod, reduce, hm]⟩
  obtain ⟨m, hm, hNonneg, hEmod⟩ := hEmod
  rw [hEmod]
  unfold EmodKeeps
  by_cases hRem : 0 ≤ b.remainder.toInt
  · refine iff_of_true (reduce_keeps (fun _ => gcd_nonneg hNonneg hRem)) ?_
    intro _ hNeg
    omega
  · have hConst : b.modulus = 0 := by
      by_contra hMod
      exact hRem (remainder_nonneg hb hMod)
    rw [hConst, gcd_zero_right ha.1] at hm
    cases hm
    simp only [hConst, true_implies, not_le.mp hRem]
    obtain ⟨g, hg⟩ : ∃ g, gcd a.modulus b.remainder = some g := by
      rw [gcd_isSome_iff]
      refine ⟨?_, not_traps_of_nonneg ha.1⟩
      rw [traps_iff_toInt]
      have h0 := ha.1
      omega
    have hSign := gcd_neg_sign ha.1 (not_le.mp hRem) hg
    rw [← hSign, hg]
    by_cases hTraps : Traps a.remainder g
    · refine iff_of_true ?_ (Or.inr ?_)
      · simp only [reduce, mod_of_traps hTraps, Option.bind_eq_bind, Option.bind_some, Option.bind_none]
        exact keeps_none
      · have hZero : a.modulus = 0 := by
          by_contra hMod
          have h0 := remainder_nonneg ha hMod
          rw [traps_iff_toInt] at hTraps
          omega
        refine ⟨hZero, ?_⟩
        rw [hZero, gcd_zero_left (not_le.mp hRem)] at hg
        cases hg
        exact hTraps
    · obtain ⟨r, hr, hEq⟩ := mod_eq hTraps
      simp only [reduce, hr, Option.bind_eq_bind, Option.bind_some, Option.pure_def]
      rw [keeps_some]
      constructor
      · intro h
        exact Or.inl h.1
      · rintro (h | ⟨hZero, hTrap⟩)
        · exact mod_normalised h hr
        · rw [hZero, gcd_zero_left (not_le.mp hRem)] at hg
          cases hg
          exact absurd hTrap hTraps

end Vyasa.ModulusRemainder
