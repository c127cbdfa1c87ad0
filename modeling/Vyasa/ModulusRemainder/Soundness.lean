import Vyasa.ModulusRemainder.Arithmetic
import Vyasa.IR.Eval

/-! Each operation on strided sets contains the results of the operation on
their elements, whenever it has a result at all. The exceptions are the trapping
operands of `gcd`, `mod` and `divImp`, and a `unify` whose remainders are more
than a word apart. -/
namespace Vyasa.ModulusRemainder

open Word

/-- The operation has a result, and the result contains this integer. -/
def Yields (r : Option ModulusRemainder) (z : Int) : Prop := ∃ c, r = some c ∧ z ∈ c

theorem mem_iff_dvd {m : ModulusRemainder} {z : Int} :
    z ∈ m ↔ m.modulus.toInt ∣ z - m.remainder.toInt := by
  rw [mem_iff]
  constructor
  · rintro ⟨k, rfl⟩
    exact ⟨k, by ring⟩
  · rintro ⟨k, hk⟩
    exact ⟨k, by omega⟩

theorem remainder_mem (m : ModulusRemainder) : m.remainder.toInt ∈ m := ⟨0, by ring⟩

theorem mem_all (z : Int) : z ∈ ({} : ModulusRemainder) := ⟨z, by simp⟩

theorem yields_all (z : Int) : Yields (some {}) z := ⟨_, rfl, mem_all z⟩

theorem not_yields_none (z : Int) : ¬ Yields none z := by
  rintro ⟨c, hc, -⟩
  cases hc

theorem mod_eq {s g : Int64} (h : ¬ Traps s g) : ∃ r, mod s g = some r ∧ r.toInt = s.toInt % g.toInt := by
  unfold mod
  split_ifs with h0
  · exact ⟨s, rfl, by rw [h0, toInt_zero, Int.emod_zero]⟩
  · exact modImp_eq h0 h

theorem mod_of_traps {s g : Int64} (h : Traps s g) : mod s g = none := by
  obtain ⟨rfl, rfl⟩ := h
  rfl

/-- Reducing a remainder by the modulus does not change the set. -/
theorem mem_reduced {g s r : Int64} (h : r.toInt = s.toInt % g.toInt) {z : Int} :
    z ∈ (⟨g, r⟩ : ModulusRemainder) ↔ g.toInt ∣ z - s.toInt := by
  rw [mem_iff_dvd, h]
  have hSplit : z - s.toInt = z - s.toInt % g.toInt - g.toInt * (s.toInt / g.toInt) := by
    have hE := Int.mul_ediv_add_emod s.toInt g.toInt
    omega
  rw [hSplit]
  exact (dvd_sub_left (Dvd.intro _ rfl)).symm

/-- The two orders in which `gcd` can meet the trapping pair. -/
def GcdDefined (a b : Int64) : Prop := ¬ Traps a b ∧ ¬ Traps b a

theorem gcd_dvd {a b : Int64} (h : GcdDefined a b) :
    ∃ g, gcd a b = some g ∧ g.toInt ∣ a.toInt ∧ g.toInt ∣ b.toInt := by
  obtain ⟨g, hg, hAbs, -⟩ := gcd_eq h.1 h.2
  refine ⟨g, hg, ?_, ?_⟩
  · rw [← Int.natAbs_dvd, hAbs]
    exact Int.gcd_dvd_left _ _
  · rw [← Int.natAbs_dvd, hAbs]
    exact Int.gcd_dvd_right _ _

theorem gcd_isSome_iff {a b : Int64} : (∃ g, gcd a b = some g) ↔ GcdDefined a b := by
  constructor
  · rintro ⟨g, hg⟩
    constructor <;> intro h
    · rw [gcd_of_traps (Or.inl h)] at hg
      cases hg
    · rw [gcd_of_traps (Or.inr h)] at hg
      cases hg
  · intro h
    obtain ⟨g, hg, -⟩ := gcd_dvd h
    exact ⟨g, hg⟩

/-- The common tail of `+`, `-`, `*` and `%`: a gcd of two moduli, and a
remainder reduced by it. -/
def reduce (s : Int64) (g : Option Int64) : Option ModulusRemainder := do
  let modulus ← g
  let remainder ← mod s modulus
  return ⟨modulus, remainder⟩

/-- `reduce` is defined unless its gcd or its mod meets the trapping pair. -/
def ReduceDefined (s : Int64) (g : Option Int64) : Prop := ∃ m, g = some m ∧ ¬ Traps s m

theorem reduce_of_defined {s : Int64} {g : Option Int64} (h : ReduceDefined s g) :
    ∃ m, g = some m ∧ ∀ z, m.toInt ∣ z - s.toInt → Yields (reduce s g) z := by
  obtain ⟨m, rfl, hm⟩ := h
  refine ⟨m, rfl, ?_⟩
  intro z hz
  obtain ⟨r, hr, hEq⟩ := mod_eq hm
  refine ⟨⟨m, r⟩, ?_, (mem_reduced hEq).mpr hz⟩
  simp [reduce, hr]

theorem defined_of_yields {s : Int64} {g : Option Int64} {z : Int} (h : Yields (reduce s g) z) :
    ReduceDefined s g := by
  obtain ⟨c, hc, -⟩ := h
  cases g with
  | none => simp [reduce] at hc
  | some m =>
      refine ⟨m, rfl, ?_⟩
      intro hTraps
      simp [reduce, mod_of_traps hTraps] at hc

theorem add_eq (a b : ModulusRemainder) : add a b =
    if addWouldOverflow 64 a.remainder b.remainder then some {}
    else reduce (a.remainder + b.remainder) (gcd a.modulus b.modulus) := rfl

theorem sub_eq (a b : ModulusRemainder) : sub a b =
    if subWouldOverflow 64 a.remainder b.remainder then some {}
    else reduce (a.remainder - b.remainder) (gcd a.modulus b.modulus) := rfl

def AddDefined (a b : ModulusRemainder) : Prop :=
  addWouldOverflow 64 a.remainder b.remainder = true ∨
    ReduceDefined (a.remainder + b.remainder) (gcd a.modulus b.modulus)

def SubDefined (a b : ModulusRemainder) : Prop :=
  subWouldOverflow 64 a.remainder b.remainder = true ∨
    ReduceDefined (a.remainder - b.remainder) (gcd a.modulus b.modulus)

theorem gcd_some_dvd {a b g : Int64} (h : gcd a b = some g) :
    g.toInt ∣ a.toInt ∧ g.toInt ∣ b.toInt := by
  obtain ⟨g', hg', hDvd⟩ := gcd_dvd (gcd_isSome_iff.mp ⟨g, h⟩)
  rw [h] at hg'
  cases hg'
  exact hDvd

theorem add_sound_iff (a b : ModulusRemainder) :
    (∀ x ∈ a, ∀ y ∈ b, Yields (add a b) (x + y)) ↔ AddDefined a b := by
  unfold AddDefined
  rw [add_eq]
  cases hOver : addWouldOverflow 64 a.remainder b.remainder with
  | true => simp [yields_all]
  | false =>
      simp only [Bool.false_eq_true, ↓reduceIte, false_or]
      constructor
      · intro h
        exact defined_of_yields (h _ a.remainder_mem _ b.remainder_mem)
      · rintro h x ⟨k, rfl⟩ y ⟨j, rfl⟩
        obtain ⟨m, hm, hYields⟩ := reduce_of_defined h
        obtain ⟨ha, hb⟩ := gcd_some_dvd hm
        have hFits : Fits 64 (a.remainder.toInt + b.remainder.toInt) := by
          by_contra hNot
          rw [← addWouldOverflow_iff le_rfl (fits_toInt _), hOver] at hNot
          cases hNot
        apply hYields
        rw [toInt_add_of_fits hFits]
        rw [show a.modulus.toInt * k + a.remainder.toInt + (b.modulus.toInt * j + b.remainder.toInt) -
          (a.remainder.toInt + b.remainder.toInt) = a.modulus.toInt * k + b.modulus.toInt * j by ring]
        exact dvd_add (ha.mul_right k) (hb.mul_right j)

theorem sub_sound_iff (a b : ModulusRemainder) :
    (∀ x ∈ a, ∀ y ∈ b, Yields (sub a b) (x - y)) ↔ SubDefined a b := by
  unfold SubDefined
  rw [sub_eq]
  cases hOver : subWouldOverflow 64 a.remainder b.remainder with
  | true => simp [yields_all]
  | false =>
      simp only [Bool.false_eq_true, ↓reduceIte, false_or]
      constructor
      · intro h
        exact defined_of_yields (h _ a.remainder_mem _ b.remainder_mem)
      · rintro h x ⟨k, rfl⟩ y ⟨j, rfl⟩
        obtain ⟨m, hm, hYields⟩ := reduce_of_defined h
        obtain ⟨ha, hb⟩ := gcd_some_dvd hm
        have hFits : Fits 64 (a.remainder.toInt - b.remainder.toInt) := by
          by_contra hNot
          rw [← subWouldOverflow_iff le_rfl (fits_toInt _), hOver] at hNot
          cases hNot
        apply hYields
        rw [toInt_sub_of_fits hFits]
        rw [show a.modulus.toInt * k + a.remainder.toInt - (b.modulus.toInt * j + b.remainder.toInt) -
          (a.remainder.toInt - b.remainder.toInt) = a.modulus.toInt * k - b.modulus.toInt * j by ring]
        exact dvd_sub (ha.mul_right k) (hb.mul_right j)

/-- The product's cases that call `gcd` are the ones that can trap. -/
def MulDefined (a b : ModulusRemainder) : Prop :=
  a.modulus = 0 ∨ b.modulus = 0 ∨
    if a.remainder = 0 then b.remainder = 0 ∨ GcdDefined b.modulus b.remainder
    else if b.remainder = 0 then GcdDefined a.modulus a.remainder
    else mulWouldOverflow 64 a.remainder b.remainder = true ∨
      ReduceDefined (a.remainder * b.remainder) (gcd a.modulus b.modulus)

theorem toInt_mul_of_tested {a b : Int64} (h : mulWouldOverflow 64 a b = false) :
    (a * b).toInt = a.toInt * b.toInt := by
  apply toInt_mul_of_fits
  by_contra hNot
  rw [← mulWouldOverflow_iff le_rfl (fits_toInt _) (fits_toInt _), h] at hNot
  cases hNot

theorem dvd_of_mem_of_gcd {m : ModulusRemainder} {g : Int64} {z : Int}
    (h : gcd m.modulus m.remainder = some g) (hz : z ∈ m) : g.toInt ∣ z := by
  obtain ⟨k, rfl⟩ := hz
  obtain ⟨hm, hr⟩ := gcd_some_dvd h
  exact dvd_add (hm.mul_right k) hr

/-- A multiple of the first modulus times an element of the second set. -/
def scaled (m : Int64) (g : Option Int64) : Option ModulusRemainder := do
  let g ← g
  if !mulWouldOverflow 64 m g then return ⟨m * g, 0⟩ else return {}

theorem scaled_yields {m g : Int64} {x y : Int} (hx : m.toInt ∣ x) (hy : g.toInt ∣ y) :
    Yields (scaled m (some g)) (x * y) := by
  cases hTest : mulWouldOverflow 64 m g with
  | true => simp [scaled, hTest, yields_all]
  | false =>
      refine ⟨⟨m * g, 0⟩, by simp [scaled, hTest], ?_⟩
      rw [mem_iff_dvd]
      simpa [toInt_mul_of_tested hTest] using mul_dvd_mul hx hy

theorem dvd_of_mem_of_remainder_zero {m : ModulusRemainder} {z : Int} (h : m.remainder = 0)
    (hz : z ∈ m) : m.modulus.toInt ∣ z := by
  rw [mem_iff_dvd, h, toInt_zero, sub_zero] at hz
  exact hz

theorem scaled_sound_iff {a b : ModulusRemainder} (ha : a.remainder = 0) :
    (∀ x ∈ a, ∀ y ∈ b, Yields (scaled a.modulus (gcd b.modulus b.remainder)) (x * y)) ↔
      GcdDefined b.modulus b.remainder := by
  constructor
  · intro h
    obtain ⟨c, hc, -⟩ := h _ a.remainder_mem _ b.remainder_mem
    rw [← gcd_isSome_iff]
    cases hg : gcd b.modulus b.remainder with
    | none => simp [scaled, hg] at hc
    | some g => exact ⟨g, rfl⟩
  · intro h x hx y hy
    obtain ⟨g, hg⟩ := gcd_isSome_iff.mpr h
    rw [hg]
    exact scaled_yields (dvd_of_mem_of_remainder_zero ha hx) (dvd_of_mem_of_gcd hg hy)

theorem constant_mul_yields {a b : ModulusRemainder} (ha : a.modulus = 0) {x y : Int}
    (hx : x ∈ a) (hy : y ∈ b) (r : Int64) (hr : r.toInt = a.remainder.toInt * b.remainder.toInt)
    (h : mulWouldOverflow 64 a.remainder b.modulus = false) :
    Yields (some ⟨a.remainder * b.modulus, r⟩) (x * y) := by
  obtain ⟨k, rfl⟩ := hx
  obtain ⟨j, rfl⟩ := hy
  refine ⟨_, rfl, j, ?_⟩
  simp only [toInt_mul_of_tested h, hr, ha, toInt_zero]
  ring

theorem mul_sound_iff (a b : ModulusRemainder) :
    (∀ x ∈ a, ∀ y ∈ b, Yields (mul a b) (x * y)) ↔ MulDefined a b := by
  unfold MulDefined mul
  by_cases ha : a.modulus = 0
  · simp only [ha, ↓reduceIte, true_or, iff_true]
    intro x hx y hy
    split_ifs with hTest
    · rw [Bool.and_eq_true, Bool.not_eq_true', Bool.not_eq_true'] at hTest
      exact constant_mul_yields ha hx hy _ (toInt_mul_of_tested hTest.2) hTest.1
    · exact yields_all _
  by_cases hb : b.modulus = 0
  · simp only [ha, hb, ↓reduceIte, true_or, or_true, iff_true]
    intro x hx y hy
    split_ifs with hTest
    · rw [Bool.and_eq_true, Bool.not_eq_true', Bool.not_eq_true'] at hTest
      rw [mul_comm x y]
      refine constant_mul_yields hb hy hx _ ?_ hTest.1
      rw [toInt_mul_of_tested hTest.2, mul_comm]
    · exact yields_all _
  simp only [ha, hb, ↓reduceIte, false_or]
  by_cases hra : a.remainder = 0
  · by_cases hrb : b.remainder = 0
    · simp only [hra, hrb, decide_true, Bool.and_self, ↓reduceIte, true_or, iff_true]
      intro x hx y hy
      exact scaled_yields (dvd_of_mem_of_remainder_zero hra hx) (dvd_of_mem_of_remainder_zero hrb hy)
    · simp only [hra, hrb, decide_true, decide_false, Bool.and_false, Bool.false_eq_true, ↓reduceIte,
        false_or]
      exact scaled_sound_iff hra
  · by_cases hrb : b.remainder = 0
    · simp only [hra, hrb, decide_true, decide_false, Bool.and_true, Bool.false_eq_true, ↓reduceIte]
      rw [← scaled_sound_iff hrb]
      constructor
      · intro h y hy x hx
        rw [mul_comm]
        exact h x hx y hy
      · intro h x hx y hy
        rw [mul_comm]
        exact h y hy x hx
    · simp only [hra, hrb, decide_false, Bool.and_self, Bool.false_eq_true, ↓reduceIte]
      cases hOver : mulWouldOverflow 64 a.remainder b.remainder with
      | true => simp [yields_all]
      | false =>
          simp only [Bool.not_false, ↓reduceIte, Bool.false_eq_true, false_or]
          constructor
          · intro h
            exact defined_of_yields (h _ a.remainder_mem _ b.remainder_mem)
          · rintro h x ⟨k, rfl⟩ y ⟨j, rfl⟩
            obtain ⟨m, hm, hYields⟩ := reduce_of_defined h
            obtain ⟨hda, hdb⟩ := gcd_some_dvd hm
            apply hYields
            rw [toInt_mul_of_tested hOver]
            rw [show (a.modulus.toInt * k + a.remainder.toInt) * (b.modulus.toInt * j + b.remainder.toInt) -
              a.remainder.toInt * b.remainder.toInt =
                a.modulus.toInt * (k * (b.modulus.toInt * j + b.remainder.toInt)) +
                  b.modulus.toInt * (j * a.remainder.toInt) by ring]
            exact dvd_add (hda.mul_right _) (hdb.mul_right _)

/-- A quotient is computed only for a constant divisor; it traps where `mod`,
the quotient of the moduli or `divImp` would divide `INT64_MIN` by `-1`. -/
def DivDefined (a b : ModulusRemainder) : Prop :=
  b.modulus = 0 → b.remainder ≠ 0 → ¬ Traps a.modulus b.remainder ∧
    (b.remainder.toInt ∣ a.modulus.toInt → ¬ Traps a.remainder b.remainder)

theorem div_of_constant {a b : ModulusRemainder} (hm : b.modulus = 0) (hr : b.remainder ≠ 0)
    (h : ¬ Traps a.modulus b.remainder) :
    div a b = if b.remainder.toInt ∣ a.modulus.toInt then
      (divImp a.remainder b.remainder).map (fun r => ⟨a.modulus / b.remainder, r⟩) else some {} := by
  obtain ⟨r, hMod, hEq⟩ := mod_eq h
  have hZero : r = 0 ↔ b.remainder.toInt ∣ a.modulus.toInt := by
    rw [eq_iff_toInt, hEq, toInt_zero, ← Int.dvd_iff_emod_eq_zero]
  unfold div
  rw [if_pos ⟨hm, hr⟩, hMod]
  simp only [Option.bind_eq_bind, Option.bind_some, quot_of_not_traps hr h, hZero]
  split_ifs
  · cases divImp a.remainder b.remainder <;> rfl
  · rfl

theorem divImp_of_traps {a b : Int64} (h : Traps a b) : divImp a b = none := by
  obtain ⟨rfl, rfl⟩ := h
  rfl

theorem div_sound_iff (a b : ModulusRemainder) :
    (∀ x ∈ a, ∀ y ∈ b, y ≠ 0 → Yields (div a b) (x / y)) ↔ DivDefined a b := by
  by_cases hm : b.modulus = 0
  · by_cases hr : b.remainder = 0
    · constructor
      · intro _ _ hne
        exact absurd hr hne
      · rintro - x hx y ⟨k, rfl⟩ hy
        simp [hm, hr] at hy
    · constructor
      · intro h _ _
        have hYields := h _ a.remainder_mem _ b.remainder_mem (toInt_ne_zero hr)
        have hTraps : ¬ Traps a.modulus b.remainder := by
          intro hTraps
          obtain ⟨c, hc, -⟩ := hYields
          simp [div, hm, hr, mod_of_traps hTraps] at hc
        refine ⟨hTraps, ?_⟩
        intro hDvd hTraps'
        rw [div_of_constant hm hr hTraps, if_pos hDvd, divImp_of_traps hTraps'] at hYields
        exact not_yields_none _ hYields
      · intro h x hx y hy _
        obtain ⟨hTraps, hDiv⟩ := h hm hr
        rw [div_of_constant hm hr hTraps]
        split_ifs with hDvd
        · obtain ⟨q, hq, hEq⟩ := divImp_eq hr (hDiv hDvd)
          obtain ⟨k, rfl⟩ := hx
          obtain ⟨j, rfl⟩ := hy
          rw [hq]
          refine ⟨_, rfl, k, ?_⟩
          obtain ⟨t, ht⟩ := hDvd
          have hr' := toInt_ne_zero hr
          simp only [hm, toInt_zero, zero_mul, zero_add, toInt_quot hTraps, hEq]
          rw [ht, Int.mul_tdiv_cancel_left _ hr', mul_assoc, Int.add_comm,
            Int.add_mul_ediv_left _ _ hr', Int.add_comm]
        · exact yields_all _
  · constructor
    · intro _ h0
      exact absurd h0 hm
    · intro _ x _ y _ _
      unfold div
      rw [if_neg (fun h => hm h.1)]
      exact yields_all _

/-- The remainder of a division by an element of the constant zero is never
asked for; otherwise both gcds and the reduction must be defined. -/
def EmodDefined (a b : ModulusRemainder) : Prop :=
  (b.modulus = 0 ∧ b.remainder = 0) ∨
    ∃ m, gcd a.modulus b.modulus = some m ∧ ReduceDefined a.remainder (gcd m b.remainder)

theorem exists_mem_ne_zero {m : ModulusRemainder} (h : ¬ (m.modulus = 0 ∧ m.remainder = 0)) :
    ∃ z ∈ m, z ≠ 0 := by
  by_cases hr : m.remainder = 0
  · refine ⟨m.modulus.toInt, ⟨1, by simp [hr]⟩, ?_⟩
    exact toInt_ne_zero (fun h0 => h ⟨h0, hr⟩)
  · exact ⟨_, m.remainder_mem, toInt_ne_zero hr⟩

theorem emod_sound_iff (a b : ModulusRemainder) :
    (∀ x ∈ a, ∀ y ∈ b, y ≠ 0 → Yields (ModulusRemainder.emod a b) (x % y)) ↔ EmodDefined a b := by
  have hEmod (m : Int64) (hm : gcd a.modulus b.modulus = some m) :
      ModulusRemainder.emod a b = reduce a.remainder (gcd m b.remainder) := by
    simp [ModulusRemainder.emod, reduce, hm]
  constructor
  · intro h
    by_cases h0 : b.modulus = 0 ∧ b.remainder = 0
    · exact Or.inl h0
    · right
      obtain ⟨y, hy, hne⟩ := exists_mem_ne_zero h0
      have hYields := h _ a.remainder_mem y hy hne
      cases hm : gcd a.modulus b.modulus with
      | none =>
          obtain ⟨c, hc, -⟩ := hYields
          simp [ModulusRemainder.emod, hm] at hc
      | some m =>
          rw [hEmod m hm] at hYields
          exact ⟨m, rfl, defined_of_yields hYields⟩
  · rintro (⟨hm, hr⟩ | ⟨m, hm, hDefined⟩) x hx y hy hne
    · obtain ⟨k, rfl⟩ := hy
      simp [hm, hr] at hne
    · rw [hEmod m hm]
      obtain ⟨g, hg, hYields⟩ := reduce_of_defined hDefined
      obtain ⟨hma, hmb⟩ := gcd_some_dvd hm
      obtain ⟨hgm, hgr⟩ := gcd_some_dvd hg
      apply hYields
      obtain ⟨k, rfl⟩ := hx
      have hy : g.toInt ∣ y := by
        obtain ⟨j, rfl⟩ := hy
        exact dvd_add ((hgm.trans hmb).mul_right j) hgr
      have hE := Int.mul_ediv_add_emod (a.modulus.toInt * k + a.remainder.toInt) y
      rw [show (a.modulus.toInt * k + a.remainder.toInt) % y - a.remainder.toInt =
        a.modulus.toInt * k - y * ((a.modulus.toInt * k + a.remainder.toInt) / y) by omega]
      exact dvd_sub ((hgm.trans hma).mul_right k) (hy.mul_right _)

/-- The larger remainder of the two, which `unify` reduces. -/
def UnifyDefined (a b : ModulusRemainder) : Prop :=
  ∃ m, gcd a.modulus b.modulus = some m ∧
    ReduceDefined a.remainder (gcd (a.remainder - b.remainder) m) ∧
    ReduceDefined b.remainder (gcd (a.remainder - b.remainder) m)

theorem unifyOrdered_sound_iff (a b : ModulusRemainder) :
    ((∀ x ∈ a, Yields (unifyOrdered a b) x) ∧ ∀ y ∈ b, Yields (unifyOrdered a b) y) ↔
      Fits 64 (a.remainder.toInt - b.remainder.toInt) ∧ UnifyDefined a b := by
  constructor
  · rintro ⟨ha, hb⟩
    have hYields := ha _ a.remainder_mem
    have hYields' := hb _ b.remainder_mem
    cases hm : gcd a.modulus b.modulus with
    | none =>
        obtain ⟨c, hc, -⟩ := hYields
        simp [unifyOrdered, hm] at hc
    | some m =>
        cases hOver : subWouldOverflow 64 a.remainder b.remainder with
        | true =>
            have hUnify : unifyOrdered a b = some ⟨0, 1⟩ := by simp [unifyOrdered, hm, hOver]
            rw [hUnify] at hYields hYields'
            obtain ⟨c, hc, k, hk⟩ := hYields
            obtain ⟨c', hc', j, hj⟩ := hYields'
            cases hc
            cases hc'
            rw [subWouldOverflow_iff le_rfl (fits_toInt _)] at hOver
            simp only [toInt_zero, zero_mul, zero_add, toInt_one] at hk hj
            rw [hk, hj] at hOver
            exact absurd (by decide) hOver
        | false =>
            have hFits : Fits 64 (a.remainder.toInt - b.remainder.toInt) := by
              by_contra hNot
              rw [← subWouldOverflow_iff le_rfl (fits_toInt _), hOver] at hNot
              cases hNot
            refine ⟨hFits, m, hm, ?_⟩
            obtain ⟨c, hc, -⟩ := hYields
            cases hg : gcd (a.remainder - b.remainder) m with
            | none => simp [unifyOrdered, hm, hOver, hg] at hc
            | some g =>
                refine ⟨⟨g, rfl, ?_⟩, ⟨g, rfl, ?_⟩⟩
                · intro hTraps
                  simp [unifyOrdered, hm, hOver, hg, mod_of_traps hTraps] at hc
                · intro hTraps
                  cases hra : mod a.remainder g <;>
                    simp [unifyOrdered, hm, hOver, hg, mod_of_traps hTraps, hra] at hc
  · rintro ⟨hFits, m, hm, ⟨g, hg, hTrapsA⟩, ⟨g', hg', hTrapsB⟩⟩
    rw [hg] at hg'
    cases hg'
    have hOver : subWouldOverflow 64 a.remainder b.remainder = false := by
      rw [← Bool.not_eq_true, subWouldOverflow_iff le_rfl (fits_toInt _), not_not]
      exact hFits
    obtain ⟨ra, hra, hEqA⟩ := mod_eq hTrapsA
    obtain ⟨rb, hrb, hEqB⟩ := mod_eq hTrapsB
    obtain ⟨hma, hmb⟩ := gcd_some_dvd hm
    obtain ⟨hgd, hgm⟩ := gcd_some_dvd hg
    rw [toInt_sub_of_fits hFits] at hgd
    have hSame : ra = rb := by
      rw [eq_iff_toInt, hEqA, hEqB]
      exact Int.emod_eq_emod_iff_emod_sub_eq_zero.mpr (Int.emod_eq_zero_of_dvd hgd)
    have hUnify : unifyOrdered a b = some ⟨g, ra⟩ := by
      simp [unifyOrdered, hm, hOver, hg, hra, hrb, hSame]
    rw [hUnify]
    constructor
    · rintro x ⟨k, rfl⟩
      refine ⟨_, rfl, (mem_reduced hEqA).mpr ?_⟩
      rw [add_sub_cancel_right]
      exact (hgm.trans hma).mul_right k
    · rintro y ⟨k, rfl⟩
      refine ⟨_, rfl, (mem_reduced (hSame ▸ hEqB)).mpr ?_⟩
      rw [add_sub_cancel_right]
      exact (hgm.trans hmb).mul_right k

/-- The remainders can be subtracted in a word, larger one first. -/
def UnifySound (a b : ModulusRemainder) : Prop :=
  if a.remainder < b.remainder then
    Fits 64 (b.remainder.toInt - a.remainder.toInt) ∧ UnifyDefined b a
  else Fits 64 (a.remainder.toInt - b.remainder.toInt) ∧ UnifyDefined a b

theorem unify_sound_iff (a b : ModulusRemainder) :
    ((∀ x ∈ a, Yields (unify a b) x) ∧ ∀ y ∈ b, Yields (unify a b) y) ↔ UnifySound a b := by
  unfold unify UnifySound
  split_ifs
  · rw [← unifyOrdered_sound_iff, and_comm]
  · exact unifyOrdered_sound_iff a b

/-- Exactly when the algebra is sound, for any two pairs of words. The sets
are never empty, so a missing result counts as unsound. -/
theorem algebra_sound_iff (a b : ModulusRemainder) :
    ((∀ x ∈ a, ∀ y ∈ b, Yields (add a b) (x + y)) ↔ AddDefined a b) ∧
    ((∀ x ∈ a, ∀ y ∈ b, Yields (sub a b) (x - y)) ↔ SubDefined a b) ∧
    ((∀ x ∈ a, ∀ y ∈ b, Yields (mul a b) (x * y)) ↔ MulDefined a b) ∧
    ((∀ x ∈ a, ∀ y ∈ b, y ≠ 0 → Yields (div a b) (x / y)) ↔ DivDefined a b) ∧
    ((∀ x ∈ a, ∀ y ∈ b, y ≠ 0 → Yields (ModulusRemainder.emod a b) (x % y)) ↔ EmodDefined a b) ∧
    (((∀ x ∈ a, Yields (unify a b) x) ∧ ∀ y ∈ b, Yields (unify a b) y) ↔ UnifySound a b) :=
  ⟨add_sound_iff a b, sub_sound_iff a b, mul_sound_iff a b, div_sound_iff a b,
    emod_sound_iff a b, unify_sound_iff a b⟩

/-- Two constants more than a word apart unify to the constant one. -/
theorem unify_far_constants :
    unify ⟨0, Int64.maxValue⟩ ⟨0, -1⟩ = some ⟨0, 1⟩ ∧
      (-1 : Int) ∈ (⟨0, -1⟩ : ModulusRemainder) ∧ ¬ Yields (unify ⟨0, Int64.maxValue⟩ ⟨0, -1⟩) (-1) := by
  refine ⟨rfl, ⟨0, rfl⟩, ?_⟩
  rintro ⟨c, hc, k, hk⟩
  rw [show unify ⟨0, Int64.maxValue⟩ ⟨0, -1⟩ = some ⟨0, 1⟩ from rfl] at hc
  cases hc
  simp at hk

section Returned

variable {a b m : ModulusRemainder} {x y : Int}

theorem reduceDefined_of_some {s : Int64} {g : Option Int64} (h : reduce s g = some m) :
    ReduceDefined s g :=
  defined_of_yields ⟨m, h, m.remainder_mem⟩

theorem mem_of_yields {r : Option ModulusRemainder} {z : Int} (h : Yields r z) (hr : r = some m) :
    z ∈ m := by
  obtain ⟨c, hc, hz⟩ := h
  rw [hr] at hc
  cases hc
  exact hz

theorem add_mem (h : add a b = some m) (hx : x ∈ a) (hy : y ∈ b) : x + y ∈ m := by
  refine mem_of_yields ((add_sound_iff a b).mpr ?_ x hx y hy) h
  rw [add_eq] at h
  split_ifs at h with hOver
  · exact Or.inl hOver
  · exact Or.inr (reduceDefined_of_some h)

theorem sub_mem (h : sub a b = some m) (hx : x ∈ a) (hy : y ∈ b) : x - y ∈ m := by
  refine mem_of_yields ((sub_sound_iff a b).mpr ?_ x hx y hy) h
  rw [sub_eq] at h
  split_ifs at h with hOver
  · exact Or.inl hOver
  · exact Or.inr (reduceDefined_of_some h)

theorem gcdDefined_of_bind {c d : Int64} {f : Int64 → Option ModulusRemainder}
    (h : (gcd c d).bind f = some m) : GcdDefined c d := by
  obtain ⟨g, hg, -⟩ := Option.bind_eq_some_iff.mp h
  exact gcd_isSome_iff.mp ⟨g, hg⟩

theorem mul_mem (h : mul a b = some m) (hx : x ∈ a) (hy : y ∈ b) : x * y ∈ m := by
  refine mem_of_yields ((mul_sound_iff a b).mpr ?_ x hx y hy) h
  unfold MulDefined
  by_cases ha : a.modulus = 0
  · exact Or.inl ha
  by_cases hb : b.modulus = 0
  · exact Or.inr (Or.inl hb)
  refine Or.inr (Or.inr ?_)
  simp only [mul, ha, hb, ↓reduceIte] at h
  by_cases hra : a.remainder = 0 <;> by_cases hrb : b.remainder = 0 <;>
    simp only [hra, hrb, ↓reduceIte, decide_true, decide_false, Bool.and_true, Bool.and_false,
      Bool.false_eq_true, true_or, false_or] at h ⊢
  · exact gcdDefined_of_bind h
  · exact gcdDefined_of_bind h
  · by_cases hOver : mulWouldOverflow 64 a.remainder b.remainder = true
    · exact Or.inl hOver
    · rw [Bool.not_eq_true] at hOver
      rw [hOver] at h
      exact Or.inr (reduceDefined_of_some h)

theorem div_mem (h : div a b = some m) (hx : x ∈ a) (hy : y ∈ b) (h0 : y ≠ 0) : x / y ∈ m := by
  refine mem_of_yields ((div_sound_iff a b).mpr ?_ x hx y hy h0) h
  intro hm hr
  by_cases hTraps : Traps a.modulus b.remainder
  · unfold div at h
    rw [if_pos ⟨hm, hr⟩, mod_of_traps hTraps] at h
    cases h
  · refine ⟨hTraps, fun hDvd hTrap => ?_⟩
    rw [div_of_constant hm hr hTraps, if_pos hDvd, divImp_of_traps hTrap] at h
    cases h

theorem emod_mem (h : ModulusRemainder.emod a b = some m) (hx : x ∈ a) (hy : y ∈ b) (h0 : y ≠ 0) :
    x % y ∈ m := by
  refine mem_of_yields ((emod_sound_iff a b).mpr (Or.inr ?_) x hx y hy h0) h
  obtain ⟨g, hg, hReduce⟩ := Option.bind_eq_some_iff.mp h
  refine ⟨g, hg, reduceDefined_of_some (m := m) ?_⟩
  exact hReduce

theorem unifyOrdered_mem (h : unifyOrdered a b = some m)
    (hFits : Fits 64 (a.remainder.toInt - b.remainder.toInt)) :
    (∀ x ∈ a, x ∈ m) ∧ ∀ y ∈ b, y ∈ m := by
  have hOver : subWouldOverflow 64 a.remainder b.remainder = false := by
    rw [← Bool.not_eq_true, subWouldOverflow_iff le_rfl (fits_toInt _), not_not]
    exact hFits
  have hDefined : UnifyDefined a b := by
    obtain ⟨g, hg, h⟩ := Option.bind_eq_some_iff.mp h
    rw [hOver] at h
    obtain ⟨d, hd, h⟩ := Option.bind_eq_some_iff.mp h
    obtain ⟨ra, hra, h⟩ := Option.bind_eq_some_iff.mp h
    obtain ⟨rb, hrb, h⟩ := Option.bind_eq_some_iff.mp h
    refine ⟨g, hg, ⟨d, hd, fun hTraps => ?_⟩, ⟨d, hd, fun hTraps => ?_⟩⟩
    · rw [mod_of_traps hTraps] at hra
      cases hra
    · rw [mod_of_traps hTraps] at hrb
      cases hrb
  obtain ⟨ha, hb⟩ := (unifyOrdered_sound_iff a b).mpr ⟨hFits, hDefined⟩
  exact ⟨fun x hx => mem_of_yields (ha x hx) h, fun y hy => mem_of_yields (hb y hy) h⟩

end Returned

end Vyasa.ModulusRemainder

/-! The walk of `ComputeModulusRemainder` over an expression, and where every value
of the expression is among those that its result stands for. -/
namespace Vyasa

open Word IRMatch Vyasa.Expr

namespace ModulusRemainder

/-- `scope`, the innermost binding first. -/
abbrev Scope : Type := List (Name × ModulusRemainder)

/-- `ComputeModulusRemainder::analyze`. There is no result where an internal
assertion fails: at an unsigned constant, and at a truth value. -/
def analyze : Scope → Expr → Option ModulusRemainder
  | _, .imm T v => if T.signed then some ⟨0, Int64.ofInt v⟩ else none
  | _, .cast _ _ => some {}
  | scope, .var _ name => some ((scope.lookup name).getD {})
  | scope, .bin .add a b => do (← analyze scope a).add (← analyze scope b)
  | scope, .bin .sub a b => do (← analyze scope a).sub (← analyze scope b)
  | scope, .bin .mul a b => do (← analyze scope a).mul (← analyze scope b)
  | scope, .bin .div a b => do (← analyze scope a).div (← analyze scope b)
  | scope, .bin .mod a b => do (← analyze scope a).emod (← analyze scope b)
  | scope, .bin .min a b | scope, .bin .max a b => do (← analyze scope a).unify (← analyze scope b)
  | scope, .select _ t f => do (← analyze scope t).unify (← analyze scope f)
  | _, .load _ _ _ | _, .binCall _ _ _ | _, .unaryCall _ _ | _, .intrin _ _ | _, .marker _ _ => some {}
  | scope, .letIn name value body =>
      if value.type.signed then do analyze ((name, ← analyze scope value) :: scope) body
      else analyze scope body
  | _, .bin .and _ _ | _, .bin .or _ _ | _, .cmp _ _ _ | _, .not _ => none

/-- `modulus_remainder` -/
def modulusRemainder (e : Expr) : Option ModulusRemainder := analyze [] e

/-- The distance of the remainders of two results is a 64-bit word, as the
subtraction in `unify` needs it to be. -/
def Near (a b : Option ModulusRemainder) : Prop :=
  ∀ m ∈ a, ∀ n ∈ b, Fits 64 |m.remainder.toInt - n.remainder.toInt|

/-- Arithmetic is of types that may not overflow, constants are of their type, and
remainders that are unified lie close enough. -/
def Tracked : Scope → Expr → Prop
  | _, .imm T v => T.Has v
  | scope, .bin op a b =>
      Tracked scope a ∧ Tracked scope b ∧ noOverflowInt a.type = true ∧
        (op = .min ∨ op = .max → Near (analyze scope a) (analyze scope b))
  | scope, .select _ t f =>
      Tracked scope t ∧ Tracked scope f ∧ Near (analyze scope t) (analyze scope f)
  | scope, .letIn name value body =>
      if value.type.signed then
        Tracked scope value ∧ ∀ m ∈ analyze scope value, Tracked ((name, m) :: scope) body
      else scope.lookup name = none ∧ Tracked scope body
  | _, _ => True

/-- Every variable in scope has one of the values that its binding stands for. -/
def Scope.Holds (ρ : Env) (scope : Scope) : Prop := ∀ name m, scope.lookup name = some m → ρ.vars name ∈ m

variable {ρ : Env} {scope : Scope} {m n : ModulusRemainder} {x y z : Int} {e : Expr}

theorem Scope.Holds.cons {name : Name} (h : scope.Holds ρ) (hx : x ∈ m) :
    Scope.Holds (ρ.set name x) ((name, m) :: scope) := by
  intro other m' hLookup
  rw [List.lookup_cons] at hLookup
  rw [Env.set_vars]
  by_cases hEq : other = name
  · rw [beq_iff_eq.mpr hEq] at hLookup
    cases hLookup
    rwa [if_pos hEq]
  · rw [beq_eq_false_iff_ne.mpr hEq] at hLookup
    rw [if_neg hEq]
    exact h other m' hLookup

/-- A variable that is not in scope may have any value. -/
theorem Scope.Holds.set {name : Name} (h : scope.Holds ρ) (hOut : scope.lookup name = none) (v : Int) :
    Scope.Holds (ρ.set name v) scope := by
  intro other m' hLookup
  have hNe : other ≠ name := by
    rintro rfl
    rw [hOut] at hLookup
    cases hLookup
  rw [Env.set_vars_of_ne hNe]
  exact h other m' hLookup

theorem unify_mem {a b : ModulusRemainder} (h : unify a b = some m)
    (hNear : Fits 64 |a.remainder.toInt - b.remainder.toInt|) :
    (∀ x ∈ a, x ∈ m) ∧ ∀ y ∈ b, y ∈ m := by
  unfold unify at h
  split_ifs at h with hLess
  · have hLt : a.remainder.toInt < b.remainder.toInt := Int64.lt_iff_toInt_lt.mp hLess
    rw [abs_sub_comm, abs_of_pos (sub_pos.mpr hLt)] at hNear
    exact (unifyOrdered_mem h hNear).symm
  · have hLe : b.remainder.toInt ≤ a.remainder.toInt := by
      rw [Int64.lt_iff_toInt_lt] at hLess
      exact not_lt.mp hLess
    rw [abs_of_nonneg (sub_nonneg.mpr hLe)] at hNear
    exact unifyOrdered_mem h hNear

theorem toInt_ofInt_of_has {T : IntType} {v : Int} (hSigned : T.signed = true) (h : T.Has v) :
    (Int64.ofInt v).toInt = v := by
  have hPow : (2 : Int) ^ (T.bits - 1) ≤ 2 ^ 63 :=
    pow_le_pow_right₀ (by norm_num) (Nat.sub_le_sub_right T.le_sixtyFour 1)
  unfold IntType.Has IntType.min IntType.max at h
  rw [if_pos hSigned, if_pos hSigned] at h
  rw [Int64.toInt_ofInt]
  refine bmod_of_fits (fits_sixtyFour.mpr ?_)
  constructor <;> omega

theorem constant_mem (v : Int64) : v.toInt ∈ (⟨0, v⟩ : ModulusRemainder) := ⟨0, by simp⟩

theorem exact_arith {T : IntType} {r : Int} (hT : noOverflowInt T = true) :
    arith (modeAt .exact T) T r = some r := by
  simp [arith, modeAt, hT]

/-- Every value of the expression is among those of the result. -/
theorem analyze_mem (hTracked : Tracked scope e) (h : analyze scope e = some m)
    (hScope : scope.Holds ρ) (hv : exact ρ e = some z) : z ∈ m := by
  induction e generalizing scope m ρ z with
  | imm T v =>
    cases hv
    rw [analyze] at h
    split_ifs at h with hSigned
    cases h
    have hMem := constant_mem (Int64.ofInt v)
    rwa [toInt_ofInt_of_has hSigned hTracked] at hMem
  | var T name =>
    cases hv
    cases h
    cases hLookup : scope.lookup name with
    | none => exact mem_all _
    | some m => exact hScope name m hLookup
  | bin op a b iha ihb =>
    obtain ⟨hA, hB, hT, hUnify⟩ := hTracked
    obtain ⟨x, y, hx, hy, hOp⟩ := eval_bin_eq_some.mp hv
    have hParts (f : ModulusRemainder → ModulusRemainder → Option ModulusRemainder)
        (h : (do f (← analyze scope a) (← analyze scope b)) = some m) :
        ∃ ma mb, x ∈ ma ∧ y ∈ mb ∧ f ma mb = some m ∧ analyze scope a = some ma ∧
          analyze scope b = some mb := by
      obtain ⟨ma, hma, h⟩ := Option.bind_eq_some_iff.mp h
      obtain ⟨mb, hmb, h⟩ := Option.bind_eq_some_iff.mp h
      exact ⟨ma, mb, iha hA hma hScope hx, ihb hB hmb hScope hy, h, hma, hmb⟩
    cases op with
    | add =>
      obtain ⟨ma, mb, hxa, hyb, h, -, -⟩ := hParts _ h
      cases (exact_arith hT).symm.trans hOp
      exact add_mem h hxa hyb
    | sub =>
      obtain ⟨ma, mb, hxa, hyb, h, -, -⟩ := hParts _ h
      cases (exact_arith hT).symm.trans hOp
      exact sub_mem h hxa hyb
    | mul =>
      obtain ⟨ma, mb, hxa, hyb, h, -, -⟩ := hParts _ h
      cases (exact_arith hT).symm.trans hOp
      exact mul_mem h hxa hyb
    | div =>
      obtain ⟨ma, mb, hxa, hyb, h, -, -⟩ := hParts _ h
      simp only [evalBin, Option.ite_none_left_eq_some] at hOp
      obtain ⟨h0, hOp⟩ := hOp
      cases (exact_arith hT).symm.trans hOp
      exact div_mem h hxa hyb h0
    | mod =>
      obtain ⟨ma, mb, hxa, hyb, h, -, -⟩ := hParts _ h
      simp only [evalBin, Option.ite_none_left_eq_some, Option.some.injEq] at hOp
      obtain ⟨h0, rfl⟩ := hOp
      exact emod_mem h hxa hyb h0
    | min =>
      obtain ⟨ma, mb, hxa, hyb, h, hma, hmb⟩ := hParts _ h
      obtain ⟨hLeft, hRight⟩ := unify_mem h (hUnify (Or.inl rfl) ma hma mb hmb)
      cases hOp
      rcases min_choice x y with hEq | hEq
      · rw [hEq]
        exact hLeft x hxa
      · rw [hEq]
        exact hRight y hyb
    | max =>
      obtain ⟨ma, mb, hxa, hyb, h, hma, hmb⟩ := hParts _ h
      obtain ⟨hLeft, hRight⟩ := unify_mem h (hUnify (Or.inr rfl) ma hma mb hmb)
      cases hOp
      rcases max_choice x y with hEq | hEq
      · rw [hEq]
        exact hLeft x hxa
      · rw [hEq]
        exact hRight y hyb
    | and => cases h
    | or => cases h
  | select c t f _ iht ihf =>
    obtain ⟨hT, hF, hNear⟩ := hTracked
    obtain ⟨w, x, y, -, hx, hy, rfl⟩ := eval_select_eq_some.mp hv
    obtain ⟨mt, hmt, h⟩ := Option.bind_eq_some_iff.mp h
    obtain ⟨mf, hmf, h⟩ := Option.bind_eq_some_iff.mp h
    obtain ⟨hLeft, hRight⟩ := unify_mem h (hNear mt hmt mf hmf)
    split_ifs
    · exact hLeft x (iht hT hmt hScope hx)
    · exact hRight y (ihf hF hmf hScope hy)
  | letIn name value body ihValue ihBody =>
    obtain ⟨x, hx, hBody⟩ := eval_letIn_eq_some.mp hv
    rw [analyze] at h
    rw [Tracked] at hTracked
    split_ifs at h hTracked with hSigned
    · obtain ⟨mv, hmv, h⟩ := Option.bind_eq_some_iff.mp h
      have hIn := ihValue hTracked.1 hmv hScope hx
      exact ihBody (hTracked.2 mv hmv) h (hScope.cons hIn) hBody
    · exact ihBody hTracked.2 h (hScope.set hTracked.1 x) hBody
  | cmp | not => cases h
  | cast | load | binCall | unaryCall | intrin | marker =>
    cases h
    exact mem_all z

theorem modulusRemainder_mem (hTracked : Tracked [] e) (h : modulusRemainder e = some m)
    (hv : exact ρ e = some z) : z ∈ m :=
  analyze_mem hTracked h (fun name m hLookup => by cases hLookup) hv

end ModulusRemainder

end Vyasa
