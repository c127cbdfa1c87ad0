import Vyasa.ModulusRemainder.Normalised

/-! The constant bounds and the alignment that the simplifier tracks for each
expression it visits. -/
namespace Vyasa

open Word

structure ExprInfo where
  min : Int64 := 0
  max : Int64 := 0
  minDefined : Bool := false
  maxDefined : Bool := false
  alignment : ModulusRemainder := {}
deriving DecidableEq, Repr

namespace ExprInfo

/-- `new_min` of `trim_bounds_using_alignment`. -/
def trimMin (min m r : Int64) : Option Int64 := do
  let newMin := min - (← modImp min m) + r
  return if newMin < min then newMin + m else newMin

/-- `new_max` of `trim_bounds_using_alignment`. -/
def trimMax (max m r : Int64) : Option Int64 := do
  let newMax := max - (← modImp max m) + r
  return if max < newMax then newMax - m else newMax

/-- The last step of `trim_bounds_using_alignment`: equal bounds are a constant. -/
def collapse (info : ExprInfo) : ExprInfo :=
  if info.minDefined && info.maxDefined && info.min = info.max then
    { info with alignment := ⟨0, info.min⟩ }
  else info

def trimBoundsUsingAlignment (info : ExprInfo) : Option ExprInfo := do
  let m := info.alignment.modulus
  let r := info.alignment.remainder
  if m = 0 then
    return collapse { info with minDefined := true, maxDefined := true, min := r, max := r }
  else if 1 < m then
    let min ← if info.minDefined then trimMin info.min m r else some info.min
    let max ← if info.maxDefined then trimMax info.max m r else some info.max
    return collapse { info with min := min, max := max }
  else return collapse info

/-- Mix in existing knowledge about the same expression. -/
def intersect (info other : ExprInfo) : Option ExprInfo :=
  let min :=
    if info.minDefined && other.minDefined then (if info.min < other.min then other.min else info.min)
    else if other.minDefined then other.min else info.min
  let max :=
    if info.maxDefined && other.maxDefined then (if other.max < info.max then other.max else info.max)
    else if other.maxDefined then other.max else info.max
  trimBoundsUsingAlignment
    { min := min
      max := max
      minDefined := info.minDefined || other.minDefined
      maxDefined := info.maxDefined || other.maxDefined
      alignment := info.alignment.intersect other.alignment }

/-- The integers this information allows. -/
def Holds (info : ExprInfo) (z : Int) : Prop :=
  (info.minDefined = true → info.min.toInt ≤ z) ∧ (info.maxDefined = true → z ≤ info.max.toInt) ∧
    z ∈ info.alignment

/-- The first element of the set at or above a bound, one period early. -/
def rounded (bound : Int64) (a : ModulusRemainder) : Int :=
  bound.toInt - bound.toInt % a.modulus.toInt + a.remainder.toInt

theorem dvd_sub_rounded {b : Int64} {a : ModulusRemainder} {z : Int} (hz : z ∈ a) :
    a.modulus.toInt ∣ z - rounded b a := by
  rw [ModulusRemainder.mem_iff_dvd] at hz
  have hE := Int.mul_ediv_add_emod b.toInt a.modulus.toInt
  rw [show z - rounded b a = z - a.remainder.toInt -
    a.modulus.toInt * (b.toInt / a.modulus.toInt) by unfold rounded; omega]
  exact dvd_sub hz (Dvd.intro _ rfl)

/-- Where a word bound is rounded to, before and after the period is added. -/
theorem rounded_bounds {b : Int64} {a : ModulusRemainder} (ha : a.Normalised)
    (hm : 1 < a.modulus.toInt) :
    b.toInt - a.modulus.toInt < rounded b a ∧
      rounded b a < b.toInt + a.modulus.toInt := by
  have hNonneg := Int.emod_nonneg b.toInt (by omega : a.modulus.toInt ≠ 0)
  have hLt := Int.emod_lt_of_pos b.toInt (by omega : 0 < a.modulus.toInt)
  have hr := ha.2 (by omega)
  unfold rounded
  omega

theorem toInt_rounded {b : Int64} {a : ModulusRemainder} {x : Int64}
    (hx : x.toInt = b.toInt % a.modulus.toInt) :
    (b - x + a.remainder).toInt = (rounded b a).bmod (2 ^ 64) := by
  rw [Int64.toInt_add, Int64.toInt_sub, Int.bmod_add_bmod, hx]
  rfl

theorem one_lt_iff_toInt {m : Int64} : 1 < m ↔ 1 < m.toInt := by
  rw [Int64.lt_iff_toInt_lt, toInt_one]

theorem trimMin_eq {b : Int64} {a : ModulusRemainder} (ha : a.Normalised)
    (hm : 1 < a.modulus.toInt) :
    ∃ v, trimMin b a.modulus a.remainder = some v ∧
      (-9223372036854775808 ≤ rounded b a → ∀ z ∈ a, b.toInt ≤ z → v.toInt ≤ z) ∧
      (rounded b a < -9223372036854775808 → v.toInt = rounded b a + 18446744073709551616) := by
  have hne : a.modulus ≠ 0 := by
    rw [ne_eq, eq_iff_toInt, toInt_zero]
    omega
  have hTraps : ¬ Traps b a.modulus := by
    rw [traps_iff_toInt]
    omega
  obtain ⟨x, hx, hEq⟩ := modImp_eq hne hTraps
  refine ⟨_, by rw [trimMin, hx]; rfl, ?_⟩
  have hB := toInt_bounds b
  have hM := toInt_bounds a.modulus
  have hRound := rounded_bounds (b := b) ha hm
  have hNew := toInt_rounded hEq
  rw [bmod_cases (by omega) (by omega)] at hNew
  have hLt : b - x + a.remainder < b ↔ (b - x + a.remainder).toInt < b.toInt :=
    Int64.lt_iff_toInt_lt
  constructor
  · intro hLow z hz hmin
    have hDvd := dvd_sub_rounded (b := b) hz
    have hAbove : rounded b a ≤ z := by
      by_contra hNot
      have hLe := Int.le_of_dvd (by omega) ((dvd_neg.mpr hDvd))
      omega
    split_ifs with h
    · rw [hLt] at h
      rw [Int64.toInt_add, hNew]
      split_ifs at hNew ⊢ with h1 h2
      · omega
      · rw [bmod_cases (by omega) (by omega)]
        split_ifs <;> omega
      · have hLe : rounded b a < z → a.modulus.toInt ≤ z - rounded b a := fun hlt =>
          Int.le_of_dvd (by omega) hDvd
        rw [bmod_cases (by omega) (by omega)]
        split_ifs <;> omega
    · rw [hLt] at h
      rw [hNew]
      split_ifs at hNew ⊢ <;> omega
  · intro hLow
    rw [if_pos hLow] at hNew
    rw [if_neg (by rw [hLt]; omega), hNew]

theorem trimMax_eq {b : Int64} {a : ModulusRemainder} (ha : a.Normalised)
    (hm : 1 < a.modulus.toInt) :
    ∃ v, trimMax b a.modulus a.remainder = some v ∧
      (rounded b a ≤ 9223372036854775807 → ∀ z ∈ a, z ≤ b.toInt → z ≤ v.toInt) ∧
      (9223372036854775807 < rounded b a → v.toInt = rounded b a - 18446744073709551616) := by
  have hne : a.modulus ≠ 0 := by
    rw [ne_eq, eq_iff_toInt, toInt_zero]
    omega
  have hTraps : ¬ Traps b a.modulus := by
    rw [traps_iff_toInt]
    omega
  obtain ⟨x, hx, hEq⟩ := modImp_eq hne hTraps
  refine ⟨_, by rw [trimMax, hx]; rfl, ?_⟩
  have hB := toInt_bounds b
  have hM := toInt_bounds a.modulus
  have hRound := rounded_bounds (b := b) ha hm
  have hNew := toInt_rounded hEq
  rw [bmod_cases (by omega) (by omega)] at hNew
  have hLt : b < b - x + a.remainder ↔ b.toInt < (b - x + a.remainder).toInt :=
    Int64.lt_iff_toInt_lt
  constructor
  · intro hHigh z hz hmax
    have hDvd := dvd_sub_rounded (b := b) hz
    have hBelow : z ≤ rounded b a := by
      by_contra hNot
      have hLe := Int.le_of_dvd (by omega) hDvd
      omega
    split_ifs with h
    · rw [hLt] at h
      rw [Int64.toInt_sub, hNew]
      split_ifs at hNew ⊢ with h1 h2
      · rw [bmod_cases (by omega) (by omega)]
        split_ifs <;> omega
      · omega
      · have hLe : z < rounded b a → a.modulus.toInt ≤ -(z - rounded b a) := fun hlt =>
          Int.le_of_dvd (by omega) (dvd_neg.mpr hDvd)
        rw [bmod_cases (by omega) (by omega)]
        split_ifs <;> omega
    · rw [hLt] at h
      rw [hNew]
      split_ifs at hNew ⊢ <;> omega
  · intro hHigh
    rw [if_neg (by omega), if_pos hHigh] at hNew
    rw [if_neg (by rw [hLt]; omega), hNew]

/-- Trimming loses none of the integers the information allows. -/
def TrimSound (info : ExprInfo) : Prop :=
  ∀ z, info.Holds z → ∃ info', info.trimBoundsUsingAlignment = some info' ∧ info'.Holds z

/-- Neither rounded bound wraps around, except where the bounds leave no room
for an element at all. -/
def TrimFits (info : ExprInfo) : Prop :=
  1 < info.alignment.modulus.toInt →
    (info.minDefined = true → -9223372036854775808 ≤ rounded info.min info.alignment ∨
      (info.maxDefined = true ∧
        info.max.toInt < rounded info.min info.alignment + info.alignment.modulus.toInt)) ∧
    (info.maxDefined = true → rounded info.max info.alignment ≤ 9223372036854775807 ∨
      (info.minDefined = true ∧
        rounded info.max info.alignment - info.alignment.modulus.toInt < info.min.toInt))

theorem collapse_holds {info : ExprInfo} {z : Int} (h : info.Holds z) : info.collapse.Holds z := by
  unfold collapse
  split_ifs with hEq
  · rw [Bool.and_eq_true, Bool.and_eq_true, decide_eq_true_eq] at hEq
    obtain ⟨⟨hMin, hMax⟩, hSame⟩ := hEq
    obtain ⟨hl, hu, -⟩ := h
    refine ⟨hl, hu, 0, ?_⟩
    have hl' := hl hMin
    have hu' := hu hMax
    rw [← hSame] at hu'
    simp only [mul_zero, zero_add]
    omega
  · exact h

theorem collapse_bounds (info : ExprInfo) :
    info.collapse.min = info.min ∧ info.collapse.max = info.max ∧
      info.collapse.minDefined = info.minDefined ∧ info.collapse.maxDefined = info.maxDefined := by
  unfold collapse
  split_ifs <;> exact ⟨rfl, rfl, rfl, rfl⟩

/-- The two bounds after trimming with a modulus above one. -/
theorem trim_eq {i : ExprInfo} (hm : 1 < i.alignment.modulus.toInt) {lo hi : Int64}
    (hlo : trimMin i.min i.alignment.modulus i.alignment.remainder = some lo)
    (hhi : trimMax i.max i.alignment.modulus i.alignment.remainder = some hi) :
    i.trimBoundsUsingAlignment = some (collapse { i with
      min := if i.minDefined then lo else i.min
      max := if i.maxDefined then hi else i.max }) := by
  have h0 : i.alignment.modulus ≠ 0 := by
    rw [ne_eq, eq_iff_toInt, toInt_zero]
    omega
  unfold trimBoundsUsingAlignment
  simp only [h0, ↓reduceIte, one_lt_iff_toInt.mpr hm, hlo, hhi]
  cases i.minDefined <;> cases i.maxDefined <;> rfl

/-- The element of the set just above the lower bound, one period after the
rounded bound. -/
theorem above_mem (bound : Int64) (a : ModulusRemainder) (k : Int) :
    rounded bound a + a.modulus.toInt * k ∈ a := by
  refine ⟨bound.toInt / a.modulus.toInt + k, ?_⟩
  have hE := Int.mul_ediv_add_emod bound.toInt a.modulus.toInt
  unfold rounded
  rw [mul_add]
  omega

theorem trim_holds {i : ExprInfo} (ha : i.alignment.Normalised) (hFits : i.TrimFits) {z : Int}
    (h : i.Holds z) : ∃ i', i.trimBoundsUsingAlignment = some i' ∧ i'.Holds z := by
  obtain ⟨hl, hu, hz⟩ := h
  by_cases h0 : i.alignment.modulus = 0
  · unfold trimBoundsUsingAlignment
    simp only [h0, ↓reduceIte]
    refine ⟨_, rfl, collapse_holds ?_⟩
    rw [ModulusRemainder.mem_iff_dvd, h0, toInt_zero, zero_dvd_iff] at hz
    refine ⟨fun _ => ?_, fun _ => ?_, ?_⟩
    · change i.alignment.remainder.toInt ≤ z
      omega
    · change z ≤ i.alignment.remainder.toInt
      omega
    · change z ∈ i.alignment
      rw [ModulusRemainder.mem_iff_dvd, h0, toInt_zero, zero_dvd_iff]
      exact hz
  by_cases hm : 1 < i.alignment.modulus.toInt
  · obtain ⟨lo, hlo, hloLe, hloWrap⟩ := trimMin_eq (b := i.min) ha hm
    obtain ⟨hi, hhi, hhiLe, hhiWrap⟩ := trimMax_eq (b := i.max) ha hm
    obtain ⟨hFitsMin, hFitsMax⟩ := hFits hm
    rw [trim_eq hm hlo hhi]
    refine ⟨_, rfl, collapse_holds ⟨?_, ?_, hz⟩⟩
    · intro hDef
      change (if i.minDefined then lo else i.min).toInt ≤ z
      change i.minDefined = true at hDef
      rw [if_pos hDef]
      rcases hFitsMin hDef with hLow | ⟨hDefMax, hEmpty⟩
      · exact hloLe hLow z hz (hl hDef)
      · have hzMin := hl hDef
        have hzMax := hu hDefMax
        by_cases hLow : -9223372036854775808 ≤ rounded i.min i.alignment
        · exact hloLe hLow z hz hzMin
        · have hB := toInt_bounds i.min
          have hLe := Int.le_of_dvd (by omega) (dvd_sub_rounded (b := i.min) hz)
          omega
    · intro hDef
      change z ≤ (if i.maxDefined then hi else i.max).toInt
      change i.maxDefined = true at hDef
      rw [if_pos hDef]
      rcases hFitsMax hDef with hHigh | ⟨hDefMin, hEmpty⟩
      · exact hhiLe hHigh z hz (hu hDef)
      · have hzMin := hl hDefMin
        have hzMax := hu hDef
        by_cases hHigh : rounded i.max i.alignment ≤ 9223372036854775807
        · exact hhiLe hHigh z hz hzMax
        · have hB := toInt_bounds i.max
          have hLe := Int.le_of_dvd (by omega) (dvd_neg.mpr (dvd_sub_rounded (b := i.max) hz))
          omega
  · unfold trimBoundsUsingAlignment
    simp only [h0, ↓reduceIte, mt one_lt_iff_toInt.mp hm]
    exact ⟨_, rfl, collapse_holds ⟨hl, hu, hz⟩⟩

theorem trim_sound_iff {info : ExprInfo} (ha : info.alignment.Normalised) :
    info.TrimSound ↔ info.TrimFits := by
  constructor
  · intro h hm
    obtain ⟨lo, hlo, -, hloWrap⟩ := trimMin_eq (b := info.min) ha hm
    obtain ⟨hi, hhi, -, hhiWrap⟩ := trimMax_eq (b := info.max) ha hm
    have hRoundMin := rounded_bounds (b := info.min) ha hm
    have hRoundMax := rounded_bounds (b := info.max) ha hm
    have hM := toInt_bounds info.alignment.modulus
    unfold TrimSound at h
    rw [trim_eq hm hlo hhi] at h
    constructor
    · intro hDef
      by_contra hNot
      rw [not_or, not_and, not_le, not_lt] at hNot
      obtain ⟨hLow, hRoom⟩ := hNot
      have hMem := above_mem info.min info.alignment 1
      rw [mul_one] at hMem
      obtain ⟨info', hEq, hMin, -⟩ := h _ ⟨fun _ => by omega, hRoom, hMem⟩
      cases hEq
      rw [(collapse_bounds _).1, (collapse_bounds _).2.2.1] at hMin
      have hLe := hMin hDef
      simp only [hDef, ↓reduceIte, hloWrap hLow] at hLe
      omega
    · intro hDef
      by_contra hNot
      rw [not_or, not_and, not_le, not_lt] at hNot
      obtain ⟨hHigh, hRoom⟩ := hNot
      have hMem := above_mem info.max info.alignment (-1)
      rw [mul_neg_one, ← sub_eq_add_neg] at hMem
      obtain ⟨info', hEq, -, hMax, -⟩ := h _ ⟨hRoom, fun _ => by omega, hMem⟩
      cases hEq
      rw [(collapse_bounds _).2.1, (collapse_bounds _).2.2.2] at hMax
      have hLe := hMax hDef
      simp only [hDef, ↓reduceIte, hhiWrap hHigh] at hLe
      omega
  · intro hFits z hz
    exact trim_holds ha hFits hz

/-- Which operations return normalised sets, and what the simplifier may
conclude from one. -/
theorem normalised_iff (a b : ModulusRemainder) (ha : a.Normalised) (hb : b.Normalised) :
    ModulusRemainder.Keeps (a.add b) ∧ ModulusRemainder.Keeps (a.sub b) ∧
    (ModulusRemainder.Keeps (a.mul b) ↔ ModulusRemainder.MulKeeps a b) ∧
    (ModulusRemainder.Keeps (a.div b) ↔ ModulusRemainder.DivKeeps a b) ∧
    (ModulusRemainder.Keeps (a.emod b) ↔ ModulusRemainder.EmodKeeps a b) ∧
    ModulusRemainder.Keeps (a.unify b) ∧ (a.intersect b).Normalised ∧
    (a.remainder ≠ 0 → (0 : Int) ∉ a) ∧
    (∀ info : ExprInfo, info.alignment = a → (info.TrimSound ↔ info.TrimFits)) := by
  refine ⟨ModulusRemainder.add_keeps ha hb, ModulusRemainder.sub_keeps ha hb,
    ModulusRemainder.mul_keeps_iff ha hb, ModulusRemainder.div_keeps_iff ha,
    ModulusRemainder.emod_keeps_iff ha hb, ModulusRemainder.unify_keeps ha hb,
    ModulusRemainder.intersect_keeps ha hb, ModulusRemainder.zero_not_mem ha, ?_⟩
  rintro info rfl
  exact trim_sound_iff ha

theorem normalised_iff_odd_even :
    (⟨2, 1⟩ : ModulusRemainder).Normalised ∧ (⟨4, 2⟩ : ModulusRemainder).Normalised ∧
      ModulusRemainder.Keeps (ModulusRemainder.add ⟨2, 1⟩ ⟨4, 2⟩) :=
  ⟨by decide, by decide, (normalised_iff ⟨2, 1⟩ ⟨4, 2⟩ (by decide) (by decide)).1⟩

/-- Odd numbers times `-2` leave an unreduced pair. Dividing it by four gives a
remainder that is not zero for a set with zero in it, and negating it makes
trimming drop six from below seven. -/
theorem mul_negative_not_normalised :
    (⟨2, 1⟩ : ModulusRemainder).Normalised ∧ (⟨0, -2⟩ : ModulusRemainder).Normalised ∧
    ModulusRemainder.mul ⟨2, 1⟩ ⟨0, -2⟩ = some ⟨-4, -2⟩ ∧
    ¬ (⟨-4, -2⟩ : ModulusRemainder).Normalised ∧
    ModulusRemainder.div ⟨-4, -2⟩ ⟨0, 4⟩ = some ⟨-1, -1⟩ ∧
    (0 : Int) ∈ (⟨-1, -1⟩ : ModulusRemainder) ∧
    ModulusRemainder.sub ⟨0, 0⟩ ⟨-4, -2⟩ = some ⟨-4, 2⟩ ∧
    ModulusRemainder.mul ⟨-4, 2⟩ ⟨0, -1⟩ = some ⟨4, -2⟩ ∧
    ¬ TrimSound { max := 7, maxDefined := true, alignment := ⟨4, -2⟩ } := by
  refine ⟨by decide, by decide, by decide, by decide, by decide, ⟨-1, by decide⟩, by decide,
    by decide, ?_⟩
  intro h
  obtain ⟨info', hEq, -, hMax, -⟩ := h 6 ⟨by simp, by decide, 2, by decide⟩
  rw [show trimBoundsUsingAlignment { max := 7, maxDefined := true, alignment := ⟨4, -2⟩ } =
    some { max := 2, maxDefined := true, alignment := ⟨4, -2⟩ } by decide] at hEq
  cases hEq
  exact absurd (hMax rfl) (by decide)

end ExprInfo

end Vyasa
