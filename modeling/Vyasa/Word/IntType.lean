import Mathlib

/-! Integer types of a fixed width, signed or unsigned, and arithmetic that
wraps around in them. -/
namespace Word

/-- A signed type has at least eight bits, so both truth values fit it. -/
structure IntType where
  signed : Bool
  bits : Nat
  one_le : 1 ≤ bits := by decide
  le_sixtyFour : bits ≤ 64 := by decide
  eight_le : signed = true → 8 ≤ bits := by decide
deriving DecidableEq

namespace IntType

def int8 : IntType := { signed := true, bits := 8 }

def int32 : IntType := { signed := true, bits := 32 }

def int64 : IntType := { signed := true, bits := 64 }

/-- `Bool()` -/
def bool : IntType := { signed := false, bits := 1 }

def uint8 : IntType := { signed := false, bits := 8 }

def uint32 : IntType := { signed := false, bits := 32 }

def uint64 : IntType := { signed := false, bits := 64 }

theorem eight_le_of_unsigned (T : IntType) : false = true → 8 ≤ T.bits := nofun

def min (T : IntType) : Int := if T.signed then -2 ^ (T.bits - 1) else 0

def max (T : IntType) : Int := if T.signed then 2 ^ (T.bits - 1) - 1 else 2 ^ T.bits - 1

/-- The values of the type. -/
def Has (T : IntType) (z : Int) : Prop := T.min ≤ z ∧ z ≤ T.max

instance (T : IntType) (z : Int) : Decidable (T.Has z) := inferInstanceAs (Decidable (_ ∧ _))

/-- The value of the type that has the same low bits. -/
def wrap (T : IntType) (z : Int) : Int :=
  if T.signed then z.bmod (2 ^ T.bits) else z % 2 ^ T.bits

theorem two_pow (T : IntType) : (2 : Int) ^ T.bits = 2 * 2 ^ (T.bits - 1) := by
  have h := T.one_le
  rw [← pow_succ', Nat.sub_add_cancel h]

theorem wrap_modEq (T : IntType) (z : Int) : T.wrap z ≡ z [ZMOD 2 ^ T.bits] := by
  unfold wrap
  split_ifs
  · have h : z.bmod (2 ^ T.bits) % ((2 ^ T.bits : Nat) : Int) = z % _ := Int.bmod_emod
    rw [Nat.cast_pow, Nat.cast_ofNat] at h
    exact h
  · exact Int.mod_modEq z _

theorem has_wrap (T : IntType) (z : Int) : T.Has (T.wrap z) := by
  have hPos : (0 : Int) < 2 ^ (T.bits - 1) := by positivity
  have hPow := T.two_pow
  unfold Has wrap min max
  split_ifs with h
  · have hl := Int.le_bmod (x := z) (m := 2 ^ T.bits) (by positivity)
    have hu := Int.bmod_lt (x := z) (m := 2 ^ T.bits) (by positivity)
    rw [Nat.cast_pow, Nat.cast_ofNat] at hl hu
    constructor <;> omega
  · have hl := Int.emod_nonneg z (by omega : (2 : Int) ^ T.bits ≠ 0)
    have hu := Int.emod_lt_of_pos z (by omega : (0 : Int) < 2 ^ T.bits)
    constructor <;> omega

theorem eq_of_modEq {T : IntType} {x y : Int} (hx : T.Has x) (hy : T.Has y)
    (h : x ≡ y [ZMOD 2 ^ T.bits]) : x = y := by
  have hPow := T.two_pow
  have hPos : (0 : Int) < 2 ^ (T.bits - 1) := by positivity
  have hDvd := h.dvd
  have hLt : |y - x| < 2 ^ T.bits := by
    unfold Has min max at hx hy
    rw [abs_lt]
    split_ifs at hx hy <;> omega
  have hZero := Int.eq_zero_of_abs_lt_dvd hDvd hLt
  omega

theorem wrap_of_has {T : IntType} {z : Int} (h : T.Has z) : T.wrap z = z :=
  eq_of_modEq (T.has_wrap z) h (T.wrap_modEq z)

theorem wrap_eq_wrap {T : IntType} {x y : Int} (h : x ≡ y [ZMOD 2 ^ T.bits]) : T.wrap x = T.wrap y :=
  eq_of_modEq (T.has_wrap x) (T.has_wrap y)
    ((T.wrap_modEq x).trans (h.trans (T.wrap_modEq y).symm))

theorem wrap_wrap (T : IntType) (x : Int) : T.wrap (T.wrap x) = T.wrap x :=
  wrap_of_has (T.has_wrap x)

theorem min_le_max (T : IntType) : T.min ≤ 0 ∧ 0 ≤ T.max := by
  have hPos : (0 : Int) < 2 ^ (T.bits - 1) := by positivity
  have hPow := T.two_pow
  unfold min max
  split_ifs <;> omega

theorem has_min (T : IntType) : T.Has T.min := ⟨le_rfl, T.min_le_max.1.trans T.min_le_max.2⟩

theorem has_max (T : IntType) : T.Has T.max := ⟨T.min_le_max.1.trans T.min_le_max.2, le_rfl⟩

theorem has_zero (T : IntType) : T.Has 0 := T.min_le_max

theorem has_one (T : IntType) : T.Has 1 := by
  have hPos : (0 : Int) < 2 ^ (T.bits - 1) := by positivity
  have hPow := T.two_pow
  unfold Has min max
  split_ifs with h
  · have hBits := T.eight_le h
    have hLe : (2 : Int) ^ 7 ≤ 2 ^ (T.bits - 1) := pow_le_pow_right₀ (by omega) (by omega)
    omega
  · omega

/-- A quotient by a positive number is between the dividend and zero. -/
theorem has_ediv {T : IntType} {x y : Int} (hx : T.Has x) (hy : 0 < y) : T.Has (x / y) := by
  have hBounds := T.min_le_max
  unfold Has at hx ⊢
  rcases le_total 0 x with h | h
  · have hl := Int.ediv_nonneg h hy.le
    have hu := Int.ediv_le_self y h
    omega
  · have hu := Int.ediv_nonpos_of_nonpos_of_neg h hy
    have hl : x ≤ x / y := by
      rw [Int.le_ediv_iff_mul_le hy]
      exact (mul_le_mul_of_nonpos_left (by omega : 1 ≤ y) h).trans (mul_one x).le
    omega

/-- So is a quotient rounded up. -/
theorem has_ediv_up {T : IntType} {x y : Int} (hx : T.Has x) (hy : 0 < y) :
    T.Has ((x + y - 1) / y) := by
  have hBounds := T.min_le_max
  unfold Has at hx ⊢
  rcases le_or_gt x 0 with h | h
  · have hu : (x + y - 1) / y < 1 := (Int.ediv_lt_iff_lt_mul hy).mpr (by omega)
    have hl : x ≤ (x + y - 1) / y := by
      rw [Int.le_ediv_iff_mul_le hy]
      exact (mul_le_mul_of_nonpos_left (by omega : 1 ≤ y) h).trans (by omega)
    omega
  · have hl := Int.ediv_nonneg (by omega : 0 ≤ x + y - 1) hy.le
    have hu : (x + y - 1) / y < x + 1 := by
      rw [Int.ediv_lt_iff_lt_mul hy, add_mul]
      have hMul : x ≤ x * y := le_mul_of_one_le_right h.le hy
      omega
    omega

theorem bounds_of_signed {T : IntType} (h : T.signed = true) :
    T.min = -2 ^ (T.bits - 1) ∧ T.max = 2 ^ (T.bits - 1) - 1 ∧ (128 : Int) ≤ 2 ^ (T.bits - 1) := by
  have hBits := T.eight_le h
  refine ⟨if_pos h, if_pos h, ?_⟩
  calc (128 : Int) = 2 ^ 7 := by norm_num
    _ ≤ 2 ^ (T.bits - 1) := pow_le_pow_right₀ (by omega) (by omega)

/-- The one quotient that is not a value of its type. -/
theorem has_ediv_or {T : IntType} {x y : Int} (hx : T.Has x) (hy : T.Has y) (h0 : y ≠ 0) :
    T.Has (x / y) ∨ T.signed = true ∧ x = T.min ∧ y = -1 := by
  rcases lt_or_gt_of_ne h0 with hNeg | hPos
  · have hSigned : T.signed = true := by
      by_contra hUnsigned
      have hMin := hy.1
      rw [min, if_neg hUnsigned] at hMin
      omega
    obtain ⟨hMin, hMax, hLarge⟩ := bounds_of_signed hSigned
    have hQuot := has_ediv hx (neg_pos.mpr hNeg)
    have hLess := Int.lt_mul_ediv_self_add (x := x) (neg_pos.mpr hNeg)
    rw [← neg_neg (x / y), ← Int.ediv_neg]
    unfold Has at hx hQuot ⊢
    by_cases hLow : x / -y = T.min
    · rw [hLow] at hLess
      have hTwo : -y < 2 := by
        by_contra hTwo
        nlinarith
      exact Or.inr ⟨hSigned, by nlinarith, by omega⟩
    · omega
  · exact Or.inl (has_ediv hx hPos)

theorem wrap_neg_min {T : IntType} (h : T.signed = true) : T.wrap (-T.min) = T.min := by
  refine eq_of_modEq (T.has_wrap _) T.has_min ((T.wrap_modEq _).trans ?_)
  rw [(bounds_of_signed h).1, T.two_pow, Int.modEq_iff_dvd]
  exact ⟨-1, by ring⟩

/-- A remainder is smaller than its divisor. -/
theorem has_emod {T : IntType} {x y : Int} (hy : T.Has y) (h0 : y ≠ 0) : T.Has (x % y) := by
  have hl := Int.emod_nonneg x h0
  have hu := Int.emod_lt_abs x h0
  have hPow := T.two_pow
  unfold Has min max at hy ⊢
  rcases abs_cases y with h | h <;> split_ifs at hy ⊢ <;> omega

end IntType

end Word
