import Vyasa.Word.IntType
import Mathlib

/-! Facts about 64-bit two's complement words that relate the wrapping
operations of `Int64` to integer arithmetic. -/
namespace Word

/-- The integers a signed word of this many bits represents. -/
def Fits (bits : Nat) (x : Int) : Prop :=
  -2 ^ (bits - 1) ≤ x ∧ x < 2 ^ (bits - 1)

instance (bits : Nat) (x : Int) : Decidable (Fits bits x) :=
  inferInstanceAs (Decidable (_ ∧ _))

theorem fits_toInt (x : Int64) : Fits 64 x.toInt := ⟨x.le_toInt, x.toInt_lt⟩

theorem fits_sixtyFour {x : Int} :
    Fits 64 x ↔ -9223372036854775808 ≤ x ∧ x ≤ 9223372036854775807 := by
  unfold Fits
  constructor <;> intro h <;> constructor <;> omega

theorem toInt_bounds (x : Int64) :
    -9223372036854775808 ≤ x.toInt ∧ x.toInt ≤ 9223372036854775807 :=
  fits_sixtyFour.mp (fits_toInt x)

theorem bmod_of_fits {x : Int} (h : Fits 64 x) : x.bmod (2 ^ 64) = x := by
  obtain ⟨hl, hu⟩ := h
  exact Int.bmod_eq_of_le hl hu

theorem toInt_add_of_fits {a b : Int64} (h : Fits 64 (a.toInt + b.toInt)) :
    (a + b).toInt = a.toInt + b.toInt := by
  rw [Int64.toInt_add, bmod_of_fits h]

theorem toInt_sub_of_fits {a b : Int64} (h : Fits 64 (a.toInt - b.toInt)) :
    (a - b).toInt = a.toInt - b.toInt := by
  rw [Int64.toInt_sub, bmod_of_fits h]

theorem toInt_mul_of_fits {a b : Int64} (h : Fits 64 (a.toInt * b.toInt)) :
    (a * b).toInt = a.toInt * b.toInt := by
  rw [Int64.toInt_mul, bmod_of_fits h]

/-- A value at most one wrap away from the range of a word. -/
theorem bmod_cases {x : Int} (hl : -27670116110564327424 ≤ x) (hu : x ≤ 27670116110564327423) :
    x.bmod (2 ^ 64) =
      if x < -9223372036854775808 then x + 18446744073709551616
      else if 9223372036854775807 < x then x - 18446744073709551616 else x := by
  split_ifs with h1 h2
  · rw [← Int.add_bmod_right]
    exact bmod_of_fits (fits_sixtyFour.mpr (by omega))
  · rw [← Int.add_neg_bmod_self]
    exact bmod_of_fits (fits_sixtyFour.mpr (by omega))
  · exact bmod_of_fits (fits_sixtyFour.mpr (by omega))

@[simp] theorem toInt_minValue : Int64.minValue.toInt = -9223372036854775808 := rfl

@[simp] theorem toInt_maxValue : Int64.maxValue.toInt = 9223372036854775807 := rfl

@[simp] theorem toInt_negOne : (-1 : Int64).toInt = -1 := rfl

@[simp] theorem toInt_zero : (0 : Int64).toInt = 0 := rfl

@[simp] theorem toInt_one : (1 : Int64).toInt = 1 := rfl

theorem eq_iff_toInt {a b : Int64} : a = b ↔ a.toInt = b.toInt := Int64.toInt_inj.symm

/-- The sign of a word, spread over all its bits by an arithmetic shift. -/
theorem shiftRight_sign (x : Int64) : x >>> 63 = if x < 0 then -1 else 0 := by
  have hl := x.le_toInt
  have hu := x.toInt_lt
  have hShift : (x >>> 63).toInt = x.toInt / 2 ^ 63 := by
    rw [← Int64.toInt_toBitVec, Int64.toBitVec_shiftRight, BitVec.toInt_sshiftRight',
      Int.shiftRight_eq_div_pow]
    rfl
  rw [eq_iff_toInt, hShift]
  split_ifs with h
  · rw [Int64.lt_iff_toInt_lt, toInt_zero] at h
    rw [toInt_negOne]
    omega
  · rw [Int64.lt_iff_toInt_lt, toInt_zero] at h
    rw [toInt_zero]
    omega

end Word

/-! The operations on the bits of the values of an integer type: those with masks of one bit all
through, with masks of low bits, and shifts to the right. -/
namespace Word.IntType

variable {T : IntType} {x y : Int} {k : Nat}

/-- The unsigned type of the same width. -/
def unsigned (T : IntType) : IntType where
  signed := false
  bits := T.bits
  one_le := T.one_le
  le_sixtyFour := T.le_sixtyFour
  eight_le := T.eight_le_of_unsigned

/-- The type of the same sign and another width. -/
def with_bits (T : IntType) (bits : Nat) (h : 8 ≤ bits ∧ bits ≤ 64) : IntType where
  signed := T.signed
  bits := bits
  one_le := Nat.le_trans (by decide) h.1
  le_sixtyFour := h.2
  eight_le _ := h.1

/-- The value of these bits. -/
def ofBits (T : IntType) (v : BitVec T.bits) : Int := T.wrap v.toNat

def xor (T : IntType) (x y : Int) : Int := T.ofBits ((x : BitVec T.bits) ^^^ (y : BitVec T.bits))

def and (T : IntType) (x y : Int) : Int := T.ofBits ((x : BitVec T.bits) &&& (y : BitVec T.bits))

def not (T : IntType) (x : Int) : Int := T.ofBits (~~~(x : BitVec T.bits))

/-- The shift keeps the sign of a signed value. -/
def shr (_ : IntType) (x : Int) (k : Nat) : Int := x / 2 ^ k

theorem has_iff_of_unsigned (h : T.signed = false) : T.Has x ↔ 0 ≤ x ∧ x ≤ 2 ^ T.bits - 1 := by
  rw [Has, min, max, h]
  rfl

theorem has_iff_of_signed (h : T.signed = true) :
    T.Has x ↔ -2 ^ (T.bits - 1) ≤ x ∧ x ≤ 2 ^ (T.bits - 1) - 1 := by
  rw [Has, min, max, h]
  rfl

theorem wrap_unsigned_of_lt {m : ℕ} (h : m < 2 ^ T.bits) : T.unsigned.wrap m = m := by
  refine wrap_of_has ((has_iff_of_unsigned rfl).mpr ⟨Int.natCast_nonneg m, ?_⟩)
  have hCast : ((m : ℕ) : Int) < ((2 ^ T.bits : ℕ) : Int) := Int.ofNat_lt.mpr h
  rw [Nat.cast_pow, Nat.cast_ofNat] at hCast
  exact Int.le_sub_one_of_lt hCast

/-- The type of the same width sees the same bits. -/
theorem wrap_unsigned (T : IntType) (x : Int) : T.wrap (T.unsigned.wrap x) = T.wrap x :=
  wrap_eq_wrap (T.unsigned.wrap_modEq x)

theorem ofBits_intCast (T : IntType) (x : Int) : T.ofBits (x : BitVec T.bits) = T.wrap x := by
  have hPos : (0 : Int) < 2 ^ T.bits := by positivity
  refine wrap_eq_wrap ?_
  rw [BitVec.toNat_intCast, Int.toNat_of_nonneg (Int.emod_nonneg _ hPos.ne')]
  exact Int.mod_modEq x _

theorem intCast_eq_of_modEq (h : x ≡ y [ZMOD 2 ^ T.bits]) : (x : BitVec T.bits) = (y : BitVec T.bits) := by
  refine BitVec.eq_of_toNat_eq ?_
  rw [BitVec.toNat_intCast, BitVec.toNat_intCast, h.eq]

/-- The operations on bits do not see what is beyond the word. -/
theorem xor_wrap_left (T : IntType) (x y : Int) : T.xor (T.wrap x) y = T.xor x y := by
  rw [xor, intCast_eq_of_modEq (T.wrap_modEq x), ← xor]

theorem xor_wrap_right (T : IntType) (x y : Int) : T.xor x (T.wrap y) = T.xor x y := by
  rw [xor, intCast_eq_of_modEq (T.wrap_modEq y), ← xor]

theorem and_wrap (T : IntType) (x y : Int) : T.and x (T.wrap y) = T.and x y := by
  rw [and, intCast_eq_of_modEq (T.wrap_modEq y), ← and]

theorem intCast_neg_one (T : IntType) : ((-1 : Int) : BitVec T.bits) = BitVec.allOnes T.bits := by
  rw [Int.cast_neg, Int.cast_one]
  exact BitVec.neg_one_eq_allOnes

/-- The opposite of the bits. -/
theorem not_intCast (T : IntType) (x : Int) : ~~~(x : BitVec T.bits) = ((-1 - x : Int) : BitVec T.bits) := by
  rw [BitVec.not_eq_neg_add, Int.cast_sub, Int.cast_neg, Int.cast_one]
  exact (neg_add' _ _).symm.trans ((congrArg Neg.neg (add_comm _ _)).trans (neg_add' _ _))

theorem not_eq (T : IntType) (x : Int) : T.not x = T.wrap (-1 - x) := by
  rw [not, not_intCast, ofBits_intCast]

theorem xor_zero_eq (T : IntType) (x : Int) : T.xor x 0 = T.wrap x := by
  have hZero : (x : BitVec T.bits) ^^^ 0 = x := BitVec.xor_zero
  rw [xor, Int.cast_zero, hZero, ofBits_intCast]

theorem xor_zero (hx : T.Has x) : T.xor x 0 = x := by rw [xor_zero_eq, wrap_of_has hx]

theorem xor_neg_one (T : IntType) (x : Int) : T.xor x (-1) = T.wrap (-1 - x) := by
  rw [xor, intCast_neg_one, BitVec.xor_allOnes, not_intCast, ofBits_intCast]

theorem xor_comm (T : IntType) (x y : Int) : T.xor x y = T.xor y x := by
  rw [xor, xor, BitVec.xor_comm]

theorem and_zero (T : IntType) (x : Int) : T.and x 0 = 0 := by
  have hZero : (x : BitVec T.bits) &&& 0 = 0 := BitVec.and_zero
  rw [and, Int.cast_zero, hZero]
  exact wrap_of_has T.has_zero

theorem and_neg_one (hx : T.Has x) : T.and x (-1) = x := by
  rw [and, intCast_neg_one, BitVec.and_allOnes, ofBits_intCast, wrap_of_has hx]

theorem and_comm (T : IntType) (x y : Int) : T.and x y = T.and y x := by
  rw [and, and, BitVec.and_comm]

/-- The low bits of a value are its remainder. -/
theorem and_low (T : IntType) (x : Int) (hk : k ≤ T.bits) : T.and x (2 ^ k - 1) = T.wrap (x % 2 ^ k) := by
  have hMask : (((2 ^ k - 1 : Int) : BitVec T.bits)).toNat = 2 ^ k - 1 := by
    have hLe : (2 : Int) ^ k ≤ 2 ^ T.bits := pow_le_pow_right₀ (by omega) hk
    have hPos : (0 : Int) < 2 ^ k := by positivity
    have hCast : (2 : Int) ^ k = ((2 ^ k : Nat) : Int) := by
      push_cast
      rfl
    rw [BitVec.toNat_intCast, Int.emod_eq_of_lt (by omega) (by omega), hCast]
    omega
  have hDvd : ((2 : Int) ^ k) ∣ 2 ^ T.bits := pow_dvd_pow 2 hk
  have hNonneg : 0 ≤ x % 2 ^ T.bits := Int.emod_nonneg _ (by positivity)
  rw [and, ofBits, BitVec.toNat_and, hMask, Nat.and_two_pow_sub_one_eq_mod, BitVec.toNat_intCast]
  congr 1
  rw [Int.natCast_mod, Int.toNat_of_nonneg hNonneg, Nat.cast_pow, Nat.cast_ofNat, Int.emod_emod_of_dvd x hDvd]

/-- The sign of a value, in all bits. -/
theorem shr_sign (h : T.signed = true) (hx : T.Has x) : T.shr x (T.bits - 1) = if x < 0 then -1 else 0 := by
  obtain ⟨hMin, hMax, -⟩ := bounds_of_signed h
  have hPos : (0 : Int) < 2 ^ (T.bits - 1) := by positivity
  rw [Has, hMin, hMax] at hx
  rw [shr]
  split_ifs with hNeg
  · rw [Int.ediv_eq_iff_of_pos hPos]
    omega
  · exact Int.ediv_eq_zero_of_lt (by omega) (by omega)

theorem not_zero (h : T.signed = true) : T.not 0 = -1 := by
  obtain ⟨hMin, hMax, hLarge⟩ := bounds_of_signed h
  rw [not_eq]
  refine wrap_of_has ?_
  rw [Has, hMin, hMax]
  omega

theorem not_neg_one (T : IntType) : T.not (-1) = 0 := by
  rw [not_eq]
  exact wrap_of_has T.has_zero

end Word.IntType
