import Vyasa.IntegerDivision.Lower
import Vyasa.IntegerDivision.RuntimeTable

/-! Division by a divisor of eight bits that is known at run time only, by the tables. -/
namespace Vyasa.IntegerDivision

open Word Euclid

def uint8 : IntType := .uint8

/-- The table that a numerator of this type takes. -/
def runtime_table (T : IntType) : List Row :=
  if T.signed then
    if T.bits = 8 then table_runtime_s8 else if T.bits = 16 then table_runtime_s16 else table_runtime_s32
  else
    if T.bits = 8 then table_runtime_u8 else if T.bits = 16 then table_runtime_u16 else table_runtime_u32

/-- The buffers hold the columns of the table as words of the width of the type. -/
def table_mul (T : IntType) (denominator : Int) : Int :=
  T.unsigned.wrap ((runtime_table T).getD denominator.toNat default).multiplier

def table_shift (T : IntType) (denominator : Int) : Int :=
  T.unsigned.wrap ((runtime_table T).getD denominator.toNat default).shift

/-- Multiply and keep the high half. -/
def multiply_keep_high (T wide : IntType) (mul numerator : Int) : Int :=
  T.wrap (wide.wrap (wide.wrap mul * numerator) / 2 ^ T.bits)

/-- The value of the quotient by the tables, with the arithmetic of a type twice as wide. -/
def runtime_divide (T wide : IntType) (numerator denominator : Int) : Int :=
  let mul := table_mul T denominator
  let shift := table_shift T denominator
  if T.signed then
    let xsign := if numerator > 0 then T.wrap 0 else T.wrap (-1)
    let numerator := T.xor xsign numerator
    let result := multiply_keep_high T wide mul numerator
    let result := T.shr result (T.wrap shift).toNat
    let result := T.xor xsign result
    if denominator = 1 then numerator else result
  else
    let result := multiply_keep_high T wide mul numerator
    -- Add half the difference between input and output so far.
    let result := T.wrap (result + T.wrap (numerator - result) / 2)
    let result := T.shr result (T.wrap shift).toNat
    if denominator = 1 then numerator else result

/-- The type in which a numerator meets a divisor of eight bits. -/
def matched (T : IntType) : IntType :=
  T.with_bits (max T.bits 8) ⟨Nat.le_max_right _ _, Nat.max_le.mpr ⟨T.le_sixtyFour, by decide⟩⟩

/-- The value of the quotient. There is none for a numerator of another width. -/
def fast_integer_divide (T : IntType) (is_const : Bool) (numerator denominator : Int) : Option Int :=
  if is_const then some ((matched T).wrap (numerator / (matched T).wrap (uint8.wrap denominator)))
  else if h : T.bits = 8 ∨ T.bits = 16 ∨ T.bits = 32 then
    some (runtime_divide T (T.with_bits (T.bits * 2) (by omega)) numerator denominator)
  else none

def fast_integer_modulo (T : IntType) (is_const : Bool) (numerator denominator : Int) : Option Int :=
  (fast_integer_divide T is_const numerator denominator).map fun q =>
    (matched T).wrap (numerator - (matched T).wrap (q * (matched T).wrap denominator))

theorem table_runtime_averages : ∀ d < 256, 2 ≤ d →
    (table_runtime_u8.getD d default).Averages 8 (2 ^ 8 - 1) d ∧
    (table_runtime_u16.getD d default).Averages 16 (2 ^ 16 - 1) d ∧
    (table_runtime_u32.getD d default).Averages 32 (2 ^ 32 - 1) d := by
  intro d hd hTwo
  refine ⟨?_, ?_, ?_⟩
  · exact row_of_zipIdx (P := fun r d => 2 ≤ d → r.Averages 8 (2 ^ 8 - 1) d)
      (by decide +kernel) (by decide +kernel) hd hTwo
  · exact row_of_zipIdx (P := fun r d => 2 ≤ d → r.Averages 16 (2 ^ 16 - 1) d)
      (by decide +kernel) (by decide +kernel) hd hTwo
  · exact row_of_zipIdx (P := fun r d => 2 ≤ d → r.Averages 32 (2 ^ 32 - 1) d)
      (by decide +kernel) (by decide +kernel) hd hTwo

theorem table_runtime_multiplies : ∀ d < 256, 2 ≤ d →
    (table_runtime_s8.getD d default).Multiplies 8 (2 ^ 7 - 1) d ∧
    (table_runtime_s16.getD d default).Multiplies 16 (2 ^ 15 - 1) d ∧
    (table_runtime_s32.getD d default).Multiplies 32 (2 ^ 31 - 1) d := by
  intro d hd hTwo
  refine ⟨?_, ?_, ?_⟩
  · exact row_of_zipIdx (P := fun r d => 2 ≤ d → r.Multiplies 8 (2 ^ 7 - 1) d)
      (by decide +kernel) (by decide +kernel) hd hTwo
  · exact row_of_zipIdx (P := fun r d => 2 ≤ d → r.Multiplies 16 (2 ^ 15 - 1) d)
      (by decide +kernel) (by decide +kernel) hd hTwo
  · exact row_of_zipIdx (P := fun r d => 2 ≤ d → r.Multiplies 32 (2 ^ 31 - 1) d)
      (by decide +kernel) (by decide +kernel) hd hTwo

section Rows

variable {T : IntType} {d : ℕ} (hBits : T.bits = 8 ∨ T.bits = 16 ∨ T.bits = 32) (hd : 2 ≤ d) (hd' : d < 256)
include hBits hd hd'

theorem runtime_table_averages (hUnsigned : T.signed = false) :
    ((runtime_table T).getD d default).Averages T.bits (2 ^ T.bits - 1) d := by
  obtain ⟨h8, h16, h32⟩ := table_runtime_averages d hd' hd
  rw [runtime_table, hUnsigned]
  rcases hBits with h | h | h
  · simpa [h] using h8
  · simpa [h] using h16
  · simpa [h] using h32

theorem runtime_table_multiplies (hSigned : T.signed = true) :
    ((runtime_table T).getD d default).Multiplies T.bits (2 ^ (T.bits - 1) - 1) d := by
  obtain ⟨h8, h16, h32⟩ := table_runtime_multiplies d hd' hd
  rw [runtime_table, hSigned]
  rcases hBits with h | h | h
  · simpa [h] using h8
  · simpa [h] using h16
  · simpa [h] using h32

end Rows

variable {T wide : IntType} {n d : Int}

section Rows

variable {r : Row} (hRow : (runtime_table T).getD d.toNat default = r) (hMul : r.multiplier < 2 ^ T.bits)
  (hShift : r.shift < T.bits)
include hRow

include hMul in
theorem table_mul_eq : table_mul T d = r.multiplier := by
  rw [table_mul, hRow, IntType.wrap_unsigned_of_lt hMul]

include hShift in
theorem table_shift_eq : (T.wrap (table_shift T d)).toNat = r.shift := by
  have hLe := T.le_sixtyFour
  have hHas : T.Has (r.shift : Int) := by
    cases hSign : T.signed with
    | false =>
      have hLt : ((r.shift : ℕ) : Int) < ((2 ^ T.bits : ℕ) : Int) :=
        Int.ofNat_lt.mpr (hShift.trans Nat.lt_two_pow_self)
      rw [Nat.cast_pow, Nat.cast_ofNat] at hLt
      exact (IntType.has_iff_of_unsigned hSign).mpr ⟨Int.natCast_nonneg _, by omega⟩
    | true =>
      have hLarge := (IntType.bounds_of_signed hSign).2.2
      exact (IntType.has_iff_of_signed hSign).mpr ⟨by omega, by omega⟩
  rw [table_shift, hRow, IntType.wrap_unsigned_of_lt (hShift.trans Nat.lt_two_pow_self),
    IntType.wrap_of_has hHas, Int.toNat_natCast]

end Rows

/-- The high half of a product with a multiplier is no further from zero than the number. -/
theorem mul_ediv_bounds {m B : Int} (hm : 0 ≤ m) (hLt : m < B) (hn : -1 ≤ n) :
    (-1 ≤ m * n / B ∧ m * n / B ≤ max n 0) ∧ (0 ≤ n → 0 ≤ m * n / B) := by
  have hB : 0 < B := by omega
  rcases Int.le_total 0 n with hPos | hNeg
  · have hProduct : 0 ≤ m * n := Int.mul_nonneg hm hPos
    have hLe : m * n ≤ n * B := by
      rw [Int.mul_comm n B]
      exact Int.mul_le_mul_of_nonneg_right hLt.le hPos
    have hQuot := Int.ediv_nonneg hProduct hB.le
    have hQuot' := Int.ediv_le_of_le_mul hB hLe
    omega
  · obtain rfl | rfl : n = -1 ∨ n = 0 := by omega
    · have hLow : -1 ≤ m * -1 / B := by
        rw [Int.le_ediv_iff_mul_le hB]
        omega
      have hHigh : m * -1 / B ≤ 0 := Int.ediv_le_of_le_mul hB (by omega)
      omega
    · simp

/-- Nothing overflows in the high half of a product with a multiplier. -/
theorem multiply_keep_high_eq {m : ℕ} (hm : m < 2 ^ T.bits) (hn : T.Has n) (hSign : wide.signed = T.signed)
    (hWide : wide.bits = T.bits * 2) (hLow : -1 ≤ n) :
    multiply_keep_high T wide m n = m * n / 2 ^ T.bits := by
  have hm' : ((m : ℕ) : Int) < 2 ^ T.bits := by
    have hCast : ((m : ℕ) : Int) < ((2 ^ T.bits : ℕ) : Int) := Int.ofNat_lt.mpr hm
    rwa [Nat.cast_pow, Nat.cast_ofNat] at hCast
  obtain ⟨⟨hQuotLow, hQuotHigh⟩, hQuotNonneg⟩ := mul_ediv_bounds (Int.natCast_nonneg m) hm' hLow
  have hOne := T.one_le
  have hPos : (0 : Int) < 2 ^ T.bits := by positivity
  have hSquare : (2 : Int) ^ wide.bits = 2 ^ T.bits * 2 ^ T.bits := by rw [hWide, pow_mul, sq]
  have hLower : -2 ^ T.bits < (m : Int) * n := by
    have := Int.mul_le_mul_of_nonneg_left hLow (Int.natCast_nonneg m)
    omega
  rw [multiply_keep_high]
  cases hSigned : T.signed with
  | false =>
    have hBounds := (IntType.has_iff_of_unsigned hSigned).mp hn
    have hWideBounds (x : Int) := IntType.has_iff_of_unsigned (x := x) (hSign.trans hSigned)
    have hProduct : (m : Int) * n ≤ 2 ^ T.bits * (2 ^ T.bits - 1) :=
      Int.mul_le_mul hm'.le hBounds.2 hBounds.1 hPos.le
    have hProductNonneg : 0 ≤ (m : Int) * n := Int.mul_nonneg (Int.natCast_nonneg m) hBounds.1
    have hSelf : (2 : Int) ^ T.bits ≤ 2 ^ T.bits * 2 ^ T.bits := le_mul_of_one_le_right hPos.le hPos
    rw [mul_sub] at hProduct
    have hMulHas : wide.Has (m : Int) := (hWideBounds _).mpr ⟨Int.natCast_nonneg m, by omega⟩
    have hProductHas : wide.Has ((m : Int) * n) := (hWideBounds _).mpr ⟨hProductNonneg, by omega⟩
    rw [IntType.wrap_of_has hMulHas, IntType.wrap_of_has hProductHas]
    exact IntType.wrap_of_has ((IntType.has_iff_of_unsigned hSigned).mpr ⟨hQuotNonneg hBounds.1, by omega⟩)
  | true =>
    have hBounds := (IntType.has_iff_of_signed hSigned).mp hn
    have hWideBounds (x : Int) := IntType.has_iff_of_signed (x := x) (hSign.trans hSigned)
    have hHalf := T.two_pow
    have hHalfPos : (0 : Int) < 2 ^ (T.bits - 1) := by positivity
    have hWideHalf : (2 : Int) ^ (wide.bits - 1) = 2 ^ T.bits * 2 ^ (T.bits - 1) := by
      rw [← pow_add, hWide]
      congr 1
      omega
    have hSelf : (2 : Int) ^ T.bits ≤ 2 ^ T.bits * 2 ^ (T.bits - 1) :=
      le_mul_of_one_le_right hPos.le hHalfPos
    have hProduct : (m : Int) * n ≤ 2 ^ T.bits * 2 ^ (T.bits - 1) - 2 ^ T.bits := by
      rcases Int.le_total 0 n with hNonneg | hNeg
      · have hMul : (m : Int) * n ≤ 2 ^ T.bits * (2 ^ (T.bits - 1) - 1) :=
          Int.mul_le_mul hm'.le hBounds.2 hNonneg hPos.le
        rwa [mul_sub, mul_one] at hMul
      · have hMul : (m : Int) * n ≤ 0 := Int.mul_nonpos_of_nonneg_of_nonpos (Int.natCast_nonneg m) hNeg
        omega
    have hMulHas : wide.Has (m : Int) := (hWideBounds _).mpr ⟨by omega, by omega⟩
    have hProductHas : wide.Has ((m : Int) * n) := (hWideBounds _).mpr ⟨by omega, by omega⟩
    rw [IntType.wrap_of_has hMulHas, IntType.wrap_of_has hProductHas]
    exact IntType.wrap_of_has ((IntType.has_iff_of_signed hSigned).mpr ⟨by omega, by omega⟩)

/-- The divisor is a number, and so is a quotient by it. -/
theorem runtime_divide_unsigned (hBits : T.bits = 8 ∨ T.bits = 16 ∨ T.bits = 32) (hUnsigned : T.signed = false)
    (hWide : wide.signed = T.signed ∧ wide.bits = T.bits * 2) (hn : T.Has n) (hd : 1 ≤ d) (hd' : d ≤ 255) :
    runtime_divide T wide n d = n / d := by
  by_cases hOne : d = 1
  · simp [runtime_divide, hUnsigned, hOne]
  obtain ⟨hMul, hShift, hReciprocal⟩ :=
    runtime_table_averages hBits (d := d.toNat) (by omega) (by omega) hUnsigned
  obtain ⟨hNonneg, hMax⟩ := (IntType.has_iff_of_unsigned hUnsigned).mp hn
  generalize hRow : (runtime_table T).getD d.toNat default = r at hMul hShift hReciprocal
  have hHigh := multiply_keep_high_eq hMul hn hWide.1 hWide.2 (by omega)
  have hMul' : ((r.multiplier : ℕ) : Int) < 2 ^ T.bits := by exact_mod_cast hMul
  obtain ⟨⟨-, hQuotHigh⟩, hQuotNonneg⟩ := mul_ediv_bounds (Int.natCast_nonneg _) hMul' (by omega : -1 ≤ n)
  have hQuotNonneg := hQuotNonneg hNonneg
  have hHas {x : Int} (hx : 0 ≤ x) (hx' : x ≤ n) : T.Has x :=
    (IntType.has_iff_of_unsigned hUnsigned).mpr ⟨hx, by omega⟩
  rw [runtime_divide, hUnsigned]
  simp only [Bool.false_eq_true, if_false, hOne, table_mul_eq hRow hMul, table_shift_eq hRow hShift, hHigh]
  rw [IntType.wrap_of_has (hHas (x := n - _) (by omega) (by omega)), IntType.wrap_of_has (hHas (by omega) (by omega)),
    IntType.shr]
  have hHalf (h : Int) : h + (n - h) / 2 = (h + n) / 2 := by omega
  rw [hHalf]
  lift n to ℕ using hNonneg
  lift d to ℕ using by omega
  have hLast : n ≤ 2 ^ T.bits - 1 := by
    have hCast : ((n : ℕ) : Int) < ((2 ^ T.bits : ℕ) : Int) := by
      push_cast
      omega
    have := Int.ofNat_lt.mp hCast
    omega
  have hAverage := hReciprocal.average_shift (by omega) hLast
  exact_mod_cast hAverage

/-- The high half of a product, shifted, is the quotient of a number and of -1 as well. -/
theorem multiply_shift_eq {N m s b : ℕ} {d : ℕ} (hReciprocal : Reciprocal N d m (b + s)) (hm : m < 2 ^ b)
    (hd : 0 < d) (hn : -1 ≤ n) (hn' : n ≤ N) : m * n / 2 ^ b / 2 ^ s = n / d := by
  have hOne {B : Int} (hB : 0 < B) {x : Int} (hx : -B ≤ x) (hx' : x < 0) : x / B = -1 :=
    Int.ediv_eq_neg_one_of_neg_of_le hx' (by omega)
  have hPos : (0 : Int) < 2 ^ b := by positivity
  have hPos' : (0 : Int) < 2 ^ s := by positivity
  rcases Int.lt_or_le n 0 with hNeg | hNonneg
  · obtain rfl : n = -1 := by omega
    have hm' : ((m : ℕ) : Int) < 2 ^ b := by exact_mod_cast hm
    have hLarge : m ≠ 0 := by
      rintro rfl
      have := hReciprocal.large
      have := Nat.two_pow_pos (b + s)
      omega
    rw [hOne hPos (x := (m : Int) * -1) (by omega) (by omega), hOne hPos' (by omega) (by omega),
      hOne (by omega) (by omega) (by omega)]
  · lift n to ℕ using hNonneg
    have hShift := hReciprocal.high_shift hd (Int.ofNat_le.mp hn')
    exact_mod_cast hShift

theorem runtime_divide_signed (hBits : T.bits = 8 ∨ T.bits = 16 ∨ T.bits = 32) (hSigned : T.signed = true)
    (hWide : wide.signed = T.signed ∧ wide.bits = T.bits * 2) (hn : T.Has n) (hd : 1 ≤ d) (hd' : d ≤ 255) :
    runtime_divide T wide n d = if d = 1 ∧ n ≤ 0 then -1 - n else n / d := by
  have hBounds (x : Int) := IntType.has_iff_of_signed (x := x) hSigned
  obtain ⟨hMin, hMax⟩ := (hBounds n).mp hn
  have hNegOne : T.wrap (-1) = -1 := IntType.wrap_of_has ((hBounds _).mpr ⟨by omega, by omega⟩)
  have hFlipped : T.Has (-1 - n) := (hBounds _).mpr ⟨by omega, by omega⟩
  have hFlip : T.xor (-1) n = -1 - n := by
    rw [IntType.xor_comm, IntType.xor_neg_one, IntType.wrap_of_has hFlipped]
  have hSame : T.xor 0 n = n := by rw [IntType.xor_comm, IntType.xor_zero hn]
  have hZero : T.wrap 0 = 0 := IntType.wrap_of_has T.has_zero
  rw [runtime_divide, hSigned]
  simp only [if_true, hNegOne, hZero]
  by_cases hOne : d = 1
  · rcases Int.lt_or_le 0 n with hPos | hNonpos
    · simp [hOne, hPos, hSame, Int.not_le.mpr hPos]
    · simp [hOne, hFlip, hNonpos, Int.not_lt.mpr hNonpos]
  · obtain ⟨hMul, hShift, hReciprocal⟩ :=
      runtime_table_multiplies hBits (d := d.toNat) (by omega) (by omega) hSigned
    generalize hRow : (runtime_table T).getD d.toNat default = r at hMul hShift hReciprocal
    have hHalf : ((2 ^ (T.bits - 1) - 1 : ℕ) : Int) = 2 ^ (T.bits - 1) - 1 := by
      have := Nat.two_pow_pos (T.bits - 1)
      push_cast [this]
      rfl
    have hQuot {x : Int} (hx : T.Has x) (hLow : -1 ≤ x) :
        T.shr (multiply_keep_high T wide r.multiplier x) r.shift = x / d := by
      have hd0 : ((d.toNat : ℕ) : Int) = d := by omega
      rw [multiply_keep_high_eq hMul hx hWide.1 hWide.2 hLow, IntType.shr,
        multiply_shift_eq hReciprocal hMul (by omega) hLow (hHalf ▸ ((hBounds x).mp hx).2), hd0]
    simp only [table_mul_eq hRow hMul, table_shift_eq hRow hShift, hOne, if_false, false_and]
    rcases Int.lt_or_le 0 n with hPos | hNonpos
    · rw [if_pos hPos, hSame, hQuot hn (by omega), IntType.xor_comm, IntType.xor_zero (IntType.has_ediv hn (by omega))]
    · rw [if_neg (Int.not_lt.mpr hNonpos), hFlip, hQuot hFlipped (by omega), IntType.xor_comm,
        IntType.xor_neg_one, flip_div (by omega), IntType.wrap_of_has (IntType.has_ediv hn (by omega))]

/-- The tables divide, other than numbers that are not positive by one, in a signed type. -/
theorem fast_integer_divide_runtime (hBits : T.bits = 8 ∨ T.bits = 16 ∨ T.bits = 32) (hn : T.Has n) (hd : 1 ≤ d)
    (hd' : d ≤ 255) :
    fast_integer_divide T false n d = some (if T.signed = true ∧ d = 1 ∧ n ≤ 0 then -1 - n else n / d) := by
  have hWide : (T.with_bits (T.bits * 2) (by omega)).signed = T.signed ∧
      (T.with_bits (T.bits * 2) (by omega)).bits = T.bits * 2 := ⟨rfl, rfl⟩
  rw [fast_integer_divide, if_neg Bool.false_ne_true, dif_pos hBits]
  cases hSigned : T.signed with
  | false => simp [runtime_divide_unsigned hBits hSigned hWide hn hd hd']
  | true => simp [runtime_divide_signed hBits hSigned hWide hn hd hd']

theorem matched_eq (h : 8 ≤ T.bits) : matched T = T := by
  have hMax : max T.bits 8 = T.bits := Nat.max_eq_left h
  obtain ⟨signed, bits, _, _, _⟩ := T
  simp only [matched, IntType.with_bits, IntType.mk.injEq, true_and]
  exact hMax

/-- A divisor of eight bits, in the type of the numerator. -/
theorem wrap_divisor (hBits : 8 ≤ T.bits) (hd : 1 ≤ d) (hd' : d ≤ 255) :
    T.wrap d = if T.signed = true ∧ T.bits = 8 ∧ 128 ≤ d then d - 256 else d := by
  cases hSigned : T.signed with
  | false =>
    have hLarge : (2 : Int) ^ 8 ≤ 2 ^ T.bits := pow_le_pow_right₀ (by omega) hBits
    rw [if_neg fun h => Bool.false_ne_true h.1]
    exact IntType.wrap_of_has ((IntType.has_iff_of_unsigned hSigned).mpr ⟨by omega, by omega⟩)
  | true =>
    have hBounds (x : Int) := IntType.has_iff_of_signed (x := x) hSigned
    by_cases hNarrow : T.bits = 8
    · simp only [hNarrow, Nat.add_one_sub_one] at hBounds
      by_cases hHigh : 128 ≤ d
      · rw [if_pos ⟨rfl, hNarrow, hHigh⟩]
        refine IntType.eq_of_modEq (T.has_wrap d) ((hBounds _).mpr ⟨by omega, by omega⟩) ?_
        refine (T.wrap_modEq d).trans ?_
        rw [hNarrow, Int.modEq_iff_dvd]
        exact ⟨-1, by ring⟩
      · rw [if_neg fun h => hHigh h.2.2]
        exact IntType.wrap_of_has ((hBounds _).mpr ⟨by omega, by omega⟩)
    · have hLarge : (2 : Int) ^ 8 ≤ 2 ^ (T.bits - 1) := pow_le_pow_right₀ (by omega) (by omega)
      rw [if_neg fun h => hNarrow h.2.1]
      exact IntType.wrap_of_has ((hBounds _).mpr ⟨by omega, by omega⟩)

theorem fast_integer_divide_const (hBits : 8 ≤ T.bits) (hd : 1 ≤ d) (hd' : d ≤ 255) :
    fast_integer_divide T true n d = some (T.wrap (n / T.wrap d)) := by
  have hDivisor : uint8.wrap d = d :=
    IntType.wrap_of_has ((IntType.has_iff_of_unsigned rfl).mpr ⟨by omega, hd'⟩)
  rw [fast_integer_divide, if_pos rfl, matched_eq hBits, hDivisor]

/-- Quotients, remainders and the quotients by constants, all as they should be. -/
def DividesExactly (T : IntType) (n d : Int) : Prop :=
  fast_integer_divide T false n d = some (n / d) ∧ fast_integer_modulo T false n d = some (n % d) ∧
    fast_integer_divide T true n d = fast_integer_divide T false n d

/-- A divisor of eight bits that has a sign as a numerator of eight bits. -/
theorem divides_exactly_iff_of_high (hBits : T.bits = 8) (hSigned : T.signed = true) (hn : T.Has n)
    (hd : 128 ≤ d) (hd' : d ≤ 255) : DividesExactly T n d ↔ 0 ≤ n ∧ n < 256 - d := by
  have hDivisor : T.wrap d = d - 256 := by
    rw [wrap_divisor (by omega) (by omega) hd', if_pos ⟨hSigned, hBits, hd⟩]
  have hRuntime : fast_integer_divide T false n d = some (n / d) := by
    rw [fast_integer_divide_runtime (Or.inl hBits) hn (by omega) hd', if_neg fun h => by omega]
  have hBounds (x : Int) := IntType.has_iff_of_signed (x := x) hSigned
  simp only [hBits, Nat.add_one_sub_one] at hBounds
  obtain ⟨hMin, hMax⟩ := (hBounds n).mp hn
  have hNeg : n / (d - 256) = -(n / (256 - d)) := by
    rw [← Int.ediv_neg]
    congr 1
    omega
  have hWrap (x : Int) : ∃ k : Int, T.wrap x = x + 256 * k := by
    obtain ⟨k, hk⟩ := (T.wrap_modEq x).symm.dvd
    rw [hBits] at hk
    exact ⟨k, by omega⟩
  rw [DividesExactly, fast_integer_modulo, hRuntime, fast_integer_divide_const (by omega) (by omega) hd',
    matched_eq (by omega), hDivisor, hNeg]
  simp only [Option.map_some, Option.some.injEq, true_and]
  rcases Int.lt_or_le n 0 with hLow | hNonneg
  · -- The constant is a negative divisor, and its quotient a positive one.
    refine iff_of_false (fun h => ?_) fun h => by omega
    have hQuot : n / d = -1 := Int.ediv_eq_neg_one_of_neg_of_le hLow (by omega)
    have hPos : n / (256 - d) < 0 := Int.ediv_neg_of_neg_of_pos hLow (by omega)
    have hLarge : n ≤ n / (256 - d) := by
      rw [Int.le_ediv_iff_mul_le (by omega)]
      nlinarith
    obtain ⟨k, hk⟩ := hWrap (-(n / (256 - d)))
    omega
  · have hQuot : n / d = 0 := Int.ediv_eq_zero_of_lt hNonneg (by omega)
    rw [hQuot, Int.zero_mul, IntType.wrap_of_has T.has_zero, Int.sub_zero, IntType.wrap_of_has hn,
      Int.emod_eq_of_lt hNonneg (by omega)]
    rcases Int.lt_or_le n (256 - d) with hSmall | hLarge
    · rw [Int.ediv_eq_zero_of_lt hNonneg hSmall]
      exact iff_of_true ⟨rfl, IntType.wrap_of_has T.has_zero⟩ ⟨hNonneg, hSmall⟩
    · refine iff_of_false (fun h => ?_) fun h => by omega
      have hPos : 1 ≤ n / (256 - d) := (Int.le_ediv_iff_mul_le (by omega)).mpr (by omega)
      have hLe := Int.ediv_le_self (256 - d) hNonneg
      obtain ⟨k, hk⟩ := hWrap (-(n / (256 - d)))
      omega

/-- Other divisors are the same number in the type of the numerator. -/
theorem divides_exactly_of_same (hBits : T.bits = 8 ∨ T.bits = 16 ∨ T.bits = 32) (hn : T.Has n) (hd : 1 ≤ d)
    (hd' : d ≤ 255) (hOne : ¬ (T.signed = true ∧ d = 1 ∧ n ≤ 0))
    (hHigh : ¬ (T.signed = true ∧ T.bits = 8 ∧ 128 ≤ d)) : DividesExactly T n d := by
  have hQuot := IntType.has_ediv hn (by omega : 0 < d)
  have hDivisor : T.wrap d = d := by rw [wrap_divisor (by omega) hd hd', if_neg hHigh]
  have hDivisorHas : T.Has d := hDivisor ▸ T.has_wrap d
  have hRest : T.wrap (n - T.wrap (n / d * d)) = n % d := by
    rw [wrap_remainder, IntType.wrap_of_has (IntType.has_emod hDivisorHas (by omega))]
  rw [DividesExactly, fast_integer_modulo, fast_integer_divide_runtime hBits hn hd hd', if_neg hOne,
    fast_integer_divide_const (by omega) hd hd', matched_eq (by omega), hDivisor, IntType.wrap_of_has hQuot]
  exact ⟨rfl, congrArg some hRest, rfl⟩

/-- Division by the tables is exact unless a number that is not positive is divided by one, or
the divisor has a sign as a numerator of eight bits, and the numerator reaches it. -/
theorem divides_exactly_iff (hBits : T.bits = 8 ∨ T.bits = 16 ∨ T.bits = 32) (hn : T.Has n) (hd : 1 ≤ d)
    (hd' : d ≤ 255) : DividesExactly T n d ↔
      (T.signed = true → (d = 1 → 0 < n) ∧ (T.bits = 8 → 128 ≤ d → 0 ≤ n ∧ n < 256 - d)) := by
  cases hSigned : T.signed with
  | false =>
    refine iff_of_true (divides_exactly_of_same hBits hn hd hd' ?_ ?_) fun h => absurd h Bool.false_ne_true
    · simp [hSigned]
    · simp [hSigned]
  | true =>
    by_cases hHigh : T.bits = 8 ∧ 128 ≤ d
    · rw [divides_exactly_iff_of_high hHigh.1 hSigned hn hHigh.2 hd']
      constructor
      · exact fun h _ => ⟨fun hOne => by omega, fun _ _ => h⟩
      · exact fun h => (h rfl).2 hHigh.1 hHigh.2
    · by_cases hOne : d = 1 ∧ n ≤ 0
      · refine iff_of_false (fun h => ?_) fun h => by
          have := (h rfl).1 hOne.1
          omega
        have hQuot := h.1
        rw [fast_integer_divide_runtime hBits hn hd hd', if_pos ⟨hSigned, hOne⟩, hOne.1, Int.ediv_one,
          Option.some.injEq] at hQuot
        omega
      · refine iff_of_true (divides_exactly_of_same hBits hn hd hd' (fun h => hOne h.2) fun h => hHigh h.2)
          fun _ => ⟨fun h => by omega, fun h h' => absurd ⟨h, h'⟩ hHigh⟩

/-- A negative number of 16 bits and a divisor. -/
theorem divides_exactly_iff_seven : DividesExactly { signed := true, bits := 16 } (-20) 7 :=
  (divides_exactly_iff (Or.inr (Or.inl rfl)) (by decide) (by decide) (by decide)).mpr
    fun _ => ⟨fun h => absurd h (by decide), fun h => absurd h (by decide)⟩

/-- A negative number divided by one has its bits flipped. -/
theorem fast_integer_divide_one :
    fast_integer_divide .int32 false (-5) 1 = some 4 ∧ ¬ DividesExactly .int32 (-5) 1 := by
  have hFlipped : fast_integer_divide .int32 false (-5) 1 = some 4 := by decide +kernel
  refine ⟨hFlipped, fun h => ?_⟩
  have hQuot := h.1
  rw [hFlipped] at hQuot
  exact absurd hQuot (by decide)

end Vyasa.IntegerDivision
