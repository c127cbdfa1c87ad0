import Vyasa.ToString.Doubling
import Vyasa.ToString.Truncates

/-! Doubles in decimal, and that those without a fraction are printed exactly. -/
namespace Vyasa.ToString

/-! ### The code -/

def mantissa (bits : BitVec 64) : BitVec 64 := bits &&& (((1 : BitVec 64) <<< 52) - 1)

def biased_exponent (bits : BitVec 64) : ℕ := ((bits >>> 52) &&& 2047).toNat

def negative (bits : BitVec 64) : Bool := bits >>> 63 ≠ 0

/-- The texts of infinities, zeros, and what is no number. -/
def special (bits : BitVec 64) (scientific : Bool) : Option String :=
  if biased_exponent bits = 2047 then
    if mantissa bits ≠ 0 then
      if negative bits then some "-nan" else some "nan"
    else
      if negative bits then some "-inf" else some "inf"
  else if biased_exponent bits = 0 ∧ mantissa bits = 0 then
    if scientific then
      if negative bits then some "-0.000000e+00" else some "0.000000e+00"
    else
      if negative bits then some "-0.000000" else some "0.000000"
  else none

/-- No double needs more than 350 steps to come to its first digit. -/
def scaleUp : (fuel : ℕ) → (arg : Float) → (exponent_base_10 : ℤ) → Option (Float × ℤ)
  | 0, _, _ => none
  | fuel + 1, arg, exponent_base_10 =>
    if arg < 1 then scaleUp fuel (arg * 10) (exponent_base_10 - 1) else some (arg, exponent_base_10)

def scaleDown : (fuel : ℕ) → (arg : Float) → (exponent_base_10 : ℤ) → Option (Float × ℤ)
  | 0, _, _ => none
  | fuel + 1, arg, exponent_base_10 =>
    if arg ≥ 10 then scaleDown fuel (arg / 10) (exponent_base_10 + 1) else some (arg, exponent_base_10)

def scientificForm (out : Output) (arg : Float) : Option Output := do
  let (arg, exponent_base_10) ← scaleUp 350 arg 0
  let (arg, exponent_base_10) ← scaleDown 350 arg exponent_base_10
  let fixed := (arg * 1000000 + 0.5).toUInt64.toBitVec
  let top_digit := fixed / 1000000
  let other_digits := fixed - top_digit * 1000000
  let out ← halide_int64_to_string out top_digit 1
  let out ← halide_string_to_string out ".".toList
  let out ← halide_int64_to_string out other_digits 6
  let out ← halide_string_to_string out (if exponent_base_10 ≥ 0 then "e+" else "e-").toList
  halide_int64_to_string out (BitVec.ofNat 64 exponent_base_10.natAbs) 2

/-- The integer part, and the first six digits behind the point. The exponent is negative. -/
def splitFraction (n : BitVec 64) (exponent : ℤ) : BitVec 64 × BitVec 64 :=
  let shift := (-exponent).toNat
  let integer_part := if exponent < -52 then 0 else n >>> shift
  let f := (UInt64.ofBitVec (if exponent < -52 then n else n - (integer_part <<< shift))).toFloat
  let multiplier := Float.ofBits (UInt64.ofBitVec ((1000000 : Float).toBits.toBitVec + (BitVec.ofInt 64 exponent <<< 52)))
  let f := f * multiplier + 0.5
  let fractional_part := f.toUInt64
  -- Rounding goes to the even neighbour.
  let fractional_part :=
    if fractional_part.toFloat == f && fractional_part.toBitVec &&& 1 ≠ 0 then fractional_part - 1 else fractional_part
  if fractional_part = 1000000 then (integer_part + 1, 0) else (integer_part, fractional_part.toBitVec)

/-- `scratch` is what the scratch buffer holds before anything is written to it. -/
def fixedForm (scratch : Vector Char 512) (out : Output) (bits : BitVec 64) : Option Output :=
  -- The recursive call for zero.
  if biased_exponent bits = 0 then halide_string_to_string out "0.000000".toList
  else do
    let n := mantissa bits + ((1 : BitVec 64) <<< 52)
    let exponent : ℤ := biased_exponent bits - 1023 - 52
    let (integer_part, integer_exponent, fractional_part) :=
      if exponent < 0 then ((splitFraction n exponent).1, (0 : ℤ), (splitFraction n exponent).2) else (n, exponent, 0)
    let int_part ← halide_int64_to_string ⟨scratch.toList, 512 - 32⟩ integer_part 1
    let (buf, int_part_ptr) ← double int_part.dst integer_exponent.toNat (512 - 32) int_part.bytes
    let out ← halide_string_to_string out (buf.drop int_part_ptr)
    let out ← halide_string_to_string out ".".toList
    halide_int64_to_string out fractional_part 6

def halide_double_to_string (scratch : Vector Char 512) (out : Output) (bits : BitVec 64) (scientific : Bool) :
    Option Output :=
  match special bits scientific with
  | some name => halide_string_to_string out name.toList
  | none => do
    let arg := Float.ofBits (UInt64.ofBitVec bits)
    let out ← if negative bits then halide_string_to_string out "-".toList else some out
    let arg := if negative bits then -arg else arg
    if scientific then scientificForm out arg else fixedForm scratch out bits

/-! ### Doubles without a fraction -/

/-- The double `(-1)^sign * n * 2^e`. -/
def toBits (sign : Bool) (n e : ℕ) : BitVec 64 :=
  BitVec.ofNat 64 (sign.toNat * 2 ^ 63 + (e + 1075) * 2 ^ 52 + (n - 2 ^ 52))

variable {sign : Bool} {n e v : ℕ}

theorem toNat_mantissa (bits : BitVec 64) : (mantissa bits).toNat = bits.toNat % 2 ^ 52 := by
  rw [mantissa, BitVec.toNat_and]
  exact Nat.and_two_pow_sub_one_eq_mod bits.toNat 52

theorem biased_exponent_eq (bits : BitVec 64) : biased_exponent bits = bits.toNat / 2 ^ 52 % 2 ^ 11 := by
  rw [biased_exponent, BitVec.toNat_and, BitVec.toNat_ushiftRight, Nat.shiftRight_eq_div_pow]
  exact Nat.and_two_pow_sub_one_eq_mod _ 11

theorem negative_eq (bits : BitVec 64) : negative bits = decide (2 ^ 63 ≤ bits.toNat) := by
  have hZero : bits >>> 63 = 0 ↔ bits.toNat / 2 ^ 63 = 0 := by
    rw [← BitVec.toNat_inj, BitVec.toNat_ushiftRight, Nat.shiftRight_eq_div_pow]
    rfl
  rw [negative, decide_eq_decide, ne_eq, hZero, Nat.div_eq_zero_iff]
  omega

section Fields

variable (hHigh : n < 2 ^ 53) (he : e ≤ 971)

include hHigh he

theorem toNat_toBits : (toBits sign n e).toNat = sign.toNat * 2 ^ 63 + (e + 1075) * 2 ^ 52 + (n - 2 ^ 52) := by
  rw [toBits, BitVec.toNat_ofNat]
  refine Nat.mod_eq_of_lt ?_
  have hSign := sign.toNat_le
  omega

theorem mantissa_toBits (hLow : 2 ^ 52 ≤ n) :
    mantissa (toBits sign n e) + ((1 : BitVec 64) <<< 52) = BitVec.ofNat 64 n := by
  apply BitVec.eq_of_toNat_eq
  rw [BitVec.toNat_add, toNat_mantissa, toNat_toBits hHigh he, BitVec.toNat_ofNat,
    show ((1 : BitVec 64) <<< 52).toNat = 2 ^ 52 from rfl]
  omega

theorem biased_exponent_toBits : biased_exponent (toBits sign n e) = e + 1075 := by
  rw [biased_exponent_eq, toNat_toBits hHigh he]
  have hSign := sign.toNat_le
  omega

theorem negative_toBits : negative (toBits sign n e) = sign := by
  rw [negative_eq, toNat_toBits hHigh he]
  cases sign with
  | false => exact decide_eq_false (by rw [Bool.toNat_false]; omega)
  | true => exact decide_eq_true (by rw [Bool.toNat_true]; omega)

theorem special_toBits (scientific : Bool) : special (toBits sign n e) scientific = none := by
  rw [special, biased_exponent_toBits hHigh he, if_neg (by omega), if_neg (by omega)]

end Fields

/-! ### The digits -/

theorem decimal_eq_text (hv : 0 < v) : decimal 1 v = text v := by
  have hCount : 0 < (Nat.digits 10 v).length := List.length_pos_iff.mpr (Nat.digits_ne_nil_iff_ne_zero.mpr hv.ne')
  rw [decimal, show (1 : ℤ).toNat - (Nat.digits 10 v).length = 0 from Nat.sub_eq_zero_of_le hCount, List.replicate_zero,
    List.append_nil, text, written]

theorem text_eq_toDigits (hv : 0 < v) : text v = Nat.toDigits 10 v := by
  induction v using Nat.strong_induction_on with
  | _ v ih =>
    rw [text, Nat.digits_def' (by decide) hv, written_cons, Nat.toDigits_eq_if (by decide)]
    by_cases hSmall : v < 10
    · rw [if_pos hSmall, Nat.div_eq_of_lt hSmall, Nat.digits_zero, Nat.mod_eq_of_lt hSmall]
      rfl
    · rw [if_neg hSmall, ← text, ih (v / 10) (by omega) (by omega)]

theorem nul_not_mem_text (v : ℕ) : nul ∉ text v := by
  rcases Nat.eq_zero_or_pos v with rfl | hv
  · rw [text, Nat.digits_zero]
    exact List.not_mem_nil
  · rw [← decimal_eq_text hv]
    exact nul_not_mem_decimal 1 v

/-- Ten binary digits need no more than four decimal ones. -/
theorem lt_digits {room : ℕ} (hHigh : n < 2 ^ 53) (he : e ≤ 971) (hRoom : 412 ≤ room) : 2 ^ e * n < 10 ^ room := by
  have hGroups : 4 * ((e + 53) / 10 + 1) ≤ room := by omega
  calc 2 ^ e * n < 2 ^ e * 2 ^ 53 := Nat.mul_lt_mul_of_pos_left hHigh (Nat.two_pow_pos e)
    _ = 2 ^ (e + 53) := (pow_add 2 e 53).symm
    _ ≤ 2 ^ (10 * ((e + 53) / 10 + 1)) := Nat.pow_le_pow_right (by decide) (by omega)
    _ = (2 ^ 10) ^ ((e + 53) / 10 + 1) := pow_mul 2 10 _
    _ ≤ (10 ^ 4) ^ ((e + 53) / 10 + 1) := Nat.pow_le_pow_left (by decide) _
    _ = 10 ^ (4 * ((e + 53) / 10 + 1)) := (pow_mul 10 4 _).symm
    _ ≤ 10 ^ room := Nat.pow_le_pow_right (by decide) hGroups

/-- The scratch buffer ends up with the number in it, whatever it held before. -/
theorem scratch_spec (scratch : Vector Char 512) (hLow : 2 ^ 52 ≤ n) (hHigh : n < 2 ^ 53) (he : e ≤ 971) :
    ∃ int_part buf int_part_ptr,
      halide_int64_to_string ⟨scratch.toList, 512 - 32⟩ (BitVec.ofNat 64 n) 1 = some int_part ∧
      double int_part.dst e (512 - 32) int_part.bytes = some (buf, int_part_ptr) ∧
      cText (buf.drop int_part_ptr) = text (2 ^ e * n) := by
  have hNat : (BitVec.ofNat 64 n).toNat = n := by
    rw [BitVec.toNat_ofNat]
    exact Nat.mod_eq_of_lt (hHigh.trans (by decide))
  have hInt : ¬ (BitVec.ofNat 64 n).toInt < 0 := by
    rw [BitVec.toInt_eq_toNat_cond, hNat, if_pos (by omega)]
    omega
  have hPrint : halide_int64_to_string ⟨scratch.toList, 512 - 32⟩ (BitVec.ofNat 64 n) 1 =
      halide_string_to_string ⟨scratch.toList, 512 - 32⟩ (text n) := by
    rw [print_signed _ (by decide), signed, if_neg hInt, hNat, decimal_eq_text (by omega)]
    rfl
  have hLength : scratch.toList.length = 512 := scratch.length_toList
  have hFront : (scratch.toList.take 480).length = 480 := by
    rw [List.length_take, hLength]
    rfl
  have hOpen : Open 512 (scratch.toList.take 480) ⟨scratch.toList, 480⟩ := by
    refine ⟨(begun_iff (by rw [hFront]; decide)).mpr ⟨hLength, hFront.symm, by rw [hFront]⟩, fun hFull => ?_⟩
    rw [hFront] at hFull
    omega
  obtain ⟨int_part, hString, hHolds⟩ := string_spec (by decide) hOpen (text n)
  have hDigits : (text n).length ≤ 16 := by
    rw [text, length_written, Nat.digits_length_le_iff (by decide)]
    exact hHigh.trans (by decide)
  have hPrinted : (scratch.toList.take 480 ++ text n).length = 480 + (text n).length := by
    rw [List.length_append, hFront]
  rw [cText_of_clean (nul_not_mem_text n)] at hHolds
  obtain ⟨hBytes, hDst, hTake⟩ := (begun_iff (by rw [hPrinted]; omega)).mp hHolds.toBegun
  have hEnded := hHolds.ended
  rw [min_eq_left (by rw [hPrinted]; omega)] at hEnded
  obtain ⟨hLt, hNul⟩ := List.getElem?_eq_some_iff.mp hEnded
  obtain ⟨behind, hBehind⟩ : ∃ behind, int_part.bytes = scratch.toList.take 480 ++ text n ++ nul :: behind := by
    refine ⟨int_part.bytes.drop ((scratch.toList.take 480 ++ text n).length + 1), ?_⟩
    conv_lhs => rw [← List.take_append_drop (scratch.toList.take 480 ++ text n).length int_part.bytes,
      ← List.getElem_cons_drop hLt, hNul, hTake]
  have hFits : (Nat.digits 10 (2 ^ e * n)).length ≤ (scratch.toList.take 480).length + (Nat.digits 10 n).length := by
    rw [hFront]
    refine le_trans ?_ (Nat.le_add_right _ _)
    rw [Nat.digits_length_le_iff (by decide)]
    exact lt_digits hHigh he (by decide)
  obtain ⟨front, hDouble, -⟩ := double_spec (nul :: behind) hFits
  refine ⟨int_part, front ++ text (2 ^ e * n) ++ nul :: behind, front.length, hPrint.trans hString, ?_, ?_⟩
  · rw [hFront, ← hBehind] at hDouble
    rw [hDst, hPrinted, hDouble]
  · rw [List.append_assoc, List.drop_left, cText, List.takeWhile_append_of_pos, List.takeWhile_cons_of_neg (by simp),
      List.append_nil]
    exact fun c hc => decide_eq_true fun hEq => nul_not_mem_text _ (hEq ▸ hc)

/-! ### The text -/

/-- The number in decimal, with six zeros behind the point. -/
def exactText (sign : Bool) (n e : ℕ) : List Char :=
  (if sign then ['-'] else []) ++ Nat.toDigits 10 (n * 2 ^ e) ++ ".000000".toList

def exactPieces (sign : Bool) (n e : ℕ) : List Piece :=
  (if sign then [.string "-".toList] else []) ++ [.string (text (2 ^ e * n)), .string ".".toList, .string (decimal 6 0)]

theorem texts_exactPieces (hn : 0 < n) : texts (exactPieces sign n e) = exactText sign n e := by
  have hPos : 0 < 2 ^ e * n := Nat.mul_pos (Nat.two_pow_pos e) hn
  have hText : cText (text (2 ^ e * n)) = Nat.toDigits 10 (n * 2 ^ e) := by
    rw [cText_of_clean (nul_not_mem_text _), text_eq_toDigits hPos, mul_comm]
  have hPoint : cText ".".toList ++ (cText (decimal 6 0) ++ []) = ".000000".toList := by
    rw [decimal, Nat.digits_zero]
    rfl
  have hSign : (if sign then [Piece.string "-".toList] else []).flatMap Piece.text = if sign then ['-'] else [] := by
    cases sign <;> rfl
  rw [texts, exactPieces, exactText, List.flatMap_append, hSign, List.flatMap_cons, List.flatMap_cons, List.flatMap_cons,
    List.flatMap_nil, Piece.text, Piece.text, Piece.text, hText, hPoint, List.append_assoc]

theorem exactPieces_strings : ∀ p ∈ exactPieces sign n e, ∃ s, p = .string s := by
  intro p hp
  rw [exactPieces, List.mem_append] at hp
  rcases hp with hp | hp
  · cases sign with
    | false => exact absurd hp List.not_mem_nil
    | true => exact ⟨_, List.mem_singleton.mp hp⟩
  · simp only [List.mem_cons, List.not_mem_nil, or_false] at hp
    rcases hp with rfl | rfl | rfl <;> exact ⟨_, rfl⟩

theorem print_double (scratch : Vector Char 512) (hLow : 2 ^ 52 ≤ n) (hHigh : n < 2 ^ 53) (he : e ≤ 971) (out : Output) :
    halide_double_to_string scratch out (toBits sign n e) false = printAll (exactPieces sign n e) out := by
  obtain ⟨int_part, buf, int_part_ptr, hPrint, hDouble, hText⟩ := scratch_spec scratch hLow hHigh he
  have hExponent : ((e + 1075 : ℕ) : ℤ) - 1023 - 52 = e := by
    push_cast
    ring
  have hZero (out : Output) : halide_int64_to_string out 0 6 = halide_string_to_string out (decimal 6 0) := by
    rw [print_signed _ (by decide)]
    rfl
  have hFixed (out : Output) : fixedForm scratch out (toBits sign n e) =
      printAll [.string (text (2 ^ e * n)), .string ".".toList, .string (decimal 6 0)] out := by
    have hDigits (out : Output) : halide_string_to_string out (buf.drop int_part_ptr) =
        halide_string_to_string out (text (2 ^ e * n)) := by
      rw [← string_cText, hText]
    rw [fixedForm, biased_exponent_toBits hHigh he, if_neg (by omega), mantissa_toBits hHigh he hLow]
    simp only [hExponent, if_neg (not_lt.mpr (Int.natCast_nonneg e)), hPrint, Int.toNat_natCast, hDouble, hDigits,
      printAll, print_string, hZero, Option.bind_eq_bind, Option.bind_some, Option.bind_fun_some]
  rw [halide_double_to_string, special_toBits hHigh he, exactPieces, printAll_append]
  simp only [negative_toBits hHigh he, Bool.false_eq_true, if_false, hFixed]
  cases sign with
  | false => rfl
  | true => simp only [if_true, printAll_singleton, print_string, Option.bind_eq_bind]

/-- A double without a fraction is printed as the integer that it is, and the scratch buffer is large enough. -/
theorem double_exact (scratch : Vector Char 512) (sign : Bool) (n e : ℕ) (hLow : 2 ^ 52 ≤ n) (hHigh : n < 2 ^ 53)
    (he : e ≤ 971) (out : Output) (hRoom : out.dst + (exactText sign n e).length < out.bytes.length) :
    ∃ bytes, halide_double_to_string scratch out (toBits sign n e) false =
        some ⟨bytes, out.dst + (exactText sign n e).length⟩ ∧ bytes.length = out.bytes.length ∧
      bytes.take (out.dst + (exactText sign n e).length) = out.bytes.take out.dst ++ exactText sign n e ∧
      bytes[out.dst + (exactText sign n e).length]? = some nul := by
  have hPos : 0 < out.bytes.length := Nat.zero_lt_of_lt hRoom
  have hTaken : (out.bytes.take out.dst).length = out.dst := by
    rw [List.length_take, min_eq_left (by omega)]
  have hOpen : Open out.bytes.length (out.bytes.take out.dst) out := by
    refine ⟨(begun_iff (by omega)).mpr ⟨rfl, hTaken.symm, by rw [hTaken]⟩, fun hFull => ?_⟩
    exact absurd hFull (by omega)
  have hClean : ∀ p ∈ exactPieces sign n e, p.Clean := by
    intro p hp
    obtain ⟨s, rfl⟩ := exactPieces_strings p hp
    trivial
  obtain ⟨out', hPrint, -, hHolds⟩ := printAll_holds hPos hClean hOpen fun before digits after hEq => by
    obtain ⟨s, hString⟩ := exactPieces_strings (.negative digits) (hEq ▸ List.mem_append_right _ List.mem_cons_self)
    exact absurd hString (by simp)
  have hWhole := hHolds (List.append_ne_nil_of_right_ne_nil _ (List.cons_ne_nil _ _))
  rw [texts_exactPieces (by omega)] at hWhole
  have hCount : (out.bytes.take out.dst ++ exactText sign n e).length = out.dst + (exactText sign n e).length := by
    rw [List.length_append, hTaken]
  obtain ⟨hLength, hDst, hTake⟩ := (begun_iff (by rw [hCount]; exact hRoom)).mp hWhole.toBegun
  have hEnded := hWhole.ended
  rw [min_eq_left (by rw [hCount]; omega), hCount] at hEnded
  rw [hCount] at hDst hTake
  refine ⟨out'.bytes, ?_, hLength, hTake, hEnded⟩
  rw [print_double scratch hLow hHigh he, hPrint, ← hDst]

/-- The double -2^53 in 32 bytes. -/
theorem double_exact_large : ∃ bytes, halide_double_to_string (Vector.replicate 512 'x') ⟨List.replicate 32 'x', 0⟩
      (toBits true (2 ^ 52) 1) false = some ⟨bytes, 24⟩ ∧ bytes.length = 32 ∧
    bytes.take 24 = "-9007199254740992.000000".toList ∧ bytes[24]? = some nul := by
  have hText : exactText true (2 ^ 52) 1 = "-9007199254740992.000000".toList := by decide +kernel
  obtain ⟨bytes, hPrint, hLength, hTake, hNul⟩ := double_exact (Vector.replicate 512 'x') true (2 ^ 52) 1 (by decide)
    (by decide) (by decide) ⟨List.replicate 32 'x', 0⟩ (by rw [hText]; decide)
  rw [hText] at hPrint hTake hNul
  exact ⟨bytes, hPrint, hLength, hTake, hNul⟩

end Vyasa.ToString
