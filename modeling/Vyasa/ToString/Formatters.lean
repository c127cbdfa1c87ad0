import Vyasa.ToString.Output
import Mathlib.Data.Nat.Digits.Lemmas
import Mathlib.Tactic.IntervalCases

/-! The formatters of the runtime, and the pieces of text that they print. -/
namespace Vyasa.ToString

/-! ### The code -/

/-- The loop over the digits, from the last one on. There are `room` bytes left of those before the NUL. -/
def digitsLoop (min_digits : ℤ) : (room : ℕ) → (i : ℤ) → (arg : ℕ) → List Char → Option (List Char)
  | 0, i, arg, text => if i < min_digits ∨ arg ≠ 0 then none else some text
  | room + 1, i, arg, text =>
    if i < min_digits ∨ arg ≠ 0 then
      let top := arg / 10
      let bottom := arg - top * 10
      digitsLoop min_digits room (i + 1) top (Char.ofNat (bottom + '0'.toNat) :: text)
    else some text

def halide_uint64_to_string (out : Output) (arg : BitVec 64) (min_digits : ℤ) : Option Output := do
  let digits ← digitsLoop min_digits 31 0 arg.toNat []
  halide_string_to_string out digits

def halide_int64_to_string (out : Output) (arg : BitVec 64) (min_digits : ℤ) : Option Output :=
  if arg.toInt < 0 ∧ out.dst < out.bytes.length then do
    let bytes ← write out.bytes out.dst '-'
    halide_uint64_to_string ⟨bytes, out.dst + 1⟩ (-arg) min_digits
  else halide_uint64_to_string out arg min_digits

/-- The loop over the digits of a pointer, at most `n` of them. -/
def hexLoop : (n : ℕ) → (bits : ℕ) → List Char → List Char
  | 0, _, text => text
  | n + 1, bits, text =>
    let text := "0123456789abcdef".toList.getD (bits % 16) nul :: text
    let bits := bits / 16
    if bits = 0 then text else hexLoop n bits text

def halide_pointer_to_string (out : Output) (arg : BitVec 64) : Option Output :=
  halide_string_to_string out ('0' :: 'x' :: hexLoop 16 arg.toNat [])

structure halide_type_t where
  code : BitVec 8
  bits : BitVec 8
  lanes : BitVec 16

def code_name (t : halide_type_t) : String :=
  match t.code.toNat with
  | 0 => "int"
  | 1 => "uint"
  | 2 => "float"
  | 3 => "handle"
  | _ => "bad_type_code"

def halide_type_to_string (out : Output) (t : halide_type_t) : Option Output := do
  let out ← halide_string_to_string out (code_name t).toList
  let out ← halide_uint64_to_string out (t.bits.zeroExtend 64) 1
  if t.lanes ≠ 1 then
    let out ← halide_string_to_string out "x".toList
    halide_uint64_to_string out (t.lanes.zeroExtend 64) 1
  else some out

structure halide_dimension_t where
  min : BitVec 32
  extent : BitVec 32
  stride : BitVec 32

/-- The entries of `dim` are those below `dimensions`. -/
structure halide_buffer_t where
  device : BitVec 64
  device_interface : BitVec 64
  host : BitVec 64
  flags : BitVec 64
  type : halide_type_t
  dim : List halide_dimension_t

def dimensionsLoop : List halide_dimension_t → Output → Option Output
  | [], out => some out
  | d :: dim, out => do
    let out ← halide_string_to_string out ", \x7b".toList
    let out ← halide_int64_to_string out (d.min.signExtend 64) 1
    let out ← halide_string_to_string out ", ".toList
    let out ← halide_int64_to_string out (d.extent.signExtend 64) 1
    let out ← halide_string_to_string out ", ".toList
    let out ← halide_int64_to_string out (d.stride.signExtend 64) 1
    let out ← halide_string_to_string out "\x7d".toList
    dimensionsLoop dim out

def halide_buffer_to_string (out : Output) : Option halide_buffer_t → Option Output
  | none => halide_string_to_string out "NULL".toList
  | some buf => do
    let out ← halide_string_to_string out "buffer(".toList
    let out ← halide_uint64_to_string out buf.device 1
    let out ← halide_string_to_string out ", ".toList
    let out ← halide_pointer_to_string out buf.device_interface
    let out ← halide_string_to_string out ", ".toList
    let out ← halide_pointer_to_string out buf.host
    let out ← halide_string_to_string out ", ".toList
    let out ← halide_uint64_to_string out buf.flags 1
    let out ← halide_string_to_string out ", ".toList
    let out ← halide_type_to_string out buf.type
    let out ← dimensionsLoop buf.dim out
    halide_string_to_string out ")".toList

/-! ### Numbers -/

/-- A number with at least so many digits. -/
def decimal (min_digits : ℤ) (n : ℕ) : List Char :=
  ((Nat.digits 10 n ++ List.replicate (min_digits.toNat - (Nat.digits 10 n).length) 0).reverse).map Nat.digitChar

variable {m i : ℤ} {n room : ℕ} {written : List Char}

theorem decimal_of_done (hm : m ≤ 0) : decimal m 0 = [] := by
  rw [decimal, Nat.digits_zero, Int.toNat_of_nonpos hm]
  rfl

theorem decimal_of_more (h : 0 < m ∨ n ≠ 0) : decimal m n = decimal (m - 1) (n / 10) ++ [Nat.digitChar (n % 10)] := by
  rw [decimal, decimal]
  rcases Nat.eq_zero_or_pos n with rfl | hn
  · have hm : 0 < m := h.resolve_right fun h => h rfl
    have hCount : m.toNat = (m - 1).toNat + 1 := by omega
    rw [Nat.zero_div, Nat.zero_mod, Nat.digits_zero, List.length_nil, Nat.sub_zero, Nat.sub_zero, hCount,
      List.replicate_succ, List.nil_append, List.nil_append, List.reverse_cons, List.map_append, List.map_singleton]
  · have hCount : m.toNat - ((Nat.digits 10 (n / 10)).length + 1) = (m - 1).toNat - (Nat.digits 10 (n / 10)).length := by
      omega
    rw [Nat.digits_def' (by decide) hn, List.length_cons, hCount, List.cons_append, List.reverse_cons, List.map_append,
      List.map_singleton]

theorem length_decimal (m : ℤ) (n : ℕ) : (decimal m n).length = max m.toNat (Nat.digits 10 n).length := by
  rw [decimal, List.length_map, List.length_reverse, List.length_append, List.length_replicate]
  omega

theorem digit_eq {d : ℕ} (hd : d < 10) : Char.ofNat (d + '0'.toNat) = Nat.digitChar d := by
  interval_cases d <;> rfl

/-- The digits of a number are written as far as there is room for them. -/
theorem digitsLoop_spec (hRoom : (decimal (m - i) n).length ≤ room) :
    digitsLoop m room i n written = some (decimal (m - i) n ++ written) := by
  induction room generalizing i n written with
  | zero =>
    have hDone : ¬ (i < m ∨ n ≠ 0) := by
      intro h
      rw [decimal_of_more (by omega), List.length_append, List.length_singleton] at hRoom
      omega
    rw [digitsLoop, if_neg hDone, List.length_eq_zero_iff.mp (Nat.le_zero.mp hRoom), List.nil_append]
  | succ room ih =>
    rw [digitsLoop]
    by_cases h : i < m ∨ n ≠ 0
    · have hMore := decimal_of_more (m := m - i) (n := n) (by omega)
      have hNext : m - i - 1 = m - (i + 1) := by omega
      have hDigit : n - n / 10 * 10 = n % 10 := by omega
      rw [hMore, List.length_append, List.length_singleton, hNext] at hRoom
      rw [if_pos h]
      simp only [hDigit, digit_eq (Nat.mod_lt n (by decide))]
      rw [ih (Nat.le_of_succ_le_succ hRoom), hMore, hNext, List.append_assoc, List.singleton_append]
    · have hn : n = 0 := by omega
      rw [if_neg h, hn, decimal_of_done (by omega), List.nil_append]

theorem digits_uint64 (arg : BitVec 64) (hm : m ≤ 20) : digitsLoop m 31 0 arg.toNat [] = some (decimal m arg.toNat) := by
  have hCount : (Nat.digits 10 arg.toNat).length ≤ 20 := by
    rw [Nat.digits_length_le_iff (by decide)]
    exact arg.isLt.trans (by decide)
  rw [digitsLoop_spec, sub_zero, List.append_nil]
  rw [sub_zero, length_decimal]
  omega

theorem nul_not_mem_decimal (m : ℤ) (n : ℕ) : nul ∉ decimal m n := by
  rw [decimal, List.mem_map]
  rintro ⟨d, hd, hEq⟩
  rw [List.mem_reverse, List.mem_append, List.mem_replicate] at hd
  have hLt : d < 10 := by
    rcases hd with hd | ⟨-, rfl⟩
    · exact Nat.digits_lt_base (by decide) hd
    · decide
  interval_cases d <;> exact absurd hEq (by decide)

theorem hexDigit_eq {d : ℕ} (hd : d < 16) : "0123456789abcdef".toList.getD d nul = Nat.digitChar d := by
  interval_cases d <;> rfl

/-- The digits of a pointer, without leading zeros. -/
theorem hexLoop_spec {k bits : ℕ} (h : bits < 16 ^ (k + 1)) : hexLoop (k + 1) bits written = Nat.toDigits 16 bits ++ written := by
  induction k generalizing bits written with
  | zero =>
    have hSmall : bits < 16 := h
    rw [hexLoop, Nat.toDigits_of_lt_base hSmall]
    simp only [Nat.mod_eq_of_lt hSmall, hexDigit_eq hSmall, Nat.div_eq_of_lt hSmall, if_pos]
    rfl
  | succ k ih =>
    rw [hexLoop, Nat.toDigits_eq_if (by decide)]
    simp only [hexDigit_eq (Nat.mod_lt bits (by decide : 0 < 16))]
    by_cases hSmall : bits < 16
    · rw [if_pos (Nat.div_eq_of_lt hSmall), if_pos hSmall, Nat.mod_eq_of_lt hSmall]
      rfl
    · have hRest : bits / 16 < 16 ^ (k + 1) := by
        rw [Nat.div_lt_iff_lt_mul (by decide), ← pow_succ]
        exact h
      rw [if_neg (by omega), if_neg hSmall, ih hRest, List.append_assoc, List.singleton_append]

/-! ### Pieces -/

/-- What the formatters print one after the other: strings, and numbers whose sign is written apart. -/
inductive Piece where
  | string (s : List Char)
  | negative (digits : List Char)

namespace Piece

def text : Piece → List Char
  | string s => cText s
  | negative digits => '-' :: digits

def print : Piece → Output → Option Output
  | string s, out => halide_string_to_string out s
  | negative digits, out =>
    if out.dst < out.bytes.length then do
      let bytes ← write out.bytes out.dst '-'
      halide_string_to_string ⟨bytes, out.dst + 1⟩ digits
    else some out

end Piece

def printAll : List Piece → Output → Option Output
  | [], out => some out
  | p :: ps, out => do
    let out ← p.print out
    printAll ps out

theorem printAll_append (ps qs : List Piece) (out : Output) :
    printAll (ps ++ qs) out = (printAll ps out).bind (printAll qs) := by
  induction ps generalizing out with
  | nil => rfl
  | cons p ps ih =>
    rw [List.cons_append, printAll, printAll, Option.bind_eq_bind, Option.bind_assoc]
    simp only [ih]

theorem print_string (s : List Char) (out : Output) :
    (Piece.string s).print out = halide_string_to_string out s := rfl

theorem printAll_singleton (p : Piece) (out : Output) : printAll [p] out = p.print out := by
  rw [printAll, Option.bind_eq_bind]
  exact Option.bind_fun_some _

def unsigned (arg : BitVec 64) (min_digits : ℤ) : Piece := .string (decimal min_digits arg.toNat)

def signed (arg : BitVec 64) (min_digits : ℤ) : Piece :=
  if arg.toInt < 0 then .negative (decimal min_digits arg.toInt.natAbs) else .string (decimal min_digits arg.toNat)

def pointer (arg : BitVec 64) : Piece := .string ('0' :: 'x' :: Nat.toDigits 16 arg.toNat)

def typePieces (t : halide_type_t) : List Piece :=
  [.string (code_name t).toList, unsigned (t.bits.zeroExtend 64) 1] ++
    if t.lanes ≠ 1 then [.string "x".toList, unsigned (t.lanes.zeroExtend 64) 1] else []

def dimensionPieces (d : halide_dimension_t) : List Piece :=
  [.string ", \x7b".toList, signed (d.min.signExtend 64) 1, .string ", ".toList, signed (d.extent.signExtend 64) 1,
    .string ", ".toList, signed (d.stride.signExtend 64) 1, .string "\x7d".toList]

def bufferPieces : Option halide_buffer_t → List Piece
  | none => [.string "NULL".toList]
  | some buf =>
    [.string "buffer(".toList, unsigned buf.device 1, .string ", ".toList, pointer buf.device_interface,
      .string ", ".toList, pointer buf.host, .string ", ".toList, unsigned buf.flags 1, .string ", ".toList] ++
    typePieces buf.type ++ buf.dim.flatMap dimensionPieces ++ [.string ")".toList]

variable {out : Output}

theorem print_unsigned (arg : BitVec 64) (hm : m ≤ 20) : halide_uint64_to_string out arg m = (unsigned arg m).print out := by
  rw [halide_uint64_to_string, digits_uint64 arg hm]
  rfl

/-- The digits of the number without its sign, also of the smallest one. -/
theorem toNat_neg_of_neg {arg : BitVec 64} (h : arg.toInt < 0) : (-arg).toNat = arg.toInt.natAbs := by
  have hLt := arg.isLt
  rw [BitVec.toInt_eq_toNat_cond] at h ⊢
  rw [BitVec.toNat_neg]
  split at h
  · omega
  · next hBig =>
    rw [if_neg hBig]
    omega

theorem print_signed (arg : BitVec 64) (hm : m ≤ 20) : halide_int64_to_string out arg m = (signed arg m).print out := by
  rw [halide_int64_to_string, signed]
  by_cases hNeg : arg.toInt < 0
  · by_cases hRoom : out.dst < out.bytes.length
    · rw [if_pos ⟨hNeg, hRoom⟩, if_pos hNeg, Piece.print, if_pos hRoom]
      simp only [print_unsigned _ hm, unsigned, Piece.print, toNat_neg_of_neg hNeg]
    · rw [if_neg fun h => hRoom h.2, if_pos hNeg, print_unsigned _ hm, Piece.print, if_neg hRoom, unsigned, Piece.print,
        halide_string_to_string, if_pos (not_lt.mp hRoom)]
  · rw [if_neg fun h => hNeg h.1, if_neg hNeg, print_unsigned _ hm]
    rfl

theorem print_pointer (arg : BitVec 64) : halide_pointer_to_string out arg = (pointer arg).print out := by
  rw [halide_pointer_to_string, hexLoop_spec (lt_of_lt_of_le arg.isLt (by decide)), List.append_nil]
  rfl

theorem print_type (t : halide_type_t) : halide_type_to_string out t = printAll (typePieces t) out := by
  have hOne : (1 : ℤ) ≤ 20 := by decide
  rw [halide_type_to_string, typePieces]
  by_cases hLanes : t.lanes ≠ 1
  · simp only [if_pos hLanes, print_unsigned _ hOne, List.cons_append, List.nil_append, printAll, print_string,
      Option.bind_eq_bind, Option.bind_fun_some]
  · simp only [if_neg hLanes, print_unsigned _ hOne, List.append_nil, printAll, print_string, Option.bind_eq_bind]

theorem print_dimensions (dim : List halide_dimension_t) :
    dimensionsLoop dim out = printAll (dim.flatMap dimensionPieces) out := by
  have hOne : (1 : ℤ) ≤ 20 := by decide
  induction dim generalizing out with
  | nil => rfl
  | cons d dim ih =>
    rw [List.flatMap_cons, printAll_append, dimensionsLoop]
    simp only [dimensionPieces, print_signed _ hOne, ih, printAll, print_string, Option.bind_eq_bind,
      Option.bind_assoc, Option.bind_some]

theorem print_buffer (buf : Option halide_buffer_t) :
    halide_buffer_to_string out buf = printAll (bufferPieces buf) out := by
  have hOne : (1 : ℤ) ≤ 20 := by decide
  cases buf with
  | none =>
    rw [halide_buffer_to_string, bufferPieces, printAll_singleton, print_string]
  | some buf =>
    rw [halide_buffer_to_string, bufferPieces]
    simp only [printAll_append, printAll, print_unsigned _ hOne, print_pointer, print_type, print_dimensions,
      print_string, Option.bind_eq_bind, Option.bind_assoc, Option.bind_fun_some]

end Vyasa.ToString
