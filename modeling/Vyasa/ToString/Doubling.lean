import Vyasa.ToString.Formatters
import Vyasa.Digits.Scale

/-! A decimal number in a scratch buffer that is doubled in place, and grows at its front. -/
namespace Vyasa.ToString

/-- One round over the digits. The pointer to the next digit is one below `behind`. -/
def doubleDigits (int_part_ptr : ℕ) : (behind : ℕ) → (carry : ℤ) → List Char → Option (List Char × ℤ)
  | 0, carry, buf => if int_part_ptr = 0 then some (buf, carry) else none
  | p + 1, carry, buf =>
    if p + 1 = int_part_ptr then some (buf, carry)
    else do
      let c ← buf[p]?
      let old_digit := (c.toNat : ℤ) - '0'.toNat
      let new_digit := old_digit * 2 + carry
      let (new_digit, carry) := if new_digit > 9 then (new_digit - 10, 1) else (new_digit, 0)
      let buf ← write buf p (Char.ofNat (new_digit + '0'.toNat).toNat)
      doubleDigits int_part_ptr p carry buf

/-- The rounds, with the place where the number begins after each. -/
def double (buf_end : ℕ) : (rounds : ℕ) → (int_part_ptr : ℕ) → List Char → Option (List Char × ℕ)
  | 0, int_part_ptr, buf => some (buf, int_part_ptr)
  | rounds + 1, int_part_ptr, buf => do
    let (buf, carry) ← doubleDigits int_part_ptr buf_end 0 buf
    if carry ≠ 0 then
      match int_part_ptr with
      | 0 => none
      | int_part_ptr + 1 => do
        let buf ← write buf int_part_ptr '1'
        double buf_end rounds int_part_ptr buf
    else double buf_end rounds int_part_ptr buf

/-! ### One round -/

variable {d carry v rounds : ℕ} {ds : List ℕ} {front behind : List Char}

/-- Digits, of which the lowest is the first, as they are written. -/
def written (ds : List ℕ) : List Char := ds.reverse.map Nat.digitChar

theorem written_cons (d : ℕ) (ds : List ℕ) : written (d :: ds) = written ds ++ [Nat.digitChar d] := by
  rw [written, List.reverse_cons, List.map_append, List.map_singleton, written]

theorem length_written (ds : List ℕ) : (written ds).length = ds.length := by
  rw [written, List.length_map, List.length_reverse]

theorem toNat_digitChar (hd : d < 10) : ((Nat.digitChar d).toNat : ℤ) - '0'.toNat = d := by
  interval_cases d <;> rfl

/-- The code compares and subtracts where the number would be divided. -/
theorem new_digit_eq {n : ℕ} (hn : n < 20) :
    (if (n : ℤ) > 9 then ((n : ℤ) - 10, (1 : ℤ)) else ((n : ℤ), 0)) = (((n % 10 : ℕ) : ℤ), ((n / 10 : ℕ) : ℤ)) := by
  split
  · have hMod : n % 10 = n - 10 := by omega
    have hDiv : n / 10 = 1 := by omega
    rw [hMod, hDiv, Nat.cast_sub (by omega)]
    rfl
  · rw [Nat.mod_eq_of_lt (by omega), Nat.div_eq_of_lt (by omega)]
    rfl

theorem write_middle (front : List Char) (c : Char) (behind : List Char) (c' : Char) :
    write (front ++ c :: behind) front.length c' = some (front ++ c' :: behind) := by
  rw [write, if_pos (by rw [List.length_append, List.length_cons]; omega), List.set_append_right _ _ (le_refl _),
    Nat.sub_self, List.set_cons_zero]

/-- The loop scales the digits by two, whatever stands before and behind them. -/
theorem doubleDigits_spec (hDigits : ∀ d ∈ ds, d < 10) (hCarry : carry < 2) :
    doubleDigits front.length (front.length + ds.length) carry (front ++ written ds ++ behind) =
      some (front ++ written (Digits.scale 10 2 carry ds).1 ++ behind, ((Digits.scale 10 2 carry ds).2 : ℤ)) := by
  induction ds generalizing carry behind with
  | nil =>
    rw [List.length_nil, Nat.add_zero, Digits.scale]
    rcases hFront : front.length with _ | k
    · rw [doubleDigits, if_pos rfl]
    · rw [doubleDigits, if_pos rfl]
  | cons d ds ih =>
    have hd := hDigits d List.mem_cons_self
    have hNext : (2 * d + carry) / 10 < 2 := by omega
    have hDigit : (2 * d + carry) % 10 < 10 := Nat.mod_lt _ (by decide)
    have hPlace : (front ++ written ds).length = front.length + ds.length := by
      rw [List.length_append, length_written]
    have hSplit (c : Char) : front ++ (written ds ++ [c]) ++ behind = (front ++ written ds) ++ c :: behind := by
      simp only [List.append_assoc, List.singleton_append]
    have hRead : ((front ++ written ds) ++ Nat.digitChar d :: behind)[front.length + ds.length]? =
        some (Nat.digitChar d) := by
      rw [← hPlace, List.getElem?_append_right (le_refl _), Nat.sub_self, List.getElem?_cons_zero]
    have hNew : (d : ℤ) * 2 + carry = ((2 * d + carry : ℕ) : ℤ) := by
      push_cast
      ring
    rw [written_cons, List.length_cons, ← Nat.add_assoc, doubleDigits, if_neg (by omega), hSplit, hRead]
    simp only [Option.bind_eq_bind, Option.bind_some, toNat_digitChar hd, hNew,
      new_digit_eq (show 2 * d + carry < 20 by omega)]
    have hChar : Char.ofNat (((2 * d + carry) % 10 : ℕ) + '0'.toNat : ℤ).toNat =
        Nat.digitChar ((2 * d + carry) % 10) := by
      rw [← digit_eq hDigit]
      rfl
    rw [hChar, ← hPlace, write_middle, Option.bind_some, hPlace, List.append_assoc,
      ← List.append_assoc front, ih (fun c hc => hDigits c (List.mem_cons_of_mem _ hc)) hNext, Digits.scale]
    simp only [written_cons, List.append_assoc, List.singleton_append]

/-! ### All rounds -/

def text (v : ℕ) : List Char := written (Nat.digits 10 v)

theorem text_two_mul (v : ℕ) : text (2 * v) =
    written (Nat.digits 10 (Digits.scale 10 2 0 (Nat.digits 10 v)).2) ++
      written (Digits.scale 10 2 0 (Nat.digits 10 v)).1 := by
  rw [text, Digits.digits_mul (by decide) (by decide) (by decide), written, List.reverse_append, List.map_append,
    written, written]

/-- As long as the digits fit, each round doubles the number, and its front moves to make room. -/
theorem double_spec (behind : List Char)
    (hFits : (Nat.digits 10 (2 ^ rounds * v)).length ≤ front.length + (Nat.digits 10 v).length) :
    ∃ front', double (front.length + (text v).length) rounds front.length (front ++ text v ++ behind) =
        some (front' ++ text (2 ^ rounds * v) ++ behind, front'.length) ∧
      front'.length + (text (2 ^ rounds * v)).length = front.length + (text v).length := by
  induction rounds generalizing front v with
  | zero =>
    rw [pow_zero, one_mul]
    exact ⟨front, rfl, rfl⟩
  | succ rounds ih =>
    have hPower : 2 ^ (rounds + 1) * v = 2 ^ rounds * (2 * v) := by ring
    have hDigits : ∀ d ∈ Nat.digits 10 v, d < 10 := fun d hd => Nat.digits_lt_base (by decide) hd
    have hRound : doubleDigits front.length (front.length + (Nat.digits 10 v).length) 0 (front ++ text v ++ behind) =
        some (front ++ written (Digits.scale 10 2 0 (Nat.digits 10 v)).1 ++ behind,
          ((Digits.scale 10 2 0 (Nat.digits 10 v)).2 : ℤ)) := doubleDigits_spec hDigits Nat.zero_lt_two
    have hText := text_two_mul v
    have hCarry : (Digits.scale 10 2 0 (Nat.digits 10 v)).2 < 2 := Digits.carry_scale_lt Nat.zero_lt_two hDigits
    have hLength := Digits.length_scale 10 2 0 (Nat.digits 10 v)
    have hGrows : (Nat.digits 10 (2 * v)).length ≤ (Nat.digits 10 (2 ^ rounds * (2 * v))).length :=
      Nat.le_length_digits_le 10 _ _ (Nat.le_mul_of_pos_left _ (Nat.two_pow_pos rounds))
    have hWritten (w : ℕ) : (text w).length = (Nat.digits 10 w).length := length_written _
    generalize Digits.scale 10 2 0 (Nat.digits 10 v) = r at hRound hText hCarry hLength
    obtain ⟨ds, carry⟩ := r
    dsimp only at hRound hText hCarry hLength
    have hMore := congrArg List.length hText
    rw [hWritten, List.length_append, length_written, length_written] at hMore
    rw [hPower] at hFits ⊢
    rw [double, hWritten v, hRound, Option.bind_eq_bind, Option.bind_some]
    dsimp only
    rcases Nat.eq_zero_or_pos carry with rfl | hPos
    · rw [Nat.digits_zero, List.length_nil, Nat.zero_add] at hMore
      rw [Nat.digits_zero] at hText
      have hSame : front.length + (Nat.digits 10 v).length = front.length + (text (2 * v)).length := by
        rw [hWritten, hMore, hLength]
      rw [if_neg (by decide), hSame, ← List.nil_append (written ds), ← show written [] = [] from rfl, ← hText]
      exact ih (by omega)
    · obtain rfl : carry = 1 := by omega
      rw [show Nat.digits 10 1 = [1] by norm_num, List.length_singleton] at hMore
      rw [show Nat.digits 10 1 = [1] by norm_num] at hText
      obtain ⟨front, c, rfl⟩ : ∃ front' c, front = front' ++ [c] :=
        ⟨_, _, (List.dropLast_concat_getLast (List.ne_nil_of_length_pos (by omega))).symm⟩
      have hMoved : (front ++ [c]).length + (Nat.digits 10 v).length = front.length + (text (2 * v)).length := by
        rw [hWritten, hMore, hLength, List.length_append, List.length_singleton]
        omega
      have hPrepend : write (front ++ [c] ++ written ds ++ behind) front.length '1' =
          some (front ++ text (2 * v) ++ behind) := by
        rw [hText, show written [1] = ['1'] from rfl]
        simp only [List.append_assoc, List.cons_append, List.nil_append, write_middle]
      rw [if_pos (by decide), hMoved, List.length_append, List.length_singleton]
      dsimp only
      rw [hPrepend, Option.bind_eq_bind, Option.bind_some]
      exact ih (by rw [hWritten] at hMoved; omega)

end Vyasa.ToString
