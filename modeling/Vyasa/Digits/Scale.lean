import Mathlib.Data.Nat.Digits.Lemmas

/-! Multiplying a number by a small factor on its digits, with a carry that ripples up from the lowest one. -/
namespace Vyasa.Digits

/-- The digits of the product, the lowest first, and what is carried out of them. -/
def scale (b k : ℕ) : ℕ → List ℕ → List ℕ × ℕ
  | carry, [] => ([], carry)
  | carry, d :: ds =>
    let rest := scale b k ((k * d + carry) / b) ds
    ((k * d + carry) % b :: rest.1, rest.2)

variable {b k carry : ℕ} {ds : List ℕ}

theorem length_scale (b k carry : ℕ) (ds : List ℕ) : (scale b k carry ds).1.length = ds.length := by
  induction ds generalizing carry with
  | nil => rfl
  | cons d ds ih => rw [scale, List.length_cons, List.length_cons, ih]

theorem scale_lt_base (hb : 0 < b) : ∀ d ∈ (scale b k carry ds).1, d < b := by
  induction ds generalizing carry with
  | nil => exact fun _ h => absurd h List.not_mem_nil
  | cons d ds ih =>
    rw [scale]
    intro c hc
    rcases List.mem_cons.mp hc with rfl | hc
    · exact Nat.mod_lt _ hb
    · exact ih c hc

/-- What is carried stays below the factor. -/
theorem carry_scale_lt (hCarry : carry < k) (hDigits : ∀ d ∈ ds, d < b) : (scale b k carry ds).2 < k := by
  induction ds generalizing carry with
  | nil => exact hCarry
  | cons d ds ih =>
    have hd := hDigits d List.mem_cons_self
    refine ih ?_ fun c hc => hDigits c (List.mem_cons_of_mem _ hc)
    rw [Nat.div_lt_iff_lt_mul (Nat.zero_lt_of_lt hd)]
    calc k * d + carry < k * d + k := Nat.add_lt_add_left hCarry _
      _ = k * (d + 1) := (Nat.mul_succ k d).symm
      _ ≤ k * b := Nat.mul_le_mul_left k hd

theorem ofDigits_scale (b k carry : ℕ) (ds : List ℕ) :
    Nat.ofDigits b (scale b k carry ds).1 + b ^ ds.length * (scale b k carry ds).2 = k * Nat.ofDigits b ds + carry := by
  induction ds generalizing carry with
  | nil => rw [scale, Nat.ofDigits_nil, List.length_nil, pow_zero, one_mul, mul_zero]
  | cons d ds ih =>
    rw [scale, Nat.ofDigits_cons, Nat.ofDigits_cons, List.length_cons]
    calc (k * d + carry) % b + b * Nat.ofDigits b (scale b k ((k * d + carry) / b) ds).1 +
          b ^ (ds.length + 1) * (scale b k ((k * d + carry) / b) ds).2
        = (k * d + carry) % b + b * (Nat.ofDigits b (scale b k ((k * d + carry) / b) ds).1 +
          b ^ ds.length * (scale b k ((k * d + carry) / b) ds).2) := by ring
      _ = (k * d + carry) % b + b * ((k * d + carry) / b) + k * (b * Nat.ofDigits b ds) := by rw [ih]; ring
      _ = k * (d + b * Nat.ofDigits b ds) + carry := by rw [Nat.mod_add_div]; ring

/-- On the digits of a number the loop gives those of the product, with the carry in front. -/
theorem digits_mul (hb : 1 < b) (hk : 0 < k) (hLe : k ≤ b) (n : ℕ) :
    Nat.digits b (k * n) =
      (scale b k 0 (Nat.digits b n)).1 ++ Nat.digits b (scale b k 0 (Nat.digits b n)).2 := by
  have hValue := ofDigits_scale b k 0 (Nat.digits b n)
  have hLength := length_scale b k 0 (Nat.digits b n)
  have hDigits : ∀ d ∈ (scale b k 0 (Nat.digits b n)).1, d < b := scale_lt_base (Nat.zero_lt_of_lt hb)
  have hCarry : (scale b k 0 (Nat.digits b n)).2 < k := carry_scale_lt hk fun d hd => Nat.digits_lt_base hb hd
  generalize scale b k 0 (Nat.digits b n) = r at hValue hLength hDigits hCarry ⊢
  obtain ⟨ds, carry⟩ := r
  dsimp only at hValue hLength hDigits hCarry ⊢
  rw [Nat.ofDigits_digits, add_zero] at hValue
  rcases Nat.eq_zero_or_pos carry with rfl | hPos
  · rw [mul_zero, add_zero] at hValue
    rw [Nat.digits_zero, List.append_nil]
    have hUpper : (Nat.digits b (k * n)).length ≤ ds.length := by
      rw [Nat.digits_length_le_iff hb, ← hValue]
      exact Nat.ofDigits_lt_base_pow_length hb hDigits
    have hLower : ds.length ≤ (Nat.digits b (k * n)).length := by
      rw [hLength]
      exact Nat.le_length_digits_le b n (k * n) (Nat.le_mul_of_pos_left n hk)
    refine Nat.ofDigits_inj_of_len_eq hb (hUpper.antisymm hLower) (fun d hd => Nat.digits_lt_base hb hd) hDigits ?_
    rw [Nat.ofDigits_digits, hValue]
  · have hSingle : Nat.digits b carry = [carry] := Nat.digits_of_lt b carry hPos.ne' (hCarry.trans_le hLe)
    have hSum : k * n = Nat.ofDigits b (ds ++ [carry]) := by
      rw [Nat.ofDigits_append, Nat.ofDigits_singleton, hLength, hValue]
    rw [hSingle, hSum]
    refine Nat.digits_ofDigits b hb _ (fun d hd => ?_) fun hNil => ?_
    · rcases List.mem_append.mp hd with hd | hd
      · exact hDigits d hd
      · exact List.mem_singleton.mp hd ▸ hCarry.trans_le hLe
    · rw [List.getLast_append_of_ne_nil _ (List.cons_ne_nil _ _), List.getLast_singleton]
      exact hPos.ne'

end Vyasa.Digits
