import Mathlib.Algebra.Order.Ring.Nat
import Mathlib.Tactic.Ring

/-! Division of bounded numbers by a multiplication and a shift. -/
namespace Euclid

/-- The multiplier `M` and the shift `k` divide by `d` up to `N`: what the multiplier is too
large by does not carry over into the quotient, neither in the last block of `d` numbers nor
at the end of the block before it. -/
structure Reciprocal (N d M k : ℕ) : Prop where
  large : 2 ^ k ≤ M * d
  last : N / d * (M * d - 2 ^ k) + N % d * M < 2 ^ k
  block : d ≤ N → (N / d - 1) * (M * d - 2 ^ k) + (d - 1) * M < 2 ^ k

instance (N d M k : ℕ) : Decidable (Reciprocal N d M k) :=
  decidable_of_iff (2 ^ k ≤ M * d ∧ N / d * (M * d - 2 ^ k) + N % d * M < 2 ^ k ∧
    (d ≤ N → (N / d - 1) * (M * d - 2 ^ k) + (d - 1) * M < 2 ^ k))
    ⟨fun h => ⟨h.1, h.2.1, h.2.2⟩, fun h => ⟨h.large, h.last, h.block⟩⟩

variable {N n d M k : ℕ}

/-- The excess of a product over its quotient stays below a whole. -/
theorem Reciprocal.excess (h : Reciprocal N d M k) (hd : 0 < d) (hn : n ≤ N) :
    n / d * (M * d - 2 ^ k) + n % d * M < 2 ^ k := by
  have hMod := Nat.mod_lt n hd
  have hLe : n / d ≤ N / d := Nat.div_le_div_right hn
  rcases Nat.eq_or_lt_of_le hLe with hSame | hLess
  · -- In the last block the remainder is bounded by that of the end.
    have hRest : n % d ≤ N % d := by
      have hStep := Nat.div_add_mod n d
      have hEnd := Nat.div_add_mod N d
      rw [hSame] at hStep
      omega
    have hMul : n % d * M ≤ N % d * M := Nat.mul_le_mul_right M hRest
    have := h.last
    rw [hSame]
    omega
  · have hBlock := h.block (Nat.le_of_not_lt fun hLt => by simp [Nat.div_eq_of_lt hLt] at hLess)
    have hQuotient : n / d * (M * d - 2 ^ k) ≤ (N / d - 1) * (M * d - 2 ^ k) :=
      Nat.mul_le_mul_right _ (by omega)
    have hRest : n % d * M ≤ (d - 1) * M := Nat.mul_le_mul_right M (by omega)
    omega

theorem Reciprocal.mul_div (h : Reciprocal N d M k) (hd : 0 < d) (hn : n ≤ N) : n * M / 2 ^ k = n / d := by
  have hExcess := h.excess hd hn
  have hProduct : n * M = n / d * (M * d - 2 ^ k) + n % d * M + 2 ^ k * (n / d) := by
    have hWhole : M * d - 2 ^ k + 2 ^ k = M * d := Nat.sub_add_cancel h.large
    calc n * M = (d * (n / d) + n % d) * M := by rw [Nat.div_add_mod]
      _ = n / d * (M * d) + n % d * M := by ring
      _ = n / d * (M * d - 2 ^ k + 2 ^ k) + n % d * M := by rw [hWhole]
      _ = n / d * (M * d - 2 ^ k) + n % d * M + 2 ^ k * (n / d) := by ring
  rw [hProduct, Nat.add_mul_div_left _ _ (Nat.two_pow_pos k), Nat.div_eq_of_lt hExcess, Nat.zero_add]

/-- The high part of a product, then shifted. -/
theorem Reciprocal.high_shift {b s : ℕ} (h : Reciprocal N d M (b + s)) (hd : 0 < d) (hn : n ≤ N) :
    M * n / 2 ^ b / 2 ^ s = n / d := by
  rw [Nat.div_div_eq_div_mul, ← Nat.pow_add, Nat.mul_comm]
  exact h.mul_div hd hn

/-- The high part of a product, averaged with the number, then shifted: the multiplier has a
further bit that does not fit the word. -/
theorem Reciprocal.average_shift {m b s : ℕ} (h : Reciprocal N d (2 ^ b + m) (b + 1 + s)) (hd : 0 < d)
    (hn : n ≤ N) : (m * n / 2 ^ b + n) / 2 / 2 ^ s = n / d := by
  have hSum : m * n / 2 ^ b + n = n * (2 ^ b + m) / 2 ^ b := by
    rw [Nat.mul_add, Nat.add_comm, Nat.mul_comm n (2 ^ b), Nat.mul_add_div (Nat.two_pow_pos b), Nat.mul_comm n m]
  have hShift : 2 ^ b * (2 * 2 ^ s) = 2 ^ (b + 1 + s) := by rw [Nat.pow_add, Nat.pow_succ, Nat.mul_assoc]
  rw [hSum, Nat.div_div_eq_div_mul, Nat.div_div_eq_div_mul, hShift]
  exact h.mul_div hd hn

/-- A quotient by that of the number with its bits flipped. -/
theorem flip_div {d : ℤ} (hd : 0 < d) (n : ℤ) : -1 - (-1 - n) / d = n / d := by
  rcases Int.le_total 0 n with hn | hn
  · obtain ⟨m, rfl⟩ := Int.eq_ofNat_of_zero_le hn
    have hFlip : -1 - (m : ℤ) = Int.negSucc m := by omega
    have hQuot : ((m : ℤ) / d) = Int.ediv m d := rfl
    rw [hFlip, Int.negSucc_ediv m hd, ← hQuot]
    omega
  · obtain ⟨m, hm⟩ := Int.eq_ofNat_of_zero_le (Int.neg_nonneg_of_nonpos hn)
    obtain _ | m := m
    · obtain rfl : n = 0 := by omega
      have hOne : -1 / d = -1 := Int.ediv_eq_neg_one_of_neg_of_le (by omega) (by omega)
      rw [Int.zero_ediv, Int.sub_zero, hOne]
      rfl
    · obtain rfl : n = Int.negSucc m := by omega
      have hFlip : -1 - Int.negSucc m = (m : ℤ) := by omega
      have hQuot : ((m : ℤ) / d) = Int.ediv m d := rfl
      rw [hFlip, Int.negSucc_ediv m hd, ← hQuot]
      omega

end Euclid
