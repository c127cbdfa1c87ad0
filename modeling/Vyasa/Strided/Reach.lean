import Mathlib.Algebra.BigOperators.Group.List.Basic
import Mathlib.Algebra.Group.Prod
import Mathlib.Algebra.Module.NatInt
import Mathlib.Algebra.Order.Group.Int
import Mathlib.Data.Set.Basic
import Mathlib.Tactic.Ring

/-! Nests of loops that each take a number of steps of a stride, and the offsets that they
reach. -/
namespace Strided

variable {G : Type*} [AddCommMonoid G] {n e : ℕ} {v g : G} {s : ℕ × G} {l l' : List (ℕ × G)}

/-- The sums of fewer steps of each stride than its extent. -/
def reach : List (ℕ × G) → Set G
  | [] => {0}
  | s :: l => {g | ∃ i < s.1, ∃ h ∈ reach l, g = i • s.2 + h}

@[simp] theorem mem_reach_nil : g ∈ reach ([] : List (ℕ × G)) ↔ g = 0 := Iff.rfl

@[simp] theorem mem_reach_cons :
    g ∈ reach (s :: l) ↔ ∃ i < s.1, ∃ h ∈ reach l, g = i • s.2 + h := Iff.rfl

/-- The order of the loops does not matter. -/
theorem reach_perm (h : l.Perm l') : reach l = reach l' := by
  induction h with
  | nil => rfl
  | cons s _ ih =>
    ext g
    simp only [mem_reach_cons, ih]
  | swap s t l =>
    ext g
    simp only [mem_reach_cons]
    constructor
    all_goals
      rintro ⟨i, hi, _, ⟨j, hj, h, hh, rfl⟩, rfl⟩
      exact ⟨j, hj, _, ⟨i, hi, h, hh, rfl⟩, add_left_comm ..⟩
  | trans _ _ ih ih' => exact ih.trans ih'

/-- A loop of one turn adds nothing. -/
@[simp] theorem reach_one : reach ((1, v) :: l) = reach l := by
  ext g
  simp

theorem reach_replicate_one (k : ℕ) : reach (List.replicate k (1, v)) = {0} := by
  induction k with
  | zero => rfl
  | succ k ih => rw [List.replicate_succ, reach_one, ih]

theorem reach_append_ones (k : ℕ) : reach (l ++ List.replicate k (1, v)) = reach l := by
  induction l with
  | nil => exact reach_replicate_one k
  | cons s l ih =>
    ext g
    simp only [List.cons_append, mem_reach_cons, ih]

/-- A loop whose stride is where the one below it ends makes one loop with it. -/
theorem reach_fold : reach ((n, v) :: (e, n • v) :: l) = reach ((n * e, v) :: l) := by
  ext g
  simp only [mem_reach_cons]
  constructor
  · rintro ⟨i, hi, _, ⟨j, hj, h, hh, rfl⟩, rfl⟩
    refine ⟨i + n * j, ?_, h, hh, ?_⟩
    · calc i + n * j < n + n * j := Nat.add_lt_add_right hi _
        _ = n * (j + 1) := by rw [Nat.mul_succ, Nat.add_comm]
        _ ≤ n * e := Nat.mul_le_mul_left n hj
    · rw [add_nsmul, Nat.mul_comm, mul_nsmul, add_assoc]
      simp only [nsmul_left_comm]
  · rintro ⟨k, hk, h, hh, rfl⟩
    have hn : 0 < n := Nat.pos_of_ne_zero fun h0 => by simp [h0] at hk
    refine ⟨k % n, Nat.mod_lt k hn, _, ⟨k / n, ?_, h, hh, rfl⟩, ?_⟩
    · rw [Nat.div_lt_iff_lt_mul hn, Nat.mul_comm]
      exact hk
    · rw [← add_assoc, ← mul_nsmul, ← add_nsmul, Nat.add_comm, Nat.div_add_mod]

section Weights

variable {ι : Type*} {extent : ι → ℕ} {w w' : ι → ℤ} {P : List ι} {y : List ℕ}

/-- The steps that the loops of a nest have taken, each fewer than its extent. -/
def Steps (extent : ι → ℕ) : List ι → List ℕ → Prop := List.Forall₂ fun p k => k < extent p

/-- The offset after so many steps of each loop. -/
def dot (w : ι → ℤ) (P : List ι) (y : List ℕ) : ℤ := (List.zipWith (fun p (k : ℕ) => w p * k) P y).sum

/-- The last steps of all loops. -/
def top (extent : ι → ℕ) (P : List ι) : List ℕ := P.map fun p => extent p - 1

@[simp] theorem dot_nil (w : ι → ℤ) (y : List ℕ) : dot w [] y = 0 := rfl

@[simp] theorem dot_cons (w : ι → ℤ) (p : ι) (P : List ι) (k : ℕ) (y : List ℕ) :
    dot w (p :: P) (k :: y) = w p * k + dot w P y := by
  simp [dot]

/-- The offsets that a nest reaches in two places at once. -/
theorem mem_reach_map {A : Type*} [CommRing A] {g : A × A} :
    g ∈ reach (P.map fun p => (extent p, ((w p : A), (w' p : A)))) ↔
      ∃ y, Steps extent P y ∧ g = ((dot w P y : A), (dot w' P y : A)) := by
  induction P generalizing g with
  | nil => simp [Steps, Prod.ext_iff]
  | cons p P ih =>
    simp only [List.map_cons, mem_reach_cons, ih]
    constructor
    · rintro ⟨k, hk, _, ⟨y, hy, rfl⟩, rfl⟩
      refine ⟨k :: y, .cons hk hy, Prod.ext ?_ ?_⟩
      all_goals simp [mul_comm]
    · rintro ⟨_, hSteps, rfl⟩
      obtain _ | ⟨hk, hy⟩ := hSteps
      refine ⟨_, hk, _, ⟨_, hy, rfl⟩, Prod.ext ?_ ?_⟩
      all_goals simp [mul_comm]

theorem steps_top (h : ∀ p ∈ P, 0 < extent p) : Steps extent P (top extent P) := by
  induction P with
  | nil => exact List.Forall₂.nil
  | cons p P ih =>
    obtain ⟨hp, hP⟩ := List.forall_mem_cons.mp h
    exact List.Forall₂.cons (Nat.sub_lt hp Nat.one_pos) (ih hP)

theorem Steps.pos (h : Steps extent P y) : ∀ p ∈ P, 0 < extent p := by
  induction h with
  | nil => exact List.forall_mem_nil _
  | cons hk _ ih => exact List.forall_mem_cons.mpr ⟨Nat.zero_lt_of_lt hk, ih⟩

theorem steps_zero (h : ∀ p ∈ P, 0 < extent p) : Steps extent P (P.map fun _ => 0) := by
  induction P with
  | nil => exact List.Forall₂.nil
  | cons p P ih =>
    obtain ⟨hp, hP⟩ := List.forall_mem_cons.mp h
    exact List.Forall₂.cons hp (ih hP)

theorem dot_zero (w : ι → ℤ) (P : List ι) : dot w P (P.map fun _ => 0) = 0 := by
  induction P with
  | nil => rfl
  | cons p P ih =>
    rw [List.map_cons, dot_cons, ih]
    simp

/-- A sum is what one step of each loop adds up to. -/
theorem dot_top_two (w : ι → ℤ) (P : List ι) : dot w P (top (fun _ => 2) P) = (P.map w).sum := by
  induction P with
  | nil => rfl
  | cons p P ih =>
    rw [top, List.map_cons, dot_cons, ← top, ih]
    simp

theorem dvd_dot {d : ℤ} (h : ∀ p ∈ P, d ∣ w p) : d ∣ dot w P y := by
  induction P generalizing y with
  | nil => exact Int.dvd_zero d
  | cons p P ih =>
    obtain ⟨hp, hP⟩ := List.forall_mem_cons.mp h
    cases y with
    | nil => exact Int.dvd_zero d
    | cons k y =>
      rw [dot_cons]
      exact Int.dvd_add (Dvd.dvd.mul_right hp _) (ih hP)

/-- No offset of smaller strides is after the last one. -/
theorem Steps.dot_le_top (h : Steps extent P y) (hw : ∀ p ∈ P, 0 ≤ w p) (hw' : ∀ p ∈ P, w' p ≤ w p) :
    dot w' P y ≤ dot w P (top extent P) := by
  induction h with
  | nil => exact Int.le_refl 0
  | @cons p k P y hk _ ih =>
    obtain ⟨hp, hP⟩ := List.forall_mem_cons.mp hw
    obtain ⟨hp', hP'⟩ := List.forall_mem_cons.mp hw'
    rw [top, List.map_cons, dot_cons, dot_cons]
    refine Int.add_le_add ?_ (ih hP hP')
    have hLast : (k : ℤ) ≤ (extent p - 1 : ℕ) := by omega
    calc w' p * k ≤ w p * k := Int.mul_le_mul_of_nonneg_right hp' (Int.natCast_nonneg k)
      _ ≤ w p * (extent p - 1 : ℕ) := Int.mul_le_mul_of_nonneg_left hLast hp

theorem Steps.neg_top_le_dot (h : Steps extent P y) (hw : ∀ p ∈ P, 0 ≤ w p)
    (hw' : ∀ p ∈ P, -w p ≤ w' p) : -dot w P (top extent P) ≤ dot w' P y := by
  have hNeg : dot (fun p => -w' p) P y = -dot w' P y := by
    clear h hw hw'
    induction P generalizing y with
    | nil => rfl
    | cons p P ih =>
      cases y with
      | nil => rfl
      | cons k y =>
        rw [dot_cons, dot_cons, ih]
        ring
  have hLe := @dot_le_top _ _ w (fun p => -w' p) _ _ h hw fun p hp => by
    have := hw' p hp
    omega
  omega

/-- Only loops of the same strides reach the last offset, where there is a step to take. -/
theorem Steps.eq_of_dot_eq_top (h : Steps extent P y) (hw : ∀ p ∈ P, 0 ≤ w p)
    (hw' : ∀ p ∈ P, -w p ≤ w' p ∧ w' p ≤ w p) (hEq : dot w' P y = dot w P (top extent P)) :
    ∀ p ∈ P, 2 ≤ extent p → w' p = w p := by
  induction h with
  | nil => exact List.forall_mem_nil _
  | @cons p k P y hk hSteps ih =>
    obtain ⟨hp, hP⟩ := List.forall_mem_cons.mp hw
    obtain ⟨hp', hP'⟩ := List.forall_mem_cons.mp hw'
    have hRest := Steps.dot_le_top hSteps hP fun p hp => (hP' p hp).2
    have hLast : (k : ℤ) ≤ (extent p - 1 : ℕ) := by omega
    have hLeft : w' p * k ≤ w p * k := Int.mul_le_mul_of_nonneg_right hp'.2 (Int.natCast_nonneg k)
    have hRight : w p * k ≤ w p * (extent p - 1 : ℕ) := Int.mul_le_mul_of_nonneg_left hLast hp
    rw [top, List.map_cons, dot_cons, dot_cons, ← top] at hEq
    refine List.forall_mem_cons.mpr ⟨fun hTwo => ?_, ih hP hP' (by omega)⟩
    have hLeftEq : w' p * k = w p * k := by omega
    have hRightEq : w p * k = w p * (extent p - 1 : ℕ) := by omega
    rcases mul_eq_mul_left_iff.mp hRightEq with hTop | hZero
    · exact Int.eq_of_mul_eq_mul_right (by omega) hLeftEq
    · omega

theorem Steps.dot_congr (h : Steps extent P y) (hEq : ∀ p ∈ P, 2 ≤ extent p → w' p = w p) :
    dot w' P y = dot w P y := by
  induction h with
  | nil => rfl
  | @cons p k P y hk hSteps ih =>
    obtain ⟨hp, hP⟩ := List.forall_mem_cons.mp hEq
    rw [dot_cons, dot_cons, ih hP]
    rcases Nat.eq_zero_or_pos k with rfl | hPos
    · simp
    · rw [hp (by omega)]

/-- Two sums, of terms that are not larger in one of them. -/
theorem sum_within (hw : ∀ p ∈ P, 0 ≤ w p) (hw' : ∀ p ∈ P, -w p ≤ w' p ∧ w' p ≤ w p) :
    (-(P.map w).sum ≤ (P.map w').sum ∧ (P.map w').sum ≤ (P.map w).sum) ∧
      ((P.map w').sum = (P.map w).sum ↔ ∀ p ∈ P, w' p = w p) := by
  have hSteps : Steps (fun _ => 2) P (top (fun _ => 2) P) := steps_top fun _ _ => Nat.two_pos
  rw [← dot_top_two, ← dot_top_two]
  refine ⟨⟨hSteps.neg_top_le_dot hw fun p hp => (hw' p hp).1, hSteps.dot_le_top hw fun p hp => (hw' p hp).2⟩, ?_⟩
  constructor
  · exact fun hEq p hp => hSteps.eq_of_dot_eq_top hw hw' hEq p hp (Nat.le_refl 2)
  · exact fun hEq => hSteps.dot_congr fun p hp _ => hEq p hp

end Weights

end Strided
