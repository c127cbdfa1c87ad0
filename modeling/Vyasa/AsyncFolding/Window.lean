import Vyasa.AsyncFolding.Code

/-! Both directions of folding in one: positions along the direction of travel, and how far the
two sides are, as functions of their iterations. -/
namespace Vyasa.AsyncFolding

open Circular

variable {β : Type}

namespace Loop

variable (l : Loop β)

/-- The position of a coordinate along the direction of folding. -/
@[grind =] def pos (c : Int) : Int := if l.fold_forward then c else -c

/-- The foremost position of an interval. -/
@[grind =] def front (b : Interval) : Int := if l.fold_forward then b.max else -b.min

/-- The rearmost position of an interval. -/
@[grind =] def back (b : Interval) : Int := if l.fold_forward then b.min else -b.max

theorem direction_pos : Direction l.pos := by
  intro c c'
  rw [pos, pos]
  split
  · rfl
  · rw [show -c - -c' = -(c - c') by omega, abs_neg]

theorem pos_mem {b : Interval} {c : Int} (h : b.min ≤ c ∧ c ≤ b.max) :
    l.back b ≤ l.pos c ∧ l.pos c ≤ l.front b := by
  rw [back, pos, front]
  split <;> omega

theorem pos_new_leading_edge (b : Interval) (e : Int) :
    l.pos (l.new_leading_edge b e) = max (l.front b) (l.pos e) := by
  rw [pos, new_leading_edge, front, pos]
  split <;> omega

theorem ahead_eq (e e' : Int) : l.ahead e e' = l.pos e' - l.pos e := by
  rw [ahead, pos, pos]
  split <;> omega

theorem pos_granted_edge (b : Interval) : l.pos (l.granted_edge b) = l.back b - 1 + l.factor := by
  rw [pos, granted_edge, back]
  split <;> omega

theorem in_valid_range_iff (b : Interval) (t : Int) :
    l.in_valid_range b t ↔ l.pos t - l.factor < l.back b := by
  rw [in_valid_range, pos, back]
  split <;> omega

theorem to_acquire_eq (pass : Nat) (i : Int) :
    l.to_acquire pass i = l.front (l.provided pass i) - l.front (l.provided pass (i - 1)) := by
  rw [to_acquire, front, front]
  split <;> omega

theorem to_release_eq (pass : Nat) (i : Int) :
    l.to_release pass i = l.back (l.required pass (i + 1)) - l.back (l.required pass i) := by
  rw [to_release, back, back]
  split <;> omega

/-- The extent of the first iteration reaches from what it requires to what it provides. -/
theorem front_sub_back_le (pass : Nat) :
    l.front (l.provided pass 0) - l.back (l.required pass 0) + 1 ≤ l.extent pass := by
  have hMax : l.extent_initial pass ≤ l.extent pass := le_max_left _ _
  rw [extent_initial] at hMax
  rw [front, back]
  split <;> omega

/-! ### What the callers promise -/

/-- The footprints contain what is accessed and lie in the realization, what is read was written
in the same or an earlier iteration, and static analysis has found what the code asks of it. -/
structure Wf : Prop where
  factor_pos : 0 < l.factor
  writes_mem : ∀ pass i c, c ∈ l.writes pass i →
    (l.provided pass i).min ≤ c ∧ c ≤ (l.provided pass i).max
  reads_mem : ∀ pass i c, c ∈ l.reads pass i →
    (l.required pass i).min ≤ c ∧ c ≤ (l.required pass i).max
  in_bounds : ∀ pass (i : Nat), i < l.iters →
    l.bounds.min ≤ (l.required pass i).min ∧ (l.required pass i).max ≤ l.bounds.max
  covered : ∀ pass i c, i < l.iters → c ∈ l.reads pass i → ∃ j ≤ i, c ∈ l.writes pass j
  monotonic : l.dynamic = false → ∀ pass (i : Nat),
    l.front (l.provided pass i) ≤ l.front (l.provided pass (i + 1))
  fudge_le : l.dynamic = false → l.constant_fudge = true → l.fudge 0 ≤ l.factor

/-- The loop is entered once. A dynamic footprint that is required does not move backwards, and
the region provided by an iteration fits where the footprints are found statically. -/
structure Once : Prop where
  passes_le : l.passes ≤ 1
  required_forwards : l.dynamic = true → ∀ i : Nat, i + 1 < l.iters →
    l.back (l.required 0 i) ≤ l.back (l.required 0 (i + 1))
  provided_fits : l.dynamic = false → ∀ i : Nat, i < l.iters →
    (l.provided 0 i).max - (l.provided 0 i).min + 1 ≤ l.factor

/-! ### How far the sides are -/

/-- The edge the counters start at. -/
def start : Int := if l.fold_forward then l.bounds.min else l.bounds.max

/-- The leading edge of the producer after a number of iterations. -/
def lead : Nat → Int
  | 0 => if l.dynamic then l.pos l.start else l.front (l.provided 0 0)
  | j + 1 => if l.dynamic then max (l.front (l.provided 0 j)) (lead j) else l.front (l.provided 0 j)

/-- The edge the consumer has granted after a number of iterations. -/
def granted : Nat → Int
  | 0 => l.pos l.start
  | m + 1 => l.back (l.required 0 m) - 1 + l.factor

/-- What the semaphore holds when the producer has acquired for `j` iterations and the consumer
has released for `m`. -/
def balance : Nat → Nat → Int
  | 0, m =>
      if l.dynamic then l.granted m - l.lead 0
      else l.init + l.back (l.required 0 m) - l.back (l.required 0 0)
  | j + 1, m =>
      if l.dynamic then l.granted m - l.lead (j + 1)
      else l.factor - l.extent 0 + l.front (l.provided 0 0) - l.front (l.provided 0 j) +
        l.back (l.required 0 m) - l.back (l.required 0 0)

variable {l}

theorem front_le_lead (j : Nat) : l.front (l.provided 0 j) ≤ l.lead (j + 1) := by
  rw [lead]
  split
  · exact le_max_left _ _
  · exact le_rfl

theorem lead_succ_dynamic (hDyn : l.dynamic = true) (j : Nat) :
    l.lead (j + 1) = max (l.front (l.provided 0 j)) (l.lead j) := by
  rw [lead, if_pos hDyn]

theorem lead_mono (hWf : l.Wf) (j : Nat) : l.lead j ≤ l.lead (j + 1) := by
  rw [lead]
  split
  · exact le_max_right _ _
  · rename_i hStatic
    have hStatic : l.dynamic = false := by simpa using hStatic
    obtain _ | j := j
    · rw [lead, hStatic]
      exact le_rfl
    · rw [lead, hStatic]
      exact_mod_cast hWf.monotonic hStatic 0 j

theorem granted_mono (hWf : l.Wf) (hOnce : l.Once) (hDyn : l.dynamic = true) {m : Nat}
    (hm : m < l.iters) : l.granted m ≤ l.granted (m + 1) := by
  have hPos := hWf.factor_pos
  obtain _ | m := m
  · obtain ⟨hMin, hMax⟩ := hWf.in_bounds 0 0 hm
    rw [granted, granted, pos, start, back]
    split <;> push_cast at * <;> omega
  · have hForwards := hOnce.required_forwards hDyn m hm
    rw [granted, granted]
    push_cast
    omega

/-- Where the semaphore is not in debt, what the consumer reads is in the window. -/
theorem lead_lt_of_balance {j m : Nat} (hj : 0 < j)
    (h : 0 ≤ l.balance j (if l.dynamic then m + 1 else m)) :
    l.lead j - l.factor < l.back (l.required 0 m) := by
  obtain ⟨j, rfl⟩ : ∃ j', j = j' + 1 := ⟨j - 1, by omega⟩
  rw [balance] at h
  by_cases hDyn : l.dynamic = true
  · rw [if_pos hDyn, if_pos hDyn, granted] at h
    omega
  · rw [if_neg hDyn, if_neg hDyn] at h
    have hExtent := l.front_sub_back_le 0
    rw [lead, if_neg hDyn]
    omega

theorem balance_dynamic (hDyn : l.dynamic = true) (j m : Nat) :
    l.balance j m = l.granted m - l.lead j := by
  cases j <;> rw [balance, if_pos hDyn]

/-- What an acquire takes from the balance. -/
theorem balance_succ_static (hStatic : l.dynamic = false) (j m : Nat) :
    l.balance (j + 1) m = l.balance j m - l.acquired 0 j := by
  obtain _ | j := j
  · rw [balance, balance, acquired, init, fudge]
    simp only [hStatic, to_acquire_eq, Bool.false_eq_true, if_false, lt_self_iff_false]
    split <;> push_cast <;> omega
  · rw [balance, balance, acquired, to_acquire_eq]
    simp only [hStatic, Bool.false_eq_true, if_false]
    have hIndex : ((j + 1 : Nat) : Int) - 1 = (j : Int) := by omega
    rw [hIndex]
    split <;> omega

theorem balance_release_static (hStatic : l.dynamic = false) (j m : Nat) :
    l.balance j (m + 1) = l.balance j m + l.to_release 0 m := by
  rw [to_release_eq]
  cases j with
  | zero =>
    rw [balance, balance]
    simp only [hStatic, Bool.false_eq_true, if_false]
    push_cast
    omega
  | succ j =>
    rw [balance, balance]
    simp only [hStatic, Bool.false_eq_true, if_false]
    push_cast
    omega

end Loop

end Vyasa.AsyncFolding
