import Vyasa.Lanes.Eval
import Vyasa.Pointwise.Basic

/-! How shuffles are made, and that an interleaving takes its lanes from its vectors in turn. -/
namespace Vyasa.Lanes

open Word IRMatch

namespace Shuffle

/-- `Shuffle::make`, or nothing where an assertion fails. -/
def make (vectors : List Expr) (indices : List Nat) : Option Expr :=
  match vectors with
  | [] => none
  | front :: _ =>
      if indices ≠ [] ∧ (∀ a ∈ vectors, a.type = front.type) ∧ ∀ k ∈ indices, k < inputLanes vectors then
        some (.shuffle front.type vectors indices)
      else none

/-- One lane of each vector, then the next of each. -/
def interleaveIndices (lanes size : Nat) : List Nat :=
  (List.range lanes).flatMap fun i => (List.range size).map fun j => j * lanes + i

/-- `Shuffle::make_interleave` -/
def make_interleave (vectors : List Expr) : Option Expr :=
  match vectors with
  | [] => none
  | [front] => some front
  | front :: _ =>
      if ∀ a ∈ vectors, a.lanes = front.lanes then
        make vectors (interleaveIndices front.lanes vectors.length)
      else none

/-- `Shuffle::is_interleave` -/
def is_interleave (vectors : List Expr) (indices : List Nat) : Bool :=
  match vectors with
  | [] => false
  | front :: _ =>
      front.lanes ≠ 1 ∧ (∀ a ∈ vectors, a.lanes = front.lanes) ∧
        front.lanes * vectors.length = indices.length ∧
        ∀ i < vectors.length, ∀ j < front.lanes,
          indices[j * vectors.length + i]? = some (i * front.lanes + j)

/-- The vectors of an interleaving have one lane count, and all their lanes are taken. -/
theorem is_interleave_lanes {vectors : List Expr} {indices : List Nat}
    (h : is_interleave vectors indices = true) : ∃ m, m ≠ 1 ∧ (∀ a ∈ vectors, a.lanes = m) ∧
      m * vectors.length = indices.length ∧ 0 < vectors.length := by
  cases vectors with
  | nil => cases h
  | cons front rest =>
    obtain ⟨hNe, hLanes, hCount, -⟩ := of_decide_eq_true h
    exact ⟨front.lanes, hNe, hLanes, hCount, List.length_pos_of_mem List.mem_cons_self⟩

theorem make_eq_some {vectors : List Expr} {indices : List Nat} {e : Expr} :
    make vectors indices = some e ↔ ∃ front rest, vectors = front :: rest ∧ indices ≠ [] ∧
      (∀ a ∈ vectors, a.type = front.type) ∧ (∀ k ∈ indices, k < inputLanes vectors) ∧
      e = .shuffle front.type vectors indices := by
  cases vectors with
  | nil => simp [make]
  | cons front rest =>
    simp only [make, Option.ite_none_right_eq_some, Option.some.injEq, List.cons.injEq]
    constructor
    · rintro ⟨⟨hIndices, hType, hBound⟩, rfl⟩
      exact ⟨front, rest, ⟨rfl, rfl⟩, hIndices, hType, hBound, rfl⟩
    · rintro ⟨front', rest', ⟨rfl, rfl⟩, hIndices, hType, hBound, rfl⟩
      exact ⟨⟨hIndices, hType, hBound⟩, rfl⟩

/-- The shuffle of one vector. -/
theorem make_singleton {e : Expr} {indices : List Nat} (hNe : indices ≠ [])
    (hBound : ∀ k ∈ indices, k < e.lanes) : make [e] indices = some (.shuffle e.type [e] indices) := by
  refine make_eq_some.mpr ⟨e, [], rfl, hNe, ?_, ?_, rfl⟩
  · intro a ha
    rw [List.mem_singleton.mp ha]
  · simpa [inputLanes] using hBound

section Interleave

variable {mode : IntType → Mode} {ρ : Env}

theorem laneAt_singleton (e : Expr) (k : Nat) :
    laneAt mode ρ [e] k = if k < e.lanes then lane mode ρ e k else none := by
  rw [laneAt, laneAt]

/-- A lane of vectors with the same lane count. -/
theorem laneAt_mul_add {m : Nat} : ∀ {vectors : List Expr} {i j : Nat} {a : Expr},
    (∀ b ∈ vectors, b.lanes = m) → j < m → vectors[i]? = some a →
    laneAt mode ρ vectors (i * m + j) = lane mode ρ a j
  | [], i, j, a, _, _, ha => by simp at ha
  | b :: rest, i, j, a, hLanes, hj, ha => by
    rw [List.forall_mem_cons] at hLanes
    rw [laneAt, hLanes.1]
    cases i with
    | zero =>
      cases ha
      rw [if_pos (by omega), Nat.zero_mul, Nat.zero_add]
    | succ i =>
      rw [if_neg (by rw [Nat.succ_mul]; omega), show (i + 1) * m + j - m = i * m + j by
        rw [Nat.succ_mul]; omega]
      exact laneAt_mul_add hLanes.2 hj ha

/-- A lane of a shuffle that is recognized as an interleaving. -/
theorem lane_of_is_interleave {T : IntType} {vectors : List Expr} {indices : List Nat} {k : Nat}
    {a : Expr} (h : is_interleave vectors indices = true) (hk : k < indices.length)
    (ha : vectors[k % vectors.length]? = some a) :
    lane mode ρ (.shuffle T vectors indices) k = lane mode ρ a (k / vectors.length) := by
  cases vectors with
  | nil => cases h
  | cons front rest =>
    obtain ⟨-, hLanes, hCount, hIndices⟩ := of_decide_eq_true h
    have hPos : 0 < (front :: rest).length := List.length_pos_of_mem List.mem_cons_self
    have hj : k / (front :: rest).length < front.lanes := by
      rw [Nat.div_lt_iff_lt_mul hPos]
      exact hCount ▸ hk
    have hIndex := hIndices _ (Nat.mod_lt k hPos) _ hj
    rw [Nat.div_add_mod'] at hIndex
    rw [lane, hIndex]
    exact laneAt_mul_add hLanes hj ha

theorem length_interleaveIndices (lanes size : Nat) :
    (interleaveIndices lanes size).length = lanes * size := by
  simp [interleaveIndices]

theorem lt_of_mem_interleaveIndices {lanes size k : Nat} (h : k ∈ interleaveIndices lanes size) :
    k < lanes * size := by
  rw [interleaveIndices, List.mem_flatMap] at h
  obtain ⟨i, hi, hk⟩ := h
  obtain ⟨j, hj, rfl⟩ := List.mem_map.mp hk
  rw [List.mem_range] at hi hj
  calc j * lanes + i < (j + 1) * lanes := by rw [Nat.succ_mul]; omega
    _ ≤ size * lanes := Nat.mul_le_mul_right lanes hj
    _ = lanes * size := Nat.mul_comm size lanes

theorem inputLanes_eq {m : Nat} : ∀ {vectors : List Expr}, (∀ a ∈ vectors, a.lanes = m) →
    inputLanes vectors = m * vectors.length
  | [], _ => rfl
  | a :: rest, h => by
    rw [List.forall_mem_cons] at h
    have hRest := inputLanes_eq h.2
    rw [inputLanes] at hRest ⊢
    rw [List.map_cons, List.sum_cons, hRest, h.1, List.length_cons, Nat.mul_succ, Nat.add_comm]

theorem getElem?_interleave (lanes size n : Nat) {i j : Nat} (hi : i < n) (hj : j < size) :
    ((List.range n).flatMap fun i => (List.range size).map fun j => j * lanes + i)[i * size + j]? =
      some (j * lanes + i) := by
  induction n with
  | zero => exact absurd hi (Nat.not_lt_zero i)
  | succ n ih =>
    have hLength : ((List.range n).flatMap fun i => (List.range size).map fun j => j * lanes + i).length =
        n * size := by simp
    rw [List.range_succ, List.flatMap_append, List.flatMap_singleton]
    rcases Nat.lt_succ_iff_lt_or_eq.mp hi with hLess | rfl
    · rw [List.getElem?_append_left, ih hLess]
      rw [hLength]
      calc i * size + j < (i + 1) * size := by rw [Nat.succ_mul]; omega
        _ ≤ n * size := Nat.mul_le_mul_right size hLess
    · rw [List.getElem?_append_right (by omega), hLength, Nat.add_sub_cancel_left, List.getElem?_map,
        List.getElem?_range hj]
      rfl

/-- What is made to interleave vectors takes its lanes from them in turn. -/
theorem exists_make_interleave (mode : IntType → Mode) {T : IntType} {m : Nat} {vectors : List Expr} (hNe : vectors ≠ [])
    (hType : ∀ a ∈ vectors, a.type = T) (hLanes : ∀ a ∈ vectors, a.lanes = m) (hm : 0 < m) :
    ∃ e, make_interleave vectors = some e ∧ e.type = T ∧ e.lanes = m * vectors.length ∧
      ∀ ρ k a, k < m * vectors.length → vectors[k % vectors.length]? = some a →
        lane mode ρ e k = lane mode ρ a (k / vectors.length) := by
  match vectors, hNe with
  | [front], _ =>
    refine ⟨front, rfl, hType front List.mem_cons_self, ?_, fun ρ k a hk ha => ?_⟩
    · rw [hLanes front List.mem_cons_self, List.length_singleton, Nat.mul_one]
    · rw [List.length_singleton, Nat.mod_one] at ha
      cases ha
      rw [List.length_singleton, Nat.div_one]
  | front :: next :: rest, _ =>
    have hFront := hLanes front List.mem_cons_self
    set vectors := front :: next :: rest with hv
    have hPos : 0 < vectors.length := by rw [hv, List.length_cons]; omega
    have hGet : ∀ k < m * vectors.length, (interleaveIndices m vectors.length)[k]? =
        some (k % vectors.length * m + k / vectors.length) := by
      intro k hk
      have hDiv : k / vectors.length < m := by rwa [Nat.div_lt_iff_lt_mul hPos]
      have h := getElem?_interleave m vectors.length m hDiv (Nat.mod_lt k hPos)
      rwa [Nat.div_add_mod'] at h
    have hMake : make vectors (interleaveIndices m vectors.length) =
        some (.shuffle front.type vectors (interleaveIndices m vectors.length)) := by
      refine make_eq_some.mpr ⟨front, next :: rest, hv, ?_, ?_, ?_, rfl⟩
      · intro h
        have hLength := length_interleaveIndices m vectors.length
        rw [h, List.length_nil] at hLength
        exact absurd hLength.symm (Nat.mul_pos hm hPos).ne'
      · intro a ha
        rw [hType a ha, hType front List.mem_cons_self]
      · rw [inputLanes_eq hLanes]
        exact fun k hk => lt_of_mem_interleaveIndices hk
    refine ⟨.shuffle front.type vectors (interleaveIndices m vectors.length), ?_,
      hType front List.mem_cons_self, length_interleaveIndices _ _, fun ρ k a hk ha => ?_⟩
    · rw [make_interleave, hFront]
      · rw [if_pos hLanes]
        exact hMake
      · simp
    · rw [lane, hGet k hk]
      exact laneAt_mul_add hLanes (by rwa [Nat.div_lt_iff_lt_mul hPos]) ha

end Interleave

end Shuffle

end Vyasa.Lanes
