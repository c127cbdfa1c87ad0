import Mathlib

/-! Three comparisons of three things that fit together, and how they compose when things
are compared part by part. -/
namespace Vyasa.Compare

/-- The results of comparing `a` with `b`, `b` with `c` and `a` with `c` are those of a
weak order. -/
def Coherent (ab bc ac : Ordering) : Prop :=
  (ab = .eq → ac = bc) ∧ (bc = .eq → ac = ab) ∧ (ab = bc → ac = ab)

/-- What is compared first decides, if it differs. -/
theorem Coherent.then {ab bc ac ab' bc' ac' : Ordering} (h : Coherent ab bc ac)
    (h' : Coherent ab' bc' ac') : Coherent (ab.then ab') (bc.then bc') (ac.then ac') := by
  obtain ⟨hLeft, hRight, hSame⟩ := h
  cases ab <;> cases bc <;> cases ac <;> simp_all [Coherent]
  all_goals
    rintro rfl
    rfl

/-- Things of different ranks, and any comparison among those of one rank. -/
theorem coherent_of_rank {α : Type*} {compare : α → α → Ordering} (rank : α → Nat)
    (hLt : ∀ a b, rank a < rank b → compare a b = .lt)
    (hGt : ∀ a b, rank b < rank a → compare a b = .gt) {a b c : α}
    (hSame : rank a = rank b → rank b = rank c →
      Coherent (compare a b) (compare b c) (compare a c)) :
    Coherent (compare a b) (compare b c) (compare a c) := by
  rcases Nat.lt_trichotomy (rank a) (rank b) with hab | hab | hab <;>
    rcases Nat.lt_trichotomy (rank b) (rank c) with hbc | hbc | hbc
  · simp [Coherent, hLt a b hab, hLt b c hbc, hLt a c (by omega)]
  · simp [Coherent, hLt a b hab, hLt a c (by omega)]
  · simp [Coherent, hLt a b hab, hGt b c hbc]
  · simp [Coherent, hLt b c hbc, hLt a c (by omega)]
    exact Eq.symm
  · exact hSame hab hbc
  · simp [Coherent, hGt b c hbc, hGt a c (by omega)]
    exact Eq.symm
  · simp [Coherent, hGt a b hab, hLt b c hbc]
  · simp [Coherent, hGt a b hab, hGt a c (by omega)]
  · simp [Coherent, hGt a b hab, hGt b c hbc, hGt a c (by omega)]

theorem coherent_eq : Coherent .eq .eq .eq :=
  ⟨fun _ => rfl, fun _ => rfl, fun _ => rfl⟩

variable {α : Type*}

/-- Compare two things by the test for less. -/
def compareBy (less : α → α → Bool) (a b : α) : Ordering :=
  if less a b then .lt else if less b a then .gt else .eq

theorem compareBy_swap {less : α → α → Bool} (hAsymm : ∀ a b, less a b = true → less b a = false)
    (a b : α) : (compareBy less a b).swap = compareBy less b a := by
  cases hab : less a b with
  | true => simp [compareBy, hab, hAsymm a b hab]
  | false => cases hba : less b a <;> simp [compareBy, hab, hba]

/-- Comparing by a key with a linear order. -/
theorem compareBy_eq_cmp {β : Type*} [LinearOrder β] {less : α → α → Bool} {a b : α} (key : α → β)
    (h : ∀ x y, (x = a ∨ x = b) → (y = a ∨ y = b) → (less x y = true ↔ key x < key y)) :
    compareBy less a b = cmp (key a) (key b) := by
  have hab := h a b (Or.inl rfl) (Or.inr rfl)
  have hba := h b a (Or.inr rfl) (Or.inl rfl)
  rcases lt_trichotomy (key a) (key b) with hLt | hEq | hLt
  · rw [compareBy, if_pos (hab.mpr hLt), (cmp_eq_lt_iff _ _).mpr hLt]
  · have hNot : ¬ less a b = true := fun hc => (hab.mp hc).ne hEq
    have hNot' : ¬ less b a = true := fun hc => (hba.mp hc).ne hEq.symm
    rw [compareBy, if_neg hNot, if_neg hNot', (cmp_eq_eq_iff _ _).mpr hEq]
  · have hNot : ¬ less a b = true := fun hc => lt_asymm hLt (hab.mp hc)
    rw [compareBy, if_neg hNot, if_pos (hba.mpr hLt), (cmp_eq_gt_iff _ _).mpr hLt]

theorem coherent_cmp {β : Type*} [LinearOrder β] (a b c : β) :
    Coherent (cmp a b) (cmp b c) (cmp a c) := by
  refine ⟨fun h => ?_, fun h => ?_, fun h => ?_⟩
  · rw [(cmp_eq_eq_iff _ _).mp h]
  · rw [(cmp_eq_eq_iff _ _).mp h]
  · cases hab : cmp a b with
    | lt =>
      have hbc : b < c := (cmp_eq_lt_iff b c).mp (h ▸ hab)
      exact (cmp_eq_lt_iff a c).mpr (((cmp_eq_lt_iff a b).mp hab).trans hbc)
    | eq => rw [(cmp_eq_eq_iff _ _).mp hab, ← h, hab]
    | gt =>
      have hbc : c < b := (cmp_eq_gt_iff b c).mp (h ▸ hab)
      exact (cmp_eq_gt_iff a c).mpr (hbc.trans ((cmp_eq_gt_iff a b).mp hab))

/-- The order turned round. -/
theorem Coherent.reverse {ab bc ac : Ordering} (h : Coherent ab bc ac) :
    Coherent ab.swap bc.swap ac.swap := by
  obtain ⟨hLeft, hRight, hSame⟩ := h
  cases ab <;> cases bc <;> cases ac <;> simp_all [Coherent]

end Vyasa.Compare
