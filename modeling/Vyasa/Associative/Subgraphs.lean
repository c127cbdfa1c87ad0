import Mathlib.Data.Finset.Basic
import Mathlib.Data.Fintype.Basic
import Mathlib.Data.List.FinRange
import Mathlib.Logic.Relation
import Mathlib.Data.Fin.VecNotation
import Mathlib.Data.Finset.Card
import Mathlib.Order.Preorder.Finite

/-! Which elements of a tuple each element depends on, and how the dependencies of dependencies
are added to them. -/
namespace Vyasa.Associative

open Relation

/-- One set for each element of a tuple. -/
abbrev Dependencies (n : Nat) := Fin n → Finset (Fin n)

/-- What the fixed-point loop keeps between its rounds. -/
structure Fixpoint (n : Nat) where
  dependencies : Dependencies n
  change : Bool

variable {n : Nat} {dependencies D : Dependencies n} {i j k : Fin n}

/-- An index that is new is inserted. -/
def addIndex (i idx : Fin n) (s : Fixpoint n) : Fixpoint n :=
  if idx ∈ s.dependencies i then s
  -- the source clears the flag here, as it does at the start of a round
  else ⟨Function.update s.dependencies i (insert idx (s.dependencies i)), false⟩

/-- What `j` depends on is added to `i`, in ascending order. -/
def addThrough (i j : Fin n) (s : Fixpoint n) : Fixpoint n :=
  if i = j then s
  else if j ∈ s.dependencies i then
    ((List.finRange n).filter (· ∈ s.dependencies j)).foldl (fun s idx => addIndex i idx s) s
  else s

def addRow (i : Fin n) (s : Fixpoint n) : Fixpoint n :=
  (List.finRange n).foldl (fun s j => addThrough i j s) s

def addRound (dependencies : Dependencies n) : Fixpoint n :=
  (List.finRange n).foldl (fun s i => addRow i s) ⟨dependencies, false⟩

def addLoop : Nat → Fixpoint n → Option (Dependencies n)
  | 0, _ => none
  | fuel + 1, s => if s.change then addLoop fuel (addRound s.dependencies) else some s.dependencies

/-- A round that changes something adds one of `n * n` pairs. -/
def add_transitive_dependencies (dependencies : Dependencies n) : Option (Dependencies n) :=
  addLoop (n * n + 2) ⟨dependencies, true⟩

/-! ### One round -/

theorem foldl_addIndex {l : List (Fin n)} {s : Fixpoint n} (hChange : s.change = false) :
    l.foldl (fun s idx => addIndex i idx s) s =
      ⟨Function.update s.dependencies i (s.dependencies i ∪ l.toFinset), false⟩ := by
  induction l generalizing s with
  | nil =>
    obtain ⟨D, change⟩ := s
    obtain rfl : change = false := hChange
    simp
  | cons idx l ih =>
    rw [List.foldl_cons, addIndex]
    split
    · next hMem =>
      rw [ih hChange, List.toFinset_cons, Finset.union_insert, Finset.insert_eq_of_mem]
      exact Finset.mem_union_left _ hMem
    · rw [ih rfl]
      simp [Finset.insert_union]

/-- Only the row of `i` changes, and the flag never does. -/
theorem addThrough_eq : addThrough i j ⟨D, false⟩ =
    ⟨if i ≠ j ∧ j ∈ D i then Function.update D i (D i ∪ D j) else D, false⟩ := by
  have hAll : ((List.finRange n).filter (· ∈ D j)).toFinset = D j := by
    ext idx
    simp
  rw [addThrough]
  by_cases hij : i = j
  · rw [if_pos hij, if_neg fun h => h.1 hij]
  · by_cases hj : j ∈ D i
    · rw [if_neg hij, if_pos hj, if_pos ⟨hij, hj⟩, foldl_addIndex rfl, hAll]
    · rw [if_neg hij, if_neg hj, if_neg fun h => hj h.2]

/-- An invariant of a loop over all indices. -/
theorem foldl_finRange {σ : Type} {motive : Nat → σ → Prop} {f : σ → Fin n → σ} {s : σ} (hStart : motive 0 s)
    (hStep : ∀ (j : Fin n) (s : σ), motive j s → motive (j + 1) (f s j)) :
    motive n ((List.finRange n).foldl f s) := by
  have hTake : ∀ m ≤ n, motive m (((List.finRange n).take m).foldl f s) := by
    intro m hm
    induction m with
    | zero => exact hStart
    | succ m ih =>
      have hLength : m < (List.finRange n).length := by
        rw [List.length_finRange]
        exact hm
      rw [List.take_succ_eq_append_getElem hLength, List.foldl_append, List.foldl_cons, List.foldl_nil,
        List.getElem_finRange]
      exact hStep ⟨m, hm⟩ _ (ih (Nat.le_of_lt hm))
  have hWhole := hTake n le_rfl
  rwa [List.take_of_length_le (le_of_eq (List.length_finRange)) ] at hWhole

/-! ### What a round finds -/

/-- `j` is among what `i` depends on. -/
def Depends (dependencies : Dependencies n) (i j : Fin n) : Prop := j ∈ dependencies i

instance : Decidable (Depends dependencies i j) := inferInstanceAs (Decidable (j ∈ dependencies i))

def Reaches (dependencies : Dependencies n) : Fin n → Fin n → Prop := ReflTransGen (Depends dependencies)

/-- `u` is a dependency of `i`, or is reached from one that is smaller than `i`. -/
def Enters (dependencies : Dependencies n) (i u : Fin n) : Prop :=
  u ∈ dependencies i ∨ ∃ j ∈ dependencies i, j < i ∧ Reaches dependencies j u

/-- A dependency that is greater. -/
def Climbs (dependencies : Dependencies n) (u v : Fin n) : Prop := u < v ∧ v ∈ dependencies u

/-- What one row finds where the rows before it are complete: what enters it, and what is reached from there
along ascending indices greater than its own, up to the last one. -/
def Found (dependencies : Dependencies n) (i k : Fin n) : Prop :=
  Enters dependencies i k ∨
    ∃ u w, Enters dependencies i u ∧ i < u ∧ ReflTransGen (Climbs dependencies) u w ∧ k ∈ dependencies w

theorem le_of_climbs {u w : Fin n} (h : ReflTransGen (Climbs dependencies) u w) : u ≤ w := by
  induction h with
  | refl => exact le_rfl
  | tail _ hStep ih => exact ih.trans hStep.1.le

theorem reaches_of_climbs {u w : Fin n} (h : ReflTransGen (Climbs dependencies) u w) :
    Reaches dependencies u w := by
  induction h with
  | refl => exact ReflTransGen.refl
  | tail _ hStep ih => exact ih.tail hStep.2

theorem reaches_of_enters {u : Fin n} (h : Enters dependencies i u) : Reaches dependencies i u := by
  rcases h with h | ⟨j, hj, -, hReach⟩
  · exact ReflTransGen.single h
  · exact ReflTransGen.head hj hReach

theorem reaches_of_found (h : Found dependencies i k) : Reaches dependencies i k := by
  rcases h with h | ⟨u, w, hu, -, hClimb, hk⟩
  · exact reaches_of_enters h
  · exact ((reaches_of_enters hu).trans (reaches_of_climbs hClimb)).tail hk

/-- The part of `Found` that has been seen before column `b`. -/
def FoundBefore (dependencies : Dependencies n) (i : Fin n) (b : Nat) (k : Fin n) : Prop :=
  (k ∈ dependencies i ∨ ∃ j ∈ dependencies i, j < i ∧ j.val < b ∧ Reaches dependencies j k) ∨
    ∃ u w, Enters dependencies i u ∧ i < u ∧ ReflTransGen (Climbs dependencies) u w ∧ w.val < b ∧
      k ∈ dependencies w

theorem enters_of_foundBefore (h : FoundBefore dependencies i j k) (hj : j ≤ i) : Enters dependencies i k := by
  rcases h with (h | ⟨l, hl, hlt, -, hReach⟩) | ⟨u, w, -, hu, hClimb, hw, -⟩
  · exact Or.inl h
  · exact Or.inr ⟨l, hl, hlt, hReach⟩
  · have hLt : w < j := hw
    exact absurd ((hLt.trans_le hj).trans (hu.trans_le (le_of_climbs hClimb))) (lt_irrefl w)

theorem foundBefore_of_enters (h : Enters dependencies i k) (hj : i ≤ j) : FoundBefore dependencies i j k := by
  rcases h with h | ⟨l, hl, hlt, hReach⟩
  · exact Or.inl (Or.inl h)
  · exact Or.inl (Or.inr ⟨l, hl, hlt, hlt.trans_le hj, hReach⟩)

/-- A column that is already found brings what it depends on, and no other column brings anything. -/
theorem foundBefore_succ : FoundBefore dependencies i (j + 1) k ↔ FoundBefore dependencies i j k ∨
    i ≠ j ∧ FoundBefore dependencies i j j ∧
      (j < i ∧ Reaches dependencies j k ∨ i < j ∧ k ∈ dependencies j) := by
  constructor
  · rintro ((h | ⟨l, hl, hlt, hBound, hReach⟩) | ⟨u, w, hu, hiu, hClimb, hBound, hk⟩)
    · exact Or.inl (Or.inl (Or.inl h))
    · rcases Nat.lt_succ_iff_lt_or_eq.mp hBound with hBound | hEq
      · exact Or.inl (Or.inl (Or.inr ⟨l, hl, hlt, hBound, hReach⟩))
      · obtain rfl := Fin.ext hEq
        exact Or.inr ⟨hlt.ne', Or.inl (Or.inl hl), Or.inl ⟨hlt, hReach⟩⟩
    · rcases Nat.lt_succ_iff_lt_or_eq.mp hBound with hBound | hEq
      · exact Or.inl (Or.inr ⟨u, w, hu, hiu, hClimb, hBound, hk⟩)
      · obtain rfl := Fin.ext hEq
        have hiw := hiu.trans_le (le_of_climbs hClimb)
        refine Or.inr ⟨hiw.ne, ?_, Or.inr ⟨hiw, hk⟩⟩
        rcases ReflTransGen.cases_tail hClimb with rfl | ⟨v, hClimb, hStep⟩
        · exact foundBefore_of_enters hu hiu.le
        · exact Or.inr ⟨u, v, hu, hiu, hClimb, hStep.1, hStep.2⟩
  · rintro (h | ⟨-, hj, ⟨hlt, hReach⟩ | ⟨hlt, hk⟩⟩)
    · rcases h with (h | ⟨l, hl, hlt, hBound, hReach⟩) | ⟨u, w, hu, hiu, hClimb, hBound, hk⟩
      · exact Or.inl (Or.inl h)
      · exact Or.inl (Or.inr ⟨l, hl, hlt, hBound.trans (Nat.lt_succ_self _), hReach⟩)
      · exact Or.inr ⟨u, w, hu, hiu, hClimb, hBound.trans (Nat.lt_succ_self _), hk⟩
    · rcases hj with (hj | ⟨l, hl, hli, hBound, hlj⟩) | ⟨u, w, -, hiu, hClimb, hBound, -⟩
      · exact Or.inl (Or.inr ⟨j, hj, hlt, Nat.lt_succ_self _, hReach⟩)
      · exact Or.inl (Or.inr ⟨l, hl, hli, hBound.trans (Nat.lt_succ_self _), hlj.trans hReach⟩)
      · have hwj : w < j := hBound
        exact absurd ((hwj.trans hlt).trans (hiu.trans_le (le_of_climbs hClimb))) (lt_irrefl w)
    · rcases hj with hj | ⟨u, w, hu, hiu, hClimb, hBound, hjw⟩
      · have hEnters : Enters dependencies i j := enters_of_foundBefore (j := i) (Or.inl (hj.imp_right
          fun ⟨l, hl, hli, hBound, hReach⟩ => ⟨l, hl, hli, hli, hReach⟩)) le_rfl
        exact Or.inr ⟨j, j, hEnters, hlt, ReflTransGen.refl, Nat.lt_succ_self _, hk⟩
      · exact Or.inr ⟨u, j, hu, hiu, hClimb.tail ⟨hBound, hjw⟩, Nat.lt_succ_self _, hk⟩

/-- A row keeps the others, and the flag. -/
theorem addRow_frame (i : Fin n) (D : Dependencies n) :
    ∃ D', addRow i ⟨D, false⟩ = ⟨D', false⟩ ∧ ∀ j, j ≠ i → D' j = D j := by
  refine foldl_finRange (f := fun s j => addThrough i j s) (s := ⟨D, false⟩)
    (motive := fun _ s => ∃ D', s = ⟨D', false⟩ ∧ ∀ j, j ≠ i → D' j = D j) ⟨D, rfl, fun _ _ => rfl⟩ ?_
  rintro j s ⟨D', rfl, hOther⟩
  refine ⟨_, addThrough_eq, fun l hl => ?_⟩
  split
  · rw [Function.update_of_ne hl, hOther l hl]
  · exact hOther l hl

theorem foundBefore_zero : FoundBefore dependencies i 0 k ↔ k ∈ dependencies i := by
  constructor
  · rintro ((h | ⟨l, -, -, hBound, -⟩) | ⟨u, w, -, -, -, hBound, -⟩)
    · exact h
    · exact absurd hBound (Nat.not_lt_zero _)
    · exact absurd hBound (Nat.not_lt_zero _)
  · exact fun h => Or.inl (Or.inl h)

theorem foundBefore_all : FoundBefore dependencies i n k ↔ Found dependencies i k := by
  constructor
  · rintro ((h | ⟨l, hl, hlt, -, hReach⟩) | ⟨u, w, hu, hiu, hClimb, -, hk⟩)
    · exact Or.inl (Or.inl h)
    · exact Or.inl (Or.inr ⟨l, hl, hlt, hReach⟩)
    · exact Or.inr ⟨u, w, hu, hiu, hClimb, hk⟩
  · rintro ((h | ⟨l, hl, hlt, hReach⟩) | ⟨u, w, hu, hiu, hClimb, hk⟩)
    · exact Or.inl (Or.inl h)
    · exact Or.inl (Or.inr ⟨l, hl, hlt, l.isLt, hReach⟩)
    · exact Or.inr ⟨u, w, hu, hiu, hClimb, w.isLt, hk⟩

/-- One row, where the rows before it are complete and those after it are as they were. -/
theorem mem_addRow (hBefore : ∀ j < i, ∀ k, k ∈ D j ↔ Reaches dependencies j k)
    (hAfter : ∀ j, i ≤ j → D j = dependencies j) :
    k ∈ (addRow i ⟨D, false⟩).dependencies i ↔ Found dependencies i k := by
  have hColumns := foldl_finRange (f := fun s j => addThrough i j s) (s := ⟨D, false⟩)
    (motive := fun b s => ∃ D', s = ⟨D', false⟩ ∧ (∀ j, j ≠ i → D' j = D j) ∧
      ∀ k, k ∈ D' i ↔ FoundBefore dependencies i b k) ?_ ?_
  · obtain ⟨D', hEq, -, hFound⟩ := hColumns
    rw [addRow, hEq]
    exact (hFound k).trans foundBefore_all
  · refine ⟨D, rfl, fun _ _ => rfl, fun k => ?_⟩
    rw [hAfter i le_rfl]
    exact foundBefore_zero.symm
  · rintro j s ⟨D', rfl, hOther, hFound⟩
    refine ⟨_, addThrough_eq, fun l hl => ?_, fun k => ?_⟩
    · split
      · rw [Function.update_of_ne hl, hOther l hl]
      · exact hOther l hl
    · rw [foundBefore_succ, ← hFound k, ← hFound j]
      by_cases hij : i = j
      · simp [hij]
      · have hColumn : k ∈ D' j ↔ j < i ∧ Reaches dependencies j k ∨ i < j ∧ k ∈ dependencies j := by
          rw [hOther j (Ne.symm hij)]
          rcases lt_or_gt_of_ne hij with hlt | hlt
          · rw [hAfter j hlt.le]
            simp [hlt, hlt.not_gt]
          · rw [hBefore j hlt]
            simp [hlt, hlt.not_gt]
        by_cases hj : j ∈ D' i
        · rw [if_pos ⟨hij, hj⟩, Function.update_self, Finset.mem_union, hColumn]
          simp [hij, hj]
        · rw [if_neg fun h => hj h.2]
          simp [hj]

/-- A row holds what it finds as soon as the rows before it are complete. -/
theorem addRound_spec (dependencies : Dependencies n) : ∃ D, addRound dependencies = ⟨D, false⟩ ∧
    ∀ i, (∀ j < i, ∀ k, k ∈ D j ↔ Reaches dependencies j k) → ∀ k, k ∈ D i ↔ Found dependencies i k := by
  have hRows := foldl_finRange (f := fun s i => addRow i s) (s := ⟨dependencies, false⟩)
    (motive := fun b s => ∃ D, s = ⟨D, false⟩ ∧ (∀ i : Fin n, b ≤ i → D i = dependencies i) ∧
      ∀ i : Fin n, i < b → (∀ j < i, ∀ k, k ∈ D j ↔ Reaches dependencies j k) →
        ∀ k, k ∈ D i ↔ Found dependencies i k) ?_ ?_
  · obtain ⟨D, hEq, -, hFound⟩ := hRows
    exact ⟨D, hEq, fun i => hFound i i.isLt⟩
  · exact ⟨dependencies, rfl, fun _ _ => rfl, fun i hi => absurd hi (Nat.not_lt_zero _)⟩
  · rintro i s ⟨D, rfl, hAfter, hFound⟩
    obtain ⟨D', hEq, hOther⟩ := addRow_frame i D
    refine ⟨D', hEq, fun l hl => ?_, fun l hl hComplete k => ?_⟩
    · have hNe : l ≠ i := by
        rintro rfl
        exact absurd hl (Nat.not_succ_le_self _)
      rw [hOther l hNe, hAfter l (Nat.le_of_succ_le hl)]
    · have hBefore : ∀ j < l, ∀ k, k ∈ D j ↔ Reaches dependencies j k := by
        intro j hj k
        have hNe : j ≠ i := ne_of_lt (lt_of_lt_of_le hj (Fin.le_def.mpr (Nat.le_of_lt_succ hl)))
        rw [← hOther j hNe]
        exact hComplete j hj k
      rcases Nat.lt_succ_iff_lt_or_eq.mp hl with hl | hl
      · rw [hOther l (Fin.ne_of_lt hl)]
        exact hFound l hl hBefore k
      · obtain rfl := Fin.ext hl
        rw [← mem_addRow hBefore fun j hj => hAfter j hj, hEq]

/-- What is reached is found row by row, in the order in which the rows are visited. -/
def InOrder (dependencies : Dependencies n) : Prop :=
  ∀ i k, Reaches dependencies i k → Found dependencies i k

/-- The flag is never set, so that the loop ends after one round. -/
theorem add_transitive_dependencies_eq (dependencies : Dependencies n) :
    add_transitive_dependencies dependencies = some (addRound dependencies).dependencies := by
  obtain ⟨D, hEq, -⟩ := addRound_spec dependencies
  rw [add_transitive_dependencies, addLoop, if_pos rfl, hEq, addLoop]
  rfl

/-- One round is enough where everything is found in order, and only there. -/
theorem addRound_complete_iff : (∀ i k, k ∈ (addRound dependencies).dependencies i ↔ Reaches dependencies i k) ↔
    InOrder dependencies := by
  obtain ⟨D, hEq, hFound⟩ := addRound_spec dependencies
  rw [hEq]
  constructor
  · exact fun hAll i k h => (hFound i (fun j _ => hAll j) k).mp ((hAll i k).mpr h)
  · intro hOrder i
    induction i using WellFoundedLT.induction with
    | ind i ih => exact fun k => (hFound i ih k).trans ⟨reaches_of_found, hOrder i k⟩

end Vyasa.Associative

/-! The subgraphs into which a tuple is taken apart, and when they are those of the closed
dependencies. -/
namespace Vyasa.Associative

open Relation

variable {n : Nat} {dependencies closed subgraphs : Dependencies n} {i j k : Fin n}

/-- `current` is compared with `other` and contained in it. -/
def isContained (dependencies subgraphs : Dependencies n) (i j : Fin n) : Bool :=
  let current := dependencies i
  let other := dependencies j
  -- the source asks for the subgraph of `i`, which is not filled in yet
  if i = j ∨ current.card > other.card ∨ (j < i ∧ subgraphs i = ∅) then false
  else decide (current \ other = ∅)

def pickSubgraph (dependencies : Dependencies n) (subgraphs : Dependencies n) (i : Fin n) : Dependencies n :=
  if dependencies i = ∅ then subgraphs
  else if (List.finRange n).any (isContained dependencies subgraphs i) then subgraphs
  else Function.update subgraphs i (dependencies i)

def compute_subgraphs (dependencies : Dependencies n) : Dependencies n :=
  (List.finRange n).foldl (pickSubgraph dependencies) fun _ => ∅

/-- A set that no later one contains. -/
def Kept (dependencies : Dependencies n) (i : Fin n) : Prop := ∀ j > i, ¬ dependencies i ⊆ dependencies j

instance : Decidable (Kept dependencies i) :=
  inferInstanceAs (Decidable (∀ j > i, ¬ dependencies i ⊆ dependencies j))

theorem any_isContained (hEmpty : subgraphs i = ∅) :
    (List.finRange n).any (isContained dependencies subgraphs i) = true ↔ ¬ Kept dependencies i := by
  have hOne (j : Fin n) : isContained dependencies subgraphs i j = true ↔ i < j ∧ dependencies i ⊆ dependencies j := by
    rw [isContained]
    constructor
    · intro h
      split at h
      · cases h
      · next hSkip =>
        simp only [not_or, not_and, not_lt] at hSkip
        have hle : i ≤ j := not_lt.mp fun hlt => hSkip.2.2 hlt hEmpty
        exact ⟨lt_of_le_of_ne hle hSkip.1, Finset.sdiff_eq_empty_iff_subset.mp (of_decide_eq_true h)⟩
    · rintro ⟨hlt, hSub⟩
      rw [if_neg, decide_eq_true (Finset.sdiff_eq_empty_iff_subset.mpr hSub)]
      rintro (hEq | hCard | ⟨hgt, -⟩)
      · exact hlt.ne hEq
      · exact absurd (Finset.card_le_card hSub) (not_le.mpr hCard)
      · exact lt_asymm hlt hgt
  rw [List.any_eq_true, Kept]
  simp only [hOne, List.mem_finRange, true_and, gt_iff_lt, not_forall, not_not, exists_prop]

/-- What is left is what no later set contains. -/
theorem compute_subgraphs_eq : compute_subgraphs dependencies i =
    if Kept dependencies i then dependencies i else ∅ := by
  have hRun := foldl_finRange (f := pickSubgraph dependencies) (s := fun _ => ∅)
    (motive := fun b subgraphs => ∀ i : Fin n, subgraphs i =
      if i.val < b ∧ Kept dependencies i then dependencies i else ∅) ?_ ?_
  · rw [compute_subgraphs, hRun i]
    simp
  · exact fun i => (if_neg fun h => absurd h.1 (Nat.not_lt_zero _)).symm
  · intro j subgraphs hBefore i
    have hEmpty : subgraphs j = ∅ := by
      rw [hBefore j, if_neg fun h => lt_irrefl _ h.1]
    have hPick : pickSubgraph dependencies subgraphs j =
        if Kept dependencies j then Function.update subgraphs j (dependencies j) else subgraphs := by
      rw [pickSubgraph]
      split
      · next hNone =>
        rw [hNone, Function.update_eq_self_iff.mpr hEmpty.symm, ite_self]
      · by_cases hKept : Kept dependencies j
        · rw [if_neg fun h => (any_isContained hEmpty).mp h hKept, if_pos hKept]
        · rw [if_pos ((any_isContained hEmpty).mpr hKept), if_neg hKept]
    rw [hPick]
    by_cases hij : i = j
    · subst hij
      by_cases hKept : Kept dependencies i
      · rw [if_pos hKept, Function.update_self, if_pos ⟨Nat.lt_succ_self _, hKept⟩]
      · rw [if_neg hKept, hEmpty, if_neg fun h => hKept h.2]
    · have hSame : (if Kept dependencies j then Function.update subgraphs j (dependencies j) else subgraphs) i =
          subgraphs i := by
        split
        · exact Function.update_of_ne hij _ _
        · rfl
      have hBound : i.val < j + 1 ↔ i.val < j := by
        have := Fin.val_ne_of_ne hij
        omega
      rw [hSame, hBefore i]
      simp only [hBound]

/-- A family in which no set that is left is contained in another, and that covers all indices. -/
structure Family (subgraphs : Dependencies n) : Prop where
  incomparable : ∀ i j, i ≠ j → (subgraphs i).Nonempty → ¬ subgraphs i ⊆ subgraphs j
  covers : ∀ k, ∃ i, k ∈ subgraphs i

/-- What the grouping of a tuple is for. -/
def GroupsTuple (dependencies : Dependencies n) : Prop :=
  ∃ closed, add_transitive_dependencies dependencies = some closed ∧
    (∀ i k, k ∈ closed i ↔ Reaches dependencies i k) ∧ Family (compute_subgraphs closed)

/-- Of two indices of which the smaller reaches the greater, one is reached from a greater one. -/
def Topped (dependencies : Dependencies n) : Prop :=
  ∀ i j, j < i → Reaches dependencies j i → (∃ l > j, Reaches dependencies l j) ∨ ∃ l > i, Reaches dependencies l i

section Closed

variable (hClosed : ∀ i k, k ∈ closed i ↔ Reaches dependencies i k)
include hClosed

theorem subset_iff_reaches : closed i ⊆ closed j ↔ Reaches dependencies j i := by
  constructor
  · exact fun h => (hClosed j i).mp (h ((hClosed i i).mpr ReflTransGen.refl))
  · exact fun h k hk => (hClosed j k).mpr (h.trans ((hClosed i k).mp hk))

theorem kept_iff : Kept closed i ↔ ∀ l > i, ¬ Reaches dependencies l i := by
  simp only [Kept, subset_iff_reaches hClosed]

theorem exists_kept (k : Fin n) : ∃ i, Kept closed i ∧ k ∈ closed i := by
  obtain ⟨i, hReach, hMax⟩ :=
    Set.Finite.exists_maximal (Set.toFinite {i | Reaches dependencies i k}) ⟨k, ReflTransGen.refl⟩
  refine ⟨i, (kept_iff hClosed).mpr fun l hl h => ?_, (hClosed i k).mpr hReach⟩
  exact absurd (hMax (h.trans hReach) hl.le) (not_le.mpr hl)

theorem family_iff : Family (compute_subgraphs closed) ↔ Topped dependencies := by
  constructor
  · intro h i j hji hReach
    by_contra hNone
    simp only [not_or, not_exists, not_and] at hNone
    have hi : Kept closed i := (kept_iff hClosed).mpr hNone.2
    have hj : Kept closed j := (kept_iff hClosed).mpr hNone.1
    have hNonempty : (compute_subgraphs closed i).Nonempty := by
      rw [compute_subgraphs_eq, if_pos hi]
      exact ⟨i, (hClosed i i).mpr ReflTransGen.refl⟩
    refine h.incomparable i j hji.ne' hNonempty ?_
    rw [compute_subgraphs_eq, compute_subgraphs_eq, if_pos hi, if_pos hj]
    exact (subset_iff_reaches hClosed).mpr hReach
  · intro hTopped
    refine ⟨fun i j hij hNonempty hSub => ?_, fun k => ?_⟩
    · rw [compute_subgraphs_eq] at hNonempty hSub
      split at hNonempty
      · next hi =>
        rw [if_pos hi, compute_subgraphs_eq] at hSub
        split at hSub
        · next hj =>
          rw [kept_iff hClosed] at hi hj
          have hReach := (subset_iff_reaches hClosed).mp hSub
          rcases lt_or_gt_of_ne hij with hlt | hgt
          · exact hi j hlt hReach
          · rcases hTopped i j hgt hReach with ⟨l, hl, h⟩ | ⟨l, hl, h⟩
            · exact hj l hl h
            · exact hi l hl h
        · obtain ⟨k, hk⟩ := hNonempty
          exact absurd (hSub hk) (Finset.notMem_empty k)
      · exact absurd hNonempty Finset.not_nonempty_empty
    · obtain ⟨i, hi, hk⟩ := exists_kept hClosed k
      refine ⟨i, ?_⟩
      rwa [compute_subgraphs_eq, if_pos hi]

end Closed

/-- A tuple is grouped as it should where its dependencies are found in order, and where of two indices of
which the smaller reaches the greater one is reached from a greater one. -/
theorem groupsTuple_iff (dependencies : Dependencies n) :
    GroupsTuple dependencies ↔ InOrder dependencies ∧ Topped dependencies := by
  rw [GroupsTuple, add_transitive_dependencies_eq, ← addRound_complete_iff]
  constructor
  · rintro ⟨closed, hEq, hClosed, hFamily⟩
    obtain rfl := Option.some.inj hEq
    exact ⟨hClosed, (family_iff hClosed).mp hFamily⟩
  · rintro ⟨hClosed, hTopped⟩
    exact ⟨_, rfl, hClosed, (family_iff hClosed).mpr hTopped⟩

/-- The first element depends on the last one through the third and the second. -/
def winding : Dependencies 4 := ![{0, 2}, {1, 3}, {1, 2}, {3}]

/-- The first element depends on the second one. -/
def descending : Dependencies 2 := ![{0, 1}, {1}]

theorem not_groupsTuple_winding_descending : ¬ GroupsTuple winding ∧ ¬ GroupsTuple descending := by
  constructor
  · rintro ⟨closed, hEq, hClosed, -⟩
    have hRow : (add_transitive_dependencies winding).map (fun closed => decide (3 ∈ closed 0)) = some false := by decide
    have hReach : Reaches winding 0 3 :=
      ((ReflTransGen.single (by decide : Depends winding 0 2)).tail (by decide : Depends winding 2 1)).tail
        (by decide : Depends winding 1 3)
    rw [hEq, Option.map_some, Option.some.injEq, decide_eq_false_iff_not, hClosed] at hRow
    exact hRow hReach
  · rintro ⟨closed, hEq, hClosed, hFamily⟩
    have hRuns : (add_transitive_dependencies descending).map compute_subgraphs = some ![{0, 1}, {1}] := by decide
    rw [hEq, Option.map_some, Option.some.injEq] at hRuns
    rw [hRuns] at hFamily
    exact absurd (by decide) (hFamily.incomparable 1 0 (by decide) (by decide))

end Vyasa.Associative
