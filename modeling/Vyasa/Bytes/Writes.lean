import Mathlib.Data.List.Basic
import Mathlib.Data.List.Pairwise
import Mathlib.Tactic.Common

/-! Writes of runs of cells into a flat memory, and sequences of writes that tile a
range of it without gap or overlap. -/
namespace Bytes

variable {α : Type*}

/-- A run of cells stored from an address on. -/
structure Write (α : Type*) where
  offset : Nat
  cells : List α

/-- The address after the last cell of a write. -/
def Write.stop (w : Write α) : Nat := w.offset + w.cells.length

def Write.Covers (w : Write α) (i : Nat) : Prop := w.offset ≤ i ∧ i < w.stop

instance (w : Write α) (i : Nat) : Decidable (w.Covers i) :=
  inferInstanceAs (Decidable (_ ∧ _))

/-- No cell is stored by both writes. -/
def Write.Apart (v w : Write α) : Prop := ∀ i, v.Covers i → ¬ w.Covers i

/-- The memory after one write. -/
def Write.apply (memory : Nat → α) (w : Write α) (i : Nat) : α :=
  if w.offset ≤ i then w.cells[i - w.offset]?.getD (memory i) else memory i

/-- The memory after writes made in order. -/
def applyAll (memory : Nat → α) (ws : List (Write α)) : Nat → α :=
  ws.foldl Write.apply memory

/-- The memory holds what the write stored. -/
def Write.Held (memory : Nat → α) (w : Write α) : Prop :=
  ∀ j c, w.cells[j]? = some c → memory (w.offset + j) = c

/-- The writes cover `[start, stop)` one after the other. -/
def Tiles : Nat → List (Write α) → Nat → Prop
  | start, [], stop => start = stop
  | start, w :: ws, stop => w.offset = start ∧ Tiles w.stop ws stop

variable {memory : Nat → α} {w : Write α} {ws : List (Write α)} {start stop i : Nat}

theorem Write.apply_of_not_covers (h : ¬ w.Covers i) : w.apply memory i = memory i := by
  unfold Write.apply
  split
  · next hLe =>
    have hLen : w.cells.length ≤ i - w.offset := by
      simp only [Write.Covers, Write.stop] at h
      omega
    simp [List.getElem?_eq_none hLen]
  · rfl

theorem Write.held_apply (memory : Nat → α) (w : Write α) : w.Held (w.apply memory) := by
  intro j c hCell
  simp [Write.apply, hCell]

theorem Write.Held.apply_of_apart {v w : Write α} (h : v.Held memory) (hApart : v.Apart w) :
    v.Held (w.apply memory) := by
  intro j c hCell
  have hLt : j < v.cells.length := (List.getElem?_eq_some_iff.mp hCell).1
  have hCovers : v.Covers (v.offset + j) := ⟨by omega, by simp only [Write.stop]; omega⟩
  rw [Write.apply_of_not_covers (hApart _ hCovers)]
  exact h j c hCell

theorem Tiles.le (h : Tiles start ws stop) : start ≤ stop := by
  induction ws generalizing start with
  | nil => exact Nat.le_of_eq h
  | cons w ws ih =>
    have hRest := ih h.2
    have hFirst := h.1
    simp only [Write.stop] at hRest
    omega

theorem tiles_append {us : List (Write α)} :
    Tiles start (us ++ ws) stop ↔ ∃ middle, Tiles start us middle ∧ Tiles middle ws stop := by
  induction us generalizing start with
  | nil => simp [Tiles]
  | cons u us ih =>
    simp only [List.cons_append, Tiles, ih]
    constructor
    · rintro ⟨hFirst, middle, hUs, hWs⟩
      exact ⟨middle, ⟨hFirst, hUs⟩, hWs⟩
    · rintro ⟨middle, ⟨hFirst, hUs⟩, hWs⟩
      exact ⟨hFirst, middle, hUs, hWs⟩

/-- Every write of a tiling stays inside the range. -/
theorem Tiles.inside (h : Tiles start ws stop) (hMem : w ∈ ws) :
    start ≤ w.offset ∧ w.stop ≤ stop := by
  induction ws generalizing start with
  | nil => simp at hMem
  | cons v ws ih =>
    have hFirst := h.1
    have hRest := h.2.le
    rcases List.mem_cons.mp hMem with rfl | hMem
    · exact ⟨Nat.le_of_eq hFirst.symm, hRest⟩
    · obtain ⟨hLo, hHi⟩ := ih h.2 hMem
      refine ⟨?_, hHi⟩
      simp only [Write.stop] at hLo
      omega

/-- Every cell of the range is stored by some write of a tiling. -/
theorem Tiles.exists_covers (h : Tiles start ws stop) (hLo : start ≤ i) (hHi : i < stop) :
    ∃ w ∈ ws, w.Covers i := by
  induction ws generalizing start with
  | nil =>
    have hEq : start = stop := h
    omega
  | cons w ws ih =>
    have hFirst := h.1
    by_cases hIn : i < w.stop
    · exact ⟨w, List.mem_cons_self, by omega, hIn⟩
    · obtain ⟨v, hMem, hCovers⟩ := ih h.2 (by omega)
      exact ⟨v, List.mem_cons_of_mem w hMem, hCovers⟩

theorem Tiles.pairwise_apart (h : Tiles start ws stop) : ws.Pairwise Write.Apart := by
  induction ws generalizing start with
  | nil => exact List.Pairwise.nil
  | cons w ws ih =>
    refine List.Pairwise.cons ?_ (ih h.2)
    intro v hMem i hW hV
    have hLo := (h.2.inside hMem).1
    have hHi := hW.2
    have hV := hV.1
    omega

theorem held_applyAll (memory : Nat → α) (hApart : ws.Pairwise Write.Apart) (hMem : w ∈ ws) :
    w.Held (applyAll memory ws) := by
  induction ws generalizing memory with
  | nil => simp at hMem
  | cons v ws ih =>
    obtain ⟨hHead, hTail⟩ := List.pairwise_cons.mp hApart
    rcases List.mem_cons.mp hMem with rfl | hMem
    · -- What the first write stored is left alone by the later ones.
      have hKeep : ∀ us memory, (∀ u ∈ us, w.Apart u) → w.Held memory →
          w.Held (applyAll memory us) := by
        intro us
        induction us with
        | nil => exact fun _ _ hHeld => hHeld
        | cons u us ihUs =>
          intro memory hAll hHeld
          exact ihUs _ (fun u' hu' => hAll u' (List.mem_cons_of_mem u hu'))
            (hHeld.apply_of_apart (hAll u List.mem_cons_self))
      exact hKeep ws _ hHead (Write.held_apply memory w)
    · exact ih _ hTail hMem

/-- A memory that holds every write of a tiling reads back their concatenation. -/
theorem Tiles.read (h : Tiles start ws stop) (hHeld : ∀ w ∈ ws, w.Held memory) :
    (List.range' start (stop - start)).map memory = ws.flatMap Write.cells := by
  induction ws generalizing start with
  | nil =>
    have hEq : start = stop := h
    simp [hEq]
  | cons w ws ih =>
    have hFirst := h.1
    have hRest := h.2.le
    have hTail := ih h.2 fun v hv => hHeld v (List.mem_cons_of_mem w hv)
    have hSplit : stop - start = w.cells.length + (stop - w.stop) := by
      simp only [Write.stop] at hRest ⊢
      omega
    have hNext : start + w.cells.length = w.stop := by rw [← hFirst]; rfl
    have hHere : (List.range' start w.cells.length).map memory = w.cells := by
      refine List.ext_getElem (by simp) fun j hLeft hRight => ?_
      have hCell := hHeld w List.mem_cons_self j _ (List.getElem?_eq_getElem hRight)
      simpa [hFirst] using hCell
    rw [List.flatMap_cons, hSplit, ← List.range'_append_1, List.map_append, hHere, hNext, hTail]

end Bytes
