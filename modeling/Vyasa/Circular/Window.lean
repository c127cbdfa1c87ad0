import Mathlib.Algebra.Order.Ring.Abs
import Mathlib.Algebra.Order.Ring.Int
import Mathlib.Algebra.Order.Group.Int
import Mathlib.Logic.Function.Basic

/-! A circular buffer addressed by coordinates modulo its size. It holds what was written last
within one size of the leading edge, in the direction the edge moves. -/
namespace Vyasa.Circular

variable {β : Type} {size lead lead' : Int} {pos : Int → Int} {memory : Int → β}
  {value : Int → β} {written : Int → Prop}

/-- The position of a coordinate along the direction of travel keeps distances. -/
def Direction (pos : Int → Int) : Prop := ∀ c c', |pos c - pos c'| = |c - c'|

/-- Coordinates that share a slot are a whole size apart. -/
theorem Direction.le_of_slot (hPos : Direction pos) (hSize : 0 < size) {c c' : Int}
    (hSlot : c % size = c' % size) (hne : c ≠ c') : size ≤ |pos c - pos c'| := by
  rw [hPos c c']
  obtain ⟨k, hk⟩ : size ∣ c - c' :=
    Int.dvd_of_emod_eq_zero (Int.emod_eq_emod_iff_emod_sub_eq_zero.mp hSlot)
  have hk0 : k ≠ 0 := by
    rintro rfl
    rw [mul_zero] at hk
    exact hne (by omega)
  rw [hk, abs_mul, abs_of_pos hSize]
  exact le_mul_of_one_le_right hSize.le (Int.one_le_abs hk0)

/-- What was written behind the leading edge and less than a size away from it is still
there. -/
structure Holds (size : Int) (pos : Int → Int) (value : Int → β) (memory : Int → β)
    (written : Int → Prop) (lead : Int) : Prop where
  behind : ∀ c, written c → pos c ≤ lead
  kept : ∀ c, written c → lead - size < pos c → memory (c % size) = value c

theorem Holds.empty (memory : Int → β) : Holds size pos value memory (fun _ => False) lead :=
  ⟨fun _ h => h.elim, fun _ h => h.elim⟩

/-- The leading edge may move on at any time. -/
theorem Holds.advance (h : Holds size pos value memory written lead) (hLead : lead ≤ lead') :
    Holds size pos value memory written lead' where
  behind c hc := (h.behind c hc).trans hLead
  kept c hc hNear := h.kept c hc (by omega)

/-- A write within the window overwrites nothing that is in the window. -/
theorem Holds.write (h : Holds size pos value memory written lead) (hPos : Direction pos)
    (hSize : 0 < size) {c : Int} (hBehind : pos c ≤ lead) (hNear : lead - size < pos c) :
    Holds size pos value (Function.update memory (c % size) (value c))
      (fun c' => written c' ∨ c' = c) lead where
  behind c' hc' := by
    rcases hc' with hc' | rfl
    · exact h.behind c' hc'
    · exact hBehind
  kept c' hc' hNear' := by
    by_cases hEq : c' = c
    · rw [hEq, Function.update_self]
    · have hWritten : written c' := hc'.resolve_right hEq
      have hBehind' := h.behind c' hWritten
      have hSlot : c' % size ≠ c % size := by
        intro hSlot
        have hApart := hPos.le_of_slot hSize hSlot hEq
        rcases abs_cases (pos c' - pos c) with ⟨hAbs, -⟩ | ⟨hAbs, -⟩ <;> omega
      rw [Function.update_of_ne hSlot]
      exact h.kept c' hWritten hNear'

end Vyasa.Circular
