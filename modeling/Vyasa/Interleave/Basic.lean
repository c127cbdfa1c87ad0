import Mathlib.Data.List.Basic
import Mathlib.Data.List.Perm.Basic

/-! Merges of two lists that keep the order of each. -/

universe u

variable {α : Type u}

inductive Interleave : List α → List α → List α → Prop where
  | nil : Interleave [] [] []
  | left {a : α} {l r t : List α} (h : Interleave l r t) : Interleave (a :: l) r (a :: t)
  | right {a : α} {l r t : List α} (h : Interleave l r t) : Interleave l (a :: r) (a :: t)

namespace Interleave

variable {l r t : List α}

theorem mem_iff {a : α} (h : Interleave l r t) : a ∈ t ↔ a ∈ l ∨ a ∈ r := by
  induction h with
  | nil => simp
  | left _ ih => rw [List.mem_cons, ih, List.mem_cons, or_assoc]
  | right _ ih => rw [List.mem_cons, ih, List.mem_cons, or_left_comm]

/-- What is left of a merge is a merge of what is left. -/
theorem filter (p : α → Bool) (h : Interleave l r t) :
    Interleave (l.filter p) (r.filter p) (t.filter p) := by
  induction h with
  | nil => exact nil
  | @left a _ _ _ _ ih =>
    by_cases ha : p a
    · simpa only [List.filter_cons_of_pos ha] using ih.left
    · simpa only [List.filter_cons_of_neg ha] using ih
  | @right a _ _ _ _ ih =>
    by_cases ha : p a
    · simpa only [List.filter_cons_of_pos ha] using ih.right
    · simpa only [List.filter_cons_of_neg ha] using ih

/-- A merge of three lists can be made in another order. -/
theorem assoc : ∀ {t a b c bc : List α}, Interleave a bc t → Interleave b c bc →
    ∃ ab, Interleave a b ab ∧ Interleave ab c t
  | [], _, _, _, _, .nil, .nil => ⟨[], nil, nil⟩
  | _ :: _, _, _, _, _, .left h, h' => by
    obtain ⟨ab, hab, ht⟩ := assoc h h'
    exact ⟨_, hab.left, ht.left⟩
  | _ :: _, _, _, _, _, .right h, .left h' => by
    obtain ⟨ab, hab, ht⟩ := assoc h h'
    exact ⟨_, hab.right, ht.left⟩
  | _ :: _, _, _, _, _, .right h, .right h' => by
    obtain ⟨ab, hab, ht⟩ := assoc h h'
    exact ⟨ab, hab, ht.right⟩

end Interleave
