import Mathlib.Logic.Relation
import Mathlib.Order.WellFounded

/-! Relations in which one vertex gets new successors, and when that keeps every
path finite. -/
namespace Graph

open Relation

variable {α : Type*} {r : α → α → Prop} {v a b : α} {succ : α → Prop}

/-- Every path of the relation ends. -/
def Terminating (r : α → α → Prop) : Prop := WellFounded (Function.swap r)

/-- The relation with other successors for one vertex. -/
def Redirect (r : α → α → Prop) (v : α) (succ : α → Prop) (a b : α) : Prop :=
  (a = v ∧ succ b) ∨ (a ≠ v ∧ r a b)

theorem Terminating.acyclic (h : Terminating r) (v : α) : ¬ TransGen r v v := by
  intro hCycle
  have hSwap : TransGen (Function.swap r) v v := transGen_swap.mpr hCycle
  exact (WellFounded.transGen h).irrefl.irrefl v hSwap

/-- A vertex from which the redirected one is out of reach is as before. -/
theorem acc_redirect_of_not_reaches (h : Terminating r) (hReach : ¬ ReflTransGen r a v) :
    Acc (Function.swap (Redirect r v succ)) a := by
  induction a using h.induction with
  | _ a ih =>
    refine Acc.intro a fun b hStep => ?_
    rcases hStep with ⟨hEq, -⟩ | ⟨-, hStep⟩
    · exact absurd (hEq ▸ ReflTransGen.refl) hReach
    · exact ih b hStep fun hb => hReach (ReflTransGen.head hStep hb)

theorem Terminating.redirect (h : Terminating r) (hNew : ∀ b, succ b → ¬ ReflTransGen r b v) :
    Terminating (Redirect r v succ) := by
  have hAt : Acc (Function.swap (Redirect r v succ)) v := by
    refine Acc.intro v fun b hStep => ?_
    rcases hStep with ⟨-, hb⟩ | ⟨hNe, -⟩
    · exact acc_redirect_of_not_reaches h (hNew b hb)
    · exact absurd rfl hNe
  refine ⟨fun a => ?_⟩
  induction a using h.induction with
  | _ a ih =>
    refine Acc.intro a fun b hStep => ?_
    rcases hStep with ⟨rfl, hb⟩ | ⟨-, hStep⟩
    · exact Acc.inv hAt (Or.inl ⟨rfl, hb⟩)
    · exact ih b hStep

/-- A path to the redirected vertex leaves it only at its end, and stays. -/
theorem reaches_redirect (h : ReflTransGen r a v) : ReflTransGen (Redirect r v succ) a v := by
  induction h using ReflTransGen.head_induction_on with
  | refl => exact ReflTransGen.refl
  | @head a b hStep _ ih =>
    by_cases hEq : a = v
    · exact hEq ▸ ReflTransGen.refl
    · exact ReflTransGen.head (Or.inr ⟨hEq, hStep⟩) ih

/-- The exact condition under which new successors keep every path finite. -/
theorem terminating_redirect_iff (h : Terminating r) :
    Terminating (Redirect r v succ) ↔ ∀ b, succ b → ¬ ReflTransGen r b v := by
  refine ⟨fun hNew b hb hReach => ?_, h.redirect⟩
  exact hNew.acyclic v (TransGen.head' (Or.inl ⟨rfl, hb⟩) (reaches_redirect hReach))

end Graph
