import Mathlib.Logic.Function.Basic
import Mathlib.Logic.Nontrivial.Basic
import Mathlib.Tactic.Common

/-! Memories whose cells are copied from place to place. Each cell ends with what one place,
its origin, held at the start, whatever the cells hold. -/
namespace Relocate

variable {A V : Type*} {R R' T : A → A → Prop} {origin origin' : A → A} {f f' : (A → V) → A → V} {a b c : A}

/-- No place is both written and read. -/
def Apart (R : A → A → Prop) : Prop := ∀ a b c, R a b → ¬ R b c

/-- What the origins say of the copies `R a b`, each of place `b` to place `a`. -/
structure Traces (R : A → A → Prop) (origin : A → A) : Prop where
  written : ∀ a, origin a ≠ a → ∃ b, R a b
  read : ∀ a, origin a ≠ a → ∃ c, R c (origin a)
  copied : Apart R → ∀ a, R a (origin a) ∨ ((∀ b, ¬ R a b) ∧ origin a = a)

/-- A change of memories that makes these copies, in some order. -/
def Carries (R : A → A → Prop) (f : (A → V) → A → V) : Prop :=
  ∃ origin, Traces R origin ∧ ∀ m, f m = m ∘ origin

/-- The memory after has every copy, and is the memory before elsewhere. -/
def Exact (T : A → A → Prop) (f : (A → V) → A → V) : Prop :=
  ∀ m, (∀ a b, T a b → f m a = m b) ∧ ∀ a, (∀ b, ¬ T a b) → f m a = m a

theorem Traces.comp (h : Traces R origin) (h' : Traces R' origin') :
    Traces (fun a b => R a b ∨ R' a b) (origin ∘ origin') where
  written a hMoved := by
    by_cases hLast : origin' a = a
    · rw [Function.comp_apply, hLast] at hMoved
      obtain ⟨b, hb⟩ := h.written a hMoved
      exact ⟨b, Or.inl hb⟩
    · obtain ⟨b, hb⟩ := h'.written a hLast
      exact ⟨b, Or.inr hb⟩
  read a hMoved := by
    rw [Function.comp_apply] at hMoved ⊢
    by_cases hFirst : origin (origin' a) = origin' a
    · rw [hFirst] at hMoved ⊢
      obtain ⟨c, hc⟩ := h'.read a hMoved
      exact ⟨c, Or.inr hc⟩
    · obtain ⟨c, hc⟩ := h.read _ hFirst
      exact ⟨c, Or.inl hc⟩
  copied hApart a := by
    have hFirst : Apart R := fun a b c hab hbc => hApart a b c (Or.inl hab) (Or.inl hbc)
    have hLast : Apart R' := fun a b c hab hbc => hApart a b c (Or.inr hab) (Or.inr hbc)
    rw [Function.comp_apply]
    rcases h'.copied hLast a with hCopy | ⟨hNot, hSame⟩
    · -- What the last copy reads, no copy before it writes.
      rcases h.copied hFirst (origin' a) with hBefore | ⟨-, hSame⟩
      · exact absurd (Or.inl hBefore) (hApart _ _ _ (Or.inr hCopy))
      · rw [hSame]
        exact Or.inl (Or.inr hCopy)
    · rw [hSame]
      rcases h.copied hFirst a with hCopy | ⟨hNot', hSame'⟩
      · exact Or.inl (Or.inl hCopy)
      · exact Or.inr ⟨fun b hb => hb.elim (hNot' b) (hNot b), hSame'⟩

theorem carries_id : Carries (fun _ _ => False) (id : (A → V) → A → V) := by
  refine ⟨id, ⟨fun a h => ?_, fun a h => ?_, fun _ a => ?_⟩, fun m => rfl⟩
  · exact absurd rfl h
  · exact absurd rfl h
  · exact Or.inr ⟨fun _ => not_false, rfl⟩

/-- One copy of all of a region at once. -/
theorem carries_region (W : A → Prop) [DecidablePred W] (move : A → A) :
    Carries (fun a b => W a ∧ b = move a) fun (m : A → V) a => if W a then m (move a) else m a := by
  refine ⟨fun a => if W a then move a else a, ⟨fun a h => ?_, fun a h => ?_, fun _ a => ?_⟩, fun m => ?_⟩
  · exact ⟨move a, of_not_not fun hNot => h (if_neg hNot), rfl⟩
  · have hW : W a := of_not_not fun hNot => h (if_neg hNot)
    exact ⟨a, hW, if_pos hW⟩
  · by_cases hW : W a
    · exact Or.inl ⟨hW, if_pos hW⟩
    · exact Or.inr ⟨fun b hb => hW hb.1, if_neg hW⟩
  · funext a
    exact (apply_ite m (W a) (move a) a).symm

theorem Carries.comp (h : Carries R f) (h' : Carries R' f') :
    Carries (fun a b => R a b ∨ R' a b) (f' ∘ f) := by
  obtain ⟨origin, hOrigin, hf⟩ := h
  obtain ⟨origin', hOrigin', hf'⟩ := h'
  refine ⟨origin ∘ origin', hOrigin.comp hOrigin', fun m => ?_⟩
  rw [Function.comp_apply, hf', hf, Function.comp_assoc]

theorem Carries.congr (h : Carries R f) (hEq : ∀ a b, R a b ↔ R' a b) : Carries R' f := by
  have hSame : R = R' := funext₂ fun a b => propext (hEq a b)
  exact hSame ▸ h

theorem Carries.of_empty (h : Carries R f) (hEmpty : ∀ a b, ¬ R a b) (m : A → V) : f m = m := by
  obtain ⟨origin, hOrigin, hf⟩ := h
  rw [hf]
  funext a
  by_contra hMoved
  obtain ⟨b, hb⟩ := hOrigin.written a fun hSame => hMoved (congrArg m hSame)
  exact hEmpty a b hb

theorem Carries.exact (h : Carries T f) (hApart : Apart T)
    (hUnique : ∀ a b c, T a b → T a c → b = c) : Exact T f := by
  obtain ⟨origin, hOrigin, hf⟩ := h
  intro m
  simp only [hf, Function.comp_apply]
  refine ⟨fun a b hab => ?_, fun a hNot => ?_⟩
  · rcases hOrigin.copied hApart a with hCopy | ⟨hNot, -⟩
    · rw [hUnique a _ b hCopy hab]
    · exact absurd hab (hNot b)
  · rcases hOrigin.copied hApart a with hCopy | ⟨-, hSame⟩
    · exact absurd hCopy (hNot _)
    · rw [hSame]

section Nontrivial

variable [Nontrivial V]

/-- Places that agree in every memory are one place. -/
theorem eq_of_forall (h : ∀ m : A → V, m a = m b) : a = b := by
  classical
  obtain ⟨v, w, hNe⟩ := exists_pair_ne V
  by_contra hab
  refine hNe ?_
  simpa [Function.update_of_ne (Ne.symm hab)] using h (Function.update (fun _ => w) a v)

theorem Exact.unique {f : (A → V) → A → V} (h : Exact T f) (hb : T a b) (hc : T a c) : b = c := by
  refine eq_of_forall (V := V) fun m => ?_
  rw [← (h m).1 a b hb, (h m).1 a c hc]

/-- Copies that are made exactly are made by copies to the same places from the same places. -/
theorem Carries.of_exact {f : (A → V) → A → V} (h : Carries R f) (hExact : Exact T f)
    (hab : T a b) (hNe : a ≠ b) : (∃ b', R a b') ∧ ∃ a', R a' b := by
  obtain ⟨origin, hOrigin, hf⟩ := h
  have hb : origin a = b := by
    refine eq_of_forall (V := V) fun m => ?_
    rw [← (hExact m).1 a b hab, hf, Function.comp_apply]
  have hMoved : origin a ≠ a := hb ▸ hNe.symm
  exact ⟨hOrigin.written a hMoved, hb ▸ hOrigin.read a hMoved⟩

end Nontrivial

end Relocate
