import Mathlib.Data.List.Induction

/-! Sequences of lines in which each line is to fit the lines before it, and loops that
may fail. -/
namespace History

variable {α σ : Type} {P Q : List α → α → Prop} {lines more : List α} {x : α}

/-- Every line is as it should be after the lines before it. -/
def EachAfter (P : List α → α → Prop) (lines : List α) : Prop :=
  ∀ before line after, lines = before ++ line :: after → P before line

theorem eachAfter_nil : EachAfter P [] := by
  intro before line after hEq
  exact absurd hEq.symm (List.append_ne_nil_of_right_ne_nil _ (List.cons_ne_nil _ _))

theorem eachAfter_concat : EachAfter P (lines ++ [x]) ↔ EachAfter P lines ∧ P lines x := by
  constructor
  · intro h
    refine ⟨fun before line after hEq => ?_, h lines x [] rfl⟩
    refine h before line (after ++ [x]) ?_
    rw [hEq, List.append_assoc, List.cons_append]
  · rintro ⟨hLines, hx⟩ before line after hEq
    rcases List.eq_nil_or_concat after with rfl | ⟨rest, y, rfl⟩
    · obtain ⟨rfl, hLast⟩ := List.append_inj' hEq rfl
      cases hLast
      exact hx
    · rw [List.concat_eq_append, ← List.cons_append, ← List.append_assoc] at hEq
      obtain ⟨rfl, -⟩ := List.append_inj' hEq rfl
      exact hLines before line rest rfl

/-- Lines that fit whatever comes before them may be added. -/
theorem EachAfter.append (h : EachAfter P lines) (hMore : ∀ line ∈ more, ∀ before, P (lines ++ before) line) :
    EachAfter P (lines ++ more) := by
  induction more using List.reverseRecOn with
  | nil => rwa [List.append_nil]
  | append_singleton more x ih =>
    rw [← List.append_assoc, eachAfter_concat]
    exact ⟨ih fun line hLine => hMore line (List.mem_append_left _ hLine),
      hMore x (List.mem_append_right _ List.mem_cons_self) more⟩

theorem EachAfter.of_mem (h : EachAfter P lines) (hx : x ∈ lines) :
    ∃ before after, lines = before ++ x :: after ∧ P before x := by
  obtain ⟨before, after, rfl⟩ := List.append_of_mem hx
  exact ⟨before, after, rfl, h before x after rfl⟩

/-- What every turn of a loop keeps holds at its end. -/
theorem foldlM_invariant {f : σ → α → Option σ} {I : σ → Prop} {s s' : σ}
    (hStep : ∀ s x s', x ∈ lines → I s → f s x = some s' → I s') (hInit : I s)
    (h : lines.foldlM f s = some s') : I s' := by
  induction lines generalizing s with
  | nil =>
    cases h
    exact hInit
  | cons x lines ih =>
    rw [List.foldlM_cons] at h
    obtain ⟨s₁, hHead, hRest⟩ := Option.bind_eq_some_iff.mp h
    exact ih (fun s y s' hy => hStep s y s' (List.mem_cons_of_mem _ hy))
      (hStep s x s₁ List.mem_cons_self hInit hHead) hRest

/-- What every turn makes true for its own element, and later turns keep, holds for all
elements at the end. -/
theorem foldlM_each {f : σ → α → Option σ} {R : α → σ → Prop} {s s' : σ}
    (hStep : ∀ s x s', x ∈ lines → f s x = some s' → R x s')
    (hKeep : ∀ s x s' y, x ∈ lines → f s x = some s' → R y s → R y s')
    (h : lines.foldlM f s = some s') : ∀ x ∈ lines, R x s' := by
  induction lines generalizing s with
  | nil => simp
  | cons x lines ih =>
    rw [List.foldlM_cons] at h
    obtain ⟨s₁, hHead, hRest⟩ := Option.bind_eq_some_iff.mp h
    intro y hy
    rcases List.mem_cons.mp hy with rfl | hy
    · refine foldlM_invariant (I := R y) (fun s x s' hx hs hx' => ?_)
        (hStep s y s₁ List.mem_cons_self hHead) hRest
      exact hKeep s x s' y (List.mem_cons_of_mem _ hx) hx' hs
    · exact ih (fun s x s' hx => hStep s x s' (List.mem_cons_of_mem _ hx))
        (fun s x s' z hx => hKeep s x s' z (List.mem_cons_of_mem _ hx)) hRest y hy

end History
