import Mathlib.Algebra.Order.BigOperators.Group.List
import Mathlib.Algebra.Order.Ring.Int

/-! A pool of stacks, one for each thread, and sums of a weight over all their frames. A step
of one thread changes the top of one stack. -/
namespace Vyasa.Pool

variable {α : Type}

/-- The sum of the weights of all frames. -/
def weight (w : α → Int) (pool : List (List α)) : Int :=
  (pool.map fun stack => (stack.map w).sum).sum

/-- A frame stands on some stack. -/
def On (f : α) (pool : List (List α)) : Prop := ∃ stack ∈ pool, f ∈ stack

variable {w : α → Int} {f g : α} {fs : List α} {ts ts₁ ts₂ : List (List α)}

@[simp] theorem weight_nil : weight w [] = 0 := rfl

@[simp] theorem weight_cons : weight w (fs :: ts) = (fs.map w).sum + weight w ts := by
  simp [weight]

@[simp] theorem weight_append : weight w (ts₁ ++ ts₂) = weight w ts₁ + weight w ts₂ := by
  simp [weight]

/-- The frame on top of one stack counts once. -/
theorem weight_push :
    weight w (ts₁ ++ (f :: fs) :: ts₂) = w f + weight w (ts₁ ++ fs :: ts₂) := by
  simp only [weight_append, weight_cons, List.map_cons, List.sum_cons]
  omega

theorem on_push : On g (ts₁ ++ (f :: fs) :: ts₂) ↔ g = f ∨ On g (ts₁ ++ fs :: ts₂) := by
  simp only [On, List.mem_append, List.mem_cons]
  constructor
  · rintro ⟨stack, hStack | rfl | hStack, hg⟩
    · exact .inr ⟨stack, .inl hStack, hg⟩
    · rcases List.mem_cons.mp hg with rfl | hg
      · exact .inl rfl
      · exact .inr ⟨fs, .inr (.inl rfl), hg⟩
    · exact .inr ⟨stack, .inr (.inr hStack), hg⟩
  · rintro (rfl | ⟨stack, hStack | rfl | hStack, hg⟩)
    · exact ⟨g :: fs, .inr (.inl rfl), List.mem_cons_self⟩
    · exact ⟨stack, .inl hStack, hg⟩
    · exact ⟨f :: stack, .inr (.inl rfl), List.mem_cons_of_mem _ hg⟩
    · exact ⟨stack, .inr (.inr hStack), hg⟩

theorem on_append_singleton : On g (ts ++ [[f]]) ↔ On g ts ∨ g = f := by
  simp only [On, List.mem_append, List.mem_singleton]
  constructor
  · rintro ⟨stack, hStack | rfl, hg⟩
    · exact .inl ⟨stack, hStack, hg⟩
    · exact .inr (List.mem_singleton.mp hg)
  · rintro (⟨stack, hStack, hg⟩ | rfl)
    · exact ⟨stack, .inl hStack, hg⟩
    · exact ⟨[g], .inr rfl, List.mem_singleton_self g⟩

theorem weight_eq_zero (h : ∀ f, On f ts → w f = 0) : weight w ts = 0 := by
  induction ts with
  | nil => rfl
  | cons fs ts ih =>
    have hTop : (fs.map w).sum = 0 := by
      refine List.sum_eq_zero fun x hx => ?_
      obtain ⟨f, hf, rfl⟩ := List.mem_map.mp hx
      exact h f ⟨fs, List.mem_cons_self, hf⟩
    rw [weight_cons, hTop, ih fun f hf => h f ?_, add_zero]
    obtain ⟨stack, hStack, hMem⟩ := hf
    exact ⟨stack, List.mem_cons_of_mem _ hStack, hMem⟩

theorem weight_nonneg (h : ∀ f, 0 ≤ w f) : 0 ≤ weight w ts := by
  refine List.sum_nonneg fun x hx => ?_
  obtain ⟨fs, -, rfl⟩ := List.mem_map.mp hx
  refine List.sum_nonneg fun y hy => ?_
  obtain ⟨f, -, rfl⟩ := List.mem_map.mp hy
  exact h f

theorem le_weight (h : ∀ f, 0 ≤ w f) (hf : On f ts) : w f ≤ weight w ts := by
  obtain ⟨stack, hStack, hMem⟩ := hf
  have hTop : w f ≤ (stack.map w).sum :=
    List.single_le_sum (by simpa using fun a _ => h a) _ (List.mem_map_of_mem hMem)
  refine hTop.trans (List.single_le_sum ?_ _ (List.mem_map_of_mem hStack))
  intro x hx
  obtain ⟨fs, -, rfl⟩ := List.mem_map.mp hx
  refine List.sum_nonneg fun y hy => ?_
  obtain ⟨f, -, rfl⟩ := List.mem_map.mp hy
  exact h f

end Vyasa.Pool
