import Mathlib.Order.Monotone.Defs

/-! Directions in which a value can move, how they combine, and what a map that keeps or
reverses the order does to them. -/
namespace Vyasa

inductive Trend where
  | constant | increasing | decreasing | unknown
deriving DecidableEq, Repr

namespace Trend

def flip : Trend → Trend
  | increasing => decreasing
  | decreasing => increasing
  | r => r

/-- The direction of what moves along with two values. -/
def unify (a b : Trend) : Trend :=
  if a = b then a
  else if a = unknown ∨ b = unknown then unknown
  else if a = constant then b
  else if b = constant then a
  else unknown

section Preorder

variable {α β γ : Type*} [Preorder α] [Preorder β] [Preorder γ] {r s : Trend} {a b c : α}

/-- A move from one value to another is in the direction. -/
def Holds : Trend → α → α → Prop
  | constant, a, b => a = b
  | increasing, a, b => a ≤ b
  | decreasing, a, b => b ≤ a
  | unknown, _, _ => True

theorem Holds.of_eq (r : Trend) (h : a = b) : r.Holds a b := by
  subst h
  cases r with
  | constant => rfl
  | increasing | decreasing => exact le_rfl
  | unknown => trivial

theorem Holds.trans (hab : r.Holds a b) (hbc : r.Holds b c) : r.Holds a c := by
  cases r with
  | constant => exact Eq.trans hab hbc
  | increasing => exact le_trans hab hbc
  | decreasing => exact le_trans hbc hab
  | unknown => trivial

theorem Holds.unify_left (s : Trend) (h : r.Holds a b) : (unify r s).Holds a b := by
  cases r with
  | constant => exact of_eq _ h
  | increasing | decreasing => cases s <;> first | exact h | trivial
  | unknown => cases s <;> trivial

theorem unify_comm (r s : Trend) : unify r s = unify s r := by
  cases r <;> cases s <;> rfl

theorem Holds.unify_right (r : Trend) (h : s.Holds a b) : (unify r s).Holds a b :=
  unify_comm s r ▸ h.unify_left r

theorem Holds.map {f : α → β} (hf : Monotone f) (h : r.Holds a b) : r.Holds (f a) (f b) := by
  cases r with
  | constant => exact congrArg f h
  | increasing | decreasing => exact hf h
  | unknown => trivial

theorem Holds.map_flip {f : α → β} (hf : Antitone f) (h : r.Holds a b) :
    r.flip.Holds (f a) (f b) := by
  cases r with
  | constant => exact congrArg f h
  | increasing | decreasing => exact hf h
  | unknown => trivial

/-- One move after the other. -/
theorem Holds.unify_trans (hab : r.Holds a b) (hbc : s.Holds b c) : (unify r s).Holds a c :=
  (hab.unify_left s).trans (hbc.unify_right r)

/-- A map of two arguments moves along with both. -/
theorem Holds.map₂ (f : α → β → γ) (hLeft : ∀ y, Monotone fun x => f x y) (hRight : ∀ x, Monotone (f x))
    {x x' : α} {y y' : β} (hx : r.Holds x x') (hy : s.Holds y y') :
    (unify r s).Holds (f x y) (f x' y') :=
  (hx.map (hLeft y)).unify_trans (hy.map (hRight x'))

/-- Of two arguments the first is reversed. -/
theorem Holds.map₂_flip (f : α → β → γ) (hLeft : ∀ y, Antitone fun x => f x y)
    (hRight : ∀ x, Monotone (f x)) {x x' : α} {y y' : β} (hx : r.Holds x x') (hy : s.Holds y y') :
    (unify r.flip s).Holds (f x y) (f x' y') :=
  (hx.map_flip (hLeft y)).unify_trans (hy.map (hRight x'))

theorem Holds.le (h : r.Holds a b) (hr : r = increasing ∨ r = constant) : a ≤ b := by
  rcases hr with rfl | rfl
  · exact h
  · exact le_of_eq h

theorem Holds.ge (h : r.Holds a b) (hr : r = decreasing ∨ r = constant) : b ≤ a := by
  rcases hr with rfl | rfl
  · exact h
  · exact ge_of_eq h

end Preorder

end Trend

end Vyasa
