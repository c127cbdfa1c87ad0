import Mathlib.Data.Option.Basic

/-! A value held in two copies: a near one, and a far one that may be absent and stands at
some place. Each copy has a mark that says it is ahead of the other. -/
namespace Vyasa

/-- The two copies. `latest` is what a single copy would hold after the same writes. -/
structure Mirror (D V : Type) where
  near : V
  far : Option (D × V)
  near_dirty : Bool
  far_dirty : Bool
  latest : V
  deriving DecidableEq

namespace Mirror

variable {D V : Type}

/-- Nothing is written yet and there is no far copy. -/
def fresh (blank : V) : Mirror D V := ⟨blank, none, false, false, blank⟩

def pull (m : Mirror D V) : Mirror D V :=
  match m.far with
  | none => m
  | some (_, v) => { m with near := v, far_dirty := false }

def push (m : Mirror D V) : Mirror D V :=
  { m with far := m.far.map fun c => (c.1, m.near), near_dirty := false }

/-- Make a far copy at `d`; what it holds is not written. -/
def alloc (blank : V) (d : D) (m : Mirror D V) : Mirror D V := { m with far := some (d, blank) }

def drop (m : Mirror D V) : Mirror D V := { m with far := none }

def markNear (m : Mirror D V) : Mirror D V := { m with near_dirty := true }

def markFar (m : Mirror D V) : Mirror D V := { m with far_dirty := true }

def writeNear (update : V → V) (m : Mirror D V) : Mirror D V :=
  { m with near := update m.near, latest := update m.latest }

def writeFar (update : V → V) (m : Mirror D V) : Mirror D V :=
  { m with far := m.far.map fun c => (c.1, update c.2), latest := update m.latest }

/-- A copy that is not behind the other holds the latest value, and a missing far copy
leaves nothing behind. -/
structure Coherent (blank : V) (m : Mirror D V) : Prop where
  one_dirty : m.near_dirty = true → m.far_dirty = false
  near_latest : m.far_dirty = false → m.near = m.latest
  far_latest : m.near_dirty = false → ∀ d v, m.far = some (d, v) → v = m.latest
  unwritten : m.near_dirty = false → m.far = none → m.latest = blank

variable {blank : V} {m : Mirror D V} {d : D} {v : V}

theorem coherent_fresh : Coherent blank (fresh blank : Mirror D V) where
  one_dirty _ := rfl
  near_latest _ := rfl
  far_latest _ := by
    intro d v hFar
    cases hFar
  unwritten _ _ := rfl

theorem Coherent.pull (h : Coherent blank m) (hDirty : m.far_dirty = true)
    (hFar : m.far = some (d, v)) : Coherent blank m.pull := by
  have hNear : m.near_dirty = false := by
    by_contra hNear
    have := h.one_dirty (by simpa using hNear)
    simp [hDirty] at this
  have hv : v = m.latest := h.far_latest hNear d v hFar
  have hPull : m.pull = { m with near := v, far_dirty := false } := by rw [Mirror.pull, hFar]
  rw [hPull]
  exact ⟨fun _ => rfl, fun _ => hv, fun _ => h.far_latest hNear, fun _ => by simp [hFar]⟩

theorem Coherent.push (h : Coherent blank m) (hDirty : m.near_dirty = true)
    (hFar : m.far = some (d, v)) : Coherent blank m.push where
  one_dirty := by simp [Mirror.push]
  near_latest := h.near_latest
  far_latest _ := by
    intro d' v' hCopy
    simp only [Mirror.push, hFar, Option.map_some, Option.some.injEq, Prod.mk.injEq] at hCopy
    exact hCopy.2.symm.trans (h.near_latest (h.one_dirty hDirty))
  unwritten _ := by simp [Mirror.push, hFar]

theorem Coherent.alloc (h : Coherent blank m) (hFar : m.far = none) :
    Coherent blank (m.alloc blank d) where
  one_dirty := h.one_dirty
  near_latest := h.near_latest
  far_latest hNear := by
    intro d' v' hCopy
    obtain ⟨rfl, rfl⟩ : d = d' ∧ blank = v' := by simpa [Mirror.alloc] using hCopy
    exact (h.unwritten hNear hFar).symm
  unwritten _ := by simp [Mirror.alloc]

/-- The far copy may go once the near one is ahead. -/
theorem Coherent.drop (h : Coherent blank m) (hDirty : m.near_dirty = true) :
    Coherent blank m.drop where
  one_dirty := h.one_dirty
  near_latest := h.near_latest
  far_latest := by simp [Mirror.drop, hDirty]
  unwritten := by simp [Mirror.drop, hDirty]

theorem coherent_markNear (hDirty : m.far_dirty = false) (hNear : m.near = m.latest) :
    Coherent blank m.markNear where
  one_dirty _ := hDirty
  near_latest _ := hNear
  far_latest := by simp [Mirror.markNear]
  unwritten := by simp [Mirror.markNear]

theorem coherent_markFar (hDirty : m.near_dirty = false) (hFar : m.far = some (d, m.latest)) :
    Coherent blank m.markFar where
  one_dirty := by simp [Mirror.markFar, hDirty]
  near_latest := by simp [Mirror.markFar]
  far_latest _ := by
    intro d' v' hCopy
    simp only [Mirror.markFar, hFar, Option.some.injEq, Prod.mk.injEq] at hCopy
    exact hCopy.2.symm
  unwritten _ := by simp [Mirror.markFar, hFar]

end Mirror

end Vyasa
