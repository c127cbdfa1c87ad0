import Vyasa.DeviceCopy.Buffer
import Vyasa.Queue.Bubble
import Vyasa.Strided.Dense
import Mathlib.Logic.Equiv.Basic
import Mathlib.Data.List.Sort

/-! The shape of a new buffer that is made with the shape of another one. -/
namespace Vyasa.HalideBuffer

open Word
open DeviceCopy (halide_dimension_t)

/-- The array of the dimensions. -/
abbrev Shape := ℕ → halide_dimension_t

/-- `std::swap(shape[j-1], shape[j])` -/
def swap (j : ℕ) (shape : Shape) : Shape := shape ∘ Equiv.swap (j - 1) j

/-- The loop over `j`, with what is in `swaps` last as the head. -/
def sortInner : ℕ → Shape × List ℕ → Shape × List ℕ
  | 0, s => s
  | j + 1, (shape, swaps) =>
    if (shape j).stride > (shape (j + 1)).stride then sortInner j (swap (j + 1) shape, (j + 1) :: swaps)
    else sortInner j (shape, swaps)

/-- The loop over `i`. -/
def sortOuter : ℕ → Shape × List ℕ → Shape × List ℕ
  | 0, s => s
  | i + 1, s => sortOuter i (sortInner (i + 1) s)

/-- The dimensions below `i` have been rewritten. -/
def rewriteStrides : ℕ → Shape → Shape
  | 0, shape => shape
  | i + 1, shape =>
    let shape := rewriteStrides i shape
    let stride := if i = 0 then 1 else IntType.int32.wrap ((shape (i - 1)).extent * (shape (i - 1)).stride)
    Function.update shape i { shape i with stride := stride }

def undo : List ℕ → Shape → Shape
  | [], shape => shape
  | j :: swaps, shape => undo swaps (swap j shape)

def make_with_shape_of_helper (dimensions : ℕ) (shape : Shape) : Shape :=
  match sortOuter (dimensions - 1) (shape, []) with
  | (shape, swaps) => undo swaps (rewriteStrides dimensions shape)

section Sorting

variable {src : Shape} {s : Shape × List ℕ} {σ : Equiv.Perm ℕ} {i j k n : ℕ}

/-- What has been done to the dimensions, and can be undone to any others. -/
def Tracks (src : Shape) (s : Shape × List ℕ) (σ : Equiv.Perm ℕ) : Prop :=
  s.1 = src ∘ σ ∧ ∀ shape : Shape, undo s.2 (shape ∘ σ) = shape

/-- The entries below `n`, from the last one on. -/
def down {α : Type*} (f : ℕ → α) : ℕ → List α
  | 0 => []
  | n + 1 => f n :: down f n

theorem length_down {α : Type*} (f : ℕ → α) : ∀ n, (down f n).length = n
  | 0 => rfl
  | n + 1 => congrArg Nat.succ (length_down f n)

theorem down_congr {α : Type*} {f g : ℕ → α} : ∀ {n : ℕ}, (∀ k < n, f k = g k) → down f n = down g n
  | 0, _ => rfl
  | n + 1, h => by
    rw [down, down, h n (Nat.lt_succ_self n), down_congr fun k hk => h k (hk.trans (Nat.lt_succ_self n))]

theorem mem_down {α : Type*} {f : ℕ → α} {a : α} : ∀ {n : ℕ}, a ∈ down f n ↔ ∃ k < n, f k = a
  | 0 => by simp [down]
  | n + 1 => by
    rw [down, List.mem_cons, mem_down]
    constructor
    · rintro (rfl | ⟨k, hk, rfl⟩)
      · exact ⟨n, Nat.lt_succ_self n, rfl⟩
      · exact ⟨k, hk.trans (Nat.lt_succ_self n), rfl⟩
    · rintro ⟨k, hk, rfl⟩
      rcases Nat.lt_succ_iff_lt_or_eq.mp hk with hk | rfl
      · exact .inr ⟨k, hk, rfl⟩
      · exact .inl rfl

theorem down_getElem? {α : Type*} {f : ℕ → α} : ∀ {n p : ℕ}, p < n → (down f n)[p]? = some (f (n - 1 - p))
  | n + 1, 0, _ => rfl
  | n + 1, p + 1, h => by
    rw [down, List.getElem?_cons_succ, down_getElem? (Nat.succ_lt_succ_iff.mp h)]
    congr 2
    omega

theorem Tracks.refl (src : Shape) : Tracks src (src, []) 1 := ⟨rfl, fun _ => rfl⟩

theorem Tracks.swap {shape : Shape} {swaps : List ℕ} (h : Tracks src (shape, swaps) σ) (j : ℕ) :
    Tracks src (HalideBuffer.swap j shape, j :: swaps) (σ * Equiv.swap (j - 1) j) := by
  obtain ⟨hShape, hUndo⟩ := h
  constructor
  · exact congrArg (· ∘ Equiv.swap (j - 1) j) hShape
  · intro shape
    have hTwice : HalideBuffer.swap j (shape ∘ (σ * Equiv.swap (j - 1) j : Equiv.Perm ℕ)) = shape ∘ σ := by
      funext k
      simp [HalideBuffer.swap]
    rw [undo, hTwice]
    exact hUndo shape

/-- The inner loop is a pass over the dimensions from `j` down. -/
theorem tracks_sortInner : ∀ {j : ℕ} {s : Shape × List ℕ} {σ : Equiv.Perm ℕ}, Tracks src s σ →
    ∃ σ' : Equiv.Perm ℕ, Tracks src (sortInner j s) σ' ∧ (∀ k, j < k → σ' k = σ k) ∧
      down σ' (j + 1) = Queue.pass (fun p => (src p).stride) (σ j) (down σ j)
  | 0, _, σ, h => ⟨σ, h, fun _ _ => rfl, rfl⟩
  | j + 1, (shape, swaps), σ, h => by
    have hStride : ∀ k, (shape k).stride = (src (σ k)).stride := fun k => by rw [show shape = src ∘ σ from h.1]; rfl
    -- what stands at `j + 1` and `j` after the comparison
    obtain ⟨σ₁, hTracks, hHigh, hLow, hPair⟩ : ∃ σ₁ : Equiv.Perm ℕ,
        (∃ s', sortInner (j + 1) (shape, swaps) = sortInner j s' ∧ Tracks src s' σ₁) ∧
        (∀ k, j + 1 < k → σ₁ k = σ k) ∧ (∀ k < j, σ₁ k = σ k) ∧
        Queue.exchange (fun p => (src p).stride) (σ (j + 1)) (σ j) = (σ₁ (j + 1), σ₁ j) := by
      rw [sortInner, hStride, hStride]
      split_ifs with hGt
      · refine ⟨σ * Equiv.swap j (j + 1), ⟨_, rfl, h.swap (j + 1)⟩, fun k hk => ?_, fun k hk => ?_, ?_⟩
        · rw [Equiv.Perm.mul_apply, Equiv.swap_apply_of_ne_of_ne (by omega) (by omega)]
        · rw [Equiv.Perm.mul_apply, Equiv.swap_apply_of_ne_of_ne (by omega) (by omega)]
        · rw [Queue.exchange, if_pos hGt, Equiv.Perm.mul_apply, Equiv.Perm.mul_apply, Equiv.swap_apply_left,
            Equiv.swap_apply_right]
      · exact ⟨σ, ⟨_, rfl, h⟩, fun _ _ => rfl, fun _ _ => rfl, if_neg hGt⟩
    obtain ⟨s', hEq, hTracks⟩ := hTracks
    obtain ⟨σ', hTracks', hKeep, hDown⟩ := tracks_sortInner (j := j) hTracks
    rw [hEq]
    refine ⟨σ', hTracks', fun k hk => ?_, ?_⟩
    · rw [hKeep k (by omega), hHigh k hk]
    · rw [down, hKeep (j + 1) (Nat.lt_succ_self j), hDown, down_congr hLow]
      change _ = Queue.pass _ (σ (j + 1)) (σ j :: down σ j)
      rw [Queue.pass, hPair]

theorem tracks_sortOuter : ∀ {i : ℕ} {s : Shape × List ℕ} {σ : Equiv.Perm ℕ}, Tracks src s σ →
    ∃ σ' : Equiv.Perm ℕ, Tracks src (sortOuter i s) σ' ∧ (∀ k, i < k → σ' k = σ k) ∧
      down σ' (i + 1) = Queue.passes (fun p => (src p).stride) i (down σ (i + 1))
  | 0, _, σ, h => ⟨σ, h, fun _ _ => rfl, rfl⟩
  | i + 1, s, σ, h => by
    obtain ⟨σ₁, hTracks, hKeep, hDown⟩ := tracks_sortInner (j := i + 1) h
    obtain ⟨σ', hTracks', hKeep', hDown'⟩ := tracks_sortOuter (i := i) hTracks
    refine ⟨σ', hTracks', fun k hk => ?_, ?_⟩
    · rw [hKeep' k (by omega), hKeep k hk]
    · rw [down, hKeep' (i + 1) (Nat.lt_succ_self i), hDown']
      change _ = Queue.passes _ (i + 1) (σ (i + 1) :: down σ (i + 1))
      rw [Queue.passes, ← hDown]
      rfl

end Sorting

end Vyasa.HalideBuffer

/-! The loops that call a function on the values of some buffers of one size, in an order that suits
the first one. -/
namespace Vyasa.HalideBuffer

open Word
open DeviceCopy (halide_dimension_t)

variable {N : ℕ}

/-- The places of the buffers, in elements. -/
abbrev Ptrs (N : ℕ) := Fin N → ℤ

structure for_each_value_task_dim (N : ℕ) where
  extent : ℤ
  stride : Fin N → ℤ

abbrev Tasks (N : ℕ) := ℕ → for_each_value_task_dim N

section Helper

def advance_ptrs (stride : Fin N → ℤ) (ptrs : Ptrs N) : Ptrs N := ptrs + stride

def increment_ptrs (ptrs : Ptrs N) : Ptrs N := ptrs + 1

/-- The calls of a loop that goes on after each turn. -/
def turns (step : Ptrs N → Ptrs N) (body : Ptrs N → List (Ptrs N)) : ℕ → Ptrs N → List (Ptrs N)
  | 0, _ => []
  | n + 1, ptrs => body ptrs ++ turns step body n (step ptrs)

/-- The calls with `d` one less than the number. No extent is negative. -/
def for_each_value_helper (innermost_strides_are_one : Bool) (t : Tasks N) : ℕ → Ptrs N → List (Ptrs N)
  | 0, ptrs => [ptrs]
  | 1, ptrs =>
    if innermost_strides_are_one then turns increment_ptrs (fun ptrs => [ptrs]) (t 0).extent.toNat ptrs
    else turns (advance_ptrs (t 0).stride) (fun ptrs => [ptrs]) (t 0).extent.toNat ptrs
  | d + 2, ptrs =>
    turns (advance_ptrs (t (d + 1)).stride) (for_each_value_helper innermost_strides_are_one t (d + 1))
      (t (d + 1)).extent.toNat ptrs

end Helper

section Prep

/-- A product of two `int`s. The first argument says what there is instead of one that is none. -/
def mul_int (overflow : ℤ → Option ℤ) (a b : ℤ) : Option ℤ :=
  if IntType.int32.Has (a * b) then some (a * b) else overflow (a * b)

def taskOf (buffers : Fin (N + 1) → Shape) (i : ℕ) : for_each_value_task_dim (N + 1) where
  extent := (buffers ⟨0, N.succ_pos⟩ i).extent
  stride j := (buffers j i).stride

/-- The new dimension at `j` goes down to its place. -/
def insert : ℕ → Tasks (N + 1) → Tasks (N + 1)
  | 0, t => t
  | j + 1, t => if (t (j + 1)).stride ⟨0, N.succ_pos⟩ < (t j).stride ⟨0, N.succ_pos⟩ then insert j (t ∘ Equiv.swap j (j + 1)) else t

/-- The first loop, with its assertions. -/
def extract (buffers : Fin (N + 1) → Shape) : ℕ → Tasks (N + 1) → Option (Tasks (N + 1))
  | 0, t => some t
  | i + 1, t => do
    let t ← extract buffers i t
    if ∀ j, (buffers j i).extent = (buffers ⟨0, N.succ_pos⟩ i).extent ∧
        (buffers j i).min = (buffers ⟨0, N.succ_pos⟩ i).min then
      some (insert i (Function.update t i (taskOf buffers i)))
    else none

/-- No product is made once one was not the next stride. -/
def isFlat (overflow : ℤ → Option ℤ) (a b : for_each_value_task_dim N) : List (Fin N) → Option Bool
  | [] => some true
  | j :: js => do
    let product ← mul_int overflow (a.stride j) a.extent
    if product = b.stride j then isFlat overflow a b js else some false

/-- The dimension `i` of the first `d` becomes a part of the one below it. -/
def collapse (i d : ℕ) (extent : ℤ) (t : Tasks N) : Tasks N :=
  let t := Function.update t (i - 1) { t (i - 1) with extent := extent }
  let t := fun j => if i ≤ j ∧ j < d then t (j + 1) else t j
  Function.update t (d - 1) { t (d - 1) with extent := 1 }

/-- The second loop from `i` on, with `d - i` as the number. -/
def flatten (overflow : ℤ → Option ℤ) : ℕ → ℕ → Tasks N → Option (Tasks N)
  | _, 0, t => some t
  | i, n + 1, t => do
    if ← isFlat overflow (t (i - 1)) (t i) (List.finRange N) then
      let extent ← mul_int overflow (t (i - 1)).extent (t i).extent
      flatten overflow i n (collapse i (i + n + 1) extent t)
    else flatten overflow (i + 1) n t

def for_each_value_prep (overflow : ℤ → Option ℤ) (dimensions : ℕ) (buffers : Fin (N + 1) → Shape)
    (t : Tasks (N + 1)) : Option (Tasks (N + 1) × Bool) := do
  let t ← extract buffers dimensions t
  let t ← flatten overflow 1 (dimensions - 1) t
  some (t, dimensions = 0 || decide (∀ i, (t 0).stride i = 1))

/-- The places that the function is called on. The tasks are what was in their memory before. -/
def for_each_value_impl (overflow : ℤ → Option ℤ) (dimensions : ℕ) (buffers : Fin (N + 1) → Shape)
    (host : Ptrs (N + 1)) (t : Tasks (N + 1)) : Option (List (Ptrs (N + 1))) := do
  let (t, innermost_strides_are_one) ← for_each_value_prep overflow dimensions buffers t
  some (for_each_value_helper innermost_strides_are_one t dimensions host)

end Prep

end Vyasa.HalideBuffer
