import Mathlib.Data.List.Perm.Basic
import Mathlib.Data.List.InsertIdx

/-! Two lists whose elements are rearranged together. -/
namespace Pointwise

variable {α β : Type} {a a' : List α} {b b' : List β} {i j : Nat}

/-- Two elements change their places; there is none outside of the list. -/
def swap (l : List α) (i j : Nat) : Option (List α) := do
  let x ← l[i]?
  let y ← l[j]?
  some ((l.set i y).set j x)

theorem swap_eq_some {l l' : List α} : swap l i j = some l' ↔
    ∃ (hi : i < l.length) (hj : j < l.length), (l.set i l[j]).set j l[i] = l' := by
  constructor
  · intro h
    obtain ⟨x, hx, h⟩ := Option.bind_eq_some_iff.mp h
    obtain ⟨y, hy, h⟩ := Option.bind_eq_some_iff.mp h
    obtain ⟨hi, rfl⟩ := List.getElem?_eq_some_iff.mp hx
    obtain ⟨hj, rfl⟩ := List.getElem?_eq_some_iff.mp hy
    exact ⟨hi, hj, Option.some.inj h⟩
  · rintro ⟨hi, hj, rfl⟩
    rw [swap, List.getElem?_eq_getElem hi, List.getElem?_eq_getElem hj]
    rfl

theorem length_of_swap (h : swap a i j = some a') : a'.length = a.length := by
  obtain ⟨hi, hj, rfl⟩ := swap_eq_some.mp h
  rw [List.length_set, List.length_set]

theorem exists_swap (hi : i < a.length) (hj : j < a.length) : ∃ a', swap a i j = some a' :=
  ⟨_, swap_eq_some.mpr ⟨hi, hj, rfl⟩⟩

theorem swap_perm (h : swap a i j = some a') : a'.Perm a := by
  obtain ⟨hi, hj, rfl⟩ := swap_eq_some.mp h
  exact List.set_set_perm hi hj

theorem zip_set (x : α) (y : β) : ∀ (a : List α) (b : List β) (i : Nat),
    (a.set i x).zip (b.set i y) = (a.zip b).set i (x, y)
  | [], _, _ => rfl
  | _ :: _, [], 0 => rfl
  | _ :: _, [], _ + 1 => rfl
  | _ :: _, _ :: _, 0 => rfl
  | p :: a, q :: b, i + 1 => congrArg ((p, q) :: ·) (zip_set x y a b i)

theorem zip_eraseIdx : ∀ (a : List α) (b : List β) (i : Nat),
    (a.eraseIdx i).zip (b.eraseIdx i) = (a.zip b).eraseIdx i
  | [], _, _ => rfl
  | _ :: _, [], 0 => List.zip_nil_right
  | _ :: _, [], _ + 1 => List.zip_nil_right
  | _ :: _, _ :: _, 0 => rfl
  | p :: a, q :: b, i + 1 => congrArg ((p, q) :: ·) (zip_eraseIdx a b i)

/-- The pairs stay the same when both lists are swapped. -/
theorem zip_swap (ha : swap a i j = some a') (hb : swap b i j = some b') : (a'.zip b').Perm (a.zip b) := by
  obtain ⟨hi, hj, rfl⟩ := swap_eq_some.mp ha
  obtain ⟨hi', hj', rfl⟩ := swap_eq_some.mp hb
  have hiZip : i < (a.zip b).length := by
    rw [List.length_zip]
    omega
  have hjZip : j < (a.zip b).length := by
    rw [List.length_zip]
    omega
  rw [zip_set, zip_set, ← List.getElem_zip (h := hjZip), ← List.getElem_zip (h := hiZip)]
  exact List.set_set_perm hiZip hjZip

theorem swap_swap (h : swap a i j = some a') : swap a' i j = some a := by
  obtain ⟨hi, hj, rfl⟩ := swap_eq_some.mp h
  refine swap_eq_some.mpr ⟨?_, ?_, ?_⟩
  · rwa [List.length_set, List.length_set]
  · rwa [List.length_set, List.length_set]
  · refine List.ext_getElem (by simp only [List.length_set]) fun k hk hk' => ?_
    simp only [List.getElem_set]
    split_ifs <;> simp_all

/-- One pair, and the others. -/
theorem zip_perm_cons (hi : i < a.length) (hi' : i < b.length) :
    (a.zip b).Perm ((a[i], b[i]) :: (a.eraseIdx i).zip (b.eraseIdx i)) := by
  have hZip : i < (a.zip b).length := by
    rw [List.length_zip]
    omega
  rw [zip_eraseIdx, ← List.getElem_zip (h := hZip)]
  exact (List.getElem_cons_eraseIdx_perm hZip).symm

theorem swap_cons {l l' : List α} (x : α) (h : swap l i j = some l') : swap (x :: l) (i + 1) (j + 1) = some (x :: l') := by
  obtain ⟨hi, hj, rfl⟩ := swap_eq_some.mp h
  exact swap_eq_some.mpr ⟨Nat.succ_lt_succ hi, Nat.succ_lt_succ hj, rfl⟩

/-- An element moves one place to the front. -/
theorem swap_insertIdx (x : α) : ∀ {a : List α} {j : Nat}, j < a.length →
    swap (a.insertIdx (j + 1) x) (j + 1) j = some (a.insertIdx j x)
  | _ :: _, 0, _ => rfl
  | y :: _, _ + 1, h => swap_cons y (swap_insertIdx x (Nat.succ_lt_succ_iff.mp h))

theorem swap_adjacent (x y : α) (back : List α) : ∀ front : List α,
    swap (front ++ y :: x :: back) (front.length + 1) front.length = some (front ++ x :: y :: back)
  | [] => rfl
  | z :: front => swap_cons z (swap_adjacent x y back front)

end Pointwise
