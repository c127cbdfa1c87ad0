import Vyasa.HalideBuffer.ForEach
import Vyasa.Strided.Dense

/-! The function is called on the corresponding values of the buffers, on each as often as it is
there. -/
namespace Vyasa.HalideBuffer

open Word Strided
open DeviceCopy (halide_dimension_t)

variable {N : ℕ} {t t' : Tasks N} {p g : Ptrs N}

section Loops

/-- The loop over a dimension. -/
def loopOf (d : for_each_value_task_dim N) : ℕ × Ptrs N := (d.extent.toNat, d.stride)

theorem coe_turns (v : Ptrs N) (body : Ptrs N → List (Ptrs N)) : ∀ (n : ℕ) (p : Ptrs N),
    (turns (advance_ptrs v) body n p : Multiset (Ptrs N)) =
      ∑ i ∈ Finset.range n, (body (p + i • v) : Multiset (Ptrs N))
  | 0, _ => rfl
  | n + 1, p => by
    rw [turns, ← Multiset.coe_add, coe_turns v body n, Finset.sum_range_succ', zero_nsmul, add_zero, add_comm]
    simp only [advance_ptrs, add_assoc, succ_nsmul']

/-- The calls are the walk through the loops. -/
theorem coe_helper {ones : Bool} (hOnes : ones = true → (t 0).stride = 1) : ∀ (n : ℕ) (p : Ptrs N),
    (for_each_value_helper ones t n p : Multiset (Ptrs N)) = walk ((down t n).map loopOf) p
  | 0, _ => rfl
  | 1, p => by
    have hLoop : (turns (advance_ptrs (t 0).stride) (fun p => [p]) (t 0).extent.toNat p : Multiset (Ptrs N)) =
        walk [loopOf (t 0)] p := coe_turns _ _ _ p
    rw [for_each_value_helper]
    split_ifs with h
    · have hStep : (increment_ptrs : Ptrs N → Ptrs N) = advance_ptrs (t 0).stride := by rw [hOnes h]; rfl
      rw [hStep]
      exact hLoop
    · exact hLoop
  | n + 2, p => by
    rw [for_each_value_helper, coe_turns]
    exact Finset.sum_congr rfl fun i _ => coe_helper hOnes (n + 1) _

end Loops

section Segments

/-- `n` of the entries, from `a` on. -/
def segment {α : Type*} (f : ℕ → α) : ℕ → ℕ → List α
  | _, 0 => []
  | a, n + 1 => f a :: segment f (a + 1) n

theorem segment_congr {α : Type*} {f f' : ℕ → α} {b : ℕ} : ∀ {a n : ℕ},
    (∀ k < n, f (b + k) = f' (a + k)) → segment f b n = segment f' a n
  | _, 0, _ => rfl
  | a, n + 1, h => by
    rw [segment, segment, show f b = f' a from h 0 (Nat.succ_pos n)]
    congr 1
    refine segment_congr fun k hk => ?_
    rw [Nat.add_right_comm, Nat.add_assoc, Nat.add_right_comm, Nat.add_assoc]
    exact h (k + 1) (Nat.succ_lt_succ hk)

theorem segment_add {α : Type*} (f : ℕ → α) : ∀ a n m : ℕ,
    segment f a (n + m) = segment f a n ++ segment f (a + n) m
  | _, 0, _ => by rw [Nat.zero_add]; rfl
  | a, n + 1, m => by
    rw [Nat.add_right_comm, segment, segment, segment_add f (a + 1) n m, Nat.add_right_comm, Nat.add_assoc]
    rfl

theorem segment_eq_reverse {α : Type*} (f : ℕ → α) : ∀ n : ℕ, segment f 0 n = (down f n).reverse
  | 0 => rfl
  | n + 1 => by
    rw [segment_add f 0 n 1, segment_eq_reverse f n, down, List.reverse_cons, Nat.zero_add]
    rfl

end Segments

section Sorting

variable {buffers : Fin (N + 1) → Shape} {s s' : Tasks (N + 1)}

/-- The order of the dimensions from the last one on. -/
def Outside (a b : for_each_value_task_dim (N + 1)) : Prop := b.stride 0 ≤ a.stride 0

instance : DecidableRel (Outside (N := N)) := fun _ _ => inferInstanceAs (Decidable (_ ≤ _))

theorem insert_of_lt : ∀ {j k : ℕ} {s : Tasks (N + 1)}, j < k → insert j s k = s k
  | 0, _, _, _ => rfl
  | j + 1, k, s, h => by
    rw [insert]
    split_ifs
    · rw [insert_of_lt (by omega), Function.comp_apply, Equiv.swap_apply_of_ne_of_ne (by omega) (by omega)]
    · rfl

theorem down_insert : ∀ {j : ℕ} {s : Tasks (N + 1)},
    down (insert j s) (j + 1) = List.orderedInsert Outside (s j) (down s j)
  | 0, _ => rfl
  | j + 1, s => by
    rw [insert]
    change _ = List.orderedInsert Outside (s (j + 1)) (s j :: down s j)
    split_ifs with hLt
    · have hKeep : down (s ∘ Equiv.swap j (j + 1)) j = down s j := down_congr fun k hk => by
        rw [Function.comp_apply, Equiv.swap_apply_of_ne_of_ne (by omega) (by omega)]
      rw [down, insert_of_lt (Nat.lt_succ_self j), down_insert, hKeep, List.orderedInsert_cons,
        if_neg (show ¬Outside _ _ from hLt.not_ge)]
      simp
    · rw [List.orderedInsert_cons, if_pos (show Outside _ _ from not_lt.mp hLt)]
      rfl

/-- All buffers have the extents and the mins of the first one. -/
def SameShape (dimensions : ℕ) (buffers : Fin (N + 1) → Shape) : Prop :=
  ∀ i < dimensions, ∀ j, (buffers j i).extent = (buffers 0 i).extent ∧ (buffers j i).min = (buffers 0 i).min

instance (dimensions : ℕ) (buffers : Fin (N + 1) → Shape) : Decidable (SameShape dimensions buffers) :=
  inferInstanceAs (Decidable (∀ i < dimensions, ∀ _, _ = _ ∧ _ = _))

theorem extract_eq (s : Tasks (N + 1)) : ∀ {n : ℕ}, SameShape n buffers →
    ∃ s', extract buffers n s = some s' ∧ down s' n = List.insertionSort Outside (down (taskOf buffers) n)
  | 0, _ => ⟨s, rfl, rfl⟩
  | n + 1, h => by
    obtain ⟨s', hEq, hDown⟩ := extract_eq s fun i hi => h i (hi.trans (Nat.lt_succ_self n))
    refine ⟨insert n (Function.update s' n (taskOf buffers n)), ?_, ?_⟩
    · rw [extract, hEq]
      exact if_pos (h n (Nat.lt_succ_self n))
    · rw [down_insert, Function.update_self, down_congr fun k hk => Function.update_of_ne hk.ne _ _, hDown]
      rfl

end Sorting

section Fits

variable {a b prev next : for_each_value_task_dim N} {chain : ℤ} {js : List (Fin N)}

/-- The next dimension begins where this one ends, in every buffer. -/
def Flat (prev next : for_each_value_task_dim N) : Prop := ∀ j, prev.stride j * prev.extent = next.stride j

instance (prev next : for_each_value_task_dim N) : Decidable (Flat prev next) :=
  inferInstanceAs (Decidable (∀ j, prev.stride j * prev.extent = next.stride j))

/-- The dimension ends within `int`, in every buffer up to one in which the next dimension does not
begin there. -/
def EndsFit (prev next : for_each_value_task_dim N) : Prop :=
  ∀ j, (∀ i < j, prev.stride i * prev.extent = next.stride i) → IntType.int32.Has (prev.stride j * prev.extent)

/-- All dimensions end within `int`, and so do the extents of dimensions that make one. `chain` is the
extent of those up to `prev`. -/
def Fits : ℤ → for_each_value_task_dim N → List (for_each_value_task_dim N) → Prop
  | _, _, [] => True
  | chain, prev, next :: rest =>
    EndsFit prev next ∧
      if Flat prev next then IntType.int32.Has (chain * next.extent) ∧ Fits (chain * next.extent) next rest
      else Fits next.extent next rest

def FitsFirst : List (for_each_value_task_dim N) → Prop
  | [] => True
  | first :: rest => Fits first.extent first rest

instance (prev next : for_each_value_task_dim N) : Decidable (EndsFit prev next) :=
  inferInstanceAs (Decidable (∀ j, (∀ i < j, _ = _) → IntType.int32.Has _))

instance decidableFits : ∀ (chain : ℤ) (prev : for_each_value_task_dim N) (rest : List (for_each_value_task_dim N)),
    Decidable (Fits chain prev rest)
  | _, _, [] => .isTrue trivial
  | chain, prev, next :: rest =>
    have := decidableFits (chain * next.extent) next rest
    have := decidableFits next.extent next rest
    inferInstanceAs (Decidable (EndsFit prev next ∧
      if Flat prev next then IntType.int32.Has (chain * next.extent) ∧ Fits (chain * next.extent) next rest
      else Fits next.extent next rest))

instance decidableFitsFirst : ∀ l : List (for_each_value_task_dim N), Decidable (FitsFirst l)
  | [] => .isTrue trivial
  | first :: rest => decidableFits first.extent first rest

theorem mul_int_of_has {overflow : ℤ → Option ℤ} {x y : ℤ} (h : IntType.int32.Has (x * y)) :
    mul_int overflow x y = some (x * y) := if_pos h

theorem mul_int_eq_some {x y z : ℤ} (h : mul_int (fun _ => none) x y = some z) :
    IntType.int32.Has (x * y) ∧ z = x * y := by
  rw [mul_int] at h
  split_ifs at h with hHas
  exact ⟨hHas, (Option.some.inj h).symm⟩

/-- The same ends as those of the other dimension. -/
def SameEnds (a prev : for_each_value_task_dim N) : Prop := ∀ j, a.stride j * a.extent = prev.stride j * prev.extent

theorem isFlat_eq {overflow : ℤ → Option ℤ} (hEnds : SameEnds a prev) (hFit : EndsFit prev b) :
    ∀ {js : List (Fin N)}, js.Pairwise (· < ·) → (∀ j ∉ js, prev.stride j * prev.extent = b.stride j) →
      isFlat overflow a b js = some (decide (Flat prev b))
  | [], _, h => by rw [isFlat, decide_eq_true (show Flat prev b from fun j => h j List.not_mem_nil)]
  | j :: js, hSorted, h => by
    obtain ⟨hHead, hTail⟩ := List.pairwise_cons.mp hSorted
    have hHas := hFit j fun i hi => h i fun hMem => by
      rcases List.mem_cons.mp hMem with rfl | hMem
      · exact hi.false
      · exact hi.not_gt (hHead i hMem)
    rw [← hEnds j] at hHas
    rw [isFlat, mul_int_of_has hHas]
    dsimp only [Option.bind_eq_bind, Option.bind_some]
    rw [hEnds j]
    split_ifs with hEq
    · refine isFlat_eq hEnds hFit hTail fun i hi => ?_
      by_cases hij : i = j
      · rwa [hij]
      · exact h i fun hMem => (List.mem_cons.mp hMem).elim hij hi
    · rw [decide_eq_false fun hFlat => hEq (hFlat j)]

theorem isFlat_finRange {overflow : ℤ → Option ℤ} (hEnds : SameEnds a prev) (hFit : EndsFit prev b) :
    isFlat overflow a b (List.finRange N) = some (decide (Flat prev b)) :=
  isFlat_eq hEnds hFit (List.pairwise_lt_finRange N) fun j hj => absurd (List.mem_finRange j) hj

/-- Without overflow all the products were ones of `int`. -/
theorem has_of_isFlat : ∀ {js : List (Fin N)} {flat : Bool}, js.Pairwise (· < ·) →
    isFlat (fun _ => none) a b js = some flat → ∀ j ∈ js,
      (∀ i ∈ js, i < j → a.stride i * a.extent = b.stride i) → IntType.int32.Has (a.stride j * a.extent)
  | k :: js, flat, hSorted, h, j, hj, hBefore => by
    obtain ⟨hHead, hTail⟩ := List.pairwise_cons.mp hSorted
    rw [isFlat] at h
    obtain ⟨product, hProduct, h⟩ := Option.bind_eq_some_iff.mp h
    obtain ⟨hHas, rfl⟩ := mul_int_eq_some hProduct
    rcases List.mem_cons.mp hj with rfl | hj
    · exact hHas
    · rw [if_pos (hBefore k List.mem_cons_self (hHead j hj))] at h
      exact has_of_isFlat hTail h j hj fun i hi => hBefore i (List.mem_cons_of_mem _ hi)

theorem endsFit_of_isFlat {flat : Bool} (hEnds : SameEnds a prev)
    (h : isFlat (fun _ => none) a b (List.finRange N) = some flat) : EndsFit prev b := by
  intro j hBefore
  rw [← hEnds j]
  refine has_of_isFlat (List.pairwise_lt_finRange N) h j (List.mem_finRange j) fun i _ hi => ?_
  rw [hEnds i]
  exact hBefore i hi

end Fits

section Collapse

variable {c n m : ℕ} {extent : ℤ}

theorem collapse_of_lt {k : ℕ} (h : k < c) : collapse (c + 1) (c + 1 + n + 1) extent t k = t k := by
  rw [collapse]
  dsimp only
  rw [Function.update_of_ne (by omega), if_neg (by omega), Function.update_of_ne (by omega)]

theorem collapse_self : collapse (c + 1) (c + 1 + n + 1) extent t c = { t c with extent := extent } := by
  rw [collapse]
  dsimp only
  rw [Function.update_of_ne (by omega), if_neg (by omega), Nat.add_sub_cancel, Function.update_self]

theorem collapse_shift {k : ℕ} (h : k < n) :
    collapse (c + 1) (c + 1 + n + 1) extent t (c + 1 + k) = t (c + 2 + k) := by
  rw [collapse]
  dsimp only
  rw [Function.update_of_ne (by omega), if_pos (by omega), Function.update_of_ne (by omega)]
  congr 1
  omega

theorem collapse_last : (collapse (c + 1) (c + 1 + n + 1) extent t (c + 1 + n)).extent = 1 := by
  rw [collapse]
  dsimp only
  rw [show c + 1 + n + 1 - 1 = c + 1 + n from rfl, Function.update_self]

theorem collapse_of_ge {k : ℕ} (h : c + 1 + n < k) : collapse (c + 1) (c + 1 + n + 1) extent t k = t k := by
  rw [collapse]
  dsimp only
  rw [Function.update_of_ne (by omega), if_neg (by omega), Function.update_of_ne (by omega)]

/-- One dimension less, and one more of a single turn. -/
theorem walk_collapse (hOne : 0 ≤ (t c).extent) (hNext : 0 ≤ (t (c + 1)).extent) (hFlat : Flat (t c) (t (c + 1)))
    (hExtent : extent = (t c).extent * (t (c + 1)).extent) (g : Ptrs N) :
    walk ((segment (collapse (c + 1) (c + 1 + n + 1) extent t) c (m + 1 + n + 1)).map loopOf) g =
      walk ((segment t c (m + (n + 1) + 1)).map loopOf) g := by
  have hFold : loopOf (t (c + 1)) = ((t (c + 1)).extent.toNat, (t c).extent.toNat • (t c).stride) := by
    rw [loopOf]
    congr 1
    funext j
    rw [← hFlat j, Pi.smul_apply, nsmul_eq_mul, Int.natCast_toNat_eq_self.mpr hOne, mul_comm]
  have hMerged : loopOf (collapse (c + 1) (c + 1 + n + 1) extent t c) =
      ((t c).extent.toNat * (t (c + 1)).extent.toNat, (t c).stride) := by
    rw [collapse_self, loopOf, hExtent, Int.toNat_mul hOne hNext]
  have hUnit : loopOf (collapse (c + 1) (c + 1 + n + 1) extent t (c + 1 + n)) =
      (1, (collapse (c + 1) (c + 1 + n + 1) extent t (c + 1 + n)).stride) := by
    rw [loopOf, collapse_last]
    rfl
  have hLow : segment (collapse (c + 1) (c + 1 + n + 1) extent t) (c + 1) n = segment t (c + 2) n :=
    segment_congr fun k hk => collapse_shift hk
  have hHigh : segment (collapse (c + 1) (c + 1 + n + 1) extent t) (c + 1 + n + 1) m =
      segment t (c + 1 + n + 1) m :=
    segment_congr fun k _ => collapse_of_ge (by omega)
  rw [show m + 1 + n + 1 = n + (m + 1) + 1 by omega, show m + (n + 1) + 1 = n + m + 1 + 1 by omega, segment,
    segment_add, segment, hLow, hHigh, segment, segment, segment_add]
  simp only [List.map_cons, List.map_append, hFold, hMerged, hUnit]
  rw [show loopOf (t c) = ((t c).extent.toNat, (t c).stride) from rfl, walk_fold,
    walk_perm (List.Perm.cons _ List.perm_middle), walk_perm (.swap ..), walk_one,
    show c + 1 + 1 + n = c + 1 + n + 1 by omega]

end Collapse

section Flatten

theorem walk_segment_congr {c n : ℕ} (hHead : t' c = t c)
    (h : ∀ g, walk ((segment t' (c + 1) n).map loopOf) g = walk ((segment t (c + 1) n).map loopOf) g) (g : Ptrs N) :
    walk ((segment t' c (n + 1)).map loopOf) g = walk ((segment t c (n + 1)).map loopOf) g := by
  rw [segment, segment, hHead]
  exact walk_append_congr h [loopOf (t c)] g

/-- The flattened loops walk like the others. -/
theorem flatten_walk (overflow : ℤ → Option ℤ) : ∀ (n c : ℕ) (t : Tasks N) (prev : for_each_value_task_dim N),
    SameEnds (t c) prev → (∀ k ≤ n, 0 ≤ (t (c + k)).extent) → Fits (t c).extent prev (segment t (c + 1) n) →
    ∃ t', flatten overflow (c + 1) n t = some t' ∧ (∀ k < c, t' k = t k) ∧
      ∀ m g, walk ((segment t' c (m + n + 1)).map loopOf) g = walk ((segment t c (m + n + 1)).map loopOf) g
  | 0, _, t, _, _, _, _ => ⟨t, rfl, fun _ _ => rfl, fun _ _ => rfl⟩
  | n + 1, c, t, prev, hEnds, hPos, hFits => by
    obtain ⟨hFit, hRest⟩ := hFits
    rw [flatten, Nat.add_sub_cancel, isFlat_finRange hEnds hFit]
    dsimp only [Option.bind_eq_bind, Option.bind_some]
    by_cases hFlat : Flat prev (t (c + 1))
    · rw [if_pos hFlat] at hRest
      rw [if_pos (decide_eq_true hFlat), mul_int_of_has hRest.1]
      have hOne : 0 ≤ (t c).extent := hPos 0 (Nat.zero_le _)
      have hNext : 0 ≤ (t (c + 1)).extent := hPos 1 (Nat.succ_le_succ (Nat.zero_le n))
      have hFlat' : Flat (t c) (t (c + 1)) := fun j => (hEnds j).trans (hFlat j)
      have hEnds' : SameEnds (collapse (c + 1) (c + 1 + n + 1) ((t c).extent * (t (c + 1)).extent) t c)
          (t (c + 1)) := by
        intro j
        rw [collapse_self, ← hFlat' j]
        exact (mul_assoc _ _ _).symm
      have hPos' : ∀ k ≤ n,
          0 ≤ (collapse (c + 1) (c + 1 + n + 1) ((t c).extent * (t (c + 1)).extent) t (c + k)).extent := by
        intro k hk
        rcases k with _ | k
        · rw [show c + 0 = c from rfl, collapse_self]
          exact Int.mul_nonneg hOne hNext
        · rw [show c + (k + 1) = c + 1 + k by omega, collapse_shift hk]
          have hAt := hPos (k + 2) (by omega)
          rwa [show c + 2 + k = c + (k + 2) by omega]
      obtain ⟨t', hEq, hKeep, hWalk⟩ := flatten_walk overflow n c _ (t (c + 1)) hEnds' hPos' (by
        rw [collapse_self, segment_congr fun k hk => collapse_shift hk]
        exact hRest.2)
      refine ⟨t', hEq, fun k hk => (hKeep k hk).trans (collapse_of_lt hk), fun m g => ?_⟩
      have hStep := (hWalk (m + 1) g).trans (walk_collapse hOne hNext hFlat' rfl g)
      rwa [show m + 1 + n + 1 = m + (n + 1) + 1 by omega] at hStep
    · rw [if_neg hFlat] at hRest
      rw [if_neg (by simpa using hFlat)]
      obtain ⟨t', hEq, hKeep, hWalk⟩ := flatten_walk overflow n (c + 1) t (t (c + 1)) (fun _ => rfl)
        (fun k hk => by
          have hAt := hPos (k + 1) (by omega)
          rwa [show c + 1 + k = c + (k + 1) by omega]) hRest
      refine ⟨t', hEq, fun k hk => hKeep k (by omega), fun m g => ?_⟩
      exact walk_segment_congr (hKeep c (Nat.lt_succ_self c)) (hWalk m) g

/-- Where no product overflows, they fit. -/
theorem fits_of_flatten : ∀ (n c : ℕ) (t t' : Tasks N) (prev : for_each_value_task_dim N),
    SameEnds (t c) prev → flatten (fun _ => none) (c + 1) n t = some t' →
    Fits (t c).extent prev (segment t (c + 1) n)
  | 0, _, _, _, _, _, _ => trivial
  | n + 1, c, t, t', prev, hEnds, h => by
    rw [flatten, Nat.add_sub_cancel] at h
    obtain ⟨flat, hFlat, h⟩ := Option.bind_eq_some_iff.mp h
    have hFit := endsFit_of_isFlat hEnds hFlat
    rw [isFlat_finRange hEnds hFit, Option.some.injEq] at hFlat
    subst hFlat
    refine ⟨hFit, ?_⟩
    split_ifs with hFlat
    · rw [if_pos (decide_eq_true hFlat)] at h
      obtain ⟨extent, hExtent, h⟩ := Option.bind_eq_some_iff.mp h
      obtain ⟨hHas, rfl⟩ := mul_int_eq_some hExtent
      refine ⟨hHas, ?_⟩
      have hRest := fits_of_flatten n c _ t' (t (c + 1)) (fun j => ?_) h
      · rwa [collapse_self, segment_congr fun k hk => collapse_shift hk] at hRest
      · rw [collapse_self, ← hFlat j, ← hEnds j]
        exact (mul_assoc _ _ _).symm
    · rw [if_neg (by simpa using hFlat)] at h
      exact fits_of_flatten n (c + 1) t t' (t (c + 1)) (fun _ => rfl) h

end Flatten

section Main

variable {dimensions : ℕ} {buffers : Fin (N + 1) → Shape} {host : Ptrs (N + 1)} {s : Tasks (N + 1)}
  {overflow : ℤ → Option ℤ}

/-- The coordinates of the buffers. -/
def coordinates (dimensions : ℕ) (shape : Shape) : Finset (Fin dimensions → ℤ) :=
  Fintype.piFinset fun d => span (shape d).min (shape d).extent

/-- Where the buffers have the value at the coordinates. -/
def address_of (dimensions : ℕ) (buffers : Fin (N + 1) → Shape) (host : Ptrs (N + 1)) (x : Fin dimensions → ℤ) :
    Ptrs (N + 1) :=
  fun k => host k + ∑ d : Fin dimensions, (buffers k d).stride * (x d - (buffers k d).min)

/-- The function is called on the corresponding values at all coordinates. -/
def Visits (overflow : ℤ → Option ℤ) (dimensions : ℕ) (buffers : Fin (N + 1) → Shape) (host : Ptrs (N + 1))
    (s : Tasks (N + 1)) : Prop :=
  ∃ calls, for_each_value_impl overflow dimensions buffers host s = some calls ∧
    (calls : Multiset (Ptrs (N + 1))) =
      (coordinates dimensions (buffers 0)).val.map (address_of dimensions buffers host)

/-- In the order of the strides of the first buffer, and their own order where those are the same, the
dimensions fit into `int`. -/
def AllFit (dimensions : ℕ) (buffers : Fin (N + 1) → Shape) : Prop :=
  FitsFirst (List.insertionSort Outside (down (taskOf buffers) dimensions)).reverse

instance (dimensions : ℕ) (buffers : Fin (N + 1) → Shape) : Decidable (AllFit dimensions buffers) :=
  decidableFitsFirst _

theorem down_perm_ofFn {α : Type*} (f : ℕ → α) : ∀ n : ℕ, (down f n).Perm (List.ofFn fun i : Fin n => f i)
  | 0 => .refl _
  | n + 1 => by
    rw [List.ofFn_succ', List.concat_eq_append]
    exact ((down_perm_ofFn f n).cons (f n)).trans (List.perm_append_singleton _ _).symm

theorem walk_down (f : ℕ → for_each_value_task_dim N) (n : ℕ) (g : Ptrs N) :
    walk ((down f n).map loopOf) g = walk ((segment f 0 n).map loopOf) g := by
  rw [segment_eq_reverse]
  exact walk_perm ((List.reverse_perm _).symm.map _) g

/-- The loops over the dimensions of the buffers come to all coordinates. -/
theorem walk_tasks (host : Ptrs (N + 1)) (hShape : SameShape dimensions buffers) :
    walk ((down (taskOf buffers) dimensions).map loopOf) host =
      (coordinates dimensions (buffers 0)).val.map (address_of dimensions buffers host) := by
  have hList : (List.ofFn fun d : Fin dimensions => taskOf buffers d).map loopOf =
      List.ofFn fun d : Fin dimensions => ((buffers 0 d).extent.toNat, fun j => (buffers j d).stride) :=
    List.map_ofFn
  rw [walk_perm ((down_perm_ofFn _ _).map _), hList,
    walk_ofFn (fun d : Fin dimensions => (buffers 0 d).min) fun d : Fin dimensions => (buffers 0 d).extent]
  rw [sum_singleton]
  refine Multiset.map_congr rfl fun x _ => ?_
  funext k
  rw [address_of, Pi.add_apply, Finset.sum_apply]
  refine congrArg _ (Finset.sum_congr rfl fun d _ => ?_)
  rw [(hShape d d.isLt k).2, Pi.smul_apply, smul_eq_mul, mul_comm]

/-- The part after the first loop. -/
theorem visits_of_flatten {s' t' : Tasks (N + 1)} (hExtract : extract buffers dimensions s = some s')
    (hFlatten : flatten overflow 1 (dimensions - 1) s' = some t')
    (hWalk : walk ((down t' dimensions).map loopOf) host =
      (coordinates dimensions (buffers 0)).val.map (address_of dimensions buffers host)) :
    Visits overflow dimensions buffers host s := by
  refine ⟨for_each_value_helper (dimensions = 0 || decide (∀ i, (t' 0).stride i = 1)) t' dimensions host, ?_, ?_⟩
  · rw [for_each_value_impl, for_each_value_prep, hExtract]
    dsimp only [Option.bind_eq_bind, Option.bind_some]
    rw [hFlatten]
    rfl
  · rw [← hWalk]
    cases dimensions with
    | zero => rfl
    | succ n =>
      refine coe_helper (fun h => ?_) _ _
      rw [decide_eq_false (Nat.succ_ne_zero n), Bool.false_or, decide_eq_true_iff] at h
      exact funext h

/-- Whatever there is instead of a product that is no `int`, the function is called on the right values
if and only if the dimensions fit. -/
theorem visits_iff (hShape : SameShape dimensions buffers) (hExtent : ∀ i < dimensions, 0 ≤ (buffers 0 i).extent) :
    (∀ overflow, Visits overflow dimensions buffers host s) ↔ AllFit dimensions buffers := by
  obtain ⟨s', hExtract, hSorted⟩ := extract_eq s hShape
  have hPerm : (down s' dimensions).Perm (down (taskOf buffers) dimensions) :=
    hSorted ▸ List.perm_insertionSort _ _
  have hWalk := walk_tasks host hShape
  rw [← walk_perm (hPerm.map loopOf)] at hWalk
  rw [AllFit, ← hSorted, ← segment_eq_reverse]
  cases dimensions with
  | zero => exact iff_of_true (fun overflow => visits_of_flatten hExtract rfl hWalk) trivial
  | succ n =>
    change _ ↔ Fits (s' 0).extent (s' 0) (segment s' 1 n)
    have hPos : ∀ k ≤ n, 0 ≤ (s' (0 + k)).extent := by
      intro k hk
      obtain ⟨i, hi, hEq⟩ := mem_down.mp (hPerm.mem_iff.mp (mem_down.mpr ⟨k, Nat.lt_succ_of_le hk, rfl⟩))
      rw [Nat.zero_add, ← hEq]
      exact hExtent i hi
    constructor
    · intro h
      obtain ⟨calls, hCalls, -⟩ := h fun _ => none
      rw [for_each_value_impl, for_each_value_prep, hExtract] at hCalls
      dsimp only [Option.bind_eq_bind, Option.bind_some] at hCalls
      obtain ⟨_, hPrep, -⟩ := Option.bind_eq_some_iff.mp hCalls
      obtain ⟨t', hFlatten, -⟩ := Option.bind_eq_some_iff.mp hPrep
      exact fits_of_flatten n 0 s' t' (s' 0) (fun _ => rfl) hFlatten
    · intro hFits overflow
      obtain ⟨t', hFlatten, -, hSame⟩ := flatten_walk overflow n 0 s' (s' 0) (fun _ => rfl) hPos hFits
      refine visits_of_flatten hExtract hFlatten ?_
      have hAt := hSame 0 host
      rw [Nat.zero_add] at hAt
      rw [walk_down, hAt, ← walk_down, hWalk]

end Main

section Points

/-- An image of three by two values, and its transpose. -/
private def transposed (k : Fin 2) : Shape := fun p =>
  if p = 0 then ⟨0, 3, if k.val = 0 then 1 else 2⟩ else ⟨0, 2, if k.val = 0 then 3 else 1⟩

theorem visits_transposed : Visits (fun _ => none) 2 transposed 0 fun _ => ⟨0, 0⟩ :=
  (visits_iff (by decide) (by decide)).mpr (by decide) fun _ => none

/-- Two dimensions far apart and at one place. -/
private def wide (_ : Fin 1) : Shape := fun p => if p = 0 then ⟨0, 4, -2 ^ 30⟩ else ⟨0, 2, 0⟩

/-- A product of the stride and the extent is no `int`, and where it wraps around the function is called
on values that the buffer does not have. -/
theorem not_visits_wide : ¬Visits (fun _ => none) 2 wide 0 (fun _ => ⟨0, 0⟩) ∧
    ¬Visits (fun z => some (IntType.int32.wrap z)) 2 wide 0 fun _ => ⟨0, 0⟩ := by
  constructor
  · rintro ⟨calls, hCalls, -⟩
    have hNone : for_each_value_impl (fun _ => none) 2 wide 0 (fun _ => ⟨0, 0⟩) = none := by decide +kernel
    rw [hNone] at hCalls
    cases hCalls
  · rintro ⟨calls, hCalls, hEq⟩
    have hFar : (fun _ => -7 * 2 ^ 30 : Ptrs 1) ∈ (for_each_value_impl (fun z => some (IntType.int32.wrap z)) 2 wide 0
        fun _ => ⟨0, 0⟩).getD [] := by decide +kernel
    rw [hCalls] at hFar
    have hMem : (fun _ => -7 * 2 ^ 30 : Ptrs 1) ∈ (calls : Multiset (Ptrs 1)) := hFar
    rw [hEq] at hMem
    obtain ⟨x, hx, hPlace⟩ := Multiset.mem_map.mp hMem
    have hAt := congrFun hPlace 0
    have hIn : ∀ d : Fin 2, x d ∈ span (wide 0 d).min (wide 0 d).extent :=
      Fintype.mem_piFinset.mp (Finset.mem_val.mp hx)
    have hFirst := mem_span.mp (hIn 0)
    simp [address_of, wide, Fin.sum_univ_two] at hAt hFirst
    omega

end Points

end Vyasa.HalideBuffer
