import Mathlib.Data.List.Sort
import Vyasa.DeviceCopy.Buffer

/-! The order in which the dimensions stand in a copy, and when the loop that folds them into
the chunk comes to an end. -/
namespace Vyasa.DeviceCopy

variable {x e : copy_dim} {l tasks : List copy_dim} {chunk : BitVec 64}

/-- Insert a dimension among those that are there. -/
def place (l : List copy_dim) (x : copy_dim) : List copy_dim :=
  l.insertIdx (l.findIdx (goesBefore x)) x

theorem goesBefore_iff :
    goesBefore x e = true ↔ x.dst_stride_bytes < e.dst_stride_bytes ∧ x.dst_stride_bytes ≠ 0 := by
  simp [goesBefore]

/-- Only a dimension with a stride stands behind one that goes before it. -/
theorem ne_zero_of_lt {a b : BitVec 64} (h : a < b) : b ≠ 0 := by
  rintro rfl
  exact absurd h BitVec.not_lt_zero

@[simp] theorem place_nil : place [] x = [x] := rfl

theorem place_cons_of_goesBefore (h : goesBefore x e = true) : place (e :: l) x = x :: e :: l := by
  simp [place, List.findIdx_cons, h]

theorem place_cons_of_not (h : goesBefore x e = false) : place (e :: l) x = e :: place l x := by
  simp [place, List.findIdx_cons, h]

theorem place_perm (l : List copy_dim) (x : copy_dim) : (place l x).Perm (x :: l) :=
  List.perm_insertIdx x l List.findIdx_le_length

theorem mem_place {w : copy_dim} : w ∈ place l x ↔ w = x ∨ w ∈ l := by
  rw [(place_perm l x).mem_iff, List.mem_cons]

theorem insertIdx_append_of_le {i : Nat} (h : i ≤ l.length) (after : List copy_dim) :
    (l ++ after).insertIdx i x = l.insertIdx i x ++ after := by
  induction l generalizing i with
  | nil =>
    obtain rfl := Nat.le_zero.mp h
    rfl
  | cons e l ih =>
    cases i with
    | zero => rfl
    | succ i =>
      rw [List.cons_append, List.insertIdx_succ_cons, List.insertIdx_succ_cons, ih (Nat.le_of_succ_le_succ h),
        List.cons_append]

theorem insert_dim_eq (l : List copy_dim) (x : copy_dim) (k : Nat) :
    insert_dim l.length x (l ++ List.replicate (k + 1) single) = place l x ++ List.replicate k single := by
  have hLe : l.findIdx (goesBefore x) ≤ l.length := List.findIdx_le_length
  have hErase : (l ++ List.replicate (k + 1) single).eraseIdx l.length = l ++ List.replicate k single := by
    rw [List.eraseIdx_append_of_length_le (Nat.le_refl _), Nat.sub_self, List.replicate_succ,
      List.eraseIdx_zero, List.tail_cons]
  rw [insert_dim, hErase, List.take_left, place, insertIdx_append_of_le hLe]

/-- The array holds the dimensions that were inserted, each in its place, and single copies
after them. -/
theorem insert_dims_eq (tasks l : List copy_dim) (k : Nat) :
    insert_dims l.length tasks (l ++ List.replicate (tasks.length + k) single) =
      tasks.foldl place l ++ List.replicate k single := by
  induction tasks generalizing l with
  | nil => rw [List.length_nil, Nat.zero_add]; rfl
  | cons x tasks ih =>
    have hLength : (place l x).length = l.length + 1 := (place_perm l x).length_eq
    have hCount : (x :: tasks).length + k = (tasks.length + k) + 1 := by
      rw [List.length_cons]
      omega
    rw [insert_dims, hCount, insert_dim_eq, ← hLength, ih, List.foldl_cons]

theorem foldl_place_perm (tasks l : List copy_dim) : (tasks.foldl place l).Perm (tasks ++ l) := by
  induction tasks generalizing l with
  | nil => exact List.Perm.refl _
  | cons x tasks ih =>
    have hPlace := (place_perm l x).append_left tasks
    exact (ih _).trans (hPlace.trans List.perm_middle)

/-- The strides are those of contiguous runs, each as long as the chunk so far, and the chunk
comes to nothing. -/
def Packed : BitVec 64 → List copy_dim → Prop
  | chunk, [] => chunk = 0
  | chunk, e :: l =>
    e.src_stride_bytes = chunk ∧ e.dst_stride_bytes = chunk ∧ Packed (chunk * e.extent) l

theorem packed_zero_iff : Packed 0 l ↔ ∀ e ∈ l, e.src_stride_bytes = 0 ∧ e.dst_stride_bytes = 0 := by
  induction l with
  | nil => simp [Packed]
  | cons e l ih => rw [Packed, zero_mul, ih, List.forall_mem_cons, and_assoc]

/-- A single copy at the end takes part only once the chunk is nothing. -/
theorem packed_append_single : Packed chunk (l ++ [single]) ↔ Packed chunk l := by
  induction l generalizing chunk with
  | nil =>
    simp only [List.nil_append, Packed, single]
    constructor
    · exact fun h => h.1.symm
    · rintro rfl
      simp
  | cons e l ih => simp [Packed, ih]

theorem fold_contiguous_of_packed (turns : Nat) {c : device_copy} (h : Packed c.chunk_size c.dim)
    (hDim : c.dim ≠ []) : fold_contiguous turns c = none := by
  induction turns generalizing c with
  | zero => rfl
  | succ turns ih =>
    rw [fold_contiguous]
    split
    · next hNil => exact absurd hNil hDim
    · next e rest hCons =>
      rw [hCons] at h
      obtain ⟨hSrc, hDst, hRest⟩ := h
      rw [if_pos ⟨hSrc.symm, hDst.symm⟩]
      exact ih (packed_append_single.mpr hRest) (by simp)

theorem fold_contiguous_of_not_packed (c : device_copy) (l : List copy_dim) (k : Nat)
    (hDim : c.dim = l ++ List.replicate k single) (h : ¬ Packed c.chunk_size l) :
    ∃ turns c', fold_contiguous turns c = some c' := by
  induction l generalizing c k with
  | nil =>
    -- The chunk is not nothing, and a single copy has no stride.
    refine ⟨1, c, ?_⟩
    rw [fold_contiguous, hDim]
    cases k with
    | zero => rfl
    | succ k => exact if_neg fun hFold => h hFold.1
  | cons e l ih =>
    by_cases hFold : c.chunk_size = e.src_stride_bytes ∧ c.chunk_size = e.dst_stride_bytes
    · have hRest : ¬ Packed (c.chunk_size * e.extent) l := fun hRest =>
        h ⟨hFold.1.symm, hFold.2.symm, hRest⟩
      obtain ⟨turns, c', hc'⟩ := ih
        { c with chunk_size := c.chunk_size * e.extent, dim := l ++ List.replicate k single ++ [single] }
        (k + 1) (by simp [List.replicate_succ', List.append_assoc]) hRest
      refine ⟨turns + 1, c', ?_⟩
      rw [fold_contiguous, hDim]
      exact (if_pos hFold).trans hc'
    · refine ⟨1, c, ?_⟩
      rw [fold_contiguous, hDim]
      exact if_neg hFold

/-- Dimensions without a stride in the destination stand after the others. -/
def ZerosLast (l : List copy_dim) : Prop :=
  l.Pairwise fun a b => a.dst_stride_bytes = 0 → b.dst_stride_bytes = 0

theorem zerosLast_place : ZerosLast (place l x) ↔ ZerosLast l ∧ (x.dst_stride_bytes ≠ 0 →
    (∀ w ∈ l, w.dst_stride_bytes ≠ 0) ∨ ∃ w ∈ l, x.dst_stride_bytes < w.dst_stride_bytes) := by
  induction l with
  | nil => simp [ZerosLast]
  | cons e l ih =>
    cases hBefore : goesBefore x e with
    | true =>
      obtain ⟨hLt, hx⟩ := goesBefore_iff.mp hBefore
      rw [place_cons_of_goesBefore hBefore]
      simp only [ZerosLast, List.pairwise_cons]
      constructor
      · exact fun h => ⟨h.2, fun _ => Or.inr ⟨e, List.mem_cons_self, hLt⟩⟩
      · exact fun h => ⟨fun _ _ h0 => absurd h0 hx, h.1⟩
    | false =>
      have hNot : x.dst_stride_bytes ≠ 0 → ¬ x.dst_stride_bytes < e.dst_stride_bytes := by
        intro hx hLt
        rw [goesBefore_iff.mpr ⟨hLt, hx⟩] at hBefore
        cases hBefore
      rw [place_cons_of_not hBefore]
      simp only [ZerosLast, List.pairwise_cons, mem_place] at ih ⊢
      rw [ih]
      constructor
      · rintro ⟨hHead, hTail, hPlaced⟩
        refine ⟨⟨fun b hb => hHead b (Or.inr hb), hTail⟩, fun hx => ?_⟩
        have he : e.dst_stride_bytes ≠ 0 := fun h0 => hx (hHead x (Or.inl rfl) h0)
        rcases hPlaced hx with hAll | ⟨w, hw, hLt⟩
        · exact Or.inl (List.forall_mem_cons.mpr ⟨he, hAll⟩)
        · exact Or.inr ⟨w, List.mem_cons_of_mem _ hw, hLt⟩
      · rintro ⟨⟨hHead, hTail⟩, hPlaced⟩
        have hIn (hx : x.dst_stride_bytes ≠ 0) : e.dst_stride_bytes ≠ 0 ∧
            ((∀ w ∈ l, w.dst_stride_bytes ≠ 0) ∨ ∃ w ∈ l, x.dst_stride_bytes < w.dst_stride_bytes) := by
          rcases hPlaced hx with hAll | ⟨w, hw, hLt⟩
          · exact ⟨hAll e List.mem_cons_self, Or.inl fun w hw => hAll w (List.mem_cons_of_mem _ hw)⟩
          · rcases List.mem_cons.mp hw with rfl | hw
            · exact absurd hLt (hNot hx)
            · exact ⟨fun h0 => ne_zero_of_lt hLt (hHead w hw h0), Or.inr ⟨w, hw, hLt⟩⟩
        refine ⟨?_, hTail, fun hx => (hIn hx).2⟩
        rintro b (rfl | hb) h0
        · by_contra hb
          exact (hIn hb).1 h0
        · exact hHead b hb h0

/-- Each dimension with a stride comes before all of those without, or is below one that comes
before it. -/
def EachBelow (tasks : List copy_dim) : Prop :=
  ∀ before x after, tasks = before ++ x :: after → x.dst_stride_bytes ≠ 0 →
    (∀ w ∈ before, w.dst_stride_bytes ≠ 0) ∨ ∃ w ∈ before, x.dst_stride_bytes < w.dst_stride_bytes

theorem eachBelow_concat : EachBelow (tasks ++ [x]) ↔ EachBelow tasks ∧ (x.dst_stride_bytes ≠ 0 →
    (∀ w ∈ tasks, w.dst_stride_bytes ≠ 0) ∨ ∃ w ∈ tasks, x.dst_stride_bytes < w.dst_stride_bytes) := by
  constructor
  · intro h
    refine ⟨fun before y after hSplit => ?_, h tasks x [] rfl⟩
    exact h before y (after ++ [x]) (by rw [hSplit, List.append_assoc, List.cons_append])
  · rintro ⟨hAll, hLast⟩ before y after hSplit
    rcases List.eq_nil_or_concat after with rfl | ⟨after, last, rfl⟩
    · obtain ⟨rfl, hEq⟩ := List.append_inj' hSplit rfl
      obtain rfl := List.singleton_inj.mp hEq
      exact hLast
    · rw [List.concat_eq_append, ← List.cons_append, ← List.append_assoc] at hSplit
      obtain ⟨rfl, -⟩ := List.append_inj' hSplit rfl
      exact hAll before y after rfl

theorem zerosLast_foldl_place (tasks : List copy_dim) :
    ZerosLast (tasks.foldl place []) ↔ EachBelow tasks := by
  induction tasks using List.reverseRecOn with
  | nil => simp [ZerosLast, EachBelow]
  | append_singleton tasks x ih =>
    have hMem (w : copy_dim) : w ∈ tasks.foldl place [] ↔ w ∈ tasks := by
      rw [(foldl_place_perm tasks []).mem_iff, List.append_nil]
    simp only [List.foldl_concat, zerosLast_place, ih, hMem, eachBelow_concat]

/-- The dimensions with a stride in the destination. -/
def strided (l : List copy_dim) : List copy_dim := l.filter fun e => e.dst_stride_bytes ≠ 0

/-- The standard stable sort, by the strides in the destination. -/
def sorted (l : List copy_dim) : List copy_dim :=
  l.insertionSort fun a b => a.dst_stride_bytes ≤ b.dst_stride_bytes

theorem strided_cons (h : e.dst_stride_bytes ≠ 0) : strided (e :: l) = e :: strided l :=
  List.filter_cons_of_pos (decide_eq_true h)

theorem strided_cons_of_eq (h : e.dst_stride_bytes = 0) : strided (e :: l) = strided l :=
  List.filter_cons_of_neg (by rw [decide_eq_true_eq]; exact not_not_intro h)

theorem strided_place : strided (place l x) =
    if x.dst_stride_bytes ≠ 0 then place (strided l) x else strided l := by
  induction l with
  | nil =>
    split_ifs with hx
    · exact strided_cons hx
    · exact strided_cons_of_eq (not_not.mp hx)
  | cons e l ih =>
    cases hBefore : goesBefore x e with
    | true =>
      obtain ⟨hLt, hx⟩ := goesBefore_iff.mp hBefore
      rw [place_cons_of_goesBefore hBefore, if_pos hx, strided_cons hx, strided_cons (ne_zero_of_lt hLt),
        place_cons_of_goesBefore hBefore]
    | false =>
      rw [place_cons_of_not hBefore]
      by_cases he : e.dst_stride_bytes = 0
      · rw [strided_cons_of_eq he, strided_cons_of_eq he, ih]
      · rw [strided_cons he, strided_cons he, ih, place_cons_of_not hBefore]
        split_ifs <;> rfl

theorem strided_foldl_place (tasks l : List copy_dim) :
    strided (tasks.foldl place l) = (strided tasks).foldl place (strided l) := by
  induction tasks generalizing l with
  | nil => rfl
  | cons x tasks ih =>
    rw [List.foldl_cons, ih, strided_place]
    split_ifs with hx
    · rw [strided_cons hx, List.foldl_cons]
    · rw [strided_cons_of_eq (not_not.mp hx)]

theorem place_orderedInsert {a : copy_dim} (hx : x.dst_stride_bytes ≠ 0) :
    place (l.orderedInsert (fun a b => a.dst_stride_bytes ≤ b.dst_stride_bytes) a) x =
      (place l x).orderedInsert (fun a b => a.dst_stride_bytes ≤ b.dst_stride_bytes) a := by
  have hPlace (e : copy_dim) (l : List copy_dim) : place (e :: l) x =
      if e.dst_stride_bytes ≤ x.dst_stride_bytes then e :: place l x else x :: e :: l := by
    split_ifs with h
    · refine place_cons_of_not (Bool.eq_false_iff.mpr fun hTrue => ?_)
      exact BitVec.not_le.mpr (goesBefore_iff.mp hTrue).1 h
    · exact place_cons_of_goesBefore (goesBefore_iff.mpr ⟨BitVec.not_le.mp h, hx⟩)
  induction l with
  | nil => simp only [List.orderedInsert_nil, place_nil, hPlace, List.orderedInsert_cons]
  | cons e l ih =>
    rw [List.orderedInsert_cons, hPlace e l]
    by_cases hae : a.dst_stride_bytes ≤ e.dst_stride_bytes
    · rw [if_pos hae, hPlace]
      by_cases hax : a.dst_stride_bytes ≤ x.dst_stride_bytes
      · rw [if_pos hax, hPlace]
        split_ifs
        · rw [List.orderedInsert_cons, if_pos hae]
        · rw [List.orderedInsert_cons, if_pos hax]
      · have hex : ¬ e.dst_stride_bytes ≤ x.dst_stride_bytes := fun hex => hax (BitVec.le_trans hae hex)
        rw [if_neg hax, if_neg hex, List.orderedInsert_cons, if_neg hax, List.orderedInsert_cons, if_pos hae]
    · rw [if_neg hae, hPlace]
      split_ifs with hex
      · rw [ih, List.orderedInsert_cons, if_neg hae]
      · have hax : ¬ a.dst_stride_bytes ≤ x.dst_stride_bytes := by
          rw [BitVec.not_le] at hae hex ⊢
          exact BitVec.lt_trans hex hae
        rw [List.orderedInsert_cons, if_neg hax, List.orderedInsert_cons, if_neg hae]

theorem foldl_place_orderedInsert {a : copy_dim} (hTasks : ∀ x ∈ tasks, x.dst_stride_bytes ≠ 0) :
    tasks.foldl place (l.orderedInsert (fun a b => a.dst_stride_bytes ≤ b.dst_stride_bytes) a) =
      (tasks.foldl place l).orderedInsert (fun a b => a.dst_stride_bytes ≤ b.dst_stride_bytes) a := by
  induction tasks generalizing l with
  | nil => rfl
  | cons x tasks ih =>
    obtain ⟨hx, hRest⟩ := List.forall_mem_cons.mp hTasks
    rw [List.foldl_cons, List.foldl_cons, place_orderedInsert hx, ih hRest]

/-- Dimensions with strides end up sorted. -/
theorem foldl_place_eq_sorted (hTasks : ∀ x ∈ tasks, x.dst_stride_bytes ≠ 0) :
    tasks.foldl place [] = sorted tasks := by
  induction tasks with
  | nil => rfl
  | cons x tasks ih =>
    obtain ⟨-, hRest⟩ := List.forall_mem_cons.mp hTasks
    rw [sorted, List.insertionSort_cons, ← sorted, ← ih hRest, ← foldl_place_orderedInsert hRest]
    rfl

theorem packed_iff : Packed chunk l ↔ ZerosLast l ∧
    (∀ e ∈ l, e.dst_stride_bytes = 0 → e.src_stride_bytes = 0) ∧ Packed chunk (strided l) := by
  induction l generalizing chunk with
  | nil => simp [ZerosLast, strided]
  | cons e l ih =>
    by_cases he : e.dst_stride_bytes = 0
    · rw [strided_cons_of_eq he]
      constructor
      · rintro ⟨hSrc, hDst, hRest⟩
        obtain rfl : chunk = 0 := hDst.symm.trans he
        rw [zero_mul] at hRest
        obtain ⟨hLast, hZero, hPacked⟩ := ih.mp hRest
        have hAll := packed_zero_iff.mp hRest
        refine ⟨List.pairwise_cons.mpr ⟨fun b hb _ => (hAll b hb).2, hLast⟩, ?_, hPacked⟩
        exact List.forall_mem_cons.mpr ⟨fun _ => hSrc, hZero⟩
      · rintro ⟨hLast, hZero, hPacked⟩
        obtain ⟨hHead, -⟩ := List.pairwise_cons.mp hLast
        have hNone : strided l = [] := by
          refine List.filter_eq_nil_iff.mpr fun b hb hNe => ?_
          exact of_decide_eq_true hNe (hHead b hb he)
        rw [hNone] at hPacked
        obtain rfl : chunk = 0 := hPacked
        refine packed_zero_iff.mpr fun b hb => ?_
        have hDst : b.dst_stride_bytes = 0 := by
          rcases List.mem_cons.mp hb with rfl | hb
          · exact he
          · exact hHead b hb he
        exact ⟨hZero b hb hDst, hDst⟩
    · rw [strided_cons he]
      simp only [Packed, ih, ZerosLast, List.pairwise_cons, List.forall_mem_cons, he, false_implies,
        implies_true, true_and]
      tauto

/-- The dimensions with a stride, in the order of their strides, make contiguous runs of no
bytes at all in source and destination, and the loop meets them before it meets the others,
which have no stride in the source either. -/
structure Endless (chunk : BitVec 64) (tasks : List copy_dim) : Prop where
  below : EachBelow tasks
  unstrided : ∀ e ∈ tasks, e.dst_stride_bytes = 0 → e.src_stride_bytes = 0
  packed : Packed chunk (sorted (strided tasks))

theorem packed_foldl_place : Packed chunk (tasks.foldl place []) ↔ Endless chunk tasks := by
  have hMem (w : copy_dim) : w ∈ tasks.foldl place [] ↔ w ∈ tasks := by
    rw [(foldl_place_perm tasks []).mem_iff, List.append_nil]
  have hSorted : strided (tasks.foldl place []) = sorted (strided tasks) := by
    rw [strided_foldl_place]
    refine foldl_place_eq_sorted fun x hx => ?_
    simpa using (List.mem_filter.mp hx).2
  rw [packed_iff, zerosLast_foldl_place, hSorted]
  simp only [hMem]
  constructor
  · rintro ⟨hBelow, hUnstrided, hPacked⟩
    exact ⟨hBelow, hUnstrided, hPacked⟩
  · exact fun h => ⟨h.below, h.unstrided, h.packed⟩

/-- The loop that folds ends unless the dimensions are folded without end. -/
theorem exists_fold_contiguous_iff {c : device_copy} {k : Nat}
    (hDim : c.dim = tasks.foldl place [] ++ List.replicate k single) (hNe : c.dim ≠ []) :
    (∃ turns c', fold_contiguous turns c = some c') ↔ ¬ Endless c.chunk_size tasks := by
  rw [← packed_foldl_place]
  constructor
  · rintro ⟨turns, c', hc'⟩ hPacked
    have hAll : Packed c.chunk_size c.dim := by
      rw [hDim]
      clear hDim hc'
      induction k with
      | zero => rwa [List.replicate_zero, List.append_nil]
      | succ k ih =>
        rw [List.replicate_succ', ← List.append_assoc]
        exact packed_append_single.mpr ih
    rw [fold_contiguous_of_packed turns hAll hNe] at hc'
    cases hc'
  · exact fold_contiguous_of_not_packed c _ _ hDim

end Vyasa.DeviceCopy
