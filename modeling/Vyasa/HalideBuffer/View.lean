import Vyasa.DeviceCopy.Buffer
import Vyasa.Pointwise.Swap
import Mathlib.Data.List.Sort

/-! The operations that change how a buffer is indexed, and the addresses of its elements. -/
namespace Vyasa.HalideBuffer

open Word
open DeviceCopy (halide_dimension_t)

/-- What a view reads of its buffer: the pointer, if it is not null, the dimensions, and the size of
an element. -/
structure View where
  host : Option ℤ
  dim : List halide_dimension_t
  bytes : ℤ
deriving DecidableEq

namespace View

/-- `dim(d).max()` -/
def dim_max (dim : halide_dimension_t) : ℤ := IntType.int32.wrap (dim.min + dim.extent - 1)

/-- What a dimension adds to the offset. -/
def term (dim : halide_dimension_t) (pos : ℤ) : ℤ :=
  IntType.int32.wrap (dim.stride * IntType.int32.wrap (pos - dim.min))

/-- The product of three factors that moves the pointer. -/
def shiftBytes (shift stride bytes : ℤ) : ℤ :=
  IntType.int32.wrap (IntType.int32.wrap (shift * stride) * bytes)

def offset_of (b : View) (pos : List ℤ) : ℤ := ((b.dim.zip pos).map fun x => term x.1 x.2).sum

/-- Addresses have 64 bits. -/
def address_of (b : View) (pos : List ℤ) : Option ℤ :=
  b.host.map fun host => (host + b.offset_of pos * b.bytes) % 2 ^ 64

def contains (b : View) (pos : List ℤ) : Prop :=
  pos.length = b.dim.length ∧ ∀ x ∈ b.dim.zip pos, x.1.min ≤ x.2 ∧ x.2 ≤ dim_max x.1

instance (b : View) (pos : List ℤ) : Decidable (b.contains pos) :=
  inferInstanceAs (Decidable (_ ∧ ∀ x ∈ b.dim.zip pos, x.1.min ≤ x.2 ∧ x.2 ≤ dim_max x.1))

/-- The pointer moves, unless it is null. -/
def shift_host (b : View) (shift stride : ℤ) : Option ℤ :=
  b.host.map fun host => (host + shiftBytes shift stride b.bytes) % 2 ^ 64

/-! ### The operations, with their assertions -/

def crop_host (b : View) (d : ℕ) (min extent : ℤ) : Option View := do
  let dim ← b.dim[d]?
  if dim.min ≤ min ∧ dim_max dim ≥ IntType.int32.wrap (min + extent - 1) then
    let shift := IntType.int32.wrap (min - dim.min)
    some { b with host := b.shift_host shift dim.stride, dim := b.dim.set d ⟨min, extent, dim.stride⟩ }
  else none

def slice_host (b : View) (d : ℕ) (pos : ℤ) : Option View := do
  let dim ← b.dim[d]?
  if dim.min ≤ pos ∧ pos ≤ dim_max dim then
    let shift := IntType.int32.wrap (pos - dim.min)
    some { b with host := b.shift_host shift dim.stride, dim := b.dim.eraseIdx d }
  else none

def translate (b : View) (d : ℕ) (delta : ℤ) : Option View := do
  let dim ← b.dim[d]?
  some { b with dim := b.dim.set d { dim with min := IntType.int32.wrap (dim.min + delta) } }

def transpose (b : View) (d1 d2 : ℕ) : Option View := do
  let dim ← Pointwise.swap b.dim d1 d2
  some { b with dim := dim }

def add_dimension (b : View) : View :=
  let stride := match b.dim.getLast? with
    | none => 1
    | some last => IntType.int32.wrap (last.extent * last.stride)
  { b with dim := b.dim ++ [⟨0, 1, stride⟩] }

/-- The loop of transposes, from `d + n` down to `d`. -/
def bringDown (d : ℕ) : ℕ → View → Option View
  | 0, b => some b
  | n + 1, b => do
    let b ← b.transpose (d + n + 1) (d + n)
    bringDown d n b

def embed (b : View) (d : ℕ) (pos : ℤ) : Option View :=
  if d ≤ b.dim.length then do
    -- the new dimension is the last one
    let v ← b.add_dimension.translate b.dim.length pos
    bringDown d (b.dim.length - d) v
  else none

/-- The loop over `j`, which moves the element at `j` of `order_sorted` to its place. -/
def sink : ℕ → List ℕ → View → Option (List ℕ × View)
  | 0, order_sorted, b => some (order_sorted, b)
  | j + 1, order_sorted, b => do
    let prior ← order_sorted[j]?
    let current ← order_sorted[j + 1]?
    if prior > current then
      let order_sorted ← Pointwise.swap order_sorted (j + 1) j
      let b ← b.transpose (j + 1) j
      sink j order_sorted b
    else some (order_sorted, b)

/-- The loop over `i`, up to `n`. -/
def sortOrder : ℕ → List ℕ → View → Option (List ℕ × View)
  | 0, order_sorted, b => some (order_sorted, b)
  | i + 1, order_sorted, b => do
    let (order_sorted, b) ← sortOrder i order_sorted b
    sink (i + 1) order_sorted b

def transpose_order (b : View) (order : List ℕ) : Option View :=
  if order.length = b.dim.length then
    if b.dim.length < 2 then some b
    else (sortOrder (order.length - 1) order b).map Prod.snd
  else none

/-- Negative dimensions fail an assertion. -/
inductive Op where
  | crop (d : ℕ) (min extent : ℤ)
  | slice (d : ℕ) (pos : ℤ)
  | embed (d : ℕ) (pos : ℤ)
  | translate (d : ℕ) (delta : ℤ)
  | transpose (d1 d2 : ℕ)
  | transpose_order (order : List ℕ)

namespace Op

def step : Op → View → Option View
  | crop d min extent, b => b.crop_host d min extent
  | slice d pos, b => b.slice_host d pos
  | embed d pos, b => b.embed d pos
  | translate d delta, b => b.translate d delta
  | transpose d1 d2, b => b.transpose d1 d2
  | transpose_order order, b => b.transpose_order order

/-- The coordinate before the operation of what is at a coordinate after it. -/
def undo : Op → List ℤ → List ℤ
  | crop _ _ _, p => p
  | slice d pos, p => p.insertIdx d pos
  | embed d _, p => p.eraseIdx d
  | translate d delta, p => p.modify d fun c => IntType.int32.wrap (c - delta)
  | transpose d1 d2, p => (Pointwise.swap p d1 d2).getD p
  | transpose_order order, p => order.map fun i => p.getD i 0

end Op

def run : List Op → View → Option View
  | [], b => some b
  | op :: ops, b => do
    let b ← op.step b
    run ops b

/-- The coordinate before all of the operations. -/
def undoAll : List Op → List ℤ → List ℤ
  | [], p => p
  | op :: ops, p => op.undo (undoAll ops p)

end View

end Vyasa.HalideBuffer

/-! What the transposes of a view do to its dimensions: a new one comes to its place, and a list of
places is sorted along with the dimensions. -/
namespace Vyasa.HalideBuffer.View

open Word
open DeviceCopy (halide_dimension_t)

variable {b v : View} {d n : ℕ}

theorem transpose_eq_some {d1 d2 : ℕ} : b.transpose d1 d2 = some v ↔
    Pointwise.swap b.dim d1 d2 = some v.dim ∧ v.host = b.host ∧ v.bytes = b.bytes := by
  constructor
  · intro h
    obtain ⟨dim, hSwap, h⟩ := Option.bind_eq_some_iff.mp h
    obtain rfl := Option.some.inj h
    exact ⟨hSwap, rfl, rfl⟩
  · rintro ⟨hSwap, hHost, hBytes⟩
    rw [transpose, hSwap, ← hHost, ← hBytes]
    rfl

/-! ### A new dimension -/

theorem bringDown_eq {D : List halide_dimension_t} {x : halide_dimension_t} :
    ∀ {n : ℕ} {b : View}, d + n ≤ D.length → b.dim = D.insertIdx (d + n) x →
      bringDown d n b = some { b with dim := D.insertIdx d x }
  | 0, b, _, hDim => by
    have hSame : b.dim = D.insertIdx d x := hDim
    rw [bringDown, ← hSame]
  | n + 1, b, hLe, hDim => by
    have hSwap : b.transpose (d + n + 1) (d + n) = some { b with dim := D.insertIdx (d + n) x } := by
      rw [transpose_eq_some, hDim]
      exact ⟨Pointwise.swap_insertIdx x hLe, rfl, rfl⟩
    rw [bringDown, hSwap, Option.bind_eq_bind, Option.bind_some, bringDown_eq (Nat.le_of_succ_le hLe) rfl]

/-- The new dimension has one coordinate, and stands where it should. -/
theorem embed_eq (pos : ℤ) (hd : d ≤ b.dim.length) : ∃ stride, b.embed d pos =
    some { b with dim := b.dim.insertIdx d ⟨IntType.int32.wrap (0 + pos), 1, stride⟩ } := by
  obtain ⟨stride, hStride⟩ : ∃ stride, b.add_dimension = { b with dim := b.dim ++ [⟨0, 1, stride⟩] } := ⟨_, rfl⟩
  refine ⟨stride, ?_⟩
  have hTranslate : b.add_dimension.translate b.dim.length pos =
      some { b with dim := b.dim ++ [⟨IntType.int32.wrap (0 + pos), 1, stride⟩] } := by
    rw [hStride, translate, List.getElem?_concat_length, Option.bind_eq_bind, Option.bind_some,
      List.set_append_right _ _ le_rfl, Nat.sub_self, List.set_cons_zero]
  have hLe : d + (b.dim.length - d) = b.dim.length := by omega
  rw [embed, if_pos hd, hTranslate, Option.bind_eq_bind, Option.bind_some]
  refine bringDown_eq (le_of_eq hLe) ?_
  rw [hLe, List.insertIdx_length_self]

/-! ### A list of places -/

/-- What the loops keep: the places stand next to the same dimensions as before. -/
structure Follows (o : List ℕ) (b : View) (o' : List ℕ) (v : View) : Prop where
  pairs : (o'.zip v.dim).Perm (o.zip b.dim)
  perm : o'.Perm o
  length : v.dim.length = b.dim.length
  host : v.host = b.host
  bytes : v.bytes = b.bytes

variable {o o' : List ℕ}

theorem Follows.refl (o : List ℕ) (b : View) : Follows o b o b := ⟨.refl _, .refl _, rfl, rfl, rfl⟩

theorem Follows.trans {o'' : List ℕ} {w : View} (h : Follows o b o' v) (h' : Follows o' v o'' w) :
    Follows o b o'' w where
  pairs := h'.pairs.trans h.pairs
  perm := h'.perm.trans h.perm
  length := h'.length.trans h.length
  host := h'.host.trans h.host
  bytes := h'.bytes.trans h.bytes

theorem follows_swap {i j : ℕ} (hOrder : Pointwise.swap o i j = some o') (h : b.transpose i j = some v) :
    Follows o b o' v := by
  obtain ⟨hDim, hHost, hBytes⟩ := transpose_eq_some.mp h
  exact ⟨Pointwise.zip_swap hOrder hDim, Pointwise.swap_perm hOrder, Pointwise.length_of_swap hDim, hHost, hBytes⟩

/-- The inner loop sorts one more place in. -/
theorem sink_spec : ∀ {front back : List ℕ} {x : ℕ} {b : View}, front.Pairwise (· ≤ ·) →
    (front ++ x :: back).length = b.dim.length →
    ∃ sorted v, sink front.length (front ++ x :: back) b = some (sorted ++ back, v) ∧
      sorted.Pairwise (· ≤ ·) ∧ sorted.Perm (x :: front) ∧ Follows (front ++ x :: back) b (sorted ++ back) v := by
  intro front
  induction front using List.reverseRecOn with
  | nil =>
    intro back x b _ _
    exact ⟨[x], b, rfl, List.pairwise_singleton _ _, .refl _, Follows.refl _ _⟩
  | append_singleton front y ih =>
    intro back x b hSorted hLength
    obtain ⟨hFront, -, hBelow⟩ := List.pairwise_append.mp hSorted
    have hAt : (front ++ [y] ++ x :: back)[front.length]? = some y := by simp
    have hNext : (front ++ [y] ++ x :: back)[front.length + 1]? = some x := by simp
    rw [List.length_append, List.length_singleton, sink, hAt, hNext, Option.bind_eq_bind, Option.bind_some,
      Option.bind_eq_bind, Option.bind_some]
    rw [List.append_assoc, List.singleton_append] at hLength ⊢
    by_cases hGt : y > x
    · have hSwap := Pointwise.swap_adjacent x y back front
      have hPlaces : front.length + 1 < b.dim.length := by
        rw [← hLength, List.length_append, List.length_cons, List.length_cons]
        omega
      obtain ⟨dim, hDim⟩ := Pointwise.exists_swap hPlaces (Nat.lt_of_succ_lt hPlaces)
      have hTranspose : b.transpose (front.length + 1) front.length = some { b with dim := dim } :=
        transpose_eq_some.mpr ⟨hDim, rfl, rfl⟩
      have hFollows := follows_swap hSwap hTranspose
      obtain ⟨sorted, v, hSink, hPairwise, hPerm, hRest⟩ := ih hFront
        (show (front ++ x :: y :: back).length = ({ b with dim := dim } : View).dim.length from
          hFollows.perm.length_eq.trans (hLength.trans hFollows.length.symm))
      refine ⟨sorted ++ [y], v, ?_, ?_, ?_, ?_⟩
      · rw [if_pos hGt, hSwap, hTranspose, Option.bind_eq_bind, Option.bind_some, Option.bind_some, hSink,
          List.append_assoc, List.singleton_append]
      · refine List.pairwise_append.mpr ⟨hPairwise, List.pairwise_singleton _ _, fun z hz w hw => ?_⟩
        obtain rfl := List.mem_singleton.mp hw
        rcases List.mem_cons.mp (hPerm.mem_iff.mp hz) with rfl | hz
        · exact hGt.le
        · exact hBelow z hz w (List.mem_singleton_self w)
      · exact hPerm.append_right [y]
      · rw [List.append_assoc, List.singleton_append]
        exact hFollows.trans hRest
    · refine ⟨front ++ [y, x], b, ?_, ?_, ?_, ?_⟩
      · rw [if_neg hGt, List.append_assoc]
        rfl
      · refine List.pairwise_append.mpr ⟨hFront, ?_, fun z hz w hw => ?_⟩
        · exact List.pairwise_pair.mpr (not_lt.mp hGt)
        · have hzy := hBelow z hz y (List.mem_singleton_self y)
          rcases List.mem_cons.mp hw with rfl | hw
          · exact hzy
          · obtain rfl := List.mem_singleton.mp hw
            exact hzy.trans (not_lt.mp hGt)
      · rw [List.append_cons]
        exact List.perm_append_singleton x _
      · rw [List.append_assoc]
        exact Follows.refl _ _

/-- The places up to `i` are sorted. -/
theorem sortOrder_spec : ∀ {i : ℕ}, i < o.length → o.length = b.dim.length →
    ∃ o' v, sortOrder i o b = some (o', v) ∧ Follows o b o' v ∧ (o'.take (i + 1)).Pairwise (· ≤ ·)
  | 0, hi, _ => by
    refine ⟨o, b, rfl, Follows.refl o b, ?_⟩
    obtain ⟨x, rest, rfl⟩ := List.exists_cons_of_length_pos hi
    exact List.pairwise_singleton _ _
  | i + 1, hi, hLength => by
    obtain ⟨o', v, hSort, hFollows, hSorted⟩ := sortOrder_spec (Nat.lt_of_succ_lt hi) hLength
    have hi' : i + 1 < o'.length := by rwa [hFollows.perm.length_eq]
    have hParts : o'.take (i + 1) ++ o'[i + 1] :: o'.drop (i + 2) = o' := by
      rw [List.getElem_cons_drop, List.take_append_drop]
    have hCount : (o'.take (i + 1)).length = i + 1 := List.length_take_of_le hi'.le
    obtain ⟨sorted, w, hSink, hPairwise, hPerm, hRest⟩ := sink_spec hSorted
      (show (o'.take (i + 1) ++ o'[i + 1] :: o'.drop (i + 2)).length = v.dim.length by
        rw [hParts, hFollows.perm.length_eq, hLength, hFollows.length])
    rw [hParts] at hSink hRest
    rw [hCount] at hSink
    refine ⟨sorted ++ o'.drop (i + 2), w, ?_, hFollows.trans hRest, ?_⟩
    · rw [sortOrder, hSort, Option.bind_eq_bind, Option.bind_some]
      exact hSink
    · have hTaken : sorted.length = i + 1 + 1 := by
        rw [hPerm.length_eq, List.length_cons, hCount]
      rwa [List.take_left' hTaken]

/-- The dimension at place `i` comes to the place that the list names there. -/
theorem transpose_order_spec {order : List ℕ} (hOrder : order.Perm (List.range order.length))
    (h : b.transpose_order order = some v) : (order.zip b.dim).Perm ((List.range v.dim.length).zip v.dim) ∧
      order.length = b.dim.length ∧ v.dim.length = b.dim.length ∧ v.host = b.host ∧ v.bytes = b.bytes := by
  rw [transpose_order] at h
  split at h
  · next hLength =>
    split at h
    · next hFew =>
      obtain rfl := Option.some.inj h
      refine ⟨?_, hLength, rfl, rfl, rfl⟩
      have hSame : order = List.range b.dim.length := by
        rw [← hLength] at hFew ⊢
        cases order with
        | nil => rfl
        | cons x rest =>
          obtain rfl : rest = [] := List.length_eq_zero_iff.mp (by rw [List.length_cons] at hFew; omega)
          exact List.perm_singleton.mp hOrder
      rw [← hSame]
    · next hMany =>
      obtain ⟨o', w, hSort, hFollows, hSorted⟩ := sortOrder_spec (i := order.length - 1) (by omega) hLength
      rw [hSort, Option.map_some, Option.some.injEq] at h
      subst h
      have hRange : o' = List.range w.dim.length := by
        have hCount : order.length - 1 + 1 = o'.length := by
          rw [hFollows.perm.length_eq]
          omega
        rw [hCount, List.take_length] at hSorted
        refine List.Perm.eq_of_pairwise (fun _ _ _ _ h h' => le_antisymm h h') hSorted List.pairwise_le_range ?_
        rw [hFollows.length, ← hLength]
        exact hFollows.perm.trans hOrder
      rw [← hRange]
      exact ⟨hFollows.pairs.symm, hLength, hFollows.length, hFollows.host, hFollows.bytes⟩
  · cases h

end Vyasa.HalideBuffer.View
