import Vyasa.HalideBuffer.View
import Mathlib.Algebra.BigOperators.Group.List.Basic
import Mathlib.Tactic.IntervalCases
import Mathlib.Tactic.Ring

/-! When the elements of a view are those of the buffer: the products that move the pointer have
32 bits, as the products of the offsets have. -/
namespace Vyasa.HalideBuffer.View

open Word
open DeviceCopy (halide_dimension_t)

/-- The coordinates of a view are integers of the code. -/
def Describes (b : View) : Prop := ∀ dim ∈ b.dim, IntType.int32.Has dim.min ∧ IntType.int32.Has dim.extent ∧
  IntType.int32.Has dim.stride ∧ IntType.int32.Has (dim.min + dim.extent - 1)

instance (b : View) : Decidable b.Describes :=
  inferInstanceAs (Decidable (∀ dim ∈ b.dim, IntType.int32.Has dim.min ∧ IntType.int32.Has dim.extent ∧
    IntType.int32.Has dim.stride ∧ IntType.int32.Has (dim.min + dim.extent - 1)))

/-- How far an operation has to move the pointer along a dimension, in elements. -/
def shiftElements (dim : halide_dimension_t) (pos : ℤ) : ℤ :=
  IntType.int32.wrap (IntType.int32.wrap (pos - dim.min) * dim.stride)

/-- What an operation needs: that the bytes of its shift have 32 bits, and for a crop that the offsets from
the old minimum have as well. -/
def Op.Fits : Op → View → View → Prop
  | crop d min _, b, v => ∀ dim ∈ b.dim[d]?, ∀ p, v.contains p → ∀ c ∈ p[d]?,
      IntType.int32.Has (shiftElements dim min * b.bytes) ∧
        IntType.int32.Has (shiftElements dim min + term { dim with min := min } c)
  | slice d pos, b, v => ∀ dim ∈ b.dim[d]?, (∃ p, v.contains p) →
      IntType.int32.Has (shiftElements dim pos * b.bytes)
  | _, _, _ => True

/-! ### Places and offsets -/

variable {b v : View} {d : ℕ} {p q : List ℤ} {dim dim' : halide_dimension_t} {c c' : ℤ}

def Inside (x : halide_dimension_t × ℤ) : Prop := x.1.min ≤ x.2 ∧ x.2 ≤ dim_max x.1

def offset (l : List (halide_dimension_t × ℤ)) : ℤ := (l.map fun x => term x.1 x.2).sum

theorem offset_perm {l l' : List (halide_dimension_t × ℤ)} (h : l.Perm l') : offset l = offset l' :=
  (h.map _).sum_eq

theorem offset_cons (x : halide_dimension_t × ℤ) (l : List (halide_dimension_t × ℤ)) :
    offset (x :: l) = term x.1 x.2 + offset l := by
  rw [offset, List.map_cons, List.sum_cons, offset]

theorem contains_iff : b.contains p ↔ p.length = b.dim.length ∧ ∀ x ∈ b.dim.zip p, Inside x := Iff.rfl

theorem inside_perm {l l' : List (halide_dimension_t × ℤ)} (h : l.Perm l') :
    (∀ x ∈ l, Inside x) ↔ ∀ x ∈ l', Inside x := by
  simp only [h.mem_iff]

/-- One dimension with its coordinate, and the others. -/
theorem zip_split (hDim : dim ∈ b.dim[d]?) (hc : c ∈ p[d]?) :
    (b.dim.zip p).Perm ((dim, c) :: (b.dim.eraseIdx d).zip (p.eraseIdx d)) := by
  obtain ⟨hd, rfl⟩ := List.getElem?_eq_some_iff.mp hDim
  obtain ⟨hd', rfl⟩ := List.getElem?_eq_some_iff.mp hc
  exact Pointwise.zip_perm_cons hd hd'

theorem wrap_term (dim : halide_dimension_t) (c min : ℤ) :
    term dim c = IntType.int32.wrap (shiftElements dim min + term { dim with min := min } c) := by
  have h (z : ℤ) : IntType.int32.wrap z ≡ z [ZMOD 2 ^ IntType.int32.bits] := IntType.wrap_modEq _ z
  refine IntType.wrap_eq_wrap ?_
  have hShift : shiftElements dim min ≡ (min - dim.min) * dim.stride [ZMOD 2 ^ IntType.int32.bits] :=
    (h _).trans ((h _).mul_right _)
  have hTerm : term { dim with min := min } c ≡ dim.stride * (c - min) [ZMOD 2 ^ IntType.int32.bits] :=
    (h _).trans ((h _).mul_left _)
  refine ((h _).mul_left _).trans (Int.ModEq.trans ?_ (hShift.add hTerm).symm)
  exact congrArg (· % _) (by ring)

theorem term_self (dim : halide_dimension_t) : term dim dim.min = 0 := by
  rw [term, sub_self, IntType.wrap_of_has (IntType.has_zero _), mul_zero, IntType.wrap_of_has (IntType.has_zero _)]

theorem has_term (dim : halide_dimension_t) (c : ℤ) : IntType.int32.Has (term dim c) := IntType.has_wrap _ _

theorem has_shiftElements (dim : halide_dimension_t) (pos : ℤ) : IntType.int32.Has (shiftElements dim pos) :=
  IntType.has_wrap _ _

theorem shiftElements_eq (dim : halide_dimension_t) (pos : ℤ) : shiftElements dim pos = term dim pos := by
  rw [shiftElements, term, mul_comm]

/-- The bounds of the 32 bits. -/
theorem int32_bounds {z : ℤ} (h : IntType.int32.Has z) : -2147483648 ≤ z ∧ z ≤ 2147483647 := h

/-! ### The pointer -/

/-- A pointer that is moved reaches the same address exactly if what it is moved by is what the offsets
differ by. -/
theorem moved_iff {host shift o o' bytes : ℤ} :
    ((host + shift) % 2 ^ 64 + o * bytes) % 2 ^ 64 = (host + o' * bytes) % 2 ^ 64 ↔
      (shift + (o - o') * bytes) % 2 ^ 64 = 0 := by
  rw [Int.emod_add_emod, Int.emod_eq_emod_iff_emod_sub_eq_zero]
  have hEq : host + shift + o * bytes - (host + o' * bytes) = shift + (o - o') * bytes := by ring
  rw [hEq]

variable {x y bytes : ℤ}

/-- No multiple of the size of the address space is that small. -/
theorem emod_eq_zero_iff {w z : ℤ} (hBytes : 1 ≤ bytes ∧ bytes ≤ 8) (hw : IntType.int32.Has w)
    (hLower : -2 ^ 34 ≤ z) (hUpper : z ≤ 2 ^ 34) : (w + z * bytes) % 2 ^ 64 = 0 ↔ w + z * bytes = 0 := by
  obtain ⟨hLow, hHigh⟩ := hBytes
  have hBounds := int32_bounds hw
  interval_cases bytes <;> omega

theorem has_of_wrap_eq {z : ℤ} (h : IntType.int32.wrap z = z) : IntType.int32.Has z := h ▸ IntType.has_wrap _ _

/-- A slice moves the pointer as far as the offset of what is left out. -/
theorem shift_eq_iff (hBytes : 1 ≤ bytes ∧ bytes ≤ 8) (hx : IntType.int32.Has x) :
    (IntType.int32.wrap (x * bytes) + -x * bytes) % 2 ^ 64 = 0 ↔ IntType.int32.Has (x * bytes) := by
  have hBounds := int32_bounds hx
  rw [emod_eq_zero_iff hBytes (IntType.has_wrap _ _) (by omega) (by omega)]
  constructor
  · exact fun h => has_of_wrap_eq (by linarith)
  · intro h
    rw [IntType.wrap_of_has h]
    ring

/-- A crop moves it as far as the offset of the new minimum, and the offsets from there add up to it. -/
theorem shift_add_iff (hBytes : 1 ≤ bytes ∧ bytes ≤ 8) (hx : IntType.int32.Has x) (hy : IntType.int32.Has y)
    (hFits : IntType.int32.Has (x * bytes)) :
    (IntType.int32.wrap (x * bytes) + (y - IntType.int32.wrap (x + y)) * bytes) % 2 ^ 64 = 0 ↔
      IntType.int32.Has (x + y) := by
  have hBoundsX := int32_bounds hx
  have hBoundsY := int32_bounds hy
  have hBounds := int32_bounds (IntType.has_wrap IntType.int32 (x + y))
  rw [emod_eq_zero_iff hBytes (IntType.has_wrap _ _) (by omega) (by omega), IntType.wrap_of_has hFits]
  have hFactor : x * bytes + (y - IntType.int32.wrap (x + y)) * bytes = (x + y - IntType.int32.wrap (x + y)) * bytes := by
    ring
  rw [hFactor]
  constructor
  · intro h
    rcases mul_eq_zero.mp h with h | h
    · exact has_of_wrap_eq (by linarith)
    · omega
  · intro h
    rw [IntType.wrap_of_has h, sub_self, zero_mul]

/-! ### One step -/

theorem exists_coordinate (hLength : p.length = b.dim.length) (hDim : dim ∈ b.dim[d]?) : ∃ c, c ∈ p[d]? := by
  obtain ⟨hd, -⟩ := List.getElem?_eq_some_iff.mp hDim
  exact ⟨_, List.getElem?_eq_getElem (hLength ▸ hd)⟩

theorem crop_spec {min extent : ℤ} (h : b.crop_host d min extent = some v) : ∃ dim ∈ b.dim[d]?,
    dim.min ≤ min ∧ IntType.int32.wrap (min + extent - 1) ≤ dim_max dim ∧ v =
      { b with
        host := b.shift_host (IntType.int32.wrap (min - dim.min)) dim.stride
        dim := b.dim.set d ⟨min, extent, dim.stride⟩ } := by
  obtain ⟨dim, hDim, h⟩ := Option.bind_eq_some_iff.mp h
  split at h
  · next hAssert => exact ⟨dim, hDim, hAssert.1, hAssert.2, (Option.some.inj h).symm⟩
  · cases h

theorem slice_spec {pos : ℤ} (h : b.slice_host d pos = some v) : ∃ dim ∈ b.dim[d]?,
    dim.min ≤ pos ∧ pos ≤ dim_max dim ∧ v =
      { b with
        host := b.shift_host (IntType.int32.wrap (pos - dim.min)) dim.stride
        dim := b.dim.eraseIdx d } := by
  obtain ⟨dim, hDim, h⟩ := Option.bind_eq_some_iff.mp h
  split at h
  · next hAssert => exact ⟨dim, hDim, hAssert.1, hAssert.2, (Option.some.inj h).symm⟩
  · cases h

theorem address_eq_iff {host shift : ℤ} (hHost : b.host = some host) (hShift : v.host = some ((host + shift) % 2 ^ 64))
    (hSame : v.bytes = b.bytes) : v.address_of q = b.address_of p ↔
      (shift + (v.offset_of q - b.offset_of p) * b.bytes) % 2 ^ 64 = 0 := by
  rw [address_of, address_of, hHost, hShift, hSame, Option.map_some, Option.map_some, Option.some.injEq, moved_iff]

/-- A crop shows the elements of the buffer exactly if it fits. -/
theorem crop_exact {min extent host : ℤ} (hHost : b.host = some host) (hBytes : 1 ≤ b.bytes ∧ b.bytes ≤ 8)
    (h : b.crop_host d min extent = some v) : (∀ q, v.contains q → b.contains q) ∧
      ((∀ q, v.contains q → v.address_of q = b.address_of q) ↔ Op.Fits (.crop d min extent) b v) := by
  obtain ⟨dim, hDim, hMin, hMax, rfl⟩ := crop_spec h
  obtain ⟨hd, -⟩ := List.getElem?_eq_some_iff.mp hDim
  set v : View := { b with
    host := b.shift_host (IntType.int32.wrap (min - dim.min)) dim.stride
    dim := b.dim.set d ⟨min, extent, dim.stride⟩ } with hv
  have hDim' : (⟨min, extent, dim.stride⟩ : halide_dimension_t) ∈ v.dim[d]? := List.getElem?_set_self hd
  have hOthers : v.dim.eraseIdx d = b.dim.eraseIdx d := List.eraseIdx_set_eq
  have hLength : v.dim.length = b.dim.length := List.length_set
  have hCoordinate {q : List ℤ} (hq : v.contains q) : ∃ c, c ∈ q[d]? := exists_coordinate hq.1 hDim'
  have hInside {q : List ℤ} {c : ℤ} (hq : v.contains q) (hc : c ∈ q[d]?) :
      (min ≤ c ∧ c ≤ IntType.int32.wrap (min + extent - 1)) ∧
        ∀ x ∈ (b.dim.eraseIdx d).zip (q.eraseIdx d), Inside x := by
    have hAll := (inside_perm (zip_split hDim' hc)).mp hq.2
    rw [hOthers] at hAll
    exact ⟨hAll _ List.mem_cons_self, fun x hx => hAll x (List.mem_cons_of_mem _ hx)⟩
  -- the offset in the buffer wraps where the one in the view and the shift do not
  have hAddress {q : List ℤ} {c : ℤ} (hq : v.contains q) (hc : c ∈ q[d]?) : v.address_of q = b.address_of q ↔
      (IntType.int32.wrap (shiftElements dim min * b.bytes) + (term { dim with min := min } c -
        IntType.int32.wrap (shiftElements dim min + term { dim with min := min } c)) * b.bytes) % 2 ^ 64 = 0 := by
    rw [address_eq_iff (v := v) hHost (by rw [hv, shift_host, hHost]; rfl) rfl]
    have hOffsets : v.offset_of q - b.offset_of q = term { dim with min := min } c -
        IntType.int32.wrap (shiftElements dim min + term { dim with min := min } c) := by
      have hView : v.offset_of q = _ := offset_perm (zip_split hDim' hc)
      have hBuffer : b.offset_of q = _ := offset_perm (zip_split hDim hc)
      rw [hView, hBuffer, offset_cons, offset_cons, hOthers, ← wrap_term]
      exact add_sub_add_right_eq_sub _ _ _
    rw [hOffsets]
    rfl
  refine ⟨fun q hq => ⟨hq.1.trans hLength, ?_⟩, ?_, ?_⟩
  · obtain ⟨c, hc⟩ := hCoordinate hq
    obtain ⟨⟨hLow, hHigh⟩, hRest⟩ := hInside hq hc
    refine (inside_perm (zip_split hDim hc)).mpr fun x hx => ?_
    rcases List.mem_cons.mp hx with rfl | hx
    · exact ⟨hMin.trans hLow, hHigh.trans hMax⟩
    · exact hRest x hx
  · intro hAll dim₁ hDim₁ q hq c hc
    obtain rfl := Option.some.inj (hDim.symm.trans hDim₁)
    obtain ⟨hc', -⟩ := List.getElem?_eq_some_iff.mp hc
    -- the coordinate at the new minimum
    have hFirst : min ∈ (q.set d min)[d]? := List.getElem?_set_self hc'
    have hContains : v.contains (q.set d min) := by
      obtain ⟨⟨hLow, hHigh⟩, hRest⟩ := hInside hq hc
      refine ⟨List.length_set.trans hq.1, (inside_perm (zip_split hDim' hFirst)).mpr fun x hx => ?_⟩
      rw [hOthers, List.eraseIdx_set_eq] at hx
      rcases List.mem_cons.mp hx with rfl | hx
      · exact ⟨le_rfl, hLow.trans hHigh⟩
      · exact hRest x hx
    have hShift : IntType.int32.Has (shiftElements dim min * b.bytes) := by
      have hZero := (hAddress hContains hFirst).mp (hAll _ hContains)
      have hTerm : term { dim with min := min } min = 0 := term_self { dim with min := min }
      rw [hTerm, add_zero, IntType.wrap_of_has (has_shiftElements _ _), zero_sub] at hZero
      exact (shift_eq_iff hBytes (has_shiftElements _ _)).mp hZero
    exact ⟨hShift, (shift_add_iff hBytes (has_shiftElements _ _) (has_term _ _) hShift).mp
      ((hAddress hq hc).mp (hAll q hq))⟩
  · intro hFits q hq
    obtain ⟨c, hc⟩ := hCoordinate hq
    obtain ⟨hShift, hSum⟩ := hFits dim hDim q hq c hc
    exact (hAddress hq hc).mpr ((shift_add_iff hBytes (has_shiftElements _ _) (has_term _ _) hShift).mpr hSum)

/-- A slice shows the elements of the buffer exactly if its shift fits. -/
theorem slice_exact {pos host : ℤ} (hHost : b.host = some host) (hBytes : 1 ≤ b.bytes ∧ b.bytes ≤ 8)
    (h : b.slice_host d pos = some v) : (∀ q, v.contains q → b.contains (q.insertIdx d pos)) ∧
      ((∀ q, v.contains q → v.address_of q = b.address_of (q.insertIdx d pos)) ↔ Op.Fits (.slice d pos) b v) := by
  obtain ⟨dim, hDim, hMin, hMax, rfl⟩ := slice_spec h
  obtain ⟨hd, -⟩ := List.getElem?_eq_some_iff.mp hDim
  set v : View := { b with
    host := b.shift_host (IntType.int32.wrap (pos - dim.min)) dim.stride
    dim := b.dim.eraseIdx d } with hv
  have hLength : v.dim.length + 1 = b.dim.length := by
    have hCount : v.dim.length = b.dim.length - 1 := List.length_eraseIdx_of_lt hd
    omega
  have hInsert {q : List ℤ} (hq : v.contains q) : (b.dim.zip (q.insertIdx d pos)).Perm ((dim, pos) :: v.dim.zip q) := by
    have hLe : d ≤ q.length := by
      rw [hq.1]
      omega
    have hPos : pos ∈ (q.insertIdx d pos)[d]? := by
      rw [List.getElem?_insertIdx_self, if_pos hLe]
      rfl
    have hSplit := zip_split hDim hPos
    rwa [List.eraseIdx_insertIdx_self] at hSplit
  have hAddress {q : List ℤ} (hq : v.contains q) : v.address_of q = b.address_of (q.insertIdx d pos) ↔
      IntType.int32.Has (shiftElements dim pos * b.bytes) := by
    rw [address_eq_iff (v := v) hHost (by rw [hv, shift_host, hHost]; rfl) rfl]
    have hOffsets : v.offset_of q - b.offset_of (q.insertIdx d pos) = -shiftElements dim pos := by
      have hBuffer : b.offset_of (q.insertIdx d pos) = _ := offset_perm (hInsert hq)
      rw [hBuffer, offset_cons, shiftElements_eq]
      exact sub_add_cancel_right _ _
    rw [hOffsets]
    exact shift_eq_iff hBytes (has_shiftElements _ _)
  refine ⟨fun q hq => ⟨?_, (inside_perm (hInsert hq)).mpr fun x hx => ?_⟩, ?_, ?_⟩
  · rw [List.length_insertIdx, hq.1, if_pos (by omega), hLength]
  · rcases List.mem_cons.mp hx with rfl | hx
    · exact ⟨hMin, hMax⟩
    · exact hq.2 x hx
  · rintro hAll dim₁ hDim₁ ⟨q, hq⟩
    obtain rfl := Option.some.inj (hDim.symm.trans hDim₁)
    exact (hAddress hq).mp (hAll q hq)
  · exact fun hFits q hq => (hAddress hq).mpr (hFits dim hDim ⟨q, hq⟩)

/-- The same pointer reaches the same address at the same offset. -/
theorem address_of_offset (hHost : v.host = b.host) (hSame : v.bytes = b.bytes) (h : v.offset_of q = b.offset_of p) :
    v.address_of q = b.address_of p := by
  rw [address_of, address_of, hHost, hSame, h]

/-- An embedded dimension has one coordinate, at which it adds nothing. -/
theorem embed_exact {pos : ℤ} (h : b.embed d pos = some v) (hDescribes : v.Describes) : ∀ q, v.contains q →
    b.contains (q.eraseIdx d) ∧ v.address_of q = b.address_of (q.eraseIdx d) := by
  intro q hq
  have hd : d ≤ b.dim.length := by
    rw [embed] at h
    split at h
    · next hd => exact hd
    · cases h
  obtain ⟨stride, hEmbed⟩ := embed_eq pos hd
  obtain rfl := Option.some.inj (hEmbed.symm.trans h)
  set new : halide_dimension_t := ⟨IntType.int32.wrap (0 + pos), 1, stride⟩ with hNew
  set v : View := { b with dim := b.dim.insertIdx d new } with hv
  have hDim : new ∈ v.dim[d]? := by
    rw [hv, List.getElem?_insertIdx_self, if_pos hd]
    rfl
  obtain ⟨c, hc⟩ := exists_coordinate hq.1 hDim
  have hOthers : v.dim.eraseIdx d = b.dim := List.eraseIdx_insertIdx_self _
  have hSplit := zip_split hDim hc
  rw [hOthers] at hSplit
  have hAll := (inside_perm hSplit).mp hq.2
  obtain ⟨hLow, hHigh⟩ := hAll _ List.mem_cons_self
  have hOnly : c = new.min := by
    have hMax : dim_max new = new.min := by
      rw [dim_max, hNew, add_sub_cancel_right, IntType.wrap_wrap]
    exact le_antisymm (hHigh.trans (le_of_eq hMax)) hLow
  have hLength : (q.eraseIdx d).length = b.dim.length := by
    have hCount : q.length = b.dim.length + 1 := by
      rw [hq.1, hv, List.length_insertIdx, if_pos hd]
    rw [List.length_eraseIdx_of_lt (by omega), hCount, Nat.add_sub_cancel]
  refine ⟨⟨hLength, fun x hx => hAll x (List.mem_cons_of_mem _ hx)⟩, address_of_offset rfl rfl ?_⟩
  have hView : v.offset_of q = _ := offset_perm hSplit
  rw [hView, offset_cons, hOnly]
  exact (congrArg (· + _) (term_self new)).trans (zero_add _)

/-- A coordinate is moved along with the minimum. -/
theorem wrap_translate {min delta : ℤ} : IntType.int32.wrap (IntType.int32.wrap (c - delta) - min) =
    IntType.int32.wrap (c - IntType.int32.wrap (min + delta)) := by
  have h (z : ℤ) : IntType.int32.wrap z ≡ z [ZMOD 2 ^ IntType.int32.bits] := IntType.wrap_modEq _ z
  refine IntType.wrap_eq_wrap (((h _).sub_right _).trans (Int.ModEq.trans ?_ ((h _).sub_left c).symm))
  exact congrArg (· % _) (by ring)

theorem inside_translate {delta : ℤ} (hHas : IntType.int32.Has dim.min)
    (hMax : IntType.int32.Has (dim.min + dim.extent - 1))
    (hMax' : IntType.int32.Has (IntType.int32.wrap (dim.min + delta) + dim.extent - 1))
    (h : Inside ({ dim with min := IntType.int32.wrap (dim.min + delta) }, c)) :
    Inside (dim, IntType.int32.wrap (c - delta)) := by
  obtain ⟨hLow, hHigh⟩ := h
  simp only [dim_max, IntType.wrap_of_has hMax'] at hLow hHigh
  -- the place of the coordinate, counted from the minimum
  have hPlace : IntType.int32.wrap (c - delta) = dim.min + (c - IntType.int32.wrap (dim.min + delta)) := by
    have hFits : IntType.int32.Has (dim.min + (c - IntType.int32.wrap (dim.min + delta))) := by
      have hBounds := int32_bounds hHas
      have hBounds' := int32_bounds hMax
      constructor
      · exact hBounds.1.trans (by linarith)
      · exact le_trans (by linarith) hBounds'.2
    rw [← IntType.wrap_of_has hFits]
    refine IntType.wrap_eq_wrap (Int.ModEq.trans ?_ (((IntType.wrap_modEq _ _).sub_left c).add_left dim.min).symm)
    exact congrArg (· % _) (by ring)
  rw [Inside, dim_max, IntType.wrap_of_has hMax, hPlace]
  constructor
  · linarith
  · linarith

/-- A translation moves the coordinates along with the minimum. -/
theorem translate_exact {delta : ℤ} (h : b.translate d delta = some v) (hb : b.Describes) (hv : v.Describes) :
    ∀ q, v.contains q → b.contains (Op.undo (.translate d delta) q) ∧
      v.address_of q = b.address_of (Op.undo (.translate d delta) q) := by
  intro q hq
  obtain ⟨dim, hDim, h⟩ := Option.bind_eq_some_iff.mp h
  obtain rfl := Option.some.inj h
  obtain ⟨hd, -⟩ := List.getElem?_eq_some_iff.mp hDim
  set moved : halide_dimension_t := { dim with min := IntType.int32.wrap (dim.min + delta) } with hMoved
  set v : View := { b with dim := b.dim.set d moved } with hView
  have hDim' : moved ∈ v.dim[d]? := List.getElem?_set_self hd
  have hOthers : v.dim.eraseIdx d = b.dim.eraseIdx d := List.eraseIdx_set_eq
  obtain ⟨c, hc⟩ := exists_coordinate hq.1 hDim'
  obtain ⟨hcd, -⟩ := List.getElem?_eq_some_iff.mp hc
  have hUndo : Op.undo (.translate d delta) q = q.set d (IntType.int32.wrap (c - delta)) := by
    rw [Op.undo, List.modify_eq_set_getElem?, hc]
    rfl
  have hc' : IntType.int32.wrap (c - delta) ∈ (q.set d (IntType.int32.wrap (c - delta)))[d]? := List.getElem?_set_self hcd
  have hSplit := zip_split hDim' hc
  have hSplit' := zip_split (b := b) hDim hc'
  rw [hOthers] at hSplit
  rw [List.eraseIdx_set_eq] at hSplit'
  have hAll := (inside_perm hSplit).mp hq.2
  rw [hUndo]
  have hTerm : term moved c = term dim (IntType.int32.wrap (c - delta)) := by
    rw [term, term, wrap_translate]
  refine ⟨⟨List.length_set.trans (hq.1.trans List.length_set), (inside_perm hSplit').mpr fun x hx => ?_⟩,
    address_of_offset rfl rfl ?_⟩
  · rcases List.mem_cons.mp hx with rfl | hx
    · obtain ⟨hHas, -, -, hMax⟩ := hb dim (List.mem_of_getElem? hDim)
      obtain ⟨-, -, -, hMax'⟩ := hv moved (List.mem_of_getElem? hDim')
      exact inside_translate hHas hMax hMax' (hAll _ List.mem_cons_self)
    · exact hAll x (List.mem_cons_of_mem _ hx)
  · have hLeft : v.offset_of q = _ := offset_perm hSplit
    have hRight : b.offset_of (q.set d (IntType.int32.wrap (c - delta))) = _ := offset_perm hSplit'
    rw [hLeft, hRight, offset_cons, offset_cons, hTerm]

/-- Dimensions that are rearranged along with the coordinates. -/
theorem rearranged_exact (hHost : v.host = b.host) (hSame : v.bytes = b.bytes) (hLength : p.length = b.dim.length)
    (hPairs : (b.dim.zip p).Perm (v.dim.zip q)) (hq : v.contains q) :
    b.contains p ∧ v.address_of q = b.address_of p :=
  ⟨⟨hLength, (inside_perm hPairs).mpr hq.2⟩, address_of_offset hHost hSame (offset_perm hPairs).symm⟩

theorem transpose_exact {d1 d2 : ℕ} (h : b.transpose d1 d2 = some v) : ∀ q, v.contains q →
    b.contains (Op.undo (.transpose d1 d2) q) ∧ v.address_of q = b.address_of (Op.undo (.transpose d1 d2) q) := by
  intro q hq
  obtain ⟨hDim, hHost, hSame⟩ := transpose_eq_some.mp h
  obtain ⟨hd1, hd2, -⟩ := Pointwise.swap_eq_some.mp hDim
  have hCount := Pointwise.length_of_swap hDim
  obtain ⟨p, hp⟩ := Pointwise.exists_swap (a := q) (i := d1) (j := d2) (by rw [hq.1]; omega) (by rw [hq.1]; omega)
  have hUndo : Op.undo (.transpose d1 d2) q = p := by
    rw [Op.undo, hp]
    rfl
  rw [hUndo]
  refine rearranged_exact hHost hSame ?_ (Pointwise.zip_swap (Pointwise.swap_swap hDim) hp) hq
  rw [Pointwise.length_of_swap hp, hq.1, hCount]

/-- Dimensions that stand at the places of a list, and coordinates that are looked up there. -/
theorem zip_range_perm {n : ℕ} {B D : List halide_dimension_t} {order : List ℕ} (hq : q.length = n)
    (hPairs : (order.zip B).Perm ((List.range n).zip D)) :
    (B.zip (order.map fun i => q.getD i 0)).Perm (D.zip q) := by
  have hLookup (l : List ℕ) (C : List halide_dimension_t) :
      C.zip (l.map fun i => q.getD i 0) = (l.zip C).map fun x => (x.2, q.getD x.1 0) := by
    rw [List.zip_map_right, ← List.zip_swap, List.map_map]
    rfl
  have hAll : (List.range n).map (fun i => q.getD i 0) = q := by
    refine List.ext_getElem (by rw [List.length_map, List.length_range, hq]) fun i hi hi' => ?_
    rw [List.getElem_map, List.getElem_range, List.getD_eq_getElem _ _ hi']
  rw [hLookup, ← hAll, hLookup, hAll]
  exact hPairs.map _

theorem transpose_order_exact {order : List ℕ} (hOrder : order.Perm (List.range order.length))
    (h : b.transpose_order order = some v) : ∀ q, v.contains q →
      b.contains (Op.undo (.transpose_order order) q) ∧
        v.address_of q = b.address_of (Op.undo (.transpose_order order) q) := by
  intro q hq
  obtain ⟨hPairs, hLength, -, hHost, hSame⟩ := transpose_order_spec hOrder h
  refine rearranged_exact hHost hSame ?_ (zip_range_perm hq.1 hPairs) hq
  rw [Op.undo, List.length_map, hLength]

/-! ### Runs -/

/-- The orders of the transposes list each dimension once. -/
def Op.Permutes : Op → Prop
  | transpose_order order => order.Perm (List.range order.length)
  | _ => True

theorem step_exact {op : Op} {host : ℤ} (hHost : b.host = some host) (hBytes : 1 ≤ b.bytes ∧ b.bytes ≤ 8)
    (hOp : op.Permutes) (hb : b.Describes) (hv : v.Describes) (h : op.step b = some v) :
    (∀ q, v.contains q → b.contains (op.undo q)) ∧
      ((∀ q, v.contains q → v.address_of q = b.address_of (op.undo q)) ↔ op.Fits b v) := by
  have hAlways (hExact : ∀ q, v.contains q → b.contains (op.undo q) ∧ v.address_of q = b.address_of (op.undo q))
      (hFits : op.Fits b v) : (∀ q, v.contains q → b.contains (op.undo q)) ∧
        ((∀ q, v.contains q → v.address_of q = b.address_of (op.undo q)) ↔ op.Fits b v) :=
    ⟨fun q hq => (hExact q hq).1, fun _ => hFits, fun _ q hq => (hExact q hq).2⟩
  cases op with
  | crop d min extent => exact crop_exact hHost hBytes h
  | slice d pos => exact slice_exact hHost hBytes h
  | embed d pos => exact hAlways (embed_exact h hv) trivial
  | translate d delta => exact hAlways (translate_exact h hb hv) trivial
  | transpose d1 d2 => exact hAlways (transpose_exact h) trivial
  | transpose_order order => exact hAlways (transpose_order_exact hOp h) trivial

/-- The pointer stays one, and the elements keep their size. -/
theorem step_keeps {op : Op} {host : ℤ} (hHost : b.host = some host) (hOp : op.Permutes) (h : op.step b = some v) :
    (∃ host', v.host = some host') ∧ v.bytes = b.bytes := by
  have hSame (hv : v.host = b.host ∧ v.bytes = b.bytes) : (∃ host', v.host = some host') ∧ v.bytes = b.bytes :=
    ⟨⟨host, hv.1.trans hHost⟩, hv.2⟩
  cases op with
  | crop d min extent =>
    obtain ⟨dim, -, -, -, rfl⟩ := crop_spec h
    exact ⟨⟨_, by rw [shift_host, hHost]; rfl⟩, rfl⟩
  | slice d pos =>
    obtain ⟨dim, -, -, -, rfl⟩ := slice_spec h
    exact ⟨⟨_, by rw [shift_host, hHost]; rfl⟩, rfl⟩
  | embed d pos =>
    have h : b.embed d pos = some v := h
    by_cases hd : d ≤ b.dim.length
    · obtain ⟨stride, hEmbed⟩ := embed_eq pos hd
      obtain rfl := Option.some.inj (hEmbed.symm.trans h)
      exact hSame ⟨rfl, rfl⟩
    · rw [embed, if_neg hd] at h
      cases h
  | translate d delta =>
    obtain ⟨dim, -, h⟩ := Option.bind_eq_some_iff.mp h
    obtain rfl := Option.some.inj h
    exact hSame ⟨rfl, rfl⟩
  | transpose d1 d2 =>
    obtain ⟨-, hv⟩ := transpose_eq_some.mp h
    exact hSame hv
  | transpose_order order =>
    obtain ⟨-, -, -, hv⟩ := transpose_order_spec hOp h
    exact hSame hv

/-- All steps of a run fit. -/
def StepsFit : List Op → View → Prop
  | [], _ => True
  | op :: ops, b => ∀ v, op.step b = some v → op.Fits b v ∧ StepsFit ops v

/-- The views that are reached on the way have integers of the code as coordinates. -/
def ViewsDescribe (ops : List Op) (b : View) : Prop := ∀ done, done <+: ops → ∀ v, run done b = some v → v.Describes

theorem run_cons {op : Op} {ops : List Op} {w : View} :
    run (op :: ops) b = some w ↔ ∃ v, op.step b = some v ∧ run ops v = some w := Option.bind_eq_some_iff

theorem ViewsDescribe.step {op : Op} {ops : List Op} (h : ViewsDescribe (op :: ops) b) (hStep : op.step b = some v) :
    b.Describes ∧ ViewsDescribe ops v :=
  ⟨h [] List.nil_prefix b rfl, fun done hDone w hRun =>
    h (op :: done) (List.cons_prefix_cons.mpr ⟨rfl, hDone⟩) w (run_cons.mpr ⟨v, hStep, hRun⟩)⟩

theorem ViewsDescribe.describes {ops : List Op} (h : ViewsDescribe ops b) : b.Describes := h [] List.nil_prefix b rfl

section Runs

variable {host : ℤ}

/-- What is at a coordinate of a view is at a coordinate of the buffer. -/
theorem contains_undoAll {ops : List Op} (hHost : b.host = some host) (hBytes : 1 ≤ b.bytes ∧ b.bytes ≤ 8)
    (hOps : ∀ op ∈ ops, op.Permutes) (hViews : ViewsDescribe ops b) (hRun : run ops b = some v) :
    ∀ q, v.contains q → b.contains (undoAll ops q) := by
  induction ops generalizing b host with
  | nil =>
    obtain rfl := Option.some.inj hRun
    exact fun q hq => hq
  | cons op ops ih =>
    obtain ⟨u, hStep, hRest⟩ := run_cons.mp hRun
    obtain ⟨hb, hViews'⟩ := hViews.step hStep
    have hOp := hOps op List.mem_cons_self
    obtain ⟨⟨host', hHost'⟩, hSame⟩ := step_keeps hHost hOp hStep
    intro q hq
    exact (step_exact hHost hBytes hOp hb hViews'.describes hStep).1 _
      (ih hHost' (hSame.symm ▸ hBytes) (fun op h => hOps op (List.mem_cons_of_mem _ h)) hViews' hRest q hq)

/-- Every view that is reached shows the elements of the buffer exactly if all steps fit. -/
theorem views_exact_iff (ops : List Op) (b : View) (hHost : b.host = some host) (hBytes : 1 ≤ b.bytes ∧ b.bytes ≤ 8)
    (hOps : ∀ op ∈ ops, op.Permutes) (hViews : ViewsDescribe ops b) :
    (∀ done, done <+: ops → ∀ v, run done b = some v → ∀ q, v.contains q →
      v.address_of q = b.address_of (undoAll done q)) ↔ StepsFit ops b := by
  induction ops generalizing b host with
  | nil =>
    refine ⟨fun _ => trivial, fun _ done hDone v hRun q _ => ?_⟩
    obtain rfl := List.prefix_nil.mp hDone
    obtain rfl := Option.some.inj hRun
    rfl
  | cons op ops ih =>
    have hOp := hOps op List.mem_cons_self
    have hOps' : ∀ op ∈ ops, op.Permutes := fun op h => hOps op (List.mem_cons_of_mem _ h)
    constructor
    · intro hAll v hStep
      obtain ⟨hb, hViews'⟩ := hViews.step hStep
      obtain ⟨⟨host', hHost'⟩, hSame⟩ := step_keeps hHost hOp hStep
      obtain ⟨-, hExact⟩ := step_exact hHost hBytes hOp hb hViews'.describes hStep
      have hOne : ∀ q, v.contains q → v.address_of q = b.address_of (op.undo q) :=
        hAll [op] (List.cons_prefix_cons.mpr ⟨rfl, List.nil_prefix⟩) v (run_cons.mpr ⟨v, hStep, rfl⟩)
      refine ⟨hExact.mp hOne, (ih v hHost' (hSame.symm ▸ hBytes) hOps' hViews').mp fun done hDone w hRun q hq => ?_⟩
      have hInside := contains_undoAll hHost' (hSame.symm ▸ hBytes)
        (fun op h => hOps' op (hDone.subset h)) (fun d hd => hViews' d (hd.trans hDone)) hRun q hq
      rw [hOne _ hInside]
      exact hAll (op :: done) (List.cons_prefix_cons.mpr ⟨rfl, hDone⟩) w (run_cons.mpr ⟨v, hStep, hRun⟩) q hq
    · rintro hFit (_ | ⟨op', done⟩) hDone w hRun q hq
      · obtain rfl := Option.some.inj hRun
        rfl
      · obtain ⟨rfl, hPrefix⟩ := List.cons_prefix_cons.mp hDone
        obtain ⟨v, hStep, hRest⟩ := run_cons.mp hRun
        obtain ⟨hb, hViews'⟩ := hViews.step hStep
        obtain ⟨⟨host', hHost'⟩, hSame⟩ := step_keeps hHost hOp hStep
        obtain ⟨hFits, hFit⟩ := hFit v hStep
        have hInside := contains_undoAll hHost' (hSame.symm ▸ hBytes)
          (fun op h => hOps' op (hPrefix.subset h)) (fun d hd => hViews' d (hd.trans hPrefix)) hRest q hq
        have hOne := (step_exact hHost hBytes hOp hb hViews'.describes hStep).2.mpr hFits _ hInside
        exact ((ih v hHost' (hSame.symm ▸ hBytes) hOps' hViews').mpr hFit done hPrefix w hRest q hq).trans hOne

end Runs

/-- Four elements of two bytes in each of two rows. -/
def rows : View := ⟨some 4096, [⟨0, 4, 1⟩, ⟨0, 2, 4⟩], 2⟩

/-- The second row of the buffer is where it was. -/
theorem rows_sliced : run [.slice 1 1] rows = some ⟨some 4104, [⟨0, 4, 1⟩], 2⟩ ∧
    (⟨some 4104, [⟨0, 4, 1⟩], 2⟩ : View).address_of [3] = rows.address_of (undoAll [.slice 1 1] [3]) := by
  have hStep : run [.slice 1 1] rows = some ⟨some 4104, [⟨0, 4, 1⟩], 2⟩ := by decide
  have hViews : ViewsDescribe [.slice 1 1] rows := by
    rintro (_ | ⟨op, done⟩) hDone v hRun
    · obtain rfl := Option.some.inj hRun
      decide
    · obtain ⟨rfl, hNil⟩ := List.cons_prefix_cons.mp hDone
      obtain rfl := List.prefix_nil.mp hNil
      obtain rfl := Option.some.inj (hStep.symm.trans hRun)
      decide
  have hFit : StepsFit [.slice 1 1] rows := by
    refine fun v _ => ⟨fun dim hDim _ => ?_, trivial⟩
    obtain rfl : (⟨0, 2, 4⟩ : halide_dimension_t) = dim := Option.some.inj hDim
    decide
  exact ⟨hStep, (views_exact_iff [.slice 1 1] rows rfl (by decide) (by simp [Op.Permutes]) hViews).mpr hFit
    [.slice 1 1] List.prefix_rfl _ hStep [3] (by decide)⟩

/-- A row of half a billion elements of eight bytes. -/
def wide : View := ⟨some 4294967296, [⟨0, 536870912, 1⟩], 8⟩

/-- The shift of two gigabytes becomes negative. -/
theorem wide_cropped : ∃ v, run [.crop 0 268435456 1] wide = some v ∧ v.contains [268435456] ∧
    v.address_of [268435456] ≠ wide.address_of (undoAll [.crop 0 268435456 1] [268435456]) :=
  ⟨⟨some 2147483648, [⟨268435456, 1, 1⟩], 8⟩, by decide +kernel, by decide +kernel, by decide +kernel⟩

end Vyasa.HalideBuffer.View
