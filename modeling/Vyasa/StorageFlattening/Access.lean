import Vyasa.StorageFlattening.Enter
import Mathlib.Algebra.BigOperators.ModEq

/-! The value of an index, up to what wraps around. -/
namespace Vyasa.StorageFlattening

open Word IRMatch Vyasa.Expr

variable {large : Bool} {name : Name} {σ : Env} {T : IntType} {a b e : Expr} {x y z : Int}

section Residue

/-- The expression of this type evaluates to the integer, up to a multiple of the size of the word. -/
structure Residue (σ : Env) (T : IntType) (e : Expr) (z : Int) : Prop where
  type : e.type = T
  value : ∃ v, eval .wrapping σ e = some v ∧ T.Has v ∧ v ≡ z [ZMOD 2 ^ T.bits]

theorem Residue.of_value (hType : e.type = T) (h : eval .wrapping σ e = some z) (hHas : T.Has z) :
    Residue σ T e z := ⟨hType, z, h, hHas, Int.ModEq.refl z⟩

theorem Residue.eval_eq (h : Residue σ T e z) (hHas : T.Has z) : eval .wrapping σ e = some z := by
  obtain ⟨v, hv, hvHas, hMod⟩ := h.value
  rw [hv, IntType.eq_of_modEq hvHas hHas hMod]

theorem Residue.congr (h : Residue σ T e x) (hMod : x ≡ y [ZMOD 2 ^ T.bits]) : Residue σ T e y := by
  obtain ⟨v, hv, hHas, hv'⟩ := h.value
  exact ⟨h.type, v, hv, hHas, hv'.trans hMod⟩

private theorem eval_bin_wrapping {op : BinOp} {v w : Int} (ha : eval .wrapping σ a = some v)
    (hb : eval .wrapping σ b = some w) (hType : a.type = T) :
    eval .wrapping σ (bin op a b) = evalBin .wrapping T op v w := by
  rw [eval_bin ha hb op, modeAt_wrapping, hType]

theorem Residue.add (ha : Residue σ T a x) (hb : Residue σ T b y) : Residue σ T (Expr.add a b) (x + y) := by
  obtain ⟨v, hv, -, hvMod⟩ := ha.value
  obtain ⟨w, hw, -, hwMod⟩ := hb.value
  exact ⟨ha.type, _, eval_bin_wrapping hv hw ha.type, T.has_wrap _, (T.wrap_modEq _).trans (hvMod.add hwMod)⟩

theorem Residue.mul (ha : Residue σ T a x) (hb : Residue σ T b y) : Residue σ T (Expr.mul a b) (x * y) := by
  obtain ⟨v, hv, -, hvMod⟩ := ha.value
  obtain ⟨w, hw, -, hwMod⟩ := hb.value
  exact ⟨ha.type, _, eval_bin_wrapping hv hw ha.type, T.has_wrap _, (T.wrap_modEq _).trans (hvMod.mul hwMod)⟩

theorem castTo_self (h : a.type = T) : castTo T a = a := if_pos h

theorem Residue.addTo (ha : Residue σ T a x) (hb : Residue σ T b y) :
    Residue σ T (StorageFlattening.addTo a b) (x + y) := by
  rw [StorageFlattening.addTo, castTo_self (hb.type.trans ha.type.symm)]
  exact ha.add hb

theorem has_indexType (h : IntType.int32.Has x) : (indexType large).Has x := by
  cases large with
  | false => exact h
  | true =>
    obtain ⟨hLow, hHigh⟩ := has_int32_iff.mp h
    have hRange : -9223372036854775808 ≤ x ∧ x ≤ 9223372036854775807 := by omega
    exact hRange

/-- A cast to the type of the index keeps the values of 32 bits. -/
theorem residue_castTo (hType : a.type = .int32) (h : eval .wrapping σ a = some x) (hHas : IntType.int32.Has x) :
    Residue σ (indexType large) (castTo (indexType large) a) x := by
  have hIndex : (indexType large).Has x := has_indexType hHas
  unfold castTo
  split_ifs with hSame
  · exact .of_value hSame h hIndex
  · split
    · next v hConst =>
      cases a with
      | imm S w =>
        obtain rfl : w = v := Option.some.inj hConst
        obtain rfl : w = x := Option.some.inj h
        exact .of_value rfl (congrArg some (IntType.wrap_of_has hIndex)) hIndex
      | _ => cases hConst
    · refine .of_value rfl ?_ hIndex
      rw [Expr.eval, h, Option.bind_eq_bind, Option.bind_some, evalCast_of_has hIndex]

theorem residue_zero : Residue σ (indexType large) (makeZero (indexType large)) 0 :=
  .of_value rfl (congrArg some (IntType.wrap_of_has (IntType.has_zero _))) (IntType.has_zero _)

/-- The residue of a sum that a loop builds. -/
theorem Residue.foldl {α : Type} {step : Expr → α → Expr} {value : α → Int} {l : List α}
    (hStep : ∀ p ∈ l, ∀ e z, Residue σ T e z → Residue σ T (step e p) (z + value p)) (h : Residue σ T e z) :
    Residue σ T (l.foldl step e) (z + (l.map value).sum) := by
  induction l generalizing e z with
  | nil =>
    rw [List.map_nil, List.sum_nil, add_zero]
    exact h
  | cons p l ih =>
    rw [List.foldl_cons, List.map_cons, List.sum_cons, ← add_assoc]
    exact ih (fun q hq => hStep q (List.mem_cons_of_mem _ hq)) (hStep p (List.mem_cons_self ..) e z h)

end Residue

section Operators

theorem minus_eq (ha : a.type = .int32) (hb : b.type = .int32) : minus a b = sub a b := by
  have hMatch : matchTypes a b = .int32 := by
    rw [matchTypes, ha, hb, ite_self]
  rw [minus, hMatch, castTo_self ha, castTo_self hb]

theorem times_eq_of_left (ha : a.type = .int32) (hb : b.type = indexType large) :
    times a b = mul (castTo (indexType large) a) b := by
  have hMatch : matchTypes a b = indexType large := by
    rw [matchTypes, ha, hb]
    cases large with
    | false => rfl
    | true => rfl
  rw [times, hMatch, castTo_self hb]

theorem times_eq_of_right (ha : a.type = indexType large) (hb : b.type = .int32) :
    times a b = mul a (castTo (indexType large) b) := by
  have hMatch : matchTypes a b = indexType large := by
    rw [matchTypes, ha, hb]
    cases large with
    | false => rfl
    | true => rfl
  rw [times, hMatch, castTo_self ha]

end Operators

section FlattenArgs

/-- The value of an argument without its constant addend, and the addend. -/
structure Parts (σ : Env) (arg : Expr) (v c : Int) : Prop where
  type : (withoutConstant arg).type = .int32
  value : eval .wrapping σ (withoutConstant arg) = some v
  none : peeled arg = none → c = 0
  some : ∀ p, peeled arg = some p → p.2.type = .int32 ∧ eval .wrapping σ p.2 = some c ∧ IntType.int32.Has c

variable {args : List Expr} {values constants mins strides : Nat → Int}

/-- The variables of the shape, at the dimensions below `d`. -/
structure ShapeAt (σ : Env) (name : Name) (d : Nat) (mins strides : Nat → Int) : Prop where
  min : ∀ j < d, σ.vars (shapeName name .min j) = mins j
  stride : ∀ j < d, σ.vars (shapeName name .stride j) = strides j
  has : ∀ j < d, IntType.int32.Has (strides j)

theorem residue_stride (large : Bool) (h : ShapeAt σ name args.length mins strides) {j : Nat}
    (hj : j < args.length) : Residue σ (indexType large) (stride large name j) (strides j) :=
  residue_castTo rfl (congrArg some (h.stride j hj) : eval .wrapping σ (makeShapeVar name .stride j) = _) (h.has j hj)

private theorem mem_zipIdx_lt {p : Expr × Nat} (h : p ∈ args.zipIdx) : args[p.2]? = some p.1 ∧ p.2 < args.length := by
  have hGet := List.mem_zipIdx_iff_getElem?.mp h
  exact ⟨hGet, (List.getElem?_eq_some_iff.mp hGet).1⟩

theorem residue_constantTerm (hShape : ShapeAt σ name args.length mins strides)
    (hParts : ∀ j arg, args[j]? = some arg → Parts σ arg (values j) (constants j)) :
    Residue σ (indexType large) (constantTerm large name args)
      (0 + (args.zipIdx.map fun p => constants p.2 * strides p.2).sum) := by
  refine Residue.foldl (fun p hp e z he => ?_) residue_zero
  obtain ⟨hGet, hLt⟩ := mem_zipIdx_lt hp
  have hPart := hParts p.2 p.1 hGet
  have hStride := residue_stride large hShape hLt
  cases hPeeled : peeled p.1 with
  | none =>
    rw [hPart.none hPeeled, zero_mul, add_zero]
    exact he
  | some q =>
    obtain ⟨hType, hValue, hHas⟩ := hPart.some q hPeeled
    refine he.addTo ?_
    rw [times_eq_of_right hStride.type hType, mul_comm (constants p.2)]
    exact hStride.mul (residue_castTo hType hValue hHas)

theorem residue_internalSum (hShape : ShapeAt σ name args.length mins strides)
    (hParts : ∀ j arg, args[j]? = some arg → Parts σ arg (values j) (constants j)) :
    Residue σ (indexType large) (internalSum large name args)
      (0 + (args.zipIdx.map fun p => IntType.int32.wrap (values p.2 - mins p.2) * strides p.2).sum) := by
  refine Residue.foldl (fun p hp e z he => he.addTo ?_) residue_zero
  obtain ⟨hGet, hLt⟩ := mem_zipIdx_lt hp
  have hPart := hParts p.2 p.1 hGet
  have hStride := residue_stride large hShape hLt
  have hMin : eval .wrapping σ (makeShapeVar name .min p.2) = some (mins p.2) :=
    congrArg some (hShape.min p.2 hLt)
  have hMinus : (minus (withoutConstant p.1) (makeShapeVar name .min p.2)) =
      sub (withoutConstant p.1) (makeShapeVar name .min p.2) := minus_eq hPart.type rfl
  have hSub : (sub (withoutConstant p.1) (makeShapeVar name .min p.2)).type = .int32 := hPart.type
  rw [hMinus, times_eq_of_left hSub hStride.type]
  exact (residue_castTo hSub (eval_bin_wrapping hPart.value hMin hPart.type) (IntType.has_wrap _ _)).mul hStride

theorem sum_zipIdx (g : Nat → Int) : (args.zipIdx.map fun p => g p.2).sum = ∑ j ∈ Finset.range args.length, g j := by
  have hMap : (args.zipIdx.map fun p => g p.2) = (List.range args.length).map g := by
    rw [List.range_eq_range', ← List.zipIdx_map_snd, List.map_map]
    rfl
  rw [hMap]
  rfl

/-- The index, from the values of the arguments without their constant addends. -/
theorem residue_flattenArgs (hShape : ShapeAt σ name args.length mins strides)
    (hParts : ∀ j arg, args[j]? = some arg → Parts σ arg (values j) (constants j)) :
    Residue σ (indexType large) (flattenArgs large name true args)
      (∑ j ∈ Finset.range args.length, (IntType.int32.wrap (values j - mins j) + constants j) * strides j) := by
  have hSum : Residue σ (indexType large) _ _ := residue_internalSum hShape hParts
  have hConstant : Residue σ (indexType large) _ _ := residue_constantTerm hShape hParts
  rw [sum_zipIdx (fun j => IntType.int32.wrap (values j - mins j) * strides j), zero_add] at hSum
  rw [sum_zipIdx (fun j => constants j * strides j), zero_add] at hConstant
  simp only [add_mul, Finset.sum_add_distrib]
  simp only [flattenArgs, if_true]
  split_ifs with hZero
  · obtain ⟨v, hv, -, hMod⟩ := hConstant.value
    rw [eval_of_isZero hZero, Option.some.injEq] at hv
    subst hv
    refine hSum.congr ?_
    have hAdd := (Int.ModEq.refl (n := 2 ^ (indexType large).bits)
      (∑ j ∈ Finset.range args.length, IntType.int32.wrap (values j - mins j) * strides j)).add hMod
    rwa [add_zero] at hAdd
  · exact hSum.addTo hConstant

end FlattenArgs

end Vyasa.StorageFlattening

/-! The index of an access: its place in the allocation, where the sizes cover the extents and no
difference from a min wraps around. -/
namespace Vyasa.StorageFlattening

open Word IRMatch Vyasa.Expr

variable {large : Bool} {f : Func} {r : Realize} {ρ ρ' σ σ' : Env} {args args' : List Expr}
  {x x' mins extents sizes : Nat → Int} {alignments : Nat → Option Int}

/-- A store or a load in the body, at coordinates within the bounds. -/
structure Access (f : Func) (r : Realize) (ρ' σ : Env) (args : List Expr) (x : Nat → Int) : Prop where
  shape : ∀ field, ∀ j < f.args.length,
    σ.vars (shapeName r.name field j) = ρ'.vars (shapeName r.name field j)
  length : args.length = f.args.length
  typed : ∃ buffers types, σ.Typed buffers types ∧
    ∀ arg ∈ args, WellTyped buffers types arg ∧ arg.type = .int32
  value : ∀ j arg, args[j]? = some arg → run σ arg = some (x j)
  within : ∀ j < f.args.length, ρ'.vars (shapeName r.name .min j) ≤ x j ∧
    x j < ρ'.vars (shapeName r.name .min j) + ρ'.vars (shapeName r.name .extent j)

section Parts

theorem exists_parts {buffers types : Name → IntType} {arg : Expr} {v : Int} (hσ : σ.Typed buffers types)
    (hArg : WellTyped buffers types arg) (hType : arg.type = .int32) (hRun : run σ arg = some v) :
    ∃ a c, Parts σ arg a c ∧ v = a + c ∧ IntType.int32.Has a ∧ IntType.int32.Has c := by
  have hChecked : Mode.checked ≠ .exact := Mode.noConfusion
  cases hPeeled : peeled arg with
  | none =>
    have hSame : withoutConstant arg = arg := by rw [withoutConstant, hPeeled]
    refine ⟨v, 0, ⟨by rw [hSame, hType], by rw [hSame, wrapping_of_run hRun], fun _ => rfl, fun p hp => ?_⟩,
      (add_zero v).symm, hType ▸ has_of_eval hChecked hArg hσ hRun, IntType.has_zero _⟩
    rw [hPeeled] at hp
    cases hp
  | some p =>
    obtain ⟨a, b, rfl, -, rfl⟩ : ∃ a b, arg = bin .add a b ∧ b.isConst = true ∧ p = (a, b) := by
      unfold peeled at hPeeled
      split at hPeeled
      · next a b =>
        split_ifs at hPeeled with hConst
        exact ⟨a, b, rfl, hConst, (Option.some.inj hPeeled).symm⟩
      · cases hPeeled
    obtain ⟨va, vb, ha, hb, hAdd⟩ := eval_bin_eq_some.mp hRun
    have hSame : withoutConstant (bin .add a b) = a := by rw [withoutConstant, hPeeled]
    have hTypeA : a.type = .int32 := hType
    have hTypeB : b.type = .int32 := hArg.2.2.1.symm.trans hType
    have hHasB : IntType.int32.Has vb := hTypeB ▸ has_of_eval hChecked hArg.2.1 hσ hb
    have hHasA : IntType.int32.Has va := hTypeA ▸ has_of_eval hChecked hArg.1 hσ ha
    have hSum : v = va + vb := by
      have hWidth : modeAt .checked a.type = .checked := by
        rw [hTypeA]
        rfl
      simp only [evalBin, hWidth, arith] at hAdd
      split_ifs at hAdd
      exact (Option.some.inj hAdd).symm
    refine ⟨va, vb, ⟨by rw [hSame, hTypeA], by rw [hSame, wrapping_of_run ha], fun h => ?_, fun q hq => ?_⟩,
      hSum, hHasA, hHasB⟩
    · rw [hPeeled] at h
      cases h
    · obtain rfl : (a, b) = q := Option.some.inj (hPeeled.symm.trans hq)
      exact ⟨hTypeB, wrapping_of_run hb, hHasB⟩

theorem Access.parts (h : Access f r ρ' σ args x) : ∃ values constants : Nat → Int,
    (∀ j arg, args[j]? = some arg → Parts σ arg (values j) (constants j)) ∧
      ∀ j < f.args.length, x j = values j + constants j ∧ IntType.int32.Has (values j) ∧
        IntType.int32.Has (constants j) := by
  obtain ⟨buffers, types, hσ, hTyped⟩ := h.typed
  have hAll (j : Nat) : ∃ a c, ∀ arg, args[j]? = some arg →
      Parts σ arg a c ∧ x j = a + c ∧ IntType.int32.Has a ∧ IntType.int32.Has c := by
    cases hGet : args[j]? with
    | none => exact ⟨0, 0, fun _ hArg => nomatch hArg⟩
    | some arg =>
      obtain ⟨hWell, hType⟩ := hTyped arg (List.mem_of_getElem? hGet)
      obtain ⟨a, c, hParts⟩ := exists_parts hσ hWell hType (h.value j arg hGet)
      refine ⟨a, c, fun arg' hArg => ?_⟩
      obtain rfl := Option.some.inj hArg
      exact hParts
  choose values constants hParts using hAll
  refine ⟨values, constants, fun j arg hGet => (hParts j arg hGet).1, fun j hj => ?_⟩
  exact (hParts j _ (List.getElem?_eq_getElem (h.length ▸ hj))).2

end Parts

section Place

variable {d : Nat}

/-- The `k`-th dimension of the storage. -/
def stored (f : Func) (k : Nat) : Nat := f.order.getD k 0

theorem getElem?_order {k : Nat} (hk : k < f.args.length) : f.order[k]? = some (stored f k) := by
  rw [stored, List.getD_eq_getElem?_getD, List.getElem?_eq_getElem (f.length_order ▸ hk), Option.getD_some]

theorem stored_lt {k : Nat} (hk : k < f.args.length) : stored f k < f.args.length :=
  f.mem_order.mp (List.mem_of_getElem? (getElem?_order hk))

theorem map_stored (f : Func) : (List.range f.args.length).map (stored f) = f.order := by
  refine List.ext_getElem? fun k => ?_
  rw [List.getElem?_map]
  rcases Nat.lt_or_ge k f.args.length with hk | hk
  · rw [List.getElem?_range hk, getElem?_order hk, Option.map_some]
  · rw [List.getElem?_eq_none (by rwa [List.length_range]), List.getElem?_eq_none (by rwa [f.length_order]),
      Option.map_none]

theorem exists_stored {j : Nat} (hj : j < f.args.length) : ∃ k < f.args.length, stored f k = j := by
  have hMem : j ∈ (List.range f.args.length).map (stored f) := by
    rw [map_stored]
    exact f.mem_order.mpr hj
  obtain ⟨k, hk, hEq⟩ := List.mem_map.mp hMem
  exact ⟨k, List.mem_range.mp hk, hEq⟩

theorem stored_injective {i k : Nat} (hi : i < f.args.length) (hk : k < f.args.length)
    (h : stored f i = stored f k) : i = k := by
  refine (List.getElem?_inj (f.length_order ▸ hi) f.order_nodup).mp ?_
  rw [getElem?_order hi, getElem?_order hk, h]

/-- A sum over the dimensions, in the order of the storage. -/
theorem sum_stored (f : Func) (g : Nat → Int) :
    ∑ j ∈ Finset.range f.args.length, g j = ∑ k ∈ Finset.range f.args.length, g (stored f k) := by
  have hPerm := (f.order_perm.map g).sum_eq
  rw [← map_stored, List.map_map] at hPerm
  exact hPerm.symm

theorem prod_stored (f : Func) (g : Nat → Int) :
    ∏ j ∈ Finset.range f.args.length, g j = Strided.weight (fun k => g (stored f k)) f.args.length := by
  have hPerm := (f.order_perm.map g).prod_eq
  rw [← map_stored, List.map_map] at hPerm
  exact hPerm.symm

/-- No stride wraps around where the product of the sizes fits. -/
theorem Shaped.stride_eq (h : Shaped f r mins extents sizes ρ) (hPos : ∀ j < f.args.length, 0 < sizes j)
    (hProd : ∏ j ∈ Finset.range f.args.length, sizes j ≤ 2147483647) {k : Nat} (hk : k < f.args.length) :
    ρ.vars (shapeName r.name .stride (stored f k)) = Strided.weight (fun k => sizes (stored f k)) k := by
  have hSizes : ∀ k < f.args.length, 0 < sizes (stored f k) := fun k hk => hPos _ (stored_lt hk)
  induction k with
  | zero => rw [h.innermost _ (getElem?_order hk), Strided.weight_zero]
  | succ k ih =>
    have hk' := Nat.lt_of_succ_lt hk
    rw [h.step k _ _ (getElem?_order hk') (getElem?_order hk), ih hk', ← Strided.weight_succ]
    have hWeightPos : 0 < Strided.weight (fun k => sizes (stored f k)) (k + 1) :=
      Strided.weight_pos fun i hi => hSizes i (hi.trans hk)
    have hWeightLe := Strided.weight_mono hSizes hk.le le_rfl
    rw [← prod_stored f sizes] at hWeightLe
    exact IntType.wrap_of_has (has_int32_iff.mpr (by omega))

theorem within_stored {sizes y : Nat → Int} (h : ∀ j < f.args.length, 0 ≤ y j ∧ y j < sizes j) :
    Strided.Within f.args.length (fun k => sizes (stored f k)) (fun k => y (stored f k)) :=
  fun _ hk => h _ (stored_lt hk)

end Place

section Index

/-- The sizes that are allocated cover the extents, and their product fits 32 bits. -/
structure Covers (d : Nat) (extents sizes : Nat → Int) : Prop where
  extent_pos : ∀ j < d, 0 < extents j
  extent_le : ∀ j < d, extents j ≤ sizes j
  prod_le : ∏ j ∈ Finset.range d, sizes j ≤ 2147483647

theorem Covers.size_pos {d : Nat} (h : Covers d extents sizes) : ∀ j < d, 0 < sizes j :=
  fun j hj => (h.extent_pos j hj).trans_le (h.extent_le j hj)

/-- The stride of a dimension of the storage. -/
def weightOf (f : Func) (sizes : Nat → Int) (k : Nat) : Int := Strided.weight (fun k => sizes (stored f k)) k

theorem weightOf_bounds (h : Covers f.args.length extents sizes) {k : Nat} (hk : k < f.args.length) :
    0 < weightOf f sizes k ∧ weightOf f sizes k ≤ 2147483647 := by
  have hSizes : ∀ k < f.args.length, 0 < sizes (stored f k) := fun k hk => h.size_pos _ (stored_lt hk)
  have hLe := Strided.weight_mono hSizes hk.le le_rfl
  rw [← prod_stored f sizes] at hLe
  exact ⟨Strided.weight_pos fun i hi => hSizes i (hi.trans hk), hLe.trans h.prod_le⟩

/-- The index of an access, up to what wraps around. -/
theorem Access.residue (h : Access f r ρ' σ args x) (hShaped : Shaped f r mins extents sizes ρ')
    (hCovers : Covers f.args.length extents sizes) {values constants : Nat → Int}
    (hParts : ∀ j arg, args[j]? = some arg → Parts σ arg (values j) (constants j)) :
    Residue σ (indexType large) (flattenArgs large r.name true args)
      (∑ k ∈ Finset.range f.args.length,
        (IntType.int32.wrap (values (stored f k) - mins (stored f k)) + constants (stored f k)) *
          weightOf f sizes k) := by
  have hStride {k : Nat} (hk : k < f.args.length) :
      ρ'.vars (shapeName r.name .stride (stored f k)) = weightOf f sizes k :=
    hShaped.stride_eq hCovers.size_pos hCovers.prod_le hk
  have hShape : ShapeAt σ r.name args.length mins fun j => ρ'.vars (shapeName r.name .stride j) := by
    rw [h.length]
    refine ⟨fun j hj => ?_, fun j hj => h.shape .stride j hj, fun j hj => ?_⟩
    · rw [h.shape .min j hj, hShaped.min j hj]
    · obtain ⟨k, hk, rfl⟩ := exists_stored hj
      have hBounds := weightOf_bounds hCovers hk
      rw [hStride hk]
      exact has_int32_iff.mpr (by omega)
  have hResidue : Residue σ (indexType large) (flattenArgs large r.name true args) _ :=
    residue_flattenArgs hShape hParts
  rw [h.length, sum_stored f] at hResidue
  rwa [Finset.sum_congr rfl fun k hk => by rw [hStride (Finset.mem_range.mp hk)]] at hResidue

/-- Where no difference from a min wraps around, the index is the place of the coordinates. -/
theorem Access.index_eq (h : Access f r ρ' σ args x) (hShaped : Shaped f r mins extents sizes ρ')
    (hCovers : Covers f.args.length extents sizes)
    (hMins : large = true → ∀ j < f.args.length, 0 ≤ mins j) :
    eval .wrapping σ (flattenArgs large r.name true args) =
      some (Strided.place f.args.length (fun k => sizes (stored f k))
        fun k => x (stored f k) - mins (stored f k)) := by
  obtain ⟨values, constants, hParts, hSum⟩ := h.parts
  have hWithin : ∀ j < f.args.length, 0 ≤ x j - mins j ∧ x j - mins j < sizes j := by
    intro j hj
    have hRange := h.within j hj
    rw [hShaped.min j hj, hShaped.extent j hj] at hRange
    have hLe := hCovers.extent_le j hj
    omega
  have hDiff : ∀ j < f.args.length,
      IntType.int32.wrap (values j - mins j) + constants j ≡ x j - mins j [ZMOD 2 ^ (indexType large).bits] := by
    intro j hj
    obtain ⟨hx, hValue, hConstant⟩ := hSum j hj
    have hEq : x j - mins j = values j - mins j + constants j := by rw [hx]; ring
    rw [hEq]
    cases large with
    | false => exact (IntType.wrap_modEq _ _).add_right _
    | true =>
      have hMin := hMins rfl j hj
      have hLow := (hWithin j hj).1
      rw [has_int32_iff] at hValue hConstant
      rw [IntType.wrap_of_has (has_int32_iff.mpr (by omega))]
  have hPlace := Strided.place_bounds (within_stored hWithin)
  rw [← prod_stored f sizes] at hPlace
  refine ((h.residue hShaped hCovers hParts).congr ?_).eval_eq
    (has_indexType (has_int32_iff.mpr ⟨by omega, by linarith [hCovers.prod_le]⟩))
  exact Int.ModEq.sum fun k hk => (hDiff _ (stored_lt (Finset.mem_range.mp hk))).mul_right _

end Index

section Corner

/-- The variables of the body in an environment of their own. -/
def shapeEnv (ρ : Env) : Env where
  vars n := IntType.int32.wrap (ρ.vars n)
  mem _ _ := none

theorem shapeEnv_typed (ρ : Env) : (shapeEnv ρ).Typed (fun _ => .int32) fun _ => .int32 :=
  ⟨fun _ => IntType.has_wrap _ _, fun _ _ _ h => nomatch h⟩

/-- The shape consists of values of 32 bits. -/
theorem Shaped.has (h : Shaped f r mins extents sizes ρ) (hMins : ∀ j < f.args.length, IntType.int32.Has (mins j))
    (hExtents : ∀ j < f.args.length, IntType.int32.Has (extents j)) (field : Field) {j : Nat}
    (hj : j < f.args.length) : IntType.int32.Has (ρ.vars (shapeName r.name field j)) := by
  cases field with
  | min => exact h.min j hj ▸ hMins j hj
  | extent => exact h.extent j hj ▸ hExtents j hj
  | stride =>
    obtain ⟨k, hk, rfl⟩ := exists_stored hj
    cases k with
    | zero =>
      rw [h.innermost _ (getElem?_order hk)]
      exact IntType.has_one _
    | succ k =>
      rw [h.step k _ _ (getElem?_order (Nat.lt_of_succ_lt hk)) (getElem?_order hk)]
      exact IntType.has_wrap _ _

/-- Arguments of 32 bits with the values of the mins, however they are written. -/
theorem access_mins (h : Shaped f r mins extents sizes ρ') (hMins : ∀ j < f.args.length, IntType.int32.Has (mins j))
    (hExtents : ∀ j < f.args.length, 0 < extents j ∧ IntType.int32.Has (extents j)) {arg : Nat → Expr}
    (hTyped : ∀ j < f.args.length,
      WellTyped (fun _ => .int32) (fun _ => .int32) (arg j) ∧ (arg j).type = .int32)
    (hRun : ∀ j < f.args.length, run (shapeEnv ρ') (arg j) = some (mins j)) :
    Access f r ρ' (shapeEnv ρ') ((List.range f.args.length).map arg) mins where
  shape field j hj := IntType.wrap_of_has (h.has hMins (fun j hj => (hExtents j hj).2) field hj)
  length := by rw [List.length_map, List.length_range]
  typed := by
    refine ⟨_, _, shapeEnv_typed ρ', fun a ha => ?_⟩
    obtain ⟨j, hj, rfl⟩ := List.mem_map.mp ha
    exact hTyped j (List.mem_range.mp hj)
  value j a ha := by
    rw [List.getElem?_map] at ha
    obtain ⟨i, hi, rfl⟩ := Option.map_eq_some_iff.mp ha
    obtain ⟨hj, rfl⟩ := List.getElem?_eq_some_iff.mp hi
    rw [List.getElem_range]
    exact hRun j (by rwa [List.length_range] at hj)
  within j hj := by
    have hExtent := (hExtents j hj).1
    rw [h.min j hj, h.extent j hj]
    omega

/-- The coordinate of a min, with an addend peeled off that no sum with it can make up for. -/
def farArg (mins : Nat → Int) (k j : Nat) : Expr :=
  if j = k then add (imm .int32 (mins k + 2147483648)) (imm .int32 (-2147483648)) else imm .int32 (mins j)

theorem access_far (h : Shaped f r mins extents sizes ρ') (hMins : ∀ j < f.args.length, IntType.int32.Has (mins j))
    (hExtents : ∀ j < f.args.length, 0 < extents j ∧ IntType.int32.Has (extents j)) {k : Nat} (hNeg : mins k < 0) :
    Access f r ρ' (shapeEnv ρ') ((List.range f.args.length).map (farArg mins k)) mins := by
  refine access_mins h hMins hExtents (fun j hj => ?_) fun j hj => ?_
  · unfold farArg
    split_ifs with hEq
    · have hMin := has_int32_iff.mp (hMins j hj)
      subst hEq
      exact ⟨⟨has_int32_iff.mpr (by omega), has_int32_iff.mpr (by omega), rfl, fun hOp => nomatch hOp⟩, rfl⟩
    · exact ⟨hMins j hj, rfl⟩
  · unfold farArg
    split_ifs with hEq
    · subst hEq
      have hSum : mins j + 2147483648 + -2147483648 = mins j := by ring
      have hArith : evalBin (modeAt .checked .int32) .int32 .add (mins j + 2147483648) (-2147483648) =
          some (mins j) := by
        change arith .checked .int32 _ = _
        rw [hSum]
        exact if_pos (hMins j hj)
      exact hArith
    · rfl

theorem parts_far (d k : Nat) (mins : Nat → Int) :
    ∀ j arg, ((List.range d).map (farArg mins k))[j]? = some arg →
      Parts σ arg (if j = k then mins k + 2147483648 else mins j) (if j = k then -2147483648 else 0) := by
  intro j arg hArg
  rw [List.getElem?_map] at hArg
  obtain ⟨i, hi, rfl⟩ := Option.map_eq_some_iff.mp hArg
  obtain ⟨hj, rfl⟩ := List.getElem?_eq_some_iff.mp hi
  rw [List.getElem_range]
  unfold farArg
  split_ifs with hEq
  · refine ⟨rfl, rfl, (fun h => nomatch h), fun p hp => ?_⟩
    obtain rfl : (imm .int32 (mins k + 2147483648), imm .int32 (-2147483648)) = p := Option.some.inj hp
    exact ⟨rfl, rfl, by decide⟩
  · exact ⟨rfl, rfl, fun _ => rfl, fun p hp => nomatch hp⟩

/-- With large buffers, the index of such an access is negative. -/
theorem index_far (h : Shaped f r mins extents sizes ρ') (hCovers : Covers f.args.length extents sizes)
    (hMins : ∀ j < f.args.length, IntType.int32.Has (mins j))
    (hExtents : ∀ j < f.args.length, 0 < extents j ∧ IntType.int32.Has (extents j)) {k : Nat}
    (hk : k < f.args.length) (hNeg : mins k < 0) :
    ∃ i < 0, eval .wrapping (shapeEnv ρ')
      (flattenArgs true r.name true ((List.range f.args.length).map (farArg mins k))) = some i := by
  obtain ⟨k', hk', hEq⟩ := exists_stored hk
  have hBounds := weightOf_bounds hCovers hk'
  have hResidue : Residue (shapeEnv ρ') (indexType true) _ _ :=
    (access_far h hMins hExtents hNeg).residue h hCovers (parts_far _ k mins)
  rw [Finset.sum_eq_single_of_mem k' (Finset.mem_range.mpr hk') fun i hi hNe => ?_] at hResidue
  · rw [hEq] at hResidue
    have hWrap : IntType.int32.wrap (mins k + 2147483648 - mins k) = -2147483648 := by
      rw [add_sub_cancel_left]
      decide
    simp only [if_true, hWrap] at hResidue
    refine ⟨(-2147483648 + -2147483648) * weightOf f sizes k', by nlinarith, hResidue.eval_eq ?_⟩
    have hRange : -9223372036854775808 ≤ (-2147483648 + -2147483648) * weightOf f sizes k' ∧
        (-2147483648 + -2147483648) * weightOf f sizes k' ≤ 9223372036854775807 := by
      constructor
      · nlinarith
      · nlinarith
    exact hRange
  · have hOther : stored f i ≠ k := fun h =>
      hNe (stored_injective (Finset.mem_range.mp hi) hk' (h.trans hEq.symm))
    simp only [if_neg hOther, sub_self]
    rw [IntType.wrap_of_has (IntType.has_zero _), add_zero, zero_mul]

end Corner

end Vyasa.StorageFlattening
