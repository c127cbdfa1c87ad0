import Vyasa.IR.Machine
import Vyasa.Strided.Dense
import Vyasa.StorageFlattening.Realize

/-! Extents that are rounded up to a multiple of an alignment, over the integers and in 32 bits. -/
namespace Vyasa.StorageFlattening

open Word

variable {e a : Int}

/-- The extent, rounded up where there is an alignment. -/
def padded (e : Int) : Option Int → Int
  | some a => (e + a - 1) / a * a
  | none => e

/-- The same in 32 bits. -/
def machinePadded (e : Int) : Option Int → Int
  | some a => IntType.int32.wrap (IntType.int32.wrap (IntType.int32.wrap (IntType.int32.wrap (e + a) - 1) / a) * a)
  | none => e

/-- The sum fits 32 bits, or the multiple of the alignment below what it wraps around to is again
too small for them. -/
def Rounds (e a : Int) : Prop := e + a - 1 ≤ 2147483647 ∨ (e + a - 1 - 4294967296) / a * a < -2147483648

instance (e a : Int) : Decidable (Rounds e a) := inferInstanceAs (Decidable (_ ∨ _))

theorem has_int32_iff {x : Int} : IntType.int32.Has x ↔ -2147483648 ≤ x ∧ x ≤ 2147483647 := Iff.rfl

theorem wrap_eq_of_add {x y k : Int} (hy : IntType.int32.Has y) (h : x = y + k * 4294967296) :
    IntType.int32.wrap x = y := by
  have hMod : x ≡ y [ZMOD 2 ^ IntType.int32.bits] := by
    rw [h]
    exact Int.modEq_iff_dvd.mpr ⟨-k, by change y - (y + k * 4294967296) = 4294967296 * -k; ring⟩
  rw [IntType.wrap_eq_wrap hMod, IntType.wrap_of_has hy]

theorem multiple_bounds (ha : 0 < a) (x : Int) : x - a < x / a * a ∧ x / a * a ≤ x := by
  have hDiv := Int.ediv_mul_add_emod x a
  have hLow := Int.emod_nonneg x ha.ne'
  have hHigh := Int.emod_lt_of_pos x ha
  constructor
  · omega
  · omega

theorem padded_bounds (ha : 0 < a) : e ≤ padded e (some a) ∧ padded e (some a) ≤ e + a - 1 := by
  have hBounds := multiple_bounds ha (e + a - 1)
  simp only [padded]
  constructor
  · omega
  · omega

/-- An aligned extent takes at least the alignment. -/
theorem alignment_le_padded (he : 0 < e) (ha : 0 < a) : a ≤ padded e (some a) := by
  have hOne : 1 ≤ (e + a - 1) / a := by
    rw [Int.le_ediv_iff_mul_le ha]
    omega
  simp only [padded]
  nlinarith

theorem padded_pos (he : 0 < e) {alignment : Option Int} (ha : ∀ a ∈ alignment, 0 < a) :
    0 < padded e alignment := by
  cases alignment with
  | none => exact he
  | some a => exact he.trans_le (padded_bounds (ha a rfl)).1

theorem machinePadded_of_fits (ha : 0 < a) (he : 0 < e) (hSum : e + a - 1 ≤ 2147483647) :
    machinePadded e (some a) = padded e (some a) := by
  have hBounds := padded_bounds (e := e) ha
  have hFirst : IntType.int32.wrap (IntType.int32.wrap (e + a) - 1) = e + a - 1 := by
    rw [IntType.wrap_eq_wrap ((IntType.wrap_modEq _ _).sub_right 1)]
    exact IntType.wrap_of_has (has_int32_iff.mpr (by omega))
  have hDiv : IntType.int32.Has ((e + a - 1) / a) := IntType.has_ediv (has_int32_iff.mpr (by omega)) ha
  simp only [padded] at hBounds ⊢
  rw [machinePadded, hFirst, IntType.wrap_of_has hDiv]
  exact IntType.wrap_of_has (has_int32_iff.mpr (by omega))

section Overflow

variable (ha : 0 < a) (hHas : a ≤ 2147483647) (he : e ≤ 2147483647) (hSum : 2147483647 < e + a - 1)

include ha hHas he hSum

/-- Where the sum does not fit, what is allocated is a multiple of the alignment below what the
sum wraps around to. -/
theorem machinePadded_of_overflow :
    machinePadded e (some a) = IntType.int32.wrap ((e + a - 1 - 4294967296) / a * a) := by
  have hFirst : IntType.int32.wrap (IntType.int32.wrap (e + a) - 1) = e + a - 1 - 4294967296 := by
    rw [IntType.wrap_eq_wrap ((IntType.wrap_modEq _ _).sub_right 1)]
    exact wrap_eq_of_add (k := 1) (has_int32_iff.mpr (by omega)) (by ring)
  have hDiv : IntType.int32.Has ((e + a - 1 - 4294967296) / a) :=
    IntType.has_ediv (has_int32_iff.mpr (by omega)) ha
  rw [machinePadded, hFirst, IntType.wrap_of_has hDiv]

theorem machinePadded_neg (h : ¬ Rounds e a) : machinePadded e (some a) < 0 := by
  have hBounds := multiple_bounds ha (e + a - 1 - 4294967296)
  unfold Rounds at h
  rw [machinePadded_of_overflow ha hHas he hSum, IntType.wrap_of_has (has_int32_iff.mpr (by omega))]
  omega

theorem machinePadded_of_rounds (hPos : 0 < e) (h : Rounds e a) :
    e ≤ machinePadded e (some a) ∧ machinePadded e (some a) ≤ 2147483647 := by
  have hBounds := multiple_bounds ha (e + a - 1 - 4294967296)
  have hMultiple := h.resolve_left (by omega)
  rw [machinePadded_of_overflow ha hHas he hSum,
    wrap_eq_of_add (y := (e + a - 1 - 4294967296) / a * a + 4294967296) (k := -1)
      (has_int32_iff.mpr (by omega)) (by ring)]
  omega

end Overflow

/-- The values of the extents and of the alignments, where the product fits 32 bits. -/
structure Sizes (d : Nat) (extents : Nat → Int) (alignments : Nat → Option Int) : Prop where
  extent_pos : ∀ j < d, 0 < extents j ∧ extents j ≤ 2147483647
  alignment_pos : ∀ j < d, ∀ a ∈ alignments j, 0 < a ∧ a ≤ 2147483647
  product_le : ∏ j ∈ Finset.range d, padded (extents j) (alignments j) ≤ 2147483647

namespace Sizes

variable {d : Nat} {extents : Nat → Int} {alignments : Nat → Option Int} {i j : Nat}

theorem padded_pos (h : Sizes d extents alignments) (hj : j < d) : 0 < padded (extents j) (alignments j) :=
  StorageFlattening.padded_pos (h.extent_pos j hj).1 fun a ha => (h.alignment_pos j hj a ha).1

theorem padded_mul_le (h : Sizes d extents alignments) (hi : i < d) (hj : j < d) (hNe : i ≠ j) :
    padded (extents j) (alignments j) * padded (extents i) (alignments i) ≤ 2147483647 := by
  have hMem : i ∈ (Finset.range d).erase j := Finset.mem_erase.mpr ⟨hNe, Finset.mem_range.mpr hi⟩
  have hRest : padded (extents i) (alignments i) ≤
      ∏ k ∈ (Finset.range d).erase j, padded (extents k) (alignments k) := by
    refine Int.le_of_dvd (Finset.prod_pos fun k hk => ?_) (Finset.dvd_prod_of_mem _ hMem)
    exact h.padded_pos (Finset.mem_range.mp (Finset.mem_of_mem_erase hk))
  have hSplit := Finset.mul_prod_erase (Finset.range d) (fun k => padded (extents k) (alignments k))
    (Finset.mem_range.mpr hj)
  have hPos := h.padded_pos hj
  nlinarith [h.product_le]

theorem machinePadded_eq (h : Sizes d extents alignments) (hj : j < d)
    (hFits : ∀ a ∈ alignments j, extents j + a - 1 ≤ 2147483647) :
    machinePadded (extents j) (alignments j) = padded (extents j) (alignments j) := by
  cases hAlign : alignments j with
  | none => rfl
  | some a =>
    exact machinePadded_of_fits (h.alignment_pos j hj a hAlign).1 (h.extent_pos j hj).1 (hFits a hAlign)

/-- Beside an extent whose sum does not fit there is only room for extents of one. -/
theorem machinePadded_eq_one (h : Sizes d extents alignments) (hi : i < d) (hj : j < d) (hNe : i ≠ j)
    (hAlign : a ∈ alignments j) (hSum : 2147483647 < extents j + a - 1) :
    machinePadded (extents i) (alignments i) = 1 := by
  have hMul := h.padded_mul_le hi hj hNe
  have hPos := h.padded_pos hi
  have hLarge : extents j + a ≤ 2 * padded (extents j) (alignments j) := by
    have haPos := (h.alignment_pos j hj a hAlign).1
    have hExtent := (padded_bounds (e := extents j) haPos).1
    have hAlignment := alignment_le_padded (h.extent_pos j hj).1 haPos
    rw [Option.mem_def.mp hAlign]
    omega
  have hOne : padded (extents i) (alignments i) = 1 := by nlinarith
  rw [h.machinePadded_eq hi, hOne]
  intro b hb
  have hbPos := (h.alignment_pos i hi b hb).1
  have hExtent := (padded_bounds (e := extents i) hbPos).1
  have hAlignment := alignment_le_padded (h.extent_pos i hi).1 hbPos
  rw [Option.mem_def.mp hb] at hOne
  omega

theorem prod_eq_of_overflow (h : Sizes d extents alignments) (hj : j < d) (hAlign : a ∈ alignments j)
    (hSum : 2147483647 < extents j + a - 1) :
    ∏ k ∈ Finset.range d, machinePadded (extents k) (alignments k) = machinePadded (extents j) (alignments j) :=
  Finset.prod_eq_single_of_mem j (Finset.mem_range.mpr hj) fun _ hi hNe =>
    h.machinePadded_eq_one (Finset.mem_range.mp hi) hj hNe hAlign hSum

/-- Where every sum rounds, each extent is covered and the product fits. -/
theorem covered (h : Sizes d extents alignments) (hRounds : ∀ j < d, ∀ a ∈ alignments j, Rounds (extents j) a) :
    (∀ j < d, extents j ≤ machinePadded (extents j) (alignments j)) ∧
      ∏ j ∈ Finset.range d, machinePadded (extents j) (alignments j) ≤ 2147483647 := by
  have hOver {j : Nat} {a : Int} (hj : j < d) (hAlign : a ∈ alignments j)
      (hSum : 2147483647 < extents j + a - 1) :
      extents j ≤ machinePadded (extents j) (alignments j) ∧
        machinePadded (extents j) (alignments j) ≤ 2147483647 := by
    obtain ⟨haPos, haLe⟩ := h.alignment_pos j hj a hAlign
    obtain ⟨hePos, heLe⟩ := h.extent_pos j hj
    rw [Option.mem_def.mp hAlign]
    exact machinePadded_of_rounds haPos haLe heLe hSum hePos (hRounds j hj a hAlign)
  have hFits {j : Nat} (hj : j < d) (hFits : ∀ a ∈ alignments j, extents j + a - 1 ≤ 2147483647) :
      extents j ≤ machinePadded (extents j) (alignments j) := by
    rw [h.machinePadded_eq hj hFits]
    cases hAlign : alignments j with
    | none => exact le_rfl
    | some a => exact (padded_bounds (h.alignment_pos j hj a hAlign).1).1
  constructor
  · intro j hj
    by_cases hAll : ∀ a ∈ alignments j, extents j + a - 1 ≤ 2147483647
    · exact hFits hj hAll
    · simp only [not_forall, not_le] at hAll
      obtain ⟨a, hAlign, hSum⟩ := hAll
      exact (hOver hj hAlign hSum).1
  · by_cases hAll : ∀ j < d, ∀ a ∈ alignments j, extents j + a - 1 ≤ 2147483647
    · rw [Finset.prod_congr rfl fun j hj => h.machinePadded_eq (Finset.mem_range.mp hj)
        (hAll j (Finset.mem_range.mp hj))]
      exact h.product_le
    · simp only [not_forall, not_le] at hAll
      obtain ⟨j, hj, a, hAlign, hSum⟩ := hAll
      rw [h.prod_eq_of_overflow hj hAlign hSum]
      exact (hOver hj hAlign hSum).2

/-- Where one sum does not round, the product is negative. -/
theorem prod_neg (h : Sizes d extents alignments) (hj : j < d) (hAlign : a ∈ alignments j)
    (hRounds : ¬ Rounds (extents j) a) :
    ∏ j ∈ Finset.range d, machinePadded (extents j) (alignments j) < 0 := by
  obtain ⟨haPos, haLe⟩ := h.alignment_pos j hj a hAlign
  have hSum : 2147483647 < extents j + a - 1 := not_le.mp fun hLe => hRounds (Or.inl hLe)
  rw [h.prod_eq_of_overflow hj hAlign hSum, Option.mem_def.mp hAlign]
  exact machinePadded_neg haPos haLe (h.extent_pos j hj).2 hSum hRounds

end Sizes

end Vyasa.StorageFlattening

/-! The shape that the lets around the body of a realization make. -/
namespace Vyasa.StorageFlattening

open Word IRMatch Vyasa.Expr

variable {f : Func} {r : Realize} {name : Name} {ρ ρ' : Env} {e : Expr} {v : Int}

/-- The environments differ only in the shape of this name. -/
structure Outside (name : Name) (ρ ρ' : Env) : Prop where
  vars : ∀ n, (∀ field dim, n ≠ shapeName name field dim) → ρ'.vars n = ρ.vars n
  mem : ρ'.mem = ρ.mem

/-- An expression of 32 bits with this value, whatever the shape of the name is. -/
structure Carries (name : Name) (ρ : Env) (e : Expr) (v : Int) : Prop where
  type : e.type = .int32
  value : eval .wrapping ρ e = some v
  has : IntType.int32.Has v
  fresh : ∀ field dim, e.mentions (shapeName name field dim) = false

/-- The values of the bounds and of the alignments of a realization. -/
structure Evaluates (f : Func) (r : Realize) (ρ : Env) (mins extents : Nat → Int)
    (alignments : Nat → Option Int) : Prop where
  length : r.bounds.length = f.args.length
  min : ∀ j range, r.bounds[j]? = some range → Carries r.name ρ range.min (mins j)
  extent : ∀ j range, r.bounds[j]? = some range → Carries r.name ρ range.extent (extents j)
  aligned : ∀ dim ∈ f.storageDims, ∀ a, dim.alignment = some a →
    ∃ v, alignments (f.index dim) = some v ∧ Carries r.name ρ a v
  unaligned : ∀ dim ∈ f.storageDims, dim.alignment = none → alignments (f.index dim) = none

theorem Outside.refl (name : Name) (ρ : Env) : Outside name ρ ρ := ⟨fun _ _ => rfl, rfl⟩

theorem Outside.set (h : Outside name ρ ρ') (field : Field) (dim : Nat) (x : Int) :
    Outside name ρ (ρ'.set (shapeName name field dim) x) where
  vars n hn := by rw [Env.set_vars_of_ne (hn field dim), h.vars n hn]
  mem := h.mem

theorem Carries.eval (h : Carries name ρ e v) (hOut : Outside name ρ ρ') : eval .wrapping ρ' e = some v := by
  refine (eval_congr ⟨fun n hn => hOut.vars n ?_, fun n _ => congrFun hOut.mem n⟩).trans h.value
  rintro field dim rfl
  rw [h.fresh field dim] at hn
  cases hn

theorem set_shape_of_ne {field field' : Field} {i j : Nat} (h : ¬ (field' = field ∧ j = i)) (x : Int) :
    (ρ.set (shapeName name field i) x).vars (shapeName name field' j) = ρ.vars (shapeName name field' j) :=
  Env.set_vars_of_ne fun hName => h (shapeName_inj.mp hName)

theorem modeAt_wrapping (T : IntType) : modeAt .wrapping T = .wrapping := by
  unfold modeAt
  split_ifs
  · rfl
  · rfl

theorem eval_allocationExtent {extent : Expr} {alignment : Option Expr} {x : Int} {a : Option Int}
    (hExtent : Carries name ρ extent x) (hNone : alignment = none → a = none)
    (hSome : ∀ e, alignment = some e → ∃ v, a = some v ∧ v ≠ 0 ∧ Carries name ρ e v)
    (hOut : Outside name ρ ρ') :
    eval .wrapping ρ' (allocationExtent extent alignment) = some (machinePadded x a) := by
  cases alignment with
  | none =>
    rw [hNone rfl]
    exact hExtent.eval hOut
  | some e =>
    obtain ⟨v, rfl, hZero, hCarries⟩ := hSome e rfl
    have hOne : (makeOne .int32) = imm .int32 1 := by decide
    have hx := hExtent.eval hOut
    have hv := hCarries.eval hOut
    simp only [allocationExtent, hOne, Expr.eval, hx, hv, type, hExtent.type, modeAt_wrapping, evalBin, arith,
      Option.bind_eq_bind, Option.bind_some, if_neg hZero, machinePadded]

/-- The lets of the bounds of the dimensions from the `k`-th on. -/
theorem enter_bounds (mins extents : Nat → Int) (rest : Stmt) (bounds : List Range) (k : Nat)
    (hOut : Outside r.name ρ ρ')
    (hMin : ∀ j range, bounds[j]? = some range → Carries r.name ρ range.min (mins (k + j)))
    (hExtent : ∀ j range, bounds[j]? = some range → Carries r.name ρ range.extent (extents (k + j))) :
    ∃ ρ'', ((bounds.zipIdx k).foldr (boundLets r) rest).enter ρ' = rest.enter ρ'' ∧
      Outside r.name ρ ρ'' ∧
      (∀ j, k ≤ j → j < k + bounds.length → ρ''.vars (shapeName r.name .min j) = mins j ∧
        ρ''.vars (shapeName r.name .extent j) = extents j) ∧
      ∀ field, ∀ j < k, ρ''.vars (shapeName r.name field j) = ρ'.vars (shapeName r.name field j) := by
  induction bounds generalizing k ρ' with
  | nil =>
    refine ⟨ρ', rfl, hOut, fun j hj hLt => ?_, fun _ _ _ => rfl⟩
    rw [List.length_nil] at hLt
    omega
  | cons range bounds ih =>
    have hExtentHead := (hExtent 0 range rfl).eval hOut
    have hOutExtent := hOut.set .extent k (extents (k + 0))
    have hMinHead := (hMin 0 range rfl).eval hOutExtent
    have hOutMin := hOutExtent.set .min k (mins (k + 0))
    obtain ⟨ρ'', hEnter, hOut'', hValues, hKeep⟩ := ih (k + 1) hOutMin
      (fun j range' h => by rw [Nat.add_right_comm, Nat.add_assoc]; exact hMin (j + 1) range' h)
      (fun j range' h => by rw [Nat.add_right_comm, Nat.add_assoc]; exact hExtent (j + 1) range' h)
    refine ⟨ρ'', ?_, hOut'', fun j hj hLt => ?_, fun field j hj => ?_⟩
    · rw [List.zipIdx_cons, List.foldr_cons, boundLets, Stmt.enter, hExtentHead, Option.bind_eq_bind,
        Option.bind_some, Stmt.enter, hMinHead, Option.bind_eq_bind, Option.bind_some, hEnter]
    · rcases Nat.eq_or_lt_of_le hj with rfl | hj
      · rw [hKeep .min k (Nat.lt_succ_self k), hKeep .extent k (Nat.lt_succ_self k), Env.set_vars_self,
          set_shape_of_ne (fun h => Field.noConfusion h.1), Env.set_vars_self]
        exact ⟨rfl, rfl⟩
      · refine hValues j hj ?_
        rw [List.length_cons] at hLt
        omega
    · rw [hKeep field j (hj.trans (Nat.lt_succ_self k)), set_shape_of_ne (fun h => hj.ne h.2),
        set_shape_of_ne (fun h => hj.ne h.2)]

/-- The lets of the strides, each from the stride before it. -/
theorem enter_strides {sizes : Nat → Int} {allocated : Nat → Expr} (rest : Stmt) {order : List Nat} {i : Nat}
    (hOut : Outside r.name ρ ρ') (hNodup : (i :: order).Nodup)
    (hAllocated : ∀ j ∈ i :: order, ∀ ρ', Outside r.name ρ ρ' →
      eval .wrapping ρ' (allocated j) = some (sizes j)) :
    ∃ ρ'', (((i :: order).zip order).foldr (strideLet r allocated) rest).enter ρ' = rest.enter ρ'' ∧
      Outside r.name ρ ρ'' ∧
      (∀ k a b, (i :: order)[k]? = some a → (i :: order)[k + 1]? = some b →
        ρ''.vars (shapeName r.name .stride b) =
          IntType.int32.wrap (ρ''.vars (shapeName r.name .stride a) * sizes a)) ∧
      ∀ field j, ¬ (field = .stride ∧ j ∈ order) →
        ρ''.vars (shapeName r.name field j) = ρ'.vars (shapeName r.name field j) := by
  induction order generalizing i ρ' with
  | nil =>
    refine ⟨ρ', rfl, hOut, fun k a b _ hb => ?_, fun _ _ _ => rfl⟩
    rw [List.getElem?_cons_succ, List.getElem?_nil] at hb
    cases hb
  | cons j order ih =>
    have hSize := hAllocated i (List.mem_cons_self ..) ρ' hOut
    have hStride : eval .wrapping ρ' (mul (makeShapeVar r.name .stride i) (allocated i)) =
        some (IntType.int32.wrap (ρ'.vars (shapeName r.name .stride i) * sizes i)) := by
      simp only [Expr.eval, makeShapeVar, hSize, type, modeAt_wrapping, evalBin, arith, Option.bind_eq_bind,
        Option.bind_some]
    obtain ⟨hHead, hTail⟩ := List.nodup_cons.mp hNodup
    obtain ⟨ρ'', hEnter, hOut'', hChain, hKeep⟩ := ih (hOut.set .stride j _) hTail
      (fun k hk => hAllocated k (List.mem_cons_of_mem _ hk))
    have hij : i ≠ j := fun h => hHead (h ▸ List.mem_cons_self ..)
    refine ⟨ρ'', ?_, hOut'', fun k a b ha hb => ?_, fun field k hk => ?_⟩
    · rw [List.zip_cons_cons, List.foldr_cons, strideLet, Stmt.enter, hStride, Option.bind_eq_bind,
        Option.bind_some, hEnter]
    · cases k with
      | zero =>
        obtain rfl : i = a := Option.some.inj ha
        obtain rfl : j = b := Option.some.inj hb
        have hj : j ∉ order := (List.nodup_cons.mp hTail).1
        have hi : i ∉ order := fun h => hHead (List.mem_cons_of_mem _ h)
        rw [hKeep .stride j fun h => hj h.2, hKeep .stride i fun h => hi h.2, Env.set_vars_self,
          set_shape_of_ne fun h => hij h.2]
      | succ k => exact hChain k a b ha hb
    · rw [hKeep field k fun h => hk ⟨h.1, List.mem_cons_of_mem _ h.2⟩,
        set_shape_of_ne fun h => hk ⟨h.1, List.mem_cons.mpr (Or.inl h.2)⟩]

/-- The shape in the body: the bounds, and the strides in the order of the storage. -/
structure Shaped (f : Func) (r : Realize) (mins extents sizes : Nat → Int) (ρ : Env) : Prop where
  min : ∀ j < f.args.length, ρ.vars (shapeName r.name .min j) = mins j
  extent : ∀ j < f.args.length, ρ.vars (shapeName r.name .extent j) = extents j
  innermost : ∀ i, f.order[0]? = some i → ρ.vars (shapeName r.name .stride i) = 1
  step : ∀ k i j, f.order[k]? = some i → f.order[k + 1]? = some j →
    ρ.vars (shapeName r.name .stride j) = IntType.int32.wrap (ρ.vars (shapeName r.name .stride i) * sizes i)

section Enter

variable {mins extents : Nat → Int} {alignments : Nat → Option Int}

theorem Evaluates.allocated (h : Evaluates f r ρ mins extents alignments)
    (hZero : ∀ j < f.args.length, ∀ a ∈ alignments j, a ≠ 0) {j : Nat} (hj : j < f.args.length)
    (hOut : Outside r.name ρ ρ') :
    eval .wrapping ρ' (allocated f r j) = some (machinePadded (extents j) (alignments j)) := by
  have hBound : j < r.bounds.length := h.length ▸ hj
  have hGet := List.getElem?_eq_getElem hBound
  obtain ⟨dim, hDim, hFind, rfl⟩ := find?_index f hj
  rw [StorageFlattening.allocated, hGet, Func.alignment, hFind]
  refine eval_allocationExtent (h.extent _ _ hGet) (h.unaligned dim hDim) (fun e he => ?_) hOut
  obtain ⟨v, hv, hCarries⟩ := h.aligned dim hDim e he
  exact ⟨v, hv, hZero _ hj v hv, hCarries⟩

/-- The lets of the strides and the allocation. -/
theorem enter_allocation {sizes : Nat → Int} {allocated : Nat → Expr} {extents : List Expr}
    {values : List Int} {order : List Nat} (hOut : Outside r.name ρ ρ') (hNodup : order.Nodup)
    (hAllocated : ∀ j ∈ order, ∀ ρ', Outside r.name ρ ρ' → eval .wrapping ρ' (allocated j) = some (sizes j))
    (hExtents : ∀ ρ', Outside r.name ρ ρ' → extents.mapM (eval .wrapping ρ') = some values) :
    ∃ ρ'', (innermostLet r order ((order.zip order.tail).foldr (strideLet r allocated)
        (.allocate r.name extents))).enter ρ' = some (ρ'', values) ∧
      (∀ i, order[0]? = some i → ρ''.vars (shapeName r.name .stride i) = 1) ∧
      (∀ k i j, order[k]? = some i → order[k + 1]? = some j →
        ρ''.vars (shapeName r.name .stride j) =
          IntType.int32.wrap (ρ''.vars (shapeName r.name .stride i) * sizes i)) ∧
      ∀ field j, field ≠ .stride →
        ρ''.vars (shapeName r.name field j) = ρ'.vars (shapeName r.name field j) := by
  cases order with
  | nil =>
    refine ⟨ρ', ?_, fun i hi => ?_, fun k i j hi => ?_, fun _ _ _ => rfl⟩
    · simp only [innermostLet, List.zip_nil_left, List.foldr_nil, Stmt.enter, hExtents ρ' hOut,
        Option.bind_eq_bind, Option.bind_some, Option.pure_def]
    · cases hi
    · cases hi
  | cons i order =>
    obtain ⟨ρ'', hEnter, hOut'', hStep, hKeep⟩ := enter_strides (.allocate r.name extents)
      (hOut.set .stride i 1) hNodup hAllocated
    refine ⟨ρ'', ?_, fun j hj => ?_, hStep, fun field j hField => ?_⟩
    · rw [innermostLet, Stmt.enter, List.tail_cons]
      simp only [Expr.eval, Option.bind_eq_bind, Option.bind_some, hEnter, Stmt.enter, hExtents ρ'' hOut'',
        Option.pure_def]
    · obtain rfl : i = j := Option.some.inj hj
      rw [hKeep .stride i fun hi => (List.nodup_cons.mp hNodup).1 hi.2, Env.set_vars_self]
    · rw [hKeep field j fun hj => hField hj.1, set_shape_of_ne fun hj => hField hj.1]

/-- The body is entered with the shape of the realization. -/
theorem enter_visitRealize (h : Evaluates f r ρ mins extents alignments)
    (hZero : ∀ j < f.args.length, ∀ a ∈ alignments j, a ≠ 0) :
    ∃ s ρ', visitRealize f r = some s ∧
      s.enter ρ =
        some (ρ', (List.range f.args.length).map fun j => machinePadded (extents j) (alignments j)) ∧
      Shaped f r mins extents (fun j => machinePadded (extents j) (alignments j)) ρ' := by
  have hBelow {j : Nat} (hj : j ∈ f.order) : j < f.args.length := f.mem_order.mp hj
  have hAllocated (j : Nat) (hj : j ∈ f.order) (ρ' : Env) (hOut : Outside r.name ρ ρ') : eval .wrapping ρ'
      (((List.range r.bounds.length).map (StorageFlattening.allocated f r)).getD j (makeZero .int32)) =
        some (machinePadded (extents j) (alignments j)) := by
    rw [List.getD_eq_getElem?_getD, List.getElem?_map, h.length, List.getElem?_range (hBelow hj)]
    exact h.allocated hZero (hBelow hj) hOut
  have hExtents (ρ' : Env) (hOut : Outside r.name ρ ρ') :
      ((List.range r.bounds.length).map (StorageFlattening.allocated f r)).mapM (eval .wrapping ρ') =
        some ((List.range f.args.length).map fun j => machinePadded (extents j) (alignments j)) := by
    rw [List.mapM_map, h.length]
    exact Pointwise.mapM_eq_map fun j hj => h.allocated hZero (List.mem_range.mp hj) hOut
  obtain ⟨ρ₁, hEnter₁, hOut₁, hValues, -⟩ := enter_bounds mins extents
    (innermostLet r f.order ((f.order.zip f.order.tail).foldr (strideLet r fun j =>
      ((List.range r.bounds.length).map (StorageFlattening.allocated f r)).getD j (makeZero .int32))
      (.allocate r.name ((List.range r.bounds.length).map (StorageFlattening.allocated f r)))))
    r.bounds 0 (Outside.refl r.name ρ)
    (fun j range hj => by rw [Nat.zero_add]; exact h.min j range hj)
    (fun j range hj => by rw [Nat.zero_add]; exact h.extent j range hj)
  obtain ⟨ρ₂, hEnter₂, hFirst, hStep, hKeep⟩ := enter_allocation hOut₁ f.order_nodup
    hAllocated hExtents
  refine ⟨_, ρ₂, visitRealize_eq h.length, hEnter₁.trans hEnter₂, fun j hj => ?_, fun j hj => ?_, hFirst, hStep⟩
  · rw [hKeep .min j Field.noConfusion]
    exact (hValues j (Nat.zero_le j) (by rw [h.length]; omega)).1
  · rw [hKeep .extent j Field.noConfusion]
    exact (hValues j (Nat.zero_le j) (by rw [h.length]; omega)).2

end Enter

end Vyasa.StorageFlattening
