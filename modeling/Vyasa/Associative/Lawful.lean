import Vyasa.Associative.Table

/-! Which entries of the table are associative with their identity, and commutative where they
say so. -/
namespace Vyasa.Associative

open Word IRMatch

/-- A tuple of values of the types. -/
def Tuple (types : List IntType) (xs : List Int) : Prop := List.Forall₂ IntType.Has types xs

/-- What a reduction relies on: the order in which it is split does not matter where nothing
overflows, and neither does the identity. -/
structure Lawful (types : List IntType) (p : AssociativePattern) (k : Int) : Prop where
  assoc : ∀ {xs ys zs xy yz r r'}, Tuple types xs → Tuple types ys → Tuple types zs →
    p.apply k xs ys = some xy → p.apply k xy zs = some r →
    p.apply k ys zs = some yz → p.apply k xs yz = some r' → r = r'
  identity : ∃ e, p.identity = some e ∧ Tuple types e ∧
    ∀ xs, Tuple types xs → p.apply k e xs = some xs ∧ p.apply k xs e = some xs
  comm : p.is_commutative = true → ∀ {xs ys}, Tuple types xs → Tuple types ys →
    p.apply k xs ys = p.apply k ys xs

/-! ### Arithmetic of a type -/

variable {T : IntType} {k : Int}

/-- A result has the type, and the low bits of the exact one. -/
theorem arith_spec {r v : Int} (h : arith (signedMode T) T r = some v) :
    T.Has v ∧ v ≡ r [ZMOD 2 ^ T.bits] := by
  unfold signedMode arith at h
  split at h
  · obtain rfl := Option.some.inj h
    exact ⟨T.has_wrap r, T.wrap_modEq r⟩
  · split at h
    · next hHas =>
      obtain rfl := Option.some.inj h
      exact ⟨hHas, Int.ModEq.refl _⟩
    · cases h
  · next hMode => split at hMode <;> cases hMode

theorem arith_of_has {r : Int} (h : T.Has r) : arith (signedMode T) T r = some r := by
  unfold signedMode arith
  split
  · rw [T.wrap_of_has h]
  · rw [if_pos h]
  · rfl

/-- Results of congruent sums are equal. -/
theorem arith_unique {r r' v v' : Int} (h : arith (signedMode T) T r = some v)
    (h' : arith (signedMode T) T r' = some v') (hCongr : r ≡ r' [ZMOD 2 ^ T.bits]) : v = v' := by
  obtain ⟨hHas, hMod⟩ := arith_spec h
  obtain ⟨hHas', hMod'⟩ := arith_spec h'
  exact IntType.eq_of_modEq hHas hHas' ((hMod.trans hCongr).trans hMod'.symm)

/-! ### Entries of one dimension -/

section Single

variable {e id : Expr} {c : Int} {f : Int → Int → Option Int}

/-- The laws for one dimension. -/
structure Scalar (T : IntType) (f : Int → Int → Option Int) (c : Int) : Prop where
  assoc : ∀ {x y z xy yz r r'}, T.Has x → T.Has y → T.Has z → f x y = some xy → f xy z = some r →
    f y z = some yz → f x yz = some r' → r = r'
  has : T.Has c
  left : ∀ x, T.Has x → f c x = some x
  right : ∀ x, T.Has x → f x c = some x
  comm : ∀ {x y}, T.Has x → T.Has y → f x y = f y x

theorem tuple_single {xs : List Int} : Tuple [T] xs ↔ ∃ x, xs = [x] ∧ T.Has x := by
  constructor
  · rintro (_ | ⟨h, _ | _⟩)
    exact ⟨_, rfl, h⟩
  · rintro ⟨x, rfl, h⟩
    exact .cons h .nil

theorem apply_single (p : AssociativePattern) (hOps : p.ops = [e]) (x y : Int) :
    p.apply k [x] [y] = (value (env k [x] [y]) e).map fun v => [v] := by
  simp only [AssociativePattern.apply, hOps, List.mapM_cons, List.mapM_nil]
  cases value (env k [x] [y]) e <;> rfl

theorem lawful_single_iff (hOp : ∀ x y, value (env k [x] [y]) e = f x y)
    (hId : value (fun _ => 0) id = some c) : Lawful [T] ⟨[e], [id], true⟩ k ↔ Scalar T f c := by
  have hApply : ∀ x y, AssociativePattern.apply ⟨[e], [id], true⟩ k [x] [y] =
      (f x y).map fun v => [v] := fun x y => by rw [apply_single _ rfl, hOp]
  have hSome : ∀ {x y r}, AssociativePattern.apply ⟨[e], [id], true⟩ k [x] [y] = some r ↔
      ∃ v, f x y = some v ∧ r = [v] := by
    intro x y r
    rw [hApply, Option.map_eq_some_iff]
    exact exists_congr fun v => and_congr_right fun _ => eq_comm
  have hIdentity : AssociativePattern.identity ⟨[e], [id], true⟩ = some [c] := by
    simp [AssociativePattern.identity, hId]
  constructor
  · intro h
    obtain ⟨e', he', hTuple, hLaws⟩ := h.identity
    obtain rfl := Option.some.inj (hIdentity.symm.trans he')
    have hHas : T.Has c := by simpa using (tuple_single.mp hTuple)
    refine ⟨?_, hHas, fun x hx => ?_, fun x hx => ?_, fun {x y} hx hy => ?_⟩
    · intro x y z xy yz r r' hx hy hz h₁ h₂ h₃ h₄
      have hEq := h.assoc (tuple_single.mpr ⟨x, rfl, hx⟩) (tuple_single.mpr ⟨y, rfl, hy⟩)
        (tuple_single.mpr ⟨z, rfl, hz⟩) (hSome.mpr ⟨xy, h₁, rfl⟩) (hSome.mpr ⟨r, h₂, rfl⟩)
        (hSome.mpr ⟨yz, h₃, rfl⟩) (hSome.mpr ⟨r', h₄, rfl⟩)
      exact List.singleton_inj.mp hEq
    · obtain ⟨v, hv, hEq⟩ := hSome.mp (hLaws [x] (tuple_single.mpr ⟨x, rfl, hx⟩)).1
      rw [hv, List.singleton_inj.mp hEq]
    · obtain ⟨v, hv, hEq⟩ := hSome.mp (hLaws [x] (tuple_single.mpr ⟨x, rfl, hx⟩)).2
      rw [hv, List.singleton_inj.mp hEq]
    · have hEq := h.comm rfl (tuple_single.mpr ⟨x, rfl, hx⟩) (tuple_single.mpr ⟨y, rfl, hy⟩)
      rw [hApply, hApply] at hEq
      exact Option.map_injective (fun a b hab => List.singleton_inj.mp hab) hEq
  · intro h
    refine ⟨?_, ⟨[c], hIdentity, tuple_single.mpr ⟨c, rfl, h.has⟩, fun xs hxs => ?_⟩, fun _ {xs ys} hxs hys => ?_⟩
    · intro xs ys zs xy yz r r' hxs hys hzs h₁ h₂ h₃ h₄
      obtain ⟨x, rfl, hx⟩ := tuple_single.mp hxs
      obtain ⟨y, rfl, hy⟩ := tuple_single.mp hys
      obtain ⟨z, rfl, hz⟩ := tuple_single.mp hzs
      obtain ⟨v, hv, rfl⟩ := hSome.mp h₁
      obtain ⟨w, hw, rfl⟩ := hSome.mp h₃
      obtain ⟨a, ha, rfl⟩ := hSome.mp h₂
      obtain ⟨b, hb, rfl⟩ := hSome.mp h₄
      rw [h.assoc hx hy hz hv ha hw hb]
    · obtain ⟨x, rfl, hx⟩ := tuple_single.mp hxs
      exact ⟨hSome.mpr ⟨x, h.left x hx, rfl⟩, hSome.mpr ⟨x, h.right x hx, rfl⟩⟩
    · obtain ⟨x, rfl, hx⟩ := tuple_single.mp hxs
      obtain ⟨y, rfl, hy⟩ := tuple_single.mp hys
      rw [hApply, hApply, h.comm hx hy]

theorem scalar_add : Scalar T (fun x y => arith (signedMode T) T (x + y)) 0 where
  assoc {x y z xy yz r r'} _ _ _ h₁ h₂ h₃ h₄ := by
    refine arith_unique h₂ h₄ ?_
    have hLeft := (arith_spec h₁).2.add_right z
    have hRight := (arith_spec h₃).2.add_left x
    rw [add_assoc] at hLeft
    exact hLeft.trans hRight.symm
  has := T.has_zero
  left x hx := by
    rw [zero_add]
    exact arith_of_has hx
  right x hx := by
    rw [add_zero]
    exact arith_of_has hx
  comm {x y} _ _ := by rw [add_comm]

theorem scalar_mul : Scalar T (fun x y => arith (signedMode T) T (x * y)) 1 where
  assoc {x y z xy yz r r'} _ _ _ h₁ h₂ h₃ h₄ := by
    refine arith_unique h₂ h₄ ?_
    have hLeft := (arith_spec h₁).2.mul_right z
    have hRight := (arith_spec h₃).2.mul_left x
    rw [mul_assoc] at hLeft
    exact hLeft.trans hRight.symm
  has := T.has_one
  left x hx := by
    rw [one_mul]
    exact arith_of_has hx
  right x hx := by
    rw [mul_one]
    exact arith_of_has hx
  comm {x y} _ _ := by rw [mul_comm]

theorem scalar_max : Scalar T (fun x y => some (max x y)) T.min where
  assoc {x y z xy yz r r'} _ _ _ h₁ h₂ h₃ h₄ := by
    simp only [Option.some.injEq] at h₁ h₂ h₃ h₄
    rw [← h₂, ← h₄, ← h₁, ← h₃, max_assoc]
  has := T.has_min
  left x hx := by rw [max_eq_right hx.1]
  right x hx := by rw [max_eq_left hx.1]
  comm {x y} _ _ := by rw [max_comm]

theorem scalar_min : Scalar T (fun x y => some (min x y)) T.max where
  assoc {x y z xy yz r r'} _ _ _ h₁ h₂ h₃ h₄ := by
    simp only [Option.some.injEq] at h₁ h₂ h₃ h₄
    rw [← h₂, ← h₄, ← h₁, ← h₃, min_assoc]
  has := T.has_max
  left x hx := by rw [min_eq_right hx.2]
  right x hx := by rw [min_eq_left hx.2]
  comm {x y} _ _ := by rw [min_comm]

/-- A truth value. -/
theorem has_uint1 (hSigned : T.signed = false) (hBits : T.bits = 1) {x : Int} (hx : T.Has x) :
    x = 0 ∨ x = 1 := by
  have hMin : T.min = 0 := by simp [IntType.min, hSigned]
  have hMax : T.max = 1 := by simp [IntType.max, hSigned, hBits]
  have hLow := hMin ▸ hx.1
  have hHigh := hMax ▸ hx.2
  omega

theorem scalar_and (hSigned : T.signed = false) (hBits : T.bits = 1) :
    Scalar T (fun x y => some (if x ≠ 0 ∧ y ≠ 0 then 1 else 0)) 1 where
  assoc {x y z xy yz r r'} hx hy hz h₁ h₂ h₃ h₄ := by
    simp only [Option.some.injEq] at h₁ h₂ h₃ h₄
    subst h₁ h₃ h₂ h₄
    rcases has_uint1 hSigned hBits hx with rfl | rfl <;>
      rcases has_uint1 hSigned hBits hy with rfl | rfl <;>
      rcases has_uint1 hSigned hBits hz with rfl | rfl <;> rfl
  has := T.has_one
  left x hx := by rcases has_uint1 hSigned hBits hx with rfl | rfl <;> rfl
  right x hx := by rcases has_uint1 hSigned hBits hx with rfl | rfl <;> rfl
  comm {x y} _ _ := by simp only [and_comm]

theorem scalar_or (hSigned : T.signed = false) (hBits : T.bits = 1) :
    Scalar T (fun x y => some (if x ≠ 0 ∨ y ≠ 0 then 1 else 0)) 0 where
  assoc {x y z xy yz r r'} hx hy hz h₁ h₂ h₃ h₄ := by
    simp only [Option.some.injEq] at h₁ h₂ h₃ h₄
    subst h₁ h₃ h₂ h₄
    rcases has_uint1 hSigned hBits hx with rfl | rfl <;>
      rcases has_uint1 hSigned hBits hy with rfl | rfl <;>
      rcases has_uint1 hSigned hBits hz with rfl | rfl <;> rfl
  has := T.has_zero
  left x hx := by rcases has_uint1 hSigned hBits hx with rfl | rfl <;> rfl
  right x hx := by rcases has_uint1 hSigned hBits hx with rfl | rfl <;> rfl
  comm {x y} _ _ := by simp only [or_comm]

theorem signedMode_of_unsigned (hSigned : T.signed = false) : signedMode T = .wrapping := by
  simp [signedMode, hSigned]

/-- The value of a clamped sum. The sum is not larger than the narrow type has it. -/
theorem value_clampedSum {wide : IntType} (hT : T.signed = false) (hWide : wide.signed = false)
    (hBits : T.bits ≤ wide.bits) (x y : Int) :
    value (env k [x] [y]) (.cast T (.bin .min (.cast wide (.bin .add (x0 T) (y0 T))) (k0 wide))) =
      some (T.wrap (min (T.wrap (x + y)) k)) := by
  have hSum := T.has_wrap (x + y)
  have hFits : wide.Has (T.wrap (x + y)) := by
    have hLe : (2 : Int) ^ T.bits ≤ 2 ^ wide.bits := pow_le_pow_right₀ (by decide) hBits
    simp only [IntType.Has, IntType.min, IntType.max, hT, hWide] at hSum ⊢
    simp only [Bool.false_eq_true, if_false] at hSum ⊢
    omega
  have hX : env k [x] [y] (.mk "x0") = x := rfl
  have hY : env k [x] [y] (.mk "y0") = y := rfl
  have hK : env k [x] [y] (.mk "k0") = k := rfl
  simp only [value, x0, y0, k0, hX, hY, hK, Expr.type, evalBin, signedMode_of_unsigned hT,
    signedMode_of_unsigned hWide, arith, Option.bind_eq_bind, Option.bind_some,
    wide.wrap_of_has hFits]

/-- A constant below the largest value takes it from the identity law. -/
theorem scalar_clampedSum_iff (hT : T.signed = false) :
    Scalar T (fun x y => some (T.wrap (min (T.wrap (x + y)) k))) 0 ↔ T.max ≤ k := by
  constructor
  · intro h
    by_contra hLt
    have hPos : 1 ≤ T.max := T.has_one.2
    have hLaw : ∀ x, T.Has x → k ≤ x → T.wrap k = x := by
      intro x hx hk
      have hx' := h.left x hx
      simp only [zero_add, T.wrap_of_has hx, min_eq_right hk, Option.some.injEq] at hx'
      exact hx'
    have hMin : T.min = 0 := by simp [IntType.min, hT]
    have hHas : T.Has (T.max - 1) := ⟨by omega, by omega⟩
    have hTop := hLaw T.max T.has_max (by omega)
    have hBelow := hLaw (T.max - 1) hHas (by omega)
    omega
  · intro h
    have hEq : (fun x y : Int => some (T.wrap (min (T.wrap (x + y)) k))) =
        fun x y => arith (signedMode T) T (x + y) := by
      funext x y
      have hHas := T.has_wrap (x + y)
      rw [min_eq_left (hHas.2.trans h), T.wrap_wrap, signedMode_of_unsigned hT]
      rfl
    rw [hEq]
    exact scalar_add

end Single

/-- Neither entry for a saturating sum has zero for its identity: one plus zero would be zero, or
the largest value. -/
theorem not_lawful_saturatingSums (hT : T.signed = false) (hBits : 1 < T.bits) {p : AssociativePattern}
    (hp : p ∈ saturatingSums T) : ¬ Lawful [T] p k := by
  intro h
  have hMax : 1 < T.max := by
    have hPow : (2 : Int) ^ 2 ≤ 2 ^ T.bits := pow_le_pow_right₀ (by decide) hBits
    simp only [IntType.max, hT, Bool.false_eq_true, if_false]
    omega
  have hOne : Tuple [T] [1] := tuple_single.mpr ⟨1, rfl, T.has_one⟩
  have hMode := signedMode_of_unsigned hT
  have hZero : T.wrap 0 = 0 := T.wrap_of_has T.has_zero
  have hTop : T.wrap T.max = T.max := T.wrap_of_has T.has_max
  obtain ⟨e, he, -, hLaw⟩ := h.identity
  have hRight := (hLaw [1] hOne).2
  simp only [saturatingSums, List.mem_cons, List.not_mem_nil, or_false] at hp
  rcases hp with rfl | rfl
  · obtain rfl : e = [0] := by simpa [AssociativePattern.identity, value, zero, eq_comm] using he
    rw [apply_single _ rfl] at hRight
    have hX : env k [1] [0] (.mk "x0") = 1 := rfl
    have hY : env k [1] [0] (.mk "y0") = 0 := rfl
    simp [value, x0, y0, tmax, hX, hY, hMode, evalBin, arith, evalCmp, hTop, hMax.not_gt] at hRight
  · obtain rfl : e = [0] := by simpa [AssociativePattern.identity, value, zero, eq_comm] using he
    rw [apply_single _ rfl] at hRight
    have hX : env k [1] [0] (.mk "x0") = 1 := rfl
    have hY : env k [1] [0] (.mk "y0") = 0 := rfl
    simp [value, x0, y0, tmax, zero, hX, hY, hMode, evalBin, arith, evalCmp, hZero] at hRight
    omega

/-! ### Entries of two dimensions -/

section Double

variable {T' : IntType}

theorem tuple_double {xs : List Int} : Tuple [T, T'] xs ↔ ∃ x x', xs = [x, x'] ∧ T.Has x ∧ T'.Has x' := by
  constructor
  · rintro (_ | ⟨h, _ | ⟨h', _ | _⟩⟩)
    exact ⟨_, _, rfl, h, h'⟩
  · rintro ⟨x, x', rfl, h, h'⟩
    exact .cons h (.cons h' .nil)

theorem apply_double (p : AssociativePattern) {e e' : Expr} (hOps : p.ops = [e, e']) (xs ys : List Int) :
    p.apply k xs ys = do
      let v ← value (env k xs ys) e
      let v' ← value (env k xs ys) e'
      return [v, v'] := by
  simp only [AssociativePattern.apply, hOps, List.mapM_cons, List.mapM_nil]
  cases value (env k xs ys) e <;> cases value (env k xs ys) e' <;> rfl

/-- The pair of sums with the first component does not have the identity on the right. -/
theorem not_lawful_double_add {p : AssociativePattern}
    (hp : p ∈ populate_ops_table_double_general_add T T') : ¬ Lawful [T, T'] p k := by
  intro h
  unfold populate_ops_table_double_general_add at hp
  split at hp
  · next hTypes =>
    subst hTypes
    obtain rfl := List.mem_singleton.mp hp
    obtain ⟨e, he, -, hLaw⟩ := h.identity
    obtain rfl : e = [0, 0] := by simpa [AssociativePattern.identity, value, zero, eq_comm] using he
    have hRight := (hLaw [0, 1] (tuple_double.mpr ⟨0, 1, rfl, T.has_zero, T.has_one⟩)).2
    have hSum := arith_of_has T.has_zero
    have hX : env k [0, 1] [0, 0] (.mk "x0") = 0 := rfl
    have hY : env k [0, 1] [0, 0] (.mk "y0") = 0 := rfl
    have hY' : env k [0, 1] [0, 0] (.mk "y1") = 0 := rfl
    rw [apply_double _ rfl] at hRight
    simp [value, x0, y0, y1, hX, hY, hY', evalBin, hSum] at hRight
  · cases hp

/-- Where a tie goes to the second tuple the order matters. -/
theorem not_lawful_of_tie {p : AssociativePattern} (hComm : p.is_commutative = true)
    (h : ∀ x y, p.apply k [0, x] [0, y] = some [0, y]) : ¬ Lawful [T, T'] p k := by
  intro hLawful
  have hEq := hLawful.comm hComm (tuple_double.mpr ⟨0, 0, rfl, T.has_zero, T'.has_zero⟩)
    (tuple_double.mpr ⟨0, 1, rfl, T.has_zero, T'.has_one⟩)
  rw [h, h] at hEq
  cases hEq

theorem env_tie (k x y : Int) : env k [0, x] [0, y] (.mk "x0") = 0 ∧ env k [0, x] [0, y] (.mk "y0") = 0 ∧
    env k [0, x] [0, y] (.mk "x1") = x ∧ env k [0, x] [0, y] (.mk "y1") = y := ⟨rfl, rfl, rfl, rfl⟩

theorem not_lawful_double_max {p : AssociativePattern}
    (hp : p ∈ populate_ops_table_double_general_max T T') : ¬ Lawful [T, T'] p k := by
  obtain rfl := List.mem_singleton.mp hp
  refine not_lawful_of_tie rfl fun x y => ?_
  obtain ⟨hX, hY, hX', hY'⟩ := env_tie k x y
  rw [apply_double _ rfl]
  simp [value, x0, y0, x1, y1, hX, hY, hX', hY', evalBin, evalCmp]

theorem not_lawful_double_min {p : AssociativePattern}
    (hp : p ∈ populate_ops_table_double_general_min T T') : ¬ Lawful [T, T'] p k := by
  obtain rfl := List.mem_singleton.mp hp
  refine not_lawful_of_tie rfl fun x y => ?_
  obtain ⟨hX, hY, hX', hY'⟩ := env_tie k x y
  rw [apply_double _ rfl]
  simp [value, x0, y0, x1, y1, hX, hY, hX', hY', evalBin, evalCmp]

/-! ### Complex multiplication -/

/-- The real part of a product. -/
def re (T : IntType) (x x' y y' : Int) : Option Int := do
  let a ← arith (signedMode T) T (x * y)
  let b ← arith (signedMode T) T (x' * y')
  arith (signedMode T) T (a - b)

/-- The imaginary part of a product. -/
def im (T : IntType) (x x' y y' : Int) : Option Int := do
  let a ← arith (signedMode T) T (x' * y)
  let b ← arith (signedMode T) T (x * y')
  arith (signedMode T) T (a + b)

theorem re_spec {x x' y y' v : Int} (h : re T x x' y y' = some v) :
    T.Has v ∧ v ≡ x * y - x' * y' [ZMOD 2 ^ T.bits] := by
  simp only [re, Option.bind_eq_bind, Option.bind_eq_some_iff] at h
  obtain ⟨a, ha, b, hb, hv⟩ := h
  exact ⟨(arith_spec hv).1, (arith_spec hv).2.trans ((arith_spec ha).2.sub (arith_spec hb).2)⟩

theorem im_spec {x x' y y' v : Int} (h : im T x x' y y' = some v) :
    T.Has v ∧ v ≡ x' * y + x * y' [ZMOD 2 ^ T.bits] := by
  simp only [im, Option.bind_eq_bind, Option.bind_eq_some_iff] at h
  obtain ⟨a, ha, b, hb, hv⟩ := h
  exact ⟨(arith_spec hv).1, (arith_spec hv).2.trans ((arith_spec ha).2.add (arith_spec hb).2)⟩

theorem re_comm (x x' y y' : Int) : re T x x' y y' = re T y y' x x' := by
  rw [re, re, mul_comm x, mul_comm x']

theorem im_comm (x x' y y' : Int) : im T x x' y y' = im T y y' x x' := by
  rw [im, im, mul_comm x', mul_comm x]
  cases arith (signedMode T) T (y * x') <;> cases arith (signedMode T) T (y' * x) <;>
    simp [add_comm]

theorem re_one {x x' : Int} (hx : T.Has x) : re T 1 0 x x' = some x := by
  simp [re, arith_of_has hx, arith_of_has T.has_zero]

theorem im_one {x x' : Int} (hx' : T.Has x') : im T 1 0 x x' = some x' := by
  simp [im, arith_of_has hx', arith_of_has T.has_zero]

theorem lawful_complex {p : AssociativePattern} (hIdentity : p.identity = some [1, 0])
    (hApply : ∀ x x' y y', p.apply k [x, x'] [y, y'] = do
      return [← re T x x' y y', ← im T x x' y y']) : Lawful [T, T] p k := by
  have hSome : ∀ {x x' y y' r}, p.apply k [x, x'] [y, y'] = some r ↔
      ∃ a b, re T x x' y y' = some a ∧ im T x x' y y' = some b ∧ r = [a, b] := by
    intro x x' y y' r
    rw [hApply]
    cases re T x x' y y' <;> cases im T x x' y y' <;> simp [eq_comm]
  have hComm : ∀ x x' y y', p.apply k [x, x'] [y, y'] = p.apply k [y, y'] [x, x'] := by
    intro x x' y y'
    rw [hApply, hApply, re_comm, im_comm]
  refine ⟨?_, ⟨[1, 0], hIdentity, tuple_double.mpr ⟨1, 0, rfl, T.has_one, T.has_zero⟩, ?_⟩, ?_⟩
  · intro xs ys zs xy yz r r' hxs hys hzs h₁ h₂ h₃ h₄
    obtain ⟨x, x', rfl, -, -⟩ := tuple_double.mp hxs
    obtain ⟨y, y', rfl, -, -⟩ := tuple_double.mp hys
    obtain ⟨z, z', rfl, -, -⟩ := tuple_double.mp hzs
    obtain ⟨a, a', ha, ha', rfl⟩ := hSome.mp h₁
    obtain ⟨b, b', hb, hb', rfl⟩ := hSome.mp h₃
    obtain ⟨u, u', hu, hu', rfl⟩ := hSome.mp h₂
    obtain ⟨v, v', hv, hv', rfl⟩ := hSome.mp h₄
    have hRe : u ≡ v [ZMOD 2 ^ T.bits] := by
      have hLeft := ((re_spec ha).2.mul_right z).sub ((im_spec ha').2.mul_right z')
      have hRight := ((re_spec hb).2.mul_left x).sub ((im_spec hb').2.mul_left x')
      have hRing : (x * y - x' * y') * z - (x' * y + x * y') * z' =
          x * (y * z - y' * z') - x' * (y' * z + y * z') := by ring
      rw [hRing] at hLeft
      exact ((re_spec hu).2.trans (hLeft.trans hRight.symm)).trans (re_spec hv).2.symm
    have hIm : u' ≡ v' [ZMOD 2 ^ T.bits] := by
      have hLeft := ((im_spec ha').2.mul_right z).add ((re_spec ha).2.mul_right z')
      have hRight := ((re_spec hb).2.mul_left x').add ((im_spec hb').2.mul_left x)
      have hRing : (x' * y + x * y') * z + (x * y - x' * y') * z' =
          x' * (y * z - y' * z') + x * (y' * z + y * z') := by ring
      rw [hRing] at hLeft
      exact ((im_spec hu').2.trans (hLeft.trans hRight.symm)).trans (im_spec hv').2.symm
    rw [IntType.eq_of_modEq (re_spec hu).1 (re_spec hv).1 hRe,
      IntType.eq_of_modEq (im_spec hu').1 (im_spec hv').1 hIm]
  · intro xs hxs
    obtain ⟨x, x', rfl, hx, hx'⟩ := tuple_double.mp hxs
    have hLeft := hSome.mpr ⟨x, x', @re_one T x x' hx, @im_one T x x' hx', rfl⟩
    exact ⟨hLeft, (hComm x x' 1 0).trans hLeft⟩
  · intro _ xs ys hxs hys
    obtain ⟨x, x', rfl, -, -⟩ := tuple_double.mp hxs
    obtain ⟨y, y', rfl, -, -⟩ := tuple_double.mp hys
    exact hComm x x' y y'

theorem lawful_double_sub {p : AssociativePattern}
    (hp : p ∈ populate_ops_table_double_general_sub T T') : Lawful [T, T'] p k := by
  unfold populate_ops_table_double_general_sub at hp
  split at hp
  · next hTypes =>
    subst hTypes
    simp only [List.mem_cons, List.not_mem_nil, or_false] at hp
    have hEnv : ∀ x x' y y', env k [x, x'] [y, y'] (.mk "x0") = x ∧
        env k [x, x'] [y, y'] (.mk "x1") = x' ∧ env k [x, x'] [y, y'] (.mk "y0") = y ∧
        env k [x, x'] [y, y'] (.mk "y1") = y' := fun _ _ _ _ => ⟨rfl, rfl, rfl, rfl⟩
    rcases hp with rfl | rfl
    · refine lawful_complex (by simp [AssociativePattern.identity, value, one, zero]) ?_
      intro x x' y y'
      obtain ⟨hX, hX', hY, hY'⟩ := hEnv x x' y y'
      rw [apply_double _ rfl]
      simp [value, x0, x1, y0, y1, hX, hX', hY, hY', evalBin, re, im]
    · refine lawful_complex (by simp [AssociativePattern.identity, value, one, zero]) ?_
      intro x x' y y'
      obtain ⟨hX, hX', hY, hY'⟩ := hEnv x x' y y'
      rw [apply_double _ rfl]
      simp [value, x0, x1, y0, y1, hX, hX', hY, hY', evalBin, re, im, mul_comm y']
  · cases hp

end Double

/-! ### The table -/

/-- The keys, and the constants of the clamped sums, for which the table is right. -/
def Fits (k : Int) : List IntType → RootExpr → Prop
  | [t], .Cast => t.max ≤ k
  | [_], .Select => False
  | [_, _], .Add | [_, _], .Max | [_, _], .Min => False
  | _, _ => True

theorem env_single (k x y : Int) : env k [x] [y] (.mk "x0") = x ∧ env k [x] [y] (.mk "y0") = y :=
  ⟨rfl, rfl⟩

theorem lawful_general_single {root : RootExpr} {p : AssociativePattern}
    (hp : p ∈ populate_general root [T]) : Lawful [T] p k ∧ Fits k [T] root := by
  cases root with
  | Add =>
    obtain rfl := List.mem_singleton.mp hp
    refine ⟨(lawful_single_iff (fun x y => ?_) rfl).mpr scalar_add, trivial⟩
    simp [value, x0, y0, env_single, evalBin]
  | Mul =>
    obtain rfl := List.mem_singleton.mp hp
    refine ⟨(lawful_single_iff (fun x y => ?_) rfl).mpr scalar_mul, trivial⟩
    simp [value, x0, y0, env_single, evalBin]
  | Max =>
    obtain rfl := List.mem_singleton.mp hp
    refine ⟨(lawful_single_iff (fun x y => ?_) rfl).mpr scalar_max, trivial⟩
    simp [value, x0, y0, env_single, evalBin]
  | Min =>
    obtain rfl := List.mem_singleton.mp hp
    refine ⟨(lawful_single_iff (fun x y => ?_) rfl).mpr scalar_min, trivial⟩
    simp [value, x0, y0, env_single, evalBin]
  | _ => cases hp

theorem convert_spec {t : IntType} {v : ValType} (h : convert_halide_type_to_val_type t = some v) :
    (v = .UInt1 → t.signed = false ∧ t.bits = 1) ∧ (v = .UInt8 → t.signed = false ∧ t.bits = 8) ∧
      (v = .UInt16 → t.signed = false ∧ t.bits = 16) ∧ (v = .UInt32 → t.signed = false ∧ t.bits = 32) := by
  unfold convert_halide_type_to_val_type at h
  split at h <;> cases h <;> simp_all

theorem lawful_clampedSum_iff {wide : IntType} (hT : T.signed = false) (hWide : wide.signed = false)
    (hBits : T.bits ≤ wide.bits) : Lawful [T] (clampedSum T wide) k ↔ Fits k [T] .Cast :=
  (lawful_single_iff (value_clampedSum hT hWide hBits) rfl).trans (scalar_clampedSum_iff hT)

theorem lawful_specific_iff {root : RootExpr} {v : ValType} {p : AssociativePattern}
    (hv : convert_halide_type_to_val_type T = some v) (hp : p ∈ populate_specific [v] root [T]) :
    Lawful [T] p k ↔ Fits k [T] root := by
  obtain ⟨h1, h8, h16, h32⟩ := convert_spec hv
  cases v with
  | UInt1 =>
    obtain ⟨hT, hBits⟩ := h1 rfl
    cases root with
    | And =>
      obtain rfl := List.mem_singleton.mp hp
      refine iff_of_true ((lawful_single_iff (fun x y => ?_) rfl).mpr (scalar_and hT hBits)) trivial
      simp [value, x0, y0, env_single, evalBin]
    | Or =>
      obtain rfl := List.mem_singleton.mp hp
      refine iff_of_true ((lawful_single_iff (fun x y => ?_) rfl).mpr (scalar_or hT hBits)) trivial
      simp [value, x0, y0, env_single, evalBin]
    | _ => cases hp
  | UInt8 =>
    obtain ⟨hT, hBits⟩ := h8 rfl
    cases root with
    | Cast =>
      simp only [populate_specific, populate_ops_table_single_uint8_cast, List.mem_cons,
        List.not_mem_nil, or_false] at hp
      rcases hp with rfl | rfl | rfl
      · exact lawful_clampedSum_iff hT rfl (hBits ▸ by decide)
      · exact lawful_clampedSum_iff hT rfl (hBits ▸ by decide)
      · exact lawful_clampedSum_iff hT rfl (hBits ▸ by decide)
    | Select => exact iff_of_false (not_lawful_saturatingSums hT (hBits ▸ by decide) hp) not_false
    | _ => cases hp
  | UInt16 =>
    obtain ⟨hT, hBits⟩ := h16 rfl
    cases root with
    | Cast =>
      simp only [populate_specific, populate_ops_table_single_uint16_cast, List.mem_cons,
        List.not_mem_nil, or_false] at hp
      rcases hp with rfl | rfl
      · exact lawful_clampedSum_iff hT rfl (hBits ▸ by decide)
      · exact lawful_clampedSum_iff hT rfl (hBits ▸ by decide)
    | Select => exact iff_of_false (not_lawful_saturatingSums hT (hBits ▸ by decide) hp) not_false
    | _ => cases hp
  | UInt32 =>
    obtain ⟨hT, hBits⟩ := h32 rfl
    cases root with
    | Cast =>
      obtain rfl := List.mem_singleton.mp hp
      exact lawful_clampedSum_iff hT rfl (hBits ▸ by decide)
    | Select => exact iff_of_false (not_lawful_saturatingSums hT (hBits ▸ by decide) hp) not_false
    | _ => cases hp
  | _ => cases root <;> cases hp

theorem lawful_double_iff {T' : IntType} {root : RootExpr} {p : AssociativePattern}
    (hp : p ∈ populate_general root [T, T']) : Lawful [T, T'] p k ↔ Fits k [T, T'] root := by
  cases root with
  | Add => exact iff_of_false (not_lawful_double_add hp) not_false
  | Max => exact iff_of_false (not_lawful_double_max hp) not_false
  | Min => exact iff_of_false (not_lawful_double_min hp) not_false
  | Sub => exact iff_of_true (lawful_double_sub hp) trivial
  | _ => cases hp

/-- An entry of the table is what it is used as exactly for these keys and constants. -/
theorem table_lawful_iff {types : List IntType} {root : RootExpr} {table : List AssociativePattern}
    (hTable : get_ops_table_helper types root = some table) {p : AssociativePattern} (hp : p ∈ table)
    (k : Int) : Lawful types p k ↔ Fits k types root := by
  simp only [get_ops_table_helper, Option.bind_eq_bind, Option.bind_eq_some_iff, Option.pure_def,
    Option.some.injEq] at hTable
  obtain ⟨val_types, hTypes, rfl⟩ := hTable
  rcases types with _ | ⟨T, _ | ⟨T', _ | ⟨T'', types⟩⟩⟩
  · cases root <;> simp [populate_general, populate_specific] at hp
  · simp only [List.mapM_cons, List.mapM_nil, Option.pure_def, Option.bind_eq_bind,
      Option.bind_some, Option.bind_eq_some_iff, Option.some.injEq] at hTypes
    obtain ⟨v, hv, rfl⟩ := hTypes
    rcases List.mem_append.mp hp with hp | hp
    · obtain ⟨hLawful, hFits⟩ := lawful_general_single (k := k) hp
      exact iff_of_true hLawful hFits
    · exact lawful_specific_iff hv hp
  · have hSpecific : populate_specific val_types root [T, T'] = [] := by
      unfold populate_specific
      split <;> first | rfl | simp_all
    rw [hSpecific, List.append_nil] at hp
    exact lawful_double_iff hp
  · cases root <;> simp [populate_general, populate_specific] at hp

def uint8 : IntType := .uint8

theorem table_lawful_iff_complex : ∃ table, get_ops_table_helper [.int32, .int32] .Sub = some table ∧
    table.length = 2 ∧ ∀ p ∈ table, Lawful [.int32, .int32] p 0 := by
  have hTable : get_ops_table_helper [.int32, .int32] .Sub =
      some (populate_ops_table_double_general_sub .int32 .int32) := rfl
  exact ⟨_, hTable, rfl, fun p hp => (table_lawful_iff hTable hp 0).mpr trivial⟩

/-- The first entry for a saturating sum of bytes makes zero of one and its identity. -/
theorem saturating_sum_loses : ∃ table p, get_ops_table_helper [uint8] .Select = some table ∧
    p ∈ table ∧ p.identity = some [0] ∧ p.apply 0 [1] [0] = some [0] ∧ ¬ Lawful [uint8] p 0 := by
  refine ⟨_, _, rfl, List.mem_cons_self, rfl, rfl, ?_⟩
  exact not_lawful_saturatingSums rfl (by decide) List.mem_cons_self

end Vyasa.Associative
