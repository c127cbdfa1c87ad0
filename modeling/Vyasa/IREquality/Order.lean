import Vyasa.IREquality.Compare

/-! The deep comparison compares trees part by part. It is a weak order where no NaN is
met, and it agrees with itself with and without the cache. -/
namespace Vyasa.IREquality

open Compare

/-! ### Fields -/

/-- The three fields are not all floats, or none of them is NaN. -/
def Scalar.Fit (a b c : Scalar) : Prop :=
  (∀ x, a ≠ .float x) ∨ (∀ x, b ≠ .float x) ∨ (∀ x, c ≠ .float x) ∨
    ∀ x, (a = .float x ∨ b = .float x ∨ c = .float x) → x.isNaN = false

theorem compareBy_lt_eq_cmp {α : Type*} [LinearOrder α] (a b : α) :
    compareBy (fun x y => decide (x < y)) a b = cmp a b :=
  compareBy_eq_cmp id fun x y _ _ => by simp

theorem F64.compareBy_less {x y : F64} (hx : x.isNaN = false) (hy : y.isNaN = false) :
    compareBy F64.less x y = cmp x.key y.key := by
  refine compareBy_eq_cmp F64.key fun u v hu hv => ?_
  have hNaN : ∀ z, z = x ∨ z = y → z.isNaN = false := by
    rintro z (rfl | rfl)
    · exact hx
    · exact hy
  simp [F64.less, hNaN u hu, hNaN v hv]

theorem Scalar.compare_of_rank_lt (a b : Scalar) (h : a.rank < b.rank) : a.compare b = .lt := by
  cases a <;> cases b <;> first | rfl | simp [Scalar.rank] at h

theorem Scalar.compare_of_rank_gt (a b : Scalar) (h : b.rank < a.rank) : a.compare b = .gt := by
  cases a <;> cases b <;> first | rfl | simp [Scalar.rank] at h

theorem Scalar.coherent {a b c : Scalar} (h : Scalar.Fit a b c) :
    Coherent (a.compare b) (b.compare c) (a.compare c) := by
  refine coherent_of_rank Scalar.rank compare_of_rank_lt compare_of_rank_gt fun hab hbc => ?_
  cases a with
  | int a =>
    cases b <;> simp [Scalar.rank] at hab
    cases c <;> simp [Scalar.rank] at hbc
    simp only [Scalar.compare, compareBy_lt_eq_cmp]
    exact coherent_cmp _ _ _
  | float a =>
    cases b <;> simp [Scalar.rank] at hab
    cases c <;> simp [Scalar.rank] at hbc
    rename_i b c
    have hNaN : ∀ x, x = a ∨ x = b ∨ x = c → x.isNaN = false := by
      rcases h with h | h | h | h
      · exact absurd rfl (h a)
      · exact absurd rfl (h b)
      · exact absurd rfl (h c)
      · rintro x (rfl | rfl | rfl)
        · exact h x (Or.inl rfl)
        · exact h x (Or.inr (Or.inl rfl))
        · exact h x (Or.inr (Or.inr rfl))
    have hA := hNaN a (Or.inl rfl)
    have hB := hNaN b (Or.inr (Or.inl rfl))
    have hC := hNaN c (Or.inr (Or.inr rfl))
    simp only [Scalar.compare, F64.compareBy_less hA hB, F64.compareBy_less hB hC,
      F64.compareBy_less hA hC]
    exact coherent_cmp _ _ _
  | name a =>
    cases b <;> simp [Scalar.rank] at hab
    cases c <;> simp [Scalar.rank] at hbc
    simp only [Scalar.compare, compareBy_lt_eq_cmp]
    exact coherent_cmp _ _ _
  | reversed a =>
    cases b <;> simp [Scalar.rank] at hab
    cases c <;> simp [Scalar.rank] at hbc
    simp only [Scalar.compare, compareBy_lt_eq_cmp]
    have hReversed := fun x y z : String => (coherent_cmp x y z).reverse
    simp only [cmp_swap] at hReversed
    exact hReversed _ _ _

theorem F64.less_asymm (x y : F64) (h : x.less y = true) : y.less x = false := by
  simp only [F64.less, Bool.and_eq_true, decide_eq_true_eq] at h
  have hNot : ¬ y.key < x.key := by omega
  simp [F64.less, hNot]

theorem Scalar.compare_swap (a b : Scalar) : (a.compare b).swap = b.compare a := by
  cases a <;> cases b <;> simp only [Scalar.compare, compareBy_lt_eq_cmp, cmp_swap]
  case float.float x y => exact compareBy_swap F64.less_asymm x y

theorem Scalar.compare_self (a : Scalar) : a.compare a = .eq := by
  cases a with
  | float x =>
    have hNot : x.less x = false := by
      simp [F64.less]
    simp [Scalar.compare, compareBy, hNot]
  | _ => simp [Scalar.compare, compareBy]

/-- Fields that are not floats are found equal only if they are. -/
theorem Scalar.eq_of_compare {a b : Scalar} (ha : ∀ x, a ≠ .float x) (h : a.compare b = .eq) :
    a = b := by
  cases a <;> cases b <;>
    simp only [Scalar.compare, Scalar.rank, compareBy_lt_eq_cmp, cmp_eq_eq_iff] at h
  case float.float x y => exact absurd rfl (ha x)
  all_goals first | rw [h] | simp at h

/-! ### Types -/

section Types

variable {l l' l'' : List Scalar}

theorem compareScalars_self (l : List Scalar) : compareScalars l l = .eq := by
  induction l with
  | nil => rfl
  | cons a l ih => simp [compareScalars, Scalar.compare_self, ih]

theorem compareScalars_swap (l l' : List Scalar) :
    (compareScalars l l').swap = compareScalars l' l := by
  induction l generalizing l' with
  | nil => cases l' <;> rfl
  | cons a l ih =>
    cases l' with
    | nil => rfl
    | cons b l' => rw [compareScalars, compareScalars, Ordering.swap_then, Scalar.compare_swap, ih l']

theorem compareScalars_coherent (hl : ∀ a ∈ l, ∀ x, a ≠ .float x) :
    Coherent (compareScalars l l') (compareScalars l' l'') (compareScalars l l'') := by
  induction l generalizing l' l'' with
  | nil => cases l' <;> cases l'' <;> simp [Coherent, compareScalars]
  | cons a l ih =>
    cases l' with
    | nil => cases l'' <;> simp [Coherent, compareScalars]
    | cons b l' =>
      cases l'' with
      | nil => simp [Coherent, compareScalars]; exact Eq.symm
      | cons c l'' =>
        have hHead : Scalar.Fit a b c := Or.inl (hl a List.mem_cons_self)
        exact (Scalar.coherent hHead).then (ih fun d hd => hl d (List.mem_cons_of_mem a hd))

theorem eq_of_compareScalars (hl : ∀ a ∈ l, ∀ x, a ≠ .float x) (h : compareScalars l l' = .eq) :
    l = l' := by
  induction l generalizing l' with
  | nil =>
    cases l' with
    | nil => rfl
    | cons b l' => simp [compareScalars] at h
  | cons a l ih =>
    cases l' with
    | nil => simp [compareScalars] at h
    | cons b l' =>
      rw [compareScalars, Ordering.then_eq_eq] at h
      rw [Scalar.eq_of_compare (hl a List.mem_cons_self) h.1,
        ih (fun d hd => hl d (List.mem_cons_of_mem a hd)) h.2]

/-- A type has no float among its fields. -/
theorem Ty.not_float (t : Ty) : ∀ a ∈ t.scalars, ∀ x, a ≠ .float x := by
  rintro a ha x rfl
  cases h : t.handle_type with
  | none => simp [Ty.scalars, h, Scalar.nat] at ha
  | some handle => simp [Ty.scalars, h, Scalar.nat, HandleCPlusPlusType.scalars] at ha

theorem typeScalars_not_float (t : Option Ty) :
    ∀ a ∈ (t.map Ty.scalars).getD [], ∀ x, a ≠ .float x := by
  cases t with
  | none => simp
  | some t => exact t.not_float

end Types

/-! ### Trees -/

mutual

/-- The deep comparison as if no object were referred to twice. -/
def Tree.order : Tree → Tree → Ordering
  | .undefined, .undefined => .eq
  | .undefined, .node .. => .lt
  | .node .., .undefined => .gt
  | .node _ node_type _ type fields, .node _ node_type' _ type' fields' =>
      (compareNodeType node_type node_type').then <|
        (compare_types type type').then (fields.order fields')

def Fields.order : Fields → Fields → Ordering
  | .nil, .nil => .eq
  | .nil, _ => .lt
  | .scalar .., .nil => .gt
  | .scalar s rest, .scalar s' rest' => (s.compare s').then (rest.order rest')
  | .scalar .., .child .. => .lt
  | .child t rest, .child t' rest' => (t.order t').then (rest.order rest')
  | .child .., _ => .gt

end

mutual

theorem Tree.order_self : ∀ a : Tree, a.order a = .eq
  | .undefined => rfl
  | .node _ node_type _ type fields => by
    have hType : compareNodeType node_type node_type = .eq := by simp [compareNodeType, compareBy]
    simp [Tree.order, hType, compare_types, compareScalars_self, fields.order_self]

theorem Fields.order_self : ∀ a : Fields, a.order a = .eq
  | .nil => rfl
  | .scalar s rest => by simp [Fields.order, Scalar.compare_self, rest.order_self]
  | .child t rest => by simp [Fields.order, t.order_self, rest.order_self]

end

theorem compareNodeType_swap (a b : IRNodeType) :
    (compareNodeType a b).swap = compareNodeType b a := by
  simp only [compareNodeType, compareBy_lt_eq_cmp, cmp_swap]

mutual

theorem Tree.order_swap : ∀ a b : Tree, (a.order b).swap = b.order a
  | .undefined, .undefined => rfl
  | .undefined, .node .. => rfl
  | .node .., .undefined => rfl
  | .node _ node_type _ type fields, .node _ node_type' _ type' fields' => by
    simp only [Tree.order, Ordering.swap_then, compareNodeType_swap, compare_types,
      compareScalars_swap, fields.order_swap fields']

theorem Fields.order_swap : ∀ a b : Fields, (a.order b).swap = b.order a
  | .nil, .nil => rfl
  | .nil, .scalar .. => rfl
  | .nil, .child .. => rfl
  | .scalar .., .nil => rfl
  | .scalar s rest, .scalar s' rest' => by
    simp only [Fields.order, Ordering.swap_then, Scalar.compare_swap, rest.order_swap rest']
  | .scalar .., .child .. => rfl
  | .child .., .nil => rfl
  | .child .., .scalar .. => rfl
  | .child t rest, .child t' rest' => by
    simp only [Fields.order, Ordering.swap_then, t.order_swap t', rest.order_swap rest']

end

mutual

/-- Every field that is not a tree has a property. -/
def Tree.All (p : Scalar → Prop) : Tree → Prop
  | .undefined => True
  | .node _ _ _ _ fields => fields.All p

def Fields.All (p : Scalar → Prop) : Fields → Prop
  | .nil => True
  | .scalar s rest => p s ∧ rest.All p
  | .child t rest => t.All p ∧ rest.All p

end

def Tree.rank : Tree → Nat
  | .undefined => 0
  | .node .. => 1

def Fields.rank : Fields → Nat
  | .nil => 0
  | .scalar .. => 1
  | .child .. => 2

theorem Tree.order_of_rank_lt (a b : Tree) (h : a.rank < b.rank) : a.order b = .lt := by
  cases a <;> cases b <;> first | rfl | simp [Tree.rank] at h

theorem Tree.order_of_rank_gt (a b : Tree) (h : b.rank < a.rank) : a.order b = .gt := by
  cases a <;> cases b <;> first | rfl | simp [Tree.rank] at h

theorem Fields.order_of_rank_lt (a b : Fields) (h : a.rank < b.rank) : a.order b = .lt := by
  cases a <;> cases b <;> first | rfl | simp [Fields.rank] at h

theorem Fields.order_of_rank_gt (a b : Fields) (h : b.rank < a.rank) : a.order b = .gt := by
  cases a <;> cases b <;> first | rfl | simp [Fields.rank] at h

theorem compareNodeType_coherent (a b c : IRNodeType) :
    Coherent (compareNodeType a b) (compareNodeType b c) (compareNodeType a c) := by
  simp only [compareNodeType, compareBy_lt_eq_cmp]
  exact coherent_cmp _ _ _

mutual

/-- Trees are compared as their fields are. -/
theorem Tree.order_coherent {p q r : Scalar → Prop} (hFit : ∀ a b c, p a → q b → r c → Scalar.Fit a b c)
    (a b c : Tree) (ha : a.All p) (hb : b.All q) (hc : c.All r) :
    Coherent (a.order b) (b.order c) (a.order c) := by
  refine coherent_of_rank Tree.rank Tree.order_of_rank_lt Tree.order_of_rank_gt fun hab hbc => ?_
  cases a with
  | undefined =>
    cases b <;> simp [Tree.rank] at hab
    cases c <;> simp [Tree.rank] at hbc
    exact coherent_eq
  | node _ node_type _ type fields =>
    cases b <;> simp [Tree.rank] at hab
    cases c <;> simp [Tree.rank] at hbc
    exact (compareNodeType_coherent _ _ _).then <|
      (compareScalars_coherent (typeScalars_not_float type)).then <|
        fields.order_coherent hFit _ _ ha hb hc

theorem Fields.order_coherent {p q r : Scalar → Prop}
    (hFit : ∀ a b c, p a → q b → r c → Scalar.Fit a b c) (a b c : Fields) (ha : a.All p)
    (hb : b.All q) (hc : c.All r) : Coherent (a.order b) (b.order c) (a.order c) := by
  refine coherent_of_rank Fields.rank Fields.order_of_rank_lt Fields.order_of_rank_gt
    fun hab hbc => ?_
  cases a with
  | nil =>
    cases b <;> simp [Fields.rank] at hab
    cases c <;> simp [Fields.rank] at hbc
    exact coherent_eq
  | scalar s rest =>
    cases b <;> simp [Fields.rank] at hab
    cases c <;> simp [Fields.rank] at hbc
    exact (Scalar.coherent (hFit _ _ _ ha.1 hb.1 hc.1)).then
      (rest.order_coherent hFit _ _ ha.2 hb.2 hc.2)
  | child t rest =>
    cases b <;> simp [Fields.rank] at hab
    cases c <;> simp [Fields.rank] at hbc
    exact (t.order_coherent hFit _ _ ha.1 hb.1 hc.1).then
      (rest.order_coherent hFit _ _ ha.2 hb.2 hc.2)

end

/-! ### Objects -/

mutual

/-- The memory holds the nodes of a tree, each at its address. -/
def Tree.Lives (memory : Nat → Option Tree) : Tree → Prop
  | .undefined => True
  | .node addr node_type rest type fields =>
      memory addr = some (.node addr node_type rest type fields) ∧ fields.Lives memory

def Fields.Lives (memory : Nat → Option Tree) : Fields → Prop
  | .nil => True
  | .scalar _ rest => rest.Lives memory
  | .child t rest => t.Lives memory ∧ rest.Lives memory

end

mutual

theorem Tree.Lives.mono {memory memory' : Nat → Option Tree}
    (hLe : ∀ addr t, memory addr = some t → memory' addr = some t) :
    ∀ {t : Tree}, t.Lives memory → t.Lives memory'
  | .undefined, _ => trivial
  | .node .., h => ⟨hLe _ _ h.1, Fields.Lives.mono hLe h.2⟩

theorem Fields.Lives.mono {memory memory' : Nat → Option Tree}
    (hLe : ∀ addr t, memory addr = some t → memory' addr = some t) :
    ∀ {t : Fields}, t.Lives memory → t.Lives memory'
  | .nil, _ => trivial
  | .scalar _ rest, h => Fields.Lives.mono (t := rest) hLe h
  | .child .., h => ⟨Tree.Lives.mono hLe h.1, Fields.Lives.mono hLe h.2⟩

end

variable {memory : Nat → Option Tree} {a b : Tree} {cache : IRCompareCache}

mutual

/-- What lives at one address is one tree, so that the test for one object changes
nothing. -/
theorem Tree.compare_eq_order : ∀ {a b : Tree}, a.Lives memory → b.Lives memory →
    a.compare b = a.order b
  | .undefined, .undefined, _, _ => rfl
  | .undefined, .node .., _, _ => rfl
  | .node .., .undefined, _, _ => rfl
  | .node addr _ _ _ fields, .node addr' _ _ _ fields', ha, hb => by
    by_cases hAddr : addr = addr'
    · subst hAddr
      have hEq := Option.some.inj (ha.1.symm.trans hb.1)
      rw [hEq, Tree.order_self]
      simp [Tree.compare]
    · simp only [Tree.compare, if_neg hAddr, Tree.order, Fields.compare_eq_order ha.2 hb.2]

theorem Fields.compare_eq_order : ∀ {a b : Fields}, a.Lives memory → b.Lives memory →
    a.compare b = a.order b
  | .nil, .nil, _, _ => rfl
  | .nil, .scalar .., _, _ => rfl
  | .nil, .child .., _, _ => rfl
  | .scalar .., .nil, _, _ => rfl
  | .scalar _ rest, .scalar _ rest', ha, hb => by
    have hRest : rest.compare rest' = rest.order rest' := Fields.compare_eq_order ha hb
    simp only [Fields.compare, Fields.order, hRest]
  | .scalar .., .child .., _, _ => rfl
  | .child .., .nil, _, _ => rfl
  | .child .., .scalar .., _, _ => rfl
  | .child t rest, .child t' rest', ha, hb => by
    simp only [Fields.compare, Fields.order, Tree.compare_eq_order ha.1 hb.1,
      Fields.compare_eq_order ha.2 hb.2]

end

/-- The pairs in a cache live and were found equal. -/
def IRCompareCache.Valid (memory : Nat → Option Tree) (cache : IRCompareCache) : Prop :=
  ∀ i, (cache.entries i).1.Lives memory ∧ (cache.entries i).2.Lives memory ∧
    (cache.entries i).1.order (cache.entries i).2 = .eq

theorem IRCompareCache.valid_empty (bits : Nat) : (IRCompareCache.empty bits).Valid memory :=
  fun _ => ⟨trivial, trivial, rfl⟩

theorem Tree.eq_of_same_as (ha : a.Lives memory) (hb : b.Lives memory) (h : a.same_as b = true) :
    a = b := by
  cases a <;> cases b <;> simp [Tree.same_as] at h
  · rfl
  · subst h
    exact Option.some.inj (ha.1.symm.trans hb.1)

theorem IRCompareCache.Valid.contains (h : cache.Valid memory) (ha : a.Lives memory)
    (hb : b.Lives memory) (hContains : cache.contains a b = true) : a.order b = .eq := by
  have hEntry := h (cache.hash a b)
  simp only [IRCompareCache.contains, Bool.or_eq_true, Bool.and_eq_true] at hContains
  generalize cache.entries (cache.hash a b) = e at hEntry hContains
  obtain ⟨hFirst, hSecond, hEqual⟩ := hEntry
  rcases hContains with ⟨h₁, h₂⟩ | ⟨h₁, h₂⟩
  · rw [Tree.eq_of_same_as ha hFirst h₁, Tree.eq_of_same_as hb hSecond h₂]
    exact hEqual
  · rw [Tree.eq_of_same_as ha hSecond h₁, Tree.eq_of_same_as hb hFirst h₂, ← Tree.order_swap, hEqual]
    rfl

theorem IRCompareCache.Valid.insert (h : cache.Valid memory) (ha : a.Lives memory)
    (hb : b.Lives memory) (hEqual : a.order b = .eq) : (cache.insert a b).Valid memory := by
  intro i
  by_cases hi : i = cache.hash a b
  · subst hi
    simp only [IRCompareCache.insert, Function.update_self]
    exact ⟨ha, hb, hEqual⟩
  · simp only [IRCompareCache.insert, Function.update_of_ne hi]
    exact h i

theorem IRCompareCache.Valid.remember (h : cache.Valid memory) (ha : a.Lives memory)
    (hb : b.Lives memory) (isExpr : Bool) : (cache.remember a b isExpr (a.order b)).Valid memory := by
  unfold IRCompareCache.remember
  split
  · next hEqual =>
    simp only [Bool.and_eq_true, beq_iff_eq] at hEqual
    exact h.insert ha hb hEqual.2
  · exact h

mutual

/-- The cache does not change the result, and stays valid. -/
theorem Tree.compareCached_spec : ∀ {a b : Tree} {cache : IRCompareCache}, a.Lives memory →
    b.Lives memory → cache.Valid memory →
    (a.compareCached b cache).1 = a.order b ∧ (a.compareCached b cache).2.Valid memory
  | .undefined, .undefined, _, _, _, hCache => ⟨rfl, hCache⟩
  | .undefined, .node .., _, _, _, hCache => ⟨rfl, hCache⟩
  | .node .., .undefined, _, _, _, hCache => ⟨rfl, hCache⟩
  | .node addr t r ty fields, .node addr' t' r' ty' fields', cache, ha, hb, hCache => by
    by_cases hAddr : addr = addr'
    · subst hAddr
      have hEq := Option.some.inj (ha.1.symm.trans hb.1)
      rw [hEq, Tree.order_self]
      simp [Tree.compareCached, hCache]
    · obtain ⟨hResult, hValid⟩ := Fields.compareCached_spec ha.2 hb.2 hCache
      have hOrder : (Tree.node addr t r ty fields).order (.node addr' t' r' ty' fields') =
          ((compareNodeType t t').then (compare_types ty ty')).then (fields.order fields') := by
        simp only [Tree.order, Ordering.then_assoc]
      simp only [Tree.compareCached, if_neg hAddr]
      split
      · next hSame =>
        rw [hSame, Ordering.eq_then] at hOrder
        split
        · next hContains =>
          rw [Bool.and_eq_true] at hContains
          exact ⟨(hCache.contains ha hb hContains.2).symm, hCache⟩
        · refine ⟨hResult.trans hOrder.symm, ?_⟩
          rw [hResult, ← hOrder]
          exact hValid.remember ha hb _
      · next result hDiffer =>
        refine ⟨?_, hCache⟩
        rw [hOrder]
        cases hBoth : (compareNodeType t t').then (compare_types ty ty') with
        | eq => exact absurd hBoth hDiffer
        | lt => rfl
        | gt => rfl

theorem Fields.compareCached_spec : ∀ {a b : Fields} {cache : IRCompareCache}, a.Lives memory →
    b.Lives memory → cache.Valid memory →
    (a.compareCached b cache).1 = a.order b ∧ (a.compareCached b cache).2.Valid memory
  | .nil, .nil, _, _, _, hCache => ⟨rfl, hCache⟩
  | .nil, .scalar .., _, _, _, hCache => ⟨rfl, hCache⟩
  | .nil, .child .., _, _, _, hCache => ⟨rfl, hCache⟩
  | .scalar .., .nil, _, _, _, hCache => ⟨rfl, hCache⟩
  | .scalar s rest, .scalar s' rest', cache, ha, hb, hCache => by
    obtain ⟨hResult, hValid⟩ :=
      Fields.compareCached_spec (a := rest) (b := rest') ha hb hCache
    simp only [Fields.compareCached, Fields.order]
    cases s.compare s' with
    | eq => exact ⟨hResult, hValid⟩
    | lt => exact ⟨rfl, hCache⟩
    | gt => exact ⟨rfl, hCache⟩
  | .scalar .., .child .., _, _, _, hCache => ⟨rfl, hCache⟩
  | .child .., .nil, _, _, _, hCache => ⟨rfl, hCache⟩
  | .child .., .scalar .., _, _, _, hCache => ⟨rfl, hCache⟩
  | .child t rest, .child t' rest', cache, ha, hb, hCache => by
    obtain ⟨hResult, hValid⟩ := Tree.compareCached_spec ha.1 hb.1 hCache
    obtain ⟨hResult', hValid'⟩ := Fields.compareCached_spec ha.2 hb.2 hValid
    simp only [Fields.compareCached, Fields.order, ← hResult]
    cases hFirst : t.compareCached t' cache with
    | mk result cache' =>
      rw [hFirst] at hResult' hValid hValid'
      cases result with
      | eq => exact ⟨hResult', hValid'⟩
      | lt => exact ⟨rfl, hValid⟩
      | gt => exact ⟨rfl, hValid⟩

end

end Vyasa.IREquality
