import Vyasa.IREquality.Order
import Mathlib.Tactic.Common

/-! Which trees the deep comparison tells from all others: those without a float, a loop, an
allocation and a realization. -/
namespace Vyasa.IREquality

open Compare

variable {memory : Nat → Option Tree} {a b c : Tree}

/-! ### Trees found equal -/

mutual

/-- A tree without the addresses of its nodes. -/
def Tree.shape : Tree → Tree
  | .undefined => .undefined
  | .node _ node_type rest type fields => .node 0 node_type rest type fields.shape

def Fields.shape : Fields → Fields
  | .nil => .nil
  | .scalar s rest => .scalar s rest.shape
  | .child t rest => .child t.shape rest.shape

end

/-- The nodes with fields that are not compared. -/
def IRNodeType.Blind (t : IRNodeType) : Prop := t = .For ∨ t = .Allocate ∨ t = .Realize

mutual

/-- There is no float, loop, allocation or realization in the tree. -/
def Tree.Distinguished : Tree → Prop
  | .undefined => True
  | .node _ node_type _ _ fields => ¬ node_type.Blind ∧ fields.Distinguished

def Fields.Distinguished : Fields → Prop
  | .nil => True
  | .scalar s rest => (∀ x, s ≠ .float x) ∧ rest.Distinguished
  | .child t rest => t.Distinguished ∧ rest.Distinguished

end

theorem IRNodeType.rest_eq {t : IRNodeType} (h : ¬ t.Blind) (r r' : Uncompared t) : r = r' := by
  cases t <;> first | rfl | exact absurd (by simp [IRNodeType.Blind]) h

theorem eq_of_compareNodeType {t t' : IRNodeType} (h : compareNodeType t t' = .eq) : t = t' := by
  simp only [compareNodeType, compareBy_lt_eq_cmp, cmp_eq_eq_iff] at h
  have hInj : ∀ u : IRNodeType, IRNodeType.ofNat u.ctorIdx = u := by
    intro u
    cases u <;> rfl
  rw [← hInj t, h, hInj t']

theorem Scalar.nat_inj {n m : Nat} : Scalar.nat n = Scalar.nat m ↔ n = m := by
  rw [Scalar.nat, Scalar.nat, Scalar.int.injEq]
  exact Int.ofNat_inj

theorem ReferenceType.ctorIdx_inj {r r' : ReferenceType} (h : r.ctorIdx = r'.ctorIdx) : r = r' := by
  cases r <;> cases r' <;> first | rfl | cases h

theorem CPPTypeType.ctorIdx_inj {t t' : CPPTypeType} (h : t.ctorIdx = t'.ctorIdx) : t = t' := by
  cases t <;> cases t' <;> first | rfl | cases h

theorem TypeCode.ctorIdx_inj {t t' : TypeCode} (h : t.ctorIdx = t'.ctorIdx) : t = t' := by
  cases t <;> cases t' <;> first | rfl | cases h

theorem enclosing_injective {l l' : List CPlusPlusTypeName}
    (h : (l.flatMap fun t => [Scalar.nat t.cpp_type_type.ctorIdx, .name t.name]) =
      l'.flatMap fun t => [Scalar.nat t.cpp_type_type.ctorIdx, .name t.name]) : l = l' := by
  induction l generalizing l' with
  | nil =>
    cases l' with
    | nil => rfl
    | cons b l' => simp at h
  | cons a l ih =>
    cases l' with
    | nil => simp at h
    | cons b l' =>
      simp only [List.flatMap_cons, List.cons_append, List.nil_append, List.cons.injEq,
        Scalar.nat_inj, Scalar.name.injEq] at h
      obtain ⟨hType, hName, hRest⟩ := h
      have hHead : a = b := by
        cases a
        cases b
        exact congrArg₂ CPlusPlusTypeName.mk (CPPTypeType.ctorIdx_inj hType) hName
      rw [ih hRest, hHead]

theorem HandleCPlusPlusType.scalars_injective {h h' : HandleCPlusPlusType}
    (hEq : h.scalars = h'.scalars) : h = h' := by
  obtain ⟨⟨type, name⟩, namespaces, enclosing, modifiers, reference⟩ := h
  obtain ⟨⟨type', name'⟩, namespaces', enclosing', modifiers', reference'⟩ := h'
  simp only [HandleCPlusPlusType.scalars, List.cons_append, List.nil_append, List.append_assoc,
    List.cons.injEq, Scalar.nat_inj, Scalar.name.injEq] at hEq
  obtain ⟨hReference, hName, hType, hNamespaces, hEnclosing, hModifiers, hLists⟩ := hEq
  -- The lengths are equal, so the three lists are.
  obtain ⟨hFirst, hLists⟩ := List.append_inj hLists (by simp [hNamespaces])
  obtain ⟨hSecond, hThird⟩ := List.append_inj' hLists (by simp [hModifiers])
  have hNames : namespaces = namespaces' :=
    List.map_injective_iff.mpr (fun _ _ => Scalar.name.inj) hFirst
  have hMasks : modifiers = modifiers' :=
    List.map_injective_iff.mpr (fun _ _ => Scalar.nat_inj.mp) hThird
  rw [ReferenceType.ctorIdx_inj hReference, hName, CPPTypeType.ctorIdx_inj hType, hNames,
    enclosing_injective hSecond, hMasks]

theorem Ty.scalars_injective {t t' : Ty} (h : t.scalars = t'.scalars) : t = t' := by
  obtain ⟨code, bits, lanes, handle⟩ := t
  obtain ⟨code', bits', lanes', handle'⟩ := t'
  simp only [Ty.scalars, List.cons_append, List.nil_append, List.cons.injEq, Scalar.nat_inj] at h
  obtain ⟨hCode, hBits, hLanes, hHandle⟩ := h
  have hSame : handle = handle' := by
    cases handle <;> cases handle' <;> simp [Scalar.nat_inj] at hHandle ⊢
    exact HandleCPlusPlusType.scalars_injective hHandle
  rw [TypeCode.ctorIdx_inj hCode, hBits, hLanes, hSame]

theorem eq_of_compare_types {t t' : Option Ty} (h : compare_types t t' = .eq) : t = t' := by
  have hEq := eq_of_compareScalars (typeScalars_not_float t) h
  cases t <;> cases t' <;> simp [Ty.scalars] at hEq ⊢
  · exact Ty.scalars_injective (by simpa [Ty.scalars] using hEq)

mutual

/-- A distinguished tree is found equal only to trees like it. -/
theorem Tree.shape_eq_of_order : ∀ {a b : Tree}, a.Distinguished → a.order b = .eq → b.shape = a.shape
  | .undefined, .undefined, _, _ => rfl
  | .undefined, .node .., _, h => by simp [Tree.order] at h
  | .node .., .undefined, _, h => by simp [Tree.order] at h
  | .node _ t r ty fields, .node _ t' r' ty' fields', ha, h => by
    simp only [Tree.order, Ordering.then_eq_eq] at h
    obtain ⟨hNode, hType, hFields⟩ := h
    obtain rfl := eq_of_compareNodeType hNode
    rw [Tree.shape, Tree.shape, Fields.shape_eq_of_order ha.2 hFields, eq_of_compare_types hType,
      IRNodeType.rest_eq ha.1 r r']

theorem Fields.shape_eq_of_order : ∀ {a b : Fields}, a.Distinguished → a.order b = .eq →
    b.shape = a.shape
  | .nil, .nil, _, _ => rfl
  | .nil, .scalar .., _, h => by simp [Fields.order] at h
  | .nil, .child .., _, h => by simp [Fields.order] at h
  | .scalar .., .nil, _, h => by simp [Fields.order] at h
  | .scalar s rest, .scalar s' rest', ha, h => by
    simp only [Fields.order, Ordering.then_eq_eq] at h
    rw [Fields.shape, Fields.shape, Fields.shape_eq_of_order ha.2 h.2, Scalar.eq_of_compare ha.1 h.1]
  | .scalar .., .child .., _, h => by simp [Fields.order] at h
  | .child .., .nil, _, h => by simp [Fields.order] at h
  | .child .., .scalar .., _, h => by simp [Fields.order] at h
  | .child t rest, .child t' rest', ha, h => by
    simp only [Fields.order, Ordering.then_eq_eq] at h
    rw [Fields.shape, Fields.shape, Tree.shape_eq_of_order ha.1 h.1,
      Fields.shape_eq_of_order ha.2 h.2]

end

/-! ### A tree taken for another one -/

/-- NaN, or zero for NaN. -/
def F64.other (x : F64) : F64 := if x.isNaN then .zero else .nan

theorem F64.isNaN_nan : F64.nan.isNaN = true := by decide

theorem F64.isNaN_zero : F64.zero.isNaN = false := by decide

theorem F64.isNaN_other (x : F64) : x.other.isNaN = !x.isNaN := by
  cases h : x.isNaN <;> simp [F64.other, h, F64.isNaN_nan, F64.isNaN_zero]

theorem F64.other_ne (x : F64) : x.other ≠ x := by
  intro h
  have hNaN := x.isNaN_other
  rw [h] at hNaN
  simp at hNaN

theorem F64.compareBy_other (x : F64) : compareBy F64.less x x.other = .eq := by
  have hNaN := x.isNaN_other
  cases h : x.isNaN <;> simp [compareBy, F64.less, h, hNaN]

def Scalar.other : Scalar → Scalar
  | .float x => .float x.other
  | s => s

theorem Scalar.compare_other (s : Scalar) : s.compare s.other = .eq := by
  cases s with
  | float x => exact x.compareBy_other
  | _ => exact Scalar.compare_self _

def MemoryType.other (m : MemoryType) : MemoryType := if m = .Auto then .Heap else .Auto

theorem MemoryType.other_ne (m : MemoryType) : m.other ≠ m := by
  cases m <;> decide

def DeviceAPI.other (d : DeviceAPI) : DeviceAPI := if d = .None then .Host else .None

theorem DeviceAPI.other_ne (d : DeviceAPI) : d.other ≠ d := by
  cases d <;> decide

/-- Another device for a loop and another memory for an allocation or a realization. -/
def Uncompared.other : (t : IRNodeType) → Uncompared t → Uncompared t
  | .For, d => DeviceAPI.other d
  | .Allocate, (type, m) => (type, MemoryType.other m)
  | .Realize, m => MemoryType.other m
  | _, r => r

theorem Uncompared.other_ne {t : IRNodeType} (h : t.Blind) (r : Uncompared t) :
    Uncompared.other t r ≠ r := by
  rcases h with rfl | rfl | rfl
  · exact DeviceAPI.other_ne r
  · intro hEq
    exact MemoryType.other_ne r.2 (congrArg Prod.snd hEq)
  · exact MemoryType.other_ne r

mutual

/-- Other values for all that is not told apart, at other addresses. -/
def Tree.other (shift : Nat) : Tree → Tree
  | .undefined => .undefined
  | .node addr node_type rest type fields =>
      .node (addr + shift) node_type (Uncompared.other node_type rest) type (fields.other shift)

def Fields.other (shift : Nat) : Fields → Fields
  | .nil => .nil
  | .scalar s rest => .scalar s.other (rest.other shift)
  | .child t rest => .child (t.other shift) (rest.other shift)

end

mutual

theorem Tree.order_other (shift : Nat) : ∀ a : Tree, a.order (a.other shift) = .eq
  | .undefined => rfl
  | .node _ node_type _ type fields => by
    have hType : compareNodeType node_type node_type = .eq := by simp [compareNodeType, compareBy]
    simp [Tree.other, Tree.order, hType, compare_types, compareScalars_self, fields.order_other shift]

theorem Fields.order_other (shift : Nat) : ∀ a : Fields, a.order (a.other shift) = .eq
  | .nil => rfl
  | .scalar s rest => by simp [Fields.other, Fields.order, s.compare_other, rest.order_other shift]
  | .child t rest => by
    simp [Fields.other, Fields.order, t.order_other shift, rest.order_other shift]

end

mutual

/-- A tree with a float, a loop, an allocation or a realization differs from its other. -/
theorem Tree.distinguished_of_other {shift : Nat} : ∀ {a : Tree}, (a.other shift).shape = a.shape →
    a.Distinguished
  | .undefined, _ => trivial
  | .node _ node_type rest _ fields, h => by
    simp only [Tree.other, Tree.shape, Tree.node.injEq, heq_eq_eq, true_and] at h
    exact ⟨fun hBlind => Uncompared.other_ne hBlind rest h.1, Fields.distinguished_of_other h.2⟩

theorem Fields.distinguished_of_other {shift : Nat} : ∀ {a : Fields},
    (a.other shift).shape = a.shape → a.Distinguished
  | .nil, _ => trivial
  | .scalar s rest, h => by
    simp only [Fields.other, Fields.shape, Fields.scalar.injEq] at h
    refine ⟨?_, Fields.distinguished_of_other h.2⟩
    rintro x rfl
    exact x.other_ne (Scalar.float.inj h.1)
  | .child t rest, h => by
    simp only [Fields.other, Fields.shape, Fields.child.injEq] at h
    exact ⟨Tree.distinguished_of_other h.1, Fields.distinguished_of_other h.2⟩

end

mutual

/-- A bound on the addresses of a tree. -/
def Tree.span : Tree → Nat
  | .undefined => 0
  | .node addr _ _ _ fields => max (addr + 1) fields.span

def Fields.span : Fields → Nat
  | .nil => 0
  | .scalar _ rest => rest.span
  | .child t rest => max t.span rest.span

end

/-- The memory with the other of each of its trees, from an address on. -/
def doubled (memory : Nat → Option Tree) (n addr : Nat) : Option Tree :=
  if addr < n then memory addr else (memory (addr - n)).map (Tree.other n)

mutual

theorem Tree.lives_doubled {n : Nat} : ∀ {a : Tree}, a.Lives memory → a.span ≤ n →
    a.Lives (doubled memory n) ∧ (a.other n).Lives (doubled memory n)
  | .undefined, _, _ => ⟨trivial, trivial⟩
  | .node addr node_type rest type fields, ha, hSpan => by
    simp only [Tree.span, Nat.max_le] at hSpan
    obtain ⟨hFields, hOther⟩ := Fields.lives_doubled ha.2 hSpan.2
    refine ⟨⟨?_, hFields⟩, ?_, hOther⟩
    · rw [doubled, if_pos (by omega)]
      exact ha.1
    · rw [doubled, if_neg (by omega), Nat.add_sub_cancel, ha.1]
      rfl

theorem Fields.lives_doubled {n : Nat} : ∀ {a : Fields}, a.Lives memory → a.span ≤ n →
    a.Lives (doubled memory n) ∧ (a.other n).Lives (doubled memory n)
  | .nil, _, _ => ⟨trivial, trivial⟩
  | .scalar _ rest, ha, hSpan => Fields.lives_doubled (a := rest) ha hSpan
  | .child t rest, ha, hSpan => by
    simp only [Fields.span, Nat.max_le] at hSpan
    obtain ⟨hTree, hTreeOther⟩ := Tree.lives_doubled ha.1 hSpan.1
    obtain ⟨hRest, hRestOther⟩ := Fields.lives_doubled ha.2 hSpan.2
    exact ⟨⟨hTree, hRest⟩, hTreeOther, hRestOther⟩

end

/-! ### The order -/

/-- Neither of two trees comes before the other. -/
def Incomparable (a b : Tree) : Prop := IRDeepCompare a b = false ∧ IRDeepCompare b a = false

/-- What is asked of the comparison where a tree takes part: that the cache does not change
it, the laws of a strict weak order, and that the trees incomparable with this one are like
it. -/
structure Tree.Ordered (memory : Nat → Option Tree) (t : Tree) : Prop where
  cached : ∀ u, u.Lives memory → ∀ cache : IRCompareCache, cache.Valid memory →
    (t.compareCached u cache).1 = t.compare u ∧ (t.compareCached u cache).2.Valid memory ∧
      (u.compareCached t cache).1 = u.compare t ∧ (u.compareCached t cache).2.Valid memory
  irreflexive : IRDeepCompare t t = false
  transitive : ∀ u v, u.Lives memory → v.Lives memory →
    (IRDeepCompare t u → IRDeepCompare u v → IRDeepCompare t v) ∧
      (IRDeepCompare u t → IRDeepCompare t v → IRDeepCompare u v) ∧
      (IRDeepCompare u v → IRDeepCompare v t → IRDeepCompare u t)
  incomparable : ∀ u v, u.Lives memory → v.Lives memory →
    (Incomparable t u → Incomparable u v → Incomparable t v) ∧
      (Incomparable u t → Incomparable t v → Incomparable u v)
  equal : ∀ u, u.Lives memory → (equal t u = true ↔ Incomparable t u)
  identical : ∀ u, u.Lives memory → Incomparable t u → u.shape = t.shape

theorem deepCompare_eq_order (ha : a.Lives memory) (hb : b.Lives memory) :
    IRDeepCompare a b = true ↔ a.order b = .lt := by
  rw [IRDeepCompare, Tree.compare_eq_order ha hb, beq_iff_eq]

theorem incomparable_iff (ha : a.Lives memory) (hb : b.Lives memory) :
    Incomparable a b ↔ a.order b = .eq := by
  have hSwap := Tree.order_swap a b
  rw [Incomparable, ← Bool.not_eq_true, ← Bool.not_eq_true, deepCompare_eq_order ha hb,
    deepCompare_eq_order hb ha, ← hSwap]
  cases a.order b <;> simp

/-- The laws of the order for three trees whose comparisons fit together. -/
theorem deepCompare_trans (ha : a.Lives memory) (hb : b.Lives memory) (hc : c.Lives memory)
    (h : Coherent (a.order b) (b.order c) (a.order c)) :
    (IRDeepCompare a b → IRDeepCompare b c → IRDeepCompare a c) ∧
      (Incomparable a b → Incomparable b c → Incomparable a c) := by
  rw [deepCompare_eq_order ha hb, deepCompare_eq_order hb hc, deepCompare_eq_order ha hc,
    incomparable_iff ha hb, incomparable_iff hb hc, incomparable_iff ha hc]
  refine ⟨fun hab hbc => ?_, fun hab hbc => ?_⟩
  · rw [h.2.2 (hab.trans hbc.symm), hab]
  · rw [h.1 hab, hbc]

mutual

theorem Tree.all_trivial : ∀ a : Tree, a.All fun _ => True
  | .undefined => trivial
  | .node _ _ _ _ fields => fields.all_trivial

theorem Fields.all_trivial : ∀ a : Fields, a.All fun _ => True
  | .nil => trivial
  | .scalar _ rest => ⟨trivial, rest.all_trivial⟩
  | .child t rest => ⟨t.all_trivial, rest.all_trivial⟩

end

mutual

theorem Tree.Distinguished.all : ∀ {a : Tree}, a.Distinguished → a.All fun s => ∀ x, s ≠ .float x
  | .undefined, _ => trivial
  | .node _ _ _ _ _, h => h.2.all

theorem Fields.Distinguished.all : ∀ {a : Fields}, a.Distinguished →
    a.All fun s => ∀ x, s ≠ .float x
  | .nil, _ => trivial
  | .scalar _ _, h => ⟨h.1, h.2.all⟩
  | .child _ _, h => ⟨h.1.all, h.2.all⟩

end

/-- A tree without floats fits between any two others. -/
theorem Tree.Distinguished.coherent (ha : a.Distinguished) (b c : Tree) :
    Coherent (a.order b) (b.order c) (a.order c) ∧ Coherent (b.order a) (a.order c) (b.order c) ∧
      Coherent (b.order c) (c.order a) (b.order a) := by
  refine ⟨?_, ?_, ?_⟩
  · exact Tree.order_coherent (fun _ _ _ h _ _ => Or.inl h) a b c ha.all b.all_trivial c.all_trivial
  · exact Tree.order_coherent (fun _ _ _ _ h _ => Or.inr (Or.inl h)) b a c b.all_trivial ha.all
      c.all_trivial
  · exact Tree.order_coherent (fun _ _ _ _ _ h => Or.inr (Or.inr (Or.inl h))) b c a b.all_trivial
      c.all_trivial ha.all

theorem Tree.Distinguished.ordered (ha : a.Distinguished) (hLives : a.Lives memory) :
    a.Ordered memory := by
  refine ⟨fun u hu cache hCache => ?_, ?_, fun u v hu hv => ?_, fun u v hu hv => ?_, fun u hu => ?_,
    fun u hu h => ?_⟩
  · obtain ⟨hLeft, hLeftValid⟩ := Tree.compareCached_spec hLives hu hCache
    obtain ⟨hRight, hRightValid⟩ := Tree.compareCached_spec hu hLives hCache
    rw [Tree.compare_eq_order hLives hu, Tree.compare_eq_order hu hLives]
    exact ⟨hLeft, hLeftValid, hRight, hRightValid⟩
  · rw [← Bool.not_eq_true, deepCompare_eq_order hLives hLives, Tree.order_self]
    simp
  · obtain ⟨hFirst, hSecond, hThird⟩ := ha.coherent u v
    exact ⟨(deepCompare_trans hLives hu hv hFirst).1, (deepCompare_trans hu hLives hv hSecond).1,
      (deepCompare_trans hu hv hLives hThird).1⟩
  · obtain ⟨hFirst, hSecond, -⟩ := ha.coherent u v
    exact ⟨(deepCompare_trans hLives hu hv hFirst).2, (deepCompare_trans hu hLives hv hSecond).2⟩
  · rw [incomparable_iff hLives hu, IREquality.equal, Tree.compare_eq_order hLives hu, beq_iff_eq]
  · exact Tree.shape_eq_of_order ha ((incomparable_iff hLives hu).mp h)

/-- No field is NaN. -/
def Tree.NoNaN (t : Tree) : Prop := t.All fun s => ∀ x, s = .float x → x.isNaN = false

/-- A variable at an address. -/
def variableAt (addr : Nat) (name : String) : Tree :=
  (Node.Variable ⟨.int, 32, 1, none⟩ name).make addr

/-- A float constant at an address. -/
def floatAt (addr : Nat) (value : F64) : Tree :=
  (Node.FloatImm ⟨.float, 64, 1, none⟩ value).make addr

/-- A loop without a body at an address, on a device. -/
def loopAt (addr : Nat) (device_api : DeviceAPI) : Tree :=
  (Node.For "x" .undefined .undefined .Serial device_api .undefined).make addr

/-- An allocation of one element at an address. -/
def allocationAt (addr : Nat) (type : Ty) : Tree :=
  (Node.Allocate "f" type .Auto [] .undefined .undefined "" .undefined).make addr

end Vyasa.IREquality
