import Vyasa.CSE.Graph
import Vyasa.IREquality.Distinguished

/-! Where no two constants are confused, expressions that compare equal are the same term. -/
namespace Vyasa.CSE

open IREquality Binding Compare

/-- The comparison tells these floats apart. -/
def Exact (floats : Set F64) : Prop :=
  ∀ x ∈ floats, ∀ y ∈ floats, compareBy F64.less x y = .eq → x = y

/-- A constant of type float is one of these. -/
def Op.FloatIn (floats : Set F64) : Op → Prop
  | FloatImm _ value => value ∈ floats
  | _ => True

theorem order_scalars {l l' : List Scalar} {rest rest' : Fields} (hLength : l.length = l'.length)
    (h : (Fields.scalars l rest).order (Fields.scalars l' rest') = .eq) :
    compareScalars l l' = .eq ∧ rest.order rest' = .eq := by
  induction l generalizing l' with
  | nil =>
    cases l' with
    | nil => exact ⟨rfl, h⟩
    | cons b l' => cases hLength
  | cons a l ih =>
    cases l' with
    | nil => cases hLength
    | cons b l' =>
      simp only [Fields.scalars, List.foldr_cons, Fields.order, Ordering.then_eq_eq] at h
      obtain ⟨hRest, hOrder⟩ := ih (Nat.succ.inj hLength) h.2
      refine ⟨?_, hOrder⟩
      rw [compareScalars, h.1, hRest]
      rfl

theorem order_scalars_nil (l l' : List Scalar) :
    (Fields.scalars l .nil).order (Fields.scalars l' .nil) = compareScalars l l' := by
  induction l generalizing l' with
  | nil => cases l' <;> rfl
  | cons a l ih =>
    cases l' with
    | nil => rfl
    | cons b l' => exact congrArg (a.compare b).then (ih l')

/-! ### The fields of a node -/

theorem Op.node_type_ne_Variable (op : Op) : op.node_type ≠ .Variable := by
  cases op with
  | Binary op type => cases op <;> exact nofun
  | _ => exact nofun

theorem Op.node_type_ne_Let (op : Op) : op.node_type ≠ .Let := by
  cases op with
  | Binary op type => cases op <;> exact nofun
  | _ => exact nofun

theorem binary_node_type_inj {op op' : BinaryOp} (h : op.node_type = op'.node_type) : op = op' := by
  cases op <;> cases op' <;> first | rfl | cases h

/-- The operations of one node type. -/
inductive Op.Alike : Op → Op → Prop where
  | IntImm (t t' a b) : Alike (.IntImm t a) (.IntImm t' b)
  | UIntImm (t t' a b) : Alike (.UIntImm t a) (.UIntImm t' b)
  | FloatImm (t t' a b) : Alike (.FloatImm t a) (.FloatImm t' b)
  | StringImm (t t' a b) : Alike (.StringImm t a) (.StringImm t' b)
  | Broadcast (t t') : Alike (.Broadcast t) (.Broadcast t')
  | Cast (t t') : Alike (.Cast t) (.Cast t')
  | Binary (op t t') : Alike (.Binary op t) (.Binary op t')
  | Not (t t') : Alike (.Not t) (.Not t')
  | Select (t t') : Alike (.Select t) (.Select t')
  | Load (t t' a b n m) : Alike (.Load t a n) (.Load t' b m)
  | Ramp (t t') : Alike (.Ramp t) (.Ramp t')
  | Call (t t' a b c d n m) : Alike (.Call t a c n) (.Call t' b d m)
  | Shuffle (t t' a b) : Alike (.Shuffle t a) (.Shuffle t' b)

theorem Op.alike_of_node_type {op op' : Op} (h : op.node_type = op'.node_type) : op.Alike op' := by
  cases op with
  | Binary b t =>
    cases op' with
    | Binary b' t' =>
      obtain rfl : b = b' := binary_node_type_inj h
      constructor
    | _ => cases b <;> cases h
  | _ =>
    cases op' with
    | Binary b' t' => cases b' <;> cases h
    | _ => first | constructor | cases h

theorem callType_ctorIdx_inj {c d : CallType} (h : c.ctorIdx = d.ctorIdx) : c = d := by
  cases c <;> cases d <;> first | rfl | cases h

theorem Op.Alike.length_before {op op' : Op} (h : op.Alike op') (n n' : Nat) :
    (op.before n).length = (op'.before n').length := by
  cases h <;> rfl

/-- The fields tell the operations of a node type apart, but for floats that are confused. -/
theorem Op.Alike.eq {op op' : Op} (h : op.Alike op') {floats : Set F64} (hExact : Exact floats)
    (hFloat : op.FloatIn floats) (hFloat' : op'.FloatIn floats) (hType : op.type = op'.type)
    {n n' : Nat} (hBefore : compareScalars (op.before n) (op'.before n') = .eq)
    (hAfter : compareScalars op.after op'.after = .eq) : op = op' := by
  cases h with
  | FloatImm t t' a b =>
    simp only [before, compareScalars, Ordering.then_eq_eq, and_true] at hBefore
    rw [show t = t' from hType, hExact a hFloat b hFloat' hBefore]
  | IntImm t t' a b =>
    have hFields := eq_of_compareScalars (by simp [before]) hBefore
    simp only [before, List.cons.injEq, Scalar.int.injEq, and_true] at hFields
    rw [show t = t' from hType, hFields]
  | UIntImm t t' a b =>
    have hFields := eq_of_compareScalars (by simp [before, Scalar.nat]) hBefore
    simp only [before, List.cons.injEq, Scalar.nat_inj, and_true] at hFields
    rw [show t = t' from hType, hFields]
  | StringImm t t' a b =>
    have hFields := eq_of_compareScalars (by simp [before]) hBefore
    simp only [before, List.cons.injEq, Scalar.name.injEq, and_true] at hFields
    rw [show t = t' from hType, hFields]
  | Load t t' a b n m =>
    have hFields := eq_of_compareScalars (by simp [before]) hBefore
    have hAlignment := eq_of_compareScalars (by simp [after]) hAfter
    simp only [before, List.cons.injEq, Scalar.reversed.injEq, and_true] at hFields
    simp only [after, List.cons.injEq, Scalar.int.injEq, and_true] at hAlignment
    obtain ⟨modulus, remainder⟩ := n
    obtain ⟨modulus', remainder'⟩ := m
    rw [show t = t' from hType, hFields, show modulus = modulus' from hAlignment.1,
      show remainder = remainder' from hAlignment.2]
  | Call t t' a b c d n m =>
    have hFields := eq_of_compareScalars (by simp [before, Scalar.nat]) hBefore
    simp only [before, List.cons.injEq, Scalar.name.injEq, Scalar.int.injEq, Scalar.nat_inj,
      and_true] at hFields
    rw [show t = t' from hType, hFields.1, callType_ctorIdx_inj hFields.2.1, hFields.2.2.1]
  | Shuffle t t' a b =>
    have hFields := eq_of_compareScalars (by simp [after, Scalar.nat]) hAfter
    simp only [after, List.cons.injEq] at hFields
    rw [show t = t' from hType,
      List.map_injective_iff.mpr (fun _ _ => Scalar.int.inj) hFields.2]
  | _ => exact congrArg _ hType

/-! ### Terms -/

variable {floats : Set F64}

theorem order_toFields_nil_cons (l : List Scalar) (e : Expr) (es : Exprs) (rest : Fields) :
    (Fields.scalars l .nil).order ((Exprs.cons e es).toFields rest) ≠ .eq := by
  cases l <;> exact nofun

theorem order_toFields_cons_nil (l : List Scalar) (e : Expr) (es : Exprs) (rest : Fields) :
    ((Exprs.cons e es).toFields rest).order (Fields.scalars l .nil) ≠ .eq := by
  cases l <;> exact nofun

def Expr.node_type : Expr → IRNodeType
  | .Variable .. => .Variable
  | .Let .. => .Let
  | .node _ op _ => op.node_type

theorem Expr.node_type_of_order {a b : Expr} (h : a.toTree.order b.toTree = .eq) :
    a.node_type = b.node_type := by
  have hNode : compareNodeType a.node_type b.node_type = .eq := by
    cases a <;> cases b <;> simp only [Expr.toTree, Node.make, Tree.order, Ordering.then_eq_eq] at h <;>
      exact h.1
  exact eq_of_compareNodeType hNode

mutual

theorem Expr.term_eq_of_order (hExact : Exact floats) : ∀ {a b : Expr},
    a.term.All (Op.FloatIn floats) → b.term.All (Op.FloatIn floats) →
      a.toTree.order b.toTree = .eq → a.term = b.term
  | .Variable _ t x, .Variable _ t' x', _, _, h => by
    simp only [Expr.toTree, Node.make, Tree.order, Fields.order, Ordering.then_eq_eq, and_true] at h
    obtain ⟨-, hType, hName⟩ := h
    have hScalar := Scalar.eq_of_compare (by simp) hName
    rw [Expr.term, Expr.term, Option.some.inj (eq_of_compare_types hType), Scalar.name.inj hScalar]
  | .Variable .., .Let .., _, _, h => absurd (Expr.node_type_of_order h) nofun
  | .Variable .., .node _ op _, _, _, h =>
      absurd (Expr.node_type_of_order h).symm op.node_type_ne_Variable
  | .Let .., .Variable .., _, _, h => absurd (Expr.node_type_of_order h) nofun
  | .Let _ _ x v b, .Let _ _ x' v' b', ha, hb, h => by
    simp only [Expr.toTree, Node.make, Tree.order, Ordering.then_eq_eq, Fields.children,
      List.foldr_cons, List.foldr_nil, Fields.order, and_true] at h
    obtain ⟨-, -, hName, hValue, hBody⟩ := h
    rw [Expr.term, Expr.term, Scalar.name.inj (Scalar.eq_of_compare (by simp) hName),
      Expr.term_eq_of_order hExact ha.1 hb.1 hValue, Expr.term_eq_of_order hExact ha.2 hb.2 hBody]
  | .Let .., .node _ op _, _, _, h => absurd (Expr.node_type_of_order h).symm op.node_type_ne_Let
  | .node _ op _, .Variable .., _, _, h =>
      absurd (Expr.node_type_of_order h) op.node_type_ne_Variable
  | .node _ op _, .Let .., _, _, h => absurd (Expr.node_type_of_order h) op.node_type_ne_Let
  | .node _ op args, .node _ op' args', ha, hb, h => by
    simp only [Expr.toTree, Tree.order, Ordering.then_eq_eq] at h
    obtain ⟨hNode, hType, hFields⟩ := h
    have hAlike := Op.alike_of_node_type (eq_of_compareNodeType hNode)
    obtain ⟨hBefore, hArgs⟩ := order_scalars (hAlike.length_before _ _) hFields
    obtain ⟨hTerms, hAfter⟩ := Exprs.terms_eq_of_order hExact ha.2 hb.2 hArgs
    have hOp := hAlike.eq hExact ha.1 hb.1 (Option.some.inj (eq_of_compare_types hType)) hBefore hAfter
    rw [Expr.term, Expr.term, hOp, hTerms]

theorem Exprs.terms_eq_of_order (hExact : Exact floats) : ∀ {a b : Exprs} {l l' : List Scalar},
    a.terms.All (Op.FloatIn floats) → b.terms.All (Op.FloatIn floats) →
      (a.toFields (.scalars l .nil)).order (b.toFields (.scalars l' .nil)) = .eq →
        a.terms = b.terms ∧ compareScalars l l' = .eq
  | .nil, .nil, l, l', _, _, h => ⟨rfl, order_scalars_nil l l' ▸ h⟩
  | .nil, .cons e es, l, _, _, _, h => (order_toFields_nil_cons l e es _ h).elim
  | .cons e es, .nil, _, l', _, _, h => (order_toFields_cons_nil l' e es _ h).elim
  | .cons e es, .cons e' es', _, _, ha, hb, h => by
    simp only [Exprs.toFields, Fields.order, Ordering.then_eq_eq] at h
    obtain ⟨hRest, hAfter⟩ := Exprs.terms_eq_of_order hExact ha.2 hb.2 h.2
    exact ⟨by rw [Exprs.terms, Exprs.terms, Expr.term_eq_of_order hExact ha.1 hb.1 h.1, hRest], hAfter⟩

end

/-! ### The comparison with a cache -/

/-- The heap as the deep comparison sees it. -/
def Heap.memory (heap : Heap) (addr : Nat) : Option Tree := (heap.nodes addr).map Expr.toTree

theorem lives_scalars (memory : Nat → Option Tree) (l : List Scalar) (rest : Fields) :
    (Fields.scalars l rest).Lives memory ↔ rest.Lives memory := by
  induction l with
  | nil => rfl
  | cons a l ih => exact ih

mutual

theorem Expr.Lives.toTree {heap : Heap} : ∀ {e : Expr}, e.Lives heap → e.toTree.Lives heap.memory
  | .Variable .., h => ⟨congrArg (Option.map Expr.toTree) h, trivial⟩
  | .Let .., h =>
      ⟨congrArg (Option.map Expr.toTree) h.1, h.2.1.toTree, h.2.2.toTree, trivial⟩
  | .node .., h =>
      ⟨congrArg (Option.map Expr.toTree) h.1,
        (lives_scalars ..).mpr (Exprs.Lives.toFields h.2 ((lives_scalars ..).mpr trivial))⟩

theorem Exprs.Lives.toFields {heap : Heap} {rest : Fields} : ∀ {es : Exprs}, es.Lives heap →
    rest.Lives heap.memory → (es.toFields rest).Lives heap.memory
  | .nil, _, hRest => hRest
  | .cons _ _, h, hRest => ⟨h.1.toTree, Exprs.Lives.toFields h.2 hRest⟩

end

theorem Heap.Le.valid {heap heap' : Heap} {cache : IRCompareCache} (hLe : heap.Le heap')
    (h : cache.Valid heap.memory) : cache.Valid heap'.memory := by
  have hMemory : ∀ addr t, heap.memory addr = some t → heap'.memory addr = some t := by
    intro addr t ht
    obtain ⟨e, he, rfl⟩ := Option.map_eq_some_iff.mp ht
    exact Option.map_eq_some_iff.mpr ⟨e, hLe.2 addr e he, rfl⟩
  intro i
  obtain ⟨hFirst, hSecond, hOrder⟩ := h i
  exact ⟨Tree.Lives.mono hMemory hFirst, Tree.Lives.mono hMemory hSecond, hOrder⟩

end Vyasa.CSE
