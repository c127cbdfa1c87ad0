import Vyasa.CSE.Exact

/-! The fast equality of the matcher. It is the reference equality, but for what it does not
look at: the predicate and the alignment of a load, and whether a pointer to void is written
out. -/
namespace Vyasa.IRMatcher

open IREquality CSE Compare

section Code

/-- `halide_handle_traits<void *>::type_info()` -/
def voidPointer : HandleCPlusPlusType where
  inner_name := ⟨.Simple, "void"⟩
  namespaces := []
  enclosing_types := []
  cpp_type_modifiers := [8]
  reference_type := .NotReference

def same_handle_type (a b : Ty) : Bool :=
  a.handle_type.getD voidPointer = b.handle_type.getD voidPointer

/-- `operator==` of types -/
def sameType (a b : Ty) : Bool :=
  a.code = b.code && a.bits = b.bits && a.lanes = b.lanes && (a.code ≠ .handle || same_handle_type a b)

/-- `operator==` of doubles -/
def sameFloat (x y : F64) : Bool := !x.isNaN && !y.isNaN && x.key = y.key

/-- The fields that are compared beside the children. -/
def sameFields : Op → Op → Bool
  | .IntImm _ value, .IntImm _ value' => value = value'
  | .UIntImm _ value, .UIntImm _ value' => value = value'
  | .FloatImm _ value, .FloatImm _ value' => sameFloat value value'
  | .StringImm _ value, .StringImm _ value' => value = value'
  | .Load _ name _, .Load _ name' _ => name = name'
  | .Call _ name call_type value_index, .Call _ name' call_type' value_index' =>
      name = name' && call_type = call_type' && value_index = value_index'
  | .Shuffle _ indices, .Shuffle _ indices' => indices = indices'
  | _, _ => true

def isLoad : Op → Bool
  | .Load _ _ _ => true
  | _ => false

mutual

/-- `equal` and `equal_helper` -/
def equal : Expr → Expr → Bool
  | .Variable addr type name, .Variable addr' type' name' =>
      addr = addr' || (sameType type type' && name = name')
  | .Let addr type name value body, .Let addr' type' name' value' body' =>
      addr = addr' || (sameType type type' && name = name' && equal value value' && equal body body')
  | .node addr op args, .node addr' op' args' =>
      addr = addr' || (sameType op.type op'.type && op.node_type = op'.node_type && sameFields op op' &&
        if isLoad op then equalIndex args args' else equalArgs args args')
  | a, b => a.addr = b.addr

def equalArgs : Exprs → Exprs → Bool
  | .nil, .nil => true
  | .cons a rest, .cons b rest' => equal a b && equalArgs rest rest'
  | _, _ => false

/-- The index of a load comes after the predicate. -/
def equalIndex : Exprs → Exprs → Bool
  | .nil, .nil => true
  | .cons _ rest, .cons _ rest' => equalArgs rest rest'
  | _, _ => false

end

end Code

section Forget

/-- A pointer to void is written out, and other types have no type of a handle. -/
def forgetType (t : Ty) : Ty :=
  { t with handle_type := if t.code = .handle then some (t.handle_type.getD voidPointer) else none }

/-- The alignment of a load is forgotten. -/
def forgetOp : Op → Op
  | .IntImm type value => .IntImm (forgetType type) value
  | .UIntImm type value => .UIntImm (forgetType type) value
  | .FloatImm type value => .FloatImm (forgetType type) value
  | .StringImm type value => .StringImm (forgetType type) value
  | .Broadcast type => .Broadcast (forgetType type)
  | .Cast type => .Cast (forgetType type)
  | .Binary op type => .Binary op (forgetType type)
  | .Not type => .Not (forgetType type)
  | .Select type => .Select (forgetType type)
  | .Load type name _ => .Load (forgetType type) name ⟨1, 0⟩
  | .Ramp type => .Ramp (forgetType type)
  | .Call type name call_type value_index => .Call (forgetType type) name call_type value_index
  | .Shuffle type indices => .Shuffle (forgetType type) indices

/-- The predicate of a load that is always done. -/
def always : Expr := .node 0 (.UIntImm ⟨.uint, 1, 1, none⟩ 1) .nil

mutual

/-- The expression without predicates and alignments of loads, and with every pointer to void
written out. -/
def forget : Expr → Expr
  | .Variable addr type name => .Variable addr (forgetType type) name
  | .Let addr type name value body => .Let addr (forgetType type) name (forget value) (forget body)
  | .node addr op args =>
      .node addr (forgetOp op) (if isLoad op then forgetPredicate args else forgetArgs args)

def forgetArgs : Exprs → Exprs
  | .nil => .nil
  | .cons e rest => .cons (forget e) (forgetArgs rest)

def forgetPredicate : Exprs → Exprs
  | .nil => .nil
  | .cons _ rest => .cons always (forgetArgs rest)

end

end Forget

/-! ### The reference comparison, part by part -/

variable {a b : Expr} {s t : Exprs} {l l' : List Scalar} {rest rest' : Fields} {addr addr' : Nat} {op op' : Op}

theorem compare_scalars (hLength : l.length = l'.length) :
    (Fields.scalars l rest).compare (Fields.scalars l' rest') =
      (compareScalars l l').then (rest.compare rest') := by
  induction l generalizing l' with
  | nil =>
    cases l' with
    | nil => rfl
    | cons s l' => cases hLength
  | cons s l ih =>
    cases l' with
    | nil => cases hLength
    | cons s' l' =>
      have hRest := ih (Nat.succ.inj hLength)
      simp only [Fields.scalars, List.foldr_cons, Fields.compare, compareScalars] at hRest ⊢
      rw [hRest, Ordering.then_assoc]

theorem compare_scalars_nil (l l' : List Scalar) :
    (Fields.scalars l .nil).compare (Fields.scalars l' .nil) = compareScalars l l' := by
  induction l generalizing l' with
  | nil => cases l' <;> rfl
  | cons s l ih =>
    cases l' with
    | nil => rfl
    | cons s' l' => exact congrArg (s.compare s').then (ih l')

/-- The children compare equal one by one. -/
def Equal : Exprs → Exprs → Prop
  | .nil, .nil => True
  | .cons a s, .cons b t => IREquality.equal a.toTree b.toTree = true ∧ Equal s t
  | _, _ => False

theorem Equal.length : ∀ {s t : Exprs}, Equal s t → s.length = t.length
  | .nil, .nil, _ => rfl
  | .cons _ _, .cons _ _, h => congrArg (· + 1) (Equal.length h.2)

theorem equal_iff (a b : Tree) : IREquality.equal a b = true ↔ a.compare b = .eq := beq_iff_eq

theorem compare_toFields : ∀ (s t : Exprs),
    (s.toFields (.scalars l .nil)).compare (t.toFields (.scalars l' .nil)) = .eq ↔
      Equal s t ∧ compareScalars l l' = .eq
  | .nil, .nil => by
    rw [Exprs.toFields, Exprs.toFields, compare_scalars_nil, Equal, true_and]
  | .nil, .cons b t => by
    refine iff_of_false ?_ fun h => nomatch h.1
    cases l <;> exact nofun
  | .cons a s, .nil => by
    refine iff_of_false ?_ fun h => nomatch h.1
    cases l' <;> exact nofun
  | .cons a s, .cons b t => by
    rw [Exprs.toFields, Exprs.toFields, Fields.compare, Ordering.then_eq_eq, compare_toFields s t, Equal,
      equal_iff, and_assoc]

theorem compareNodeType_iff {t t' : IRNodeType} : compareNodeType t t' = .eq ↔ t = t' := by
  refine ⟨eq_of_compareNodeType, ?_⟩
  rintro rfl
  simp [compareNodeType, compareBy]

theorem compare_types_iff {t t' : Option Ty} : compare_types t t' = .eq ↔ t = t' := by
  refine ⟨eq_of_compare_types, ?_⟩
  rintro rfl
  exact compareScalars_self _

theorem equal_variable_iff {type type' : Ty} {name name' : String} :
    IREquality.equal (Expr.Variable addr type name).toTree (Expr.Variable addr' type' name').toTree = true ↔
      addr = addr' ∨ type = type' ∧ name = name' := by
  simp only [equal_iff, Expr.toTree, Node.make, Tree.compare]
  by_cases hAddr : addr = addr'
  · simp [hAddr]
  · rw [if_neg hAddr, Ordering.then_eq_eq, Ordering.then_eq_eq, compareNodeType_iff, compare_types_iff,
      Option.some_inj, or_iff_right hAddr]
    simp only [Fields.compare, Ordering.then_eq_eq, Scalar.compare, compareBy_lt_eq_cmp, cmp_eq_eq_iff,
      true_and, and_true]

theorem equal_let_iff {type type' : Ty} {name name' : String} {value value' body body' : Expr} :
    IREquality.equal (Expr.Let addr type name value body).toTree
        (Expr.Let addr' type' name' value' body').toTree = true ↔
      addr = addr' ∨ type = type' ∧ name = name' ∧ IREquality.equal value.toTree value'.toTree = true ∧
        IREquality.equal body.toTree body'.toTree = true := by
  simp only [equal_iff]
  rw [Expr.toTree, Expr.toTree]
  simp only [Node.make, Tree.compare]
  by_cases hAddr : addr = addr'
  · simp [hAddr]
  · rw [if_neg hAddr, Ordering.then_eq_eq, Ordering.then_eq_eq, compareNodeType_iff, compare_types_iff,
      Option.some_inj, or_iff_right hAddr]
    simp only [Fields.children, List.foldr_cons, List.foldr_nil, Fields.compare, Ordering.then_eq_eq,
      Scalar.compare, compareBy_lt_eq_cmp, cmp_eq_eq_iff, true_and, and_true]

theorem equal_node_iff : IREquality.equal (Expr.node addr op s).toTree (Expr.node addr' op' t).toTree = true ↔
    addr = addr' ∨ op.node_type = op'.node_type ∧ op.type = op'.type ∧
      compareScalars (op.before s.length) (op'.before t.length) = .eq ∧ Equal s t ∧
      compareScalars op.after op'.after = .eq := by
  rw [equal_iff, Expr.toTree, Expr.toTree, Tree.compare]
  by_cases hAddr : addr = addr'
  · simp [hAddr]
  · rw [if_neg hAddr, Ordering.then_eq_eq, Ordering.then_eq_eq, compareNodeType_iff, compare_types_iff,
      Option.some_inj, or_iff_right hAddr]
    refine and_congr_right fun hNode => and_congr_right fun _ => ?_
    rw [compare_scalars ((Op.alike_of_node_type hNode).length_before _ _), Ordering.then_eq_eq,
      compare_toFields]

theorem toTree_eq (a : Expr) : ∃ addr rest type fields,
    a.toTree = .node addr a.node_type rest type fields ∧ addr = a.addr := by
  cases a <;> exact ⟨_, _, _, _, rfl, rfl⟩

/-- Nodes of different kinds are equal only if they are one object. -/
theorem equal_of_kinds (h : a.node_type ≠ b.node_type) :
    IREquality.equal a.toTree b.toTree = true ↔ a.addr = b.addr := by
  obtain ⟨addr, rest, type, fields, ha, hAddr⟩ := toTree_eq a
  obtain ⟨addr', rest', type', fields', hb, hAddr'⟩ := toTree_eq b
  rw [equal_iff, ha, hb, Tree.compare, ← hAddr, ← hAddr']
  by_cases hEq : addr = addr'
  · simp [hEq]
  · rw [if_neg hEq, Ordering.then_eq_eq, compareNodeType_iff]
    exact iff_of_false (fun hBoth => h hBoth.1) hEq

/-! ### The fast comparison -/

/-- The operation is no constant that is not a number. -/
def OpNoNaN : Op → Prop
  | .FloatImm _ value => value.isNaN = false
  | _ => True

def NoNaN (e : Expr) : Prop := e.term.All OpNoNaN

def ArgsNoNaN (s : Exprs) : Prop := s.terms.All OpNoNaN

theorem sameType_iff {t t' : Ty} : sameType t t' = true ↔ forgetType t = forgetType t' := by
  obtain ⟨code, bits, lanes, handle⟩ := t
  obtain ⟨code', bits', lanes', handle'⟩ := t'
  simp only [sameType, same_handle_type, forgetType, Bool.and_eq_true, Bool.or_eq_true, decide_eq_true_eq,
    Ty.mk.injEq, and_assoc]
  refine and_congr_right fun hCode => and_congr_right fun _ => and_congr_right fun _ => ?_
  subst hCode
  by_cases hHandle : code = .handle
  · simp [hHandle]
  · simp [hHandle]

theorem sameFloat_iff {x y : F64} (hx : x.isNaN = false) (hy : y.isNaN = false) :
    sameFloat x y = true ↔ compareBy F64.less x y = .eq := by
  rw [F64.compareBy_less hx hy, cmp_eq_eq_iff, sameFloat, hx, hy]
  simp

theorem isLoad_of_alike (h : op.Alike op') : isLoad op = isLoad op' := by
  cases h <;> rfl

theorem forgetOp_node_type (op : Op) : (forgetOp op).node_type = op.node_type := by
  cases op <;> rfl

theorem forgetOp_type (op : Op) : (forgetOp op).type = forgetType op.type := by
  cases op <;> rfl

theorem callType_ctorIdx_iff {c d : CallType} : c.ctorIdx = d.ctorIdx ↔ c = d :=
  ⟨callType_ctorIdx_inj, fun h => h ▸ rfl⟩

theorem compareScalars_ints (l l' : List Int) :
    compareScalars (l.map .int) (l'.map .int) = .eq ↔ l = l' := by
  constructor
  · intro h
    have hEq := eq_of_compareScalars (by simp) h
    exact List.map_injective_iff.mpr (fun _ _ => Scalar.int.inj) hEq
  · rintro rfl
    exact compareScalars_self _

/-- The fields that are compared are the fields that are left when the rest is forgotten. -/
theorem sameFields_iff (hAlike : op.Alike op') (h : OpNoNaN op) (h' : OpNoNaN op') (n : Nat) :
    sameFields op op' = true ↔ compareScalars ((forgetOp op).before n) ((forgetOp op').before n) = .eq ∧
      compareScalars (forgetOp op).after (forgetOp op').after = .eq := by
  cases hAlike with
  | FloatImm t t' a b =>
    simp only [sameFields, sameFloat_iff h h', forgetOp, Op.before, Op.after, compareScalars, Scalar.compare,
      Ordering.then_eq_eq, and_true]
  | Load t t' a b n m =>
    simp only [sameFields, forgetOp, Op.before, Op.after, compareScalars, Scalar.compare, Ordering.then_eq_eq,
      and_true, compareBy_lt_eq_cmp, cmp_eq_eq_iff, decide_eq_true_eq]
    exact eq_comm
  | Call t t' a b c d n m =>
    simp only [sameFields, forgetOp, Op.before, Op.after, compareScalars, Scalar.compare, Scalar.nat,
      Ordering.then_eq_eq, and_true, compareBy_lt_eq_cmp, cmp_eq_eq_iff, decide_eq_true_eq, Bool.and_eq_true,
      Int.natCast_inj, callType_ctorIdx_iff, and_assoc]
  | Shuffle t t' a b =>
    simp only [sameFields, forgetOp, Op.before, Op.after, compareScalars, Scalar.compare, Scalar.nat,
      Ordering.then_eq_eq, and_true, compareBy_lt_eq_cmp, cmp_eq_eq_iff, decide_eq_true_eq, true_and,
      Int.natCast_inj, compareScalars_ints]
    exact (and_iff_right_of_imp fun h => h ▸ rfl).symm
  | _ =>
    simp only [sameFields, forgetOp, Op.before, Op.after, compareScalars, Scalar.compare, Scalar.nat,
      Ordering.then_eq_eq, and_true, compareBy_lt_eq_cmp, cmp_eq_eq_iff, decide_eq_true_eq, Int.natCast_inj]

/-- What is left of equal fields is equal. -/
theorem forgetOp_fields (hAlike : op.Alike op') {n n' : Nat}
    (hBefore : compareScalars (op.before n) (op'.before n') = .eq)
    (hAfter : compareScalars op.after op'.after = .eq) :
    compareScalars ((forgetOp op).before n) ((forgetOp op').before n') = .eq ∧
      compareScalars (forgetOp op).after (forgetOp op').after = .eq := by
  cases hAlike with
  | Load t t' a b n m => exact ⟨hBefore, compareScalars_self _⟩
  | _ => exact ⟨hBefore, hAfter⟩

theorem equal_always : IREquality.equal always.toTree always.toTree = true := by decide

theorem forget_node_type (a : Expr) : (forget a).node_type = a.node_type := by
  cases a with
  | Variable | Let => rfl
  | node addr op args =>
    rw [forget]
    exact forgetOp_node_type op

theorem forget_addr (a : Expr) : (forget a).addr = a.addr := by
  cases a <;> rw [forget] <;> rfl

theorem equal_iff_of_kinds (h : a.node_type ≠ b.node_type) : equal a b = true ↔ a.addr = b.addr := by
  cases a with
  | Variable addr type name =>
    cases b with
    | Variable => exact absurd rfl h
    | _ => exact decide_eq_true_iff
  | Let addr type name value body =>
    cases b with
    | Let => exact absurd rfl h
    | _ => exact decide_eq_true_iff
  | node addr op args =>
    cases b with
    | node addr' op' args' =>
      have hKinds : ¬ op.node_type = op'.node_type := h
      rw [equal]
      simp [hKinds, Expr.addr]
    | _ => exact decide_eq_true_iff

theorem equal_iff_forget_of_kinds (h : a.node_type ≠ b.node_type) :
    equal a b = true ↔ IREquality.equal (forget a).toTree (forget b).toTree = true := by
  have hForget : (forget a).node_type ≠ (forget b).node_type := by
    rwa [forget_node_type, forget_node_type]
  rw [equal_iff_of_kinds h, equal_of_kinds hForget, forget_addr, forget_addr]

/-- The children that are compared. -/
theorem equal_node {s t : Exprs} : equal (.node addr op s) (.node addr' op' t) = true ↔
    addr = addr' ∨ sameType op.type op'.type = true ∧ op.node_type = op'.node_type ∧
      sameFields op op' = true ∧ (if isLoad op then equalIndex s t else equalArgs s t) = true := by
  rw [equal]
  simp only [Bool.or_eq_true, Bool.and_eq_true, decide_eq_true_eq, and_assoc]

mutual

/-- The fast equality is the reference equality of what it does not forget. -/
theorem equal_iff_forget : ∀ (a b : Expr), NoNaN a → NoNaN b →
    (equal a b = true ↔ IREquality.equal (forget a).toTree (forget b).toTree = true)
  | .Variable addr type name, .Variable addr' type' name', _, _ => by
    rw [forget, forget, equal_variable_iff, equal]
    simp only [Bool.or_eq_true, Bool.and_eq_true, decide_eq_true_eq, sameType_iff]
  | .Let addr type name value body, .Let addr' type' name' value' body', ha, hb => by
    rw [forget, forget, equal_let_iff, equal, ← equal_iff_forget value value' ha.1 hb.1,
      ← equal_iff_forget body body' ha.2 hb.2]
    simp only [Bool.or_eq_true, Bool.and_eq_true, decide_eq_true_eq, sameType_iff, and_assoc]
  | .node addr op args, .node addr' op' args', ha, hb => by
    by_cases hKind : op.node_type = op'.node_type
    · have hAlike := Op.alike_of_node_type hKind
      have hArgs : (if isLoad op then equalIndex args args' else equalArgs args args') = true ↔
          Equal (if isLoad op then forgetPredicate args else forgetArgs args)
            (if isLoad op' then forgetPredicate args' else forgetArgs args') := by
        rw [← isLoad_of_alike hAlike]
        split_ifs
        · exact equalIndex_iff_forget args args' ha.2 hb.2
        · exact equalArgs_iff_forget args args' ha.2 hb.2
      rw [equal_node, forget, forget, equal_node_iff, forgetOp_node_type, forgetOp_node_type, forgetOp_type,
        forgetOp_type, sameType_iff, hArgs]
      refine or_congr_right ⟨?_, ?_⟩
      · rintro ⟨hType, hNode, hFields, hChildren⟩
        rw [hChildren.length]
        obtain ⟨hBefore, hAfter⟩ := (sameFields_iff hAlike ha.1 hb.1 _).mp hFields
        exact ⟨hNode, hType, hBefore, hChildren, hAfter⟩
      · rintro ⟨hNode, hType, hBefore, hChildren, hAfter⟩
        rw [hChildren.length] at hBefore
        exact ⟨hType, hNode, (sameFields_iff hAlike ha.1 hb.1 _).mpr ⟨hBefore, hAfter⟩, hChildren⟩
    · exact equal_iff_forget_of_kinds hKind
  | .Variable .., .Let .., _, _ => equal_iff_forget_of_kinds nofun
  | .Variable .., .node _ op _, _, _ => equal_iff_forget_of_kinds op.node_type_ne_Variable.symm
  | .Let .., .Variable .., _, _ => equal_iff_forget_of_kinds nofun
  | .Let .., .node _ op _, _, _ => equal_iff_forget_of_kinds op.node_type_ne_Let.symm
  | .node _ op _, .Variable .., _, _ => equal_iff_forget_of_kinds op.node_type_ne_Variable
  | .node _ op _, .Let .., _, _ => equal_iff_forget_of_kinds op.node_type_ne_Let

theorem equalArgs_iff_forget : ∀ (s t : Exprs), ArgsNoNaN s → ArgsNoNaN t →
    (equalArgs s t = true ↔ Equal (forgetArgs s) (forgetArgs t))
  | .nil, .nil, _, _ => iff_of_true rfl trivial
  | .nil, .cons .., _, _ => iff_of_false nofun nofun
  | .cons .., .nil, _, _ => iff_of_false nofun nofun
  | .cons a s, .cons b t, ha, hb => by
    rw [forgetArgs, forgetArgs, Equal, ← equal_iff_forget a b ha.1 hb.1, ← equalArgs_iff_forget s t ha.2 hb.2,
      equalArgs, Bool.and_eq_true]

theorem equalIndex_iff_forget : ∀ (s t : Exprs), ArgsNoNaN s → ArgsNoNaN t →
    (equalIndex s t = true ↔ Equal (forgetPredicate s) (forgetPredicate t))
  | .nil, .nil, _, _ => iff_of_true rfl trivial
  | .nil, .cons .., _, _ => iff_of_false nofun nofun
  | .cons .., .nil, _, _ => iff_of_false nofun nofun
  | .cons a s, .cons b t, ha, hb => by
    rw [forgetPredicate, forgetPredicate, Equal, ← equalArgs_iff_forget s t ha.2 hb.2, equalIndex,
      and_iff_right equal_always]

end

theorem equal_of_equal_of_kinds (h : a.node_type ≠ b.node_type)
    (hEqual : IREquality.equal a.toTree b.toTree = true) : equal a b = true :=
  (equal_iff_of_kinds h).mpr ((equal_of_kinds h).mp hEqual)

mutual

/-- What is equal is found equal. -/
theorem equal_of_equal : ∀ (a b : Expr), NoNaN a → NoNaN b →
    IREquality.equal a.toTree b.toTree = true → equal a b = true
  | .Variable addr type name, .Variable addr' type' name', _, _, h => by
    rw [equal_variable_iff] at h
    simp only [equal, Bool.or_eq_true, Bool.and_eq_true, decide_eq_true_eq, sameType_iff]
    exact h.imp_right fun hFields => ⟨congrArg forgetType hFields.1, hFields.2⟩
  | .Let addr type name value body, .Let addr' type' name' value' body', ha, hb, h => by
    rw [equal_let_iff] at h
    simp only [equal, Bool.or_eq_true, Bool.and_eq_true, decide_eq_true_eq, sameType_iff, and_assoc]
    exact h.imp_right fun ⟨hType, hName, hValue, hBody⟩ => ⟨congrArg forgetType hType, hName,
      equal_of_equal value value' ha.1 hb.1 hValue, equal_of_equal body body' ha.2 hb.2 hBody⟩
  | .node addr op args, .node addr' op' args', ha, hb, h => by
    rw [equal_node_iff] at h
    rw [equal_node]
    refine h.imp_right fun ⟨hNode, hType, hBefore, hChildren, hAfter⟩ => ?_
    have hAlike := Op.alike_of_node_type hNode
    rw [hChildren.length] at hBefore
    have hFields := (sameFields_iff hAlike ha.1 hb.1 _).mpr (forgetOp_fields hAlike hBefore hAfter)
    obtain ⟨hArgs, hIndex⟩ := equalArgs_of_equal args args' ha.2 hb.2 hChildren
    refine ⟨sameType_iff.mpr (congrArg forgetType hType), hNode, hFields, ?_⟩
    split_ifs
    · exact hIndex
    · exact hArgs
  | .Variable .., .Let .., _, _, h => equal_of_equal_of_kinds nofun h
  | .Variable .., .node _ op _, _, _, h => equal_of_equal_of_kinds op.node_type_ne_Variable.symm h
  | .Let .., .Variable .., _, _, h => equal_of_equal_of_kinds nofun h
  | .Let .., .node _ op _, _, _, h => equal_of_equal_of_kinds op.node_type_ne_Let.symm h
  | .node _ op _, .Variable .., _, _, h => equal_of_equal_of_kinds op.node_type_ne_Variable h
  | .node _ op _, .Let .., _, _, h => equal_of_equal_of_kinds op.node_type_ne_Let h

theorem equalArgs_of_equal : ∀ (s t : Exprs), ArgsNoNaN s → ArgsNoNaN t → Equal s t →
    equalArgs s t = true ∧ equalIndex s t = true
  | .nil, .nil, _, _, _ => ⟨rfl, rfl⟩
  | .cons a s, .cons b t, ha, hb, h => by
    obtain ⟨hRest, -⟩ := equalArgs_of_equal s t ha.2 hb.2 h.2
    rw [equalArgs, equalIndex, Bool.and_eq_true]
    exact ⟨⟨equal_of_equal a b ha.1 hb.1 h.1, hRest⟩, hRest⟩

end

/-- The two differ in nothing but predicates and alignments of loads and pointers to void, or
they are equal. -/
def Unconfused (a b : Expr) : Prop :=
  IREquality.equal (forget a).toTree (forget b).toTree = true → IREquality.equal a.toTree b.toTree = true

/-- The fast equality is the reference equality exactly for expressions that do not differ in
nothing but predicates and alignments of loads and pointers to void. It then finds only
expressions of the same value equal, where no zeros of both signs are confused. -/
theorem equal_agrees_iff {heap : Heap} {floats : Set F64} (hLivesA : a.Lives heap) (hLivesB : b.Lives heap)
    (hA : NoNaN a) (hB : NoNaN b) :
    ((equal a b = true ↔ IREquality.equal a.toTree b.toTree = true) ↔ Unconfused a b) ∧
    (Unconfused a b → Exact floats → a.term.All (Op.FloatIn floats) → b.term.All (Op.FloatIn floats) →
      equal a b = true → ∀ {V : Type} (interp : Op → List V → V) (env : String → V),
        a.term.eval interp env = b.term.eval interp env) := by
  have hForget := equal_iff_forget a b hA hB
  refine ⟨⟨fun h hEq => h.mp (hForget.mpr hEq), fun h => ⟨fun hEq => h (hForget.mp hEq), equal_of_equal a b hA hB⟩⟩,
    ?_⟩
  intro hUnconfused hExact hFloatsA hFloatsB hEqual V interp env
  have hCompare := (equal_iff _ _).mp (hUnconfused (hForget.mp hEqual))
  rw [Tree.compare_eq_order hLivesA.toTree hLivesB.toTree] at hCompare
  rw [Expr.term_eq_of_order hExact hFloatsA hFloatsB hCompare]

/-- A load of eight lanes under a mask. -/
def loadIf (addr : Nat) (mask : String) : Expr :=
  .node addr (.Load ⟨.int, 32, 8, none⟩ "f" ⟨1, 0⟩)
    (.cons (.Variable (addr + 1) ⟨.uint, 1, 8, none⟩ mask)
      (.cons (.Variable (addr + 2) ⟨.int, 32, 8, none⟩ "x") .nil))

/-- The same load at two places. -/
def twoLoads (addr : Nat) : Option Expr :=
  match addr with
  | 0 => some (loadIf 0 "m")
  | 1 => some (.Variable 1 ⟨.uint, 1, 8, none⟩ "m")
  | 2 => some (.Variable 2 ⟨.int, 32, 8, none⟩ "x")
  | 3 => some (loadIf 3 "m")
  | 4 => some (.Variable 4 ⟨.uint, 1, 8, none⟩ "m")
  | 5 => some (.Variable 5 ⟨.int, 32, 8, none⟩ "x")
  | _ => none

theorem equal_agrees_iff_loads :
    (loadIf 0 "m").term.eval (fun _ values => values.length) String.length =
      (loadIf 3 "m").term.eval (fun _ values => values.length) String.length := by
  have hLives : (loadIf 0 "m").Lives ⟨6, twoLoads⟩ := ⟨rfl, rfl, rfl, trivial⟩
  have hLives' : (loadIf 3 "m").Lives ⟨6, twoLoads⟩ := ⟨rfl, rfl, rfl, trivial⟩
  have hExact : Exact ∅ := fun x hx => hx.elim
  exact (equal_agrees_iff hLives hLives' ⟨trivial, trivial, trivial, trivial⟩ ⟨trivial, trivial, trivial, trivial⟩).2
    (fun _ => by decide) hExact ⟨trivial, trivial, trivial, trivial⟩ ⟨trivial, trivial, trivial, trivial⟩
    (by decide) _ _

/-- Loads under different masks are found equal, and so are pointers to void that are written
in two ways. -/
theorem equal_confuses :
    (equal (loadIf 0 "m") (loadIf 3 "n") = true ∧
      IREquality.equal (loadIf 0 "m").toTree (loadIf 3 "n").toTree = false) ∧
    (equal (.Variable 0 ⟨.handle, 64, 1, none⟩ "p") (.Variable 1 ⟨.handle, 64, 1, some voidPointer⟩ "p") = true ∧
      IREquality.equal (Expr.Variable 0 ⟨.handle, 64, 1, none⟩ "p").toTree
        (Expr.Variable 1 ⟨.handle, 64, 1, some voidPointer⟩ "p").toTree = false) := by
  decide

end Vyasa.IRMatcher
