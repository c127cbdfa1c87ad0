import Vyasa.IR.Machine
import Vyasa.Pointwise.Basic

/-! The storage of a realization: the lets that make its shape, its allocation, and the index
that `flatten_args` makes from the arguments of a store or a load. -/
namespace Vyasa.StorageFlattening

open Word IRMatch Vyasa.Expr

/-- The fields of the shape of a buffer. -/
inductive Field where
  | min | extent | stride
deriving DecidableEq, Repr

def Field.text : Field → String
  | min => "min"
  | extent => "extent"
  | stride => "stride"

/-- `name + "." + field + "." + std::to_string(dim)` -/
def shapeName (name : Name) (field : Field) (dim : Nat) : Name :=
  name.suffix ("." ++ field.text ++ "." ++ toString dim)

/-- `make_shape_var` -/
def makeShapeVar (name : Name) (field : Field) (dim : Nat) : Expr :=
  var .int32 (shapeName name field dim)

section Operators

/-- `cast`, which folds constants. -/
def castTo (T : IntType) (a : Expr) : Expr :=
  if a.type = T then a
  else match a.asConst with
    | some v => makeConst T v
    | none => cast T a

/-- The type that `match_types` gives to two operands of signed types. -/
def matchTypes (a b : Expr) : IntType := if a.type.bits ≤ b.type.bits then b.type else a.type

/-- `operator*` -/
def times (a b : Expr) : Expr := mul (castTo (matchTypes a b) a) (castTo (matchTypes a b) b)

/-- `operator-` -/
def minus (a b : Expr) : Expr := sub (castTo (matchTypes a b) a) (castTo (matchTypes a b) b)

/-- `operator+=` -/
def addTo (a b : Expr) : Expr := add a (castTo a.type b)

end Operators

section FlattenArgs

variable (large : Bool) (name : Name)

/-- The type of an index, where the target may have large buffers. -/
def indexType : IntType := if large then .int64 else .int32

def stride (dim : Nat) : Expr := castTo (indexType large) (makeShapeVar name .stride dim)

/-- The constant addend of an argument, and what is left. -/
def peeled : Expr → Option (Expr × Expr)
  | bin .add a b => if b.isConst then some (a, b) else none
  | _ => none

def withoutConstant (arg : Expr) : Expr :=
  match peeled arg with
  | some (a, _) => a
  | none => arg

def constantTerm (args : List Expr) : Expr :=
  args.zipIdx.foldl (fun term arg =>
    match peeled arg.1 with
    | some (_, b) => addTo term (times (stride large name arg.2) b)
    | none => term) (makeZero (indexType large))

/-- The sum for an internal allocation, `(x-xmin)*xstride + (y-ymin)*ystride`. -/
def internalSum (args : List Expr) : Expr :=
  args.zipIdx.foldl (fun idx arg =>
    addTo idx (times (minus (withoutConstant arg.1) (makeShapeVar name .min arg.2)) (stride large name arg.2)))
    (makeZero (indexType large))

/-- The sum for an external buffer, `x*stride + y*ystride - (xstride*xmin + ystride*ymin)`. -/
def externalSum (args : List Expr) : Expr :=
  let idx := args.zipIdx.foldl (fun idx arg =>
    addTo idx (times (withoutConstant arg.1) (stride large name arg.2))) (makeZero (indexType large))
  let base := args.zipIdx.foldl (fun base arg =>
    addTo base (times (makeShapeVar name .min arg.2) (stride large name arg.2))) (makeZero (indexType large))
  sub idx (castTo idx.type base)

/-- `flatten_args`, which `visit(const Provide *)` and `visit(const Call *)` apply. -/
def flattenArgs (internal : Bool) (args : List Expr) : Expr :=
  let idx := if internal then internalSum large name args else externalSum large name args
  if (constantTerm large name args).isZero then idx else addTo idx (constantTerm large name args)

end FlattenArgs

/-- A storage dimension, with the alignment of its extent where there is one. -/
structure StorageDim where
  var : Name
  alignment : Option Expr

/-- `Function`: its arguments, and the order that its schedule stores them in, which
`reorder_storage` permutes. -/
structure Func where
  args : List Name
  storageDims : List StorageDim
  nodup : args.Nodup
  perm : (storageDims.map StorageDim.var).Perm args

/-- `Range` -/
structure Range where
  min : Expr
  extent : Expr

structure Realize where
  name : Name
  bounds : List Range

/-- What the loops over the storage dimensions fill in. -/
structure Layout where
  storagePermutation : List Nat := []
  allocationExtents : Nat → Option Expr := fun _ => none

/-- The statement around the body of a realization. -/
inductive Stmt where
  | letStmt (name : Name) (value : Expr) (body : Stmt)
  | allocate (name : Name) (extents : List Expr)

section Visit

variable (f : Func) (r : Realize)

/-- `((extents[j] + alignment - 1)/alignment)*alignment` -/
def allocationExtent (extent : Expr) : Option Expr → Expr
  | some alignment =>
      mul (div (sub (add extent alignment) (makeOne .int32)) alignment) alignment
  | none => extent

/-- The arguments of this name. -/
def positions (var : Name) : List Nat :=
  (List.range f.args.length).filter fun j => f.args[j]? = some var

/-- The body of the loop over the arguments, at one that the storage dimension names. -/
def visitPosition (dim : StorageDim) (layout : Layout) (j : Nat) : Layout :=
  { storagePermutation := layout.storagePermutation ++ [j]
    allocationExtents := Function.update layout.allocationExtents j
      (r.bounds[j]?.map fun range => allocationExtent range.extent dim.alignment) }

/-- The loop over the storage dimensions, from the `i`-th on. -/
def visitDims : List StorageDim → Nat → Layout → Option Layout
  | [], _, layout => some layout
  | dim :: dims, i, layout =>
      let next := (positions f dim.var).foldl (visitPosition r dim) layout
      if next.storagePermutation.length = i + 1 then visitDims dims (i + 1) next else none

/-- Each stride is the stride before it times the extent that is allocated there. -/
def strideLet (allocationExtents : Nat → Expr) (step : Nat × Nat) (stmt : Stmt) : Stmt :=
  .letStmt (shapeName r.name .stride step.2)
    (mul (makeShapeVar r.name .stride step.1) (allocationExtents step.1)) stmt

/-- The lets of the bounds of one dimension. -/
def boundLets (range : Range × Nat) (stmt : Stmt) : Stmt :=
  .letStmt (shapeName r.name .extent range.2) range.1.extent
    (.letStmt (shapeName r.name .min range.2) range.1.min stmt)

def innermostLet (storagePermutation : List Nat) (stmt : Stmt) : Stmt :=
  match storagePermutation with
  | [] => stmt
  | innermost :: _ => .letStmt (shapeName r.name .stride innermost) (imm .int32 1) stmt

/-- `visit(const Realize *)`, after the body and the bounds are mutated. -/
def visitRealize : Option Stmt := do
  let layout ← visitDims f r f.storageDims 0 {}
  if layout.storagePermutation.length = r.bounds.length then
    let extents ← (List.range r.bounds.length).mapM layout.allocationExtents
    let strides := (layout.storagePermutation.zip layout.storagePermutation.tail).foldr
      (strideLet r fun j => extents.getD j (makeZero .int32)) (.allocate r.name extents)
    return r.bounds.zipIdx.foldr (boundLets r) (innermostLet r layout.storagePermutation strides)
  else none

end Visit

/-- What holds in the body: the variables there, and the extents that were allocated. -/
def Stmt.enter : Env → Stmt → Option (Env × List Int)
  | ρ, letStmt name value body => do
      let v ← eval .wrapping ρ value
      enter (ρ.set name v) body
  | ρ, allocate _ extents => do
      let sizes ← extents.mapM (eval .wrapping ρ)
      return (ρ, sizes)

end Vyasa.StorageFlattening

/-! What the loops over the storage dimensions fill in: the permutation of the dimensions, and one
allocated extent for each of them. -/
namespace Vyasa.StorageFlattening

open Word IRMatch Vyasa.Expr

variable {f : Func} {r : Realize}

theorem shapeName_inj {name : Name} {field field' : Field} {i j : Nat} :
    shapeName name field i = shapeName name field' j ↔ field = field' ∧ i = j := by
  constructor
  · intro h
    have hText := (Name.suffix.inj h).2
    have hField : field = field' := by
      have hList := congrArg String.toList hText
      simp only [String.toList_append] at hList
      cases field <;> cases field' <;> first | rfl | simp [Field.text] at hList
    subst hField
    exact ⟨rfl, Nat.repr_injective ((String.append_right_inj _).mp hText)⟩
  · rintro ⟨rfl, rfl⟩
    rfl

namespace Func

/-- The argument that a storage dimension stands for. -/
def index (f : Func) (dim : StorageDim) : Nat := f.args.idxOf dim.var

/-- The dimensions in the order that they are stored in. -/
def order (f : Func) : List Nat := f.storageDims.map f.index

/-- The alignment of a dimension. -/
def alignment (f : Func) (j : Nat) : Option Expr :=
  (f.storageDims.find? fun dim => f.index dim = j).bind StorageDim.alignment

theorem var_mem (f : Func) {dim : StorageDim} (h : dim ∈ f.storageDims) : dim.var ∈ f.args :=
  f.perm.mem_iff.mp (List.mem_map_of_mem h)

theorem vars_nodup (f : Func) : (f.storageDims.map StorageDim.var).Nodup := f.perm.nodup_iff.mpr f.nodup

theorem order_perm (f : Func) : f.order.Perm (List.range f.args.length) := by
  have hMap : f.order = (f.storageDims.map StorageDim.var).map f.args.idxOf := by
    rw [List.map_map]
    rfl
  rw [hMap]
  refine (f.perm.map _).trans ?_
  have hRange : f.args.map f.args.idxOf = List.range f.args.length := by
    refine List.ext_getElem (by simp) fun k hk _ => ?_
    rw [List.getElem_map, List.getElem_range]
    exact f.nodup.idxOf_getElem k _
  rw [hRange]

theorem order_nodup (f : Func) : f.order.Nodup := f.order_perm.nodup_iff.mpr List.nodup_range

theorem length_order (f : Func) : f.order.length = f.args.length := by
  rw [f.order_perm.length_eq, List.length_range]

theorem mem_order (f : Func) {j : Nat} : j ∈ f.order ↔ j < f.args.length := by
  rw [f.order_perm.mem_iff, List.mem_range]

end Func

theorem positions_eq {name : Name} (h : name ∈ f.args) : positions f name = [f.args.idxOf name] := by
  refine List.perm_singleton.mp ((List.perm_ext_iff_of_nodup (List.nodup_range.filter _)
    (List.nodup_singleton _)).mpr fun j => ?_)
  rw [List.mem_filter, List.mem_range, List.mem_singleton, decide_eq_true_eq]
  constructor
  · rintro ⟨hj, hName⟩
    rw [List.getElem?_eq_getElem hj, Option.some.injEq] at hName
    rw [← hName, f.nodup.idxOf_getElem]
  · rintro rfl
    exact ⟨List.idxOf_lt_length_of_mem h, List.getElem?_idxOf h⟩

/-- The loop over the storage dimensions lists their arguments and pads their extents. -/
theorem visitDims_eq (layout : Layout) {dims : List StorageDim} (hMem : ∀ dim ∈ dims, dim.var ∈ f.args)
    (hNodup : (dims.map StorageDim.var).Nodup) :
    visitDims f r dims layout.storagePermutation.length layout =
      some { storagePermutation := layout.storagePermutation ++ dims.map f.index
             allocationExtents := fun j =>
              match dims.find? fun dim => f.index dim = j with
              | some dim => r.bounds[j]?.map fun range => allocationExtent range.extent dim.alignment
              | none => layout.allocationExtents j } := by
  induction dims generalizing layout with
  | nil => simp only [visitDims, List.map_nil, List.append_nil, List.find?_nil]
  | cons dim dims ih =>
    obtain ⟨hFresh, hRest⟩ := List.nodup_cons.mp hNodup
    have hLength : (visitPosition r dim layout (f.index dim)).storagePermutation.length =
        layout.storagePermutation.length + 1 := by
      simp only [visitPosition, List.length_append, List.length_singleton]
    have hNext := ih (visitPosition r dim layout (f.index dim))
      (fun dim' h => hMem dim' (List.mem_cons_of_mem _ h)) hRest
    rw [hLength] at hNext
    rw [visitDims, positions_eq (hMem dim (List.mem_cons_self ..))]
    simp only [List.foldl_cons, List.foldl_nil]
    rw [← Func.index]
    simp only [hLength, if_true]
    rw [hNext, Option.some.injEq, Layout.mk.injEq]
    constructor
    · simp only [visitPosition, List.map_cons, List.append_assoc, List.singleton_append]
    · funext j
      by_cases hj : f.index dim = j
      · have hNone : dims.find? (fun dim' => decide (f.index dim' = j)) = none := by
          rw [List.find?_eq_none]
          intro dim' hdim' hIndex
          rw [decide_eq_true_eq, ← hj] at hIndex
          have hVar := (List.idxOf_inj (hMem dim' (List.mem_cons_of_mem _ hdim'))).mp hIndex
          exact hFresh (hVar ▸ List.mem_map_of_mem hdim')
        rw [List.find?_cons_of_pos (by rw [decide_eq_true_eq, hj]), hNone]
        simp only [visitPosition, ← hj, Function.update_self]
      · rw [List.find?_cons_of_neg (by rw [decide_eq_true_eq]; exact hj)]
        split
        · rfl
        · simp only [visitPosition, Function.update_of_ne (Ne.symm hj)]

/-- The extent that is allocated for a dimension. -/
def allocated (f : Func) (r : Realize) (j : Nat) : Expr :=
  match r.bounds[j]? with
  | some range => allocationExtent range.extent (f.alignment j)
  | none => makeZero .int32

theorem find?_index (f : Func) {j : Nat} (hj : j < f.args.length) :
    ∃ dim ∈ f.storageDims, f.storageDims.find? (fun dim => f.index dim = j) = some dim ∧
      f.index dim = j := by
  obtain ⟨dim, hdim, hIndex⟩ := List.mem_map.mp (f.mem_order.mpr hj)
  have hSome : (f.storageDims.find? fun dim => f.index dim = j).isSome :=
    List.find?_isSome.mpr ⟨dim, hdim, decide_eq_true hIndex⟩
  obtain ⟨dim', hFind⟩ := Option.isSome_iff_exists.mp hSome
  have hFound := List.find?_some hFind
  exact ⟨dim', List.mem_of_find?_eq_some hFind, hFind, of_decide_eq_true hFound⟩

/-- The realization of a function has a bound for each of its arguments, so no assertion fires. -/
theorem visitRealize_eq (hBounds : r.bounds.length = f.args.length) :
    visitRealize f r = some (r.bounds.zipIdx.foldr (boundLets r) (innermostLet r f.order
      ((f.order.zip f.order.tail).foldr (strideLet r fun j =>
          ((List.range r.bounds.length).map (allocated f r)).getD j (makeZero .int32))
        (.allocate r.name ((List.range r.bounds.length).map (allocated f r)))))) := by
  have hDims := visitDims_eq (r := r) {} (fun dim => f.var_mem) f.vars_nodup
  have hExtents (j : Nat) (hj : j ∈ List.range r.bounds.length) :
      (match f.storageDims.find? fun dim => f.index dim = j with
        | some dim => r.bounds[j]?.map fun range => allocationExtent range.extent dim.alignment
        | none => none) = some (allocated f r j) := by
    have hBound := List.mem_range.mp hj
    obtain ⟨dim, -, hFind, -⟩ := find?_index f (hBounds ▸ hBound)
    rw [allocated, Func.alignment, hFind, List.getElem?_eq_getElem hBound]
    rfl
  have hLength : f.order.length = r.bounds.length := f.length_order.trans hBounds.symm
  have hMap := Pointwise.mapM_eq_map hExtents
  have hOrder : f.storageDims.map f.index = f.order := rfl
  simp only [List.length_nil, List.nil_append, hOrder] at hDims
  simp only [visitRealize, hDims, Option.bind_eq_bind, Option.bind_some, hLength, if_true, hMap, Option.pure_def]

end Vyasa.StorageFlattening
