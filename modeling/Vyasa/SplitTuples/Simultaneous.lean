import Vyasa.SplitTuples.Mutator
import Vyasa.Pointwise.Basic
import Vyasa.Writes.Basic

/-! A tuple is stored as if all its elements were at once, as long as no element that is
stored moves a later one. -/
namespace Vyasa.SplitTuples

open Binding IREquality CSE

section Meaning

/-- What the nodes compute that do not read the memory. -/
structure Semantics (V : Type) where
  value : Op → List V → V
  toInt : V → Int
  ofInt : Int → V
  boolean : Bool → V
  boolean_ne : boolean true ≠ boolean false
  true_eq : value (.UIntImm bool 1) [] = boolean true
  and_eq : ∀ a b, value (.Binary .And bool) [boolean a, boolean b] = boolean (a && b)
  not_eq : ∀ a, value (.Not bool) [boolean a] = boolean (!a)
  ge_eq : ∀ a b, value (.Binary .GE bool) [ofInt a, ofInt b] = boolean (decide (b ≤ a))

/-- Where the buffers of the functions and those of the images are. An image may share its
memory with others. -/
structure Layout (A : Type) where
  place : String → List Int → A
  image : String → List Int → A
  place_inj : ∀ {name name' c c'}, place name c = place name' c' → name = name' ∧ c = c'

variable {V A : Type} (sem : Semantics V) (layout : Layout A) (env : String → Option Nat)

/-- Calls of scalar functions read their buffers. -/
def scalar (m : A → V) : Op → List V → V
  | .Call _ name .Halide _, vs => m (layout.place name (vs.map sem.toInt))
  | .Call _ name .Image _, vs => m (layout.image name (vs.map sem.toInt))
  | op, vs => sem.value op vs

/-- The buffer of an element of a function, which has a name of its own in a tuple. -/
def bufferOf (name : String) (i : Int) : String :=
  if (env name).getD 1 > 1 then elementName name i else name

/-- Calls of functions with several values read the buffer of an element. -/
def tupled (m : A → V) : Op → List V → V
  | .Call _ name .Halide i, vs => m (layout.place (bufferOf env name i) (vs.map sem.toInt))
  | .Call _ name .Image _, vs => m (layout.image name (vs.map sem.toInt))
  | op, vs => sem.value op vs

/-- The memory after a statement. A `Provide` of the undefined value is removed later. -/
def exec [DecidableEq A] : Stmt → (String → V) → (A → V) → A → V
  | .Provide name value args, ρ, m =>
    if is_undef value then m
    else Function.update m (layout.place name ((args.eval (scalar sem layout m) ρ).map sem.toInt))
      (value.eval (scalar sem layout m) ρ)
  | .Block first rest, ρ, m => exec rest ρ (exec first ρ m)
  | .LetStmt x value body, ρ, m => exec body (Function.update ρ x (value.eval (scalar sem layout m) ρ)) m

namespace Provide

variable (op : Provide)

/-- The elements that get a value, with their indices. -/
def elements : List (Expr × Nat) := op.values.zipIdx.filter fun e => !is_undef e.1

def coords (ρ : String → V) (m : A → V) : List Int :=
  (op.args.eval (tupled sem layout env m) ρ).map sem.toInt

/-- Where an element is stored, by the indices in this memory. -/
def location (ρ : String → V) (e : Expr × Nat) (m : A → V) : A :=
  layout.place (elementName op.name e.2) (op.coords sem layout env ρ m)

/-- Of the arguments or the values. -/
def Applies (ρ : String → V) (m : A → V) (f : Op) (vs : List V) : Prop :=
  op.args.Applies (tupled sem layout env m) ρ f vs ∨
    ∃ v ∈ op.values, v.Applies (tupled sem layout env m) ρ f vs

end Provide

def valueOf (ρ : String → V) (e : Expr × Nat) (m : A → V) : V := e.1.eval (tupled sem layout env m) ρ

end Meaning

section Boxes

variable {V : Type} {sem : Semantics V} {interp : Op → List V → V} {ρ : String → V}

/-- The interval has the index. -/
structure Interval.Contains (sem : Semantics V) (interp : Op → List V → V) (ρ : String → V) (i : Interval)
    (x : Int) : Prop where
  nonempty : i.is_empty = false
  lower : ∀ e, i.min = .expr e → ∃ n, e.eval interp ρ = sem.ofInt n ∧ n ≤ x
  upper : ∀ e, i.max = .expr e → ∃ n, e.eval interp ρ = sem.ofInt n ∧ x ≤ n

/-- The box is used and has the place. -/
def Box.Contains (sem : Semantics V) (interp : Op → List V → V) (ρ : String → V) (b : Box) (c : List Int) :
    Prop :=
  (usedOr b).eval interp ρ = sem.boolean true ∧ List.Forall₂ (Interval.Contains sem interp ρ) b.bounds c

/-- The variables for the infinities are in order. -/
def Ordered (sem : Semantics V) (ρ : String → V) : Prop :=
  ∃ n n', ρ "neg_inf" = sem.ofInt n ∧ ρ "pos_inf" = sem.ofInt n' ∧ n ≤ n'

/-- The nodes of conditions have their meaning. -/
structure Logical (sem : Semantics V) (interp : Op → List V → V) : Prop where
  and_eq : interp (.Binary .And bool) = sem.value (.Binary .And bool)
  not_eq : interp (.Not bool) = sem.value (.Not bool)
  ge_eq : interp (.Binary .GE bool) = sem.value (.Binary .GE bool)

theorem eval_and (h : Logical sem interp) {a b : Expr} (ha : a.eval interp ρ = sem.boolean true)
    (hb : b.eval interp ρ = sem.boolean true) : (and a b).eval interp ρ = sem.boolean true := by
  rw [and, Term.eval, Terms.eval, Terms.eval, Terms.eval, ha, hb, h.and_eq, sem.and_eq]
  rfl

/-- An index is no greater than the upper end of one interval and no less than the lower end
of the other. -/
theorem eval_ge (h : Logical sem interp) (hOrdered : Ordered sem ρ) {a b : Interval} {x : Int} {e : Expr}
    (ha : a.Contains sem interp ρ x) (hb : b.Contains sem interp ρ x) (hGe : ge b.max a.min = some e) :
    e.eval interp ρ = sem.boolean true := by
  obtain ⟨low, high, hLow, hHigh, hLe⟩ := hOrdered
  have hNotEmpty := ha.nonempty
  have hNotEmpty' := hb.nonempty
  suffices hEnds : ∃ n n', a.min.toExpr.eval interp ρ = sem.ofInt n ∧ b.max.toExpr.eval interp ρ = sem.ofInt n' ∧
      n ≤ n' ∧ e = .app (.Binary .GE bool) (.cons b.max.toExpr (.cons a.min.toExpr .nil)) by
    obtain ⟨n, n', hMin, hMax, hLe, rfl⟩ := hEnds
    rw [Term.eval, Terms.eval, Terms.eval, Terms.eval, hMin, hMax, h.ge_eq, sem.ge_eq, decide_eq_true hLe]
  obtain ⟨min, amax⟩ := a
  obtain ⟨bmin, max⟩ := b
  dsimp only at hGe ⊢
  cases min with
  | pos_inf => cases hNotEmpty
  | neg_inf =>
    cases max with
    | neg_inf => cases bmin <;> cases hNotEmpty'
    | pos_inf =>
      cases hGe
      exact ⟨low, high, hLow, hHigh, hLe, rfl⟩
    | expr m => cases hGe
  | expr l =>
    cases max with
    | neg_inf => cases bmin <;> cases hNotEmpty'
    | pos_inf => cases hGe
    | expr m =>
      obtain ⟨n, hMin, hn⟩ := ha.lower l rfl
      obtain ⟨n', hMax, hn'⟩ := hb.upper m rfl
      rw [ge] at hGe
      split_ifs at hGe
      cases hGe
      exact ⟨n, n', hMin, hMax, hn.trans hn', rfl⟩

theorem eval_andIf (h : Logical sem interp) {bounded : Bool} {overlap overlap' : Expr} {e : Option Expr}
    (hOverlap : overlap.eval interp ρ = sem.boolean true)
    (he : ∀ e', e = some e' → e'.eval interp ρ = sem.boolean true)
    (hStep : andIf bounded overlap e = some overlap') : overlap'.eval interp ρ = sem.boolean true := by
  rw [andIf] at hStep
  split_ifs at hStep
  · obtain ⟨e', hGe, rfl⟩ := Option.map_eq_some_iff.mp hStep
    exact eval_and h hOverlap (he e' hGe)
  · cases hStep
    exact hOverlap

theorem eval_overlapIn (h : Logical sem interp) (hOrdered : Ordered sem ρ) {a b : Interval} {x : Int}
    {overlap overlap' : Expr} (ha : a.Contains sem interp ρ x) (hb : b.Contains sem interp ρ x)
    (hOverlap : overlap.eval interp ρ = sem.boolean true) (hStep : overlapIn overlap a b = some overlap') :
    overlap'.eval interp ρ = sem.boolean true := by
  obtain ⟨middle, hFirst, hSecond⟩ := Option.bind_eq_some_iff.mp hStep
  have hMiddle := eval_andIf h hOverlap (fun e => eval_ge h hOrdered ha hb) hFirst
  exact eval_andIf h hMiddle (fun e => eval_ge h hOrdered hb ha) hSecond

/-- Boxes that do not overlap have no place in common. -/
theorem not_contains_of_boxes_overlap {analysis : Analysis} {a b : Box} {c : List Int}
    (h : Logical sem interp) (hOrdered : Ordered sem ρ)
    (hProve : ∀ e, analysis.can_prove (analysis.simplify e) = true → e.eval interp ρ = sem.boolean true)
    (hNot : boxes_overlap analysis a b = some false) (ha : a.Contains sem interp ρ c) :
    ¬b.Contains sem interp ρ c := by
  intro hb
  have hSize : a.size = b.size := ha.2.length_eq.trans hb.2.length_eq.symm
  rw [boxes_overlap, if_neg fun hNe => hNe.1 hSize, if_neg fun hNe => hNe hSize] at hNot
  obtain ⟨overlap, hFold, hNot⟩ := Option.bind_eq_some_iff.mp hNot
  have hTrue : overlap.eval interp ρ = sem.boolean true := by
    have hStart := eval_and h ha.1 hb.1
    revert hFold hStart
    generalize and (usedOr a) (usedOr b) = start
    obtain ⟨-, ha⟩ := ha
    obtain ⟨-, hb⟩ := hb
    generalize a.bounds = as at ha
    generalize b.bounds = bs at hb
    induction ha generalizing bs start with
    | nil =>
      intro hFold hStart
      cases hFold
      exact hStart
    | cons hHead _ ih =>
      intro hFold hStart
      cases hb with
      | cons hHead' hRest' =>
        obtain ⟨next, hNext, hFold⟩ := Option.bind_eq_some_iff.mp hFold
        exact ih _ _ hRest' hFold (eval_overlapIn h hOrdered hHead hHead' hStart hNext)
  have hFalse := hProve (not overlap) (by simpa using hNot)
  rw [not, Term.eval, Terms.eval, Terms.eval, hTrue, h.not_eq, sem.not_eq] at hFalse
  exact sem.boolean_ne hFalse.symm

end Boxes

section Names

theorem toList_elementName (name : String) (i : Int) :
    (elementName name i).toList = name.toList ++ '.' :: (toString i).toList := by
  rw [elementName, String.toList_append, String.toList_append]
  simp

/-- The first dot ends the name of the function. -/
theorem dot_unique {l l' d d' : List Char} (hl : '.' ∉ l) (hl' : '.' ∉ l') (h : l ++ '.' :: d = l' ++ '.' :: d') :
    l = l' := by
  induction l generalizing l' with
  | nil =>
    cases l' with
    | nil => rfl
    | cons c l' =>
      cases h
      exact absurd List.mem_cons_self hl'
  | cons c l ih =>
    cases l' with
    | nil =>
      cases h
      exact absurd List.mem_cons_self hl
    | cons c' l' =>
      rw [List.cons_append, List.cons_append, List.cons.injEq] at h
      rw [h.1, ih (fun hc => hl (List.mem_cons_of_mem _ hc)) (fun hc => hl' (List.mem_cons_of_mem _ hc)) h.2]

theorem name_of_elementName {f g : String} {i j : Int} (hf : '.' ∉ f.toList) (hg : '.' ∉ g.toList)
    (h : elementName f i = elementName g j) : f = g := by
  have hList := congrArg String.toList h
  rw [toList_elementName, toList_elementName] at hList
  exact String.toList_injective (dot_unique hf hg hList)

theorem elementName_inj {name : String} {i j : Nat} (h : elementName name i = elementName name j) : i = j := by
  have hRepr : i.repr = j.repr := (String.append_right_inj _).mp h
  have hNumber := congrArg (fun s => Nat.ofDigitChars 10 s.toList 0) hRepr
  simpa only [Nat.toList_repr, Nat.ofDigitChars_ten_toDigits] using hNumber

theorem valueName_inj {name : String} {i j : Nat} (h : valueName name i = valueName name j) : i = j :=
  elementName_inj ((String.append_left_inj _).mp h)

/-- A function whose buffer is that of an element is the function of that element. -/
theorem name_of_bufferOf {env : String → Option Nat} (hNames : ∀ f n, env f = some n → '.' ∉ f.toList)
    {f g : String} {n : Nat} {i j : Int} (hf : env f = some n) (hg : (env g).isSome)
    (h : bufferOf env g j = elementName f i) : g = f := by
  obtain ⟨k, hk⟩ := Option.isSome_iff_exists.mp hg
  rw [bufferOf] at h
  split_ifs at h
  · exact name_of_elementName (hNames g k hk) (hNames f n hf) h
  · refine absurd ?_ (hNames g k hk)
    rw [h, toList_elementName]
    exact List.mem_append_right _ List.mem_cons_self

end Names

section Elements

variable {V A : Type} [DecidableEq A] {sem : Semantics V} {layout : Layout A} {env : String → Option Nat}
  {ρ ρ' : String → V} {m m' : A → V}

omit [DecidableEq A] in
theorem logical_tupled (m : A → V) : Logical sem (tupled sem layout env m) := ⟨rfl, rfl, rfl⟩

omit [DecidableEq A] in
/-- The new calls read what the old ones do. -/
theorem scalar_of_visitCall {f f' : Op} (h : visitCall env f = some f') (m : A → V) :
    scalar sem layout m f' = tupled sem layout env m f := by
  cases f with
  | Call type name call_type i =>
    cases call_type with
    | Halide =>
      obtain ⟨outputs, hOutputs, h⟩ := Option.bind_eq_some_iff.mp h
      cases h
      funext vs
      rw [scalar, tupled, bufferOf, hOutputs]
      rfl
    | _ =>
      cases h
      rfl
  | _ =>
    cases h
    rfl

omit [DecidableEq A] in
theorem eval_mutate {e e' : Expr} (h : mutate env e = some e') (m : A → V) (ρ : String → V) :
    e'.eval (scalar sem layout m) ρ = e.eval (tupled sem layout env m) ρ :=
  Term.eval_mapM (fun _ _ hf => scalar_of_visitCall hf m) h ρ

theorem is_undef_mutate {e e' : Expr} (h : mutate env e = some e') : is_undef e' = is_undef e := by
  cases e with
  | var type x =>
    cases h
    rfl
  | letIn x value body =>
    obtain ⟨value', hValue, h⟩ := Option.bind_eq_some_iff.mp h
    obtain ⟨body', hBody, h⟩ := Option.bind_eq_some_iff.mp h
    cases h
    rfl
  | app f args =>
    obtain ⟨args', hArgs, h⟩ := Option.bind_eq_some_iff.mp h
    obtain ⟨f', hf, h⟩ := Option.bind_eq_some_iff.mp h
    cases h
    cases f with
    | Call type name call_type i =>
      cases call_type with
      | Halide =>
        obtain ⟨outputs, hOutputs, hf⟩ := Option.bind_eq_some_iff.mp hf
        cases hf
        rfl
      | _ =>
        cases hf
        rfl
    | _ =>
      cases hf
      rfl

theorem exec_blockOf {l : List Stmt} {s : Stmt} (h : Stmt.blockOf l = some s) (ρ : String → V) (m : A → V) :
    exec sem layout s ρ m = l.foldl (fun m s => exec sem layout s ρ m) m := by
  induction l generalizing s m with
  | nil => cases h
  | cons first rest ih =>
    cases rest with
    | nil =>
      cases h
      rfl
    | cons second rest =>
      obtain ⟨rest', hRest, rfl⟩ := Option.map_eq_some_iff.mp h
      rw [exec, ih hRest]
      rfl

/-- Inside the lets. -/
theorem exec_lets (lets : List (String × Expr)) (s : Stmt) (ρ : String → V) (m : A → V) :
    exec sem layout (lets.foldr (fun p s => .LetStmt p.1 p.2 s) s) ρ m =
      exec sem layout s (Writes.run (fun p _ => p.1) (fun p ρ => p.2.eval (scalar sem layout m) ρ) lets ρ) m := by
  induction lets generalizing ρ with
  | nil => rfl
  | cons p lets ih =>
    rw [List.foldr_cons, exec, ih]
    rfl

omit [DecidableEq A] in
/-- The lets give their names the values, if no value uses one of the names. -/
theorem assigns_lets (sem : Semantics V) (layout : Layout A) {lets : List (String × Expr)} (hNodup : (lets.map Prod.fst).Nodup)
    (hFresh : ∀ p ∈ lets, ∀ q ∈ lets, p.1 ∉ q.2.freeVars) (ρ : String → V) (m : A → V) :
    Writes.Assigns Prod.fst (fun p => p.2.eval (scalar sem layout m) ρ) lets ρ
      (Writes.run (fun p _ => p.1) (fun p ρ => p.2.eval (scalar sem layout m) ρ) lets ρ) := by
  rw [Writes.run_fixed fun q hq ρ' hAgree => ⟨rfl, q.2.eval_congr _ fun x hx => hAgree x fun p hp hEq =>
    hFresh p hp q hq (hEq ▸ hx)⟩]
  exact Writes.assigns_run hNodup

/-- The stores of the elements, of which the undefined ones do nothing. -/
theorem foldl_provides {op : Provide} {atomic : Bool} {args' : Exprs} {es es' : List (Expr × Nat)}
    (val : Expr × Nat → (A → V) → V)
    (hValues : List.Forall₂ (fun p q => mutate env p.1 = some q.1 ∧ p.2 = q.2) es es')
    (hArgs : ∀ m, (args'.eval (scalar sem layout m) ρ').map sem.toInt = op.coords sem layout env ρ m)
    (hVal : ∀ p ∈ es, ∀ q ∈ es', mutate env p.1 = some q.1 ∧ p.2 = q.2 → is_undef p.1 = false → ∀ m,
      (if !is_undef q.1 && atomic then Term.var (typeOf q.1) (valueName op.name q.2) else q.1).eval
        (scalar sem layout m) ρ' = val p m) :
    (es'.map (provideElement op.name atomic args')).foldl (fun m s => exec sem layout s ρ' m) m =
      Writes.run (op.location sem layout env ρ) val (es.filter fun e => !is_undef e.1) m := by
  induction hValues generalizing m with
  | nil => rfl
  | @cons p q es es' hHead _ ih =>
    have ih := ih (m := exec sem layout (provideElement op.name atomic args' q) ρ' m) fun p hp q hq =>
      hVal p (List.mem_cons_of_mem _ hp) q (List.mem_cons_of_mem _ hq)
    rw [List.map_cons, List.foldl_cons, ih]
    have hUndef := is_undef_mutate hHead.1
    cases hDefined : is_undef p.1 with
    | true =>
      rw [hDefined] at hUndef
      rw [List.filter_cons_of_neg (by simp [hDefined]), provideElement, exec, if_pos]
      rw [if_neg (by simp [hUndef]), hUndef]
    | false =>
      rw [hDefined] at hUndef
      have hValue := hVal p List.mem_cons_self q List.mem_cons_self hHead hDefined m
      rw [List.filter_cons_of_pos (by simp [hDefined]), Writes.run_cons]
      congr 1
      rw [provideElement, exec, if_neg, hArgs, hValue, Provide.location, hHead.2]
      split_ifs
      · exact Bool.false_ne_true
      · rw [hUndef]
        exact Bool.false_ne_true

end Elements

section Images

/-- It is not a call of an image. -/
def NotImage (f : Op) : Prop := ∀ type name i, f ≠ .Call type name .Image i

mutual

theorem all_notImage : ∀ {e : Expr}, usesExternImage e = false → e.All NotImage
  | .var _ _, _ => trivial
  | .letIn _ _ _, h => by
    rw [usesExternImage, Bool.or_eq_false_iff] at h
    exact ⟨all_notImage h.1, all_notImage h.2⟩
  | .app f args, h => by
    rw [usesExternImage.eq_def] at h
    split at h
    · rename_i hEq
      cases hEq
    · rename_i hEq
      cases hEq
    · cases h
    · rename_i hNot hEq
      cases hEq
      exact ⟨fun type name i hf => hNot type name i (hf ▸ rfl), all_notImages h⟩

theorem all_notImages : ∀ {es : Exprs}, usesExternImages es = false → es.All NotImage
  | .nil, _ => trivial
  | .cons _ _, h => by
    rw [usesExternImages, Bool.or_eq_false_iff] at h
    exact ⟨all_notImage h.1, all_notImages h.2⟩

end

end Images

section Tuples

variable {V A : Type} [DecidableEq A] {sem : Semantics V} {layout : Layout A} {env : String → Option Nat}
  {analysis : Analysis} {realizations : List String} {op : Provide} {s : Stmt} {ρ : String → V} {m m' : A → V}

/-- The simplifier proves what is true, the box provided has the place that is stored to, and
the box required those that are read. -/
structure Sound (sem : Semantics V) (layout : Layout A) (env : String → Option Nat) (analysis : Analysis)
    (op : Provide) : Prop where
  prove : ∀ e, analysis.can_prove (analysis.simplify e) = true → ∀ ρ m, Ordered sem ρ →
    e.eval (tupled sem layout env m) ρ = sem.boolean true
  provided : ∀ ρ m, (analysis.box_provided op op.name).Contains sem (tupled sem layout env m) ρ
    (op.coords sem layout env ρ m)
  required : ∀ ρ m type i vs, op.Applies sem layout env ρ m (.Call type op.name .Halide i) vs →
    (analysis.box_required op op.name).Contains sem (tupled sem layout env m) ρ (vs.map sem.toInt)

theorem of_not_atomic (h : isAtomic analysis realizations op = some false) :
    (op.name ∈ realizations ∨ uses_extern_image op = false) ∧
      boxes_overlap analysis (analysis.box_provided op op.name) (analysis.box_required op op.name) =
        some false := by
  rw [isAtomic] at h
  split_ifs at h with hImage
  · cases h
  · refine ⟨?_, h⟩
    simpa [or_iff_not_imp_left] using hImage

omit [DecidableEq A] in
theorem applies_notImage (hImage : uses_extern_image op = false) {f : Op} {vs : List V}
    (h : op.Applies sem layout env ρ m f vs) : NotImage f := by
  rw [uses_extern_image, Bool.or_eq_false_iff, List.any_eq_false] at hImage
  obtain ⟨hValues, hArgs⟩ := hImage
  rcases h with h | ⟨v, hv, h⟩
  · exact Terms.All.of_applies (all_notImages hArgs) h
  · exact Term.All.of_applies (all_notImage (Bool.eq_false_iff.mpr (hValues v hv))) h

omit [DecidableEq A] in
/-- A statement that is not atomic reads nothing that it stores to. -/
theorem tupled_of_not_atomic (hNames : ∀ f n, env f = some n → '.' ∉ f.toList)
    (hSome : (env op.name).isSome) (hKnown : ∀ f vs, op.Applies sem layout env ρ m f vs → (visitCall env f).isSome)
    (hSound : Sound sem layout env analysis op)
    (hAlias : op.name ∈ realizations → ∀ img c i c', layout.image img c ≠ layout.place (elementName op.name i) c')
    (hOrdered : Ordered sem ρ) (hAtomic : isAtomic analysis realizations op = some false)
    (hAgree : ∀ a, (∀ i : Nat, a ≠ layout.place (elementName op.name i) (op.coords sem layout env ρ m)) → m' a = m a)
    {f : Op} {vs : List V} (h : op.Applies sem layout env ρ m f vs) :
    tupled sem layout env m' f vs = tupled sem layout env m f vs := by
  obtain ⟨hImage, hApart⟩ := of_not_atomic hAtomic
  cases f with
  | Call type name call_type i =>
    cases call_type with
    | Halide =>
      refine hAgree _ fun k hEq => ?_
      obtain ⟨hBuffer, hCoords⟩ := layout.place_inj hEq
      obtain ⟨n, hn⟩ := Option.isSome_iff_exists.mp hSome
      have hHas : (env name).isSome := by
        obtain ⟨f', hf⟩ := Option.isSome_iff_exists.mp (hKnown _ vs h)
        obtain ⟨outputs, hOutputs, -⟩ := Option.bind_eq_some_iff.mp hf
        exact Option.isSome_iff_exists.mpr ⟨outputs, hOutputs⟩
      obtain rfl := name_of_bufferOf hNames hn hHas hBuffer
      refine not_contains_of_boxes_overlap (logical_tupled m) hOrdered (fun e he => hSound.prove e he ρ m hOrdered)
        hApart (hSound.provided ρ m) ?_
      rw [← hCoords]
      exact hSound.required ρ m type i vs h
    | Image =>
      refine hAgree _ fun k => ?_
      rcases hImage with hRealized | hImage
      · exact hAlias hRealized name _ k _
      · exact absurd rfl (applies_notImage hImage h type name i)
    | _ => rfl
  | _ => rfl

theorem pairwise_zipIdx (values : List Expr) : (values.zipIdx.map Prod.snd).Nodup := by
  rw [List.zipIdx_map_snd]
  exact List.nodup_range'

theorem nodup_lets (name : String) (atomic : Bool) (values : List Expr) :
    ((values.zipIdx.filterMap (letOf name atomic)).map Prod.fst).Nodup := by
  rw [List.Nodup, List.pairwise_map, List.pairwise_filterMap]
  refine (List.pairwise_map.mp (pairwise_zipIdx values)).imp fun {p q} hNe r hr t ht hEq => hNe ?_
  rw [letOf] at hr ht
  split_ifs at hr ht
  cases hr
  cases ht
  exact valueName_inj hEq

theorem mem_lets {name : String} {atomic : Bool} {values : List Expr} {r : String × Expr}
    (h : r ∈ values.zipIdx.filterMap (letOf name atomic)) :
    atomic = true ∧ r.2 ∈ values ∧ ∃ i : Nat, r.1 = valueName name i := by
  obtain ⟨p, hp, hr⟩ := List.mem_filterMap.mp h
  rw [letOf] at hr
  split_ifs at hr with hAtomic
  cases hr
  exact ⟨(Bool.and_eq_true_iff.mp hAtomic).2, List.fst_mem_of_mem_zipIdx hp, p.2, rfl⟩

theorem nodup_elements (op : Provide) : op.elements.Nodup :=
  ((pairwise_zipIdx op.values).of_map).filter _

theorem elements_ne {e e' : Expr × Nat} (he : e ∈ op.elements) (he' : e' ∈ op.elements) (hNe : e ≠ e') :
    e.2 ≠ e'.2 := fun hEq =>
  hNe (List.inj_on_of_nodup_map (pairwise_zipIdx op.values) (List.mem_of_mem_filter he)
    (List.mem_of_mem_filter he') hEq)

/-- The block is a run of stores of the values at the start. -/
theorem exec_visitProvide (h : visitProvide env analysis realizations op = some s) (hTuple : 2 ≤ op.values.length)
    (hNames : ∀ f n, env f = some n → '.' ∉ f.toList) (hSound : Sound sem layout env analysis op)
    (hAlias : op.name ∈ realizations → ∀ img c i c', layout.image img c ≠ layout.place (elementName op.name i) c')
    (hFresh : ∀ i : Nat, valueName op.name i ∉ op.args.freeVars ∧ ∀ v ∈ op.values, valueName op.name i ∉ v.freeVars)
    (hOrdered : Ordered sem ρ) (m : A → V) :
    exec sem layout s ρ m = Writes.run (op.location sem layout env ρ)
      (fun e _ => valueOf sem layout env ρ e m) op.elements m := by
  rw [visitProvide] at h
  split at h
  · rename_i value hOne
    rw [hOne] at hTuple
    exact absurd hTuple (Nat.not_succ_le_self 1)
  obtain ⟨atomic, hAtomic, h⟩ := Option.bind_eq_some_iff.mp h
  obtain ⟨args', hArgs, h⟩ := Option.bind_eq_some_iff.mp h
  obtain ⟨outputs, hOutputs, h⟩ := Option.bind_eq_some_iff.mp h
  obtain ⟨values', hValues, h⟩ := Option.bind_eq_some_iff.mp h
  obtain ⟨block, hBlock, h⟩ := Option.bind_eq_some_iff.mp h
  cases h
  have hRelated := Pointwise.of_mapM hValues
  have hFreshValue (i : Nat) (v' : Expr) (hv' : v' ∈ values') : valueName op.name i ∉ v'.freeVars := by
    obtain ⟨v, hv, hMutate⟩ := Pointwise.exists_left hRelated hv'
    rw [Term.freeVars_mapM hMutate]
    exact (hFresh i).2 v hv
  obtain ⟨hLet, hOther⟩ := assigns_lets sem layout (nodup_lets op.name atomic values')
    (fun p hp q hq => by
      obtain ⟨-, -, i, hi⟩ := mem_lets hp
      rw [hi]
      exact hFreshValue i q.2 (mem_lets hq).2.1) ρ m
  rw [exec_lets, exec_blockOf hBlock]
  generalize Writes.run _ _ _ ρ = ρ' at hLet hOther ⊢
  have hEvalArgs (m' : A → V) :
      (args'.eval (scalar sem layout m') ρ').map sem.toInt = op.coords sem layout env ρ m' := by
    rw [Provide.coords, ← Terms.eval_mapM (fun _ _ hf => scalar_of_visitCall hf m') hArgs ρ]
    refine congrArg (List.map sem.toInt) (args'.eval_congr _ fun x hx => hOther x fun p hp hEq => ?_)
    obtain ⟨-, -, i, hi⟩ := mem_lets hp
    rw [Terms.freeVars_mapM hArgs, hEq, hi] at hx
    exact (hFresh i).1 hx
  cases atomic with
  | true =>
    refine foldl_provides _ (Pointwise.zipIdx hRelated 0) hEvalArgs fun p _ q hq hpq hDefined m' => ?_
    have hUndef := is_undef_mutate hpq.1
    rw [hDefined] at hUndef
    rw [if_pos (by rw [hUndef]; rfl), Term.eval,
      hLet (valueName op.name q.2, q.1) (List.mem_filterMap.mpr ⟨q, hq, if_pos (by rw [hUndef]; rfl)⟩)]
    exact eval_mutate hpq.1 m ρ
  | false =>
    have hSame : ρ' = ρ := funext fun x => hOther x fun p hp => absurd (mem_lets hp).1 Bool.false_ne_true
    subst hSame
    have hRun := foldl_provides (m := m) (valueOf sem layout env ρ') (Pointwise.zipIdx hRelated 0)
      hEvalArgs fun p _ q _ hpq _ m' => by
        rw [if_neg (by rw [Bool.and_false]; exact Bool.false_ne_true)]
        exact eval_mutate hpq.1 m' ρ'
    refine hRun.trans (Writes.run_fixed fun e he m' hAgree => ?_)
    have hRead {f : Op} {vs : List V} (hf : op.Applies sem layout env ρ' m f vs) :
        tupled sem layout env m' f vs = tupled sem layout env m f vs := by
      refine tupled_of_not_atomic hNames (Option.isSome_iff_exists.mpr ⟨outputs, hOutputs⟩) (fun f vs hf => ?_)
        hSound hAlias hOrdered hAtomic (fun a ha => hAgree a fun e' _ => ha e'.2) hf
      rcases hf with hf | ⟨v, hv, hf⟩
      · exact Terms.All.of_applies (p := fun f => (visitCall env f).isSome) (Terms.all_of_mapM hArgs) hf
      · obtain ⟨v', -, hMutate⟩ := Pointwise.exists_right hRelated hv
        exact Term.All.of_applies (p := fun f => (visitCall env f).isSome) (Term.all_of_mapM hMutate) hf
    have hValue : e.1 ∈ op.values := List.fst_mem_of_mem_zipIdx (List.mem_of_mem_filter he)
    refine ⟨?_, e.1.eval_congr_interp fun f vs hf => hRead (Or.inr ⟨e.1, hValue, hf⟩)⟩
    rw [Provide.location, Provide.location, Provide.coords,
      op.args.eval_congr_interp fun f vs hf => hRead (Or.inl hf)]
    rfl

/-- All elements get their values at the indices before the statement if and only if the
indices do not move: for each element, those after the elements before it are stored are the
ones before the statement, unless its value is at both places already. -/
theorem split_simultaneous_iff (h : visitProvide env analysis realizations op = some s)
    (hTuple : 2 ≤ op.values.length) (hNames : ∀ f n, env f = some n → '.' ∉ f.toList)
    (hSound : Sound sem layout env analysis op)
    (hAlias : op.name ∈ realizations → ∀ img c i c', layout.image img c ≠ layout.place (elementName op.name i) c')
    (hFresh : ∀ i : Nat, valueName op.name i ∉ op.args.freeVars ∧ ∀ v ∈ op.values, valueName op.name i ∉ v.freeVars)
    (hOrdered : Ordered sem ρ) (m : A → V) :
    Writes.Assigns (op.location sem layout env ρ · m) (valueOf sem layout env ρ · m) op.elements m
        (exec sem layout s ρ m) ↔
      ∀ before e after, op.elements = before ++ e :: after → ∀ m',
        Writes.Assigns (op.location sem layout env ρ · m) (valueOf sem layout env ρ · m) before m m' →
          op.location sem layout env ρ e m' = op.location sem layout env ρ e m ∨
            (m (op.location sem layout env ρ e m) = valueOf sem layout env ρ e m ∧
              m (op.location sem layout env ρ e m') = valueOf sem layout env ρ e m) := by
  rw [exec_visitProvide h hTuple hNames hSound hAlias hFresh hOrdered m]
  refine Writes.assigns_run_iff (op.location sem layout env ρ)
    (fun e => {a | ∃ c, a = layout.place (elementName op.name e.2) c}) (nodup_elements op)
    (fun e _ m' => ⟨_, rfl⟩) fun e he e' he' hNe => Set.disjoint_left.mpr ?_
  rintro a ⟨c, rfl⟩ ⟨c', hEq⟩
  exact elements_ne he he' hNe (elementName_inj (layout.place_inj hEq).1)

end Tuples

section Integers

/-- Integers, with 1 for true. -/
def integers : Semantics Int where
  value
    | .IntImm _ n, _ => n
    | .UIntImm _ n, _ => n
    | .Binary .And _, [a, b] => a * b
    | .Binary .Min _, [a, b] => min a b
    | .Binary .Max _, [a, b] => max a b
    | .Binary .GE _, [a, b] => if b ≤ a then 1 else 0
    | .Not _, [a] => 1 - a
    | _, _ => 0
  toInt := id
  ofInt := id
  boolean b := if b then 1 else 0
  boolean_ne := by decide
  true_eq := rfl
  and_eq a b := by cases a <;> cases b <;> rfl
  not_eq a := by cases a <;> rfl
  ge_eq a b := by simp

/-- Every buffer has memory of its own. -/
def separate : Layout (Bool × String × List Int) where
  place name c := (true, name, c)
  image name c := (false, name, c)
  place_inj h := by
    cases h
    exact ⟨rfl, rfl⟩

def int32 : Ty := ⟨.int, 32, 1, none⟩

def intImm (n : Int) : Expr := .app (.IntImm int32 n) .nil

/-- A call of the element `i` of `f`. -/
def callF (i : Int) (index : Expr) : Expr := .app (.Call int32 "f" .Halide i) (.cons index .nil)

/-- Nothing is simplified, and only `true` is proved. -/
def literal (provided required : Interval) : Analysis where
  simplify := id
  can_prove
    | .app (.UIntImm _ n) .nil => n = 1
    | _ => false
  box_provided _ _ := ⟨none, [provided]⟩
  box_required _ _ := ⟨none, [required]⟩

theorem eval_of_literal {provided required : Interval} {e : Expr}
    (h : (literal provided required).can_prove ((literal provided required).simplify e) = true)
    (env : String → Option Nat) (ρ : String → Int) (m : Bool × String × List Int → Int) :
    e.eval (tupled integers separate env m) ρ = integers.boolean true := by
  dsimp only [literal, id] at h
  split at h
  · rename_i n
    obtain rfl : n = 1 := of_decide_eq_true h
    rfl
  · cases h

def twoOutputs (name : String) : Option Nat := if name = "f" then some 2 else none

theorem dot_notMem_of_twoOutputs (f : String) (n : Nat) (h : twoOutputs f = some n) : '.' ∉ f.toList := by
  rw [twoOutputs] at h
  split_ifs at h with hf
  rw [hf]
  decide

/-- `f(x) = {f(x)[1], f(x)[0]}` -/
def swap : Provide := ⟨"f", [callF 1 (.var int32 "x"), callF 0 (.var int32 "x")], .cons (.var int32 "x") .nil⟩

def swapAnalysis : Analysis := literal ⟨.expr (.var int32 "x"), .expr (.var int32 "x")⟩
  ⟨.expr (.var int32 "x"), .expr (.var int32 "x")⟩

/-- `f(clamp(f(0)[0], 0, 9)) = {5, 7}` -/
def storeClamped : Provide :=
  ⟨"f", [intImm 5, intImm 7], .cons (.app (.Binary .Max int32)
    (.cons (.app (.Binary .Min int32) (.cons (callF 0 (intImm 0)) (.cons (intImm 9) .nil))) (.cons (intImm 0) .nil))) .nil⟩

def clampedAnalysis : Analysis := literal ⟨.expr (intImm 0), .expr (intImm 9)⟩ ⟨.expr (intImm 0), .expr (intImm 0)⟩

theorem contains_literal {interp : Op → List Int → Int} {ρ : String → Int}
    {lower upper : Expr} {x : Int} (hLower : lower.eval interp ρ ≤ x) (hUpper : x ≤ upper.eval interp ρ) :
    Interval.Contains integers interp ρ ⟨.expr lower, .expr upper⟩ x where
  nonempty := rfl
  lower e he := by
    cases he
    exact ⟨_, rfl, hLower⟩
  upper e he := by
    cases he
    exact ⟨_, rfl, hUpper⟩

theorem sound_swap : Sound integers separate twoOutputs swapAnalysis swap where
  prove e he ρ m _ := eval_of_literal he twoOutputs ρ m
  provided ρ m := ⟨rfl, List.Forall₂.cons (contains_literal (le_refl (ρ "x")) (le_refl (ρ "x"))) List.Forall₂.nil⟩
  required ρ m type i vs h := by
    obtain rfl : vs = [ρ "x"] := by
      simp only [Provide.Applies, swap, callF, Terms.Applies, Term.Applies, Terms.eval, Term.eval, or_false,
        false_or, List.mem_cons, List.not_mem_nil, exists_eq_or_imp, exists_eq_left] at h
      exact h.elim And.right And.right
    exact ⟨rfl, List.Forall₂.cons (contains_literal (le_refl (ρ "x")) (le_refl (ρ "x"))) List.Forall₂.nil⟩

/-- Both elements of `f` at 3. -/
def storedAtThree (a : Bool × String × List Int) : Int :=
  if a = (true, "f.0", [3]) then 10 else if a = (true, "f.1", [3]) then 11 else 0

theorem split_simultaneous_swap : ∃ s, visitProvide twoOutputs swapAnalysis [] swap = some s ∧
    exec integers separate s (fun _ => 3) storedAtThree (true, "f.0", [3]) = 11 ∧
    exec integers separate s (fun _ => 3) storedAtThree (true, "f.1", [3]) = 10 := by
  refine ⟨_, rfl, ?_⟩
  have hSplit : visitProvide twoOutputs swapAnalysis [] swap = some _ := rfl
  have hOrdered : Ordered integers fun _ => 3 := ⟨3, 3, rfl, rfl, le_refl 3⟩
  have hAssigns := (split_simultaneous_iff hSplit (by decide) dot_notMem_of_twoOutputs sound_swap nofun
    (fun i => ?_) hOrdered storedAtThree).mpr fun _ _ _ _ _ _ => Or.inl rfl
  · exact ⟨hAssigns.1 (callF 1 (.var int32 "x"), 0) List.mem_cons_self,
      hAssigns.1 (callF 0 (.var int32 "x"), 1) (List.mem_cons_of_mem _ List.mem_cons_self)⟩
  · have hNe : valueName "f" i ≠ "x" := fun hEq => by
      have hList := congrArg String.toList hEq
      rw [valueName, String.toList_append, toList_elementName] at hList
      cases hList
    simp [swap, callF, Term.freeVars, Terms.freeVars, hNe]

theorem sound_storeClamped : Sound integers separate twoOutputs clampedAnalysis storeClamped where
  prove e he ρ m _ := eval_of_literal he twoOutputs ρ m
  provided ρ m := ⟨rfl, List.Forall₂.cons (contains_literal (le_max_right _ _) (max_le (min_le_right _ _)
    (Int.zero_le_ofNat 9))) List.Forall₂.nil⟩
  required ρ m type i vs h := by
    obtain rfl : vs = [0] := by
      simp [Provide.Applies, storeClamped, callF, intImm, Terms.Applies, Term.Applies, Terms.eval, Term.eval,
        tupled, integers] at h
      exact h.2
    exact ⟨rfl, List.Forall₂.cons (contains_literal (le_refl 0) (le_refl 0)) List.Forall₂.nil⟩

/-- The second element is stored where the first one, 5, says. -/
theorem split_moves : ∃ s, visitProvide twoOutputs clampedAnalysis [] storeClamped = some s ∧
    Sound integers separate twoOutputs clampedAnalysis storeClamped ∧
    storeClamped.coords integers separate twoOutputs (fun _ => 0) (fun _ => 0) = [0] ∧
    exec integers separate s (fun _ => 0) (fun _ => 0) (true, "f.0", [0]) = 5 ∧
    exec integers separate s (fun _ => 0) (fun _ => 0) (true, "f.1", [0]) = 0 ∧
    exec integers separate s (fun _ => 0) (fun _ => 0) (true, "f.1", [5]) = 7 :=
  ⟨_, rfl, sound_storeClamped, by decide, by decide, by decide, by decide⟩

end Integers

end Vyasa.SplitTuples
