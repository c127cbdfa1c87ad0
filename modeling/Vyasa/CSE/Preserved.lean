import Vyasa.CSE.Eliminate

/-! Common subexpression elimination and the substitution of lets keep the value of an
expression and its live variables. -/
namespace Vyasa.CSE

open IREquality Binding

/-! ### The nodes of an expression -/

mutual

/-- The nodes below a node. -/
def Expr.inner : Expr → List Expr
  | .Variable .. => []
  | .Let _ _ _ value body => (value :: value.inner) ++ (body :: body.inner)
  | .node _ _ args => args.nodes

def Exprs.nodes : Exprs → List Expr
  | .nil => []
  | .cons e rest => (e :: e.inner) ++ rest.nodes

end

def Expr.nodes (e : Expr) : List Expr := e :: e.inner

theorem Exprs.mem_nodes {v : Expr} : ∀ {es : Exprs}, v ∈ es.nodes ↔ ∃ e ∈ es.toList, v ∈ e.nodes
  | .nil => by simp [Exprs.nodes, Exprs.toList]
  | .cons e rest => by
    rw [Exprs.nodes, List.mem_append, rest.mem_nodes]
    simp [Exprs.toList, Expr.nodes]

theorem Expr.mem_inner {e v : Expr} : v ∈ e.inner ↔ ∃ child ∈ e.children, v ∈ child.nodes := by
  cases e with
  | Variable addr type name => simp [Expr.inner, Expr.children]
  | Let addr type name value body => simp [Expr.inner, Expr.children, Expr.nodes, or_assoc]
  | node addr op args => exact Exprs.mem_nodes

/-- All nodes below an expression come before it. -/
theorem Closed.inner {l : List Expr} (h : Closed l) : ∀ {before : List Expr} {e : Expr}
    {after : List Expr}, l = before ++ e :: after → ∀ v ∈ e.inner, v ∈ before := by
  intro before
  -- by induction on how much comes before
  induction hn : before.length using Nat.strong_induction_on generalizing before with
  | _ n ih =>
    intro e after hl v hv
    obtain ⟨child, hChild, hv⟩ := Expr.mem_inner.mp hv
    have hMem := h before e after hl child hChild
    rcases List.mem_cons.mp hv with rfl | hv
    · exact hMem
    · obtain ⟨b₁, b₂, rfl⟩ := List.append_of_mem hMem
      have hLength : b₁.length < n := by
        rw [← hn, List.length_append, List.length_cons]
        omega
      have hSplit : l = b₁ ++ child :: (b₂ ++ e :: after) := by simpa using hl
      exact List.mem_append_left _ (ih _ hLength rfl hSplit v hv)

theorem Closed.nodes {l : List Expr} (h : Closed l) {e : Expr} (he : e ∈ l) : ∀ v ∈ e.nodes, v ∈ l := by
  intro v hv
  obtain ⟨before, after, hl⟩ := List.append_of_mem he
  rcases List.mem_cons.mp hv with rfl | hv
  · exact he
  · rw [hl]
    exact List.mem_append_left _ (h.inner hl v hv)

/-! ### Counting -/

namespace ComputeUseCounts

theorem exprs_count (s : ComputeUseCounts) (n : Nat) : (s.count n).gvn.exprs = s.gvn.exprs := by
  refine List.ext_getElem? fun i => ?_
  rw [GVN.exprs_getElem?, GVN.exprs_getElem?, count, List.getElem?_modify]
  split
  · cases s.gvn.entries[i]? <;> rfl
  · simp

theorem find_of_mem {l : ExprMap Nat} {e : Expr} (h : ∃ p ∈ l, p.1 = e) : ∃ n, l.find e = some n := by
  obtain ⟨p, hp, rfl⟩ := h
  cases hFind : l.find p.1 with
  | none => exact absurd rfl (GVN.ne_of_find_none hFind p hp)
  | some n => exact ⟨n, rfl⟩

/-- The nodes of an expression have numbers. -/
def Numbered (s : ComputeUseCounts) (l : List Expr) : Prop :=
  ∀ v ∈ l, ∃ p ∈ s.gvn.output_numbering, p.1 = v

/-- The counts changed and nothing else. -/
structure Counted (s s' : ComputeUseCounts) : Prop where
  output : s'.gvn.output_numbering = s.gvn.output_numbering
  exprs : s'.gvn.exprs = s.gvn.exprs

theorem Counted.trans {s s' s'' : ComputeUseCounts} (h : Counted s s') (h' : Counted s' s'') :
    Counted s s'' :=
  ⟨h'.output.trans h.output, h'.exprs.trans h.exprs⟩

theorem Numbered.counted {s s' : ComputeUseCounts} {l : List Expr} (h : s.Numbered l)
    (hCounted : Counted s s') : s'.Numbered l := by
  intro v hv
  rw [hCounted.output]
  exact h v hv

mutual

theorem includeExpr_ok (lift_all : Bool) : ∀ {e : Expr} {s : ComputeUseCounts}, e.term.LetFree →
    s.Numbered e.nodes → ∃ s', includeExpr lift_all e s = .ok s' ∧ Counted s s'
  | .Variable .., s, _, _ => ⟨s, rfl, rfl, rfl⟩
  | .Let .., _, hLetFree, _ => hLetFree.elim
  | .node addr op args, s, hLetFree, h => by
    obtain ⟨n, hFind⟩ := find_of_mem (h _ List.mem_cons_self)
    have hArgs : s.Numbered args.nodes := fun v hv => h v (List.mem_cons_of_mem _ hv)
    have hCount : ∀ visited, Counted s { s.count n with visited := visited } :=
      fun visited => ⟨rfl, s.exprs_count n⟩
    unfold includeExpr
    split
    · simp only [hFind]
      split
      · exact ⟨_, rfl, hCount s.visited⟩
      · obtain ⟨s', hOk, hCounted⟩ := includeAll_ok lift_all hLetFree
          (hArgs.counted (hCount (addr :: s.visited)))
        exact ⟨s', hOk, (hCount _).trans hCounted⟩
    · exact includeAll_ok lift_all hLetFree hArgs

theorem includeAll_ok (lift_all : Bool) : ∀ {es : Exprs} {s : ComputeUseCounts}, es.terms.LetFree →
    s.Numbered es.nodes → ∃ s', includeAll lift_all es s = .ok s' ∧ Counted s s'
  | .nil, s, _, _ => ⟨s, rfl, rfl, rfl⟩
  | .cons e rest, s, hLetFree, h => by
    obtain ⟨s₁, hOk₁, hCounted₁⟩ := includeExpr_ok lift_all hLetFree.1
      fun v hv => h v (List.mem_append_left _ hv)
    have hRest : s₁.Numbered rest.nodes :=
      Numbered.counted (fun v hv => h v (List.mem_append_right _ hv)) hCounted₁
    obtain ⟨s₂, hOk₂, hCounted₂⟩ := includeAll_ok lift_all hLetFree.2 hRest
    exact ⟨s₂, by rw [includeAll, hOk₁]; exact hOk₂, hCounted₁.trans hCounted₂⟩

end

end ComputeUseCounts

/-! ### The lets -/

theorem t_name_inj {n m : Nat} (h : t_name n = t_name m) : n = m := by
  have hDigits : Nat.toDigits 10 n = Nat.toDigits 10 m := by
    rw [← Nat.toList_repr, ← Nat.toList_repr]
    exact congrArg String.toList ((String.append_right_inj "t").mp h)
  have hNumber := congrArg (Nat.ofDigitChars 10 · 0) hDigits
  simpa only [Nat.ofDigitChars_ten_toDigits] using hNumber

/-- A later state of the process. -/
def Process.Le (process process' : Process) : Prop :=
  process.heap.Le process'.heap ∧ process.counter ≤ process'.counter

/-- The lets are for entries in order, with new names, and the replacements are their variables. -/
structure LetsFor (entries : List Entry) (process process' : Process) (lets : List (String × Expr))
    (replacements : ExprMap Expr) : Prop where
  ok : process'.heap.Ok
  le : process.Le process'
  exprs : lets.map Prod.snd = (entries.filter fun entry => 1 < entry.use_count).map Entry.expr
  names : ∀ p ∈ lets, ∃ n, process.counter ≤ n ∧ n < process'.counter ∧ p.1 = t_name n
  nodup : (lets.map Prod.fst).Nodup
  replacements : ∀ r ∈ replacements, r.2.Lives process'.heap ∧
    ∃ name, (name, r.1) ∈ lets ∧ r.2.term = .var r.1.type name

theorem makeLets_spec : ∀ (entries : List Entry) (process : Process), process.heap.Ok →
    LetsFor entries process (makeLets entries process).2.2 (makeLets entries process).1
      (makeLets entries process).2.1
  | [], process, hOk =>
      ⟨hOk, ⟨Heap.Le.refl _, le_rfl⟩, rfl, fun _ h => (List.not_mem_nil h).elim, List.nodup_nil,
        fun _ h => (List.not_mem_nil h).elim⟩
  | entry :: entries, process, hOk => by
    by_cases hUse : 1 < entry.use_count
    · let node : Nat → Expr := fun addr => .Variable addr entry.expr.type (t_name process.counter)
      have hRest := makeLets_spec entries ⟨(process.heap.alloc node).2, process.counter + 1⟩
        (hOk.alloc node)
      have hMake : makeLets (entry :: entries) process =
          ((t_name process.counter, entry.expr) ::
            (makeLets entries ⟨(process.heap.alloc node).2, process.counter + 1⟩).1,
          (makeLets entries ⟨(process.heap.alloc node).2, process.counter + 1⟩).2.1 ++
            [(entry.expr, node process.heap.next)],
          (makeLets entries ⟨(process.heap.alloc node).2, process.counter + 1⟩).2.2) := by
        rw [makeLets, if_pos hUse]
        rfl
      rw [hMake]
      generalize makeLets entries ⟨(process.heap.alloc node).2, process.counter + 1⟩ = rest at *
      have hLe := hOk.le_alloc node
      refine ⟨hRest.ok, ⟨hLe.trans hRest.le.1, (Nat.le_succ _).trans hRest.le.2⟩, ?_, ?_, ?_, ?_⟩
      · rw [List.map_cons, hRest.exprs, List.filter_cons_of_pos (by simpa using hUse), List.map_cons]
      · intro p hp
        rcases List.mem_cons.mp hp with rfl | hp
        · exact ⟨process.counter, le_rfl, hRest.le.2, rfl⟩
        · obtain ⟨n, hn, hn', hName⟩ := hRest.names p hp
          exact ⟨n, (Nat.le_succ _).trans hn, hn', hName⟩
      · refine List.nodup_cons.mpr ⟨fun hMem => ?_, hRest.nodup⟩
        obtain ⟨p, hp, hEq⟩ := List.mem_map.mp hMem
        obtain ⟨n, hn, -, hName⟩ := hRest.names p hp
        have hSame := t_name_inj (hName.symm.trans hEq)
        have hLt : process.counter + 1 ≤ n := hn
        omega
      · intro r hr
        rcases List.mem_append.mp hr with hr | hr
        · obtain ⟨hLives, name, hMem, hTerm⟩ := hRest.replacements r hr
          exact ⟨hLives, name, List.mem_cons_of_mem _ hMem, hTerm⟩
        · obtain rfl := List.mem_singleton.mp hr
          have hNode := process.heap.alloc_nodes node
          exact ⟨hRest.le.1.2 _ _ hNode, t_name process.counter, List.mem_cons_self, rfl⟩
    · rw [makeLets, if_neg hUse]
      have hRest := makeLets_spec entries process hOk
      exact { hRest with exprs := by rw [hRest.exprs]; simp [hUse] }

/-! ### Replacing -/

namespace Replacer

/-- What the names of the lets stand for. -/
def scope (lets : List (String × Expr)) : Binding.Scope Op Ty String :=
  fun name => (lets.lookup name).map Expr.term

/-- The names of the lets for some of the nodes. -/
def names (lets : List (String × Expr)) (l : List Expr) : Set String :=
  {name | ∃ e ∈ l, (name, e) ∈ lets}

/-- Putting the lets back gives the expression, and the lets used are for its nodes. -/
def memo (lets : List (String × Expr)) : Memo Unit Unit where
  Pre e := e.term.LetFree ∧ ∀ x ∈ e.term.freeVars, scope lets x = none
  PreAll es := es.terms.LetFree ∧ ∀ x ∈ es.terms.freeVars, scope lets x = none
  pre_node h := h
  pre_cons h := ⟨⟨h.1.1, fun x hx => h.2 x (Or.inl hx)⟩, h.1.2, fun x hx => h.2 x (Or.inr hx)⟩
  Own _ _ _ := True
  own_mono _ _ := trivial
  Rel _ e r := r.term.inline (scope lets) = e.term ∧
    r.term.freeVars ⊆ e.term.freeVars ∪ names lets e.nodes

variable {lets : List (String × Expr)} {s : State (Graph Unit)}

theorem names_mono {l l' : List Expr} (h : l ⊆ l') : names lets l ⊆ names lets l' :=
  fun _ ⟨e, he, hMem⟩ => ⟨e, h he, hMem⟩

theorem relAll : ∀ {args args' : Exprs}, (memo lets).spec.RelAll () s args args' →
    args'.terms.inline (scope lets) = args.terms ∧
      args'.terms.freeVars ⊆ args.terms.freeVars ∪ names lets args.nodes
  | .nil, .nil, _ => ⟨rfl, Set.empty_subset _⟩
  | .nil, .cons .., h => h.elim
  | .cons .., .nil, h => h.elim
  | .cons e rest, .cons r rest', h => by
    obtain ⟨hTerm, hVars⟩ := h.1
    obtain ⟨hTerms, hRest⟩ := relAll h.2
    refine ⟨by rw [Exprs.terms, Exprs.terms, Terms.inline, hTerm, hTerms], ?_⟩
    rintro x (hx | hx)
    · rcases hVars hx with hx | hx
      · exact Or.inl (Or.inl hx)
      · exact Or.inr (names_mono (List.subset_append_left _ _) hx)
    · rcases hRest hx with hx | hx
      · exact Or.inl (Or.inr hx)
      · exact Or.inr (names_mono (List.subset_append_right _ _) hx)

theorem node {addr addr' : Nat} {op : Op} {args args' : Exprs}
    (h : (memo lets).spec.RelAll () s args args') :
    (memo lets).Rel () (.node addr op args) (.node addr' op args') := by
  obtain ⟨hTerms, hVars⟩ := relAll h
  refine ⟨by rw [Expr.term, Term.inline, hTerms, Expr.term], fun x hx => ?_⟩
  exact (hVars hx).imp_right fun hName => names_mono (List.subset_cons_self _ _) hName

theorem sound : (memo lets).spec.Sound Replacer where
  mutate := Memo.mutate_computes
  visitVariable := by
    intro c addr type name s hPre hInv hLives
    refine ⟨hInv, Heap.Le.refl _, hLives, ?_, Set.subset_union_left⟩
    exact Term.LetFree.inline_eq hPre.1 hPre.2
  visitLet := by
    intro addr type name value body x y _ _ c s hPre _ _
    exact hPre.1.elim
  same _ _ hRel := node hRel
  made {_ _ _ op _ args'} _ hInv _ _ hRel :=
    ⟨hInv.alloc _, hInv.ok.le_alloc fun addr => .node addr op args', node hRel⟩

theorem inv_erase (h : (memo lets).Inv () s) (e : Expr) :
    (memo lets).Inv () (Replacer.erase e s).2 :=
  ⟨h.ok, fun p hp => h.replacements p (List.mem_filter.mp hp).1, trivial⟩

theorem find_erase (l : ExprMap Expr) (e : Expr) : (l.erase e).find e = none := by
  simp only [ExprMap.find, ExprMap.erase, Option.map_eq_none_iff, List.find?_eq_none]
  intro p hp hSame
  simp [hSame] at hp

/-- What is not in the map is rebuilt, from lets for the nodes below it. -/
theorem run_unknown {e : Expr} (hPre : (memo lets).Pre e) (h : (memo lets).Inv () s)
    (hLives : e.Lives s.heap) (hFind : s.own.expr_replacements.find e = none) :
    (Replacer.run e s).1.term.freeVars ⊆ e.term.freeVars ∪ names lets e.inner := by
  cases e with
  | Variable addr type name =>
    have hRun : (Replacer.run (.Variable addr type name) s).1 = .Variable addr type name := by
      rw [IRMutator.run]
      change (IRGraphMutator.mutate _ _ s).1 = _
      simp only [IRGraphMutator.mutate, hFind]
      rfl
    rw [hRun]
    exact Set.subset_union_left
  | Let addr type name value body => exact hPre.1.elim
  | node addr op args =>
    obtain ⟨hInv', hGrows, hArgs, hRel⟩ := sound.runAll args () s hPre h hLives.2
    obtain ⟨-, hVars⟩ := relAll hRel
    have hRun : (Replacer.run (.node addr op args) s).1 = (rebuild (.node addr op args) op args
        (Replacer.runAll args s).1 (Replacer.runAll args s).2).1 := by
      rw [IRMutator.run]
      change (IRGraphMutator.mutate _ _ s).1 = _
      simp only [IRGraphMutator.mutate, hFind]
      rfl
    rw [hRun, rebuild]
    split
    · exact Set.subset_union_left
    · exact hVars

/-- A let of the result for a let of an entry. -/
structure Wrapped (lets : List (String × Expr)) (p : String × Expr) (q : String × Term) : Prop where
  name : q.1 = p.1
  inline : q.2.inline (scope lets) = p.2.term
  freeVars : q.2.freeVars ⊆ p.2.term.freeVars ∪ names lets p.2.inner

/-- The lets around an expression have the entries as their values once the names are put back. -/
theorem wrapLets_spec {e : Expr} : ∀ {l : List (String × Expr)} {s : State (Graph Unit)},
    (memo lets).Inv () s → e.Lives s.heap → (∀ p ∈ l, (memo lets).Pre p.2 ∧ p.2.Lives s.heap) →
    (memo lets).Inv () (wrapLets l e s).2 ∧ s.heap.Le (wrapLets l e s).2.heap ∧
      (wrapLets l e s).1.Lives (wrapLets l e s).2.heap ∧
      ∃ pairs, (wrapLets l e s).1.term = Term.lets pairs e.term ∧ List.Forall₂ (Wrapped lets) l pairs
  | [], s, hInv, hLives, _ => ⟨hInv, Heap.Le.refl _, hLives, [], rfl, .nil⟩
  | (name, value) :: l, s, hInv, hLives, hValues => by
    obtain ⟨hInv₁, hLe₁, hLives₁, pairs, hTerm, hPairs⟩ := wrapLets_spec hInv hLives
      fun p hp => hValues p (List.mem_cons_of_mem _ hp)
    obtain ⟨hPre, hValue⟩ := hValues _ List.mem_cons_self
    generalize hRest : wrapLets l e s = rest at *
    have hErase := inv_erase hInv₁ value
    have hValue₁ : value.Lives (Replacer.erase value rest.2).2.heap := hValue.mono hLe₁
    have hFind : (Replacer.erase value rest.2).2.own.expr_replacements.find value = none :=
      find_erase ..
    obtain ⟨hInv₂, hLe₂, hLives₂, hInline, -⟩ := sound.run value () _ hPre hErase hValue₁
    have hVars := run_unknown hPre hErase hValue₁ hFind
    generalize hRun : Replacer.run value (Replacer.erase value rest.2).2 = result at *
    have hWrap : wrapLets ((name, value) :: l) e s =
        make (fun addr => .Let addr rest.1.type name result.1 rest.1) result.2 := by
      rw [← hRun, ← hRest]
      rfl
    have hLe₃ := hInv₂.ok.le_alloc fun addr => .Let addr rest.1.type name result.1 rest.1
    have hNode := result.2.heap.alloc_nodes fun addr => .Let addr rest.1.type name result.1 rest.1
    have hBody : rest.1.Lives result.2.heap := hLives₁.mono hLe₂
    rw [hWrap]
    refine ⟨hInv₂.alloc fun addr => .Let addr rest.1.type name result.1 rest.1, (hLe₁.trans hLe₂).trans hLe₃,
      ⟨hNode, hLives₂.mono hLe₃, hBody.mono hLe₃⟩, (name, result.1.term) :: pairs, ?_,
      .cons ⟨rfl, hInline, hVars⟩ hPairs⟩
    exact congrArg (Term.letIn name result.1.term) hTerm

/-- The values of the lets have the nodes below them among the lets before. -/
def Ordered (lets : List (String × Expr)) : Prop :=
  ∀ before p after, lets = before ++ p :: after →
    ∀ v ∈ p.2.inner, ∀ name, (name, v) ∈ lets → (name, v) ∈ before

theorem ordered_of_closed {exprs : List Expr} (hClosed : Closed exprs) (hNodup : exprs.Nodup)
    (hSub : (lets.map Prod.snd).Sublist exprs) : Ordered lets := by
  intro before p after hLets v hv name hMem
  rw [hLets, List.map_append, List.map_cons] at hSub
  obtain ⟨r, r', rfl, -, hRest⟩ := List.append_sublist_iff.mp hSub
  obtain ⟨r₁, r₂, rfl, hp, hAfter⟩ := List.cons_sublist_iff.mp hRest
  obtain ⟨c, d, rfl⟩ := List.append_of_mem hp
  have hSplit : r ++ (c ++ p.2 :: d ++ r₂) = (r ++ c) ++ p.2 :: (d ++ r₂) := by simp
  rw [hSplit] at hClosed hNodup
  have hBefore := hClosed.inner rfl v hv
  -- Nothing else of the same value comes at or after the let.
  have hNotAfter : v ∉ p.2 :: (d ++ r₂) := fun hIn =>
    (List.nodup_append.mp hNodup).2.2 v hBefore v hIn rfl
  rw [hLets] at hMem
  rcases List.mem_append.mp hMem with hMem | hMem
  · exact hMem
  · rcases List.mem_cons.mp hMem with rfl | hMem
    · exact absurd List.mem_cons_self hNotAfter
    · have hIn := hAfter.subset (List.mem_map_of_mem hMem)
      exact absurd (List.mem_cons_of_mem _ (List.mem_append_right _ hIn)) hNotAfter

/-- The names of some lets. -/
def bound (l : List (String × Expr)) : Set String := {name | ∃ e, (name, e) ∈ l}

theorem scoped_pairs {vars : Set String} (hOrdered : Ordered lets) {body : Term}
    (hBody : body.freeVars ⊆ vars ∪ bound lets) : ∀ {l : List (String × Expr)}
    {pairs : List (String × Term)} {before : List (String × Expr)}, lets = before ++ l →
      (∀ p ∈ l, p.2.term.freeVars ⊆ vars) → List.Forall₂ (Wrapped lets) l pairs →
        Scoped (vars ∪ bound before) pairs body
  | [], _, before, hLets, _, .nil => by
    rw [List.append_nil] at hLets
    rw [← hLets]
    exact hBody
  | p :: l, _, before, hLets, hVars, .cons (b := q) hWrapped hRest => by
    refine ⟨fun x hx => ?_, ?_⟩
    · rcases hWrapped.freeVars hx with hx | ⟨v, hv, hMem⟩
      · exact Or.inl (hVars p List.mem_cons_self hx)
      · exact Or.inr ⟨v, hOrdered before p l hLets v hv x hMem⟩
    · have hInsert : insert q.1 (vars ∪ bound before) = vars ∪ bound (before ++ [p]) := by
        ext x
        simp only [bound, Set.mem_insert_iff, Set.mem_union, Set.mem_ofPred_eq, List.mem_append,
          List.mem_singleton, hWrapped.name]
        constructor
        · rintro (rfl | hx | ⟨e, he⟩)
          · exact Or.inr ⟨p.2, Or.inr rfl⟩
          · exact Or.inl hx
          · exact Or.inr ⟨e, Or.inl he⟩
        · rintro (hx | ⟨e, he | he⟩)
          · exact Or.inr (Or.inl hx)
          · exact Or.inr (Or.inr ⟨e, he⟩)
          · exact Or.inl (congrArg Prod.fst he)
      rw [hInsert]
      exact scoped_pairs hOrdered hBody (by simpa using hLets)
        (fun p' hp => hVars p' (List.mem_cons_of_mem _ hp)) hRest

theorem scope_of_mem : ∀ {lets : List (String × Expr)}, (lets.map Prod.fst).Nodup → ∀ p ∈ lets,
    scope lets p.1 = some p.2.term
  | [], _, _, hp => (List.not_mem_nil hp).elim
  | (name, e) :: lets, hNodup, p, hp => by
    rw [List.map_cons, List.nodup_cons] at hNodup
    rcases List.mem_cons.mp hp with rfl | hp
    · simp [scope]
    · have hne : p.1 ≠ name := fun hEq => hNodup.1 (List.mem_map.mpr ⟨p, hp, hEq⟩)
      have hBeq : (p.1 == name) = false := by simpa using hne
      rw [scope, List.lookup_cons, hBeq]
      exact scope_of_mem hNodup.2 p hp

theorem exists_wrapped : ∀ {l : List (String × Expr)} {pairs : List (String × Term)},
    List.Forall₂ (Wrapped lets) l pairs → ∀ q ∈ pairs, ∃ p ∈ l, Wrapped lets p q
  | _, _, .nil, _, hq => (List.not_mem_nil hq).elim
  | _, _, .cons hWrapped hRest, q, hq => by
    rcases List.mem_cons.mp hq with rfl | hq
    · exact ⟨_, List.mem_cons_self, hWrapped⟩
    · obtain ⟨p, hp, hWrapped'⟩ := exists_wrapped hRest q hq
      exact ⟨p, List.mem_cons_of_mem _ hp, hWrapped'⟩

theorem scope_eq_none {x : String} (h : x ∉ bound lets) : scope lets x = none := by
  have hLookup : lets.lookup x = none := by
    rw [List.lookup_eq_none_iff]
    intro p hp
    have hne : x ≠ p.1 := fun hEq => h ⟨p.2, hEq ▸ hp⟩
    simpa using hne
  rw [scope, hLookup]
  rfl

end Replacer

/-! ### The whole pass -/

/-- No two floats of the expression are confused, and the names to come are not taken. -/
structure Admissible (e : Expr) (process : Process) : Prop where
  floats : ∃ floats, Exact floats ∧ (e.term.inline .empty).All (Op.FloatIn floats)
  names : ∀ n, process.counter ≤ n → t_name n ∉ e.term.liveVars

theorem letFree_of_is_const (e : Expr) (h : is_const e = true) : e.term.LetFree := by
  fun_induction is_const e with
  | case1 | case2 | case3 | case4 => exact trivial
  | case5 _ _ value ih => exact ⟨ih h, trivial⟩
  | case6 _ _ base stride ih ih' =>
    rw [Bool.and_eq_true] at h
    exact ⟨ih h.1, ih' h.2, trivial⟩
  | case7 _ _ value ih => exact ⟨ih h, trivial⟩
  | case8 => cases h

/-- The lets around a canonical expression. -/
theorem wrapped_spec {e : Expr} {entries : List Entry} (process : Process) {vars : Set String}
    (hOk : process.heap.Ok) (hClosed : Closed (entries.map Entry.expr))
    (hNodup : (entries.map Entry.expr).Nodup) (he : e ∈ entries.map Entry.expr)
    (hEntries : ∀ x ∈ entries.map Entry.expr, x.Lives process.heap ∧ x.term.LetFree ∧
      x.term.freeVars ⊆ vars)
    (hNames : ∀ n, process.counter ≤ n → t_name n ∉ vars) :
    let lets := (makeLets entries process).1
    let replacements := (makeLets entries process).2.1
    let process' := (makeLets entries process).2.2
    let p := (Replacer.run e >>= wrapLets lets) ⟨process'.heap, replacements, ()⟩
    p.2.heap.Ok ∧ process.heap.Le p.2.heap ∧ process.counter ≤ process'.counter ∧
      p.1.Lives p.2.heap ∧ p.1.term.inline .empty = e.term ∧ p.1.term.freeVars ⊆ vars := by
  have hLets := makeLets_spec entries process hOk
  intro lets replacements process' p
  change LetsFor entries process process' lets replacements at hLets
  have hSub : (lets.map Prod.snd).Sublist (entries.map Entry.expr) := by
    rw [hLets.exprs]
    exact List.filter_sublist.map _
  have hOrdered := Replacer.ordered_of_closed hClosed hNodup hSub
  have hFresh : ∀ x ∈ vars, x ∉ Replacer.bound lets := by
    rintro x hx ⟨v, hv⟩
    obtain ⟨n, hn, -, hName⟩ := hLets.names _ hv
    exact hNames n hn (hName ▸ hx)
  have hPre : ∀ x ∈ entries.map Entry.expr, (Replacer.memo lets).Pre x ∧ x.Lives process'.heap := by
    intro x hx
    obtain ⟨hLives, hLetFree, hVars⟩ := hEntries x hx
    exact ⟨⟨hLetFree, fun y hy => Replacer.scope_eq_none (hFresh y (hVars hy))⟩,
      hLives.mono hLets.le.1⟩
  have hValues : ∀ q ∈ lets, q.2 ∈ entries.map Entry.expr := fun q hq =>
    hSub.subset (List.mem_map_of_mem hq)
  have hInv : (Replacer.memo lets).Inv () ⟨process'.heap, replacements, ()⟩ := by
    refine ⟨hLets.ok, fun r hr => ?_, trivial⟩
    obtain ⟨hLives, name, hMem, hTerm⟩ := hLets.replacements r hr
    refine ⟨(hPre _ (hValues _ hMem)).2, hLives, ?_, ?_⟩
    · rw [hTerm, Term.inline, Replacer.scope_of_mem hLets.nodup _ hMem]
      rfl
    · rw [hTerm]
      rintro x rfl
      exact Or.inr ⟨r.1, List.mem_cons_self, hMem⟩
  obtain ⟨hInv₁, hLe₁, hLives₁, hInline, hVars⟩ :=
    Replacer.sound.run e () _ (hPre e he).1 hInv (hPre e he).2
  obtain ⟨hInv₂, hLe₂, hLives₂, pairs, hTerm, hPairs⟩ := Replacer.wrapLets_spec hInv₁ hLives₁
    fun q hq => ⟨(hPre _ (hValues q hq)).1, (hPre _ (hValues q hq)).2.mono hLe₁⟩
  have hBody : (Replacer.run e ⟨process'.heap, replacements, ()⟩).1.term.freeVars ⊆
      vars ∪ Replacer.bound lets := by
    intro x hx
    rcases hVars hx with hx | ⟨v, -, hv⟩
    · exact Or.inl ((hEntries e he).2.2 hx)
    · exact Or.inr ⟨v, hv⟩
  have hScoped := Replacer.scoped_pairs hOrdered hBody (List.nil_append lets).symm
    (fun q hq => (hEntries _ (hValues q hq)).2.2) hPairs
  have hNone : vars ∪ Replacer.bound [] = vars := by
    rw [Set.union_eq_left]
    rintro x ⟨v, hv⟩
    exact (List.not_mem_nil hv).elim
  rw [hNone] at hScoped
  have hSolved : ∀ q ∈ pairs, Replacer.scope lets q.1 = some (q.2.inline (Replacer.scope lets)) := by
    intro q hq
    obtain ⟨q', hq', hWrapped⟩ := Replacer.exists_wrapped hPairs q hq
    rw [hWrapped.name, hWrapped.inline]
    exact Replacer.scope_of_mem hLets.nodup q' hq'
  refine ⟨hInv₂.ok, (hLets.le.1.trans hLe₁).trans hLe₂, hLets.le.2, hLives₂, ?_, ?_⟩
  · have hOuter : ∀ y ∈ vars, Scope.empty y = Replacer.scope lets y := fun y hy =>
      (Replacer.scope_eq_none (hFresh y hy)).symm
    refine (congrArg _ hTerm).trans ?_
    rw [hScoped.inline_lets hOuter hSolved, hInline]
  · refine (congrArg Term.freeVars hTerm).trans_subset ?_
    exact hScoped.freeVars_lets

theorem cse_spec {e : Expr} {process : Process} (lift_all : Bool) (hOk : process.heap.Ok)
    (hLives : e.Lives process.heap) (hAdmissible : Admissible e process) :
    ∃ r process', common_subexpression_elimination e lift_all process = (.ok r, process') ∧
      process'.heap.Ok ∧ process.Le process' ∧ r.Lives process'.heap ∧
      r.term.inline .empty = e.term.inline .empty ∧ r.term.freeVars = e.term.liveVars := by
  unfold common_subexpression_elimination
  split
  · next hTrivial =>
    have hLetFree : e.term.LetFree := by
      rcases Bool.or_eq_true_iff.mp hTrivial with hConst | hVar
      · exact letFree_of_is_const e hConst
      · cases e with
        | Variable addr type name => exact trivial
        | Let addr type name value body => cases hVar
        | node addr op args => cases hVar
    exact ⟨e, process, rfl, hOk, ⟨Heap.Le.refl _, le_rfl⟩, hLives, rfl, hLetFree.liveVars.symm⟩
  · obtain ⟨floats, hExact, hFloats⟩ := hAdmissible.floats
    obtain ⟨hOk₁, hLe₁, hLives₁, hTerm₁⟩ := RemoveLets.run_spec hOk hLives
    generalize RemoveLets.run e ⟨process.heap, [], fun _ => []⟩ = removed at *
    obtain ⟨removed, s₁⟩ := removed
    have hVars : removed.term.freeVars ⊆ e.term.liveVars := by
      rw [hTerm₁, Term.freeVars_inline_empty]
    have hLetFree : removed.term.LetFree := hTerm₁ ▸ e.term.letFree_inline_empty
    obtain ⟨hInv, hLe₂, hTerm₂, hMem⟩ :=
      GVN.run_spec hExact hOk₁ hLives₁ hLetFree (hTerm₁ ▸ hFloats) hVars
    dsimp only at hInv hLe₂ hTerm₂ hMem ⊢
    generalize GVN.mutator.run removed ⟨s₁.heap, GVN.init⟩ = numbered at *
    obtain ⟨numbered, s₂⟩ := numbered
    have hNumbered : ComputeUseCounts.Numbered ⟨s₂.own, []⟩ numbered.nodes := fun v hv =>
      hInv.outputs v (hInv.closed.nodes hMem v hv)
    obtain ⟨counts, hCounts, hCounted⟩ := ComputeUseCounts.includeExpr_ok lift_all
      (hInv.canonical _ hMem).letFree hNumbered
    have hExprs : counts.gvn.entries.map Entry.expr = s₂.own.exprs := hCounted.exprs
    have hEntries : ∀ x ∈ counts.gvn.entries.map Entry.expr,
        x.Lives s₂.heap ∧ x.term.LetFree ∧ x.term.freeVars ⊆ e.term.liveVars := by
      intro x hx
      have hx := hInv.canonical x (hExprs ▸ hx)
      exact ⟨hx.lives, hx.letFree, hx.freeVars⟩
    obtain ⟨hOk₃, hLe₃, hCounter, hLives₃, hTerm₃, hVars₃⟩ := wrapped_spec
      ⟨s₂.heap, process.counter⟩ hInv.ok (hExprs ▸ hInv.closed) (hExprs ▸ hInv.nodup)
      (hExprs ▸ hMem) hEntries hAdmissible.names
    dsimp only at hMem ⊢
    rw [hCounts]
    refine ⟨_, _, rfl, hOk₃, ⟨(hLe₁.trans hLe₂).trans hLe₃, hCounter⟩, hLives₃, ?_, ?_⟩
    · exact hTerm₃.trans (hTerm₂.trans hTerm₁)
    · refine Set.Subset.antisymm hVars₃ ?_
      rw [← Term.freeVars_inline_empty, ← hTerm₁]
      refine Eq.trans_subset (congrArg Term.freeVars (hTerm₃.trans hTerm₂).symm) ?_
      rw [Term.freeVars_inline_empty]
      exact Term.liveVars_subset _

theorem eval_eq_of_inline {V : Type} (interp : Op → List V → V) {t t' : Term}
    (h : t.inline .empty = t'.inline .empty) (env : String → V) :
    t.eval interp env = t'.eval interp env := by
  rw [← t.eval_inline_empty, h, t'.eval_inline_empty]

theorem liveVars_eq_of_inline {t t' : Term} (h : t.inline .empty = t'.inline .empty) :
    t.liveVars = t'.liveVars := by
  rw [← t.freeVars_inline_empty, h, t'.freeVars_inline_empty]

/-- Substituting all lets keeps the value and the live variables of every expression.
Eliminating common subexpressions does so where no two float constants are confused and the
names it makes are not taken, and it does so again for its own result. -/
theorem values_kept {V : Type} (interp : Op → List V → V) :
    (∀ (e : Expr) (heap : Heap), heap.Ok → e.Lives heap →
      let p := substitute_in_all_lets e heap
      p.2.Ok ∧ heap.Le p.2 ∧ p.1.Lives p.2 ∧
        (∀ env, p.1.term.eval interp env = e.term.eval interp env) ∧
        p.1.term.freeVars = e.term.liveVars) ∧
    ∀ (e : Expr) (process : Process) (lift_all : Bool), process.heap.Ok → e.Lives process.heap →
      Admissible e process →
      ∃ r process', common_subexpression_elimination e lift_all process = (.ok r, process') ∧
        process'.heap.Ok ∧ process.Le process' ∧ r.Lives process'.heap ∧
        (∀ env, r.term.eval interp env = e.term.eval interp env) ∧
        r.term.freeVars = e.term.liveVars ∧
        ∀ (later : Process) (lift_all' : Bool), process'.Le later → later.heap.Ok →
          ∃ r' later', common_subexpression_elimination r lift_all' later = (.ok r', later') ∧
            r'.Lives later'.heap ∧
            (∀ env, r'.term.eval interp env = e.term.eval interp env) ∧
            r'.term.freeVars = r.term.freeVars := by
  refine ⟨fun e heap hOk hLives => ?_, fun e process lift_all hOk hLives hAdmissible => ?_⟩
  · obtain ⟨hOk', hLe, hLives', hTerm⟩ := substitute_in_all_lets_spec hOk hLives
    refine ⟨hOk', hLe, hLives', fun env => ?_, ?_⟩
    · rw [hTerm, Term.eval_inline_empty]
    · rw [hTerm, Term.freeVars_inline_empty]
  · obtain ⟨r, process', hRun, hOk', hLe, hLives', hInline, hVars⟩ :=
      cse_spec lift_all hOk hLives hAdmissible
    refine ⟨r, process', hRun, hOk', hLe, hLives', eval_eq_of_inline interp hInline, hVars, ?_⟩
    intro later lift_all' hLater hOkLater
    have hLive := liveVars_eq_of_inline hInline
    have hAgain : Admissible r later := by
      refine ⟨?_, fun n hn => ?_⟩
      · rw [hInline]
        exact hAdmissible.floats
      · rw [hLive]
        exact hAdmissible.names n ((hLe.2.trans hLater.2).trans hn)
    obtain ⟨r', later', hRun', -, -, hLives'', hInline', hVars'⟩ :=
      cse_spec lift_all' hOkLater (hLives'.mono hLater.1) hAgain
    refine ⟨r', later', hRun', hLives'', eval_eq_of_inline interp (hInline'.trans hInline), ?_⟩
    rw [hVars', hLive, hVars]

/-! ### Fixed inputs -/

def int32 : Ty := ⟨.int, 32, 1, none⟩

/-- The square of a sum, with the sum as a let and a let that is not used. -/
def squareOfSum : Expr :=
  .Let 6 int32 "u" (.Variable 0 int32 "z") <|
    .Let 5 int32 "s" (.node 3 (.Binary .Add int32)
        (.cons (.Variable 1 int32 "x") (.cons (.Variable 2 int32 "y") .nil))) <|
      .node 4 (.Binary .Mul int32)
        (.cons (.Variable 7 int32 "s") (.cons (.Variable 7 int32 "s") .nil))

/-- The nodes of an expression, each at its address. -/
def Heap.of (e : Expr) (n : Nat) : Heap := ⟨n, fun addr => e.nodes.find? fun v => v.addr = addr⟩

theorem Heap.ok_of {e : Expr} {n : Nat} (h : ∀ v ∈ e.nodes, v.addr < n) : (Heap.of e n).Ok := by
  intro addr hAddr
  have hLe : n ≤ addr := hAddr
  simp only [Heap.of, List.find?_eq_none, decide_eq_true_eq]
  intro v hv hEq
  have hLt := h v hv
  omega

def squareProcess : Process := ⟨Heap.of squareOfSum 8, 0⟩

theorem ok_squareProcess : squareProcess.heap.Ok := Heap.ok_of (by decide)

theorem lives_squareOfSum : squareOfSum.Lives squareProcess.heap :=
  ⟨rfl, rfl, rfl, ⟨rfl, rfl, rfl, trivial⟩, rfl, rfl, rfl, trivial⟩

theorem liveVars_squareOfSum : squareOfSum.term.liveVars = {"x", "y"} := by
  ext z
  simp only [squareOfSum, Expr.term, Exprs.terms, Term.liveVars, Terms.liveVars, Set.mem_union,
    Set.mem_ofPred_eq, Set.mem_sdiff, Set.mem_singleton_iff, Set.mem_insert_iff, Set.mem_empty_iff_false]
  constructor
  · rintro (⟨h, -⟩ | ⟨⟨-, rfl | rfl | h⟩ | ⟨h, h'⟩, -⟩)
    · simp at h
    · exact Or.inl rfl
    · exact Or.inr rfl
    · exact h.elim
    · simp [h'] at h
  · rintro (rfl | rfl) <;> simp

theorem t_name_ne {n : Nat} {x : String} (h : x.toList.head? ≠ some 't') : t_name n ≠ x := by
  rintro rfl
  simp [t_name] at h

theorem admissible_squareOfSum : Admissible squareOfSum squareProcess := by
  refine ⟨⟨∅, fun _ h => h.elim, ?_⟩, fun n _ => ?_⟩
  · exact ⟨trivial, ⟨trivial, trivial, trivial, trivial⟩, ⟨trivial, trivial, trivial, trivial⟩, trivial⟩
  · rw [liveVars_squareOfSum]
    rintro (h | h)
    · exact t_name_ne (by decide) h
    · exact t_name_ne (by decide) h

/-- Sums and products of integers. -/
def arithmetic : Op → List Int → Int
  | .Binary .Add _, [a, b] => a + b
  | .Binary .Mul _, [a, b] => a * b
  | _, _ => 0

theorem values_kept_squareOfSum :
    ∃ r process', common_subexpression_elimination squareOfSum false squareProcess = (.ok r, process') ∧
      ∀ env, r.term.eval arithmetic env = (env "x" + env "y") * (env "x" + env "y") := by
  obtain ⟨r, process', hRun, -, -, -, hEval, -⟩ := (values_kept arithmetic).2 squareOfSum squareProcess
    false ok_squareProcess lives_squareOfSum admissible_squareOfSum
  exact ⟨r, process', hRun, hEval⟩

def float64 : Ty := ⟨.float, 64, 1, none⟩

/-- One plus NaN. -/
def onePlusNaN : Expr :=
  .node 2 (.Binary .Add float64)
    (.cons (.node 0 (.FloatImm float64 ⟨0x3ff0000000000000⟩) .nil)
      (.cons (.node 1 (.FloatImm float64 .nan) .nil) .nil))

/-- The comparison takes NaN for the constant before it, so that the sum becomes one plus one. -/
theorem nan_replaced : ∃ r process',
    common_subexpression_elimination onePlusNaN false ⟨Heap.of onePlusNaN 3, 0⟩ = (.ok r, process') ∧
      r.term = .app (.Binary .Add float64)
        (.cons (.app (.FloatImm float64 ⟨0x3ff0000000000000⟩) .nil)
          (.cons (.app (.FloatImm float64 ⟨0x3ff0000000000000⟩) .nil) .nil)) :=
  ⟨_, _, rfl, rfl⟩

/-- The variable of the let that is not used is free before and not after. -/
theorem unused_let_dropped :
    ∃ r process', common_subexpression_elimination squareOfSum false squareProcess = (.ok r, process') ∧
      "z" ∈ squareOfSum.term.freeVars ∧ "z" ∉ r.term.freeVars := by
  obtain ⟨r, process', hRun, -, -, -, -, hVars⟩ :=
    cse_spec false ok_squareProcess lives_squareOfSum admissible_squareOfSum
  refine ⟨r, process', hRun, Or.inl rfl, ?_⟩
  rw [hVars, liveVars_squareOfSum]
  simp

end Vyasa.CSE
