import Vyasa.Solve.Enclosure

/-! The visits of what `solve_expression` returns. They use no let of the condition
they come from, so what they cache is right wherever it is found again. -/
namespace Vyasa.Solve

open Word IRMatch Vyasa.Expr

variable {callees : Callees} {x : Name} {outer : Bool}

section Names

/-- A name of the static variables. -/
def Static (s : Name) : Prop := ∃ j < 4, s = .unique j

/-- A name that was made for a let, and that no expression in sight uses. -/
def Hidden (visible : Name → Prop) (k : Nat) (n : Name) : Prop :=
  ¬ visible n ∧ ∃ j < k, n = .unique j

theorem Hidden.mono {visible : Name → Prop} {k k' : Nat} {n : Name} (h : Hidden visible k n)
    (hk : k ≤ k') : Hidden visible k' n := by
  obtain ⟨hVisible, j, hj, hn⟩ := h
  exact ⟨hVisible, j, hj.trans_le hk, hn⟩

/-- The expression has no static variable. -/
def Untouched (e : Expr) : Prop := ∀ s, Static s → e.mentions s = false

/-- The expression is a static variable. -/
def IsStatic (e : Expr) : Prop := ∃ T s, e = .var T s ∧ Static s

end Names

section Tractable

def Ordering (op : CmpOp) : Prop := op = .le ∨ op = .ge

/-- Static variables are on the right of a comparison only, or on both sides. -/
def Separated (solved : Bool) (op : CmpOp) (a b : Expr) : Prop :=
  (Untouched a ∧ (solved = true ∨ Untouched b ∨ (Ordering op ∧ IsStatic b))) ∨
    (Ordering op ∧ IsStatic a ∧ IsStatic b)

/-- The conditions that come from solved comparisons. -/
def Tractable (x : Name) (solved : Bool) : Expr → Prop
  | .imm _ _ => True
  | .cmp op a b =>
      noOverflowInt a.type ∧ noOverflowInt b.type ∧ a.binds = [] ∧ b.binds = [] ∧
        (solved = true → SecondOperand (noOverflowInt ·) a) ∧ Separated solved op a b
  | .bin .and a b | .bin .or a b => Tractable x solved a ∧ Tractable x solved b
  | .not a => Tractable x solved a
  | .letIn _ value body => value.binds = [] ∧ value.mentions x = false ∧ Tractable x solved body
  | _ => False

theorem tractable_of_solved {e : Expr} (h : Solved x e)
    (hLeft : ∀ s, Static s → leftMentions s e = false) : Tractable x true e := by
  induction e with
  | imm => trivial
  | cmp op a b =>
    obtain ⟨ha, hb, hSecond, hBindsA, hBindsB⟩ := h
    exact ⟨ha, hb, hBindsA, hBindsB, fun _ => hSecond, Or.inl ⟨hLeft, Or.inl rfl⟩⟩
  | bin op a b iha ihb =>
    cases op
    case and | or =>
      have hBoth : ∀ s, Static s → leftMentions s a = false ∧ leftMentions s b = false :=
        fun s hs => by simpa [leftMentions] using hLeft s hs
      exact ⟨iha h.1 fun s hs => (hBoth s hs).1, ihb h.2 fun s hs => (hBoth s hs).2⟩
    all_goals exact h.elim
  | not a ih => exact ih h hLeft
  | letIn n value body _ ih => exact ⟨h.1, h.2.1, ih h.2.2 hLeft⟩
  | _ => exact h.elim

/-- What the visits in a scope take for granted. -/
structure Context (x : Name) (visible : Name → Prop) (scope : LetScope) : Prop where
  var : visible x
  static : ∀ s, Static s → visible s ∧ s ≠ x ∧ scope.find s = none
  lets : ∀ n w, scope.find n = some w → visible n ∧ ∀ k, w.mentions k = true → visible k ∧ ¬ Static k

/-- A condition that is ready to be visited. -/
structure Ready (x : Name) (visible : Name → Prop) (scope : LetScope) (solved : Bool) (e : Expr) :
    Prop where
  tractable : Tractable x solved e
  mentions : ∀ n, e.mentions n = true → visible n ∧ scope.find n = none
  binds : ∀ n ∈ e.binds, visible n ∧ scope.find n = none ∧ ¬ Static n ∧ n ≠ x

variable {visible : Name → Prop} {scope : LetScope} {solved : Bool} {a b : Expr}

theorem Ready.left {op : BinOp} (hOp : op = .and ∨ op = .or)
    (h : Ready x visible scope solved (.bin op a b)) : Ready x visible scope solved a := by
  refine ⟨?_, fun n hn => h.mentions n (by simp [hn]), fun n hn => h.binds n (by simp [hn])⟩
  rcases hOp with rfl | rfl <;> exact h.tractable.1

theorem Ready.right {op : BinOp} (hOp : op = .and ∨ op = .or)
    (h : Ready x visible scope solved (.bin op a b)) : Ready x visible scope solved b := by
  refine ⟨?_, fun n hn => h.mentions n (by simp [hn]), fun n hn => h.binds n (by simp [hn])⟩
  rcases hOp with rfl | rfl <;> exact h.tractable.2

theorem Ready.of_not (h : Ready x visible scope solved (.not a)) : Ready x visible scope solved a :=
  ⟨h.tractable, h.mentions, h.binds⟩

theorem Ready.of_letIn {name : Name} (h : Ready x visible scope solved (.letIn name a b)) :
    Ready x visible scope solved b := by
  refine ⟨h.tractable.2.2, fun n hn => ?_, fun n hn => h.binds n (by simp [hn])⟩
  by_cases hEq : n = name
  · have hName := h.binds name (by simp)
    exact hEq ▸ ⟨hName.1, hName.2.1⟩
  · exact h.mentions n (by simp [hn, Ne.symm hEq])

end Tractable

section Memory

/-- An interval that was solved for once, and holds wherever the condition is met. -/
structure Entry (x : Name) (outer : Bool) (visible : Name → Prop) (k : Nat) (target : Bool)
    (cond : Expr) (i : Interval) : Prop where
  proper : i.Proper
  encloses : ∀ ρ v, exact ρ cond = some v → Encloses outer x ρ (decide (v ≠ 0) = target) i
  binds : i.Satisfies fun e => ∀ n ∈ e.binds, Hidden visible k n
  types : ∀ s T, Static s → HasType s T cond → i.Satisfies (HasType s T)

/-- What holds of the memory between visits. -/
structure MemoryOk (x : Name) (outer : Bool) (visible : Name → Prop) (m : Memory) : Prop where
  old : ∀ n, visible n → Old m.names n
  cached : ∀ target cond i, (m.cache target).lookup cond = some i →
    Entry x outer visible m.names target cond i

/-- What a visit establishes. -/
structure Visited (x : Name) (outer : Bool) (visible : Name → Prop) (target : Bool) (e : Expr)
    (m : Memory) (i : Interval) (m' : Memory) : Prop where
  memory : MemoryOk x outer visible m'
  grows : m.names ≤ m'.names
  solvedVars : m'.solvedVars = m.solvedVars
  proper : i.Proper
  encloses : ∀ ρ v, exact ρ e = some v → Encloses outer x ρ (decide (v ≠ 0) = target) i
  binds : i.Satisfies fun b => ∀ n ∈ b.binds, n ∈ e.binds ∨ Hidden visible m'.names n
  types : ∀ s T, Static s → HasType s T e → i.Satisfies (HasType s T)

variable {visible visible' : Name → Prop} {m m' m₁ : Memory} {target : Bool} {cond e : Expr}
  {i j : Interval}

theorem Entry.mono {k k' : Nat} (h : Entry x outer visible k target cond i) (hk : k ≤ k') :
    Entry x outer visible k' target cond i :=
  ⟨h.proper, h.encloses, h.binds.imp fun _ he n hn => (he n hn).mono hk, h.types⟩

/-- More numbers are given out. -/
theorem MemoryOk.grow {k : Nat} (h : MemoryOk x outer visible m) (hk : m.names ≤ k) :
    MemoryOk x outer visible { m with names := k } :=
  ⟨fun n hn => (h.old n hn).mono hk, fun target cond i hi => (h.cached target cond i hi).mono hk⟩

theorem MemoryOk.of_visible (h : MemoryOk x outer visible' m)
    (hVisible : ∀ n, visible n → visible' n) : MemoryOk x outer visible m :=
  ⟨fun n hn => h.old n (hVisible n hn), fun target cond i hi =>
    let hEntry := h.cached target cond i hi
    ⟨hEntry.proper, hEntry.encloses, hEntry.binds.imp fun _ he n hn =>
      ⟨fun hv => (he n hn).1 (hVisible n hv), (he n hn).2⟩, hEntry.types⟩⟩

theorem MemoryOk.insertCache (h : MemoryOk x outer visible m)
    (hEntry : Entry x outer visible m.names target cond i) :
    MemoryOk x outer visible (m.insertCache target cond i) := by
  have hNames : (m.insertCache target cond i).names = m.names := by
    cases target <;> rfl
  refine ⟨fun n hn => hNames ▸ h.old n hn, fun target' cond' i' hi => ?_⟩
  rw [hNames]
  by_cases hTarget : target' = target
  · subst hTarget
    have hCache : (m.insertCache target' cond i).cache target' = (cond, i) :: m.cache target' := by
      cases target' <;> rfl
    rw [hCache] at hi
    rcases lookup_cons_cases hi with ⟨rfl, rfl⟩ | ⟨-, hi⟩
    · exact hEntry
    · exact h.cached target' cond' i' hi
  · have hCache : (m.insertCache target cond i).cache target' = m.cache target' := by
      cases target <;> cases target' <;> first | rfl | exact absurd rfl hTarget
    exact h.cached target' cond' i' (hCache ▸ hi)

end Memory

section Connectives

variable {visible : Name → Prop} {m m' m₁ : Memory} {target : Bool} {a b e : Expr} {i j : Interval}

theorem bindsIn_bin {Q : Name → Prop} (op : BinOp) (a b : Expr) :
    (∀ n ∈ (bin op a b).binds, Q n) ↔ (∀ n ∈ a.binds, Q n) ∧ ∀ n ∈ b.binds, Q n := by
  simp [or_imp, forall_and]

theorem proper_intervalUnion (hi : i.Proper) (hj : j.Proper) :
    (intervalUnion callees outer i j).Proper := by
  unfold intervalUnion
  dsimp only
  split_ifs
  · exact Interval.proper_makeUnion hi hj
  · exact Interval.proper_makeUnion hi hj
  · exact hj
  · exact hi

theorem satisfies_intervalUnion {P : Expr → Prop} (hBin : ∀ op a b, P (bin op a b) ↔ P a ∧ P b)
    (hImm : ∀ T v, P (imm T v)) (hi : i.Satisfies P) (hj : j.Satisfies P) :
    (intervalUnion callees outer i j).Satisfies P := by
  unfold intervalUnion
  dsimp only
  split_ifs
  · exact Interval.satisfies_makeUnion hBin hImm hi hj
  · exact Interval.satisfies_makeUnion hBin hImm hi hj
  · exact hj
  · exact hi

/-- A visit that makes a range of those of two operands. -/
theorem Visited.combine {op : BinOp} {k : Interval} (ha : Visited x outer visible target a m i m₁)
    (hb : Visited x outer visible target b m₁ j m') (hProper : k.Proper)
    (hSatisfies : ∀ P : Expr → Prop, (∀ op a b, P (bin op a b) ↔ P a ∧ P b) →
      (∀ T v, P (imm T v)) → i.Satisfies P → j.Satisfies P → k.Satisfies P)
    (hEncloses : ∀ ρ va vb, exact ρ a = some va → exact ρ b = some vb →
      ∀ v, exact ρ (bin op a b) = some v → Encloses outer x ρ (decide (v ≠ 0) = target) k) :
    Visited x outer visible target (bin op a b) m k m' where
  memory := hb.memory
  grows := ha.grows.trans hb.grows
  solvedVars := hb.solvedVars.trans ha.solvedVars
  proper := hProper
  encloses ρ v hv := by
    obtain ⟨va, vb, hva, hvb, -⟩ := eval_bin_eq_some.mp hv
    exact hEncloses ρ va vb hva hvb v hv
  binds := by
    refine hSatisfies _ bindsIn_bin (fun _ _ _ hn => by simp at hn) (ha.binds.imp ?_)
      (hb.binds.imp ?_)
    · intro e he n hn
      exact (he n hn).imp (fun h => by simp [h]) fun h => h.mono hb.grows
    · intro e he n hn
      exact (he n hn).imp_left fun h => by simp [h]
  types s T hs hT :=
    hSatisfies _ (fun _ _ _ => Iff.rfl) (fun _ _ => trivial) (ha.types s T hs hT.1)
      (hb.types s T hs hT.2)

theorem truth_and (va vb : Int) (target : Bool) :
    (decide ((if va ≠ 0 ∧ vb ≠ 0 then (1 : Int) else 0) ≠ 0) = target) ↔
      if target then (decide (va ≠ 0) = target ∧ decide (vb ≠ 0) = target)
      else (decide (va ≠ 0) = target ∨ decide (vb ≠ 0) = target) := by
  cases target <;> by_cases ha : va = 0 <;> by_cases hb : vb = 0 <;> simp [ha, hb]

theorem truth_or (va vb : Int) (target : Bool) :
    (decide ((if va ≠ 0 ∨ vb ≠ 0 then (1 : Int) else 0) ≠ 0) = target) ↔
      if target then (decide (va ≠ 0) = target ∨ decide (vb ≠ 0) = target)
      else (decide (va ≠ 0) = target ∧ decide (vb ≠ 0) = target) := by
  cases target <;> by_cases ha : va = 0 <;> by_cases hb : vb = 0 <;> simp [ha, hb]

/-- The range of a conjunction, from those of its sides. -/
theorem encloses_and {ρ : Env} {v va vb : Int} (hCallees : callees.Sound x)
    (hva : exact ρ a = some va) (hvb : exact ρ b = some vb) (hv : exact ρ (.and a b) = some v)
    (ha : Encloses outer x ρ (decide (va ≠ 0) = target) i)
    (hb : Encloses outer x ρ (decide (vb ≠ 0) = target) j) :
    Encloses outer x ρ (decide (v ≠ 0) = target)
      (if target then .makeIntersection i j else intervalUnion callees outer i j) := by
  cases (eval_bin hva hvb .and).symm.trans hv
  refine Encloses.congr ?_ (truth_and va vb target).symm
  cases target
  · exact encloses_intervalUnion hCallees ha hb
  · exact encloses_intersection ha hb

/-- The range of a disjunction, from those of its sides. -/
theorem encloses_or {ρ : Env} {v va vb : Int} (hCallees : callees.Sound x)
    (hva : exact ρ a = some va) (hvb : exact ρ b = some vb) (hv : exact ρ (.or a b) = some v)
    (ha : Encloses outer x ρ (decide (va ≠ 0) = target) i)
    (hb : Encloses outer x ρ (decide (vb ≠ 0) = target) j) :
    Encloses outer x ρ (decide (v ≠ 0) = target)
      (if target then intervalUnion callees outer i j else .makeIntersection i j) := by
  cases (eval_bin hva hvb .or).symm.trans hv
  refine Encloses.congr ?_ (truth_or va vb target).symm
  cases target
  · exact encloses_intersection ha hb
  · exact encloses_intervalUnion hCallees ha hb

/-- The range of a negation is that of its operand for the other target. -/
theorem encloses_not {ρ : Env} {v va : Int} (hva : exact ρ a = some va)
    (hv : exact ρ (.not a) = some v) (ha : Encloses outer x ρ (decide (va ≠ 0) = !target) i) :
    Encloses outer x ρ (decide (v ≠ 0) = target) i := by
  cases (eval_not hva).symm.trans hv
  refine ha.congr ?_
  cases target <;> by_cases h : va = 0 <;> simp [h]

theorem encloses_imm {ρ : Env} {T : IntType} {v w : Int} (hv : exact ρ (.imm T w) = some v) :
    Encloses outer x ρ (decide (v ≠ 0) = target)
      (if decide (w ≠ 0) = target then .everything else .nothing) := by
  cases hv
  split_ifs with h
  · exact encloses_everything h
  · exact encloses_nothing h

theorem visited_and (hCallees : callees.Sound x) (ha : Visited x outer visible target a m i m₁)
    (hb : Visited x outer visible target b m₁ j m') :
    Visited x outer visible target (.and a b) m
      (if target then .makeIntersection i j else intervalUnion callees outer i j) m' := by
  refine ha.combine hb ?_ ?_ ?_
  · cases target
    · exact proper_intervalUnion ha.proper hb.proper
    · exact Interval.proper_makeIntersection ha.proper hb.proper
  · intro P hBin hImm hi hj
    cases target
    · exact satisfies_intervalUnion hBin hImm hi hj
    · exact Interval.satisfies_makeIntersection hBin hImm hi hj
  · intro ρ va vb hva hvb v hv
    exact encloses_and hCallees hva hvb hv (ha.encloses ρ va hva) (hb.encloses ρ vb hvb)

theorem visited_or (hCallees : callees.Sound x) (ha : Visited x outer visible target a m i m₁)
    (hb : Visited x outer visible target b m₁ j m') :
    Visited x outer visible target (.or a b) m
      (if target then intervalUnion callees outer i j else .makeIntersection i j) m' := by
  refine ha.combine hb ?_ ?_ ?_
  · cases target
    · exact Interval.proper_makeIntersection ha.proper hb.proper
    · exact proper_intervalUnion ha.proper hb.proper
  · intro P hBin hImm hi hj
    cases target
    · exact Interval.satisfies_makeIntersection hBin hImm hi hj
    · exact satisfies_intervalUnion hBin hImm hi hj
  · intro ρ va vb hva hvb v hv
    exact encloses_or hCallees hva hvb hv (ha.encloses ρ va hva) (hb.encloses ρ vb hvb)

theorem visited_not (ha : Visited x outer visible (!target) a m i m') :
    Visited x outer visible target (.not a) m i m' where
  memory := ha.memory
  grows := ha.grows
  solvedVars := ha.solvedVars
  proper := ha.proper
  encloses ρ v hv := by
    obtain ⟨va, hva, -⟩ := eval_not_eq_some.mp hv
    exact encloses_not hva hv (ha.encloses ρ va hva)
  binds := ha.binds
  types := ha.types

/-- A visit that gives up, or that is of a constant, changes nothing. -/
theorem visited_const (hMemory : MemoryOk x outer visible m) (hGrows : m₁.names ≤ m.names)
    (hVars : m.solvedVars = m₁.solvedVars) (hRange : i = .everything ∨ i = .nothing)
    (hEncloses : ∀ ρ v, exact ρ e = some v → Encloses outer x ρ (decide (v ≠ 0) = target) i) :
    Visited x outer visible target e m₁ i m where
  memory := hMemory
  grows := hGrows
  solvedVars := hVars
  proper := by rcases hRange with rfl | rfl <;> simp [Interval.Proper, Interval.everything,
    Interval.nothing]
  encloses := hEncloses
  binds := by rcases hRange with rfl | rfl <;> exact ⟨trivial, trivial⟩
  types _ _ _ _ := by rcases hRange with rfl | rfl <;> exact ⟨trivial, trivial⟩

theorem failed_range : failed outer = .everything ∨ failed outer = .nothing := by
  cases outer
  · exact Or.inr rfl
  · exact Or.inl rfl

theorem visited_failed (hMemory : MemoryOk x outer visible m) (hGrows : m₁.names ≤ m.names)
    (hVars : m.solvedVars = m₁.solvedVars) :
    Visited x outer visible target e m₁ (failed outer) m :=
  visited_const hMemory hGrows hVars failed_range fun _ _ _ => encloses_failed

theorem visited_letIn {name : Name} (hBinds : a.binds = []) (hStatic : ¬ Static name)
    (hName : name ≠ x) (hb : Visited x outer visible target b m i m') :
    Visited x outer visible target (.letIn name a b) m (wrapLet name a i) m' where
  memory := hb.memory
  grows := hb.grows
  solvedVars := hb.solvedVars
  proper := by
    rw [wrapLet, Interval.mapFinite_eq_map hb.proper]
    exact Interval.proper_map hb.proper
  encloses ρ v hv := by
    obtain ⟨w, hw, hBody⟩ := eval_letIn_eq_some.mp hv
    exact encloses_wrapLet hw (Ne.symm hName) hb.proper (hb.encloses _ v hBody)
  binds := by
    rw [wrapLet, Interval.mapFinite_eq_map hb.proper]
    refine Interval.satisfies_map hb.binds fun e he n hn => ?_
    split_ifs at hn
    · simp only [binds, hBinds, List.nil_append, List.mem_cons] at hn ⊢
      rcases hn with hn | hn
      · exact Or.inl (Or.inl hn)
      · exact (he n hn).imp_left Or.inr
    · exact (he n hn).imp_left fun h => by simp [h]
  types s T hs hT := by
    rw [wrapLet, Interval.mapFinite_eq_map hb.proper]
    have hBody := hT.2.resolve_left fun hEq => hStatic (hEq ▸ hs)
    refine Interval.satisfies_map (hb.types s T hs hBody) fun e he => ?_
    split_ifs
    · exact ⟨hT.1, Or.inr he⟩
    · exact he

/-- A condition that another one with the same value is visited for. -/
theorem Visited.of_rewrite {e' : Expr} (h : Visited x outer visible target e' m i m')
    (hValue : ∀ ρ v, exact ρ e = some v → exact ρ e' = some v) (hBinds : e'.binds ⊆ e.binds)
    (hTypes : ∀ s T, HasType s T e → HasType s T e') :
    Visited x outer visible target e m i m' where
  memory := h.memory
  grows := h.grows
  solvedVars := h.solvedVars
  proper := h.proper
  encloses ρ v hv := h.encloses ρ v (hValue ρ v hv)
  binds := h.binds.imp fun _ he n hn => (he n hn).imp_left fun h => hBinds h
  types s T hs hT := h.types s T hs (hTypes s T hT)

end Connectives

section Comparisons

variable {visible : Name → Prop} {scope : LetScope} {solved : Bool} {a b c : Expr} {ρ : Env}
  {v : Int} {op : CmpOp}

theorem exact_lt (hType : noOverflowInt b.type = true) (hv : exact ρ (.lt a b) = some v) :
    exact ρ (.le a (.sub b (makeOne b.type))) = some v := by
  obtain ⟨va, vb, ha, hb, rfl⟩ := eval_cmp_eq_some.mp hv
  rw [exact, eval_cmp ha (exact_sub_one hb hType)]
  simp [evalCmp]

theorem exact_gt (hType : noOverflowInt b.type = true) (hv : exact ρ (.gt a b) = some v) :
    exact ρ (.ge a (.add b (makeOne b.type))) = some v := by
  obtain ⟨va, vb, ha, hb, rfl⟩ := eval_cmp_eq_some.mp hv
  rw [exact, eval_cmp ha (exact_add_one hb hType)]
  simp [evalCmp]

theorem ne_bool (h : noOverflowInt a.type = true) : a.type ≠ .bool := by
  intro hType
  rw [hType] at h
  exact absurd h (by decide)

theorem expandEquality_eq (h : noOverflowInt a.type = true) :
    expandEquality .eq a b = .and (.le a b) (.ge a b) := by
  simp [expandEquality, ne_bool h]

theorem expandEquality_ne (h : noOverflowInt a.type = true) :
    expandEquality .ne a b = .or (.lt a b) (.gt a b) := by
  simp [expandEquality, ne_bool h]

theorem exact_expandEquality (hOp : op = .eq ∨ op = .ne) (hType : noOverflowInt a.type = true)
    (hv : exact ρ (.cmp op a b) = some v) : exact ρ (expandEquality op a b) = some v := by
  obtain ⟨va, vb, ha, hb, rfl⟩ := eval_cmp_eq_some.mp hv
  rcases hOp with rfl | rfl
  · rw [expandEquality_eq hType, exact, eval_bin (eval_cmp ha hb .le) (eval_cmp ha hb .ge) .and]
    by_cases h : va = vb
    · simp [evalBin, evalCmp, h]
    · rcases lt_or_gt_of_ne h with h | h <;> simp [evalBin, evalCmp, h.ne, h.ne', not_le.mpr h]
  · rw [expandEquality_ne hType, exact, eval_bin (eval_cmp ha hb .lt) (eval_cmp ha hb .gt) .or]
    by_cases h : va = vb
    · simp [evalBin, evalCmp, h]
    · rcases lt_or_gt_of_ne h with h | h <;> simp [evalBin, evalCmp, h, h.ne, h.ne', h.le]

/-- No static variable stands on the right of what a comparison with it expands to,
unless it was there. -/
theorem separated_of_not_ordering (h : Separated solved op a b) (hOp : ¬ Ordering op) :
    Untouched a ∧ (solved = true ∨ Untouched b) := by
  rcases h with ⟨ha, hb⟩ | ⟨hOrd, -⟩
  · exact ⟨ha, hb.imp_right fun h => h.resolve_right fun h => hOp h.1⟩
  · exact absurd hOrd hOp

theorem Ready.of_lt (h : Ready x visible scope solved (.lt a b)) :
    Ready x visible scope solved (.le a (.sub b (makeOne b.type))) := by
  obtain ⟨ha, hb, hBindsA, hBindsB, hSecond, hSep⟩ := h.tractable
  obtain ⟨hLeft, hRight⟩ := separated_of_not_ordering hSep (by simp [Ordering])
  refine ⟨⟨ha, hb, hBindsA, by simp [hBindsB], hSecond, Or.inl ⟨hLeft, ?_⟩⟩, ?_, ?_⟩
  · exact hRight.imp_right fun h => Or.inl fun s hs => by simp [h s hs]
  · exact fun n hn => h.mentions n (by simpa using hn)
  · exact fun n hn => h.binds n (by simpa using hn)

theorem Ready.of_gt (h : Ready x visible scope solved (.gt a b)) :
    Ready x visible scope solved (.ge a (.add b (makeOne b.type))) := by
  obtain ⟨ha, hb, hBindsA, hBindsB, hSecond, hSep⟩ := h.tractable
  obtain ⟨hLeft, hRight⟩ := separated_of_not_ordering hSep (by simp [Ordering])
  refine ⟨⟨ha, hb, hBindsA, by simp [hBindsB], hSecond, Or.inl ⟨hLeft, ?_⟩⟩, ?_, ?_⟩
  · exact hRight.imp_right fun h => Or.inl fun s hs => by simp [h s hs]
  · exact fun n hn => h.mentions n (by simpa using hn)
  · exact fun n hn => h.binds n (by simpa using hn)

theorem Ready.expandEquality (hOp : op = .eq ∨ op = .ne)
    (h : Ready x visible scope solved (.cmp op a b)) :
    Ready x visible scope solved (expandEquality op a b) := by
  obtain ⟨ha, hb, hBindsA, hBindsB, hSecond, hSep⟩ := h.tractable
  have hNot : ¬ Ordering op := by rcases hOp with rfl | rfl <;> simp [Ordering]
  obtain ⟨hLeft, hRight⟩ := separated_of_not_ordering hSep hNot
  have hSide (op' : CmpOp) : Tractable x solved (.cmp op' a b) :=
    ⟨ha, hb, hBindsA, hBindsB, hSecond, Or.inl ⟨hLeft, hRight.imp_right Or.inl⟩⟩
  rcases hOp with rfl | rfl
  · rw [expandEquality_eq ha]
    exact ⟨⟨hSide _, hSide _⟩, fun n hn => h.mentions n (by simpa using hn),
      fun n hn => absurd hn (by simp [hBindsA, hBindsB])⟩
  · rw [expandEquality_ne ha]
    exact ⟨⟨hSide _, hSide _⟩, fun n hn => h.mentions n (by simpa using hn),
      fun n hn => absurd hn (by simp [hBindsA, hBindsB])⟩

end Comparisons

section Split

variable {names : StaticNames} {a b c cond : Expr} {ρ : Env} {va vb vc v : Int} {op : CmpOp}

/-- The values of the abstract variables. -/
def abstractValues (names : StaticNames) (ρ : Env) (vb vc : Int) : Env :=
  (ρ.set names.c vc).set names.b vb

theorem exact_abstract (names : StaticNames) (ha : exact ρ a = some va)
    (hb : a.mentions names.b = false) (hc : a.mentions names.c = false) (vb vc : Int) :
    exact (abstractValues names ρ vb vc) a = some va := by
  rw [exact, abstractValues, eval_set hb, eval_set hc]
  exact ha

theorem exact_abstract_b (names : StaticNames) (T : IntType) (ρ : Env) (vb vc : Int) :
    exact (abstractValues names ρ vb vc) (.var T names.b) = some vb :=
  congrArg some (Env.set_vars_self ..)

theorem exact_abstract_c {names : StaticNames} (hNe : names.c ≠ names.b) (T : IntType) (ρ : Env)
    (vb vc : Int) : exact (abstractValues names ρ vb vc) (.var T names.c) = some vc :=
  congrArg some ((Env.set_vars_of_ne hNe).trans (Env.set_vars_self ..))

theorem exact_splitAnd {opposite : CmpOp} (hNe : names.c ≠ names.b) (ha : exact ρ a = some va)
    (hb : a.mentions names.b = false) (hc : a.mentions names.c = false) :
    exact (abstractValues names ρ vb vc) (splitAnd op opposite names a b c) =
      some (if evalCmp op va vc ≠ 0 ∧ (evalCmp op vb vc ≠ 0 ∨ evalCmp opposite va vb ≠ 0)
        then 1 else 0) := by
  have hA := exact_abstract names ha hb hc vb vc
  have hB := exact_abstract_b names b.type ρ vb vc
  have hC := exact_abstract_c hNe c.type ρ vb vc
  rw [splitAnd, exact, eval_bin (eval_cmp hA hC op)
    (eval_bin (eval_cmp hB hC op) (eval_cmp hA hB opposite) .or) .and]
  simp only [evalBin, ne_eq, Option.some.injEq]
  split_ifs <;> simp_all

theorem exact_splitOr {opposite : CmpOp} (hNe : names.c ≠ names.b) (ha : exact ρ a = some va)
    (hb : a.mentions names.b = false) (hc : a.mentions names.c = false) :
    exact (abstractValues names ρ vb vc) (splitOr op opposite names a b c) =
      some (if evalCmp op va vc ≠ 0 ∨ (evalCmp op vb vc ≠ 0 ∧ evalCmp opposite va vb ≠ 0)
        then 1 else 0) := by
  have hA := exact_abstract names ha hb hc vb vc
  have hB := exact_abstract_b names b.type ρ vb vc
  have hC := exact_abstract_c hNe c.type ρ vb vc
  rw [splitOr, exact, eval_bin (eval_cmp hA hC op)
    (eval_bin (eval_cmp hB hC op) (eval_cmp hA hB opposite) .and) .or]
  simp only [evalBin, ne_eq, Option.some.injEq]
  split_ifs <;> simp_all

/-- What the condition over abstract variables keeps of the comparison. -/
structure SplitSpec (x : Name) (names : StaticNames) (op : CmpOp) (a c cond b : Expr) : Prop where
  tractable : Tractable x false cond
  mentions : ∀ n, cond.mentions n = true → a.mentions n = true ∨ n = names.b ∨ n = names.c
  binds : cond.binds = []
  second : (∀ n, b.mentions n = true → a.mentions n = true) ∧ b.binds = []
  types : ∀ s T, (s = names.b → T = b.type) → (s = names.c → T = c.type) → HasType s T a →
    HasType s T cond
  value : ∀ ρ v, exact ρ (.cmp op a c) = some v → ∃ vb vc, exact ρ b = some vb ∧
    exact ρ c = some vc ∧ exact (abstractValues names ρ vb vc) cond = some v

theorem separated_abstract {op : CmpOp} (hOp : Ordering op) (ha : Untouched a) {s : Name}
    (hs : Static s) (T : IntType) : Separated false op a (.var T s) :=
  Or.inl ⟨ha, Or.inr (Or.inr ⟨hOp, T, s, rfl, hs⟩)⟩

/-- Both expansions have the same three comparisons. -/
theorem splitSpec {a' : Expr} {m : BinOp} (hStatic : Static names.b ∧ Static names.c)
    (hOp : Ordering op) (hType : noOverflowInt a'.type = true ∧ noOverflowInt b.type = true ∧
      noOverflowInt c.type = true)
    (hBinds : a'.binds = [] ∧ b.binds = []) (hUntouched : Untouched a') {opposite : CmpOp}
    (hOpposite : Ordering opposite)
    (hCond : cond = splitAnd op opposite names a' b c ∨ cond = splitOr op opposite names a' b c)
    (hValue : ∀ ρ v, exact ρ (.cmp op (bin m a' b) c) = some v → ∃ vb vc, exact ρ b = some vb ∧
      exact ρ c = some vc ∧ exact (abstractValues names ρ vb vc) cond = some v) :
    SplitSpec x names op (bin m a' b) c cond b := by
  have hFirst : Tractable x false (.cmp op a' (.var c.type names.c)) :=
    ⟨hType.1, hType.2.2, hBinds.1, rfl, nofun,
      separated_abstract hOp hUntouched hStatic.2 _⟩
  have hSecond : Tractable x false (.cmp op (.var b.type names.b) (.var c.type names.c)) :=
    ⟨hType.2.1, hType.2.2, rfl, rfl, nofun,
      Or.inr ⟨hOp, ⟨_, _, rfl, hStatic.1⟩, _, _, rfl, hStatic.2⟩⟩
  have hThird : Tractable x false (.cmp opposite a' (.var b.type names.b)) :=
    ⟨hType.1, hType.2.1, hBinds.1, rfl, nofun,
      separated_abstract hOpposite hUntouched hStatic.1 _⟩
  refine ⟨?_, ?_, ?_, ⟨fun n hn => by simp [hn], hBinds.2⟩, ?_, hValue⟩
  · rcases hCond with rfl | rfl <;> exact ⟨hFirst, hSecond, hThird⟩
  · intro n hn
    rcases hCond with rfl | rfl
    all_goals
      simp only [splitAnd, splitOr, Expr.mentions, Bool.or_eq_true, decide_eq_true_eq] at hn ⊢
      grind
  · rcases hCond with rfl | rfl <;> simp [splitAnd, splitOr, hBinds.1]
  · intro s T hb hc ha
    have hbVar : HasType s T (.var b.type names.b) := fun hEq => (hb hEq.symm).symm
    have hcVar : HasType s T (.var c.type names.c) := fun hEq => (hc hEq.symm).symm
    rcases hCond with rfl | rfl <;> exact ⟨⟨ha.1, hcVar⟩, ⟨hbVar, hcVar⟩, ha.1, hbVar⟩

theorem splitMinMax_spec (hStatic : Static names.b ∧ Static names.c) (hNe : names.c ≠ names.b)
    (hType : noOverflowInt a.type = true ∧ noOverflowInt c.type = true)
    (hSecond : SecondOperand (noOverflowInt ·) a) (hBinds : a.binds = []) (ha : Untouched a)
    (h : splitMinMax op names a c = some (cond, b)) : SplitSpec x names op a c cond b := by
  have hParts {m : BinOp} {a' b' : Expr} (hEq : a = bin m a' b') :
      (noOverflowInt a'.type = true ∧ noOverflowInt b'.type = true ∧
        noOverflowInt c.type = true) ∧ (a'.binds = [] ∧ b'.binds = []) ∧ Untouched a' := by
    subst hEq
    refine ⟨⟨hType.1, hSecond, hType.2⟩, by simpa using hBinds, fun s hs => ?_⟩
    have hBoth := ha s hs
    simp only [Expr.mentions, Bool.or_eq_false_iff] at hBoth
    exact hBoth.1
  have hFree {m : BinOp} {a' b' : Expr} (hEq : a = bin m a' b') :
      a'.mentions names.b = false ∧ a'.mentions names.c = false :=
    ⟨(hParts hEq).2.2 _ hStatic.1, (hParts hEq).2.2 _ hStatic.2⟩
  unfold splitMinMax at h
  split at h
  case h_5 => cases h
  all_goals
    cases h
    obtain ⟨hT, hB, hU⟩ := hParts rfl
    obtain ⟨hFreeB, hFreeC⟩ := hFree rfl
  · refine splitSpec hStatic (Or.inl rfl) hT hB hU (Or.inr rfl) (Or.inl rfl) fun ρ v hv => ?_
    obtain ⟨_, vc, hMax, hc, rfl⟩ := eval_cmp_eq_some.mp hv
    obtain ⟨va, vb, hva, hvb, hEval⟩ := eval_bin_eq_some.mp hMax
    cases hEval
    refine ⟨vb, vc, hvb, hc, (exact_splitAnd hNe hva hFreeB hFreeC).trans ?_⟩
    simp only [evalCmp, Option.some.injEq]
    grind
  · refine splitSpec hStatic (Or.inl rfl) hT hB hU (Or.inr rfl) (Or.inr rfl) fun ρ v hv => ?_
    obtain ⟨_, vc, hMin, hc, rfl⟩ := eval_cmp_eq_some.mp hv
    obtain ⟨va, vb, hva, hvb, hEval⟩ := eval_bin_eq_some.mp hMin
    cases hEval
    refine ⟨vb, vc, hvb, hc, (exact_splitOr hNe hva hFreeB hFreeC).trans ?_⟩
    simp only [evalCmp, Option.some.injEq]
    grind
  · refine splitSpec hStatic (Or.inr rfl) hT hB hU (Or.inl rfl) (Or.inr rfl) fun ρ v hv => ?_
    obtain ⟨_, vc, hMax, hc, rfl⟩ := eval_cmp_eq_some.mp hv
    obtain ⟨va, vb, hva, hvb, hEval⟩ := eval_bin_eq_some.mp hMax
    cases hEval
    refine ⟨vb, vc, hvb, hc, (exact_splitOr hNe hva hFreeB hFreeC).trans ?_⟩
    simp only [evalCmp, Option.some.injEq]
    grind
  · refine splitSpec hStatic (Or.inr rfl) hT hB hU (Or.inl rfl) (Or.inl rfl) fun ρ v hv => ?_
    obtain ⟨_, vc, hMin, hc, rfl⟩ := eval_cmp_eq_some.mp hv
    obtain ⟨va, vb, hva, hvb, hEval⟩ := eval_bin_eq_some.mp hMin
    cases hEval
    refine ⟨vb, vc, hvb, hc, (exact_splitAnd hNe hva hFreeB hFreeC).trans ?_⟩
    simp only [evalCmp, Option.some.injEq]
    grind

end Split

section Order

variable {visible : Name → Prop} {scope : LetScope} {target : Bool} {m m' : Memory}
  {names : StaticNames} {op : CmpOp} {a b c cond e : Expr} {i : Interval} {depth k : Nat}

theorem mentions_of_leftMentions {n : Name} (h : leftMentions n e = true) (hn : n ∉ e.binds) :
    e.mentions n = true := by
  induction e with
  | cmp op a b => simp [show a.mentions n = true from h]
  | bin op a b iha ihb =>
    simp only [binds, List.mem_append, not_or] at hn
    cases op
    case and | or =>
      simp only [leftMentions, Bool.or_eq_true] at h
      simp only [Expr.mentions, Bool.or_eq_true]
      exact h.imp (fun h => iha h hn.1) fun h => ihb h hn.2
    all_goals cases h
  | not a ih => exact ih h hn
  | letIn n' value body _ ih =>
    simp only [binds, List.mem_cons, List.mem_append, not_or] at hn
    simp [ih h hn.2.2, Ne.symm hn.1]
  | _ => cases h

theorem satisfies_solvedRange {P : Expr → Prop} (hBin : ∀ op a b, P (bin op a b) ↔ P a ∧ P b)
    (hImm : ∀ T v, P (imm T v)) (hc : P c) : (solvedRange op target c).Satisfies P := by
  have hOne : P (makeOne c.type) := hImm _ _
  unfold solvedRange
  split
  · exact ⟨trivial, hc⟩
  · exact ⟨(hBin _ _ _).mpr ⟨hc, hOne⟩, trivial⟩
  · exact ⟨hc, trivial⟩
  · exact ⟨trivial, (hBin _ _ _).mpr ⟨hc, hOne⟩⟩

/-- The range of the variable itself, on the left of a solved comparison. -/
theorem visited_solvedRange (hOp : Ordering op) (hMemory : MemoryOk x outer visible m)
    (hType : noOverflowInt c.type = true) (hBinds : c.binds = []) (ha : isVar x a = true) :
    Visited x outer visible target (.cmp op a c) m (solvedRange op target c) m where
  memory := hMemory
  grows := le_rfl
  solvedVars := rfl
  proper := by rcases hOp with rfl | rfl <;> cases target <;> simp [Interval.Proper, solvedRange]
  encloses ρ v hv := by
    obtain ⟨va, vc, hva, hvc, rfl⟩ := eval_cmp_eq_some.mp hv
    unfold isVar at ha
    split at ha
    · rw [decide_eq_true_eq] at ha
      subst ha
      cases hva
      exact encloses_solvedRange hOp hvc hType
    · cases ha
  binds := satisfies_solvedRange bindsIn_bin (fun _ _ _ hn => by simp at hn) (by simp [hBinds])
  types _ _ _ hT := satisfies_solvedRange (fun _ _ _ => Iff.rfl) (fun _ _ => trivial) hT.2

/-- A cached range, for the values that stand for the abstract variables. -/
theorem visited_instantiate (hContext : Context x visible scope)
    (hStatic : Static names.b ∧ Static names.c) (hNe : names.c ≠ names.b)
    (hReady : Ready x visible scope true (.cmp op a c)) (ha : Untouched a)
    (hSpec : SplitSpec x names op a c cond b) (hGrows : m.names ≤ m'.names)
    (hVars : m'.solvedVars = m.solvedVars) (hMemory : MemoryOk x outer visible m')
    (h : Entry x outer visible m'.names target cond i) :
    Visited x outer visible target (.cmp op a c) m (instantiate names b c i) m' := by
  have hFree : ∀ s, Static s → b.mentions s = false := fun s hs => by
    by_contra hMentions
    have hA := hSpec.second.1 s (eq_true_of_ne_false hMentions)
    rw [ha s hs] at hA
    cases hA
  have hStatics (s : Name) (T : IntType) (hs : Static s) (hb : s = names.b → T = b.type)
      (hc : s = names.c → T = c.type) : i.Satisfies (HasType s T) :=
    h.types s T hs (hSpec.types s T hb hc (hasType_of_not_mentions (ha s hs) T))
  refine ⟨hMemory, hGrows, hVars, ?_, ?_, ?_, ?_⟩
  · rw [instantiate, Interval.mapFinite_eq_map h.proper]
    exact Interval.proper_map h.proper
  · intro ρ v hv
    obtain ⟨vb, vc, hvb, hvc, hCond⟩ := hSpec.value ρ v hv
    have hVisible : i.Satisfies fun e =>
        ∀ n ∈ e.binds, b.mentions n = false ∧ c.mentions n = false := by
      refine h.binds.imp fun e he n hn => ?_
      have hHidden : (Expr.cmp op a c).mentions n = false := by
        by_contra hMentions
        exact (he n hn).1 (hReady.mentions n (eq_true_of_ne_false hMentions)).1
      simp only [Expr.mentions, Bool.or_eq_false_iff] at hHidden
      refine ⟨?_, hHidden.2⟩
      by_contra hMentions
      have hA := hSpec.second.1 n (eq_true_of_ne_false hMentions)
      rw [hHidden.1] at hA
      cases hA
    exact encloses_instantiate hvb hvc (hFree _ hStatic.2)
      (hContext.static _ hStatic.1).2.1.symm (hContext.static _ hStatic.2).2.1.symm h.proper
      hVisible hSpec.second.2
      (hStatics _ _ hStatic.1 (fun _ => rfl) fun hEq => absurd hEq.symm hNe)
      (hStatics _ _ hStatic.2 (fun hEq => absurd hEq hNe) fun _ => rfl) (h.encloses _ v hCond)
  · rw [instantiate, Interval.mapFinite_eq_map h.proper]
    refine Interval.satisfies_map h.binds fun e he n hn => Or.inr (he n ?_)
    exact binds_substitute hSpec.second.2 (binds_substitute hReady.tractable.2.2.2.1 hn)
  · intro s T hs hT
    rw [instantiate, Interval.mapFinite_eq_map h.proper]
    have hB : HasType s T b := hasType_of_not_mentions (hFree s hs) T
    by_cases hb : s = names.b
    · refine Interval.satisfies_map (Interval.satisfies_of_forall (fun _ => trivial) i) fun e _ => ?_
      exact hasType_substitute hT.2 (Or.inr (hasType_substitute hB (Or.inl hb)))
    · by_cases hc : s = names.c
      · refine Interval.satisfies_map (Interval.satisfies_of_forall (fun _ => trivial) i)
          fun e _ => ?_
        exact hasType_substitute hT.2 (Or.inl hc)
      · refine Interval.satisfies_map
          (hStatics s T hs (fun h => absurd h hb) fun h => absurd h hc) fun e he => ?_
        exact hasType_substitute hT.2 (Or.inr (hasType_substitute hB (Or.inr he)))

/-- What the visits to a depth establish. -/
def VisitSpec (callees : Callees) (x : Name) (outer : Bool) (depth : Nat) : Prop :=
  ∀ visible scope solved target e m i m', Context x visible scope →
    Ready x visible scope solved e → MemoryOk x outer visible m →
      visit callees x outer depth scope solved target e m = some (i, m') →
        Visited x outer visible target e m i m'

/-- The lets of a solved comparison come into sight. -/
def withLets (visible : Name → Prop) (e : Expr) (n : Name) : Prop := visible n ∨ n ∈ e.binds

theorem Context.withLets (h : Context x visible scope) (e : Expr) :
    Context x (withLets visible e) scope :=
  ⟨Or.inl h.var, fun s hs => ⟨Or.inl (h.static s hs).1, (h.static s hs).2⟩,
    fun n w hw => ⟨Or.inl (h.lets n w hw).1, fun k hk =>
      ⟨Or.inl ((h.lets n w hw).2 k hk).1, ((h.lets n w hw).2 k hk).2⟩⟩⟩

section Unsolved

variable {k' : Nat} (hContext : Context x visible scope) (hMemory : MemoryOk x outer visible m)
  (hSolves : Solves x m.names k' scope op a c e) (hGrows : m.names ≤ k')

include hMemory hSolves

theorem not_visible_of_mem_binds {n : Name} (hn : n ∈ e.binds) : ¬ visible n := by
  obtain ⟨j, hj, -, rfl⟩ := hSolves.lets n hn
  exact fun hVisible => absurd (hMemory.old _ hVisible j rfl) (by omega)

include hGrows

theorem memoryOk_withLets :
    MemoryOk x outer (withLets visible e) { m with names := k' } := by
  refine ⟨fun n hn => ?_, fun target cond i hi => ?_⟩
  · rcases hn with hn | hn
    · exact (hMemory.old n hn).mono hGrows
    · obtain ⟨j, -, hj, rfl⟩ := hSolves.lets n hn
      intro j' hEq
      cases hEq
      exact hj
  · have hEntry := hMemory.cached target cond i hi
    refine ⟨hEntry.proper, hEntry.encloses, hEntry.binds.imp fun b hb n hn => ?_, hEntry.types⟩
    obtain ⟨hHidden, j, hj, rfl⟩ := hb n hn
    refine ⟨fun h => ?_, j, hj.trans_le hGrows, rfl⟩
    rcases h with h | h
    · exact hHidden h
    · obtain ⟨j', hj', -, hEq⟩ := hSolves.lets _ h
      cases hEq
      omega

include hContext

omit hGrows in
theorem ready_of_solves (hTypeA : noOverflowInt a.type = true) (hTypeC : noOverflowInt c.type = true)
    (hSep : Separated false op a c) (hVisible : ∀ n, (Expr.cmp op a c).mentions n = true → visible n) :
    Ready x (withLets visible e) scope true e := by
  have hStatic (s : Name) (hs : Static s) : s ∉ e.binds := fun hn =>
    not_visible_of_mem_binds hMemory hSolves hn (hContext.static s hs).1
  have hScope (s : Name) (hs : Static s) (n : Name) (w : Expr) (hw : scope.find n = some w) :
      w.mentions s = false := by
    by_contra hMentions
    exact ((hContext.lets n w hw).2 s (eq_true_of_ne_false hMentions)).2 hs
  refine ⟨?_, fun n hn => ?_, fun n hn => ?_⟩
  · rcases hSep with ⟨hA, hC⟩ | ⟨hOrd, ⟨T, s, rfl, hs⟩, T', s', rfl, hs'⟩
    · refine tractable_of_solved (hSolves.shape hTypeA hTypeC) fun s hs => ?_
      rcases hC with hC | hC | ⟨-, T', s', rfl, hs'⟩
      · cases hC
      · by_contra hLeft
        have hMentions := mentions_of_leftMentions (eq_true_of_ne_false hLeft) (hStatic s hs)
        rcases (hSolves.mentions s hMentions).2 with h | h | ⟨n, w, hw, h⟩
        · exact absurd h (by simp [hA s hs])
        · exact absurd h (by simp [hC s hs])
        · exact absurd h (by simp [hScope s hs n w hw])
      · obtain ⟨-, hx, hFree⟩ := hContext.static s' hs'
        exact hSolves.left T' s' rfl hx hFree s (hA s hs) (hScope s hs) (hStatic s hs)
    · obtain ⟨-, hx, hFree⟩ := hContext.static s hs
      obtain ⟨-, hx', hFree'⟩ := hContext.static s' hs'
      rw [hSolves.pair T s T' s' rfl rfl hx hx' hFree hFree']
      exact ⟨hTypeA, hTypeC, rfl, rfl, fun _ => trivial,
        Or.inr ⟨hOrd, ⟨T, s, rfl, hs⟩, T', s', rfl, hs'⟩⟩
  · obtain ⟨hFind, hFrom⟩ := hSolves.mentions n hn
    refine ⟨Or.inl ?_, hFind⟩
    rcases hFrom with h | h | ⟨k, w, hw, h⟩
    · exact hVisible n (by simp [h])
    · exact hVisible n (by simp [h])
    · exact ((hContext.lets k w hw).2 n h).1
  · have hNew := not_visible_of_mem_binds hMemory hSolves hn
    refine ⟨Or.inr hn, ?_, fun hs => hNew (hContext.static n hs).1, fun hEq => hNew (hEq ▸ hContext.var)⟩
    cases hFind : scope.find n with
    | none => rfl
    | some w => exact absurd (hContext.lets n w hFind).1 hNew

/-- The comparison is visited through its solution. -/
theorem visited_of_solves (hReady : Ready x visible scope false (.cmp op a c))
    (h : Visited x outer (withLets visible e) target e { m with names := k' } i m') :
    Visited x outer visible target (.cmp op a c) m i m' where
  memory := h.memory.of_visible fun _ hn => Or.inl hn
  grows := hGrows.trans h.grows
  solvedVars := h.solvedVars
  proper := h.proper
  encloses ρ v hv :=
    h.encloses ρ v (hSolves.value ρ (letsHold_of_disjoint fun n hn => (hReady.mentions n hn).2) v hv)
  binds := by
    refine h.binds.imp fun b hb n hn => Or.inr ?_
    rcases hb n hn with hn | hn
    · obtain ⟨j, -, hj, rfl⟩ := hSolves.lets n hn
      exact ⟨not_visible_of_mem_binds hMemory hSolves hn, j, hj.trans_le h.grows, rfl⟩
    · exact ⟨fun hVisible => hn.1 (Or.inl hVisible), hn.2⟩
  types s T hs hT := by
    refine h.types s T hs (hSolves.types s T hT fun n w hw => hasType_of_not_mentions ?_ T)
    by_contra hMentions
    exact ((hContext.lets n w hw).2 s (eq_true_of_ne_false hMentions)).2 hs

end Unsolved

/-- The two visitors that compare, with their own static names. -/
def OrderNames (op : CmpOp) (names : StaticNames) : Prop :=
  (op = .le ∧ names = leNames) ∨ (op = .ge ∧ names = geNames)

theorem OrderNames.spec (h : OrderNames op names) :
    Ordering op ∧ (Static names.b ∧ Static names.c) ∧ names.c ≠ names.b := by
  rcases h with ⟨rfl, rfl⟩ | ⟨rfl, rfl⟩
  · exact ⟨Or.inl rfl, ⟨⟨0, by omega, rfl⟩, 1, by omega, rfl⟩, by decide⟩
  · exact ⟨Or.inr rfl, ⟨⟨2, by omega, rfl⟩, 3, by omega, rfl⟩, by decide⟩

/-- What the visits of `<=` and `>=` to a depth establish. -/
def OrderSpec (callees : Callees) (x : Name) (outer : Bool) (depth : Nat) : Prop :=
  ∀ visible scope solved target op names a c m i m', OrderNames op names → Context x visible scope →
    Ready x visible scope solved (.cmp op a c) → MemoryOk x outer visible m →
      visitOrder callees x outer depth scope solved target op names a c m = some (i, m') →
        Visited x outer visible target (.cmp op a c) m i m'

theorem ready_split (hContext : Context x visible scope)
    (hStatic : Static names.b ∧ Static names.c)
    (hReady : Ready x visible scope true (.cmp op a c))
    (hSpec : SplitSpec x names op a c cond b) : Ready x visible scope false cond := by
  refine ⟨hSpec.tractable, fun n hn => ?_, fun n hn => by simp [hSpec.binds] at hn⟩
  rcases hSpec.mentions n hn with h | rfl | rfl
  · exact hReady.mentions n (by simp [h])
  · exact ⟨(hContext.static _ hStatic.1).1, (hContext.static _ hStatic.1).2.2⟩
  · exact ⟨(hContext.static _ hStatic.2).1, (hContext.static _ hStatic.2).2.2⟩

/-- The comparison of a `max` or `min`, from a visit of what it expands to. -/
theorem visited_split (hVisit : VisitSpec callees x outer depth) (hNames : OrderNames op names)
    (hContext : Context x visible scope) (hReady : Ready x visible scope true (.cmp op a c))
    (hMemory : MemoryOk x outer visible m) (hSplit : splitMinMax op names a c = some (cond, b))
    (h : (match (m.cache target).lookup cond with
      | some i => some (instantiate names b c i, m)
      | none => do
          let (i, m) ← visit callees x outer depth scope false target cond m
          return (instantiate names b c i, m.insertCache target cond i)) = some (i, m')) :
    Visited x outer visible target (.cmp op a c) m i m' := by
  obtain ⟨-, hStatic, hNe⟩ := hNames.spec
  obtain ⟨hTypeA, hTypeC, hBindsA, -, hSecond, hSep⟩ := hReady.tractable
  have hA : Untouched a := by
    rcases hSep with ⟨hA, -⟩ | ⟨-, ⟨T, s, rfl, -⟩, -⟩
    · exact hA
    · cases op <;> cases hSplit
  have hSpec : SplitSpec x names op a c cond b :=
    splitMinMax_spec hStatic hNe ⟨hTypeA, hTypeC⟩ (hSecond rfl) hBindsA hA hSplit
  split at h
  case h_1 i' hLookup =>
    cases h
    exact visited_instantiate hContext hStatic hNe hReady hA hSpec le_rfl rfl hMemory
      (hMemory.cached target cond i' hLookup)
  case h_2 =>
    obtain ⟨⟨i', m₁⟩, hCond, hEq⟩ := Option.bind_eq_some_iff.mp h
    cases hEq
    have hVisited := hVisit visible scope false target cond m i' m₁ hContext
      (ready_split hContext hStatic hReady hSpec) hMemory hCond
    have hEntry : Entry x outer visible m₁.names target cond i' :=
      ⟨hVisited.proper, hVisited.encloses, hVisited.binds.imp fun e he n hn =>
        (he n hn).resolve_left (by simp [hSpec.binds]), hVisited.types⟩
    have hNames' : (m₁.insertCache target cond i').names = m₁.names := by cases target <;> rfl
    have hVars : (m₁.insertCache target cond i').solvedVars = m₁.solvedVars := by
      cases target <;> rfl
    exact visited_instantiate hContext hStatic hNe hReady hA hSpec
      (hNames' ▸ hVisited.grows) (hVars.trans hVisited.solvedVars)
      (hVisited.memory.insertCache hEntry) (hNames' ▸ hEntry)

theorem orderSpec_succ (hCallees : callees.Sound x) (hVisit : VisitSpec callees x outer depth) :
    OrderSpec callees x outer (depth + 1) := by
  intro visible scope solved target op names a c m i m' hNames hContext hReady hMemory h
  rw [visitOrder] at h
  cases solved with
  | false =>
    simp only [Bool.not_false, if_true] at h
    have hGrows := hCallees.names m.names scope (.cmp op a c)
    split at h
    case h_1 k hSolve =>
      rw [hSolve] at hGrows
      cases h
      exact visited_failed (hMemory.grow hGrows) hGrows rfl
    case h_2 k e hSolve =>
      rw [hSolve] at hGrows
      have hSolves := hCallees.solves _ _ _ _ _ _ _ hSolve
      obtain ⟨hTypeA, hTypeC, -, -, -, hSep⟩ := hReady.tractable
      exact visited_of_solves hContext hMemory hSolves hGrows hReady
        (hVisit _ scope true target e _ i m' (hContext.withLets e)
          (ready_of_solves hContext hMemory hSolves hTypeA hTypeC hSep
            fun n hn => (hReady.mentions n hn).1)
          (memoryOk_withLets hMemory hSolves hGrows) h)
  | true =>
    obtain ⟨-, hTypeC, -, hBindsC, -⟩ := hReady.tractable
    simp only [Bool.not_true, Bool.false_eq_true, if_false] at h
    split_ifs at h with hVar
    · cases h
      exact visited_solvedRange hNames.spec.1 hMemory hTypeC hBindsC hVar
    · split at h
      · cases h
        exact visited_failed hMemory le_rfl rfl
      · exact visited_split hVisit hNames hContext hReady hMemory ‹_› h

end Order

section Run

variable {visible : Name → Prop} {scope : LetScope} {depth : Nat}

theorem visitSpec_succ (hCallees : callees.Sound x) (hVisit : VisitSpec callees x outer depth)
    (hOrder : OrderSpec callees x outer depth) : VisitSpec callees x outer (depth + 1) := by
  intro visible scope solved target e m i m' hContext hReady hMemory h
  rw [visit.eq_def] at h
  dsimp only at h
  cases e with
  | imm T v =>
    cases h
    refine visited_const hMemory le_rfl rfl ?_ fun ρ w hw => encloses_imm hw
    split_ifs
    · exact Or.inl rfl
    · exact Or.inr rfl
  | not a => exact visited_not (hVisit _ _ _ _ _ _ _ _ hContext hReady.of_not hMemory h)
  | bin op a b =>
    cases op
    case and =>
      obtain ⟨⟨ia, m₁⟩, ha, h⟩ := Option.bind_eq_some_iff.mp h
      obtain ⟨⟨ib, m₂⟩, hb, h⟩ := Option.bind_eq_some_iff.mp h
      cases h
      have hA := hVisit _ _ _ _ _ _ _ _ hContext (hReady.left (Or.inl rfl)) hMemory ha
      have hB := hVisit _ _ _ _ _ _ _ _ hContext (hReady.right (Or.inl rfl)) hA.memory hb
      exact visited_and hCallees hA hB
    case or =>
      obtain ⟨⟨ia, m₁⟩, ha, h⟩ := Option.bind_eq_some_iff.mp h
      obtain ⟨⟨ib, m₂⟩, hb, h⟩ := Option.bind_eq_some_iff.mp h
      cases h
      have hA := hVisit _ _ _ _ _ _ _ _ hContext (hReady.left (Or.inr rfl)) hMemory ha
      have hB := hVisit _ _ _ _ _ _ _ _ hContext (hReady.right (Or.inr rfl)) hA.memory hb
      exact visited_or hCallees hA hB
    all_goals exact hReady.tractable.elim
  | letIn name value body =>
    have hUses : (value.mentions x || scope.any fun p => value.mentions p.1) = false := by
      rw [Bool.or_eq_false_iff, List.any_eq_false]
      refine ⟨hReady.tractable.2.1, fun p hp hMentions => ?_⟩
      have hFind := (hReady.mentions p.1 (by simp [hMentions])).2
      rw [LetScope.find, List.lookup_eq_none_iff] at hFind
      simpa using hFind p hp
    obtain ⟨⟨ib, m₁⟩, hb, h⟩ := Option.bind_eq_some_iff.mp h
    rw [hUses, if_neg Bool.false_ne_true] at hb
    cases h
    obtain ⟨-, -, hStatic, hName⟩ := hReady.binds name (by simp)
    exact visited_letIn hReady.tractable.1 hStatic hName
      (hVisit _ _ _ _ _ _ _ _ hContext hReady.of_letIn hMemory hb)
  | cmp op a b =>
    have hType := hReady.tractable.1
    have hTypeB := hReady.tractable.2.1
    cases op
    case le => exact hOrder _ _ _ _ _ _ _ _ _ _ _ (Or.inl ⟨rfl, rfl⟩) hContext hReady hMemory h
    case ge => exact hOrder _ _ _ _ _ _ _ _ _ _ _ (Or.inr ⟨rfl, rfl⟩) hContext hReady hMemory h
    case lt =>
      exact (hVisit _ _ _ _ _ _ _ _ hContext hReady.of_lt hMemory h).of_rewrite
        (fun ρ v hv => exact_lt hTypeB hv) (by simp) fun s T hT => ⟨hT.1, hT.2, trivial⟩
    case gt =>
      exact (hVisit _ _ _ _ _ _ _ _ hContext hReady.of_gt hMemory h).of_rewrite
        (fun ρ v hv => exact_gt hTypeB hv) (by simp) fun s T hT => ⟨hT.1, hT.2, trivial⟩
    case eq =>
      refine (hVisit _ _ _ _ _ _ _ _ hContext (hReady.expandEquality (Or.inl rfl)) hMemory
        h).of_rewrite (fun ρ v hv => exact_expandEquality (Or.inl rfl) hType hv) ?_ ?_
      · rw [expandEquality_eq hType]
        simp
      · rw [expandEquality_eq hType]
        exact fun s T hT => ⟨hT, hT⟩
    case ne =>
      refine (hVisit _ _ _ _ _ _ _ _ hContext (hReady.expandEquality (Or.inr rfl)) hMemory
        h).of_rewrite (fun ρ v hv => exact_expandEquality (Or.inr rfl) hType hv) ?_ ?_
      · rw [expandEquality_ne hType]
        simp
      · rw [expandEquality_ne hType]
        exact fun s T hT => ⟨hT, hT⟩
  | _ => exact hReady.tractable.elim

/-- Every visit of a solved comparison is right wherever the comparison has a value. -/
theorem visit_specs (hCallees : callees.Sound x) (depth : Nat) :
    VisitSpec callees x outer depth ∧ OrderSpec callees x outer depth := by
  induction depth with
  | zero =>
    refine ⟨fun _ _ _ _ _ _ _ _ _ _ _ h => ?_, fun _ _ _ _ _ _ _ _ _ _ _ _ _ _ _ h => ?_⟩
    · rw [visit] at h
      cases h
    · rw [visitOrder] at h
      cases h
  | succ depth ih => exact ⟨visitSpec_succ hCallees ih.1 ih.2, orderSpec_succ hCallees ih.1⟩

end Run

end Vyasa.Solve
