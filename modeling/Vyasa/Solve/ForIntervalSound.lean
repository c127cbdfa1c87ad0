import Vyasa.Solve.SolvedVisit

/-! The range that is solved for contains every value at which the condition holds,
or only such values, unless a truth value is compared with another on the side that
errs. -/
namespace Vyasa.Solve

open Word IRMatch Vyasa.Expr Relation

variable {callees : Callees} {x : Name} {outer : Bool} {lets : Name → Option Expr}

section Conditions

/-- What is visited for a target from a condition that is visited for a target. -/
inductive Visits (lets : Name → Option Expr) : Bool × Expr → Bool × Expr → Prop where
  | left {op : BinOp} (hOp : op = .and ∨ op = .or) (target : Bool) (a b : Expr) :
      Visits lets (target, .bin op a b) (target, a)
  | right {op : BinOp} (hOp : op = .and ∨ op = .or) (target : Bool) (a b : Expr) :
      Visits lets (target, .bin op a b) (target, b)
  | not (target : Bool) (a : Expr) : Visits lets (target, .not a) (!target, a)
  | body (target : Bool) (name : Name) (value body : Expr) :
      Visits lets (target, .letIn name value body) (target, body)
  | value {name : Name} {value : Expr} (h : lets name = some value) (target : Bool) (T : IntType) :
      Visits lets (target, .var T name) (target, value)
  | sideLeft {a b : Expr} (hType : a.type = .bool) (target target' : Bool) (op : CmpOp) :
      Visits lets (target, .cmp op a b) (target', a)
  | sideRight {a b : Expr} (hType : a.type = .bool) (target target' : Bool) (op : CmpOp) :
      Visits lets (target, .cmp op a b) (target', b)

/-- A comparison is of numbers that may not overflow, or an equality of truth values
that is not visited for the target that its connectives get wrong. -/
def Comparable (outer target : Bool) (op : CmpOp) (a b : Expr) : Prop :=
  if a.type = .bool then (op = .eq ∨ op = .ne) ∧ target ≠ outer
  else noOverflowInt a.type ∧ noOverflowInt b.type

/-- The forms that conditions have. -/
def NodeOk (outer : Bool) : Bool × Expr → Prop
  | (_, .imm _ _) | (_, .var _ _) | (_, .bin .and _ _) | (_, .bin .or _ _) | (_, .not _)
  | (_, .letIn _ _ _) => True
  | (target, .cmp op a b) => Comparable outer target op a b
  | _ => False

/-- Every visit that follows is of such a form. -/
def Safe (lets : Name → Option Expr) (outer : Bool) (p : Bool × Expr) : Prop :=
  ∀ q, ReflTransGen (Visits lets) p q → NodeOk outer q

variable {target : Bool} {a b : Expr} {p q : Bool × Expr}

theorem Safe.node (h : Safe lets outer p) : NodeOk outer p := h p .refl

theorem Safe.step (h : Safe lets outer p) (hStep : Visits lets p q) : Safe lets outer q :=
  fun r hr => h r (.head hStep hr)

theorem safe_of_steps (hNode : NodeOk outer p) (h : ∀ q, Visits lets p q → Safe lets outer q) :
    Safe lets outer p := by
  intro r hr
  rcases hr.cases_head with rfl | ⟨q, hStep, hr⟩
  · exact hNode
  · exact h q hStep r hr

theorem safe_connective {op : BinOp} (hOp : op = .and ∨ op = .or) (ha : Safe lets outer (target, a))
    (hb : Safe lets outer (target, b)) : Safe lets outer (target, .bin op a b) := by
  refine safe_of_steps (by rcases hOp with rfl | rfl <;> trivial) fun q hStep => ?_
  cases hStep
  · exact ha
  · exact hb

theorem safe_not (ha : Safe lets outer (!target, a)) : Safe lets outer (target, .not a) := by
  refine safe_of_steps trivial fun q hStep => ?_
  cases hStep
  exact ha

/-- A comparison of numbers is solved, not visited further. -/
theorem safe_cmp {op : CmpOp} (ha : noOverflowInt a.type = true) (hb : noOverflowInt b.type = true) :
    Safe lets outer (target, .cmp op a b) := by
  refine safe_of_steps ?_ fun q hStep => ?_
  · rw [NodeOk, Comparable, if_neg (ne_bool ha)]
    exact ⟨ha, hb⟩
  · cases hStep with
    | sideLeft hType | sideRight hType => exact absurd hType (ne_bool ha)

end Conditions

section Lets

/-- Every let of the condition is the one its name stands for, and is not around itself. -/
def Scoped (lets : Name → Option Expr) : List Name → Expr → Prop
  | around, .bin .and a b | around, .bin .or a b => Scoped lets around a ∧ Scoped lets around b
  | around, .not a => Scoped lets around a
  | around, .letIn name value body =>
      lets name = some value ∧ name ∉ around ∧ Scoped lets around value ∧
        Scoped lets (name :: around) body
  | around, .cmp _ a b => a.type = .bool → Scoped lets around a ∧ Scoped lets around b
  | _, _ => True

/-- A name that is neither static nor made by the visits. -/
def Given (k : Nat) (n : Name) : Prop := Old k n ∧ ¬ Static n

/-- The lets of a condition, by name. -/
structure LetsOk (lets : Name → Option Expr) (x : Name) (k : Nat) : Prop where
  defs : ∀ n value, lets n = some value →
    ∃ around, Closed lets around ∧ FreeIn lets around value ∧ Scoped lets around value
  names : ∀ n value, lets n = some value → n ≠ x ∧ Given k n ∧
    ∀ k', value.mentions k' = true → Given k k'

/-- What the visit of a condition takes for granted. -/
structure Placed (lets : Name → Option Expr) (k : Nat) (around : List Name) (e : Expr) : Prop where
  inScope : Scoped lets around e
  free : FreeIn lets around e
  closed : Closed lets around
  names : ∀ n, e.mentions n = true → Given k n

variable {k : Nat} {around : List Name} {a b : Expr}

theorem Placed.left {op : BinOp} (hOp : op = .and ∨ op = .or)
    (h : Placed lets k around (.bin op a b)) : Placed lets k around a := by
  refine ⟨?_, h.free.mono fun n hn => by simp [hn], h.closed, fun n hn => h.names n (by simp [hn])⟩
  rcases hOp with rfl | rfl <;> exact h.inScope.1

theorem Placed.right {op : BinOp} (hOp : op = .and ∨ op = .or)
    (h : Placed lets k around (.bin op a b)) : Placed lets k around b := by
  refine ⟨?_, h.free.mono fun n hn => by simp [hn], h.closed, fun n hn => h.names n (by simp [hn])⟩
  rcases hOp with rfl | rfl <;> exact h.inScope.2

theorem Placed.of_not (h : Placed lets k around (.not a)) : Placed lets k around a :=
  ⟨h.inScope, h.free, h.closed, h.names⟩

theorem Placed.body {name : Name} (hLets : LetsOk lets x k)
    (h : Placed lets k around (.letIn name a b)) : Placed lets k (name :: around) b := by
  obtain ⟨hName, -, -, hBody⟩ := h.inScope
  refine ⟨hBody, h.free.of_letIn_body, h.closed.cons hName h.free.of_letIn_value, fun n hn => ?_⟩
  by_cases hEq : n = name
  · exact hEq ▸ (hLets.names name a hName).2.1
  · exact h.names n (by simp [hn, Ne.symm hEq])

/-- The lets hold in the body of a let, for the value it binds. -/
theorem Placed.letsHold_body {name : Name} {ρ : Env} {v : Int}
    (h : Placed lets k around (.letIn name a b)) (hHold : LetsHold lets ρ (.letIn name a b))
    (hv : exact ρ a = some v) : LetsHold lets (ρ.set name v) b := by
  obtain ⟨hName, hAround, -, -⟩ := h.inScope
  have hSome : lets name ≠ none := by
    rw [hName]
    simp
  refine hHold.of_letIn_body hv (fun w hw => (Option.some.inj (hName.symm.trans hw)).symm) ?_
  intro n w hn hw
  by_contra hMentions
  have hMentions : w.mentions name = true := eq_true_of_ne_false hMentions
  have hClosed := h.closed.cons hName h.free.of_letIn_value
  have hMem := hn.mem_outer hClosed h.free.of_letIn_body (by rw [hw]; simp)
  rcases List.mem_cons.mp hMem with rfl | hMem
  · rw [hName] at hw
    cases hw
    exact hAround (h.free.of_letIn_value _ hMentions hSome)
  · exact hAround (h.closed n hMem w hw name hMentions hSome)

end Lets

section Memory

/-- What is remembered for the let of a truth value is right for its value. -/
def MemoOk (lets : Name → Option Expr) (x : Name) (outer : Bool) (m : Memory) : Prop :=
  ∀ n target i, m.solvedVars.lookup (n, target) = some i → ∀ value, lets n = some value →
    i.Proper ∧ ∀ ρ v, LetsHold lets ρ value → exact ρ value = some v →
      Encloses outer x ρ (decide (v ≠ 0) = target) i

/-- The lets in scope are those of the condition. -/
def ScopeOk (lets : Name → Option Expr) (scope : LetScope) : Prop :=
  ∀ n value, scope.find n = some value → lets n = some value

variable {k : Nat} {scope : LetScope}

theorem context_of_scopeOk (hLets : LetsOk lets x k) (hx : Given k x) (hk : 4 ≤ k)
    (hScope : ScopeOk lets scope) : Context x (Old k) scope where
  var := hx.1
  static s hs := by
    refine ⟨?_, fun hEq => hx.2 (hEq ▸ hs), ?_⟩
    · obtain ⟨j, hj, rfl⟩ := hs
      intro j' hEq
      cases hEq
      omega
    · cases hFind : scope.find s with
      | none => rfl
      | some w => exact absurd hs (hLets.names s w (hScope s w hFind)).2.1.2
  lets n w hw := by
    obtain ⟨-, hGiven, hMentions⟩ := hLets.names n w (hScope n w hw)
    exact ⟨hGiven.1, hMentions⟩

theorem scopeOk_cons {name : Name} {value : Expr} (hScope : ScopeOk lets scope)
    (hName : lets name = some value) : ScopeOk lets ((name, value) :: scope) := by
  intro n w hw
  rcases lookup_cons_cases hw with ⟨rfl, rfl⟩ | ⟨-, hw⟩
  · exact hName
  · exact hScope n w hw

theorem memoOk_insert {m : Memory} {name : Name} {target : Bool} {i : Interval} {value : Expr}
    (h : MemoOk lets x outer m) (hName : lets name = some value) (hProper : i.Proper)
    (hi : ∀ ρ v, LetsHold lets ρ value → exact ρ value = some v →
      Encloses outer x ρ (decide (v ≠ 0) = target) i) :
    MemoOk lets x outer { m with solvedVars := ((name, target), i) :: m.solvedVars } := by
  intro n target' i' hLookup w hw
  rcases lookup_cons_cases hLookup with ⟨hKey, rfl⟩ | ⟨-, hLookup⟩
  · cases hKey
    cases hName.symm.trans hw
    exact ⟨hProper, hi⟩
  · exact h n target' i' hLookup w hw

end Memory

section Visit

/-- What the visit of a condition establishes. -/
structure Found (lets : Name → Option Expr) (x : Name) (outer : Bool) (k : Nat) (target : Bool)
    (e : Expr) (i : Interval) (m' : Memory) : Prop where
  memory : MemoryOk x outer (Old k) m'
  memo : MemoOk lets x outer m'
  proper : i.Proper
  encloses : ∀ ρ v, LetsHold lets ρ e → exact ρ e = some v →
    Encloses outer x ρ (decide (v ≠ 0) = target) i

/-- What the visits of conditions to a depth establish. -/
def FoundSpec (callees : Callees) (lets : Name → Option Expr) (x : Name) (outer : Bool) (k depth : Nat) :
    Prop :=
  ∀ scope target around e m i m', ScopeOk lets scope → Safe lets outer (target, e) →
    Placed lets k around e → MemoryOk x outer (Old k) m → MemoOk lets x outer m →
      visit callees x outer depth scope false target e m = some (i, m') →
        Found lets x outer k target e i m'

variable {k depth : Nat} {scope : LetScope} {target : Bool} {around : List Name} {a b e e' : Expr}
  {m m' : Memory} {i : Interval} {op : CmpOp} {names : StaticNames}

theorem Found.of_rewrite (h : Found lets x outer k target e' i m')
    (hMentions : ∀ n, e'.mentions n = true → e.mentions n = true)
    (hValue : ∀ ρ v, exact ρ e = some v → exact ρ e' = some v) : Found lets x outer k target e i m' :=
  ⟨h.memory, h.memo, h.proper, fun ρ v hLets hv =>
    h.encloses ρ v (hLets.mono hMentions) (hValue ρ v hv)⟩

theorem untouched_of_given (h : ∀ n, e.mentions n = true → Given k n) : Untouched e := by
  intro s hs
  by_contra hMentions
  exact (h s (eq_true_of_ne_false hMentions)).2 hs

/-- A comparison of the condition, through its solution. -/
theorem found_order (hCallees : callees.Sound x) (hLets : LetsOk lets x k) (hx : Given k x)
    (hk : 4 ≤ k) (hScope : ScopeOk lets scope) (hTypeA : noOverflowInt a.type = true)
    (hTypeB : noOverflowInt b.type = true)
    (hNames : ∀ n, (Expr.cmp op a b).mentions n = true → Given k n)
    (hMemory : MemoryOk x outer (Old k) m) (hMemo : MemoOk lets x outer m)
    (h : visitOrder callees x outer depth scope false target op names a b m = some (i, m')) :
    Found lets x outer k target (.cmp op a b) i m' := by
  have hContext := context_of_scopeOk hLets hx hk hScope
  cases depth with
  | zero =>
    rw [visitOrder] at h
    cases h
  | succ depth =>
    rw [visitOrder] at h
    simp only [Bool.not_false, if_true] at h
    have hGrows := hCallees.names m.names scope (.cmp op a b)
    split at h
    case h_1 k' hSolve =>
      rw [hSolve] at hGrows
      cases h
      have hFailed : Visited x outer (Old k) target (.cmp op a b) m (failed outer)
          { m with names := k' } := visited_failed (hMemory.grow hGrows) hGrows rfl
      exact ⟨hFailed.memory, hMemo, hFailed.proper, fun ρ v _ hv => hFailed.encloses ρ v hv⟩
    case h_2 k' e hSolve =>
      rw [hSolve] at hGrows
      have hSolves := hCallees.solves _ _ _ _ _ _ _ hSolve
      have hSep : Separated false op a b :=
        Or.inl ⟨untouched_of_given fun n hn => hNames n (by simp [hn]),
          Or.inr (Or.inl (untouched_of_given fun n hn => hNames n (by simp [hn])))⟩
      have hVisited := (visit_specs hCallees depth).1 _ scope true target e _ i m'
        (hContext.withLets e)
        (ready_of_solves hContext hMemory hSolves hTypeA hTypeB hSep fun n hn => (hNames n hn).1)
        (memoryOk_withLets hMemory hSolves hGrows) h
      refine ⟨hVisited.memory.of_visible fun _ hn => Or.inl hn, ?_, hVisited.proper,
        fun ρ v hHold hv => ?_⟩
      · rw [MemoOk, hVisited.solvedVars]
        exact hMemo
      · exact hVisited.encloses ρ v (hSolves.value ρ (hHold.of_subset hScope) v hv)

/-- Connectives that never hold are the right expansion of an equality on the side
that does not err. -/
theorem encloses_equality {ρ : Env} {v : Int} {P : Prop} (hTarget : target ≠ outer)
    (hZero : v = 0) (h : Encloses outer x ρ (decide (v ≠ 0) = target) i) :
    Encloses outer x ρ P i := by
  obtain ⟨lo, hi, hEvals, hSide⟩ := h
  refine ⟨lo, hi, hEvals, ?_⟩
  subst hZero
  cases outer <;> cases target
  · exact absurd rfl hTarget
  · exact fun hIn => absurd (hSide hIn) (by simp)
  · exact fun _ => hSide (by simp)
  · exact absurd rfl hTarget

theorem exact_expandEquality_bool {ρ : Env} {v : Int} (hType : a.type = .bool)
    (hv : exact ρ (.cmp op a b) = some v) : exact ρ (expandEquality op a b) = some 0 := by
  obtain ⟨va, vb, ha, hb, -⟩ := eval_cmp_eq_some.mp hv
  have hEq : exact ρ (.and (.and a b) (.and (.not a) (.not b))) = some 0 := by
    rw [exact, eval_bin (eval_bin ha hb .and) (eval_bin (eval_not ha) (eval_not hb) .and) .and]
    by_cases h : va = 0 <;> by_cases h' : vb = 0 <;> simp [evalBin, h, h']
  have hNe : exact ρ (.and (.and a (.not b)) (.and (.not a) b)) = some 0 := by
    rw [exact, eval_bin (eval_bin ha (eval_not hb) .and) (eval_bin (eval_not ha) hb .and) .and]
    by_cases h : va = 0 <;> by_cases h' : vb = 0 <;> simp [evalBin, h, h']
  cases op <;> simp only [expandEquality, hType, decide_true]
  case eq => exact hEq
  all_goals exact hNe

/-- The connectives that an equality of truth values expands to are safe to visit. -/
theorem safe_expandEquality (hType : a.type = .bool) (h : Safe lets outer (target, .cmp op a b)) :
    Safe lets outer (target, expandEquality op a b) := by
  have hA (t : Bool) : Safe lets outer (t, a) := h.step (.sideLeft hType target t op)
  have hB (t : Bool) : Safe lets outer (t, b) := h.step (.sideRight hType target t op)
  have hEq : Safe lets outer (target, .and (.and a b) (.and (.not a) (.not b))) :=
    safe_connective (Or.inl rfl) (safe_connective (Or.inl rfl) (hA _) (hB _))
      (safe_connective (Or.inl rfl) (safe_not (hA _)) (safe_not (hB _)))
  have hNe : Safe lets outer (target, .and (.and a (.not b)) (.and (.not a) b)) :=
    safe_connective (Or.inl rfl) (safe_connective (Or.inl rfl) (hA _) (safe_not (hB _)))
      (safe_connective (Or.inl rfl) (safe_not (hA _)) (hB _))
  cases op <;> simp only [expandEquality, hType, decide_true]
  case eq => exact hEq
  all_goals exact hNe

theorem mentions_expandEquality {n : Name} (h : (expandEquality op a b).mentions n = true) :
    (Expr.cmp op a b).mentions n = true := by
  unfold expandEquality at h
  split at h <;> simpa [or_comm, or_left_comm, or_assoc] using h

theorem placed_expandEquality (h : Placed lets k around (.cmp op a b)) :
    Placed lets k around (expandEquality op a b) := by
  refine ⟨?_, h.free.mono fun n => mentions_expandEquality, h.closed,
    fun n hn => h.names n (mentions_expandEquality hn)⟩
  unfold expandEquality
  split
  case h_1 hType =>
    obtain ⟨hA, hB⟩ := h.inScope (of_decide_eq_true hType)
    exact ⟨⟨hA, hB⟩, hA, hB⟩
  case h_3 hType =>
    obtain ⟨hA, hB⟩ := h.inScope (of_decide_eq_true hType)
    exact ⟨⟨hA, hB⟩, hA, hB⟩
  case h_2 hType => exact ⟨fun h => absurd h (of_decide_eq_false hType),
    fun h => absurd h (of_decide_eq_false hType)⟩
  case h_4 hType => exact ⟨fun h => absurd h (of_decide_eq_false hType),
    fun h => absurd h (of_decide_eq_false hType)⟩

theorem found_equality (hOp : op = .eq ∨ op = .ne) (hSpec : FoundSpec callees lets x outer k depth)
    (hScope : ScopeOk lets scope) (hSafe : Safe lets outer (target, .cmp op a b))
    (hPlaced : Placed lets k around (.cmp op a b)) (hMemory : MemoryOk x outer (Old k) m)
    (hMemo : MemoOk lets x outer m)
    (h : visit callees x outer depth scope false target (expandEquality op a b) m = some (i, m')) :
    Found lets x outer k target (.cmp op a b) i m' := by
  have hNode : Comparable outer target op a b := hSafe.node
  have hPlaced' := placed_expandEquality hPlaced
  rw [Comparable] at hNode
  split_ifs at hNode with hType
  · have hFound := hSpec _ _ _ _ _ _ _ hScope (safe_expandEquality hType hSafe) hPlaced' hMemory
      hMemo h
    refine ⟨hFound.memory, hFound.memo, hFound.proper, fun ρ v hHold hv => ?_⟩
    exact encloses_equality hNode.2 rfl (hFound.encloses ρ 0
      (hHold.mono fun n => mentions_expandEquality) (exact_expandEquality_bool hType hv))
  · have hSafe' : Safe lets outer (target, expandEquality op a b) := by
      rcases hOp with rfl | rfl
      · rw [expandEquality_eq hNode.1]
        exact safe_connective (Or.inl rfl) (safe_cmp hNode.1 hNode.2) (safe_cmp hNode.1 hNode.2)
      · rw [expandEquality_ne hNode.1]
        exact safe_connective (Or.inr rfl) (safe_cmp hNode.1 hNode.2) (safe_cmp hNode.1 hNode.2)
    exact (hSpec _ _ _ _ _ _ _ hScope hSafe' hPlaced' hMemory hMemo h).of_rewrite
      (fun n => mentions_expandEquality) fun ρ v hv => exact_expandEquality hOp hNode.1 hv

theorem foundSpec_succ (hCallees : callees.Sound x) (hLets : LetsOk lets x k) (hx : Given k x)
    (hk : 4 ≤ k) (hSpec : FoundSpec callees lets x outer k depth) :
    FoundSpec callees lets x outer k (depth + 1) := by
  intro scope target around e m i m' hScope hSafe hPlaced hMemory hMemo h
  rw [visit.eq_def] at h
  dsimp only at h
  cases e with
  | imm T v =>
    cases h
    have hVisited : Visited x outer (Old k) target (.imm T v) m
        (if decide (v ≠ 0) = target then .everything else .nothing) m := by
      refine visited_const hMemory le_rfl rfl ?_ fun ρ w hw => encloses_imm hw
      split_ifs
      · exact Or.inl rfl
      · exact Or.inr rfl
    exact ⟨hMemory, hMemo, hVisited.proper, fun ρ w _ hw => hVisited.encloses ρ w hw⟩
  | not a =>
    have hFound := hSpec _ _ _ _ _ _ _ hScope (hSafe.step (.not target a)) hPlaced.of_not hMemory
      hMemo h
    refine ⟨hFound.memory, hFound.memo, hFound.proper, fun ρ v hHold hv => ?_⟩
    obtain ⟨va, hva, -⟩ := eval_not_eq_some.mp hv
    exact encloses_not hva hv (hFound.encloses ρ va (hHold.mono fun _ hn => hn) hva)
  | bin op a b =>
    cases op
    case and =>
      obtain ⟨⟨ia, m₁⟩, ha, h⟩ := Option.bind_eq_some_iff.mp h
      obtain ⟨⟨ib, m₂⟩, hb, h⟩ := Option.bind_eq_some_iff.mp h
      cases h
      have hA := hSpec _ _ _ _ _ _ _ hScope (hSafe.step (.left (Or.inl rfl) target a b))
        (hPlaced.left (Or.inl rfl)) hMemory hMemo ha
      have hB := hSpec _ _ _ _ _ _ _ hScope (hSafe.step (.right (Or.inl rfl) target a b))
        (hPlaced.right (Or.inl rfl)) hA.memory hA.memo hb
      refine ⟨hB.memory, hB.memo, ?_, fun ρ v hHold hv => ?_⟩
      · split_ifs
        · exact Interval.proper_makeIntersection hA.proper hB.proper
        · exact proper_intervalUnion hA.proper hB.proper
      · obtain ⟨va, vb, hva, hvb, -⟩ := eval_bin_eq_some.mp hv
        exact encloses_and hCallees hva hvb hv
          (hA.encloses ρ va (hHold.mono fun n hn => by simp [hn]) hva)
          (hB.encloses ρ vb (hHold.mono fun n hn => by simp [hn]) hvb)
    case or =>
      obtain ⟨⟨ia, m₁⟩, ha, h⟩ := Option.bind_eq_some_iff.mp h
      obtain ⟨⟨ib, m₂⟩, hb, h⟩ := Option.bind_eq_some_iff.mp h
      cases h
      have hA := hSpec _ _ _ _ _ _ _ hScope (hSafe.step (.left (Or.inr rfl) target a b))
        (hPlaced.left (Or.inr rfl)) hMemory hMemo ha
      have hB := hSpec _ _ _ _ _ _ _ hScope (hSafe.step (.right (Or.inr rfl) target a b))
        (hPlaced.right (Or.inr rfl)) hA.memory hA.memo hb
      refine ⟨hB.memory, hB.memo, ?_, fun ρ v hHold hv => ?_⟩
      · split_ifs
        · exact proper_intervalUnion hA.proper hB.proper
        · exact Interval.proper_makeIntersection hA.proper hB.proper
      · obtain ⟨va, vb, hva, hvb, -⟩ := eval_bin_eq_some.mp hv
        exact encloses_or hCallees hva hvb hv
          (hA.encloses ρ va (hHold.mono fun n hn => by simp [hn]) hva)
          (hB.encloses ρ vb (hHold.mono fun n hn => by simp [hn]) hvb)
    all_goals exact (hSafe.node).elim
  | letIn name value body =>
    obtain ⟨⟨ib, m₁⟩, hb, h⟩ := Option.bind_eq_some_iff.mp h
    cases h
    have hName : lets name = some value := hPlaced.inScope.1
    have hInner : ScopeOk lets (if (value.mentions x || scope.any fun p => value.mentions p.1) = true
        then (name, value) :: scope else scope) := by
      split_ifs
      · exact scopeOk_cons hScope hName
      · exact hScope
    have hFound := hSpec _ _ _ _ _ _ _ hInner (hSafe.step (.body target name value body))
      (hPlaced.body hLets) hMemory hMemo hb
    refine ⟨hFound.memory, hFound.memo, ?_, fun ρ v hHold hv => ?_⟩
    · rw [wrapLet, Interval.mapFinite_eq_map hFound.proper]
      exact Interval.proper_map hFound.proper
    · obtain ⟨w, hw, hBody⟩ := eval_letIn_eq_some.mp hv
      exact encloses_wrapLet hw (hLets.names name value hName).1.symm hFound.proper
        (hFound.encloses _ v (hPlaced.letsHold_body hHold hw) hBody)
  | var T name =>
    dsimp only at h
    split at h
    case h_1 =>
      cases h
      have hFailed : Visited x outer (Old k) target (.var T name) m (failed outer) m :=
        visited_failed hMemory le_rfl rfl
      exact ⟨hMemory, hMemo, hFailed.proper, fun ρ v _ hv => hFailed.encloses ρ v hv⟩
    case h_2 value hFind =>
      have hName : lets name = some value := hScope name value hFind
      split at h
      case h_1 hLookup =>
        cases h
        obtain ⟨hProper, hEncloses⟩ := hMemo name target _ hLookup value hName
        refine ⟨hMemory, hMemo, hProper, fun ρ v hHold hv => ?_⟩
        cases hv
        obtain ⟨hValue, hHold⟩ := hHold.of_var hName
        exact hEncloses ρ _ hHold hValue
      case h_2 =>
        obtain ⟨⟨ib, m₁⟩, hb, h⟩ := Option.bind_eq_some_iff.mp h
        cases h
        obtain ⟨around', hClosed, hFree, hScoped⟩ := hLets.defs name value hName
        have hFound := hSpec _ _ _ _ _ _ _ hScope (hSafe.step (.value hName target T))
          ⟨hScoped, hFree, hClosed, (hLets.names name value hName).2.2⟩ hMemory hMemo hb
        refine ⟨⟨hFound.memory.old, hFound.memory.cached⟩,
          memoOk_insert hFound.memo hName hFound.proper hFound.encloses, hFound.proper,
          fun ρ v hHold hv => ?_⟩
        cases hv
        obtain ⟨hValue, hHold⟩ := hHold.of_var hName
        exact hFound.encloses ρ _ hHold hValue
  | cmp op a b =>
    have hNode : Comparable outer target op a b := hSafe.node
    cases op
    case eq =>
      exact found_equality (Or.inl rfl) hSpec hScope hSafe hPlaced hMemory hMemo h
    case ne =>
      exact found_equality (Or.inr rfl) hSpec hScope hSafe hPlaced hMemory hMemo h
    all_goals
      have hTypes : noOverflowInt a.type = true ∧ noOverflowInt b.type = true := by
        rw [Comparable] at hNode
        split_ifs at hNode
        · simp at hNode
        · exact hNode
    case le =>
      exact found_order hCallees hLets hx hk hScope hTypes.1 hTypes.2 hPlaced.names hMemory hMemo h
    case ge =>
      exact found_order hCallees hLets hx hk hScope hTypes.1 hTypes.2 hPlaced.names hMemory hMemo h
    case lt =>
      have hSame (n : Name) (hn : (Expr.le a (.sub b (makeOne b.type))).mentions n = true) :
          (Expr.lt a b).mentions n = true := by
        simpa using hn
      exact (hSpec _ _ around (.le a (.sub b (makeOne b.type))) _ _ _ hScope
        (safe_cmp hTypes.1 hTypes.2)
        ⟨fun hType => absurd hType (ne_bool hTypes.1), hPlaced.free.mono hSame, hPlaced.closed,
          fun n hn => hPlaced.names n (hSame n hn)⟩ hMemory hMemo h).of_rewrite hSame
        fun ρ v hv => exact_lt hTypes.2 hv
    case gt =>
      have hSame (n : Name) (hn : (Expr.ge a (.add b (makeOne b.type))).mentions n = true) :
          (Expr.gt a b).mentions n = true := by
        simpa using hn
      exact (hSpec _ _ around (.ge a (.add b (makeOne b.type))) _ _ _ hScope
        (safe_cmp hTypes.1 hTypes.2)
        ⟨fun hType => absurd hType (ne_bool hTypes.1), hPlaced.free.mono hSame, hPlaced.closed,
          fun n hn => hPlaced.names n (hSame n hn)⟩ hMemory hMemo h).of_rewrite hSame
        fun ρ v hv => exact_gt hTypes.2 hv
  | _ => exact (hSafe.node).elim

theorem foundSpec (hCallees : callees.Sound x) (hLets : LetsOk lets x k) (hx : Given k x)
    (hk : 4 ≤ k) (depth : Nat) : FoundSpec callees lets x outer k depth := by
  induction depth with
  | zero =>
    intro _ _ _ _ _ _ _ _ _ _ _ _ h
    rw [visit] at h
    cases h
  | succ depth ih => exact foundSpec_succ hCallees hLets hx hk ih

end Visit

section Unique

/-- The lets that visits of a condition enter. -/
def conditionLets : Expr → List (Name × Expr)
  | .bin .and a b | .bin .or a b => conditionLets a ++ conditionLets b
  | .not a => conditionLets a
  | .letIn name value body => (name, value) :: (conditionLets value ++ conditionLets body)
  | .cmp _ a b => if a.type = .bool then conditionLets a ++ conditionLets b else []
  | _ => []

/-- The value that a name is bound to in a condition. -/
def letsOf (e : Expr) (n : Name) : Option Expr := (conditionLets e).lookup n

/-- No name is bound twice, or is that of another variable. -/
def UniqueLets (x : Name) (e : Expr) : Prop :=
  ((conditionLets e).map Prod.fst).Nodup ∧
    ∀ n ∈ (conditionLets e).map Prod.fst, e.mentions n = false ∧ n ≠ x

variable {e value : Expr} {around : List Name} {n : Name} {k : Nat}

theorem lookup_of_mem {α β : Type} [BEq α] [LawfulBEq α] {l : List (α × β)} {a : α} {b : β}
    (h : (a, b) ∈ l) (hNodup : (l.map Prod.fst).Nodup) : l.lookup a = some b := by
  induction l with
  | nil => cases h
  | cons p l ih =>
    rw [List.map_cons, List.nodup_cons] at hNodup
    rw [List.lookup_cons]
    rcases List.mem_cons.mp h with rfl | h
    · simp
    · have hNe : a ≠ p.1 := by
        rintro rfl
        exact hNodup.1 (List.mem_map.mpr ⟨_, h, rfl⟩)
      rw [beq_false_of_ne hNe]
      exact ih h hNodup.2

theorem mem_of_lookup {α β : Type} [BEq α] [LawfulBEq α] {l : List (α × β)} {a : α} {b : β}
    (h : l.lookup a = some b) : (a, b) ∈ l := by
  induction l with
  | nil => cases h
  | cons p l ih =>
    obtain ⟨a', b'⟩ := p
    rcases lookup_cons_cases h with ⟨rfl, rfl⟩ | ⟨-, h⟩
    · exact List.mem_cons_self
    · exact List.mem_cons_of_mem _ (ih h)

theorem scoped_of_unique (hLets : ∀ p ∈ conditionLets e, lets p.1 = some p.2)
    (hNodup : ((conditionLets e).map Prod.fst).Nodup)
    (hAround : ∀ n ∈ (conditionLets e).map Prod.fst, n ∉ around) : Scoped lets around e := by
  induction e generalizing around with
  | bin op a b iha ihb =>
    cases op
    case and | or =>
      simp only [conditionLets, List.mem_append, List.map_append, List.nodup_append] at *
      exact ⟨iha (fun p hp => hLets p (Or.inl hp)) hNodup.1 fun n hn => hAround n (Or.inl hn),
        ihb (fun p hp => hLets p (Or.inr hp)) hNodup.2.1 fun n hn => hAround n (Or.inr hn)⟩
    all_goals trivial
  | not a ih => exact ih hLets hNodup hAround
  | letIn name value body ihv ihb =>
    simp only [conditionLets, List.mem_cons, List.mem_append, List.map_cons, List.map_append,
      List.nodup_cons, List.nodup_append, not_or] at *
    obtain ⟨⟨hValue, hBody⟩, hNodupV, hNodupB, -⟩ := hNodup
    refine ⟨hLets _ (Or.inl rfl), hAround _ (Or.inl rfl),
      ihv (fun p hp => hLets p (Or.inr (Or.inl hp))) hNodupV
        fun n hn => hAround n (Or.inr (Or.inl hn)),
      ihb (fun p hp => hLets p (Or.inr (Or.inr hp))) hNodupB fun n hn hMem => ?_⟩
    rcases List.mem_cons.mp hMem with rfl | hMem
    · exact hBody hn
    · exact hAround n (Or.inr (Or.inr hn)) hMem
  | cmp op a b iha ihb =>
    intro hType
    simp only [conditionLets, hType, if_true, List.mem_append, List.map_append,
      List.nodup_append] at *
    exact ⟨iha (fun p hp => hLets p (Or.inl hp)) hNodup.1 fun n hn => hAround n (Or.inl hn),
      ihb (fun p hp => hLets p (Or.inr hp)) hNodup.2.1 fun n hn => hAround n (Or.inr hn)⟩
  | _ => trivial

/-- Each let of a condition has a place of its own. -/
theorem defs_of_scoped (hClosed : Closed lets around) (hFree : FreeIn lets around e)
    (hScoped : Scoped lets around e) (h : (n, value) ∈ conditionLets e) :
    ∃ around', Closed lets around' ∧ FreeIn lets around' value ∧ Scoped lets around' value := by
  induction e generalizing around with
  | bin op a b iha ihb =>
    cases op
    case and | or =>
      rcases List.mem_append.mp h with h | h
      · exact iha hClosed (hFree.mono fun n hn => by simp [hn]) hScoped.1 h
      · exact ihb hClosed (hFree.mono fun n hn => by simp [hn]) hScoped.2 h
    all_goals cases h
  | not a ih => exact ih hClosed hFree hScoped h
  | letIn name v body ihv ihb =>
    obtain ⟨hName, -, hValue, hBody⟩ := hScoped
    rcases List.mem_cons.mp h with h | h
    · cases h
      exact ⟨around, hClosed, hFree.of_letIn_value, hValue⟩
    · rcases List.mem_append.mp h with h | h
      · exact ihv hClosed hFree.of_letIn_value hValue h
      · exact ihb (hClosed.cons hName hFree.of_letIn_value) hFree.of_letIn_body hBody h
  | cmp op a b iha ihb =>
    simp only [conditionLets] at h
    split_ifs at h with hType
    · obtain ⟨hA, hB⟩ := hScoped hType
      rcases List.mem_append.mp h with h | h
      · exact iha hClosed (hFree.mono fun n hn => by simp [hn]) hA h
      · exact ihb hClosed (hFree.mono fun n hn => by simp [hn]) hB h
    · cases h
  | _ => cases h

/-- The names of a let are names of the condition. -/
theorem names_of_mem (h : (n, value) ∈ conditionLets e) :
    n ∈ e.binds ∧ ∀ m, value.mentions m = true → e.mentions m = true ∨ m ∈ e.binds := by
  induction e with
  | bin op a b iha ihb =>
    cases op
    case and | or =>
      rcases List.mem_append.mp h with h | h
      · obtain ⟨hn, hm⟩ := iha h
        exact ⟨by simp [hn], fun m hMentions => (hm m hMentions).imp (by simp +contextual)
          (by simp +contextual)⟩
      · obtain ⟨hn, hm⟩ := ihb h
        exact ⟨by simp [hn], fun m hMentions => (hm m hMentions).imp (by simp +contextual)
          (by simp +contextual)⟩
    all_goals cases h
  | not a ih => exact ih h
  | letIn name v body ihv ihb =>
    rcases List.mem_cons.mp h with h | h
    · cases h
      exact ⟨by simp, fun m hMentions => Or.inl (by simp [hMentions])⟩
    · rcases List.mem_append.mp h with h | h
      · obtain ⟨hn, hm⟩ := ihv h
        exact ⟨by simp [hn], fun m hMentions => (hm m hMentions).imp (by simp +contextual)
          (by simp +contextual)⟩
      · obtain ⟨hn, hm⟩ := ihb h
        refine ⟨by simp [hn], fun m hMentions => ?_⟩
        rcases hm m hMentions with hm | hm
        · by_cases hEq : m = name
          · exact Or.inr (by simp [hEq])
          · exact Or.inl (by simp [hm, Ne.symm hEq])
        · exact Or.inr (by simp [hm])
  | cmp op a b iha ihb =>
    simp only [conditionLets] at h
    split_ifs at h with hType
    · rcases List.mem_append.mp h with h | h
      · obtain ⟨hn, hm⟩ := iha h
        exact ⟨by simp [hn], fun m hMentions => (hm m hMentions).imp (by simp +contextual)
          (by simp +contextual)⟩
      · obtain ⟨hn, hm⟩ := ihb h
        exact ⟨by simp [hn], fun m hMentions => (hm m hMentions).imp (by simp +contextual)
          (by simp +contextual)⟩
    · cases h
  | _ => cases h

/-- A condition that is visited from the outside in. -/
theorem placed_of_unique (hUnique : UniqueLets x e)
    (hNames : ∀ n, e.mentions n = true ∨ n ∈ e.binds → Given k n) :
    LetsOk (letsOf e) x k ∧ Placed (letsOf e) k [] e := by
  have hClosed : Closed (letsOf e) [] := fun n hn => by cases hn
  have hFree : FreeIn (letsOf e) [] e := by
    intro n hn hSome
    obtain ⟨w, hw⟩ := Option.ne_none_iff_exists'.mp hSome
    have hMem := List.mem_map_of_mem (f := Prod.fst) (mem_of_lookup hw)
    rw [(hUnique.2 n hMem).1] at hn
    cases hn
  have hScoped : Scoped (letsOf e) [] e :=
    scoped_of_unique (fun p hp => lookup_of_mem hp hUnique.1) hUnique.1 fun n _ hn => by cases hn
  refine ⟨⟨fun n value h => defs_of_scoped hClosed hFree hScoped (mem_of_lookup h),
    fun n value h => ?_⟩, hScoped, hFree, hClosed, fun n hn => hNames n (Or.inl hn)⟩
  have hMem := mem_of_lookup h
  obtain ⟨hBinds, hMentions⟩ := names_of_mem hMem
  exact ⟨(hUnique.2 n (List.mem_map_of_mem (f := Prod.fst) hMem)).2, hNames n (Or.inr hBinds),
    fun m hm => hNames m (hMentions m hm)⟩

end Unique

section Result

variable {c : Expr} {i : Interval} {ρ : Env} {depth k : Nat} {P : Prop}

theorem encloses_simplify (hCallees : callees.Sound x) (h : Encloses outer x ρ P i) :
    Encloses outer x ρ P (i.map callees.simplify) := by
  obtain ⟨lo, hi, ⟨hLo, hHi⟩, hSide⟩ := h
  have hBound (b : Bound) (v : Bound.Extended) (hb : b.eval ρ = some v) :
      (b.map callees.simplify).eval ρ = some v := by
    cases b with
    | expr e =>
      obtain ⟨w, hw, rfl⟩ := Bound.eval_expr_eq_some.mp hb
      exact Bound.eval_expr_eq_some.mpr ⟨w, hCallees.simplify ρ e w hw, rfl⟩
    | negInf | posInf => exact hb
  exact ⟨lo, hi, ⟨hBound _ _ hLo, hBound _ _ hHi⟩, hSide⟩

/-- A range that can be proved empty may be dropped. -/
theorem encloses_nothing_of_gt (hCallees : callees.Sound x) {a b : Expr}
    (h : Encloses outer x ρ P i) (hMin : i.min = .expr a) (hMax : i.max = .expr b)
    (hGt : callees.canProve (.gt a b) = true) : Encloses outer x ρ P .nothing := by
  obtain ⟨lo, hi, ⟨hLo, hHi⟩, hSide⟩ := h
  rw [hMin, Bound.eval_expr_eq_some] at hLo
  rw [hMax, Bound.eval_expr_eq_some] at hHi
  obtain ⟨v, hv, rfl⟩ := hLo
  obtain ⟨w, hw, rfl⟩ := hHi
  have hTrue := hCallees.canProve _ hGt ρ _ (eval_cmp hv hw .gt)
  have hLt : w < v := by
    by_contra hNot
    exact hTrue (if_neg hNot)
  refine ⟨⊤, ⊥, ⟨rfl, rfl⟩, ?_⟩
  cases outer
  · exact fun hIn => absurd hIn.1 (by simp)
  · intro hp
    obtain ⟨h₁, h₂⟩ := hSide hp
    have hle : v ≤ w := by exact_mod_cast h₁.trans h₂
    omega

theorem encloses_solveForInterval (hCallees : callees.Sound x) (hk : 4 ≤ k)
    (hNames : ∀ n, n = x ∨ c.mentions n = true ∨ n ∈ c.binds → Given k n)
    (hUnique : UniqueLets x c) (hSafe : Safe (letsOf c) outer (true, c))
    (h : solveForInterval callees x outer depth k c = some i) {v : Int}
    (hv : exact ρ c = some v) : Encloses outer x ρ (v ≠ 0) i := by
  obtain ⟨hLets, hPlaced⟩ := placed_of_unique hUnique fun n hn => hNames n (Or.inr hn)
  obtain ⟨⟨i', m'⟩, hVisit, hResult⟩ := Option.bind_eq_some_iff.mp h
  have hMemory : MemoryOk x outer (Old k) { names := k } :=
    ⟨fun _ hn => hn, fun target cond i hi => by cases target <;> cases hi⟩
  have hMemo : MemoOk (letsOf c) x outer { names := k } := fun _ _ _ hi => by cases hi
  have hScope : ScopeOk (letsOf c) [] := fun _ _ hn => by cases hn
  have hFound := foundSpec hCallees hLets (hNames x (Or.inl rfl)) hk depth [] true [] c _ i' m'
    hScope hSafe hPlaced hMemory hMemo hVisit
  have hHold : LetsHold (letsOf c) ρ c := letsHold_of_disjoint fun n hn => by
    by_contra hSome
    exact absurd (hPlaced.free n hn hSome) (by simp)
  have hEncloses := encloses_simplify hCallees
    ((hFound.encloses ρ v hHold hv).congr (by simp : decide (v ≠ 0) = true ↔ v ≠ 0))
  dsimp only at hResult
  split at hResult
  case h_1 lo hi hMin hMax =>
    split_ifs at hResult with hGt
    · cases hResult
      exact encloses_nothing_of_gt hCallees hEncloses hMin hMax hGt
    · cases hResult
      exact hEncloses
  case h_2 =>
    cases hResult
    exact hEncloses

end Result

section Folding

/-- Constant folding of operators and comparisons. -/
def foldClosed : Expr → Expr
  | .bin op a b =>
      match foldClosed a, foldClosed b with
      | .imm _ v, .imm _ w =>
          match evalBin (modeAt .exact a.type) a.type op v w with
          | some u => .imm a.type u
          | none => .bin op a b
      | _, _ => .bin op a b
  | .cmp op a b =>
      match foldClosed a, foldClosed b with
      | .imm _ v, .imm _ w => .imm .bool (evalCmp op v w)
      | _, _ => .cmp op a b
  | e => e

theorem exact_foldClosed {ρ : Env} {e : Expr} {v : Int} (h : exact ρ e = some v) :
    exact ρ (foldClosed e) = some v := by
  induction e generalizing v with
  | bin op a b iha ihb =>
    obtain ⟨va, vb, ha, hb, hv⟩ := eval_bin_eq_some.mp h
    have hA := iha ha
    have hB := ihb hb
    rw [foldClosed]
    split
    case h_1 hImmA hImmB =>
      rw [hImmA] at hA
      rw [hImmB] at hB
      cases hA
      cases hB
      rw [hv]
      rfl
    case h_2 => exact h
  | cmp op a b iha ihb =>
    obtain ⟨va, vb, ha, hb, rfl⟩ := eval_cmp_eq_some.mp h
    have hA := iha ha
    have hB := ihb hb
    rw [foldClosed]
    split
    case h_1 hImmA hImmB =>
      rw [hImmA] at hA
      rw [hImmB] at hB
      cases hA
      cases hB
      rfl
    case h_2 => exact h
  | _ => exact h

/-- What folds to a constant has no names. -/
theorem closed_of_fold {e : Expr} {T : IntType} {v : Int} (h : foldClosed e = .imm T v) :
    (∀ n, e.mentions n = false) ∧ e.binds = [] := by
  induction e generalizing T v with
  | imm => exact ⟨fun _ => rfl, rfl⟩
  | bin op a b iha ihb =>
    rw [foldClosed] at h
    split at h
    case h_1 hImmA hImmB =>
      obtain ⟨hA, hA'⟩ := iha hImmA
      obtain ⟨hB, hB'⟩ := ihb hImmB
      exact ⟨fun n => by simp [hA n, hB n], by simp [hA', hB']⟩
    case h_2 => cases h
  | cmp op a b iha ihb =>
    rw [foldClosed] at h
    split at h
    case h_1 hImmA hImmB =>
      obtain ⟨hA, hA'⟩ := iha hImmA
      obtain ⟨hB, hB'⟩ := ihb hImmB
      exact ⟨fun n => by simp [hA n, hB n], by simp [hA', hB']⟩
    case h_2 => cases h
  | _ => cases h

/-- The comparison is of the variable with a constant. -/
def solvedAlready (x : Name) : Expr → Bool
  | .cmp _ (.var _ n) b => n = x && (foldClosed b).asConst.isSome
  | _ => false

/-- Callees that only fold constants. -/
def Callees.folding : Callees where
  solveExpression x k scope e := (k, if scope.isEmpty && solvedAlready x e then some e else none)
  canProve e := (foldClosed e).isOne
  simplify := foldClosed

theorem Callees.folding_sound (x : Name) : Callees.folding.Sound x where
  simplify _ _ _ h := exact_foldClosed h
  canProve e h ρ v hv := by
    have hFold := exact_foldClosed hv
    rw [exact, eval_of_isOne h] at hFold
    cases hFold
    decide
  names _ _ _ := le_rfl
  solves k scope op a b k' e h := by
    simp only [Callees.folding, Prod.mk.injEq, Option.ite_none_right_eq_some, Bool.and_eq_true] at h
    obtain ⟨rfl, ⟨hScope, hSolved⟩, hEq⟩ := h
    cases hEq
    cases List.isEmpty_iff.mp hScope
    cases a with
    | var T n =>
      simp only [solvedAlready, Bool.and_eq_true, decide_eq_true_eq] at hSolved
      obtain ⟨rfl, hConst⟩ := hSolved
      have hClosed : (∀ n, b.mentions n = false) ∧ b.binds = [] := by
        cases hFold : foldClosed b with
        | imm => exact closed_of_fold hFold
        | _ => simp [hFold, asConst] at hConst
      exact {
        value := fun _ _ _ hv => hv
        shape := fun ha hb => ⟨ha, hb, trivial, rfl, hClosed.2⟩
        lets := fun m hm => by simp [hClosed.2] at hm
        mentions := fun m hm => ⟨rfl, Or.inl (by simpa [hClosed.1] using hm)⟩
        types := fun m S hT _ => hT
        left := fun S m hb => by
          subst hb
          exact absurd (hClosed.1 m) (by simp)
        pair := fun S m S' m' ha _ hne => by
          cases ha
          exact absurd rfl hne }
    | _ => cases hSolved

end Folding

end Vyasa.Solve
