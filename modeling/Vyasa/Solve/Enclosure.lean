import Vyasa.Solve.ForInterval
import Vyasa.Solve.Lets

/-! What the visitor relies on in the functions it calls, and ranges that enclose,
or are enclosed by, the values at which a condition holds. -/
namespace Vyasa.Solve

open Word IRMatch Vyasa.Expr

section Callees

/-- The name is mentioned on the left of a comparison. -/
def leftMentions (n : Name) : Expr → Bool
  | .cmp _ a _ => a.mentions n
  | .bin .and a b | .bin .or a b => leftMentions n a || leftMentions n b
  | .not a => leftMentions n a
  | .letIn _ _ body => leftMentions n body
  | _ => false

/-- The type of the second operand, where there is one. -/
def SecondOperand (P : IntType → Prop) : Expr → Prop
  | .bin _ _ b => P b.type
  | _ => True

/-- The conditions that `solve_expression` makes of a comparison: lets that do not
use the variable around connectives of comparisons without lets. -/
def Solved (x : Name) : Expr → Prop
  | .imm _ _ => True
  | .cmp _ a b =>
      noOverflowInt a.type ∧ noOverflowInt b.type ∧ SecondOperand (noOverflowInt ·) a ∧
        a.binds = [] ∧ b.binds = []
  | .bin .and a b | .bin .or a b => Solved x a ∧ Solved x b
  | .not a => Solved x a
  | .letIn _ value body => value.binds = [] ∧ value.mentions x = false ∧ Solved x body
  | _ => False

/-- What `solve_expression` establishes when it solves a comparison. -/
structure Solves (x : Name) (k k' : Nat) (scope : LetScope) (op : CmpOp) (a b e : Expr) :
    Prop where
  value : ∀ ρ, LetsHold scope.find ρ (.cmp op a b) → ∀ v, exact ρ (.cmp op a b) = some v →
    exact ρ e = some v
  shape : noOverflowInt a.type → noOverflowInt b.type → Solved x e
  /-- The lets have names of their own. -/
  lets : ∀ n ∈ e.binds, ∃ j, k ≤ j ∧ j < k' ∧ n = .unique j
  /-- The lets around the comparison are put in. -/
  mentions : ∀ n, e.mentions n = true → scope.find n = none ∧
    (a.mentions n = true ∨ b.mentions n = true ∨
      ∃ m w, scope.find m = some w ∧ w.mentions n = true)
  types : ∀ n T, HasType n T (.cmp op a b) →
    (∀ m w, scope.find m = some w → HasType n T w) → HasType n T e
  /-- A right side that is another variable stays on the right. -/
  left : ∀ T m, b = .var T m → m ≠ x → scope.find m = none → ∀ n, a.mentions n = false →
    (∀ m w, scope.find m = some w → w.mentions n = false) → n ∉ e.binds →
      leftMentions n e = false
  /-- A comparison of two other variables stays as it is. -/
  pair : ∀ T m T' m', a = .var T m → b = .var T' m' → m ≠ x → m' ≠ x →
    scope.find m = none → scope.find m' = none → e = .cmp op a b

/-- What the visitor relies on. -/
structure Callees.Sound (callees : Callees) (x : Name) : Prop where
  simplify : ∀ ρ e v, exact ρ e = some v → exact ρ (callees.simplify e) = some v
  canProve : ∀ e, callees.canProve e = true → ∀ ρ v, exact ρ e = some v → v ≠ 0
  names : ∀ k scope e, k ≤ (callees.solveExpression x k scope e).1
  solves : ∀ k scope op a b k' e,
    callees.solveExpression x k scope (.cmp op a b) = (k', some e) → Solves x k k' scope op a b e

end Callees

section Encloses

variable {callees : Callees} {x : Name} {outer : Bool} {ρ : Env} {P Q : Prop} {i j : Interval}

/-- The range errs on the side that is asked for. -/
def Conservative (outer : Bool) (holds inside : Prop) : Prop :=
  if outer then holds → inside else inside → holds

/-- The range has bounds at these values of the variables, and contains the value of
the variable if, or only if, something holds. -/
def Encloses (outer : Bool) (x : Name) (ρ : Env) (holds : Prop) (i : Interval) : Prop :=
  ∃ lo hi, i.Evals ρ lo hi ∧
    Conservative outer holds
      (lo ≤ ((ρ.vars x : WithTop Int) : Bound.Extended) ∧
        ((ρ.vars x : WithTop Int) : Bound.Extended) ≤ hi)

theorem Encloses.congr (h : Encloses outer x ρ P i) (hIff : P ↔ Q) : Encloses outer x ρ Q i :=
  (propext hIff) ▸ h

theorem encloses_failed : Encloses outer x ρ P (failed outer) := by
  cases outer
  · exact ⟨⊤, ⊥, ⟨rfl, rfl⟩, fun h => absurd h.1 (by simp)⟩
  · exact ⟨⊥, ⊤, ⟨rfl, rfl⟩, fun _ => ⟨bot_le, le_top⟩⟩

theorem encloses_everything (h : P) : Encloses outer x ρ P .everything := by
  refine ⟨⊥, ⊤, ⟨rfl, rfl⟩, ?_⟩
  cases outer
  · exact fun _ => h
  · exact fun _ => ⟨bot_le, le_top⟩

theorem encloses_nothing (h : ¬ P) : Encloses outer x ρ P .nothing := by
  refine ⟨⊤, ⊥, ⟨rfl, rfl⟩, ?_⟩
  cases outer
  · exact fun hInside => absurd hInside.1 (by simp)
  · exact fun hp => absurd hp h

theorem encloses_intersection (h : Encloses outer x ρ P i) (h' : Encloses outer x ρ Q j) :
    Encloses outer x ρ (P ∧ Q) (.makeIntersection i j) := by
  obtain ⟨lo, hi, hEvals, hSide⟩ := h
  obtain ⟨lo', hi', hEvals', hSide'⟩ := h'
  refine ⟨_, _, Interval.evals_makeIntersection hEvals hEvals', ?_⟩
  rw [max_le_iff, le_min_iff]
  cases outer
  · exact fun hIn => ⟨hSide ⟨hIn.1.1, hIn.2.1⟩, hSide' ⟨hIn.1.2, hIn.2.2⟩⟩
  · intro hp
    have h₁ := hSide hp.1
    have h₂ := hSide' hp.2
    exact ⟨⟨h₁.1, h₂.1⟩, h₁.2, h₂.2⟩

/-- A range that spans two others that meet contains no further values. -/
theorem mem_of_mem_union {lo hi lo' hi' z : Bound.Extended} (hMeet : Max.max lo lo' ≤ Min.min hi hi')
    (hz : Min.min lo lo' ≤ z ∧ z ≤ Max.max hi hi') : (lo ≤ z ∧ z ≤ hi) ∨ (lo' ≤ z ∧ z ≤ hi') := by
  rw [max_le_iff, le_min_iff, le_min_iff] at hMeet
  rw [min_le_iff, le_max_iff] at hz
  obtain ⟨⟨-, hLow⟩, hHigh, -⟩ := hMeet
  rcases le_or_gt z hi with h | h
  · rcases le_total lo z with h' | h'
    · exact Or.inl ⟨h', h⟩
    · rcases hz.1 with hz | hz
      · exact Or.inl ⟨hz, h⟩
      · exact Or.inr ⟨hz, h'.trans hLow⟩
  · exact Or.inr ⟨hHigh.trans h.le, hz.2.resolve_left h.not_ge⟩

/-- The side of an interval that is missing from a range that is not empty. -/
theorem not_isBounded_cases (hEmpty : i.isEmpty = false) (h : i.isBounded = false) :
    i.min = .negInf ∨ i.max = .posInf := by
  simp only [Interval.isBounded, Interval.hasUpperBound, Interval.hasLowerBound, hEmpty] at h
  by_contra hNot
  rw [not_or] at hNot
  simp [hNot.1, hNot.2] at h

theorem le_of_canProve (hCallees : callees.Sound x) {a b : Expr} {lo hi : Bound.Extended}
    (hEvals : i.Evals ρ lo hi) (hMin : i.min = .expr a) (hMax : i.max = .expr b)
    (h : callees.canProve (.le a b) = true) : lo ≤ hi := by
  obtain ⟨hLo, hHi⟩ := hEvals
  rw [hMin, Bound.eval_expr_eq_some] at hLo
  rw [hMax, Bound.eval_expr_eq_some] at hHi
  obtain ⟨v, hv, rfl⟩ := hLo
  obtain ⟨w, hw, rfl⟩ := hHi
  have hTrue := hCallees.canProve _ h ρ _ (eval_cmp hv hw .le)
  have hLe : v ≤ w := by
    by_contra hNot
    exact hTrue (if_neg hNot)
  exact_mod_cast hLe

/-- The two ranges that `interval_union` joins leave no gap. -/
theorem mem_of_overlap (hCallees : callees.Sound x) {lo hi lo' hi' z : Bound.Extended}
    (hEvals : i.Evals ρ lo hi) (hEvals' : j.Evals ρ lo' hi')
    (h : let intersection := Interval.makeIntersection i j
      (!intersection.isEmpty && (!intersection.isBounded ||
        match intersection.min, intersection.max with
        | .expr lo, .expr hi => callees.canProve (.le lo hi)
        | _, _ => true)) = true)
    (hz : Min.min lo lo' ≤ z ∧ z ≤ Max.max hi hi') : (lo ≤ z ∧ z ≤ hi) ∨ (lo' ≤ z ∧ z ≤ hi') := by
  simp only [Bool.and_eq_true, Bool.not_eq_true', Bool.or_eq_true] at h
  obtain ⟨hEmpty, hSide⟩ := h
  have hMeet := Interval.evals_makeIntersection hEvals hEvals'
  by_cases hBounded : (Interval.makeIntersection i j).isBounded = true
  · refine mem_of_mem_union ?_ hz
    have hProved := hSide.resolve_left (by simp [hBounded])
    split at hProved
    case h_1 a b hMin hMax => exact le_of_canProve hCallees hMeet hMin hMax hProved
    case h_2 hOther =>
      exfalso
      revert hOther hBounded hEmpty
      generalize Interval.makeIntersection i j = k
      obtain ⟨lower, upper⟩ := k
      cases lower <;> cases upper <;>
        simp [Interval.isBounded, Interval.hasLowerBound, Interval.hasUpperBound, Interval.isEmpty]
  · have hMissing := not_isBounded_cases hEmpty (Bool.not_eq_true _ ▸ hBounded)
    rcases hMissing with hMin | hMax
    · obtain ⟨h₁, h₂⟩ := Bound.makeMax_eq_negInf.mp hMin
      have hLo : lo = ⊥ := hEvals.lo_eq_bot h₁
      have hLo' : lo' = ⊥ := hEvals'.lo_eq_bot h₂
      subst hLo hLo'
      exact (le_max_iff.mp hz.2).imp (fun h => ⟨bot_le, h⟩) fun h => ⟨bot_le, h⟩
    · obtain ⟨h₁, h₂⟩ := Bound.makeMin_eq_posInf.mp hMax
      have hHi : hi = ⊤ := hEvals.hi_eq_top h₁
      have hHi' : hi' = ⊤ := hEvals'.hi_eq_top h₂
      subst hHi hHi'
      exact (min_le_iff.mp hz.1).imp (fun h => ⟨h, le_top⟩) fun h => ⟨h, le_top⟩

theorem encloses_intervalUnion (hCallees : callees.Sound x) (h : Encloses outer x ρ P i)
    (h' : Encloses outer x ρ Q j) :
    Encloses outer x ρ (P ∨ Q) (intervalUnion callees outer i j) := by
  cases outer with
  | true =>
    obtain ⟨lo, hi, hEvals, hSide⟩ := h
    obtain ⟨lo', hi', hEvals', hSide'⟩ := h'
    refine ⟨_, _, Interval.evals_makeUnion hEvals hEvals', ?_⟩
    intro hp
    rw [min_le_iff, le_max_iff]
    rcases hp with hp | hq
    · exact ⟨Or.inl (hSide hp).1, Or.inl (hSide hp).2⟩
    · exact ⟨Or.inr (hSide' hq).1, Or.inr (hSide' hq).2⟩
  | false =>
    simp only [intervalUnion, Bool.false_eq_true, if_false]
    split_ifs with hOverlap hEmpty
    · obtain ⟨lo, hi, hEvals, hSide⟩ := h
      obtain ⟨lo', hi', hEvals', hSide'⟩ := h'
      refine ⟨_, _, Interval.evals_makeUnion hEvals hEvals', fun hIn => ?_⟩
      exact (mem_of_overlap hCallees hEvals hEvals' hOverlap hIn).imp hSide hSide'
    · obtain ⟨lo', hi', hEvals', hSide'⟩ := h'
      exact ⟨lo', hi', hEvals', fun hIn => Or.inr (hSide' hIn)⟩
    · obtain ⟨lo, hi, hEvals, hSide⟩ := h
      exact ⟨lo, hi, hEvals, fun hIn => Or.inl (hSide hIn)⟩

/-- A range is carried over where its bounds have the same values. -/
theorem Encloses.map {ρ' : Env} {f : Expr → Expr} (h : Encloses outer x ρ' P i)
    (hVar : ρ'.vars x = ρ.vars x) (hf : i.Satisfies fun e => exact ρ (f e) = exact ρ' e) :
    Encloses outer x ρ P (i.map f) := by
  obtain ⟨lo, hi, hEvals, hSide⟩ := h
  rw [hVar] at hSide
  exact ⟨lo, hi, Interval.evals_map hEvals hf, hSide⟩

theorem encloses_wrapLet {name : Name} {value : Expr} {v : Int} (hValue : exact ρ value = some v)
    (hName : x ≠ name) (hProper : i.Proper) (h : Encloses outer x (ρ.set name v) P i) :
    Encloses outer x ρ P (wrapLet name value i) := by
  rw [wrapLet, Interval.mapFinite_eq_map hProper]
  refine h.map (Env.set_vars_of_ne hName) (Interval.satisfies_of_forall (fun e => ?_) i)
  split_ifs with hMentions
  · exact eval_letIn hValue
  · exact (eval_set (Bool.not_eq_true _ ▸ hMentions) v).symm

theorem encloses_instantiate {names : StaticNames} {b c : Expr} {vb vc : Int}
    (hb : exact ρ b = some vb) (hc : exact ρ c = some vc) (hbFree : b.mentions names.c = false)
    (hxb : x ≠ names.b) (hxc : x ≠ names.c) (hProper : i.Proper)
    (hBinds : i.Satisfies fun e => ∀ n ∈ e.binds, b.mentions n = false ∧ c.mentions n = false)
    (hLets : b.binds = [])
    (hTypeB : i.Satisfies (HasType names.b b.type)) (hTypeC : i.Satisfies (HasType names.c c.type))
    (h : Encloses outer x ((ρ.set names.c vc).set names.b vb) P i) :
    Encloses outer x ρ P (instantiate names b c i) := by
  rw [instantiate, Interval.mapFinite_eq_map hProper]
  refine h.map ?_ ?_
  · rw [Env.set_vars_of_ne hxb, Env.set_vars_of_ne hxc]
  · have hAll (e : Expr) (hB : ∀ n ∈ e.binds, b.mentions n = false ∧ c.mentions n = false)
        (hT : HasType names.b b.type e) (hT' : HasType names.c c.type e) :
        exact ρ (substitute names.c c (substitute names.b b e)) =
          exact ((ρ.set names.c vc).set names.b vb) e := by
      have hTypeInner : HasType names.c c.type (substitute names.b b e) :=
        hasType_substitute (hasType_of_not_mentions hbFree _) (Or.inr hT')
      rw [exact, eval_substitute_of_hasType hc hTypeInner
        fun n hn => (hB n (binds_substitute hLets hn)).2]
      exact eval_substitute_of_hasType ((eval_set hbFree vc).trans hb) hT fun n hn => (hB n hn).1
    obtain ⟨⟨⟩ | ⟨⟩ | e, ⟨⟩ | ⟨⟩ | e'⟩ := i <;>
      exact ⟨by first | trivial | exact hAll _ hBinds.1 hTypeB.1 hTypeC.1,
        by first | trivial | exact hAll _ hBinds.2 hTypeB.2 hTypeC.2⟩

end Encloses

section Arithmetic

variable {ρ : Env} {T : IntType} {b : Expr} {v : Int} {x : Name}

theorem exact_sub_one (hb : exact ρ b = some v) (hType : noOverflowInt b.type = true) :
    exact ρ (.sub b (makeOne b.type)) = some (v - 1) := by
  rw [exact, eval_bin hb (rfl : eval .exact ρ (makeOne b.type) = some (b.type.wrap 1)) .sub,
    modeAt, if_pos hType, IntType.wrap_of_has b.type.has_one]
  rfl

theorem exact_add_one (hb : exact ρ b = some v) (hType : noOverflowInt b.type = true) :
    exact ρ (.add b (makeOne b.type)) = some (v + 1) := by
  rw [exact, eval_bin hb (rfl : eval .exact ρ (makeOne b.type) = some (b.type.wrap 1)) .add,
    modeAt, if_pos hType, IntType.wrap_of_has b.type.has_one]
  rfl

theorem encloses_le {outer : Bool} {P : Prop} (h : P ↔ ρ.vars x ≤ v) (hb : exact ρ b = some v) :
    Encloses outer x ρ P ⟨.negInf, .expr b⟩ := by
  refine ⟨⊥, _, ⟨rfl, Bound.eval_expr_eq_some.mpr ⟨v, hb, rfl⟩⟩, ?_⟩
  have hIff : P ↔ (⊥ : Bound.Extended) ≤ ((ρ.vars x : WithTop Int) : Bound.Extended) ∧
      ((ρ.vars x : WithTop Int) : Bound.Extended) ≤ ((v : WithTop Int) : Bound.Extended) := by
    rw [h]
    exact ⟨fun hle => ⟨bot_le, by exact_mod_cast hle⟩, fun hle => by exact_mod_cast hle.2⟩
  cases outer
  · exact hIff.mpr
  · exact hIff.mp

theorem encloses_ge {outer : Bool} {P : Prop} (h : P ↔ v ≤ ρ.vars x) (hb : exact ρ b = some v) :
    Encloses outer x ρ P ⟨.expr b, .posInf⟩ := by
  refine ⟨_, ⊤, ⟨Bound.eval_expr_eq_some.mpr ⟨v, hb, rfl⟩, rfl⟩, ?_⟩
  have hIff : P ↔ ((v : WithTop Int) : Bound.Extended) ≤ ((ρ.vars x : WithTop Int) : Bound.Extended) ∧
      ((ρ.vars x : WithTop Int) : Bound.Extended) ≤ ⊤ := by
    rw [h]
    exact ⟨fun hle => ⟨by exact_mod_cast hle, le_top⟩, fun hle => by exact_mod_cast hle.1⟩
  cases outer
  · exact hIff.mpr
  · exact hIff.mp

theorem encloses_solvedRange {outer target : Bool} {op : CmpOp} (hOp : op = .le ∨ op = .ge)
    (hb : exact ρ b = some v) (hType : noOverflowInt b.type = true) :
    Encloses outer x ρ (decide (evalCmp op (ρ.vars x) v ≠ 0) = target)
      (solvedRange op target b) := by
  rcases hOp with rfl | rfl
  · cases target
    · exact encloses_ge (by simp [evalCmp]) (exact_add_one hb hType)
    · exact encloses_le (by simp [evalCmp]) hb
  · cases target
    · exact encloses_le (by simp [evalCmp]) (exact_sub_one hb hType)
    · exact encloses_ge (by simp [evalCmp]) hb

end Arithmetic

end Vyasa.Solve
