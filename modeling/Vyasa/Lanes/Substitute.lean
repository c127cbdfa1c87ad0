import Vyasa.Lanes.Eval

/-! The substitution of all lets, which keeps every lane of a well formed expression. -/
namespace Vyasa.Lanes

open Word IRMatch

mutual

/-- `graph_substitute` -/
def graph_substitute (name : Name) (value : Expr) : Expr → Expr
  | .imm T v => .imm T v
  | .stringImm s => .stringImm s
  | .var T n other => if other = name then value else .var T n other
  | .cast T a => .cast T (graph_substitute name value a)
  | .bin op a b => .bin op (graph_substitute name value a) (graph_substitute name value b)
  | .cmp op a b => .cmp op (graph_substitute name value a) (graph_substitute name value b)
  | .not a => .not (graph_substitute name value a)
  | .select c t f => .select (graph_substitute name value c) (graph_substitute name value t)
      (graph_substitute name value f)
  | .load T n buffer index predicate => .load T n buffer (graph_substitute name value index)
      (graph_substitute name value predicate)
  | .ramp base stride n => .ramp (graph_substitute name value base)
      (graph_substitute name value stride) n
  | .broadcast a n => .broadcast (graph_substitute name value a) n
  | .call T n callee args => .call T n callee (graph_substituteAll name value args)
  | .letIn other a body =>
      if other = name then .letIn other (graph_substitute name value a) body
      else .letIn other (graph_substitute name value a) (graph_substitute name value body)
  | .shuffle T vectors indices => .shuffle T (graph_substituteAll name value vectors) indices

def graph_substituteAll (name : Name) (value : Expr) : List Expr → List Expr
  | [] => []
  | a :: rest => graph_substitute name value a :: graph_substituteAll name value rest

end

mutual

/-- `substitute_in_all_lets` -/
def substitute_in_all_lets : Expr → Expr
  | .imm T v => .imm T v
  | .stringImm s => .stringImm s
  | .var T n name => .var T n name
  | .cast T a => .cast T (substitute_in_all_lets a)
  | .bin op a b => .bin op (substitute_in_all_lets a) (substitute_in_all_lets b)
  | .cmp op a b => .cmp op (substitute_in_all_lets a) (substitute_in_all_lets b)
  | .not a => .not (substitute_in_all_lets a)
  | .select c t f => .select (substitute_in_all_lets c) (substitute_in_all_lets t) (substitute_in_all_lets f)
  | .load T n name index predicate =>
      .load T n name (substitute_in_all_lets index) (substitute_in_all_lets predicate)
  | .ramp base stride n => .ramp (substitute_in_all_lets base) (substitute_in_all_lets stride) n
  | .broadcast a n => .broadcast (substitute_in_all_lets a) n
  | .call T n callee args => .call T n callee (substitute_in_all_letsAll args)
  | .letIn name value body =>
      graph_substitute name (substitute_in_all_lets value) (substitute_in_all_lets body)
  | .shuffle T vectors indices => .shuffle T (substitute_in_all_letsAll vectors) indices

def substitute_in_all_letsAll : List Expr → List Expr
  | [] => []
  | a :: rest => (substitute_in_all_lets a) :: substitute_in_all_letsAll rest

end

namespace Expr

mutual

def LetFree : Expr → Prop
  | imm _ _ | stringImm _ | var _ _ _ => True
  | cast _ a | not a | broadcast a _ => a.LetFree
  | bin _ a b | cmp _ a b | ramp a b _ | load _ _ _ a b => a.LetFree ∧ b.LetFree
  | select c t f => c.LetFree ∧ t.LetFree ∧ f.LetFree
  | call _ _ _ args => LetFreeAll args
  | letIn _ _ _ => False
  | shuffle _ vectors _ => LetFreeAll vectors

def LetFreeAll : List Expr → Prop
  | [] => True
  | a :: rest => a.LetFree ∧ LetFreeAll rest

end

end Expr

theorem below_eq_none {n i : Nat} {x : Option Int} (h : n ≤ i) : below n i x = none :=
  if_neg (Nat.not_lt.mpr h)

/-- What is above the lane count has no value. -/
theorem lane_eq_none {mode : IntType → Mode} : ∀ (e : Expr) {ρ : Env} {i : Nat}, e.lanes ≤ i →
    lane mode ρ e i = none
  | .imm _ _, _, _, h => by
    rw [lane]
    exact below_eq_none h
  | .stringImm _, _, _, h => by
    rw [lane]
    exact below_eq_none h
  | .var _ _ _, _, _, h => by
    rw [lane]
    exact below_eq_none h
  | .load _ _ _ _ _, _, _, h => by
    rw [lane]
    exact below_eq_none h
  | .ramp _ _ _, _, _, h => by
    rw [lane]
    exact below_eq_none h
  | .broadcast _ _, _, _, h => by
    rw [lane]
    exact below_eq_none h
  | .call _ _ _ _, _, _, h => by
    rw [lane]
    exact below_eq_none h
  | .cast _ a, _, _, h => by
    rw [lane, lane_eq_none a h]
    rfl
  | .bin _ a _, _, _, h => by
    rw [lane, lane_eq_none a h]
    rfl
  | .cmp _ a _, _, _, h => by
    rw [lane, lane_eq_none a h]
    rfl
  | .not a, _, _, h => by
    rw [lane, lane_eq_none a h]
    rfl
  | .select c a b, ρ, i, h => by
    rw [lane, lane_eq_none a h]
    cases lane mode ρ c (c.laneOf i) <;> rfl
  | .letIn _ _ body, _, _, h => by rw [lane, lane_eq_none body h]
  | .shuffle _ _ indices, _, _, h => by
    rw [lane, List.getElem?_eq_none h]
    rfl

section Substitution

variable {Γ : Context} {name : Name} {value : Expr}

/-- The context where a name stands for an expression. -/
abbrev Context.bind (Γ : Context) (name : Name) (value : Expr) : Context :=
  Function.update Γ name (some (value.type, value.lanes))

theorem graph_substitute_shape : ∀ (e : Expr), WellFormed (Γ.bind name value) e → e.LetFree →
    (graph_substitute name value e).type = e.type ∧ (graph_substitute name value e).lanes = e.lanes
  | .imm _ _, _, _ => ⟨rfl, rfl⟩
  | .stringImm _, _, _ => ⟨rfl, rfl⟩
  | .var T n other, he, _ => by
    by_cases h : other = name
    · subst h
      have hShape := he.2 _ (by rw [Context.bind, Function.update_self]; rfl)
      rw [Prod.mk.injEq] at hShape
      rw [graph_substitute, if_pos rfl]
      exact hShape
    · rw [graph_substitute, if_neg h]
      exact ⟨rfl, rfl⟩
  | .cast _ a, he, hFree => ⟨rfl, (graph_substitute_shape a he hFree).2⟩
  | .bin _ a b, he, hFree => graph_substitute_shape a he.1 hFree.1
  | .cmp _ a b, he, hFree => ⟨rfl, (graph_substitute_shape a he.1 hFree.1).2⟩
  | .not a, he, hFree => ⟨rfl, (graph_substitute_shape a he.1 hFree).2⟩
  | .select _ t _, he, hFree => graph_substitute_shape t he.2.1 hFree.2.1
  | .load _ _ _ _ _, _, _ => ⟨rfl, rfl⟩
  | .ramp a _ _, he, hFree => ⟨(graph_substitute_shape a he.1 hFree.1).1, rfl⟩
  | .broadcast a _, he, hFree => ⟨(graph_substitute_shape a he.1 hFree).1, rfl⟩
  | .call _ _ _ _, _, _ => ⟨rfl, rfl⟩
  | .shuffle _ _ _, _, _ => ⟨rfl, rfl⟩

theorem graph_substituteAll_eq_map : ∀ args : List Expr,
    graph_substituteAll name value args = args.map (graph_substitute name value)
  | [] => rfl
  | a :: args => by rw [graph_substituteAll, graph_substituteAll_eq_map args, List.map_cons]

theorem wellFormedAll_iff : ∀ {args : List Expr}, WellFormedAll Γ args ↔ ∀ a ∈ args, WellFormed Γ a
  | [] => by simp only [WellFormedAll, List.not_mem_nil, false_implies, implies_true]
  | a :: args => by rw [WellFormedAll, wellFormedAll_iff, List.forall_mem_cons]

theorem letFreeAll_iff : ∀ {args : List Expr}, Expr.LetFreeAll args ↔ ∀ a ∈ args, a.LetFree
  | [] => by simp only [Expr.LetFreeAll, List.not_mem_nil, false_implies, implies_true]
  | a :: args => by rw [Expr.LetFreeAll, letFreeAll_iff, List.forall_mem_cons]

theorem inputLanes_map {f : Expr → Expr} {vectors : List Expr}
    (h : ∀ a ∈ vectors, (f a).lanes = a.lanes) : inputLanes (vectors.map f) = inputLanes vectors := by
  rw [inputLanes, List.map_map]
  exact congrArg List.sum (List.map_congr_left h)

/-- The conditions on the operands of a call or a shuffle are about their types and lane counts. -/
theorem wellFormed_call_map {Γ' : Context} {f : Expr → Expr} {T : IntType} {n : Nat} {callee : Callee}
    {args : List Expr} (he : WellFormed Γ' (.call T n callee args))
    (hf : ∀ a ∈ args, WellFormed Γ (f a))
    (hShape : ∀ a ∈ args, (f a).type = a.type ∧ (f a).lanes = a.lanes) :
    WellFormed Γ (.call T n callee (args.map f)) := by
  obtain ⟨-, hLanes, hn, hPasses, hRequire⟩ := he
  refine ⟨wellFormedAll_iff.mpr (List.forall_mem_map.mpr hf), List.forall_mem_map.mpr fun a ha => ?_, hn,
    fun h => ?_, fun h => ?_⟩
  · rw [(hShape a ha).2]
    exact hLanes a ha
  · rw [List.getLast?_map]
    intro b hb
    obtain ⟨a, ha, rfl⟩ := Option.map_eq_some_iff.mp hb
    rw [(hShape a (List.mem_of_getLast? ha)).1]
    exact hPasses h a ha
  · rw [List.getElem?_map]
    intro b hb
    obtain ⟨a, ha, rfl⟩ := Option.map_eq_some_iff.mp hb
    rw [(hShape a (List.mem_of_getElem? ha)).1]
    exact hRequire h a ha

theorem wellFormed_shuffle_map {Γ' : Context} {f : Expr → Expr} {T : IntType} {vectors : List Expr}
    {indices : List Nat} (he : WellFormed Γ' (.shuffle T vectors indices))
    (hf : ∀ a ∈ vectors, WellFormed Γ (f a))
    (hShape : ∀ a ∈ vectors, (f a).type = a.type ∧ (f a).lanes = a.lanes) :
    WellFormed Γ (.shuffle T (vectors.map f) indices) := by
  obtain ⟨-, hType, hIndices, hBound⟩ := he
  refine ⟨wellFormedAll_iff.mpr (List.forall_mem_map.mpr hf), List.forall_mem_map.mpr fun a ha => ?_,
    hIndices, ?_⟩
  · rw [(hShape a ha).1]
    exact hType a ha
  · rw [inputLanes_map fun a ha => (hShape a ha).2]
    exact hBound

mutual

theorem wellFormed_graph_substitute (hValue : WellFormed Γ value) : ∀ (e : Expr),
    WellFormed (Γ.bind name value) e → e.LetFree → WellFormed Γ (graph_substitute name value e)
  | .imm _ _, he, _ => he
  | .stringImm _, _, _ => trivial
  | .var T n other, he, _ => by
    rw [graph_substitute]
    split_ifs with h
    · exact hValue
    · refine ⟨he.1, fun s hs => he.2 s ?_⟩
      rwa [Context.bind, Function.update_of_ne h]
  | .cast _ a, he, hFree => wellFormed_graph_substitute hValue a he hFree
  | .bin op a b, he, hFree => by
    obtain ⟨ha, hb, hType, hLanes, hBool⟩ := he
    obtain ⟨hTypeA, hLanesA⟩ := graph_substitute_shape a ha hFree.1
    obtain ⟨hTypeB, hLanesB⟩ := graph_substitute_shape b hb hFree.2
    refine ⟨wellFormed_graph_substitute hValue a ha hFree.1,
      wellFormed_graph_substitute hValue b hb hFree.2, ?_, ?_, ?_⟩
    · rw [hTypeA, hTypeB, hType]
    · rw [hLanesA, hLanesB, hLanes]
    · rwa [hTypeA]
  | .cmp op a b, he, hFree => by
    obtain ⟨ha, hb, hType, hLanes⟩ := he
    obtain ⟨hTypeA, hLanesA⟩ := graph_substitute_shape a ha hFree.1
    obtain ⟨hTypeB, hLanesB⟩ := graph_substitute_shape b hb hFree.2
    refine ⟨wellFormed_graph_substitute hValue a ha hFree.1,
      wellFormed_graph_substitute hValue b hb hFree.2, ?_, ?_⟩
    · rw [hTypeA, hTypeB, hType]
    · rw [hLanesA, hLanesB, hLanes]
  | .not a, he, hFree => by
    refine ⟨wellFormed_graph_substitute hValue a he.1 hFree, ?_⟩
    rw [(graph_substitute_shape a he.1 hFree).1]
    exact he.2
  | .select c t f, he, hFree => by
    obtain ⟨hc, ht, hf, hBool, hType, hLanes, hCond⟩ := he
    obtain ⟨hTypeC, hLanesC⟩ := graph_substitute_shape c hc hFree.1
    obtain ⟨hTypeT, hLanesT⟩ := graph_substitute_shape t ht hFree.2.1
    obtain ⟨hTypeF, hLanesF⟩ := graph_substitute_shape f hf hFree.2.2
    refine ⟨wellFormed_graph_substitute hValue c hc hFree.1,
      wellFormed_graph_substitute hValue t ht hFree.2.1,
      wellFormed_graph_substitute hValue f hf hFree.2.2, ?_, ?_, ?_, ?_⟩
    · rw [hTypeC, hBool]
    · rw [hTypeT, hTypeF, hType]
    · rw [hLanesT, hLanesF, hLanes]
    · rwa [hLanesC, hLanesT]
  | .load _ _ _ a b, he, hFree => by
    obtain ⟨ha, hb, hLanesA, hLanesB⟩ := he
    refine ⟨wellFormed_graph_substitute hValue a ha hFree.1,
      wellFormed_graph_substitute hValue b hb hFree.2, ?_, ?_⟩
    · rw [(graph_substitute_shape a ha hFree.1).2, hLanesA]
    · rw [(graph_substitute_shape b hb hFree.2).2, hLanesB]
  | .ramp a b _, he, hFree => by
    obtain ⟨ha, hb, hLanesA, hLanesB, hn, hType⟩ := he
    obtain ⟨hTypeA, hShapeA⟩ := graph_substitute_shape a ha hFree.1
    obtain ⟨hTypeB, hShapeB⟩ := graph_substitute_shape b hb hFree.2
    refine ⟨wellFormed_graph_substitute hValue a ha hFree.1,
      wellFormed_graph_substitute hValue b hb hFree.2, ?_, ?_, hn, ?_⟩
    · rw [hShapeA, hLanesA]
    · rw [hShapeB, hLanesB]
    · rw [hTypeA, hTypeB, hType]
  | .broadcast a _, he, hFree => by
    refine ⟨wellFormed_graph_substitute hValue a he.1 hFree, ?_, he.2.2⟩
    rw [(graph_substitute_shape a he.1 hFree).2, he.2.1]
  | .call T n callee args, he, hFree => by
    rw [graph_substitute, graph_substituteAll_eq_map]
    exact wellFormed_call_map he (wellFormedAll_graph_substitute hValue args he.1 hFree)
      fun a ha => graph_substitute_shape a (wellFormedAll_iff.mp he.1 a ha) (letFreeAll_iff.mp hFree a ha)
  | .shuffle T vectors indices, he, hFree => by
    rw [graph_substitute, graph_substituteAll_eq_map]
    exact wellFormed_shuffle_map he (wellFormedAll_graph_substitute hValue vectors he.1 hFree)
      fun a ha => graph_substitute_shape a (wellFormedAll_iff.mp he.1 a ha) (letFreeAll_iff.mp hFree a ha)

theorem wellFormedAll_graph_substitute (hValue : WellFormed Γ value) : ∀ (args : List Expr),
    WellFormedAll (Γ.bind name value) args → Expr.LetFreeAll args →
    ∀ a ∈ args, WellFormed Γ (graph_substitute name value a)
  | [], _, _ => by
    intro a ha
    cases ha
  | a :: args, he, hFree => List.forall_mem_cons.mpr
      ⟨wellFormed_graph_substitute hValue a he.1 hFree.1,
        wellFormedAll_graph_substitute hValue args he.2 hFree.2⟩

end

mutual

theorem letFree_graph_substitute (hValue : value.LetFree) : ∀ (e : Expr), e.LetFree →
    (graph_substitute name value e).LetFree
  | .imm _ _, _ => trivial
  | .stringImm _, _ => trivial
  | .var T n other, _ => by
    rw [graph_substitute]
    split_ifs
    · exact hValue
    · trivial
  | .cast _ a, h | .not a, h | .broadcast a _, h => letFree_graph_substitute hValue a h
  | .bin _ a b, h | .cmp _ a b, h | .ramp a b _, h | .load _ _ _ a b, h =>
    ⟨letFree_graph_substitute hValue a h.1, letFree_graph_substitute hValue b h.2⟩
  | .select c t f, h => ⟨letFree_graph_substitute hValue c h.1, letFree_graph_substitute hValue t h.2.1,
      letFree_graph_substitute hValue f h.2.2⟩
  | .call _ _ _ args, h | .shuffle _ args _, h => letFreeAll_graph_substitute hValue args h

theorem letFreeAll_graph_substitute (hValue : value.LetFree) : ∀ (args : List Expr),
    Expr.LetFreeAll args → Expr.LetFreeAll (graph_substituteAll name value args)
  | [], _ => trivial
  | a :: args, h =>
    ⟨letFree_graph_substitute hValue a h.1, letFreeAll_graph_substitute hValue args h.2⟩

end

theorem read_of_ne_checked {m : Mode} (hm : m ≠ .checked) (T : IntType) (v : Int) :
    read m T v = some v := if_neg fun h => hm h.1

@[simp] theorem evalCall_set (m : Mode) (T : IntType) (ρ : Env) (f : Nat → Option Int) (vs : List Int)
    (i : Nat) (callee : Callee) : evalCall m T (ρ.set name f) vs i callee = evalCall m T ρ vs i callee := by
  cases callee <;> rfl

variable {mode : IntType → Mode}

theorem laneArgs_map {f : Expr → Expr} {ρ ρ' : Env} {i : Nat} : ∀ {args : List Expr},
    (∀ a ∈ args, (f a).lanes = a.lanes) → (∀ a ∈ args, ∀ k, lane mode ρ (f a) k = lane mode ρ' a k) →
    laneArgs mode ρ (args.map f) i = laneArgs mode ρ' args i
  | [], _, _ => by rw [List.map_nil, laneArgs, laneArgs]
  | a :: args, hLanes, hLane => by
    rw [List.forall_mem_cons] at hLanes hLane
    rw [List.map_cons, laneArgs, laneArgs, laneArgs_map hLanes.2 hLane.2, hLane.1, Expr.laneOf, hLanes.1]
    rfl

theorem laneAt_map {f : Expr → Expr} {ρ ρ' : Env} : ∀ {vectors : List Expr} {k : Nat},
    (∀ a ∈ vectors, (f a).lanes = a.lanes) →
    (∀ a ∈ vectors, ∀ k, lane mode ρ (f a) k = lane mode ρ' a k) →
    laneAt mode ρ (vectors.map f) k = laneAt mode ρ' vectors k
  | [], _, _, _ => by rw [List.map_nil, laneAt, laneAt]
  | a :: rest, k, hLanes, hLane => by
    rw [List.forall_mem_cons] at hLanes hLane
    rw [List.map_cons, laneAt, laneAt, laneAt_map hLanes.2 hLane.2, hLane.1, hLanes.1]

mutual

/-- A name that stands for an expression has its lanes. -/
theorem lane_graph_substitute (hMode : ∀ T, mode T ≠ .checked) : ∀ (e : Expr) (ρ : Env) (i : Nat),
    WellFormed (Γ.bind name value) e → e.LetFree →
    lane mode ρ (graph_substitute name value e) i = lane mode (ρ.set name (lane mode ρ value)) e i
  | .imm _ _, ρ, i, _, _ => by simp only [graph_substitute, lane]
  | .stringImm _, ρ, i, _, _ => by simp only [graph_substitute, lane, Env.set_strings]
  | .var T n other, ρ, i, he, hFree => by
    by_cases h : other = name
    · subst h
      have hLanes := (graph_substitute_shape (.var T n other) he hFree).2
      rw [graph_substitute, if_pos rfl] at hLanes ⊢
      rw [lane, Env.set_vars, Function.update_self]
      by_cases hi : i < n
      · rw [below, if_pos hi]
        cases lane mode ρ value i with
        | none => rfl
        | some v => exact (read_of_ne_checked (hMode T) T v).symm
      · rw [below, if_neg hi]
        exact lane_eq_none value (hLanes.le.trans (Nat.le_of_not_lt hi))
    · rw [graph_substitute, if_neg h, lane, lane, Env.set_vars, Function.update_of_ne h]
  | .cast _ a, ρ, i, he, hFree => by
    rw [graph_substitute, lane, lane, (graph_substitute_shape a he hFree).1,
      lane_graph_substitute hMode a ρ i he hFree]
  | .bin _ a b, ρ, i, he, hFree => by
    rw [graph_substitute, lane, lane, (graph_substitute_shape a he.1 hFree.1).1,
      lane_graph_substitute hMode a ρ i he.1 hFree.1, lane_graph_substitute hMode b ρ i he.2.1 hFree.2]
  | .cmp _ a b, ρ, i, he, hFree => by
    rw [graph_substitute, lane, lane, lane_graph_substitute hMode a ρ i he.1 hFree.1,
      lane_graph_substitute hMode b ρ i he.2.1 hFree.2]
  | .not a, ρ, i, he, hFree => by
    rw [graph_substitute, lane, lane, lane_graph_substitute hMode a ρ i he.1 hFree]
  | .select c t f, ρ, i, he, hFree => by
    rw [graph_substitute, lane, lane, Expr.laneOf, (graph_substitute_shape c he.1 hFree.1).2,
      lane_graph_substitute hMode c ρ _ he.1 hFree.1, lane_graph_substitute hMode t ρ i he.2.1 hFree.2.1,
      lane_graph_substitute hMode f ρ i he.2.2.1 hFree.2.2]
    rfl
  | .load _ _ _ a b, ρ, i, he, hFree => by
    rw [graph_substitute, lane, lane, lane_graph_substitute hMode a ρ i he.1 hFree.1,
      lane_graph_substitute hMode b ρ i he.2.1 hFree.2, Env.set_mem]
  | .ramp a b _, ρ, i, he, hFree => by
    rw [graph_substitute, lane, lane, (graph_substitute_shape a he.1 hFree.1).1,
      lane_graph_substitute hMode a ρ 0 he.1 hFree.1, lane_graph_substitute hMode b ρ 0 he.2.1 hFree.2]
  | .broadcast a _, ρ, i, he, hFree => by
    rw [graph_substitute, lane, lane, lane_graph_substitute hMode a ρ 0 he.1 hFree]
  | .call T n callee args, ρ, i, he, hFree => by
    have hArgs := laneArgs_map (i := i)
      (fun a ha => (graph_substitute_shape a (wellFormedAll_iff.mp he.1 a ha) (letFreeAll_iff.mp hFree a ha)).2)
      (lane_graph_substituteAll hMode args ρ he.1 hFree)
    simp only [graph_substitute, graph_substituteAll_eq_map, lane, hArgs, evalCall_set]
  | .shuffle T vectors indices, ρ, i, he, hFree => by
    have hVectors := fun k => laneAt_map (k := k)
      (fun a ha => (graph_substitute_shape a (wellFormedAll_iff.mp he.1 a ha) (letFreeAll_iff.mp hFree a ha)).2)
      (lane_graph_substituteAll hMode vectors ρ he.1 hFree)
    simp only [graph_substitute, graph_substituteAll_eq_map, lane, hVectors]

theorem lane_graph_substituteAll (hMode : ∀ T, mode T ≠ .checked) : ∀ (args : List Expr) (ρ : Env),
    WellFormedAll (Γ.bind name value) args → Expr.LetFreeAll args →
    ∀ a ∈ args, ∀ k, lane mode ρ (graph_substitute name value a) k =
      lane mode (ρ.set name (lane mode ρ value)) a k
  | [], _, _, _ => by
    intro a ha
    cases ha
  | a :: args, ρ, he, hFree => List.forall_mem_cons.mpr
      ⟨fun k => lane_graph_substitute hMode a ρ k he.1 hFree.1,
        lane_graph_substituteAll hMode args ρ he.2 hFree.2⟩

end

end Substitution

/-- An expression without lets that has the lanes of another. -/
structure Unfolds (mode : IntType → Mode) (Γ : Context) (e e' : Expr) : Prop where
  wellFormed : WellFormed Γ e'
  letFree : e'.LetFree
  type_eq : e'.type = e.type
  lanes_eq : e'.lanes = e.lanes
  lane_eq : ∀ ρ i, lane mode ρ e' i = lane mode ρ e i

section

theorem substitute_in_all_letsAll_eq_map : ∀ args : List Expr,
    substitute_in_all_letsAll args = args.map substitute_in_all_lets
  | [] => rfl
  | a :: args => by rw [substitute_in_all_letsAll, substitute_in_all_letsAll_eq_map args, List.map_cons]

variable {mode : IntType → Mode}

mutual

theorem substitute_in_all_lets_unfolds (hMode : ∀ T, mode T ≠ .checked) : ∀ (e : Expr) {Γ : Context},
    WellFormed Γ e → Unfolds mode Γ e (substitute_in_all_lets e)
  | .imm _ _, _, he => ⟨he, trivial, rfl, rfl, fun _ _ => rfl⟩
  | .stringImm _, _, he => ⟨he, trivial, rfl, rfl, fun _ _ => rfl⟩
  | .var _ _ _, _, he => ⟨he, trivial, rfl, rfl, fun _ _ => rfl⟩
  | .cast _ a, _, he => by
    have ha := substitute_in_all_lets_unfolds hMode a he
    refine ⟨ha.wellFormed, ha.letFree, rfl, ha.lanes_eq, fun ρ i => ?_⟩
    rw [substitute_in_all_lets, lane, lane, ha.type_eq, ha.lane_eq]
  | .bin op a b, _, he => by
    have ha := substitute_in_all_lets_unfolds hMode a he.1
    have hb := substitute_in_all_lets_unfolds hMode b he.2.1
    obtain ⟨-, -, hType, hLanes, hBool⟩ := he
    refine ⟨⟨ha.wellFormed, hb.wellFormed, ?_, ?_, ?_⟩, ⟨ha.letFree, hb.letFree⟩, ha.type_eq, ha.lanes_eq,
      fun ρ i => ?_⟩
    · rw [ha.type_eq, hb.type_eq, hType]
    · rw [ha.lanes_eq, hb.lanes_eq, hLanes]
    · rwa [ha.type_eq]
    · rw [substitute_in_all_lets, lane, lane, ha.type_eq, ha.lane_eq, hb.lane_eq]
  | .cmp op a b, _, he => by
    have ha := substitute_in_all_lets_unfolds hMode a he.1
    have hb := substitute_in_all_lets_unfolds hMode b he.2.1
    obtain ⟨-, -, hType, hLanes⟩ := he
    refine ⟨⟨ha.wellFormed, hb.wellFormed, ?_, ?_⟩, ⟨ha.letFree, hb.letFree⟩, rfl, ha.lanes_eq,
      fun ρ i => ?_⟩
    · rw [ha.type_eq, hb.type_eq, hType]
    · rw [ha.lanes_eq, hb.lanes_eq, hLanes]
    · rw [substitute_in_all_lets, lane, lane, ha.lane_eq, hb.lane_eq]
  | .not a, _, he => by
    have ha := substitute_in_all_lets_unfolds hMode a he.1
    refine ⟨⟨ha.wellFormed, ?_⟩, ha.letFree, rfl, ha.lanes_eq, fun ρ i => ?_⟩
    · rw [ha.type_eq, he.2]
    · rw [substitute_in_all_lets, lane, lane, ha.lane_eq]
  | .select c t f, _, he => by
    have hc := substitute_in_all_lets_unfolds hMode c he.1
    have ht := substitute_in_all_lets_unfolds hMode t he.2.1
    have hf := substitute_in_all_lets_unfolds hMode f he.2.2.1
    obtain ⟨-, -, -, hBool, hType, hLanes, hCond⟩ := he
    refine ⟨⟨hc.wellFormed, ht.wellFormed, hf.wellFormed, ?_, ?_, ?_, ?_⟩,
      ⟨hc.letFree, ht.letFree, hf.letFree⟩, ht.type_eq, ht.lanes_eq, fun ρ i => ?_⟩
    · rw [hc.type_eq, hBool]
    · rw [ht.type_eq, hf.type_eq, hType]
    · rw [ht.lanes_eq, hf.lanes_eq, hLanes]
    · rwa [hc.lanes_eq, ht.lanes_eq]
    · rw [substitute_in_all_lets, lane, lane, Expr.laneOf, hc.lanes_eq, hc.lane_eq, ht.lane_eq, hf.lane_eq]
      rfl
  | .load _ _ _ a b, _, he => by
    have ha := substitute_in_all_lets_unfolds hMode a he.1
    have hb := substitute_in_all_lets_unfolds hMode b he.2.1
    refine ⟨⟨ha.wellFormed, hb.wellFormed, ?_, ?_⟩, ⟨ha.letFree, hb.letFree⟩, rfl, rfl, fun ρ i => ?_⟩
    · rw [ha.lanes_eq, he.2.2.1]
    · rw [hb.lanes_eq, he.2.2.2]
    · rw [substitute_in_all_lets, lane, lane, ha.lane_eq, hb.lane_eq]
  | .ramp a b _, _, he => by
    have ha := substitute_in_all_lets_unfolds hMode a he.1
    have hb := substitute_in_all_lets_unfolds hMode b he.2.1
    obtain ⟨-, -, hLanesA, hLanesB, hn, hType⟩ := he
    refine ⟨⟨ha.wellFormed, hb.wellFormed, ?_, ?_, hn, ?_⟩, ⟨ha.letFree, hb.letFree⟩, ha.type_eq, rfl,
      fun ρ i => ?_⟩
    · rw [ha.lanes_eq, hLanesA]
    · rw [hb.lanes_eq, hLanesB]
    · rw [ha.type_eq, hb.type_eq, hType]
    · rw [substitute_in_all_lets, lane, lane, ha.type_eq, ha.lane_eq, hb.lane_eq]
  | .broadcast a _, _, he => by
    have ha := substitute_in_all_lets_unfolds hMode a he.1
    refine ⟨⟨ha.wellFormed, ?_, he.2.2⟩, ha.letFree, ha.type_eq, rfl, fun ρ i => ?_⟩
    · rw [ha.lanes_eq, he.2.1]
    · rw [substitute_in_all_lets, lane, lane, ha.lane_eq]
  | .call T n callee args, _, he => by
    have hArgs := substitute_in_all_letsAll_unfolds hMode args he.1
    rw [substitute_in_all_lets, substitute_in_all_letsAll_eq_map]
    refine ⟨wellFormed_call_map he (fun a ha => (hArgs a ha).wellFormed)
      (fun a ha => ⟨(hArgs a ha).type_eq, (hArgs a ha).lanes_eq⟩), ?_, rfl, rfl, fun ρ i => ?_⟩
    · exact letFreeAll_iff.mpr (List.forall_mem_map.mpr fun a ha => (hArgs a ha).letFree)
    · rw [lane, lane, laneArgs_map (fun a ha => (hArgs a ha).lanes_eq) fun a ha k => (hArgs a ha).lane_eq ρ k]
  | .letIn name value body, Γ, he => by
    have hValue := substitute_in_all_lets_unfolds hMode value he.1
    have hBody := substitute_in_all_lets_unfolds hMode body he.2
    have hWell : WellFormed (Γ.bind name (substitute_in_all_lets value)) (substitute_in_all_lets body) := by
      rw [Context.bind, hValue.type_eq, hValue.lanes_eq]
      exact hBody.wellFormed
    have hShape := graph_substitute_shape _ hWell hBody.letFree
    refine ⟨wellFormed_graph_substitute hValue.wellFormed _ hWell hBody.letFree,
      letFree_graph_substitute hValue.letFree _ hBody.letFree, hShape.1.trans hBody.type_eq,
      hShape.2.trans hBody.lanes_eq, fun ρ i => ?_⟩
    rw [substitute_in_all_lets, lane_graph_substitute hMode _ ρ i hWell hBody.letFree, hBody.lane_eq, lane]
    exact congrArg (fun f => lane mode (ρ.set name f) body i) (funext (hValue.lane_eq ρ))
  | .shuffle T vectors indices, _, he => by
    have hVectors := substitute_in_all_letsAll_unfolds hMode vectors he.1
    rw [substitute_in_all_lets, substitute_in_all_letsAll_eq_map]
    refine ⟨wellFormed_shuffle_map he (fun a ha => (hVectors a ha).wellFormed)
      (fun a ha => ⟨(hVectors a ha).type_eq, (hVectors a ha).lanes_eq⟩), ?_, rfl, rfl, fun ρ i => ?_⟩
    · exact letFreeAll_iff.mpr (List.forall_mem_map.mpr fun a ha => (hVectors a ha).letFree)
    · rw [lane, lane]
      refine congrArg (Option.bind indices[i]?) (funext fun k => ?_)
      exact laneAt_map (fun a ha => (hVectors a ha).lanes_eq) fun a ha k => (hVectors a ha).lane_eq ρ k

theorem substitute_in_all_letsAll_unfolds (hMode : ∀ T, mode T ≠ .checked) : ∀ (args : List Expr)
    {Γ : Context}, WellFormedAll Γ args → ∀ a ∈ args, Unfolds mode Γ a (substitute_in_all_lets a)
  | [], _, _ => by
    intro a ha
    cases ha
  | a :: args, _, he => List.forall_mem_cons.mpr
      ⟨substitute_in_all_lets_unfolds hMode a he.1, substitute_in_all_letsAll_unfolds hMode args he.2⟩

end

end

end Vyasa.Lanes
