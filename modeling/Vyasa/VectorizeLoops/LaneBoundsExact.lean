import Vyasa.VectorizeLoops.BoundsOfLanes

/-! Where every part is treated as it should be, the bounds are the least and the greatest lane. -/
namespace Vyasa.Lanes

open Word IRMatch

namespace Interval

variable {ρ : Env} {ia r : Interval}

section Lane

variable {S : Set Int} {next : Expr} {T : IntType} {v : Int}

/-- Of truth values the conjunction is the least, and the disjunction the greatest. -/
theorem Evaluates.withLane (h : ia.Evaluates ρ S) (hNext : lane wrapping ρ next 0 = some v)
    (hTruth : T = .bool → Truth (insert v S)) : (ia.withLane T next).Evaluates ρ (insert v S) := by
  obtain ⟨⟨x, hx, hLeast⟩, y, hy, hGreatest⟩ := h
  unfold Interval.withLane
  split_ifs with hBool
  · have hTruth := hTruth hBool
    have hv := hTruth v (Set.mem_insert v S)
    have hAnd : evalBin .wrapping ia.min.type .and x v = some (min v x) := by
      rcases hTruth x (Set.mem_insert_of_mem v hLeast.1) with rfl | rfl <;> rcases hv with rfl | rfl <;> rfl
    have hOr : evalBin .wrapping ia.max.type .or y v = some (max v y) := by
      rcases hTruth y (Set.mem_insert_of_mem v hGreatest.1) with rfl | rfl <;> rcases hv with rfl | rfl <;> rfl
    exact ⟨⟨_, lane_bin_eq_some.mpr ⟨x, v, hx, hNext, hAnd⟩, hLeast.insert v⟩,
      _, lane_bin_eq_some.mpr ⟨y, v, hy, hNext, hOr⟩, hGreatest.insert v⟩
  · have hMin : evalBin .wrapping ia.min.type .min x v = some (min v x) := congrArg some (min_comm x v)
    have hMax : evalBin .wrapping ia.max.type .max y v = some (max v y) := congrArg some (max_comm y v)
    exact ⟨⟨_, lane_bin_eq_some.mpr ⟨x, v, hx, hNext, hMin⟩, hLeast.insert v⟩,
      _, lane_bin_eq_some.mpr ⟨y, v, hy, hNext, hMax⟩, hGreatest.insert v⟩

theorem Typed.withLane (h : ia.Typed T) : (ia.withLane T next).Typed T := by
  unfold Interval.withLane
  split_ifs
  · exact h
  · exact h

end Lane

end Interval

/-- A pass keeps the values, and the type. -/
def KeepsValues (f : Expr → Expr) : Prop := KeepsLanes wrapping f ∧ ∀ e, (f e).type = e.type

section Extraction

variable {common_subexpression_elimination simplify : Expr → Expr} {Γ : Context} {e : Expr} {ρ ρ' : Env}

theorem exists_extract_lane (hCSE : KeepsValues common_subexpression_elimination)
    (hSimplify : KeepsValues simplify)
    (he : WellFormed Γ e) (hVector : 1 < e.lanes) (hExtracted : Extracted e) {i : Nat} (hi : i < e.lanes)
      (ρ : Env) :
    ∃ r, extract_lane common_subexpression_elimination simplify e i = some r ∧ r.type = e.type ∧
      ∀ v, lane wrapping ρ e i = some v → lane wrapping ρ r 0 = some v := by
  have hUnfolds : Unfolds wrapping Γ e _ := substitute_in_all_lets_unfolds (by simp) e he
  have hL : ((Extraction.lane i).deinterleaver e.lanes fun _ => false).Covers
    (substitute_in_all_lets e).lanes := by
    rw [hUnfolds.lanes_eq]
    exact Extraction.covers _ hVector hi
  have hExact := Deinterleaver.exact_of_kept hL (by simp) (fun _ _ h => absurd h Bool.false_ne_true) _
    hUnfolds.wellFormed hUnfolds.letFree (Or.inr rfl) (hExtracted i hi ρ)
  obtain ⟨r, hr, hTakes⟩ := Deinterleaver.visited_self hExact
  refine ⟨simplify (common_subexpression_elimination r), ?_, ?_, fun v hv => ?_⟩
  · change (Deinterleaver.mutate ((Extraction.lane i).deinterleaver e.lanes fun _ => false) _).bind _ = _
    rw [hr]
    rfl
  · rw [hSimplify.2, hCSE.2, hTakes.type_eq, hUnfolds.type_eq]
  · refine (hSimplify.1 _).2 ρ 0 v ((hCSE.1 _).2 ρ 0 v ?_)
    rw [hTakes.lane_vector (hUnfolds.lanes_eq ▸ hVector.ne') (show 0 < 1 from Nat.one_pos), hUnfolds.lane_eq]
    exact hv

/-- The explicit bounds over the lanes up to one. -/
theorem overLanes_evaluates (hCSE : KeepsValues common_subexpression_elimination)
    (hSimplify : KeepsValues simplify)
    (he : WellFormed Γ e) (hVector : 1 < e.lanes) (hExtracted : Extracted e) (hDefined : Defined ρ e)
    (hLane : ∀ i v, lane checked ρ e i = some v → lane wrapping ρ' e i = some v) : ∀ i < e.lanes,
    ∃ ia, overLanes common_subexpression_elimination simplify e i = some ia ∧ ia.Typed e.type ∧
      ia.Evaluates ρ' { v | ∃ k ≤ i, lane checked ρ e k = some v }
  | 0, hi => by
    obtain ⟨r, hr, hType, hTakes⟩ := exists_extract_lane hCSE hSimplify he hVector hExtracted hi ρ'
    obtain ⟨v, hv⟩ := hDefined 0 hi
    have hOne : { v | ∃ k ≤ 0, lane checked ρ e k = some v } = {v} := by
      ext x
      simp only [nonpos_iff_eq_zero, exists_eq_left, Set.mem_ofPred_eq, hv, Option.some.injEq,
        Set.mem_singleton_iff, eq_comm]
    have hr' := hTakes v (hLane 0 v hv)
    rw [overLanes, hr, hOne]
    exact ⟨_, rfl, ⟨hType, hType⟩, ⟨v, hr', isLeast_singleton⟩, v, hr', isGreatest_singleton⟩
  | i + 1, hi => by
    obtain ⟨ia, hia, hTyped, hEvaluates⟩ :=
      overLanes_evaluates hCSE hSimplify he hVector hExtracted hDefined hLane i (Nat.lt_of_succ_lt hi)
    obtain ⟨r, hr, hType, hTakes⟩ := exists_extract_lane hCSE hSimplify he hVector hExtracted hi ρ'
    obtain ⟨v, hv⟩ := hDefined (i + 1) hi
    have hNext : { v | ∃ k ≤ i + 1, lane checked ρ e k = some v } =
        insert v { v | ∃ k ≤ i, lane checked ρ e k = some v } := by
      ext x
      simp only [Nat.le_succ_iff, or_and_right, exists_or, exists_eq_left, Set.mem_ofPred_eq, hv,
        Option.some.injEq,
        Set.mem_insert_iff, eq_comm, or_comm]
    have hTruth (hBool : e.type = .bool) : Truth (insert v { v | ∃ k ≤ i, lane checked ρ e k = some v }) := by
      rw [← hNext]
      rintro x ⟨k, hk, hx⟩
      exact truth_values he hBool x ⟨k, by omega, hx⟩
    rw [overLanes, hia, Option.bind_eq_bind, Option.bind_some, hr, hNext]
    exact ⟨_, rfl, hTyped.withLane, hEvaluates.withLane (hTakes v (hLane _ v hv)) hTruth⟩

theorem overLanes_exact (hCSE : KeepsValues common_subexpression_elimination) (hSimplify : KeepsValues simplify)
    (he : WellFormed Γ e) (hVector : 1 < e.lanes) (hExtracted : Extracted e) (hDefined : Defined ρ e)
    (hLane : ∀ i v, lane checked ρ e i = some v → lane wrapping ρ' e i = some v) :
    ∃ ia, overLanes common_subexpression_elimination simplify e (e.lanes - 1) = some ia ∧ ia.Typed e.type ∧
      ia.Evaluates ρ' (values ρ e) := by
  have hAll : values ρ e = { v | ∃ k ≤ e.lanes - 1, lane checked ρ e k = some v } := by
    ext x
    simp only [values, Set.mem_ofPred_eq, Nat.le_sub_one_iff_lt (Nat.zero_lt_of_lt hVector)]
  rw [hAll]
  exact overLanes_evaluates hCSE hSimplify he hVector hExtracted hDefined hLane _ (by omega)

end Extraction

section Scalar

variable {Γ : Context} {ρ : Env} {lets : Name → Bool}

theorem lanes_pos : ∀ {Γ : Context} (e : Expr), WellFormed Γ e → 0 < e.lanes
  | _, .imm _ _, _ | _, .stringImm _, _ => Nat.one_pos
  | _, .var _ _ _, he => he.1
  | _, .cast _ a, he => lanes_pos a he
  | _, .bin _ a _, he | _, .cmp _ a _, he | _, .not a, he => lanes_pos a he.1
  | _, .select _ a _, he => lanes_pos a he.2.1
  | _, .load _ _ _ index _, he => he.2.2.1 ▸ lanes_pos index he.1
  | _, .ramp _ _ _, he => Nat.zero_lt_of_lt he.2.2.2.2.1
  | _, .broadcast _ _, he => Nat.zero_lt_of_lt he.2.2
  | _, .call _ _ _ _, he => he.2.2.1
  | _, .letIn _ _ body, he => lanes_pos body he.2
  | _, .shuffle _ _ _, he => List.length_pos_iff.mpr he.2.2.1

/-- Of a scalar there is always the only lane. -/
theorem exists_mutate_scalar : ∀ (e : Expr), WellFormed Γ e → e.LetFree → e.lanes = 1 →
    Deinterleaver.Visited ((⟨0, 1, 1, lets⟩ : Deinterleaver).Kept wrapping ρ) e →
      ∃ r, (⟨0, 1, 1, lets⟩ : Deinterleaver).mutate e = some r
  | .imm _ _, _, _, _, _ | .stringImm _, _, _, _, _ => ⟨_, by rw [Deinterleaver.mutate]⟩
  | .var T n name, _, _, hLanes, _ => by
    have hOne : n = 1 := hLanes
    exact ⟨_, by rw [Deinterleaver.mutate, Deinterleaver.visitVariable, if_pos hOne]⟩
  | .cast T a, _, _, hLanes, _ => by
    have hOne : a.lanes = 1 := hLanes
    exact ⟨_, by rw [Deinterleaver.mutate, if_pos hOne]⟩
  | .bin op a b, he, hFree, hLanes, hKept => by
    obtain ⟨r, hr⟩ := exists_mutate_scalar a he.1 hFree.1 hLanes hKept.2.1
    obtain ⟨s, hs⟩ := exists_mutate_scalar b he.2.1 hFree.2 (he.2.2.2.1 ▸ hLanes) hKept.2.2
    exact ⟨.bin op r s, by rw [Deinterleaver.mutate, hr, hs]; rfl⟩
  | .cmp op a b, he, hFree, hLanes, hKept => by
    obtain ⟨r, hr⟩ := exists_mutate_scalar a he.1 hFree.1 hLanes hKept.2.1
    obtain ⟨s, hs⟩ := exists_mutate_scalar b he.2.1 hFree.2 (he.2.2.2 ▸ hLanes) hKept.2.2
    exact ⟨.cmp op r s, by rw [Deinterleaver.mutate, hr, hs]; rfl⟩
  | .not a, he, hFree, hLanes, hKept => by
    obtain ⟨r, hr⟩ := exists_mutate_scalar a he.1 hFree hLanes hKept.2
    exact ⟨.not r, by rw [Deinterleaver.mutate, hr]; rfl⟩
  | .select c t f, he, hFree, hLanes, hKept => by
    have hCondition : c.lanes = 1 := he.2.2.2.2.2.2.elim id fun h => h.trans hLanes
    obtain ⟨q, hq⟩ := exists_mutate_scalar c he.1 hFree.1 hCondition hKept.2.1
    obtain ⟨r, hr⟩ := exists_mutate_scalar t he.2.1 hFree.2.1 hLanes hKept.2.2.1
    obtain ⟨s, hs⟩ := exists_mutate_scalar f he.2.2.1 hFree.2.2 (he.2.2.2.2.2.1 ▸ hLanes) hKept.2.2.2
    exact ⟨.select q r s, by rw [Deinterleaver.mutate, hq, hr, hs]; rfl⟩
  | .load T n name index predicate, _, _, hLanes, _ => by
    have hOne : n = 1 := hLanes
    exact ⟨_, by rw [Deinterleaver.mutate, if_pos hOne]⟩
  | .ramp _ _ _, he, _, hLanes, _ => absurd hLanes he.2.2.2.2.1.ne'
  | .broadcast _ _, he, _, hLanes, _ => absurd hLanes he.2.2.ne'
  | .call T n callee args, _, _, hLanes, _ => by
    have hOne : n = 1 := hLanes
    exact ⟨_, by rw [Deinterleaver.mutate, if_pos hOne]⟩
  | .shuffle T vectors indices, _, _, hLanes, hKept => by
    have hInterleave : Shuffle.is_interleave vectors indices = false := by
      by_contra hTrue
      obtain ⟨m, hNe, -, hCount, -⟩ := Shuffle.is_interleave_lanes (eq_true_of_ne_false hTrue)
      exact hNe (Nat.eq_one_of_mul_eq_one_right (hCount.trans hLanes))
    obtain ⟨k, hk, hLess, -⟩ := (hKept.resolve_left (by simp [hInterleave])) 0 Nat.one_pos
    refine ⟨.shuffle T [.shuffle T vectors indices] [k], ?_⟩
    rw [Deinterleaver.mutate]
    refine (Deinterleaver.visitShuffle_eq_some hInterleave).mpr
      ⟨[k], rfl, fun i hi => ?_, List.cons_ne_nil _ _, ?_, rfl⟩
    · obtain rfl : i = 0 := by
        change i < 1 at hi
        omega
      exact hk
    · intro k' hk'
      rwa [List.mem_singleton.mp hk']

end Scalar

section Exists

variable {common_subexpression_elimination simplify : Expr → Expr}

theorem exists_overLanes {Γ : Context} {e : Expr} (hCSE : KeepsValues common_subexpression_elimination)
    (hSimplify : KeepsValues simplify) (he : WellFormed Γ e) (hExtracted : Extracted e) (ρ : Env) :
    ∀ i < e.lanes, ∃ ia, overLanes common_subexpression_elimination simplify e i = some ia := by
  have hLane (i : Nat) (hi : i < e.lanes) :
      ∃ r, extract_lane common_subexpression_elimination simplify e i = some r := by
    rcases Nat.eq_or_lt_of_le (lanes_pos e he) with hOne | hVector
    · have hUnfolds : Unfolds wrapping Γ e _ := substitute_in_all_lets_unfolds (by simp) e he
      have hKept := hExtracted i hi ρ
      obtain rfl : i = 0 := by omega
      rw [← hOne] at hKept
      obtain ⟨r, hr⟩ := exists_mutate_scalar _ hUnfolds.wellFormed hUnfolds.letFree
        (hUnfolds.lanes_eq.trans hOne.symm) hKept
      refine ⟨simplify (common_subexpression_elimination r), ?_⟩
      rw [extract_lane, ← hOne, deinterleave]
      exact congrArg (Option.bind · _) hr
    · obtain ⟨r, hr, -⟩ := exists_extract_lane hCSE hSimplify he hVector hExtracted hi ρ
      exact ⟨r, hr⟩
  intro i
  induction i with
  | zero =>
    intro hi
    obtain ⟨r, hr⟩ := hLane 0 hi
    exact ⟨_, by rw [overLanes, hr]; rfl⟩
  | succ i ih =>
    intro hi
    obtain ⟨ia, hia⟩ := ih (Nat.lt_of_succ_lt hi)
    obtain ⟨r, hr⟩ := hLane (i + 1) hi
    exact ⟨_, by rw [overLanes, hia, Option.bind_eq_bind, Option.bind_some, hr]; rfl⟩

/-- No assertion fails. -/
theorem exists_bounds_of_lanes (hCSE : KeepsValues common_subexpression_elimination)
    (hSimplify : KeepsValues simplify) : ∀ {Γ : Context} {ρ : Env} (e : Expr), WellFormed Γ e → Meets ρ e →
      ∃ ia, bounds_of_lanes common_subexpression_elimination simplify e = some ia
  | Γ, ρ, .bin op a b, he, hMeets => by
    unfold Meets at hMeets
    unfold bounds_of_lanes
    cases hRoute : route op a b with
    | left v =>
      rw [hRoute] at hMeets
      obtain ⟨ia, hia⟩ := exists_bounds_of_lanes hCSE hSimplify a he.1 hMeets.1
      exact ⟨ia.leftOf op v, by simp only [hia]; rfl⟩
    | right v =>
      rw [hRoute] at hMeets
      obtain ⟨ia, hia⟩ := exists_bounds_of_lanes hCSE hSimplify b he.2.1 hMeets.1
      exact ⟨ia.rightOf op v, by simp only [hia]; rfl⟩
    | lanes =>
      rw [hRoute] at hMeets
      exact exists_overLanes hCSE hSimplify he hMeets ρ _ (Nat.sub_one_lt_of_lt (lanes_pos (.bin op a b) he))
  | Γ, ρ, .not a, he, hMeets => by
    obtain ⟨ia, hia⟩ := exists_bounds_of_lanes hCSE hSimplify a he.1 hMeets
    exact ⟨_, by rw [bounds_of_lanes, hia]; rfl⟩
  | Γ, ρ, .ramp base stride n, he, hMeets => by
    unfold bounds_of_lanes
    simp only
    split_ifs with hPos hNeg
    · exact ⟨_, rfl⟩
    · exact ⟨_, rfl⟩
    · have hUnknown : ¬ signKnown stride = true := by simp [signKnown, hPos, hNeg]
      rw [Meets, if_neg hUnknown] at hMeets
      exact exists_overLanes hCSE hSimplify he hMeets ρ _
        (Nat.sub_one_lt_of_lt (lanes_pos (.ramp base stride n) he))
  | Γ, ρ, .broadcast v n, _, _ => ⟨_, by rw [bounds_of_lanes]⟩
  | Γ, ρ, .var T n name, _, _ => ⟨_, by rw [bounds_of_lanes]⟩
  | Γ, ρ, .letIn name value body, he, hMeets => by
    obtain ⟨ia, hia⟩ := exists_bounds_of_lanes hCSE hSimplify value he.1 hMeets.1
    obtain ⟨ib, hib⟩ := exists_bounds_of_lanes hCSE hSimplify body he.2 hMeets.2
    exact ⟨ib.inLet name value ia, by rw [bounds_of_lanes, hia, hib]; rfl⟩
  | Γ, ρ, .imm T x, he, hMeets =>
    exists_overLanes hCSE hSimplify he hMeets ρ _ (Nat.sub_one_lt_of_lt (lanes_pos _ he))
  | Γ, ρ, .stringImm x, he, hMeets =>
    exists_overLanes hCSE hSimplify he hMeets ρ _ (Nat.sub_one_lt_of_lt (lanes_pos _ he))
  | Γ, ρ, .cast T a, he, hMeets =>
    exists_overLanes hCSE hSimplify he hMeets ρ _ (Nat.sub_one_lt_of_lt (lanes_pos _ he))
  | Γ, ρ, .cmp op a b, he, hMeets =>
    exists_overLanes hCSE hSimplify he hMeets ρ _ (Nat.sub_one_lt_of_lt (lanes_pos _ he))
  | Γ, ρ, .select c t f, he, hMeets =>
    exists_overLanes hCSE hSimplify he hMeets ρ _ (Nat.sub_one_lt_of_lt (lanes_pos _ he))
  | Γ, ρ, .load T n name index predicate, he, hMeets =>
    exists_overLanes hCSE hSimplify he hMeets ρ _ (Nat.sub_one_lt_of_lt (lanes_pos _ he))
  | Γ, ρ, .call T n callee args, he, hMeets =>
    exists_overLanes hCSE hSimplify he hMeets ρ _ (Nat.sub_one_lt_of_lt (lanes_pos _ he))
  | Γ, ρ, .shuffle T vectors indices, he, hMeets =>
    exists_overLanes hCSE hSimplify he hMeets ρ _ (Nat.sub_one_lt_of_lt (lanes_pos _ he))

end Exists

namespace Env.Refines

variable {D D' : Name → Bool} {ρ ρ' : Env} {name : Name}

theorem mono (h : ρ.Refines D ρ') (hLess : ∀ other, D' other = false → D other = false) : ρ.Refines D' ρ' :=
  { h with vars := fun other hOther => h.vars other (hLess other hOther) }

theorem set_right (h : ρ.Refines D ρ') (hName : D name = true) (x : Nat → Option Int) :
    ρ.Refines D (ρ'.set name x) where
  vars other hOther i v hv := by
    have hNe : other ≠ name := by
      rintro rfl
      exact absurd hName (by simp [hOther])
    rw [Env.set_vars, Function.update_of_ne hNe]
    exact h.vars other hOther i v hv
  mem := h.mem
  strings := h.strings
  calls := h.calls
  texture := h.texture

end Env.Refines

namespace Interval

variable {ρ : Env} {ia ib : Interval} {name : Name} {value e v : Expr} {T : IntType} {op : BinOp}

theorem lane_letAround (i : Nat) : lane wrapping ρ (letAround name value e) i =
    lane wrapping (ρ.set name fun k => lane wrapping ρ value k) e i := by
  unfold letAround
  split_ifs with hMentions
  · rw [lane]
  · refine lane_congr e (D := fun other => other = name) i ⟨fun other hOther => ?_, rfl, rfl, rfl, rfl⟩
      (Bool.eq_false_iff.mpr hMentions)
    rw [Env.set_vars, Function.update_of_ne (of_decide_eq_false hOther)]

theorem type_letAround : (letAround name value e).type = e.type := by
  unfold letAround
  split_ifs <;> rfl

theorem Typed.inLet (h : ib.Typed T) : (ib.inLet name value ia).Typed T := by
  simpa only [Typed, Interval.inLet, type_letAround] using h

theorem Typed.leftOf (h : ia.Typed T) : (ia.leftOf op v).Typed T := by
  cases op with
  | add | sub | and | or | min | max | mod => exact h
  | mul | div =>
    unfold Interval.leftOf
    simp only
    split_ifs
    · exact h
    · exact ⟨h.2, h.1⟩

theorem Typed.rightOf (h : ia.Typed T) (hType : v.type = T) : (ia.rightOf op v).Typed T := by
  cases op with
  | add | sub => exact ⟨hType, hType⟩
  | and | or | min | max | mod | div => exact h
  | mul =>
    unfold Interval.rightOf
    simp only
    split_ifs <;> exact ⟨hType, hType⟩

/-- The environment in which the bounds of the body of a let are evaluated. -/
def letEnv (ρ : Env) (name : Name) (value : Expr) (ia : Interval) : Env :=
  let ρ := ρ.set name fun k => lane wrapping ρ value k
  let ρ := ρ.set (maxLane name) fun k => lane wrapping ρ ia.max k
  ρ.set (minLane name) fun k => lane wrapping ρ ia.min k

theorem Evaluates.inLet {S : Set Int} (h : ib.Evaluates (letEnv ρ name value ia) S) :
    (ib.inLet name value ia).Evaluates ρ S := by
  obtain ⟨⟨x, hx, hLeast⟩, y, hy, hGreatest⟩ := h
  refine ⟨⟨x, ?_, hLeast⟩, y, ?_, hGreatest⟩ <;> simp only [Interval.inLet, lane_letAround] <;> assumption

end Interval

section Looks

variable {Γ : Context} {ρ : Env}

/-- A variable that is looked at has as many lanes as the expression, and their values. -/
theorem looks_defined : ∀ {Γ : Context} {ρ : Env} (e : Expr) {T : IntType} {n : Nat} {x : Name},
    WellFormed Γ e →
    Looks e T n x → Defined ρ e → (∀ s ∈ Γ x, s = (T, n)) ∧ n = e.lanes ∧ Defined ρ (.var T n x)
  | Γ, ρ, .bin op a b, T, n, x, he, hLooks, hDefined => by
    unfold Looks at hLooks
    cases hRoute : route op a b with
    | left v =>
      rw [hRoute] at hLooks
      obtain ⟨⟨m, rfl⟩, -⟩ := route_left hRoute
      obtain ⟨-, -, hDefinedA, -⟩ := values_left hDefined (lanes_pos a he.1)
      exact looks_defined a he.1 hLooks hDefinedA
    | right v =>
      rw [hRoute] at hLooks
      obtain ⟨⟨m, rfl⟩, -⟩ := route_right hRoute
      have hLanes : m = b.lanes := he.2.2.2.1
      obtain ⟨-, -, hDefinedB, -⟩ := values_right hDefined hLanes (lanes_pos b he.2.1)
      obtain ⟨hType, hCount, hDefinedX⟩ := looks_defined b he.2.1 hLooks hDefinedB
      exact ⟨hType, hCount.trans hLanes.symm, hDefinedX⟩
    | lanes =>
      rw [hRoute] at hLooks
      exact hLooks.elim
  | Γ, ρ, .not a, T, n, x, he, hLooks, hDefined => by
    refine looks_defined a he.1 hLooks fun i hi => ?_
    obtain ⟨v, hv⟩ := hDefined i hi
    obtain ⟨w, hw, -⟩ := lane_not_eq_some.mp hv
    exact ⟨w, hw⟩
  | Γ, ρ, .var S m y, T, n, x, he, hLooks, hDefined => by
    obtain ⟨rfl, rfl, rfl⟩ := hLooks
    exact ⟨he.2, rfl, hDefined⟩
  | Γ, ρ, .letIn name value body, T, n, x, he, hLooks, hDefined => by
    have hBody : Defined (ρ.set name fun i => lane checked ρ value i) body := fun i hi => by
      obtain ⟨v, hv⟩ := hDefined i hi
      rw [lane] at hv
      exact ⟨v, hv⟩
    rcases hLooks with ⟨hLooks, hNe⟩ | ⟨⟨S, m, hName⟩, hLooks⟩
    · obtain ⟨hType, hCount, hX⟩ := looks_defined body he.2 hLooks hBody
      refine ⟨by rwa [Function.update_of_ne hNe] at hType, hCount, fun i hi => ?_⟩
      obtain ⟨v, hv⟩ := hX i hi
      rw [lane, Env.set_vars, Function.update_of_ne hNe] at hv
      exact ⟨v, by rw [lane]; exact hv⟩
    · obtain ⟨hType, hCount, hX⟩ := looks_defined body he.2 hName hBody
      rw [Function.update_self] at hType
      obtain ⟨rfl, rfl⟩ := Prod.mk.inj (hType _ rfl)
      have hValue : Defined ρ value := fun i hi => by
        obtain ⟨v, hv⟩ := hX i hi
        obtain ⟨-, w, hw, -⟩ := lane_var_eq_some.mp hv
        rw [Env.set_vars, Function.update_self] at hw
        exact ⟨w, hw⟩
      obtain ⟨hType', hCount', hX'⟩ := looks_defined value he.1 hLooks hValue
      exact ⟨hType', hCount'.trans hCount, hX'⟩
  | _, _, .imm _ _, _, _, _, _, hLooks, _ | _, _, .stringImm _, _, _, _, _, hLooks, _
  | _, _, .cast _ _, _, _, _, _, hLooks, _ | _, _, .cmp _ _ _, _, _, _, _, hLooks, _
  | _, _, .select _ _ _, _, _, _, _, hLooks, _ | _, _, .load _ _ _ _ _, _, _, _, _, hLooks, _
  | _, _, .ramp _ _ _, _, _, _, _, hLooks, _ | _, _, .broadcast _ _, _, _, _, _, hLooks, _
  | _, _, .call _ _ _ _, _, _, _, _, hLooks, _ | _, _, .shuffle _ _ _, _, _, _, _, hLooks, _ => hLooks.elim

theorem not_mem_of_looks : ∀ {D : Name → Bool} (e : Expr) {T : IntType} {n : Nat} {x : Name}, WellNamed D e →
    Looks e T n x → D x = false
  | D, .bin op a b, T, n, x, hNamed, hLooks => by
    unfold Looks at hLooks
    cases hRoute : route op a b with
    | left v =>
      rw [hRoute] at hLooks
      exact not_mem_of_looks a hNamed.2.1 hLooks
    | right v =>
      rw [hRoute] at hLooks
      exact not_mem_of_looks b hNamed.2.2 hLooks
    | lanes =>
      rw [hRoute] at hLooks
      exact hLooks.elim
  | D, .not a, T, n, x, hNamed, hLooks => not_mem_of_looks a hNamed.2 hLooks
  | D, .var S m y, T, n, x, hNamed, hLooks => by
    obtain ⟨rfl, rfl, rfl⟩ := hLooks
    exact hNamed.1
  | D, .letIn name value body, T, n, x, hNamed, hLooks => by
    obtain ⟨-, -, hValue, hBody⟩ := hNamed
    rcases hLooks with ⟨hLooks, hNe⟩ | ⟨-, hLooks⟩
    · have hOut := not_mem_of_looks body hBody hLooks
      rwa [Function.update_of_ne hNe] at hOut
    · have hOut := not_mem_of_looks value hValue hLooks
      by_cases hEq : x = name
      · simp [hEq] at hOut
      · rwa [Function.update_of_ne hEq] at hOut
  | _, .imm _ _, _, _, _, _, hLooks | _, .stringImm _, _, _, _, _, hLooks
  | _, .cast _ _, _, _, _, _, hLooks | _, .cmp _ _ _, _, _, _, _, hLooks
  | _, .select _ _ _, _, _, _, _, hLooks | _, .load _ _ _ _ _, _, _, _, _, hLooks
  | _, .ramp _ _ _, _, _, _, _, hLooks | _, .broadcast _ _, _, _, _, _, hLooks
  | _, .call _ _ _ _, _, _, _, _, hLooks | _, .shuffle _ _ _, _, _, _, _, hLooks => hLooks.elim

end Looks

section Nodes

variable {Γ : Context} {D : Name → Bool} {ρ ρ' : Env} {ia : Interval}

/-- The negation changes the order of truth values. -/
theorem evaluates_not {a : Expr} (ha : WellFormed Γ a) (hType : a.type = .bool) (hDefined : Defined ρ a)
    (h : ia.Evaluates ρ' (values ρ a)) : (⟨.not ia.max, .not ia.min⟩ : Interval).Evaluates ρ'
      (values ρ (.not a)) := by
  have hImage : values ρ (.not a) = (fun x => if x = 0 then 1 else 0) '' values ρ a := by
    refine values_image (fun i => Iff.rfl) fun i hi => ?_
    obtain ⟨x, hx⟩ := hDefined i hi
    exact ⟨x, hx, lane_not_eq_some.mpr ⟨x, hx, rfl⟩⟩
  have hTruth := truth_values (ρ := ρ) ha hType
  rw [hImage]
  refine h.image_antitone (fun x hx x' hx' hle => ?_) (fun x _ hx => lane_not_eq_some.mpr ⟨x, hx, rfl⟩)
    fun x _ hx => lane_not_eq_some.mpr ⟨x, hx, rfl⟩
  rcases hTruth x hx with rfl | rfl <;> rcases hTruth x' hx' with rfl | rfl <;> simp at hle ⊢

/-- The last lane of a ramp. -/
def rampLast (base stride : Expr) (n : Nat) : Expr :=
  .bin .add base (.bin .mul (.imm base.type (base.type.wrap (n - 1))) stride)

/-- The lanes of a ramp, and the expressions for the first and the last of them. -/
theorem ramp_lanes {base stride : Expr} {n : Nat} (he : WellFormed Γ (.ramp base stride n))
    (hMentions : (Expr.ramp base stride n).mentions D = false) (hRefines : ρ.Refines D ρ')
    (hDefined : Defined ρ (.ramp base stride n)) :
    ∃ x y, values ρ stride = {y} ∧ (∀ v, v ∈ values ρ (.ramp base stride n) ↔ ∃ i < n, x + i * y = v) ∧
      lane wrapping ρ' base 0 = some x ∧ lane wrapping ρ' (rampLast base stride n) 0 =
        some (x + (n - 1 : Nat) * y) := by
  obtain ⟨-, -, -, hStride, hMany, hType⟩ := he
  rw [Expr.mentions, Bool.or_eq_false_iff] at hMentions
  obtain ⟨z, hz⟩ := hDefined 0 (Nat.zero_lt_of_lt hMany)
  obtain ⟨-, x, y, hx, hy, -⟩ := lane_ramp_eq_some.mp hz
  have hLane (i : Nat) (hi : i < n) : lane checked ρ (.ramp base stride n) i = some (x + i * y) ∧
      base.type.Has (x + i * y) := by
    obtain ⟨z, hz⟩ := hDefined i hi
    obtain ⟨-, x', y', hx', hy', hz'⟩ := lane_ramp_eq_some.mp hz
    obtain rfl := Option.some.inj (hx.symm.trans hx')
    obtain rfl := Option.some.inj (hy.symm.trans hy')
    simp only [arith, Option.ite_none_right_eq_some, Option.some.injEq] at hz'
    exact ⟨hz.trans (congrArg some hz'.2.symm), hz'.1⟩
  have hBase : lane wrapping ρ' base 0 = some x := lane_refines base hRefines hMentions.1 hx
  refine ⟨x, y, ?_, fun v => ⟨?_, ?_⟩, hBase, ?_⟩
  · ext v
    rw [mem_values_scalar hStride, hy, Option.some.injEq, Set.mem_singleton_iff, eq_comm]
  · rintro ⟨i, hi, hv⟩
    exact ⟨i, hi, Option.some.inj ((hLane i hi).1.symm.trans hv)⟩
  · rintro ⟨i, hi, rfl⟩
    exact ⟨i, hi, (hLane i hi).1⟩
  · have hStep := ((base.type.wrap_modEq _).trans ((base.type.wrap_modEq ((n : Int) - 1)).mul_right
      y)).add_left x
    have hPred : ((n - 1 : Nat) : Int) = n - 1 := by omega
    refine lane_bin_eq_some.mpr ⟨x, _, hBase, lane_bin_eq_some.mpr ⟨_, y, lane_imm_eq_some.mpr ⟨Nat.one_pos,
      rfl⟩,
      lane_refines stride hRefines hMentions.2 hy, rfl⟩, congrArg some ?_⟩
    rw [hPred]
    refine (IntType.wrap_eq_wrap hStep).trans (IntType.wrap_of_has ?_)
    rw [← hPred]
    exact (hLane (n - 1) (by omega)).2

/-- The first and the last lane of a ramp are its bounds. -/
theorem evaluates_ramp {base stride : Expr} {n : Nat} (he : WellFormed Γ (.ramp base stride n))
    (hMentions : (Expr.ramp base stride n).mentions D = false) (hRefines : ρ.Refines D ρ')
    (hDefined : Defined ρ (.ramp base stride n)) (hKnown : signKnown stride = true)
    (hRight : SignRight ρ stride ∨ (values ρ (.ramp base stride n)).Subsingleton) :
    (if stride.is_positive_const then ⟨base, rampLast base stride n⟩
      else ⟨rampLast base stride n, base⟩ : Interval).Evaluates ρ' (values ρ (.ramp base stride n)) := by
  obtain ⟨x, y, hStride, hMem, hBase, hLast⟩ := ramp_lanes he hMentions hRefines hDefined
  have hMany : 1 < n := he.2.2.2.2.1
  have hFirst : x ∈ values ρ (.ramp base stride n) := (hMem x).mpr ⟨0, by omega, by simp⟩
  have hFinal : x + (n - 1 : Nat) * y ∈ values ρ (.ramp base stride n) := (hMem _).mpr ⟨n - 1, by omega, rfl⟩
  -- a single value is both bounds, whatever the sign is taken for
  have hSign : (if stride.is_positive_const = true then 0 ≤ y else y ≤ 0) ∨
      (values ρ (.ramp base stride n)).Subsingleton :=
    hRight.imp_left fun hRight => Interval.sign_of_known hKnown (hRight y (hStride ▸ Set.mem_singleton y))
  have hOne (hSub : (values ρ (.ramp base stride n)).Subsingleton) {v : Int}
      (hv : v ∈ values ρ (.ramp base stride n)) : IsLeast (values ρ (.ramp base stride n)) v ∧
        IsGreatest (values ρ (.ramp base stride n)) v :=
    ⟨⟨hv, fun w hw => (hSub hv hw).le⟩, hv, fun w hw => (hSub hw hv).le⟩
  split_ifs at hSign ⊢
  · rcases hSign with hSign | hSub
    · refine ⟨⟨x, hBase, hFirst, fun v hv => ?_⟩, _, hLast, hFinal, fun v hv => ?_⟩
      · obtain ⟨i, -, rfl⟩ := (hMem v).mp hv
        have := mul_nonneg (Int.natCast_nonneg i) hSign
        omega
      · obtain ⟨i, hi, rfl⟩ := (hMem v).mp hv
        have := Int.mul_le_mul_of_nonneg_right (show (i : Int) ≤ (n - 1 : Nat) by omega) hSign
        omega
    · exact ⟨⟨x, hBase, (hOne hSub hFirst).1⟩, _, hLast, (hOne hSub hFinal).2⟩
  · rcases hSign with hSign | hSub
    · refine ⟨⟨_, hLast, hFinal, fun v hv => ?_⟩, x, hBase, hFirst, fun v hv => ?_⟩
      · obtain ⟨i, hi, rfl⟩ := (hMem v).mp hv
        have := Int.mul_le_mul_of_nonpos_right (show (i : Int) ≤ (n - 1 : Nat) by omega) hSign
        omega
      · obtain ⟨i, -, rfl⟩ := (hMem v).mp hv
        have := mul_nonpos_of_nonneg_of_nonpos (Int.natCast_nonneg i) hSign
        omega
    · exact ⟨⟨_, hLast, (hOne hSub hFinal).1⟩, x, hBase, (hOne hSub hFirst).2⟩

theorem bounds_of_lanes_ramp {common_subexpression_elimination simplify : Expr → Expr} {base stride : Expr}
    {n : Nat}
    (hKnown : signKnown stride = true) :
    bounds_of_lanes common_subexpression_elimination simplify (.ramp base stride n) =
      some (if stride.is_positive_const then ⟨base, rampLast base stride n⟩ else
        ⟨rampLast base stride n, base⟩) := by
  rw [signKnown, Bool.or_eq_true] at hKnown
  unfold bounds_of_lanes
  simp only
  split_ifs with hPos hNeg
  · rfl
  · rfl
  · exact absurd hKnown (by simp [hPos, hNeg])

end Nodes

theorem WellNamed.mentions {D : Name → Bool} {e : Expr} (h : WellNamed D e) : e.mentions D = false := by
  unfold WellNamed at h
  exact h.1

section Scope

variable {ρ ρ' : Env} {x name : Name} {T : IntType} {n : Nat} {S : Set Int} {e : Expr}

theorem minLane_ne (hName : isLaneName name = false) : minLane x ≠ name ∧ maxLane x ≠ name := by
  constructor <;> rintro rfl <;> simp [isLaneName, minLane, maxLane] at hName

theorem evaluates_var_iff : (⟨.var T 1 (minLane x), .var T 1 (maxLane x)⟩ : Interval).Evaluates ρ S ↔
    (∃ v, ρ.vars (minLane x) 0 = some v ∧ IsLeast S v) ∧ ∃ v, ρ.vars (maxLane x) 0 = some v ∧
      IsGreatest S v := by
  have hLane (other : Name) : lane wrapping ρ (.var T 1 other) 0 = ρ.vars other 0 := by
    rw [lane, below, if_pos Nat.one_pos]
    cases ρ.vars other 0 with
    | none => rfl
    | some v =>
      change (if Mode.wrapping = .checked ∧ ¬ T.Has v then none else some v) = some v
      rw [if_neg fun h => Mode.noConfusion h.1]
  constructor
  · rintro ⟨hMin, hMax⟩
    simp only [hLane] at hMin hMax
    exact ⟨hMin, hMax⟩
  · rintro ⟨hMin, hMax⟩
    refine ⟨?_, ?_⟩
    · simpa only [hLane] using hMin
    · simpa only [hLane] using hMax

theorem values_var_set (hNe : x ≠ name) (v : Nat → Option Int) :
    values (ρ.set name v) (.var T n x) = values ρ (.var T n x) := by
  simp only [values, lane, Env.set_vars, Function.update_of_ne hNe]

/-- A variable that no bounds are in can be set. -/
theorem InScope.set (h : InScope ρ ρ' e) (hNe : ∀ T n x, Looks e T n x → minLane x ≠ name ∧ maxLane x ≠ name)
    (v : Nat → Option Int) : InScope ρ (ρ'.set name v) e := by
  intro T n x hLooks
  obtain ⟨hMin, hMax⟩ := hNe T n x hLooks
  rw [evaluates_var_iff, Env.set_vars, Function.update_of_ne hMin, Function.update_of_ne hMax]
  exact evaluates_var_iff.mp (h T n x hLooks)

theorem values_let_var {Γ : Context} {value : Expr} (hValue : WellFormed Γ value) :
    values (ρ.set name fun i => lane checked ρ value i) (.var value.type value.lanes name) =
      values ρ value := by
  ext v
  constructor
  · rintro ⟨i, hi, hv⟩
    obtain ⟨-, w, hw, hRead⟩ := lane_var_eq_some.mp hv
    rw [Env.set_vars, Function.update_self] at hw
    have hSame : read .checked value.type w = some w := by
      rw [read, if_neg fun h => h.2 (has_of_lane value hValue hw)]
    obtain rfl := Option.some.inj (hSame.symm.trans hRead)
    exact ⟨i, hi, hw⟩
  · rintro ⟨i, hi, hv⟩
    refine ⟨i, hi, lane_var_eq_some.mpr ⟨hi, v, ?_, ?_⟩⟩
    · rw [Env.set_vars, Function.update_self]
      exact hv
    · rw [read, if_neg fun h => h.2 (has_of_lane value hValue hv)]

theorem defined_let_value {value : Expr}
    (h : Defined (ρ.set name fun i => lane checked ρ value i) (.var value.type value.lanes name)) :
    Defined ρ value := by
  intro i hi
  obtain ⟨v, hv⟩ := h i hi
  obtain ⟨-, w, hw, -⟩ := lane_var_eq_some.mp hv
  rw [Env.set_vars, Function.update_self] at hw
  exact ⟨w, hw⟩

end Scope

section Exact

variable {common_subexpression_elimination simplify : Expr → Expr}

/-- In the scope of a let the bounds of its variable are those of its value. -/
theorem inScope_body {Γ : Context} {ρ ρ' : Env} {name : Name} {value body : Expr} {ia : Interval}
    (hValue : WellFormed Γ value) (hBody : WellFormed
      (Function.update Γ name (some (value.type, value.lanes))) body)
    (hName : isLaneName name = false) (hDefined : Defined (ρ.set name fun i => lane checked ρ value i) body)
    (hScope : InScope ρ ρ' (.letIn name value body))
    (hMin : (∃ T n, Looks body T n name) → ∃ x, (ia.letEnv ρ' name value).vars (minLane name) 0 = some x ∧
      IsLeast (values ρ value) x)
    (hMax : (∃ T n, Looks body T n name) → ∃ y, (ia.letEnv ρ' name value).vars (maxLane name) 0 = some y ∧
      IsGreatest (values ρ value) y) :
    InScope (ρ.set name fun i => lane checked ρ value i) (ia.letEnv ρ' name value) body := by
  intro T n x hLooks
  rw [evaluates_var_iff]
  by_cases hEq : x = name
  · subst hEq
    have hType := (looks_defined body hBody hLooks hDefined).1
    rw [Function.update_self] at hType
    obtain ⟨rfl, rfl⟩ := Prod.mk.inj (hType _ rfl)
    rw [values_let_var hValue]
    exact ⟨hMin ⟨_, _, hLooks⟩, hMax ⟨_, _, hLooks⟩⟩
  · have hOut := evaluates_var_iff.mp (hScope T n x (Or.inl ⟨hLooks, hEq⟩))
    have hMinNe : minLane x ≠ minLane name ∧ minLane x ≠ maxLane name := by simp [minLane, maxLane, hEq]
    have hMaxNe : maxLane x ≠ minLane name ∧ maxLane x ≠ maxLane name := by simp [minLane, maxLane, hEq]
    have hNe := minLane_ne (x := x) hName
    rw [values_var_set hEq]
    simpa only [Interval.letEnv, Env.set_vars, Function.update_of_ne hMinNe.1, Function.update_of_ne hMinNe.2,
      Function.update_of_ne hMaxNe.1, Function.update_of_ne hMaxNe.2, Function.update_of_ne hNe.1,
      Function.update_of_ne hNe.2] using hOut

/-- Where every part is treated as it should be, the bounds are the least and the greatest lane. -/
theorem bounds_of_lanes_evaluates (hCSE : KeepsValues common_subexpression_elimination)
    (hSimplify : KeepsValues simplify) : ∀ {Γ : Context} {D : Name → Bool} {ρ ρ' : Env} (e : Expr),
      WellFormed Γ e → 1 < e.lanes → (∀ x, isLaneName x = true → D x = true) → WellNamed D e → ρ.Refines D ρ' →
      Defined ρ e → InScope ρ ρ' e → Meets ρ e →
        ∃ ia, bounds_of_lanes common_subexpression_elimination simplify e = some ia ∧ ia.Typed e.type ∧
          ia.Evaluates ρ' (values ρ e)
  | Γ, D, ρ, ρ', .bin op a b, he, hVector, hD, hNamed, hRefines, hDefined, hScope, hMeets => by
    have hMentions := hNamed.1
    rw [Expr.mentions, Bool.or_eq_false_iff] at hMentions
    have hTruth (hOp : op = .and ∨ op = .or) := he.2.2.2.2 hOp
    unfold Meets at hMeets
    unfold bounds_of_lanes
    cases hRoute : route op a b with
    | left v =>
      rw [hRoute] at hMeets
      have hScopeA : InScope ρ ρ' a := fun T n x hLooks => hScope T n x (by rw [Looks, hRoute]; exact hLooks)
      obtain ⟨⟨n, rfl⟩, hMod, hKnown⟩ := route_left hRoute
      obtain ⟨y, hy, hDefinedA, hImage, hBin⟩ := values_left hDefined (lanes_pos a he.1)
      obtain ⟨ia, hia, hTyped, hEvaluates⟩ := bounds_of_lanes_evaluates hCSE hSimplify a he.1 hVector hD
        hNamed.2.1
        hRefines hDefinedA hScopeA hMeets.1
      refine ⟨ia.leftOf op v, by simp only [hia]; rfl, hTyped.leftOf, ?_⟩
      exact hEvaluates.leftOf hTyped (lane_refines v hRefines hMentions.2 hy)
        ((mem_values_scalar he.2.1.2.1).mpr hy) hBin hImage hMod (fun hOp => truth_values he.1 (hTruth hOp))
          hKnown
        hMeets.2
    | right v =>
      rw [hRoute] at hMeets
      have hScopeB : InScope ρ ρ' b := fun T n x hLooks => hScope T n x (by rw [Looks, hRoute]; exact hLooks)
      obtain ⟨⟨n, rfl⟩, hMod, hDiv, hKnown⟩ := route_right hRoute
      have hType : v.type = b.type := he.2.2.1
      have hLanes : n = b.lanes := he.2.2.2.1
      obtain ⟨y, hy, hDefinedB, hImage, hBin⟩ := values_right hDefined hLanes (lanes_pos b he.2.1)
      obtain ⟨ia, hia, hTyped, hEvaluates⟩ := bounds_of_lanes_evaluates hCSE hSimplify b he.2.1
        (hLanes ▸ hVector) hD
        hNamed.2.2 hRefines hDefinedB hScopeB hMeets.1
      refine ⟨ia.rightOf op v, by simp only [hia]; rfl, hType ▸ hTyped.rightOf hType, ?_⟩
      exact hEvaluates.rightOf hTyped (lane_refines v hRefines hMentions.1 hy)
        ((mem_values_scalar he.1.2.1).mpr hy) hBin hImage ⟨hMod, hDiv⟩
        (fun hOp => truth_values he.2.1 (hType.symm.trans (hTruth hOp))) hKnown hMeets.2
    | lanes =>
      rw [hRoute] at hMeets
      exact overLanes_exact hCSE hSimplify he hVector hMeets hDefined
        fun i v hv => lane_refines (.bin op a b) hRefines hNamed.1 hv
  | Γ, D, ρ, ρ', .not a, he, hVector, hD, hNamed, hRefines, hDefined, hScope, hMeets => by
    have hDefinedA : Defined ρ a := fun i hi => by
      obtain ⟨v, hv⟩ := hDefined i hi
      obtain ⟨w, hw, -⟩ := lane_not_eq_some.mp hv
      exact ⟨w, hw⟩
    obtain ⟨ia, hia, hTyped, hEvaluates⟩ := bounds_of_lanes_evaluates hCSE hSimplify a he.1 hVector hD hNamed.2
      hRefines hDefinedA hScope hMeets
    exact ⟨⟨.not ia.max, .not ia.min⟩, by rw [bounds_of_lanes, hia]; rfl, ⟨rfl, rfl⟩,
      evaluates_not he.1 he.2 hDefinedA hEvaluates⟩
  | Γ, D, ρ, ρ', .ramp base stride n, he, hVector, hD, hNamed, hRefines, hDefined, hScope, hMeets => by
    by_cases hKnown : signKnown stride = true
    · rw [Meets, if_pos hKnown] at hMeets
      refine ⟨_, bounds_of_lanes_ramp hKnown, ?_, evaluates_ramp he hNamed.1 hRefines hDefined hKnown hMeets⟩
      split_ifs <;> exact ⟨rfl, rfl⟩
    · have hUnknown : stride.is_positive_const ≠ true ∧ stride.is_negative_const ≠ true := by
        simpa [signKnown] using hKnown
      rw [Meets, if_neg hKnown] at hMeets
      unfold bounds_of_lanes
      simp only [if_neg hUnknown.1, if_neg hUnknown.2]
      exact overLanes_exact hCSE hSimplify he hVector hMeets hDefined fun i v hv =>
        lane_refines _ hRefines hNamed.1 hv
  | Γ, D, ρ, ρ', .broadcast v n, he, hVector, hD, hNamed, hRefines, hDefined, hScope, hMeets => by
    obtain ⟨y, hy⟩ := hDefined 0 (Nat.zero_lt_of_lt hVector)
    have hAll : values ρ (.broadcast v n) = {y} := by
      have hy := (lane_broadcast_eq_some.mp hy).2
      ext x
      constructor
      · rintro ⟨i, hi, hx⟩
        exact Option.some.inj ((lane_broadcast_eq_some.mp hx).2.symm.trans hy)
      · rintro rfl
        exact ⟨0, Nat.zero_lt_of_lt hVector, lane_broadcast_eq_some.mpr ⟨Nat.zero_lt_of_lt hVector, hy⟩⟩
    have hValue := lane_refines v hRefines hNamed.1 (lane_broadcast_eq_some.mp hy).2
    rw [hAll]
    exact ⟨⟨v, v⟩, by rw [bounds_of_lanes], ⟨rfl, rfl⟩, ⟨y, hValue, isLeast_singleton⟩, y, hValue,
      isGreatest_singleton⟩
  | Γ, D, ρ, ρ', .var T n name, he, hVector, hD, hNamed, hRefines, hDefined, hScope, hMeets =>
    ⟨_, by rw [bounds_of_lanes], ⟨rfl, rfl⟩, hScope T n name ⟨rfl, rfl, rfl⟩⟩
  | Γ, D, ρ, ρ', .letIn name value body, he, hVector, hD, hNamed, hRefines, hDefined, hScope, hMeets => by
    obtain ⟨hMentions, hName, hNamedValue, hNamedBody⟩ := hNamed
    have hBody : Defined (ρ.set name fun i => lane checked ρ value i) body := fun i hi => by
      obtain ⟨v, hv⟩ := hDefined i hi
      rw [lane] at hv
      exact ⟨v, hv⟩
    have hValues : values ρ (.letIn name value body) = values (ρ.set name fun i => lane checked ρ value i)
      body := by
      ext v
      simp only [values, lane, Expr.lanes]
    have hDLet (d : Bool) (x : Name) (hx : isLaneName x = true) : Function.update D name d x = true := by
      rw [Function.update_of_ne (by rintro rfl; exact absurd hx (by simp [hName]))]
      exact hD x hx
    obtain ⟨ia, hia⟩ := exists_bounds_of_lanes hCSE hSimplify value he.1 hMeets.1
    -- the bounds of the value, in every environment that keeps what the value reads
    have hBounds (hLooks : ∃ T n, Looks body T n name) (ρ'' : Env)
      (hRefines'' : ρ.Refines (Function.update D name true) ρ'')
        (hScope'' : InScope ρ ρ'' value) : ia.Evaluates ρ'' (values ρ value) := by
      obtain ⟨T, n, hLooks⟩ := hLooks
      obtain ⟨hType, hCount, hX⟩ := looks_defined body he.2 hLooks hBody
      rw [Function.update_self] at hType
      obtain ⟨rfl, rfl⟩ := Prod.mk.inj (hType _ rfl)
      obtain ⟨ia', hia', -, hEvaluates⟩ := bounds_of_lanes_evaluates hCSE hSimplify value he.1
        (hCount ▸ hVector)
        (hDLet true) hNamedValue hRefines'' (defined_let_value hX) hScope'' hMeets.1
      obtain rfl := Option.some.inj (hia.symm.trans hia')
      exact hEvaluates
    have hFirst : ρ.Refines (Function.update D name true) (ρ'.set name fun k => lane wrapping ρ' value k) := by
      refine (hRefines.mono fun other hOther => ?_).set_right (Function.update_self ..) _
      by_cases hEq : other = name
      · simp [hEq] at hOther
      · rwa [Function.update_of_ne hEq] at hOther
    have hScopeFirst (hLooks : ∃ T n, Looks body T n name) :
        InScope ρ (ρ'.set name fun k => lane wrapping ρ' value k) value := by
      refine InScope.set (fun T n x hX => hScope T n x (Or.inr ⟨hLooks, hX⟩)) (fun T n x _ =>
        minLane_ne hName) _
    have hScopeSecond (hLooks : ∃ T n, Looks body T n name) :
      InScope ρ ((ρ'.set name fun k => lane wrapping ρ' value k).set
        (maxLane name) fun k => lane wrapping (ρ'.set name fun k => lane wrapping ρ' value k) ia.max k)
          value := by
      refine InScope.set (hScopeFirst hLooks) (fun T n x hX => ?_) _
      have hNe : x ≠ name := by
        rintro rfl
        have hOut := not_mem_of_looks value hNamedValue hX
        simp at hOut
      simp [minLane, maxLane, hNe]
    have hScopeBody : InScope _ (ia.letEnv ρ' name value) body := inScope_body he.1 he.2 hName hBody hScope
      (fun hLooks => by
        obtain ⟨x, hx, hLeast⟩ := (hBounds hLooks _
          (hFirst.set_right (hDLet true _ (by simp [isLaneName, maxLane])) _)
          (hScopeSecond hLooks)).min_eq
        exact ⟨x, by simpa only [Interval.letEnv, Env.set_vars, Function.update_self] using hx, hLeast⟩)
      (fun hLooks => by
        obtain ⟨y, hy, hGreatest⟩ := (hBounds hLooks _ hFirst (hScopeFirst hLooks)).max_eq
        have hNe : maxLane name ≠ minLane name := by simp [minLane, maxLane]
        exact ⟨y, by simpa only [Interval.letEnv, Env.set_vars, Function.update_of_ne hNe,
          Function.update_self] using hy,
          hGreatest⟩)
    have hRefinesBody : (ρ.set name fun i => lane checked ρ value i).Refines (Function.update D name false)
        (ia.letEnv ρ' name value) := by
      have hSet : (ρ.set name fun i => lane checked ρ value i).Refines (Function.update D name false)
          (ρ'.set name fun k => lane wrapping ρ' value k) := by
        refine hRefines.set name fun _ i v hv => lane_refines value (D := Function.update D name true) ?_
          hNamedValue.mentions hv
        refine hRefines.mono fun other hOther => ?_
        by_cases hEq : other = name
        · simp [hEq] at hOther
        · rwa [Function.update_of_ne hEq] at hOther
      exact (hSet.set_right (hDLet false _ (by simp [isLaneName, maxLane])) _).set_right
        (hDLet false _ (by simp [isLaneName, minLane])) _
    obtain ⟨ib, hib, hTyped, hEvaluates⟩ := bounds_of_lanes_evaluates hCSE hSimplify body he.2 hVector
      (hDLet false)
      hNamedBody hRefinesBody hBody hScopeBody hMeets.2
    rw [hValues]
    exact ⟨ib.inLet name value ia, by rw [bounds_of_lanes, hia, hib]; rfl, hTyped.inLet, hEvaluates.inLet⟩
  | Γ, D, ρ, ρ', .imm T x, he, hVector, hD, hNamed, hRefines, hDefined, hScope, hMeets =>
    absurd hVector (Nat.lt_irrefl 1)
  | Γ, D, ρ, ρ', .stringImm x, he, hVector, hD, hNamed, hRefines, hDefined, hScope, hMeets =>
    absurd hVector (Nat.lt_irrefl 1)
  | Γ, D, ρ, ρ', .cast T a, he, hVector, hD, hNamed, hRefines, hDefined, hScope, hMeets =>
    overLanes_exact hCSE hSimplify he hVector hMeets hDefined fun i v hv => lane_refines _ hRefines hNamed.1 hv
  | Γ, D, ρ, ρ', .cmp op a b, he, hVector, hD, hNamed, hRefines, hDefined, hScope, hMeets =>
    overLanes_exact hCSE hSimplify he hVector hMeets hDefined fun i v hv => lane_refines _ hRefines hNamed.1 hv
  | Γ, D, ρ, ρ', .select c t f, he, hVector, hD, hNamed, hRefines, hDefined, hScope, hMeets =>
    overLanes_exact hCSE hSimplify he hVector hMeets hDefined fun i v hv => lane_refines _ hRefines hNamed.1 hv
  | Γ, D, ρ, ρ', .load T n name index predicate, he, hVector, hD, hNamed, hRefines, hDefined, hScope, hMeets =>
    overLanes_exact hCSE hSimplify he hVector hMeets hDefined fun i v hv => lane_refines _ hRefines hNamed.1 hv
  | Γ, D, ρ, ρ', .call T n callee args, he, hVector, hD, hNamed, hRefines, hDefined, hScope, hMeets =>
    overLanes_exact hCSE hSimplify he hVector hMeets hDefined fun i v hv => lane_refines _ hRefines hNamed.1 hv
  | Γ, D, ρ, ρ', .shuffle T vectors indices, he, hVector, hD, hNamed, hRefines, hDefined, hScope, hMeets =>
    overLanes_exact hCSE hSimplify he hVector hMeets hDefined fun i v hv => lane_refines _ hRefines hNamed.1 hv

end Exact

/-! ### The bounds are right only then -/

section Necessary

variable {f : Int → Int} {S : Set Int} {x y : Int} {v : Expr} {ρ ρ₀ : Env} {op : BinOp} {e a b : Expr}
  {ia : Interval}

theorem subsingleton_of_least_greatest (h : IsLeast S x) (h' : IsGreatest S x) : S.Subsingleton :=
  fun _ hy _ hz => ((h'.2 hy).trans (h.2 hz)).antisymm ((h'.2 hz).trans (h.2 hy))

/-- No constant is taken for both positive and negative. -/
theorem not_both_signs : ∀ {v : Expr}, v.is_positive_const = true → v.is_negative_const = true → False
  | .imm _ w, hPos, hNeg => by
    have hPos : 0 < w := of_decide_eq_true hPos
    have hNeg : w < 0 := of_decide_eq_true hNeg
    omega
  | .cast _ a, hPos, hNeg => not_both_signs (v := a) hPos hNeg
  | .broadcast a _, hPos, hNeg => not_both_signs (v := a) hPos hNeg
  | .ramp a _ _, hPos, hNeg =>
    not_both_signs (v := a) (Bool.and_eq_true_iff.mp hPos).1 (Bool.and_eq_true_iff.mp hNeg).1

theorem signRight_of_sign (hValues : values ρ v = {y}) (hSign : if v.is_positive_const = true then 0 ≤ y else
    y ≤ 0) :
    SignRight ρ v := by
  intro x hx
  rw [hValues, Set.mem_singleton_iff] at hx
  subst hx
  split_ifs at hSign with hPos
  · exact ⟨fun _ => hSign, fun hNeg => (not_both_signs hPos hNeg).elim⟩
  · exact ⟨fun h => absurd h hPos, fun _ => hSign⟩

/-- A factor or divisor whose sign is misread gives the bounds in the wrong order. -/
theorem sign_or_subsingleton {r : Interval} (h : ia.Evaluates ρ S)
    (hPos : 0 ≤ y → MonotoneOn f S) (hNeg : y ≤ 0 → AntitoneOn f S)
    (hMin : ∀ x, lane wrapping ρ (if v.is_positive_const then ia.min else ia.max) 0 = some x → x ∈ S →
      lane wrapping ρ r.min 0 = some (f x))
    (hResult : r.Evaluates ρ (f '' S)) :
    (if v.is_positive_const = true then 0 ≤ y else y ≤ 0) ∨ (f '' S).Subsingleton := by
  obtain ⟨⟨x, hx, hLeast⟩, z, hz, hGreatest⟩ := h
  obtain ⟨⟨w, hw, hLeastImage⟩, -⟩ := hResult
  split_ifs at hMin ⊢
  · obtain rfl := Option.some.inj (hw.symm.trans (hMin x hx hLeast.1))
    rcases Int.le_total 0 y with hSign | hSign
    · exact Or.inl hSign
    · exact Or.inr (subsingleton_of_least_greatest hLeastImage ((hNeg hSign).map_isLeast hLeast))
  · obtain rfl := Option.some.inj (hw.symm.trans (hMin z hz hGreatest.1))
    rcases Int.le_total 0 y with hSign | hSign
    · exact Or.inr (subsingleton_of_least_greatest hLeastImage ((hPos hSign).map_isGreatest hGreatest))
    · exact Or.inl hSign

/-- A conjunction with a truth value for a disjunction. -/
theorem allEqual_of_or (h : ia.Evaluates ρ (values ρ₀ a)) (hTruth : Truth (values ρ₀ a)) (hy : y = 0 ∨ y = 1)
    (hv : lane wrapping ρ v 0 = some y) (hValues : values ρ₀ v = {y})
    (hResult : (ia.leftOf .or v).Evaluates ρ ((fun x => opValue .or x y) '' values ρ₀ a)) :
      AllEqual ρ₀ a v := by
  obtain ⟨⟨x, hx, hLeast⟩, z, hz, hGreatest⟩ := h
  obtain ⟨⟨w, hw, hLeastImage⟩, w', hw', hGreatestImage⟩ := hResult
  have hMono : MonotoneOn (fun x => opValue .or x y) (values ρ₀ a) := monotoneOn_truth (Or.inr rfl) hTruth
  have hAnd {r : Expr} {u : Int} (hr : lane wrapping ρ r 0 = some u) :
      lane wrapping ρ (.bin .and r v) 0 = some (opValue .and u y) := lane_bin_eq_some.mpr ⟨u, y, hr, hv, rfl⟩
  have hSame {u : Int} (hu : u = 0 ∨ u = 1) (hEq : opValue .and u y = opValue .or u y) : u = y := by
    rcases hu with rfl | rfl <;> rcases hy with rfl | rfl <;> simp [opValue] at hEq ⊢
  have hLow := (hMono.map_isLeast hLeast).unique hLeastImage
  rw [← Option.some.inj ((hAnd hx).symm.trans hw)] at hLow
  have hHigh := (hMono.map_isGreatest hGreatest).unique hGreatestImage
  rw [← Option.some.inj ((hAnd hz).symm.trans hw')] at hHigh
  obtain rfl := hSame (hTruth x hLeast.1) hLow.symm
  obtain rfl := hSame (hTruth z hGreatest.1) hHigh.symm
  intro u hu u' hu'
  rw [hValues, Set.mem_singleton_iff] at hu'
  exact ((hGreatest.2 hu).antisymm (hLeast.2 hu)).trans hu'.symm

theorem rightLeft_of_evaluates (h : ia.Evaluates ρ (values ρ₀ a)) (hTyped : ia.Typed a.type)
    (hv : lane wrapping ρ v 0 = some y) (hValues : values ρ₀ v = {y}) (hy : op = .or → y = 0 ∨ y = 1)
    (hBin : ∀ x ∈ values ρ₀ a, evalBin .checked a.type op x y = some (opValue op x y))
    (hImage : values ρ₀ e = (fun x => opValue op x y) '' values ρ₀ a)
    (hTruth : op = .and ∨ op = .or → Truth (values ρ₀ a))
    (hResult : (ia.leftOf op v).Evaluates ρ (values ρ₀ e)) : RightLeft ρ₀ op e a v := by
  rw [hImage] at hResult
  have hFactor (hFactor : op = .mul ∨ op = .div) : SignRight ρ₀ v ∨ (values ρ₀ e).Subsingleton := by
    rw [hImage]
    refine (sign_or_subsingleton (v := v) h (monotoneOn_of_nonneg hFactor) (antitoneOn_of_nonpos hFactor)
      (fun x hx hMem => ?_) hResult).imp_left (signRight_of_sign hValues)
    have hLane := Interval.lane_bin_left (a := if v.is_positive_const then ia.min else ia.max) hBin hv
      (by split_ifs; exacts [hTyped.1, hTyped.2]) x hMem hx
    rcases hFactor with rfl | rfl <;> unfold Interval.leftOf <;> split_ifs at hLane ⊢ <;> exact hLane
  cases op with
  | add | sub | and | min | max | mod => trivial
  | mul => exact hFactor (Or.inl rfl)
  | div => exact hFactor (Or.inr rfl)
  | or => exact allEqual_of_or h (hTruth (Or.inr rfl)) (hy rfl) hv hValues hResult

theorem rightRight_of_evaluates (h : ia.Evaluates ρ (values ρ₀ b))
    (hv : lane wrapping ρ v 0 = some y) (hValues : values ρ₀ v = {y}) (hy : op = .or → y = 0 ∨ y = 1)
    (hBin : ∀ x ∈ values ρ₀ b, evalBin .checked v.type op y x = some (opValue op y x))
    (hImage : values ρ₀ e = (fun x => opValue op y x) '' values ρ₀ b)
    (hTruth : op = .and ∨ op = .or → Truth (values ρ₀ b))
    (hResult : (ia.rightOf op v).Evaluates ρ (values ρ₀ e)) : RightRight ρ₀ op e v b := by
  rw [hImage] at hResult
  cases op with
  | add | and | min | max | div | mod => trivial
  | sub =>
    -- both bounds are made from the greatest lane
    obtain ⟨⟨z, hz, hLeast⟩, z', hz', hGreatest⟩ := hResult
    obtain rfl := Option.some.inj (hz.symm.trans hz')
    have hSub := subsingleton_of_least_greatest hLeast hGreatest
    intro x hx x' hx'
    have hEq : y - x = y - x' := hSub (Set.mem_image_of_mem _ hx) (Set.mem_image_of_mem _ hx')
    omega
  | mul =>
    have hComm : (fun x => opValue .mul y x) = fun x => opValue .mul x y := funext fun x => Int.mul_comm y x
    have hGoal : SignRight ρ₀ v ∨ (values ρ₀ e).Subsingleton := by
      rw [hImage]
      refine (sign_or_subsingleton (v := v) h (fun hSign => hComm ▸ monotoneOn_of_nonneg (Or.inl rfl) hSign)
        (fun hSign => hComm ▸ antitoneOn_of_nonpos (Or.inl rfl) hSign) (fun x hx hMem => ?_)
        hResult).imp_left (signRight_of_sign hValues)
      have hLane := Interval.lane_bin_right (b := if v.is_positive_const then ia.min else ia.max) hBin hv rfl
        x hMem hx
      unfold Interval.rightOf
      simp only
      split_ifs at hLane ⊢ <;> exact hLane
    exact hGoal
  | or =>
    have hComm : (fun x => opValue .or y x) = fun x => opValue .or x y := funext fun x => opValue_comm (by simp)
    rw [hComm] at hResult
    exact allEqual_of_or h (hTruth (Or.inr rfl)) (hy rfl) hv hValues hResult

end Necessary

/-- The parts that are looked at are treated as they should be, and lanes that are extracted. -/
def PartsMeet (ρ : Env) : Expr → Prop
  | .bin op a b =>
    match route op a b with
    | .left _ => Meets ρ a
    | .right _ => Meets ρ b
    | .lanes => Meets ρ (.bin op a b)
  | .ramp base stride n => signKnown stride = true ∨ Meets ρ (.ramp base stride n)
  | e => Meets ρ e

section Iff

variable {common_subexpression_elimination simplify : Expr → Expr} {Γ : Context} {ρ : Env}

/-- The bounds are those of the lanes. -/
def BoundsExact (common_subexpression_elimination simplify : Expr → Expr) (ρ : Env) (e : Expr) : Prop :=
  ∃ ia, bounds_of_lanes common_subexpression_elimination simplify e = some ia ∧ ia.Evaluates ρ (values ρ e)

theorem refines_self (D : Name → Bool) (ρ : Env) : ρ.Refines D ρ :=
  ⟨fun _ _ _ _ h => h, rfl, rfl, rfl, rfl⟩

theorem values_scalar {v : Expr} {y : Int} (hLanes : v.lanes = 1) (hy : lane checked ρ v 0 = some y) :
    values ρ v = {y} := by
  ext x
  rw [mem_values_scalar hLanes, hy, Option.some.injEq, Set.mem_singleton_iff, eq_comm]

/-- An expression whose parts are treated as they should be has the right bounds only if it is
treated so itself. -/
theorem meets_of_boundsExact (hCSE : KeepsValues common_subexpression_elimination)
    (hSimplify : KeepsValues simplify)
    {e : Expr} (he : WellFormed Γ e) (hVector : 1 < e.lanes) (hNamed : WellNamed isLaneName e)
    (hDefined : Defined ρ e) (hScope : InScope ρ ρ e) (hParts : PartsMeet ρ e)
    (hExact : BoundsExact common_subexpression_elimination simplify ρ e) : Meets ρ e := by
  have hRefines := refines_self isLaneName ρ
  have hMentions := hNamed.mentions
  obtain ⟨r, hr, hResult⟩ := hExact
  cases e with
  | bin op a b =>
    rw [Expr.mentions, Bool.or_eq_false_iff] at hMentions
    have hTruth (hOp : op = .and ∨ op = .or) := he.2.2.2.2 hOp
    rw [PartsMeet] at hParts
    unfold Meets
    unfold bounds_of_lanes at hr
    cases hRoute : route op a b with
    | left v =>
      rw [hRoute] at hParts
      have hScopeA : InScope ρ ρ a := fun T n x hLooks => hScope T n x (by rw [Looks, hRoute]; exact hLooks)
      simp only [hRoute] at hr
      obtain ⟨⟨n, rfl⟩, -, -⟩ := route_left hRoute
      obtain ⟨y, hy, hDefinedA, hImage, hBin⟩ := values_left hDefined (lanes_pos a he.1)
      obtain ⟨ia, hia, hTyped, hEvaluates⟩ := bounds_of_lanes_evaluates hCSE hSimplify a he.1 hVector
        (fun _ h => h)
        hNamed.2.1 hRefines hDefinedA hScopeA hParts
      rw [hia] at hr
      obtain rfl := Option.some.inj hr
      have hValues := values_scalar he.2.1.2.1 hy
      refine ⟨hParts, rightLeft_of_evaluates hEvaluates hTyped (lane_refines v hRefines hMentions.2 hy) hValues
        (fun hOp => ?_) hBin hImage (fun hOp => truth_values he.1 (hTruth hOp)) hResult⟩
      exact truth_values he.2.1.1 (he.2.2.1.symm.trans (hTruth (Or.inr hOp))) y (hValues ▸ Set.mem_singleton y)
    | right v =>
      rw [hRoute] at hParts
      have hScopeB : InScope ρ ρ b := fun T n x hLooks => hScope T n x (by rw [Looks, hRoute]; exact hLooks)
      simp only [hRoute] at hr
      obtain ⟨⟨n, rfl⟩, -, -⟩ := route_right hRoute
      have hType : v.type = b.type := he.2.2.1
      have hLanes : n = b.lanes := he.2.2.2.1
      obtain ⟨y, hy, hDefinedB, hImage, hBin⟩ := values_right hDefined hLanes (lanes_pos b he.2.1)
      obtain ⟨ia, hia, hTyped, hEvaluates⟩ := bounds_of_lanes_evaluates hCSE hSimplify b he.2.1
        (hLanes ▸ hVector)
        (fun _ h => h) hNamed.2.2 hRefines hDefinedB hScopeB hParts
      rw [hia] at hr
      obtain rfl := Option.some.inj hr
      have hValues := values_scalar he.1.2.1 hy
      refine ⟨hParts, rightRight_of_evaluates hEvaluates (lane_refines v hRefines hMentions.1 hy) hValues
        (fun hOp => ?_) hBin hImage (fun hOp => truth_values he.2.1 (hType.symm.trans (hTruth hOp))) hResult⟩
      exact truth_values he.1.1 (hTruth (Or.inr hOp)) y (hValues ▸ Set.mem_singleton y)
    | lanes =>
      rw [hRoute] at hParts
      rwa [Meets, hRoute] at hParts
  | ramp base stride n =>
    rcases hParts with hKnown | hMeets
    · rw [bounds_of_lanes_ramp hKnown] at hr
      obtain rfl := Option.some.inj hr
      obtain ⟨x, y, hStride, hMem, hBase, hLast⟩ := ramp_lanes he hMentions hRefines hDefined
      have hMany : 1 < n := he.2.2.2.2.1
      rw [Meets, if_pos hKnown]
      refine Or.inl (signRight_of_sign hStride ?_)
      obtain ⟨z, hz, hLeast⟩ := hResult.min_eq
      split_ifs at hz ⊢
      · obtain rfl := Option.some.inj (hBase.symm.trans hz)
        have hNext := hLeast.2 ((hMem _).mpr ⟨1, hMany, rfl⟩)
        omega
      · obtain rfl := Option.some.inj (hLast.symm.trans hz)
        have hNext := hLeast.2 ((hMem _).mpr ⟨0, by omega, rfl⟩)
        by_contra hPos
        have := Int.mul_pos (show (0 : Int) < (n - 1 : Nat) by omega) (Int.not_le.mp hPos)
        omega
    · exact hMeets
  | _ => exact hParts

end Iff

/-- No variable has a value. -/
def Env.blank : Env := ⟨fun _ _ => none, fun _ _ => none, fun _ => 0, fun _ _ => none, fun _ _ => none⟩

/-- The numbers 10, 13, 16 and 19, each multiplied by a negative number. -/
def falling : Expr := .bin .mul (.ramp (.imm .int32 10) (.imm .int32 3) 4) (.broadcast (.imm .int32 (-2)) 4)

end Vyasa.Lanes
