import Vyasa.AICore.Parser

/-! The range that a group of loads spans: the union of the ranges of its members,
its size, and the distance of a member from its lower end, each as an expression that
is simplified. -/
namespace Vyasa.AICore

open Word IRMatch Vyasa.Expr

/-- A simplified expression has every value that the expression has, and its type. -/
structure SimplifySound (simplify : Expr → Expr) : Prop where
  value : ∀ ρ e v, exact ρ e = some v → exact ρ (simplify e) = some v
  type : ∀ e, (simplify e).type = e.type

/-- `group.extent` after all intervals have been included. -/
def includeAll (intervals : List Interval) : Interval := intervals.foldl Interval.makeUnion .nothing

def extentOf (simplify : Expr → Expr) (intervals : List Interval) : Interval :=
  (includeAll intervals).map simplify

def extentSizeOf (simplify : Expr → Expr) (extent : Interval) : Option Int :=
  match extent.min, extent.max with
  | .expr lo, .expr hi => (simplify (.add (.sub hi lo) (.imm .int32 1))).asIntImm
  | _, _ => none

/-- The distance of an address from the lower end of the group. -/
def offsetOf (simplify : Expr → Expr) (extent : Interval) (base : Expr) : Option Int :=
  match extent.min with
  | .expr lo => (simplify (.sub base lo)).asIntImm
  | _ => none

variable {ρ : Env} {simplify : Expr → Expr} {a b e : Expr} {x y v : Int} {i : Interval}

theorem exact_of_asIntImm (h : e.asIntImm = some x) : exact ρ e = some x := by
  unfold Expr.asIntImm at h
  split at h
  · split_ifs at h
    cases h
    rfl
  · cases h

/-- A constant that simplification finds is the value. -/
theorem SimplifySound.eq_of_asIntImm (hSimplify : SimplifySound simplify)
    (h : (simplify e).asIntImm = some x) (hv : exact ρ e = some v) : v = x :=
  Option.some.inj ((hSimplify.value ρ e v hv).symm.trans (exact_of_asIntImm h))

theorem arith_int32 (r : Int) : arith (modeAt .exact .int32) .int32 r = some r := by
  simp [arith, modeAt, noOverflowInt, IntType.int32]

theorem exact_sub (hType : a.type = .int32) (ha : exact ρ a = some x) (hb : exact ρ b = some y) :
    exact ρ (.sub a b) = some (x - y) := by
  rw [exact, eval_bin ha hb, hType]
  exact arith_int32 _

theorem exact_add (hType : a.type = .int32) (ha : exact ρ a = some x) (hb : exact ρ b = some y) :
    exact ρ (.add a b) = some (x + y) := by
  rw [exact, eval_bin ha hb, hType]
  exact arith_int32 _

section Types

/-- The smaller or larger of two expressions has their type. -/
theorem type_minMaxHelper {op : BinOp} {T : IntType} (ha : a.type = T) (hb : b.type = T) :
    (minMaxHelper op a b).type = T := by
  have hLift (e : Expr) (h : liftConst op a b = some e) : e.type = T := by
    unfold liftConst at h
    split at h
    case h_1 hOperands =>
      rw [operandsOf_eq_some hOperands] at ha
      split at h <;> cases h <;> exact ha
    case h_2 => cases h
  have hLiftRight (e : Expr) (h : liftConstRight op a b = some e) : e.type = T := by
    unfold liftConstRight at h
    split at h
    · cases h
      exact ha
    · cases h
  have hAbsorb (c d e : Expr) (hc : c.type = T) (h : absorb op c d = some e) : e.type = T := by
    unfold absorb at h
    split at h
    · split_ifs at h
      cases h
      exact hc
    · cases h
  unfold minMaxHelper
  split
  · exact ha
  · exact hb
  · cases hLeft : liftConst op a b with
    | some e => exact hLift e hLeft
    | none =>
      cases hRight : liftConstRight op a b with
      | some e => exact hLiftRight e hRight
      | none =>
        cases hFirst : absorb op a b with
        | some e => exact hAbsorb a b e ha hFirst
        | none =>
          cases hSecond : absorb op b a with
          | some e => exact hAbsorb b a e hb hSecond
          | none => exact ha

/-- The expressions of a bound are of type `Int(32)`. -/
abbrev Typed (b : Bound) : Prop := b.Satisfies (·.type = .int32)

theorem typed_makeMin {a b : Bound} (ha : Typed a) (hb : Typed b) : Typed (makeMin a b) := by
  unfold makeMin
  split_ifs
  · exact ha
  · split
    · exact ha
    · exact hb
    · trivial
    · trivial
    · exact type_minMaxHelper ha hb

theorem typed_makeMax {a b : Bound} (ha : Typed a) (hb : Typed b) : Typed (makeMax a b) := by
  unfold makeMax
  split_ifs
  · exact ha
  · split
    · trivial
    · trivial
    · exact ha
    · exact hb
    · exact type_minMaxHelper ha hb

end Types

/-- The range between two addresses with these values. -/
structure Ranges (ρ : Env) (i : Interval) (lo hi : Int) : Prop where
  evals : i.Evals ρ ((lo : WithTop Int) : Bound.Extended) ((hi : WithTop Int) : Bound.Extended)
  typed : Typed i.min ∧ Typed i.max

theorem ranges_of_exact (hTypes : a.type = .int32 ∧ b.type = .int32) (ha : exact ρ a = some x)
    (hb : exact ρ b = some y) : Ranges ρ ⟨.expr a, .expr b⟩ x y where
  evals := ⟨Bound.eval_expr_eq_some.mpr ⟨x, ha, rfl⟩, Bound.eval_expr_eq_some.mpr ⟨y, hb, rfl⟩⟩
  typed := hTypes

theorem exists_expr_of_eval {b : Bound} (h : b.eval ρ = some ((x : WithTop Int) : Bound.Extended)) :
    ∃ e, b = .expr e ∧ exact ρ e = some x := by
  cases b with
  | negInf => exact absurd (Option.some.inj h) (WithBot.bot_ne_coe)
  | posInf =>
    have hTop : (⊤ : Bound.Extended) = ((x : WithTop Int) : Bound.Extended) := Option.some.inj h
    exact absurd (WithBot.coe_injective hTop) WithTop.top_ne_coe
  | expr e =>
    obtain ⟨v, hv, hEq⟩ := Bound.eval_expr_eq_some.mp h
    have hx : x = v := WithTop.coe_injective (WithBot.coe_injective hEq)
    exact ⟨e, rfl, hx ▸ hv⟩

theorem Ranges.exprs {lo hi : Int} (h : Ranges ρ i lo hi) :
    ∃ a b, i = ⟨.expr a, .expr b⟩ ∧ a.type = .int32 ∧ b.type = .int32 ∧
      exact ρ a = some lo ∧ exact ρ b = some hi := by
  obtain ⟨⟨hMin, hMax⟩, hTypes⟩ := h
  obtain ⟨a, ha, hLo⟩ := exists_expr_of_eval hMin
  obtain ⟨b, hb, hHi⟩ := exists_expr_of_eval hMax
  obtain ⟨iMin, iMax⟩ := i
  subst ha hb
  exact ⟨a, b, rfl, hTypes.1, hTypes.2, hLo, hHi⟩

theorem Ranges.union {j : Interval} {lo hi lo' hi' : Int} (h : Ranges ρ i lo hi) (h' : Ranges ρ j lo' hi') :
    Ranges ρ (i.makeUnion j) (Min.min lo lo') (Max.max hi hi') where
  evals := by
    rw [Bound.coe_min, Bound.coe_max]
    exact ⟨Bound.eval_makeMin h.evals.1 h'.evals.1, Bound.eval_makeMax h.evals.2 h'.evals.2⟩
  typed := ⟨typed_makeMin h.typed.1 h'.typed.1, typed_makeMax h.typed.2 h'.typed.2⟩

/-- The union of some ranges and a first one. -/
theorem evals_foldl {ranges : List (Interval × Int × Int)} {acc : Interval} {l h : Bound.Extended}
    (hAll : ∀ r ∈ ranges, Ranges ρ r.1 r.2.1 r.2.2) (hAcc : acc.Evals ρ l h) :
    ((ranges.map (·.1)).foldl Interval.makeUnion acc).Evals ρ
      (ranges.foldl (fun l r => Min.min l ((r.2.1 : WithTop Int) : Bound.Extended)) l)
      (ranges.foldl (fun h r => Max.max h ((r.2.2 : WithTop Int) : Bound.Extended)) h) := by
  induction ranges generalizing acc l h with
  | nil => exact hAcc
  | cons r ranges ih =>
    have hHead := (hAll r List.mem_cons_self).evals
    refine ih (fun r' hr' => hAll r' (List.mem_cons_of_mem _ hr')) ⟨?_, ?_⟩
    · exact Bound.eval_makeMin hAcc.1 hHead.1
    · exact Bound.eval_makeMax hAcc.2 hHead.2

theorem typed_foldl {intervals : List Interval} {acc : Interval}
    (hAll : ∀ i ∈ intervals, Typed i.min ∧ Typed i.max) (hAcc : Typed acc.min ∧ Typed acc.max) :
    Typed (intervals.foldl Interval.makeUnion acc).min ∧
      Typed (intervals.foldl Interval.makeUnion acc).max := by
  induction intervals generalizing acc with
  | nil => exact hAcc
  | cons i intervals ih =>
    obtain ⟨hMin, hMax⟩ := hAll i List.mem_cons_self
    exact ih (fun i' hi' => hAll i' (List.mem_cons_of_mem _ hi'))
      ⟨typed_makeMin hAcc.1 hMin, typed_makeMax hAcc.2 hMax⟩

/-- The least of some values is one of them. -/
theorem foldl_min_attained {α β : Type} [LinearOrder β] (f : α → β) (first : α) (l : List α) :
    (∀ r ∈ first :: l, l.foldl (fun acc r => Min.min acc (f r)) (f first) ≤ f r) ∧
      ∃ r ∈ first :: l, l.foldl (fun acc r => Min.min acc (f r)) (f first) = f r := by
  induction l generalizing first with
  | nil => exact ⟨by simp, first, by simp⟩
  | cons r l ih =>
    rw [List.foldl_cons]
    rcases le_total (f first) (f r) with hLe | hLe
    · rw [min_eq_left hLe]
      obtain ⟨hLower, x, hx, hAt⟩ := ih first
      refine ⟨fun y hy => ?_, x, ?_, hAt⟩
      · rcases List.mem_cons.mp hy with rfl | hy
        · exact hLower _ List.mem_cons_self
        · rcases List.mem_cons.mp hy with rfl | hy
          · exact (hLower first List.mem_cons_self).trans hLe
          · exact hLower y (List.mem_cons_of_mem _ hy)
      · rcases List.mem_cons.mp hx with rfl | hx
        · exact List.mem_cons_self
        · exact List.mem_cons_of_mem _ (List.mem_cons_of_mem _ hx)
    · rw [min_eq_right hLe]
      obtain ⟨hLower, x, hx, hAt⟩ := ih r
      refine ⟨fun y hy => ?_, x, List.mem_cons_of_mem _ hx, hAt⟩
      rcases List.mem_cons.mp hy with rfl | hy
      · exact (hLower r List.mem_cons_self).trans hLe
      · exact hLower y hy

/-- The extent of a group reaches from the least lower end of its ranges to the
greatest upper one. -/
theorem extentOf_ranges (hSimplify : SimplifySound simplify) {ranges : List (Interval × Int × Int)}
    (hNonempty : ranges ≠ []) (hAll : ∀ r ∈ ranges, Ranges ρ r.1 r.2.1 r.2.2) :
    ∃ lo hi, Ranges ρ (extentOf simplify (ranges.map (·.1))) lo hi ∧
      (∀ r ∈ ranges, lo ≤ r.2.1 ∧ r.2.2 ≤ hi) ∧ (∃ r ∈ ranges, r.2.1 = lo) ∧
      ∃ r ∈ ranges, r.2.2 = hi := by
  obtain ⟨first, rest, rfl⟩ := List.exists_cons_of_ne_nil hNonempty
  have hNothing : Interval.nothing.Evals ρ ⊤ ⊥ := ⟨rfl, rfl⟩
  have hEvals := evals_foldl hAll hNothing
  rw [List.foldl_cons, List.foldl_cons, min_top_left, max_bot_left] at hEvals
  obtain ⟨hLower, x, hx, hLo⟩ := foldl_min_attained
    (fun r : Interval × Int × Int => ((r.2.1 : WithTop Int) : Bound.Extended)) first rest
  obtain ⟨hUpper, y, hy, hHi⟩ := @foldl_min_attained _ Bound.Extendedᵒᵈ _
    (fun r : Interval × Int × Int => OrderDual.toDual ((r.2.2 : WithTop Int) : Bound.Extended)) first rest
  have hMax : rest.foldl (fun h r => Max.max h ((r.2.2 : WithTop Int) : Bound.Extended))
      ((first.2.2 : WithTop Int) : Bound.Extended) = ((y.2.2 : WithTop Int) : Bound.Extended) := hHi
  rw [hLo, hMax] at hEvals
  have hNoBound : Typed Interval.nothing.min ∧ Typed Interval.nothing.max := ⟨trivial, trivial⟩
  have hTyped := typed_foldl (fun i (hi : i ∈ (first :: rest).map (·.1)) => by
      obtain ⟨r, hr, rfl⟩ := List.mem_map.mp hi
      exact (hAll r hr).typed) hNoBound
  obtain ⟨a, b, hEq, hA, hB, hLoValue, hHiValue⟩ := (Ranges.mk hEvals hTyped).exprs
  refine ⟨x.2.1, y.2.2, ?_, fun r hr => ⟨?_, ?_⟩, ⟨x, hx, rfl⟩, y, hy, rfl⟩
  · rw [extentOf, includeAll, hEq]
    exact ranges_of_exact ⟨(hSimplify.type a).trans hA, (hSimplify.type b).trans hB⟩
      (hSimplify.value ρ a _ hLoValue) (hSimplify.value ρ b _ hHiValue)
  · have hLe := hLower r hr
    rw [hLo] at hLe
    exact WithTop.coe_le_coe.mp (WithBot.coe_le_coe.mp hLe)
  · have hLe : ((r.2.2 : WithTop Int) : Bound.Extended) ≤ ((y.2.2 : WithTop Int) : Bound.Extended) :=
      hMax ▸ hUpper r hr
    exact WithTop.coe_le_coe.mp (WithBot.coe_le_coe.mp hLe)

/-- The size of an extent counts both ends. -/
theorem SimplifySound.extentSize (hSimplify : SimplifySound simplify) {lo hi size : Int}
    (h : Ranges ρ i lo hi) (hSize : extentSizeOf simplify i = some size) : size = hi - lo + 1 := by
  obtain ⟨a, b, rfl, hA, hB, hLo, hHi⟩ := h.exprs
  have hDiff := exact_sub hB hHi hLo
  have hSum : exact ρ (.add (.sub b a) (.imm .int32 1)) = some (hi - lo + 1) :=
    exact_add hB hDiff rfl
  exact (hSimplify.eq_of_asIntImm hSize hSum).symm

theorem SimplifySound.offset (hSimplify : SimplifySound simplify) {lo hi offset : Int}
    (hType : e.type = .int32) (h : Ranges ρ i lo hi) (hv : exact ρ e = some v)
    (hOffset : offsetOf simplify i e = some offset) : v = lo + offset := by
  obtain ⟨a, b, rfl, hA, hB, hLo, hHi⟩ := h.exprs
  have hEq := hSimplify.eq_of_asIntImm hOffset (exact_sub hType hv hLo)
  omega

end Vyasa.AICore
