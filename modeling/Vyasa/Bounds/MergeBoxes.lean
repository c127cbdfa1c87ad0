import Vyasa.SplitTuples.Simultaneous
import Vyasa.Pointwise.Basic

/-! The union of boxes that are used under a condition. The conditions of both are or-ed, and
a bound is selected by the conditions. -/
namespace Vyasa.SplitTuples.Bounds

open Binding IREquality
open CSE (typeOf)

section Code

/-- What the code calls on expressions. -/
structure Callees where
  same_as : Expr → Expr → Bool
  equal : Expr → Expr → Bool
  simplify : Expr → Expr
  make_min : Expr → Expr → Expr
  make_max : Expr → Expr → Expr

def or (a b : Expr) : Expr := .app (.Binary .Or bool) (.cons a (.cons b .nil))

def select (condition true_value false_value : Expr) : Expr :=
  .app (.Select (typeOf true_value)) (.cons condition (.cons true_value (.cons false_value .nil)))

variable (callees : Callees)

/-- `same_as` of two ends. -/
def sameBound : Bound → Bound → Bool
  | .expr x, .expr y => callees.same_as x y
  | .neg_inf, .neg_inf | .pos_inf, .pos_inf => true
  | _, _ => false

/-- The condition, if the box may be unused. -/
def condition (b : Box) : Option Expr := if b.maybe_unused then b.used else none

/-- One of the two conditions is the other one negated. -/
def complementary (used used' : Option Expr) : Bool :=
  match used, used' with
  | some u, some v => callees.equal u (not v) || callees.equal (not u) v
  | _, _ => false

/-- The end of the union, given the ends of both intervals and that of their hull. -/
def merged (used used' : Option Expr) (hull x y : Expr) : Expr :=
  match used, used' with
  | some u, some v =>
    if complementary callees used used' then select u x y else select (and u v) hull (select u x y)
  | some u, none => select u hull y
  | none, some v => select v hull x
  | none, none => hull

def mergeMin (used used' : Option Expr) (a b : Interval) : Bound :=
  if sameBound callees a.min b.min then a.min
  else match a.has_lower_bound && b.has_lower_bound, a.min, b.min with
    | true, .expr x, .expr y => .expr (callees.simplify (merged callees used used' (callees.make_min x y) x y))
    | _, _, _ => .neg_inf

def mergeMax (used used' : Option Expr) (a b : Interval) : Bound :=
  if sameBound callees a.max b.max then a.max
  else match a.has_upper_bound && b.has_upper_bound, a.max, b.max with
    | true, .expr x, .expr y => .expr (callees.simplify (merged callees used used' (callees.make_max x y) x y))
    | _, _, _ => .pos_inf

/-- The upper end is merged when the lower one has been replaced. -/
def mergeInterval (used used' : Option Expr) (a b : Interval) : Interval :=
  let a := { a with min := mergeMin callees used used' a b }
  { a with max := mergeMax callees used used' a b }

def mergeUsed (used used' : Option Expr) : Option Expr :=
  match used, used' with
  | some u, some v =>
    if callees.equal u v then some u
    else
      let w := callees.simplify (or u v)
      if is_one w then none else some w
  | _, _ => none

/-- A box without dimensions stands for no box. -/
def merge_boxes (a b : Box) : Option Box :=
  if b.empty then some a
  else if a.empty then some b
  else if a.size ≠ b.size then none
  else some {
    used := mergeUsed callees (condition a) (condition b)
    bounds := a.bounds.zipWith (mergeInterval callees (condition a) (condition b)) b.bounds }

/-- The boxes that merges of these boxes lead to, in any order. -/
inductive Merges : List Box → Box → Prop where
  | one (b : Box) : Merges [b] b
  | merge {l l' : List Box} {a b r : Box} (left : Merges l a) (right : Merges l' b)
      (h : merge_boxes callees a b = some r) : Merges (l ++ l') r

end Code

section Meaning

variable {V : Type} (sem : Semantics V)

abbrev exprValue (ρ : String → V) (e : Expr) : V := e.eval sem.value ρ

/-- The nodes that a union is made of have their meaning. -/
structure Selects : Prop where
  or_eq : ∀ a b, sem.value (.Binary .Or bool) [sem.boolean a, sem.boolean b] = sem.boolean (a || b)
  select_eq : ∀ type c x y, sem.value (.Select type) [sem.boolean c, x, y] = if c then x else y

/-- Equal and simplified expressions have the value, and the hull has the smaller and the
larger end. -/
structure Callees.Sound (callees : Callees) : Prop where
  same_as : ∀ ρ x y, callees.same_as x y → exprValue sem ρ x = exprValue sem ρ y
  equal : ∀ ρ x y, callees.equal x y → exprValue sem ρ x = exprValue sem ρ y
  simplify : ∀ ρ e, exprValue sem ρ (callees.simplify e) = exprValue sem ρ e
  make_min : ∀ ρ x y m n, exprValue sem ρ x = sem.ofInt m → exprValue sem ρ y = sem.ofInt n →
    exprValue sem ρ (callees.make_min x y) = sem.ofInt (min m n)
  make_max : ∀ ρ x y m n, exprValue sem ρ x = sem.ofInt m → exprValue sem ρ y = sem.ofInt n →
    exprValue sem ρ (callees.make_max x y) = sem.ofInt (max m n)

/-- The box is in use. -/
def Held (ρ : String → V) (b : Box) : Prop := exprValue sem ρ (usedOr b) = sem.boolean true

/-- The expression, if the end is one, has an integer value. -/
def TypedBound (ρ : String → V) (b : Bound) : Prop := ∀ e, b = .expr e → ∃ n, exprValue sem ρ e = sem.ofInt n

/-- The condition is a truth value and the bounds are integers. -/
structure Typed (ρ : String → V) (b : Box) : Prop where
  used : ∃ c, exprValue sem ρ (usedOr b) = sem.boolean c
  bounds : ∀ i ∈ b.bounds, TypedBound sem ρ i.min ∧ TypedBound sem ρ i.max

end Meaning

section Sound

variable {V : Type} {sem : Semantics V} {ρ : String → V} {callees : Callees} {used used' : Option Expr}
  {a b r : Box} {i j : Interval} {c c' : Bool} {z : Int}

/-- The truth value of a condition, which is true if there is none. -/
def Truth (sem : Semantics V) (ρ : String → V) (used : Option Expr) (c : Bool) : Prop :=
  exprValue sem ρ (used.getD const_true) = sem.boolean c

theorem usedOr_eq (b : Box) : usedOr b = (condition b).getD const_true := by
  unfold usedOr condition
  split_ifs <;> rfl

theorem Truth.none (h : Truth sem ρ none c) : c = true := by
  cases c with
  | true => rfl
  | false => exact absurd (sem.true_eq.symm.trans h) sem.boolean_ne

theorem boolean_inj (h : sem.boolean c = sem.boolean c') : c = c' := by
  cases c <;> cases c'
  · rfl
  · exact absurd h.symm sem.boolean_ne
  · exact absurd h sem.boolean_ne
  · rfl

theorem value_not {u : Expr} (h : exprValue sem ρ u = sem.boolean c) :
    exprValue sem ρ (SplitTuples.not u) = sem.boolean (!c) := by
  simp only [exprValue] at h ⊢
  rw [SplitTuples.not, Term.eval, Terms.eval, Terms.eval, h, sem.not_eq]

theorem value_and {u v : Expr} (h : exprValue sem ρ u = sem.boolean c) (h' : exprValue sem ρ v = sem.boolean c') :
    exprValue sem ρ (SplitTuples.and u v) = sem.boolean (c && c') := by
  simp only [exprValue] at h h' ⊢
  rw [SplitTuples.and, Term.eval, Terms.eval, Terms.eval, Terms.eval, h, h', sem.and_eq]

variable (hSelects : Selects sem) (hSound : callees.Sound sem)

include hSelects in
theorem value_or {u v : Expr} (h : exprValue sem ρ u = sem.boolean c) (h' : exprValue sem ρ v = sem.boolean c') :
    exprValue sem ρ (or u v) = sem.boolean (c || c') := by
  simp only [exprValue] at h h' ⊢
  rw [or, Term.eval, Terms.eval, Terms.eval, Terms.eval, h, h', hSelects.or_eq]

include hSelects in
theorem value_select {u x y : Expr} (h : exprValue sem ρ u = sem.boolean c) :
    exprValue sem ρ (select u x y) = if c then exprValue sem ρ x else exprValue sem ρ y := by
  simp only [exprValue] at h ⊢
  rw [select, Term.eval, Terms.eval, Terms.eval, Terms.eval, Terms.eval, h, hSelects.select_eq]

include hSound in
/-- Exactly one of two complementary conditions holds. -/
theorem truth_of_complementary (hComplementary : complementary callees used used' = true)
    (h : Truth sem ρ used c) (h' : Truth sem ρ used' c') : c' = !c := by
  cases used with
  | none => cases hComplementary
  | some u =>
    cases used' with
    | none => cases hComplementary
    | some v =>
      rcases Bool.or_eq_true_iff.mp hComplementary with hEq | hEq
      · have hValue := (h.symm.trans (hSound.equal ρ _ _ hEq)).trans (value_not h')
        rw [boolean_inj hValue, Bool.not_not]
      · have hValue := ((value_not h).symm.trans (hSound.equal ρ _ _ hEq)).trans h'
        exact (boolean_inj hValue).symm

include hSelects hSound in
/-- The hull is taken if both boxes are in use, and otherwise the end of the one that is. -/
theorem value_merged (h : Truth sem ρ used c) (h' : Truth sem ρ used' c') (hull x y : Expr) :
    exprValue sem ρ (merged callees used used' hull x y) =
      if c && c' then exprValue sem ρ hull else if c then exprValue sem ρ x else exprValue sem ρ y := by
  unfold merged
  cases used with
  | some u =>
    have hu : exprValue sem ρ u = sem.boolean c := h
    cases used' with
    | some v =>
      have hv : exprValue sem ρ v = sem.boolean c' := h'
      dsimp only
      by_cases hComplementary : complementary callees (some u) (some v) = true
      · rw [if_pos hComplementary, value_select hSelects hu, truth_of_complementary hSound hComplementary h h', Bool.and_not_self,
          if_neg Bool.false_ne_true]
      · rw [if_neg hComplementary, value_select hSelects (value_and hu hv), value_select hSelects hu]
    | none =>
      rw [value_select hSelects hu, h'.none, Bool.and_true]
      split_ifs <;> rfl
  | none =>
    rw [h.none]
    cases used' with
    | some v =>
      have hv : exprValue sem ρ v = sem.boolean c' := h'
      rw [value_select hSelects hv, Bool.true_and, if_pos rfl]
    | none => rw [h'.none, Bool.true_and, if_pos rfl]

/-- A lower end at or below the index. -/
def Below (sem : Semantics V) (ρ : String → V) (b : Bound) (z : Int) : Prop :=
  ∀ e, b = .expr e → ∃ n, exprValue sem ρ e = sem.ofInt n ∧ n ≤ z

def Above (sem : Semantics V) (ρ : String → V) (b : Bound) (z : Int) : Prop :=
  ∀ e, b = .expr e → ∃ n, exprValue sem ρ e = sem.ofInt n ∧ z ≤ n

theorem contains_iff : i.Contains sem sem.value ρ z ↔
    (i.min ≠ .pos_inf ∧ Below sem ρ i.min z) ∧ i.max ≠ .neg_inf ∧ Above sem ρ i.max z := by
  have hEmpty : i.is_empty = false ↔ i.min ≠ .pos_inf ∧ i.max ≠ .neg_inf := by
    obtain ⟨min, max⟩ := i
    cases min <;> cases max <;> simp [SplitTuples.Interval.is_empty]
  constructor
  · rintro ⟨hNonempty, hLower, hUpper⟩
    obtain ⟨hMin, hMax⟩ := hEmpty.mp hNonempty
    exact ⟨⟨hMin, hLower⟩, hMax, hUpper⟩
  · rintro ⟨⟨hMin, hLower⟩, hMax, hUpper⟩
    exact ⟨hEmpty.mpr ⟨hMin, hMax⟩, hLower, hUpper⟩

include hSound in
theorem below_of_same {x y : Bound} (hSame : sameBound callees x y = true) (hy : y ≠ .pos_inf)
    (h : Below sem ρ y z) : x ≠ .pos_inf ∧ Below sem ρ x z := by
  cases x with
  | neg_inf => exact ⟨nofun, nofun⟩
  | pos_inf =>
    cases y with
    | pos_inf => exact absurd rfl hy
    | _ => cases hSame
  | expr x =>
    cases y with
    | expr y =>
      obtain ⟨n, hn, hLe⟩ := h y rfl
      refine ⟨nofun, fun e he => ?_⟩
      cases he
      exact ⟨n, (hSound.same_as ρ x y hSame).trans hn, hLe⟩
    | _ => cases hSame

include hSound in
theorem above_of_same {x y : Bound} (hSame : sameBound callees x y = true) (hy : y ≠ .neg_inf)
    (h : Above sem ρ y z) : x ≠ .neg_inf ∧ Above sem ρ x z := by
  cases x with
  | pos_inf => exact ⟨nofun, nofun⟩
  | neg_inf =>
    cases y with
    | neg_inf => exact absurd rfl hy
    | _ => cases hSame
  | expr x =>
    cases y with
    | expr y =>
      obtain ⟨n, hn, hLe⟩ := h y rfl
      refine ⟨nofun, fun e he => ?_⟩
      cases he
      exact ⟨n, (hSound.same_as ρ x y hSame).trans hn, hLe⟩
    | _ => cases hSame

include hSelects hSound in
/-- The value of a merged end, if both ends have values. -/
theorem merged_eq (h : Truth sem ρ used c) (h' : Truth sem ρ used' c') {hull x y : Expr} {m n k : Int}
    (hx : exprValue sem ρ x = sem.ofInt m) (hy : exprValue sem ρ y = sem.ofInt n)
    (hHull : exprValue sem ρ hull = sem.ofInt k) :
    exprValue sem ρ (callees.simplify (merged callees used used' hull x y)) =
      sem.ofInt (if c && c' then k else if c then m else n) := by
  rw [hSound.simplify, value_merged hSelects hSound h h', hx, hy, hHull]
  split_ifs <;> rfl

include hSelects hSound in
/-- The lower end of the union is at or below the points of each interval that is in use. -/
theorem mergeMin_spec (h : Truth sem ρ used c) (h' : Truth sem ρ used' c') (hi : TypedBound sem ρ i.min)
    (hj : TypedBound sem ρ j.min) :
    TypedBound sem ρ (mergeMin callees used used' i j) ∧
      ((c = true ∧ i.min ≠ .pos_inf ∧ Below sem ρ i.min z) ∨ (c' = true ∧ j.min ≠ .pos_inf ∧ Below sem ρ j.min z) →
        mergeMin callees used used' i j ≠ .pos_inf ∧ Below sem ρ (mergeMin callees used used' i j) z) := by
  unfold mergeMin
  split_ifs with hSame
  · refine ⟨hi, ?_⟩
    rintro (⟨-, hMin⟩ | ⟨-, hMin⟩)
    · exact hMin
    · exact below_of_same hSound hSame hMin.1 hMin.2
  · split
    next x y hBounded hx hy =>
      obtain ⟨m, hm⟩ := hi x hx
      obtain ⟨n, hn⟩ := hj y hy
      have hValue (m n : Int) (hm : exprValue sem ρ x = sem.ofInt m) (hn : exprValue sem ρ y = sem.ofInt n) :=
        merged_eq hSelects hSound h h' hm hn (hSound.make_min ρ x y m n hm hn)
      refine ⟨fun e he => ?_, fun hUse => ⟨nofun, fun e he => ?_⟩⟩
      · cases he
        exact ⟨_, hValue m n hm hn⟩
      · cases he
        rcases hUse with ⟨rfl, -, hBelow⟩ | ⟨rfl, -, hBelow⟩
        · obtain ⟨m, hm, hLe⟩ := hBelow x hx
          refine ⟨_, hValue m n hm hn, ?_⟩
          simp only [Bool.true_and, if_true]
          split_ifs
          · exact (min_le_left m n).trans hLe
          · exact hLe
        · obtain ⟨n, hn, hLe⟩ := hBelow y hy
          refine ⟨_, hValue m n hm hn, ?_⟩
          rw [Bool.and_true]
          split_ifs
          · exact (min_le_right m n).trans hLe
          · exact hLe
    next => exact ⟨nofun, fun _ => ⟨nofun, nofun⟩⟩

include hSelects hSound in
/-- The upper end of the union is at or above the points of each interval that is in use. -/
theorem mergeMax_spec (h : Truth sem ρ used c) (h' : Truth sem ρ used' c') (hi : TypedBound sem ρ i.max)
    (hj : TypedBound sem ρ j.max) :
    TypedBound sem ρ (mergeMax callees used used' i j) ∧
      ((c = true ∧ i.max ≠ .neg_inf ∧ Above sem ρ i.max z) ∨ (c' = true ∧ j.max ≠ .neg_inf ∧ Above sem ρ j.max z) →
        mergeMax callees used used' i j ≠ .neg_inf ∧ Above sem ρ (mergeMax callees used used' i j) z) := by
  unfold mergeMax
  split_ifs with hSame
  · refine ⟨hi, ?_⟩
    rintro (⟨-, hMax⟩ | ⟨-, hMax⟩)
    · exact hMax
    · exact above_of_same hSound hSame hMax.1 hMax.2
  · split
    next x y hBounded hx hy =>
      obtain ⟨m, hm⟩ := hi x hx
      obtain ⟨n, hn⟩ := hj y hy
      have hValue (m n : Int) (hm : exprValue sem ρ x = sem.ofInt m) (hn : exprValue sem ρ y = sem.ofInt n) :=
        merged_eq hSelects hSound h h' hm hn (hSound.make_max ρ x y m n hm hn)
      refine ⟨fun e he => ?_, fun hUse => ⟨nofun, fun e he => ?_⟩⟩
      · cases he
        exact ⟨_, hValue m n hm hn⟩
      · cases he
        rcases hUse with ⟨rfl, -, hAbove⟩ | ⟨rfl, -, hAbove⟩
        · obtain ⟨m, hm, hLe⟩ := hAbove x hx
          refine ⟨_, hValue m n hm hn, ?_⟩
          simp only [Bool.true_and, if_true]
          split_ifs
          · exact hLe.trans (le_max_left m n)
          · exact hLe
        · obtain ⟨n, hn, hLe⟩ := hAbove y hy
          refine ⟨_, hValue m n hm hn, ?_⟩
          rw [Bool.and_true]
          split_ifs
          · exact hLe.trans (le_max_right m n)
          · exact hLe
    next => exact ⟨nofun, fun _ => ⟨nofun, nofun⟩⟩

include hSelects hSound in
theorem mergeInterval_spec (h : Truth sem ρ used c) (h' : Truth sem ρ used' c')
    (hi : TypedBound sem ρ i.min ∧ TypedBound sem ρ i.max) (hj : TypedBound sem ρ j.min ∧ TypedBound sem ρ j.max) :
    (TypedBound sem ρ (mergeInterval callees used used' i j).min ∧
      TypedBound sem ρ (mergeInterval callees used used' i j).max) ∧
      ((c = true ∧ i.Contains sem sem.value ρ z) ∨ (c' = true ∧ j.Contains sem sem.value ρ z) →
        (mergeInterval callees used used' i j).Contains sem sem.value ρ z) := by
  obtain ⟨hTypedMin, hMin⟩ := mergeMin_spec (z := z) hSelects hSound h h' hi.1 hj.1
  obtain ⟨hTypedMax, hMax⟩ := mergeMax_spec (z := z) (i := { i with min := mergeMin callees used used' i j })
    hSelects hSound h h' hi.2 hj.2
  refine ⟨⟨hTypedMin, hTypedMax⟩, fun hUse => ?_⟩
  rw [contains_iff, contains_iff] at hUse
  rw [contains_iff]
  rcases hUse with ⟨hc, hLower, hUpper⟩ | ⟨hc, hLower, hUpper⟩
  · exact ⟨hMin (Or.inl ⟨hc, hLower⟩), hMax (Or.inl ⟨hc, hUpper⟩)⟩
  · exact ⟨hMin (Or.inr ⟨hc, hLower⟩), hMax (Or.inr ⟨hc, hUpper⟩)⟩

include hSelects hSound in
/-- The union is in use if one of the boxes is. -/
theorem mergeUsed_spec (h : Truth sem ρ used c) (h' : Truth sem ρ used' c') (bounds : List Interval) :
    ∃ c'', exprValue sem ρ (usedOr ⟨mergeUsed callees used used', bounds⟩) = sem.boolean c'' ∧
      ((c || c') = true → c'' = true) := by
  have hAlways : exprValue sem ρ const_true = sem.boolean true := sem.true_eq
  have hMerged (w : Expr) (hw : mergeUsed callees used used' = some w) :
      exprValue sem ρ w = sem.boolean (c || c') := by
    unfold mergeUsed at hw
    split at hw
    next u v =>
      have hu : exprValue sem ρ u = sem.boolean c := h
      have hv : exprValue sem ρ v = sem.boolean c' := h'
      dsimp only at hw
      split_ifs at hw with hEqual hOne
      · cases hw
        have hSame : c = c' := boolean_inj (hu.symm.trans ((hSound.equal ρ _ _ hEqual).trans hv))
        rw [hu, hSame, Bool.or_self]
      · cases hw
        rw [hSound.simplify]
        exact value_or hSelects hu hv
    next => cases hw
  rw [usedOr_eq]
  unfold condition
  split_ifs with hMaybe
  · cases hUsed : mergeUsed callees used used' with
    | none => exact ⟨true, hAlways, fun _ => rfl⟩
    | some w => exact ⟨c || c', hMerged w hUsed, fun h => h⟩
  · exact ⟨true, hAlways, fun _ => rfl⟩

/-- The box covers the other one: it is in use when that is, and has its points. -/
structure Covers (sem : Semantics V) (ρ : String → V) (r b : Box) : Prop where
  held : Held sem ρ b → Held sem ρ r
  contains : ∀ x, b.Contains sem sem.value ρ x → r.Contains sem sem.value ρ x

theorem Covers.refl (b : Box) : Covers sem ρ b b := ⟨fun h => h, fun _ h => h⟩

theorem Covers.trans {d : Box} (h : Covers sem ρ r b) (h' : Covers sem ρ b d) : Covers sem ρ r d :=
  ⟨fun hd => h.held (h'.held hd), fun x hx => h.contains x (h'.contains x hx)⟩

theorem empty_iff (b : Box) : b.empty = true ↔ b.size = 0 := by
  rw [Box.empty, Box.size, List.isEmpty_iff, List.length_eq_zero_iff]

include hSelects hSound in
/-- The union of two boxes of the same dimensions covers both. -/
theorem merge_boxes_covers (ha : Typed sem ρ a) (hb : Typed sem ρ b) (hSize : a.size = b.size) (hDims : a.size ≠ 0) :
    ∃ r, merge_boxes callees a b = some r ∧ Typed sem ρ r ∧ r.size = a.size ∧ Covers sem ρ r a ∧
      Covers sem ρ r b := by
  obtain ⟨c, hc⟩ := ha.used
  obtain ⟨c', hc'⟩ := hb.used
  have hTruth : Truth sem ρ (condition a) c := by rwa [usedOr_eq] at hc
  have hTruth' : Truth sem ρ (condition b) c' := by rwa [usedOr_eq] at hc'
  obtain ⟨c'', hUsed, hOr⟩ := mergeUsed_spec hSelects hSound hTruth hTruth'
    (a.bounds.zipWith (mergeInterval callees (condition a) (condition b)) b.bounds)
  have hHeldA : Held sem ρ a → c = true := fun h => boolean_inj (hc.symm.trans h)
  have hHeldB : Held sem ρ b → c' = true := fun h => boolean_inj (hc'.symm.trans h)
  have hStep (i : Interval) (hi : i ∈ a.bounds) (j : Interval) (hj : j ∈ b.bounds) (z : Int) :=
    mergeInterval_spec (z := z) hSelects hSound hTruth hTruth' (ha.bounds i hi) (hb.bounds j hj)
  refine ⟨⟨_, _⟩, ?_, ⟨⟨c'', hUsed⟩, fun i hi => ?_⟩, ?_, ⟨fun h => ?_, fun x hx => ⟨?_, ?_⟩⟩,
    ⟨fun h => ?_, fun x hx => ⟨?_, ?_⟩⟩⟩
  · rw [merge_boxes, if_neg (by rw [empty_iff]; omega), if_neg (by rwa [empty_iff]), if_neg (not_not.mpr hSize)]
  · obtain ⟨i', hi', j, hj, rfl⟩ := Pointwise.exists_of_mem_zipWith hi
    exact (hStep i' hi' j hj 0).1
  · exact (List.length_zipWith ..).trans (by rw [← Box.size, ← Box.size, ← hSize, min_self])
  · rw [Held, hUsed, hOr (by rw [hHeldA h, Bool.true_or])]
  · rw [← exprValue, hUsed, hOr (by rw [hHeldA hx.1, Bool.true_or])]
  · exact Pointwise.zipWith hx.2 hSize fun i hi j hj z hz => (hStep i hi j hj z).2 (Or.inl ⟨hHeldA hx.1, hz⟩)
  · rw [Held, hUsed, hOr (by rw [hHeldB h, Bool.or_true])]
  · rw [← exprValue, hUsed, hOr (by rw [hHeldB hx.1, Bool.or_true])]
  · rw [List.zipWith_comm]
    exact Pointwise.zipWith hx.2 hSize.symm fun j hj i hi z hz =>
      (hStep i hi j hj z).2 (Or.inr ⟨hHeldB hx.1, hz⟩)

/-- Boxes of one number of dimensions, and boxes that stand for none. -/
def Sized (n : Nat) (b : Box) : Prop := b.size = n ∨ b = ⟨none, []⟩

end Sound

section Integers

/-- Integers with disjunctions and selections. -/
def choices : Semantics Int where
  value
    | .Binary .Or _, [a, b] => max a b
    | .Select _, [c, x, y] => if c = 1 then x else y
    | op, vs => integers.value op vs
  toInt := id
  ofInt := id
  boolean := integers.boolean
  boolean_ne := integers.boolean_ne
  true_eq := rfl
  and_eq := integers.and_eq
  not_eq := integers.not_eq
  ge_eq := integers.ge_eq

theorem selects_choices : Selects choices where
  or_eq a b := by cases a <;> cases b <;> rfl
  select_eq type c x y := by cases c <;> rfl

/-- Constants are folded, and nothing else is done. -/
def folding : Callees where
  same_as _ _ := false
  equal _ _ := false
  simplify := id
  make_min
    | .app (.IntImm type m) .nil, .app (.IntImm _ n) .nil => .app (.IntImm type (min m n)) .nil
    | x, y => .app (.Binary .Min int32) (.cons x (.cons y .nil))
  make_max
    | .app (.IntImm type m) .nil, .app (.IntImm _ n) .nil => .app (.IntImm type (max m n)) .nil
    | x, y => .app (.Binary .Max int32) (.cons x (.cons y .nil))

theorem sound_folding : folding.Sound choices where
  same_as _ _ _ := nofun
  equal _ _ _ := nofun
  simplify _ _ := rfl
  make_min ρ x y m n hx hy := by
    cases hx
    cases hy
    unfold folding
    dsimp only
    split <;> rfl
  make_max ρ x y m n hx hy := by
    cases hx
    cases hy
    unfold folding
    dsimp only
    split <;> rfl

/-- One point on a line. -/
def pointAt (n : Int) : Box := ⟨none, [⟨.expr (intImm n), .expr (intImm n)⟩]⟩

theorem typed_pointAt (ρ : String → Int) (n : Int) : Typed choices ρ (pointAt n) where
  used := ⟨true, rfl⟩
  bounds := by
    intro i hi
    cases List.mem_singleton.mp hi
    constructor
    · intro e he
      exact ⟨_, rfl⟩
    · intro e he
      exact ⟨_, rfl⟩

end Integers

end Vyasa.SplitTuples.Bounds
