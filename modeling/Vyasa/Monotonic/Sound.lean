import Vyasa.Lanes.Eval
import Vyasa.Monotonic.Visitor

/-! What the analysis answers is how the value moves, where every constant has the sign that
it is taken to have. -/
namespace Vyasa.Lanes

open Word IRMatch Trend

/-- The expression is taken for a constant with a sign. -/
def SignRead (e : Expr) : Prop := e.is_positive_const = true ∨ e.is_negative_const = true

/-- The value has the sign that is read off the expression. -/
def SignIs (e : Expr) (v : Int) : Prop :=
  (e.is_positive_const = true → 0 ≤ v) ∧ (e.is_negative_const = true → v ≤ 0)

def KeepsSign (e : Expr) : Prop := ∀ ρ i v, lane checked ρ e i = some v → SignIs e v

mutual

/-- The signs of factors and divisors are as they are taken to be, where the other operand
may depend on the variable. -/
def SignsKept : (Name → Bool) → Expr → Prop
  | _, .imm _ _ | _, .stringImm _ | _, .var _ _ _ => True
  | D, .cast _ a | D, .not a | D, .broadcast a _ => SignsKept D a
  | D, .bin .mul a b => SignsKept D a ∧ SignsKept D b ∧ (b.mentions D = true → KeepsSign a) ∧
      (a.mentions D = true → KeepsSign b)
  | D, .bin .div a b => SignsKept D a ∧ SignsKept D b ∧ (a.mentions D = true → KeepsSign b)
  | D, .bin _ a b | D, .cmp _ a b | D, .ramp a b _ | D, .load _ _ _ a b =>
      SignsKept D a ∧ SignsKept D b
  | D, .select c t f => SignsKept D c ∧ SignsKept D t ∧ SignsKept D f
  | D, .call _ _ _ args => SignsKeptAll D args
  | D, .letIn name value body => SignsKept D value ∧
      SignsKept (Function.update D name (value.mentions D)) body
  | D, .shuffle _ vectors _ => SignsKeptAll D vectors

def SignsKeptAll : (Name → Bool) → List Expr → Prop
  | _, [] => True
  | D, a :: rest => SignsKept D a ∧ SignsKeptAll D rest

end

/-- What is proved is true in every lane that has a value. -/
def ProvesTrue (can_prove : Expr → Bool) : Prop :=
  ∀ e, can_prove e = true → ∀ ρ i v, lane checked ρ e i = some v → v ≠ 0

namespace MonotonicVisitor

section Operators

variable {S T : IntType} {a b : Expr} {r ra rb rc : Trend} {x x' y y' z z' v v' : Int}

theorem two_pow_le {m n : Nat} (h : m ≤ n) : (2 : Int) ^ m ≤ 2 ^ n :=
  pow_le_pow_right₀ (by omega) h

theorem has_of_can_represent (h : can_represent T S = true) (hx : S.Has x) : T.Has x := by
  have hPos : (0 : Int) < 2 ^ (T.bits - 1) := by positivity
  unfold can_represent at h
  unfold IntType.Has IntType.min IntType.max at hx ⊢
  cases hT : T.signed <;> cases hS : S.signed <;>
    simp only [hT, hS, if_true, Bool.false_eq_true, if_false, Bool.not_true, Bool.not_false,
      Bool.true_and, Bool.false_and, Bool.or_false, Bool.false_or, decide_eq_true_eq] at h hx ⊢
  · have hPow := two_pow_le h
    omega
  · have hPow := two_pow_le (Nat.le_sub_one_of_lt h)
    omega
  · have hPow := two_pow_le (Nat.sub_le_sub_right h 1)
    omega

/-- A cast that keeps every value of its operand's type, or drops no bit of a checked value,
keeps the direction. -/
theorem holds_visitCast (hx : S.Has x) (hx' : S.Has x') (h : r.Holds x x')
    (hv : evalCast .checked S T x = some v) (hv' : evalCast .checked S T x' = some v') :
    (visitCast T S r).Holds v v' := by
  have hEq : ∀ {w u : Int}, evalCast .checked S T w = some u → T.Has w → u = w := by
    intro w u hu hw
    unfold evalCast at hu
    split_ifs at hu
    cases hu
    exact IntType.wrap_of_has hw
  have hFits : ∀ {w u : Int}, evalCast .checked S T w = some u → 32 ≤ S.bits → 32 ≤ T.bits →
      T.Has w := by
    intro w u hu hS hT
    unfold evalCast at hu
    by_contra hw
    rw [if_pos ⟨rfl, hS, hT, hw⟩] at hu
    cases hu
  unfold visitCast
  split_ifs with hRep hBits hConst
  · rw [hEq hv (has_of_can_represent hRep hx), hEq hv' (has_of_can_represent hRep hx')]
    exact h
  · rw [hEq hv (hFits hv hBits.1 hBits.2), hEq hv' (hFits hv' hBits.1 hBits.2)]
    exact h
  · trivial
  · obtain rfl : r = constant := not_not.mp hConst
    have hxx : x = x' := h
    subst hxx
    exact Option.some.inj (hv.symm.trans hv')

theorem arith_checked_eq_some (h : arith .checked T x = some v) : v = x := by
  simp only [arith, Option.ite_none_right_eq_some, Option.some.injEq] at h
  exact h.2.symm

theorem evalBin_div_eq_some (h : evalBin .checked T .div x y = some v) : y ≠ 0 ∧ v = x / y := by
  simp only [evalBin, Option.ite_none_left_eq_some] at h
  exact ⟨h.1, arith_checked_eq_some h.2⟩

/-- A factor of one sign keeps or reverses the direction. -/
theorem holds_mul_right (c : Int) (h : r.Holds x x') :
    (0 ≤ c → r.Holds (x * c) (x' * c)) ∧ (c ≤ 0 → r.flip.Holds (x * c) (x' * c)) :=
  ⟨fun hc => h.map fun _ _ hle => mul_le_mul_of_nonneg_right hle hc,
    fun hc => h.map_flip fun _ _ hle => mul_le_mul_of_nonpos_right hle hc⟩

theorem holds_div_right {c : Int} (hNe : c ≠ 0) (h : r.Holds x x') :
    (0 ≤ c → r.Holds (x / c) (x' / c)) ∧ (c ≤ 0 → r.flip.Holds (x / c) (x' / c)) := by
  refine ⟨fun hc => h.map fun _ _ hle => Int.ediv_le_ediv (by omega) hle, fun hc => ?_⟩
  have hNeg : ∀ w : Int, w / c = -(w / -c) := fun w => by rw [Int.ediv_neg, neg_neg]
  have hAnti : Antitone fun w : Int => -(w / -c) := fun _ _ hle =>
    neg_le_neg (Int.ediv_le_ediv (by omega) hle)
  rw [hNeg x, hNeg x']
  exact Holds.map_flip (f := fun w => -(w / -c)) hAnti h

theorem holds_visitMul (hx : ra.Holds x x') (hy : rb.Holds y y') (ha : SignRead a → x = x')
    (hb : SignRead b → y = y') (hSignA : y ≠ y' → SignIs a x) (hSignB : x ≠ x' → SignIs b y) :
    (visitMul a b ra rb).Holds (x * y) (x' * y') := by
  unfold visitMul
  split_ifs with hConst hPosA hPosB hNegA hNegB
  · obtain ⟨rfl, rfl⟩ := hConst
    exact congrArg₂ (· * ·) hx hy
  · obtain rfl := ha (.inl hPosA)
    rw [mul_comm x, mul_comm x]
    by_cases hEq : y = y'
    · exact Holds.of_eq _ (by rw [hEq])
    · exact (holds_mul_right x hy).1 ((hSignA hEq).1 hPosA)
  · obtain rfl := hb (.inl hPosB)
    by_cases hEq : x = x'
    · exact Holds.of_eq _ (by rw [hEq])
    · exact (holds_mul_right y hx).1 ((hSignB hEq).1 hPosB)
  · obtain rfl := ha (.inr hNegA)
    rw [mul_comm x, mul_comm x]
    by_cases hEq : y = y'
    · exact Holds.of_eq _ (by rw [hEq])
    · exact (holds_mul_right x hy).2 ((hSignA hEq).2 hNegA)
  · obtain rfl := hb (.inr hNegB)
    by_cases hEq : x = x'
    · exact Holds.of_eq _ (by rw [hEq])
    · exact (holds_mul_right y hx).2 ((hSignB hEq).2 hNegB)
  · trivial

theorem visitMul_eq_unknown (hConst : ¬ (ra = constant ∧ rb = constant)) (ha : ¬ SignRead a)
    (hb : ¬ SignRead b) : visitMul a b ra rb = unknown := by
  rw [visitMul, if_neg hConst, if_neg fun h => ha (.inl h), if_neg fun h => hb (.inl h),
    if_neg fun h => ha (.inr h), if_neg fun h => hb (.inr h)]

theorem not_signRead_var (T : IntType) (n : Nat) (name : Name) : ¬ SignRead (.var T n name) :=
  fun h => h.elim Bool.false_ne_true Bool.false_ne_true

theorem holds_visitDiv (hx : ra.Holds x x') (hy : rb.Holds y y') (hNe : y ≠ 0)
    (hb : SignRead b → y = y') (hSignB : x ≠ x' → SignIs b y) :
    (visitDiv b ra rb).Holds (x / y) (x' / y') := by
  unfold visitDiv
  split_ifs with hConst hPosB hNegB
  · obtain ⟨rfl, rfl⟩ := hConst
    exact congrArg₂ (· / ·) hx hy
  · obtain rfl := hb (.inl hPosB)
    by_cases hEq : x = x'
    · exact Holds.of_eq _ (by rw [hEq])
    · exact (holds_div_right hNe hx).1 ((hSignB hEq).1 hPosB)
  · obtain rfl := hb (.inr hNegB)
    by_cases hEq : x = x'
    · exact Holds.of_eq _ (by rw [hEq])
    · exact (holds_div_right hNe hx).2 ((hSignB hEq).2 hNegB)
  · trivial

theorem eq_zero_or_one (h : IntType.bool.Has x) : x = 0 ∨ x = 1 := by
  obtain ⟨hl, hu⟩ := h
  change 0 ≤ x at hl
  change x ≤ 2 ^ 1 - 1 at hu
  omega

theorem evalBin_and_eq_some {m : Mode} (hx : IntType.bool.Has x) (hy : IntType.bool.Has y)
    (h : evalBin m T .and x y = some v) : v = min x y := by
  cases h
  rcases eq_zero_or_one hx with rfl | rfl <;> rcases eq_zero_or_one hy with rfl | rfl <;> rfl

theorem evalBin_or_eq_some {m : Mode} (hx : IntType.bool.Has x) (hy : IntType.bool.Has y)
    (h : evalBin m T .or x y = some v) : v = max x y := by
  cases h
  rcases eq_zero_or_one hx with rfl | rfl <;> rcases eq_zero_or_one hy with rfl | rfl <;> rfl

theorem holds_min (hx : ra.Holds x x') (hy : rb.Holds y y') :
    (unify ra rb).Holds (min x y) (min x' y') :=
  Holds.map₂ min (fun _ _ _ hle => min_le_min_right _ hle) (fun _ _ _ hle => min_le_min_left _ hle)
    hx hy

theorem holds_max (hx : ra.Holds x x') (hy : rb.Holds y y') :
    (unify ra rb).Holds (max x y) (max x' y') :=
  Holds.map₂ max (fun _ _ _ hle => max_le_max_right _ hle) (fun _ _ _ hle => max_le_max_left _ hle)
    hx hy

theorem holds_add (hx : ra.Holds x x') (hy : rb.Holds y y') :
    (unify ra rb).Holds (x + y) (x' + y') :=
  Holds.map₂ (· + ·) (fun _ _ _ hle => Int.add_le_add_right hle _)
    (fun _ _ _ hle => Int.add_le_add_left hle _) hx hy

theorem holds_sub (hx : ra.Holds x x') (hy : rb.Holds y y') :
    (unify ra rb.flip).Holds (x - y) (x' - y') := by
  rw [sub_eq_add_neg, sub_eq_add_neg]
  exact holds_add hx (hy.map_flip fun _ _ hle => neg_le_neg hle)

/-- The operands of a truth operator are truth values. -/
theorem holds_visitBin {op : BinOp} (hx : ra.Holds x x') (hy : rb.Holds y y')
    (ha : SignRead a → x = x') (hb : SignRead b → y = y')
    (hSignA : op = .mul → y ≠ y' → SignIs a x)
    (hSignB : op = .mul ∨ op = .div → x ≠ x' → SignIs b y)
    (hBool : op = .and ∨ op = .or → IntType.bool.Has x ∧ IntType.bool.Has y ∧
      IntType.bool.Has x' ∧ IntType.bool.Has y')
    (hv : evalBin .checked T op x y = some v) (hv' : evalBin .checked T op x' y' = some v') :
    (visitBin a b ra rb op).Holds v v' := by
  cases op with
  | add =>
    rw [arith_checked_eq_some hv, arith_checked_eq_some hv']
    exact holds_add hx hy
  | sub =>
    rw [arith_checked_eq_some hv, arith_checked_eq_some hv']
    exact holds_sub hx hy
  | mul =>
    rw [arith_checked_eq_some hv, arith_checked_eq_some hv']
    exact holds_visitMul hx hy ha hb (hSignA rfl) (hSignB (.inl rfl))
  | div =>
    obtain ⟨hNe, rfl⟩ := evalBin_div_eq_some hv
    rw [(evalBin_div_eq_some hv').2]
    exact holds_visitDiv hx hy hNe hb (hSignB (.inr rfl))
  | mod => trivial
  | min =>
    cases hv
    cases hv'
    exact holds_min hx hy
  | max =>
    cases hv
    cases hv'
    exact holds_max hx hy
  | and =>
    obtain ⟨hbx, hby, hbx', hby'⟩ := hBool (.inl rfl)
    rw [evalBin_and_eq_some hbx hby hv, evalBin_and_eq_some hbx' hby' hv']
    exact holds_min hx hy
  | or =>
    obtain ⟨hbx, hby, hbx', hby'⟩ := hBool (.inr rfl)
    rw [evalBin_or_eq_some hbx hby hv, evalBin_or_eq_some hbx' hby' hv']
    exact holds_max hx hy

/-- A truth value grows where what it says goes from false to true. -/
theorem truth_le {p q : Prop} [Decidable p] [Decidable q] (h : p → q) :
    (if p then 1 else 0 : Int) ≤ if q then 1 else 0 := by
  split_ifs with hp hq
  · exact le_rfl
  · exact absurd (h hp) hq
  · exact zero_le_one
  · exact le_rfl

/-- A comparison that a greater left and a smaller right operand can only make false. -/
theorem holds_visit_lt {p : Int → Int → Prop} [DecidableRel p]
    (hp : ∀ {x x' y y'}, x' ≤ x → y ≤ y' → p x y → p x' y') (hx : ra.Holds x x') (hy : rb.Holds y y') :
    (visit_lt ra rb).Holds (if p x y then 1 else 0 : Int) (if p x' y' then 1 else 0) :=
  Holds.map₂_flip (fun x y => if p x y then 1 else 0) (fun _ _ _ hle => truth_le (hp hle le_rfl))
    (fun _ _ _ hle => truth_le (hp le_rfl hle)) hx hy

theorem holds_visitCmp (op : CmpOp) (hx : ra.Holds x x') (hy : rb.Holds y y') :
    (visitCmp ra rb op).Holds (evalCmp op x y) (evalCmp op x' y') := by
  have hEq : (visit_eq ra rb).Holds (evalCmp op x y) (evalCmp op x' y') := by
    unfold visit_eq
    split_ifs with hConst
    · obtain ⟨rfl, rfl⟩ := hConst
      exact congrArg₂ (evalCmp op) hx hy
    · trivial
  cases op with
  | eq | ne => exact hEq
  | lt => exact holds_visit_lt (p := (· < ·)) (fun hl hr h => (hl.trans_lt h).trans_le hr) hx hy
  | le => exact holds_visit_lt (p := (· ≤ ·)) (fun hl hr h => (hl.trans h).trans hr) hx hy
  | gt => exact holds_visit_lt (p := (· < ·)) (fun hl hr h => (hl.trans_lt h).trans_le hr) hy hx
  | ge => exact holds_visit_lt (p := (· ≤ ·)) (fun hl hr h => (hl.trans h).trans hr) hy hx

theorem holds_flip_not (hx : IntType.bool.Has x) (hx' : IntType.bool.Has x') (h : r.Holds x x') :
    r.flip.Holds (if x = 0 then 1 else 0 : Int) (if x' = 0 then 1 else 0) := by
  have hSub : ∀ {w : Int}, IntType.bool.Has w → (if w = 0 then 1 else 0 : Int) = 1 - w := by
    intro w hw
    rcases eq_zero_or_one hw with rfl | rfl <;> rfl
  rw [hSub hx, hSub hx']
  exact Holds.map_flip (f := (1 - ·)) (fun _ _ hle => Int.sub_le_sub_left hle 1) h

theorem switch_le {p q : Prop} [Decidable p] [Decidable q] (hx : x ≤ x') (hy : y ≤ y')
    (hOff : p → ¬ q → x ≤ y') (hOn : ¬ p → q → y ≤ x') :
    (if p then x else y) ≤ if q then x' else y' := by
  split_ifs with hp hq hq
  · exact hx
  · exact hOff hp hq
  · exact hOn hp hq
  · exact hy

/-- Both values of a select move in the unified direction, and a switch from one to the other
goes the same way. -/
theorem holds_visitSelect {ge le : Bool} (hz : IntType.bool.Has z) (hz' : IntType.bool.Has z')
    (hc : rc.Holds z z') (hx : ra.Holds x x') (hy : rb.Holds y y')
    (hGe : ge = true → y ≤ x ∧ y' ≤ x') (hLe : le = true → x ≤ y ∧ x' ≤ y') :
    (visitSelect rc ra rb ge le).Holds (if z ≠ 0 then x else y) (if z' ≠ 0 then x' else y') := by
  have hux := hx.unify_left rb
  have huy := hy.unify_right ra
  -- A condition that only moves one way is not switched the other way.
  have hKeep : ∀ {w w' : Int}, IntType.bool.Has w → IntType.bool.Has w' → w ≤ w' → w ≠ 0 → w' ≠ 0 := by
    intro w w' hw hw' hle hNe
    rcases eq_zero_or_one hw with rfl | rfl <;> rcases eq_zero_or_one hw' with rfl | rfl <;> omega
  by_cases hConst : rc = constant
  · subst hConst
    obtain rfl : z = z' := hc
    rw [visitSelect, if_pos rfl]
    by_cases hNe : z ≠ 0
    · rw [if_pos hNe, if_pos hNe]
      exact hux
    · rw [if_neg hNe, if_neg hNe]
      exact huy
  rw [visitSelect, if_neg hConst]
  by_cases hBoth : ge = true ∧ le = true
  · obtain rfl := le_antisymm (hLe hBoth.2).1 (hGe hBoth.1).1
    obtain rfl := le_antisymm (hLe hBoth.2).2 (hGe hBoth.1).2
    rw [if_pos hBoth, ite_self, ite_self]
    exact hx
  rw [if_neg hBoth]
  by_cases hInc : (unify ra rb = increasing ∨ unify ra rb = constant) ∧
      ((rc = increasing ∧ ge = true) ∨ (rc = decreasing ∧ le = true))
  · rw [if_pos hInc]
    have hxx := hux.le hInc.1
    have hyy := huy.le hInc.1
    refine switch_le hxx hyy (fun hp hq => ?_) (fun hp hq => ?_)
    · rcases hInc.2 with ⟨rfl, -⟩ | ⟨rfl, hl⟩
      · exact absurd (hKeep hz hz' hc hp) hq
      · exact (hLe hl).1.trans hyy
    · rcases hInc.2 with ⟨rfl, hg⟩ | ⟨rfl, -⟩
      · exact (hGe hg).1.trans hxx
      · exact absurd (hKeep hz' hz hc hq) hp
  rw [if_neg hInc]
  by_cases hDec : (unify ra rb = decreasing ∨ unify ra rb = constant) ∧
      ((rc = increasing ∧ le = true) ∨ (rc = decreasing ∧ ge = true))
  · rw [if_pos hDec]
    have hxx := hux.ge hDec.1
    have hyy := huy.ge hDec.1
    refine switch_le hxx hyy (fun hp hq => ?_) (fun hp hq => ?_)
    · rcases hDec.2 with ⟨rfl, hl⟩ | ⟨rfl, -⟩
      · exact hxx.trans (hLe hl).1
      · exact absurd (hKeep hz' hz hc hp) hq
    · rcases hDec.2 with ⟨rfl, -⟩ | ⟨rfl, hg⟩
      · exact absurd (hKeep hz hz' hc hq) hp
      · exact hyy.trans (hGe hg).1
  · rw [if_neg hDec]
    trivial

end Operators

/-- The constants below which there is no cast. -/
def castFree : Expr → Bool
  | .cast _ _ => false
  | .ramp a b _ => castFree a && castFree b
  | .broadcast a _ => castFree a
  | _ => true

theorem lane_of_constIs {p : Int → Bool} {P : Int → Prop} (hp : ∀ v, p v = true → P v)
    (hAdd : ∀ (v w : Int) (i : Nat), P v → P w → P (v + i * w)) {ρ : Env} :
    ∀ {e : Expr} {i : Nat} {v : Int}, castFree e = true → e.constIs p = true →
      lane checked ρ e i = some v → P v
  | .imm _ _, i, v, _, h, hv => (lane_imm_eq_some.mp hv).2 ▸ hp _ h
  | .broadcast a _, i, v, hFree, h, hv =>
    lane_of_constIs hp hAdd (e := a) hFree h (lane_broadcast_eq_some.mp hv).2
  | .ramp a b _, i, v, hFree, h, hv => by
    rw [castFree, Bool.and_eq_true] at hFree
    rw [Expr.constIs, Bool.and_eq_true] at h
    obtain ⟨-, x, y, hx, hy, hv⟩ := lane_ramp_eq_some.mp hv
    rw [arith_checked_eq_some hv]
    exact hAdd x y i (lane_of_constIs hp hAdd hFree.1 h.1 hx) (lane_of_constIs hp hAdd hFree.2 h.2 hy)

/-- Only a cast makes a constant lose the sign that is read off it. -/
theorem keepsSign_of_castFree {e : Expr} (h : castFree e = true) : KeepsSign e := by
  intro ρ i v hv
  constructor
  · intro hPos
    refine lane_of_constIs (P := (0 ≤ ·)) (fun w hw => ?_) (fun w u k hw hu => ?_) h hPos hv
    · exact (of_decide_eq_true hw).le
    · have := mul_nonneg (Int.natCast_nonneg k) hu
      omega
  · intro hNeg
    refine lane_of_constIs (P := (· ≤ 0)) (fun w hw => ?_) (fun w u k hw hu => ?_) h hNeg hv
    · exact (of_decide_eq_true hw).le
    · have := mul_nonpos_of_nonneg_of_nonpos (Int.natCast_nonneg k) hu
      omega

section Constants

variable {p : Int → Bool} {D : Name → Bool} {var : Name} {can_prove : Expr → Bool} {scope : Scope}

theorem mentions_of_constIs : ∀ {e : Expr}, e.constIs p = true → e.mentions D = false
  | .imm _ _, _ => rfl
  | .cast _ a, h => mentions_of_constIs (e := a) h
  | .broadcast a _, h => mentions_of_constIs (e := a) h
  | .ramp a b _, h => by
    rw [Expr.constIs, Bool.and_eq_true] at h
    rw [Expr.mentions, mentions_of_constIs h.1, mentions_of_constIs h.2]
    rfl

theorem SignRead.mentions {e : Expr} (h : SignRead e) : e.mentions D = false :=
  h.elim mentions_of_constIs mentions_of_constIs

theorem visit_of_constIs : ∀ {e : Expr}, e.constIs p = true → visit var can_prove scope e = constant
  | .imm _ _, _ => by rw [visit]
  | .cast _ a, h => by
    rw [visit, visit_of_constIs (e := a) h, visitCast]
    simp only [ne_eq, not_true_eq_false, if_false, ite_self]
  | .broadcast a _, h => by rw [visit, visit_of_constIs (e := a) h]
  | .ramp a b _, h => by
    rw [Expr.constIs, Bool.and_eq_true] at h
    rw [visit, visit_of_constIs h.1, visit_of_constIs h.2]
    rfl

theorem SignRead.visit {e : Expr} (h : SignRead e) : visit var can_prove scope e = constant :=
  h.elim visit_of_constIs visit_of_constIs

end Constants

section Runs

variable (var : Name) (can_prove : Expr → Bool)

/-- The names that are not in the set have one value, and every name moves as the scope says. -/
structure Moves (scope : Scope) (D : Name → Bool) (ρ ρ' : Env) : Prop extends ρ.Agrees D ρ' where
  moves : ∀ {T n name i x x'}, ρ.vars name i = some x → ρ'.vars name i = some x' →
    (visit var can_prove scope (.var T n name)).Holds x x'

variable {var can_prove}

/-- A let keeps the relation where its name is in scope with the direction of its value, or
with any direction if the value is constant. -/
theorem Moves.set {scope scope' : Scope} {D : Name → Bool} {ρ ρ' : Env}
    (h : Moves var can_prove scope D ρ ρ') {name : Name} (hName : name ≠ var) {d : Bool}
    {f f' : Nat → Option Int} (hd : d = false → f = f') {r : Trend}
    (hf : ∀ {i x x'}, f i = some x → f' i = some x' → r.Holds x x')
    (hScope : (r = constant ∧ scope' = scope) ∨ scope' = Function.update scope name (some r)) :
    Moves var can_prove scope' (Function.update D name d) (ρ.set name f) (ρ'.set name f') where
  toAgrees := h.toAgrees.set name hd
  moves {T n other i x x'} hx hx' := by
    by_cases hOther : other = name
    · subst hOther
      simp only [Env.set_vars, Function.update_self] at hx hx'
      rcases hScope with ⟨rfl, rfl⟩ | rfl
      · exact Holds.of_eq _ (hf hx hx')
      · rw [visit, if_neg hName, Function.update_self]
        exact hf hx hx'
    · simp only [Env.set_vars, Function.update_of_ne hOther] at hx hx'
      have hMoves := h.moves (T := T) (n := n) hx hx'
      rcases hScope with ⟨-, rfl⟩ | rfl
      · exact hMoves
      · rw [visit] at hMoves ⊢
        rwa [Function.update_of_ne hOther]

theorem length_visitArgs (scope : Scope) : ∀ args : List Expr,
    (visitArgs var can_prove scope args).length = args.length
  | [] => by
    rw [visitArgs]
    rfl
  | a :: args => by rw [visitArgs, List.length_cons, length_visitArgs scope args, List.length_cons]

theorem eq_of_visitAll {rs : List Trend} {vs vs' : List Int} (hRs : vs.length = rs.length)
    (hVs : vs.length = vs'.length) (hAll : ∀ r ∈ rs, r = constant)
    (h : ∀ {k : Nat} {r x x'}, rs[k]? = some r → vs[k]? = some x → vs'[k]? = some x' → r.Holds x x') :
    vs = vs' := by
  refine List.ext_getElem hVs fun k hk hk' => ?_
  have hr := hAll rs[k] (List.getElem_mem (hRs ▸ hk))
  have hx := h (List.getElem?_eq_getElem (hRs ▸ hk)) (List.getElem?_eq_getElem hk)
    (List.getElem?_eq_getElem hk')
  rwa [hr] at hx

/-- The result of a call moves as its arguments say. -/
theorem holds_visitCall {D : Name → Bool} {ρ ρ' : Env} (hρ : ρ.Agrees D ρ') {m : Mode} {T : IntType}
    {i : Nat} {callee : Callee} {rs : List Trend} {vs vs' : List Int} {v v' : Int}
    (hRs : vs.length = rs.length) (hVs : vs.length = vs'.length)
    (h : ∀ {k : Nat} {r x x'}, rs[k]? = some r → vs[k]? = some x → vs'[k]? = some x' → r.Holds x x')
    (hv : evalCall m T ρ vs i callee = some v) (hv' : evalCall m T ρ' vs' i callee = some v') :
    (visitCall rs callee).Holds v v' := by
  have hLast : vs.getLast? = some v → vs'.getLast? = some v' → (rs.getLast?.getD unknown).Holds v v' := by
    intro hx hx'
    cases hr : rs.getLast? with
    | none => trivial
    | some r =>
      rw [List.getLast?_eq_getElem?] at hr hx hx'
      rw [hRs] at hx
      rw [← hVs, hRs] at hx'
      exact h hr hx hx'
  have hSame : (visitAll rs).Holds v v' := by
    unfold visitAll
    split_ifs with hAll
    · obtain rfl := eq_of_visitAll hRs hVs hAll h
      rw [hρ.evalCall] at hv
      exact Option.some.inj (hv.symm.trans hv')
    · trivial
  cases callee with
  | likely | likely_if_innermost | return_second => exact hLast hv hv'
  | require =>
    cases hr : rs[1]? with
    | none =>
      rw [visitCall, hr]
      trivial
    | some r =>
      rw [visitCall, hr]
      exact h hr (evalCall_require_eq_some.mp hv).2 (evalCall_require_eq_some.mp hv').2
  | glsl_texture_load | fn name => exact hSame

theorem read_eq_some {m : Mode} {T : IntType} {x v : Int} (h : read m T x = some v) : v = x := by
  unfold read at h
  split_ifs at h
  exact (Option.some.inj h).symm

/-- What can be proved about the branches of a select holds of their values. -/
theorem le_of_can_prove (hProve : ProvesTrue can_prove) {op : CmpOp} {a b : Expr} {ρ : Env} {i : Nat} {x y : Int}
    (h : can_prove (.cmp op a b) = true) (hx : lane checked ρ a i = some x)
    (hy : lane checked ρ b i = some y) : evalCmp op x y ≠ 0 :=
  hProve _ h ρ i _ (lane_cmp_eq_some.mpr ⟨x, y, hx, hy, rfl⟩)

mutual

/-- The step for each kind of node: its value moves as its operands do. -/
theorem visit_sound (hProve : ProvesTrue can_prove) : ∀ (e : Expr) {Γ : Context} {scope : Scope} {D : Name → Bool} {ρ ρ' : Env}
    {i : Nat} {x x' : Int}, WellFormed Γ e → e.binds var = false → SignsKept D e →
    Moves var can_prove scope D ρ ρ' → lane checked ρ e i = some x → lane checked ρ' e i = some x' →
    (visit var can_prove scope e).Holds x x'
  | .imm T w, Γ, scope, D, ρ, ρ', i, x, x', hWell, hBinds, hSigns, hρ, hx, hx' => by
    rw [visit]
    exact (lane_imm_eq_some.mp hx).2.symm.trans (lane_imm_eq_some.mp hx').2
  | .stringImm s, Γ, scope, D, ρ, ρ', i, x, x', hWell, hBinds, hSigns, hρ, hx, hx' => by
    rw [visit]
    rw [lane_congr _ i hρ.toAgrees rfl] at hx
    exact Option.some.inj (hx.symm.trans hx')
  | .var T n name, Γ, scope, D, ρ, ρ', i, x, x', hWell, hBinds, hSigns, hρ, hx, hx' => by
    obtain ⟨-, w, hw, hRead⟩ := lane_var_eq_some.mp hx
    obtain ⟨-, w', hw', hRead'⟩ := lane_var_eq_some.mp hx'
    rw [read_eq_some hRead, read_eq_some hRead']
    exact hρ.moves hw hw'
  | .cast T a, Γ, scope, D, ρ, ρ', i, x, x', hWell, hBinds, hSigns, hρ, hx, hx' => by
    obtain ⟨w, hw, hCast⟩ := lane_cast_eq_some.mp hx
    obtain ⟨w', hw', hCast'⟩ := lane_cast_eq_some.mp hx'
    rw [visit]
    exact holds_visitCast (has_of_lane a hWell hw) (has_of_lane a hWell hw')
      (visit_sound hProve a hWell hBinds hSigns hρ hw hw') hCast hCast'
  | .bin op a b, Γ, scope, D, ρ, ρ', i, x, x', hWell, hBinds, hSigns, hρ, hx, hx' => by
    obtain ⟨hWellA, hWellB, hType, -, hBool⟩ := hWell
    rw [Expr.binds, Bool.or_eq_false_iff] at hBinds
    obtain ⟨y, z, hy, hz, hv⟩ := lane_bin_eq_some.mp hx
    obtain ⟨y', z', hy', hz', hv'⟩ := lane_bin_eq_some.mp hx'
    have hSame : ∀ {e : Expr} {w w' : Int}, lane checked ρ e i = some w → lane checked ρ' e i = some w' →
        e.mentions D = false → w = w' := by
      intro e w w' hw hw' he
      rw [lane_congr e i hρ.toAgrees he] at hw
      exact Option.some.inj (hw.symm.trans hw')
    have hParts : SignsKept D a ∧ SignsKept D b := by
      cases op
      case mul | div => exact ⟨hSigns.1, hSigns.2.1⟩
      all_goals exact hSigns
    rw [visit]
    refine holds_visitBin (visit_sound hProve a hWellA hBinds.1 hParts.1 hρ hy hy')
      (visit_sound hProve b hWellB hBinds.2 hParts.2 hρ hz hz') (fun h => hSame hy hy' (SignRead.mentions h))
      (fun h => hSame hz hz' (SignRead.mentions h)) ?_ ?_ ?_ hv hv'
    · rintro rfl hNe
      have hMentions : b.mentions D = true := by
        by_contra hNot
        exact hNe (hSame hz hz' (Bool.eq_false_iff.mpr hNot))
      exact hSigns.2.2.1 hMentions ρ i y hy
    · rintro hOp hNe
      have hMentions : a.mentions D = true := by
        by_contra hNot
        exact hNe (hSame hy hy' (Bool.eq_false_iff.mpr hNot))
      rcases hOp with rfl | rfl
      · exact hSigns.2.2.2 hMentions ρ i z hz
      · exact hSigns.2.2 hMentions ρ i z hz
    · intro hOp
      have hA := hBool hOp
      have hB := hType.symm.trans hA
      exact ⟨hA ▸ has_of_lane a hWellA hy, hB ▸ has_of_lane b hWellB hz,
        hA ▸ has_of_lane a hWellA hy', hB ▸ has_of_lane b hWellB hz'⟩
  | .cmp op a b, Γ, scope, D, ρ, ρ', i, x, x', hWell, hBinds, hSigns, hρ, hx, hx' => by
    rw [Expr.binds, Bool.or_eq_false_iff] at hBinds
    obtain ⟨y, z, hy, hz, rfl⟩ := lane_cmp_eq_some.mp hx
    obtain ⟨y', z', hy', hz', rfl⟩ := lane_cmp_eq_some.mp hx'
    rw [visit]
    exact holds_visitCmp op (visit_sound hProve a hWell.1 hBinds.1 hSigns.1 hρ hy hy')
      (visit_sound hProve b hWell.2.1 hBinds.2 hSigns.2 hρ hz hz')
  | .not a, Γ, scope, D, ρ, ρ', i, x, x', hWell, hBinds, hSigns, hρ, hx, hx' => by
    obtain ⟨y, hy, rfl⟩ := lane_not_eq_some.mp hx
    obtain ⟨y', hy', rfl⟩ := lane_not_eq_some.mp hx'
    have hType := hWell.2
    rw [visit]
    exact holds_flip_not (hType ▸ has_of_lane a hWell.1 hy) (hType ▸ has_of_lane a hWell.1 hy')
      (visit_sound hProve a hWell.1 hBinds hSigns hρ hy hy')
  | .select c a b, Γ, scope, D, ρ, ρ', i, x, x', hWell, hBinds, hSigns, hρ, hx, hx' => by
    obtain ⟨hWellC, hWellA, hWellB, hType, -⟩ := hWell
    rw [Expr.binds, Bool.or_eq_false_iff, Bool.or_eq_false_iff] at hBinds
    obtain ⟨w, y, z, hw, hy, hz, rfl⟩ := lane_select_eq_some.mp hx
    obtain ⟨w', y', z', hw', hy', hz', rfl⟩ := lane_select_eq_some.mp hx'
    have hGe : ∀ {u t : Int}, evalCmp .ge u t ≠ 0 → t ≤ u := fun h => by
      by_contra hNot
      exact h (if_neg hNot)
    have hLe : ∀ {u t : Int}, evalCmp .le u t ≠ 0 → u ≤ t := fun h => by
      by_contra hNot
      exact h (if_neg hNot)
    rw [visit]
    exact holds_visitSelect (hType ▸ has_of_lane c hWellC hw) (hType ▸ has_of_lane c hWellC hw')
      (visit_sound hProve c hWellC hBinds.1.1 hSigns.1 hρ hw hw')
      (visit_sound hProve a hWellA hBinds.1.2 hSigns.2.1 hρ hy hy')
      (visit_sound hProve b hWellB hBinds.2 hSigns.2.2 hρ hz hz')
      (fun h => ⟨hGe (le_of_can_prove hProve h hy hz), hGe (le_of_can_prove hProve h hy' hz')⟩)
      (fun h => ⟨hLe (le_of_can_prove hProve h hy hz), hLe (le_of_can_prove hProve h hy' hz')⟩)
  | .load T n name index predicate, Γ, scope, D, ρ, ρ', i, x, x', hWell, hBinds, hSigns, hρ, hx, hx' => by
    rw [Expr.binds, Bool.or_eq_false_iff] at hBinds
    obtain ⟨-, p, k, w, -, -, hk, hw, hRead⟩ := lane_load_eq_some.mp hx
    obtain ⟨-, p', k', w', -, -, hk', hw', hRead'⟩ := lane_load_eq_some.mp hx'
    have hIndex := visit_sound hProve index hWell.1 hBinds.1 hSigns.1 hρ hk hk'
    rw [visit]
    split_ifs with hConst
    · trivial
    · rw [not_not.mp hConst] at hIndex
      obtain rfl : k = k' := hIndex
      rw [hρ.mem] at hw
      obtain rfl := Option.some.inj (hw.symm.trans hw')
      exact Option.some.inj (hRead.symm.trans hRead')
  | .ramp a b n, Γ, scope, D, ρ, ρ', i, x, x', hWell, hBinds, hSigns, hρ, hx, hx' => by
    rw [Expr.binds, Bool.or_eq_false_iff] at hBinds
    obtain ⟨-, y, z, hy, hz, hv⟩ := lane_ramp_eq_some.mp hx
    obtain ⟨-, y', z', hy', hz', hv'⟩ := lane_ramp_eq_some.mp hx'
    have hb := visit_sound hProve b hWell.2.1 hBinds.2 hSigns.2 hρ hz hz'
    rw [visit, arith_checked_eq_some hv, arith_checked_eq_some hv']
    refine holds_add (visit_sound hProve a hWell.1 hBinds.1 hSigns.1 hρ hy hy') ?_
    -- Only the number of the lane multiplies the stride, and it has no sign.
    by_cases hRead : SignRead b
    · rw [SignRead.visit hRead] at hb ⊢
      exact congrArg ((i : Int) * ·) hb
    · by_cases hConst : visit var can_prove scope b = constant
      · rw [hConst] at hb ⊢
        exact congrArg ((i : Int) * ·) hb
      · rw [visitMul_eq_unknown (fun h => hConst h.2) (not_signRead_var _ _ _) hRead]
        trivial
  | .broadcast a n, Γ, scope, D, ρ, ρ', i, x, x', hWell, hBinds, hSigns, hρ, hx, hx' => by
    rw [visit]
    exact visit_sound hProve a hWell.1 hBinds hSigns hρ (lane_broadcast_eq_some.mp hx).2
      (lane_broadcast_eq_some.mp hx').2
  | .call T n callee args, Γ, scope, D, ρ, ρ', i, x, x', hWell, hBinds, hSigns, hρ, hx, hx' => by
    obtain ⟨-, vs, hvs, hv⟩ := lane_call_eq_some.mp hx
    obtain ⟨-, vs', hvs', hv'⟩ := lane_call_eq_some.mp hx'
    rw [visit]
    refine holds_visitCall hρ.toAgrees ?_ ?_
      (visitArgs_sound hProve args hWell.1 hBinds hSigns hρ hvs hvs') hv hv'
    · rw [length_laneArgs hvs, length_visitArgs]
    · rw [length_laneArgs hvs, length_laneArgs hvs']
  | .letIn name value body, Γ, scope, D, ρ, ρ', i, x, x', hWell, hBinds, hSigns, hρ, hx, hx' => by
    rw [Expr.binds, Bool.or_eq_false_iff, Bool.or_eq_false_iff, decide_eq_false_iff_not] at hBinds
    have hValue : ∀ {k y y'}, lane checked ρ value k = some y → lane checked ρ' value k = some y' →
        (visit var can_prove scope value).Holds y y' := fun hy hy' =>
      visit_sound hProve value hWell.1 hBinds.1.2 hSigns.1 hρ hy hy'
    have hSame : value.mentions D = false →
        (fun k => lane checked ρ value k) = fun k => lane checked ρ' value k :=
      fun hd => funext fun k => lane_congr value k hρ.toAgrees hd
    rw [lane] at hx hx'
    rw [visit]
    split_ifs with hConst
    · exact visit_sound hProve body hWell.2 hBinds.2 hSigns.2
        (hρ.set hBinds.1.1 hSame hValue (.inl ⟨hConst, rfl⟩)) hx hx'
    · exact visit_sound hProve body hWell.2 hBinds.2 hSigns.2
        (hρ.set hBinds.1.1 hSame hValue (.inr rfl)) hx hx'
  | .shuffle T vectors indices, Γ, scope, D, ρ, ρ', i, x, x', hWell, hBinds, hSigns, hρ, hx, hx' => by
    obtain ⟨k, hk, hv⟩ := lane_shuffle_eq_some.mp hx
    obtain ⟨k', hk', hv'⟩ := lane_shuffle_eq_some.mp hx'
    obtain rfl := Option.some.inj (hk.symm.trans hk')
    rw [visit, visitAll]
    split_ifs with hAll
    · exact laneAt_sound hProve vectors hWell.1 hBinds hSigns hρ hAll hv hv'
    · trivial

theorem visitArgs_sound (hProve : ProvesTrue can_prove) : ∀ (args : List Expr) {Γ : Context} {scope : Scope} {D : Name → Bool}
    {ρ ρ' : Env} {i : Nat} {vs vs' : List Int}, WellFormedAll Γ args → Expr.bindsAny var args = false →
    SignsKeptAll D args → Moves var can_prove scope D ρ ρ' → laneArgs checked ρ args i = some vs →
    laneArgs checked ρ' args i = some vs' →
    ∀ {k : Nat} {r : Trend} {x x' : Int}, (visitArgs var can_prove scope args)[k]? = some r →
      vs[k]? = some x → vs'[k]? = some x' → r.Holds x x'
  | [], Γ, scope, D, ρ, ρ', i, vs, vs', hWell, hBinds, hSigns, hρ, hvs, hvs', k, r, x, x', hr, hx, hx' => by
    rw [visitArgs] at hr
    cases hr
  | a :: args, Γ, scope, D, ρ, ρ', i, vs, vs', hWell, hBinds, hSigns, hρ, hvs, hvs', k, r, x, x', hr, hx,
      hx' => by
    rw [Expr.bindsAny, Bool.or_eq_false_iff] at hBinds
    obtain ⟨y, ys, hy, hys, rfl⟩ := laneArgs_cons_eq_some.mp hvs
    obtain ⟨y', ys', hy', hys', rfl⟩ := laneArgs_cons_eq_some.mp hvs'
    rw [visitArgs] at hr
    cases k with
    | zero =>
      cases hr
      cases hx
      cases hx'
      exact visit_sound hProve a hWell.1 hBinds.1 hSigns.1 hρ hy hy'
    | succ k => exact visitArgs_sound hProve args hWell.2 hBinds.2 hSigns.2 hρ hys hys' hr hx hx'

theorem laneAt_sound (hProve : ProvesTrue can_prove) : ∀ (vectors : List Expr) {Γ : Context} {scope : Scope} {D : Name → Bool}
    {ρ ρ' : Env} {k : Nat} {x x' : Int}, WellFormedAll Γ vectors →
    Expr.bindsAny var vectors = false → SignsKeptAll D vectors → Moves var can_prove scope D ρ ρ' →
    (∀ r ∈ visitArgs var can_prove scope vectors, r = constant) →
    laneAt checked ρ vectors k = some x → laneAt checked ρ' vectors k = some x' → x = x'
  | [], Γ, scope, D, ρ, ρ', k, x, x', hWell, hBinds, hSigns, hρ, hAll, hx, hx' => by
    rw [laneAt] at hx
    cases hx
  | a :: rest, Γ, scope, D, ρ, ρ', k, x, x', hWell, hBinds, hSigns, hρ, hAll, hx, hx' => by
    rw [Expr.bindsAny, Bool.or_eq_false_iff] at hBinds
    rw [visitArgs, List.forall_mem_cons] at hAll
    rw [laneAt] at hx hx'
    split_ifs at hx hx'
    · have ha := visit_sound hProve a hWell.1 hBinds.1 hSigns.1 hρ hx hx'
      rwa [hAll.1] at ha
    · exact laneAt_sound hProve rest hWell.2 hBinds.2 hSigns.2 hρ hAll.2 hx hx'

end

end Runs

end MonotonicVisitor

open MonotonicVisitor

/-- A prover that knows that one more is more. -/
def provesSucc : Expr → Bool
  | .cmp .ge (.bin .add (.var T n name) (.imm _ 1)) (.var T' n' name') =>
      T = T' ∧ n = n' ∧ name = name'
  | _ => false

theorem provesSucc_true : ProvesTrue provesSucc := by
  intro e h ρ i v hv
  unfold provesSucc at h
  split at h
  · obtain ⟨rfl, rfl, rfl⟩ := of_decide_eq_true h
    obtain ⟨x, y, hx, hy, rfl⟩ := lane_cmp_eq_some.mp hv
    obtain ⟨z, w, hz, hw, hSum⟩ := lane_bin_eq_some.mp hx
    obtain rfl := Option.some.inj (hz.symm.trans hy)
    obtain ⟨-, rfl⟩ := lane_imm_eq_some.mp hw
    have hEq := arith_checked_eq_some hSum
    change (if z ≤ x then 1 else 0 : Int) ≠ 0
    rw [if_pos (by omega)]
    exact one_ne_zero
  · exact absurd h Bool.false_ne_true

private abbrev x32 : Expr := .var .int32 1 (.mk "x")

private abbrev int32 (v : Int) : Expr := .imm .int32 v

private abbrev empty : Env := ⟨fun _ _ => none, fun _ _ => none, fun _ => 0, fun _ _ => none, fun _ _ => none⟩

/-- `select(x > 2, x + 1, x) * 4` -/
private abbrev grows : Expr :=
  .bin .mul (.select (.cmp .gt x32 (int32 2)) (.bin .add x32 (int32 1)) x32) (int32 4)

/-- `x * cast<int32>(cast<bool>(-1))` is `x`, as the low bit of -1 is set. -/
private abbrev timesTrue : Expr :=
  .bin .mul x32 (.cast .int32 (.cast .bool (int32 (-1))))

end Vyasa.Lanes
