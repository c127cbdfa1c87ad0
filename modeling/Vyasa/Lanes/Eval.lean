import Vyasa.Lanes.Expr

/-! Inversion lemmas for the values of lanes, and that values of well formed expressions are
values of their types where values are checked. -/
namespace Vyasa.Lanes

open Word IRMatch

variable {mode : IntType → Mode} {ρ : Env} {a b c : Expr} {T : IntType} {i : Nat} {v : Int}

section Inversion

theorem below_eq_some {n : Nat} {x : Option Int} : below n i x = some v ↔ i < n ∧ x = some v := by
  simp only [below, Option.ite_none_right_eq_some]

theorem lane_imm_eq_some {x : Int} : lane mode ρ (.imm T x) i = some v ↔ i < 1 ∧ x = v := by
  simp only [lane, below_eq_some, Option.some.injEq]

theorem lane_var_eq_some {n : Nat} {name : Name} : lane mode ρ (.var T n name) i = some v ↔
    i < n ∧ ∃ x, ρ.vars name i = some x ∧ read (mode T) T x = some v := by
  simp only [lane, below_eq_some, Option.bind_eq_bind, Option.bind_eq_some_iff]

theorem lane_cast_eq_some : lane mode ρ (.cast T a) i = some v ↔
    ∃ x, lane mode ρ a i = some x ∧ evalCast (mode T) a.type T x = some v := by
  simp only [lane, Option.bind_eq_bind, Option.bind_eq_some_iff]

theorem lane_bin_eq_some {op : BinOp} : lane mode ρ (.bin op a b) i = some v ↔
    ∃ x y, lane mode ρ a i = some x ∧ lane mode ρ b i = some y ∧
      evalBin (mode a.type) a.type op x y = some v := by
  simp only [lane, Option.bind_eq_bind, Option.bind_eq_some_iff]
  constructor
  · rintro ⟨x, hx, y, h⟩
    exact ⟨x, y, hx, h⟩
  · rintro ⟨x, y, hx, h⟩
    exact ⟨x, hx, y, h⟩

theorem lane_cmp_eq_some {op : CmpOp} : lane mode ρ (.cmp op a b) i = some v ↔
    ∃ x y, lane mode ρ a i = some x ∧ lane mode ρ b i = some y ∧ evalCmp op x y = v := by
  simp only [lane, Option.bind_eq_bind, Option.bind_eq_some_iff, Option.pure_def, Option.some.injEq]
  constructor
  · rintro ⟨x, hx, y, h⟩
    exact ⟨x, y, hx, h⟩
  · rintro ⟨x, y, hx, h⟩
    exact ⟨x, hx, y, h⟩

theorem lane_not_eq_some : lane mode ρ (.not a) i = some v ↔
    ∃ x, lane mode ρ a i = some x ∧ (if x = 0 then 1 else 0) = v := by
  simp only [lane, Option.bind_eq_bind, Option.bind_eq_some_iff, Option.pure_def, Option.some.injEq]

theorem lane_select_eq_some : lane mode ρ (.select c a b) i = some v ↔
    ∃ z x y, lane mode ρ c (c.laneOf i) = some z ∧ lane mode ρ a i = some x ∧
      lane mode ρ b i = some y ∧ (if z ≠ 0 then x else y) = v := by
  simp only [lane, Option.bind_eq_bind, Option.bind_eq_some_iff, Option.pure_def, Option.some.injEq]
  constructor
  · rintro ⟨z, hz, x, hx, y, hy, h⟩
    exact ⟨z, x, y, hz, hx, hy, h⟩
  · rintro ⟨z, x, y, hz, hx, hy, h⟩
    exact ⟨z, hz, x, hx, y, hy, h⟩

theorem lane_load_eq_some {n : Nat} {name : String} {index predicate : Expr} :
    lane mode ρ (.load T n name index predicate) i = some v ↔
      i < n ∧ ∃ p k x, lane mode ρ predicate i = some p ∧ p ≠ 0 ∧ lane mode ρ index i = some k ∧
        ρ.mem name k = some x ∧ read (mode T) T x = some v := by
  simp only [lane, below_eq_some, Option.bind_eq_bind, Option.bind_eq_some_iff,
    Option.ite_none_left_eq_some]
  constructor
  · rintro ⟨hi, p, hp, k, hk, hNe, x, hx, h⟩
    exact ⟨hi, p, k, x, hp, hNe, hk, hx, h⟩
  · rintro ⟨hi, p, k, x, hp, hNe, hk, hx, h⟩
    exact ⟨hi, p, hp, k, hk, hNe, x, hx, h⟩

theorem lane_ramp_eq_some {n : Nat} : lane mode ρ (.ramp a b n) i = some v ↔
    i < n ∧ ∃ x y, lane mode ρ a 0 = some x ∧ lane mode ρ b 0 = some y ∧
      arith (mode a.type) a.type (x + i * y) = some v := by
  simp only [lane, below_eq_some, Option.bind_eq_bind, Option.bind_eq_some_iff]
  constructor
  · rintro ⟨hi, x, hx, y, h⟩
    exact ⟨hi, x, y, hx, h⟩
  · rintro ⟨hi, x, y, hx, h⟩
    exact ⟨hi, x, hx, y, h⟩

theorem lane_broadcast_eq_some {n : Nat} : lane mode ρ (.broadcast a n) i = some v ↔
    i < n ∧ lane mode ρ a 0 = some v := by
  simp only [lane, below_eq_some]

theorem lane_call_eq_some {n : Nat} {callee : Callee} {args : List Expr} :
    lane mode ρ (.call T n callee args) i = some v ↔
      i < n ∧ ∃ vs, laneArgs mode ρ args i = some vs ∧
        evalCall (mode T) T ρ vs i callee = some v := by
  simp only [lane, below_eq_some, Option.bind_eq_bind, Option.bind_eq_some_iff]

theorem laneArgs_cons_eq_some {args : List Expr} {vs : List Int} :
    laneArgs mode ρ (a :: args) i = some vs ↔
      ∃ x xs, lane mode ρ a (a.laneOf i) = some x ∧ laneArgs mode ρ args i = some xs ∧
        x :: xs = vs := by
  simp only [laneArgs, Option.bind_eq_bind, Option.bind_eq_some_iff, Option.pure_def, Option.some.injEq]
  constructor
  · rintro ⟨x, hx, xs, h⟩
    exact ⟨x, xs, hx, h⟩
  · rintro ⟨x, xs, hx, h⟩
    exact ⟨x, hx, xs, h⟩

theorem lane_shuffle_eq_some {vectors : List Expr} {indices : List Nat} :
    lane mode ρ (.shuffle T vectors indices) i = some v ↔
      ∃ k, indices[i]? = some k ∧ laneAt mode ρ vectors k = some v := by
  simp only [lane, Option.bind_eq_bind, Option.bind_eq_some_iff]

end Inversion

section Types

variable {x y : Int} {m : Mode}

theorem has_of_read (h : read .checked T x = some v) : T.Has v := by
  unfold read at h
  split_ifs at h with hHas
  cases h
  simpa using hHas

theorem has_of_arith (h : arith .checked T x = some v) : T.Has v := by
  simp only [arith, Option.ite_none_right_eq_some, Option.some.injEq] at h
  exact h.2 ▸ h.1

theorem has_of_evalCast {S : IntType} (h : evalCast m S T x = some v) : T.Has v := by
  unfold evalCast at h
  split_ifs at h
  cases h
  exact T.has_wrap x

theorem has_truth (T : IntType) (p : Prop) [Decidable p] : T.Has (if p then 1 else 0) := by
  split_ifs
  · exact T.has_one
  · exact T.has_zero

theorem has_evalCmp (T : IntType) (op : CmpOp) (x y : Int) : T.Has (evalCmp op x y) := by
  cases op
  case ne =>
    change T.Has (if x = y then 0 else 1)
    split_ifs
    · exact T.has_zero
    · exact T.has_one
  all_goals exact has_truth T _

/-- The remainder by a value of the type is below its absolute value. -/
theorem has_emod (hy : T.Has y) (hNe : y ≠ 0) : T.Has (x % y) := by
  have hl := Int.emod_nonneg x hNe
  have hu := Int.emod_lt_abs x hNe
  have hZero := T.min_le_max
  have hAbs : |y| ≤ T.max + 1 := by
    have hPow := T.two_pow
    unfold IntType.Has IntType.min IntType.max at hy
    unfold IntType.max
    rw [abs_le]
    split_ifs at hy ⊢ <;> omega
  unfold IntType.Has
  omega

theorem has_of_evalBin {op : BinOp} (hx : T.Has x) (hy : T.Has y)
    (h : evalBin .checked T op x y = some v) : T.Has v := by
  cases op with
  | add | sub | mul => exact has_of_arith h
  | div =>
    simp only [evalBin, Option.ite_none_left_eq_some] at h
    exact has_of_arith h.2
  | mod =>
    simp only [evalBin, Option.ite_none_left_eq_some, Option.some.injEq] at h
    exact h.2 ▸ has_emod hy h.1
  | min =>
    cases h
    rcases min_choice x y with hMin | hMin <;> rw [hMin] <;> assumption
  | max =>
    cases h
    rcases max_choice x y with hMax | hMax <;> rw [hMax] <;> assumption
  | and | or =>
    cases h
    exact has_truth T _

end Types

/-- All values are checked. -/
abbrev checked : IntType → Mode := fun _ => .checked

theorem Callee.Passes.evalCall {m : Mode} {vs : List Int} {callee : Callee} (h : callee.Passes) :
    evalCall m T ρ vs i callee = vs.getLast? := by
  cases callee <;> first | rfl | exact h.elim

theorem evalCall_require_eq_some {m : Mode} {vs : List Int} :
    evalCall m T ρ vs i .require = some v ↔ vs[0]? ≠ some 0 ∧ vs[1]? = some v := by
  simp only [evalCall, Option.ite_none_left_eq_some, ne_eq]

theorem laneArgs_getElem? : ∀ {args : List Expr} {vs : List Int} (k : Nat) {x : Int},
    laneArgs mode ρ args i = some vs → vs[k]? = some x →
      ∃ a, args[k]? = some a ∧ lane mode ρ a (a.laneOf i) = some x
  | [], vs, k, x, h, hx => by
    cases h
    simp at hx
  | a :: args, vs, k, x, h, hx => by
    obtain ⟨y, ys, hy, hys, rfl⟩ := laneArgs_cons_eq_some.mp h
    cases k with
    | zero =>
      cases hx
      exact ⟨a, rfl, hy⟩
    | succ k => exact laneArgs_getElem? k hys hx

theorem length_laneArgs : ∀ {args : List Expr} {vs : List Int},
    laneArgs mode ρ args i = some vs → vs.length = args.length
  | [], vs, h => by
    cases h
    rfl
  | a :: args, vs, h => by
    obtain ⟨y, ys, hy, hys, rfl⟩ := laneArgs_cons_eq_some.mp h
    simp only [List.length_cons, length_laneArgs hys]

theorem laneArgs_getLast? {args : List Expr} {vs : List Int} {x : Int}
    (h : laneArgs mode ρ args i = some vs) (hx : vs.getLast? = some x) :
    ∃ a, args.getLast? = some a ∧ lane mode ρ a (a.laneOf i) = some x := by
  rw [List.getLast?_eq_getElem?] at hx ⊢
  rw [length_laneArgs h] at hx
  exact laneArgs_getElem? _ h hx

mutual

/-- A checked value is one of the type of the expression. -/
theorem has_of_lane {Γ : Context} {ρ : Env} : ∀ (e : Expr) {i : Nat} {v : Int}, WellFormed Γ e →
    lane checked ρ e i = some v → e.type.Has v
  | .imm T x, i, v, he, h => (lane_imm_eq_some.mp h).2 ▸ he
  | .stringImm s, i, v, _, h => has_of_read (below_eq_some.mp h).2
  | .var T n name, i, v, _, h => by
    obtain ⟨-, x, -, h⟩ := lane_var_eq_some.mp h
    exact has_of_read h
  | .cast T a, i, v, _, h => by
    obtain ⟨x, -, h⟩ := lane_cast_eq_some.mp h
    exact has_of_evalCast h
  | .bin op a b, i, v, he, h => by
    obtain ⟨ha, hb, hType, -⟩ := he
    obtain ⟨x, y, hx, hy, h⟩ := lane_bin_eq_some.mp h
    exact has_of_evalBin (has_of_lane a ha hx) (hType ▸ has_of_lane b hb hy) h
  | .cmp op a b, i, v, _, h => by
    obtain ⟨x, y, -, -, rfl⟩ := lane_cmp_eq_some.mp h
    exact has_evalCmp _ op x y
  | .not a, i, v, _, h => by
    obtain ⟨x, -, rfl⟩ := lane_not_eq_some.mp h
    exact has_truth _ _
  | .select c a b, i, v, he, h => by
    obtain ⟨-, ha, hb, -, hType, -⟩ := he
    obtain ⟨z, x, y, -, hx, hy, rfl⟩ := lane_select_eq_some.mp h
    split_ifs
    · exact has_of_lane a ha hx
    · exact hType ▸ has_of_lane b hb hy
  | .load T n name index predicate, i, v, _, h => by
    obtain ⟨-, p, k, x, -, -, -, -, h⟩ := lane_load_eq_some.mp h
    exact has_of_read h
  | .ramp a b n, i, v, _, h => by
    obtain ⟨-, x, y, -, -, h⟩ := lane_ramp_eq_some.mp h
    exact has_of_arith h
  | .broadcast a n, i, v, he, h =>
      has_of_lane a he.1 (lane_broadcast_eq_some.mp h).2
  | .call T n callee args, i, v, he, h => by
    obtain ⟨hArgs, -, -, hPasses, hRequire⟩ := he
    obtain ⟨-, vs, hvs, h⟩ := lane_call_eq_some.mp h
    by_cases hp : callee.Passes
    · rw [hp.evalCall] at h
      obtain ⟨a, ha, -⟩ := laneArgs_getLast? hvs h
      rw [List.getLast?_eq_getElem?, length_laneArgs hvs] at h
      have hType := hPasses hp a ha
      rw [List.getLast?_eq_getElem?] at ha
      exact hType ▸ has_of_laneArgs a hArgs hvs ha h
    · cases callee with
      | likely | likely_if_innermost | return_second => exact absurd trivial hp
      | require =>
        have hSnd := (evalCall_require_eq_some.mp h).2
        obtain ⟨a, ha, -⟩ := laneArgs_getElem? 1 hvs hSnd
        exact hRequire rfl a ha ▸ has_of_laneArgs a hArgs hvs ha hSnd
      | glsl_texture_load | fn name =>
        obtain ⟨x, -, h⟩ := Option.bind_eq_some_iff.mp h
        exact has_of_read h
  | .letIn name value body, i, v, he, h => has_of_lane body he.2 h
  | .shuffle T vectors indices, i, v, he, h => by
    obtain ⟨k, -, h⟩ := lane_shuffle_eq_some.mp h
    exact has_of_laneAt he.1 he.2.1 h

theorem has_of_laneArgs {Γ : Context} {ρ : Env} {i : Nat} : ∀ {args : List Expr} {vs : List Int}
    {k : Nat} (a : Expr) {x : Int}, WellFormedAll Γ args → laneArgs checked ρ args i = some vs →
    args[k]? = some a → vs[k]? = some x → a.type.Has x
  | [], _, _, _, _, _, _, ha, _ => by simp at ha
  | b :: args, vs, k, a, x, he, h, ha, hx => by
    obtain ⟨y, ys, hy, hys, rfl⟩ := laneArgs_cons_eq_some.mp h
    cases k with
    | zero =>
      cases ha
      cases hx
      exact has_of_lane b he.1 hy
    | succ k => exact has_of_laneArgs a he.2 hys ha hx

theorem has_of_laneAt {Γ : Context} {ρ : Env} {T : IntType} : ∀ {vectors : List Expr} {k : Nat}
    {v : Int}, WellFormedAll Γ vectors → (∀ a ∈ vectors, a.type = T) →
    laneAt checked ρ vectors k = some v → T.Has v
  | [], _, _, _, _, h => by cases h
  | a :: rest, k, v, he, hType, h => by
    rw [laneAt] at h
    split_ifs at h
    · exact hType a List.mem_cons_self ▸ has_of_lane a he.1 h
    · exact has_of_laneAt he.2 (fun b hb => hType b (List.mem_cons_of_mem a hb)) h

end

/-- Two environments differ at most in the values of the names of a set. -/
structure Env.Agrees (D : Name → Bool) (ρ ρ' : Env) : Prop where
  vars : ∀ name, D name = false → ρ.vars name = ρ'.vars name
  mem : ρ.mem = ρ'.mem
  strings : ρ.strings = ρ'.strings
  calls : ρ.calls = ρ'.calls
  texture : ρ.texture = ρ'.texture

theorem Env.Agrees.set {D : Name → Bool} {ρ ρ' : Env} (h : ρ.Agrees D ρ') (name : Name) {d : Bool}
    {x x' : Nat → Option Int} (hx : d = false → x = x') :
    (ρ.set name x).Agrees (Function.update D name d) (ρ'.set name x') where
  vars other hOther := by
    by_cases hName : other = name
    · subst hName
      simp only [Function.update_self] at hOther
      simp only [Env.set_vars, Function.update_self, hx hOther]
    · simp only [Function.update_of_ne hName] at hOther
      simp only [Env.set_vars, Function.update_of_ne hName, h.vars other hOther]
  mem := h.mem
  strings := h.strings
  calls := h.calls
  texture := h.texture

theorem Env.Agrees.evalCall {D : Name → Bool} {ρ ρ' : Env} (h : ρ.Agrees D ρ') (m : Mode)
    (T : IntType) (vs : List Int) (i : Nat) (callee : Callee) :
    Lanes.evalCall m T ρ vs i callee = Lanes.evalCall m T ρ' vs i callee := by
  cases callee <;> simp only [Lanes.evalCall, h.texture, h.calls]

section Mentions

mutual

/-- An expression that reads none of the names has the same value. -/
theorem lane_congr : ∀ (e : Expr) {D : Name → Bool} {ρ ρ' : Env} (i : Nat), ρ.Agrees D ρ' →
    e.mentions D = false → lane mode ρ e i = lane mode ρ' e i
  | .imm _ _, _, _, _, _, _, _ => by simp only [lane]
  | .stringImm _, _, _, _, _, h, _ => by simp only [lane, h.strings]
  | .var _ _ name, _, _, _, _, h, he => by simp only [lane, h.vars name he]
  | .cast _ a, _, _, _, i, h, he => by simp only [lane, lane_congr a i h he]
  | .not a, _, _, _, i, h, he => by simp only [lane, lane_congr a i h he]
  | .broadcast a _, _, _, _, i, h, he => by simp only [lane, lane_congr a 0 h he]
  | .bin _ a b, _, _, _, i, h, he => by
    rw [Expr.mentions, Bool.or_eq_false_iff] at he
    simp only [lane, lane_congr a i h he.1, lane_congr b i h he.2]
  | .cmp _ a b, _, _, _, i, h, he => by
    rw [Expr.mentions, Bool.or_eq_false_iff] at he
    simp only [lane, lane_congr a i h he.1, lane_congr b i h he.2]
  | .ramp a b _, _, _, _, i, h, he => by
    rw [Expr.mentions, Bool.or_eq_false_iff] at he
    simp only [lane, lane_congr a 0 h he.1, lane_congr b 0 h he.2]
  | .load _ _ _ a b, _, _, _, i, h, he => by
    rw [Expr.mentions, Bool.or_eq_false_iff] at he
    simp only [lane, lane_congr a i h he.1, lane_congr b i h he.2, h.mem]
  | .select c a b, _, _, _, i, h, he => by
    rw [Expr.mentions, Bool.or_eq_false_iff, Bool.or_eq_false_iff] at he
    simp only [lane, lane_congr c _ h he.1.1, lane_congr a i h he.1.2, lane_congr b i h he.2]
  | .call _ _ _ args, _, _, _, i, h, he => by
    simp only [lane, laneArgs_congr args i h he, h.evalCall]
  | .letIn name value body, D, ρ, ρ', i, h, he => by
    rw [lane, lane]
    exact lane_congr body i
      (h.set name fun hd => funext fun k => lane_congr value k h hd) he
  | .shuffle _ vectors indices, _, _, _, i, h, he => by
    simp only [lane, laneAt_congr vectors _ h he]

theorem laneArgs_congr : ∀ (args : List Expr) {D : Name → Bool} {ρ ρ' : Env} (i : Nat),
    ρ.Agrees D ρ' → Expr.mentionsAny D args = false → laneArgs mode ρ args i = laneArgs mode ρ' args i
  | [], _, _, _, _, _, _ => by simp only [laneArgs]
  | a :: args, _, _, _, i, h, he => by
    rw [Expr.mentionsAny, Bool.or_eq_false_iff] at he
    simp only [laneArgs, lane_congr a _ h he.1, laneArgs_congr args i h he.2]

theorem laneAt_congr : ∀ (vectors : List Expr) {D : Name → Bool} {ρ ρ' : Env} (k : Nat),
    ρ.Agrees D ρ' → Expr.mentionsAny D vectors = false →
      laneAt mode ρ vectors k = laneAt mode ρ' vectors k
  | [], _, _, _, _, _, _ => by simp only [laneAt]
  | a :: rest, _, _, _, k, h, he => by
    rw [Expr.mentionsAny, Bool.or_eq_false_iff] at he
    simp only [laneAt, lane_congr a k h he.1, laneAt_congr rest _ h he.2]

end

end Mentions

/-- All values wrap around. -/
abbrev wrapping : IntType → Mode := fun _ => .wrapping

section Wrapping

variable {x y : Int} {S : IntType}

theorem arith_wrapping (h : arith .checked T x = some v) : arith .wrapping T x = some v := by
  simp only [arith, Option.ite_none_right_eq_some, Option.some.injEq] at h ⊢
  rw [IntType.wrap_of_has h.1, h.2]

theorem read_wrapping (h : read .checked T x = some v) : read .wrapping T x = some v := by
  unfold read at h ⊢
  split_ifs at h
  exact h

theorem evalCast_wrapping (h : evalCast .checked S T x = some v) : evalCast .wrapping S T x = some v := by
  unfold evalCast at h ⊢
  split_ifs at h
  exact h

theorem evalBin_wrapping {op : BinOp} (h : evalBin .checked T op x y = some v) :
    evalBin .wrapping T op x y = some v := by
  cases op with
  | add | sub | mul => exact arith_wrapping h
  | div =>
    simp only [evalBin, Option.ite_none_left_eq_some] at h ⊢
    exact ⟨h.1, arith_wrapping h.2⟩
  | mod | min | max | and | or => exact h

end Wrapping

/-- Outside a set of names, an environment has the values of another one, and maybe more. -/
structure Env.Refines (D : Name → Bool) (ρ ρ' : Env) : Prop where
  vars : ∀ name, D name = false → ∀ i v, ρ.vars name i = some v → ρ'.vars name i = some v
  mem : ρ.mem = ρ'.mem
  strings : ρ.strings = ρ'.strings
  calls : ρ.calls = ρ'.calls
  texture : ρ.texture = ρ'.texture

theorem Env.Refines.set {D : Name → Bool} {ρ ρ' : Env} (h : ρ.Refines D ρ') (name : Name) {d : Bool}
    {x x' : Nat → Option Int} (hx : d = false → ∀ i v, x i = some v → x' i = some v) :
    (ρ.set name x).Refines (Function.update D name d) (ρ'.set name x') where
  vars other hOther := by
    by_cases hName : other = name
    · subst hName
      simp only [Function.update_self] at hOther
      simpa only [Env.set_vars, Function.update_self] using hx hOther
    · simp only [Function.update_of_ne hName] at hOther
      simpa only [Env.set_vars, Function.update_of_ne hName] using h.vars other hOther
  mem := h.mem
  strings := h.strings
  calls := h.calls
  texture := h.texture

theorem Env.Refines.evalCall {D : Name → Bool} {ρ ρ' : Env} (h : ρ.Refines D ρ') {vs : List Int}
    {callee : Callee} (hv : Lanes.evalCall .checked T ρ vs i callee = some v) :
    Lanes.evalCall .wrapping T ρ' vs i callee = some v := by
  cases callee with
  | likely | likely_if_innermost | return_second | require => exact hv
  | glsl_texture_load | fn =>
    simp only [Lanes.evalCall, ← h.texture, ← h.calls, Option.bind_eq_bind, Option.bind_eq_some_iff] at hv ⊢
    obtain ⟨x, hx, hv⟩ := hv
    exact ⟨x, hx, read_wrapping hv⟩

section Refines

mutual

/-- A checked value is the value that wraps around, where the names that are read are refined. -/
theorem lane_refines : ∀ (e : Expr) {D : Name → Bool} {ρ ρ' : Env} {i : Nat} {v : Int}, ρ.Refines D ρ' →
    e.mentions D = false → lane checked ρ e i = some v → lane wrapping ρ' e i = some v
  | .imm _ _, _, _, _, _, _, _, _, hv => hv
  | .stringImm _, _, _, _, _, _, h, _, hv => by
    obtain ⟨hi, hv⟩ := below_eq_some.mp hv
    exact below_eq_some.mpr ⟨hi, h.strings ▸ read_wrapping hv⟩
  | .var _ _ name, _, _, _, _, _, h, he, hv => by
    obtain ⟨hi, x, hx, hv⟩ := lane_var_eq_some.mp hv
    exact lane_var_eq_some.mpr ⟨hi, x, h.vars name he _ _ hx, read_wrapping hv⟩
  | .cast _ a, _, _, _, _, _, h, he, hv => by
    obtain ⟨x, hx, hv⟩ := lane_cast_eq_some.mp hv
    exact lane_cast_eq_some.mpr ⟨x, lane_refines a h he hx, evalCast_wrapping hv⟩
  | .not a, _, _, _, _, _, h, he, hv => by
    obtain ⟨x, hx, hv⟩ := lane_not_eq_some.mp hv
    exact lane_not_eq_some.mpr ⟨x, lane_refines a h he hx, hv⟩
  | .broadcast a _, _, _, _, _, _, h, he, hv => by
    obtain ⟨hi, hv⟩ := lane_broadcast_eq_some.mp hv
    exact lane_broadcast_eq_some.mpr ⟨hi, lane_refines a h he hv⟩
  | .bin _ a b, _, _, _, _, _, h, he, hv => by
    rw [Expr.mentions, Bool.or_eq_false_iff] at he
    obtain ⟨x, y, hx, hy, hv⟩ := lane_bin_eq_some.mp hv
    exact lane_bin_eq_some.mpr
      ⟨x, y, lane_refines a h he.1 hx, lane_refines b h he.2 hy, evalBin_wrapping hv⟩
  | .cmp _ a b, _, _, _, _, _, h, he, hv => by
    rw [Expr.mentions, Bool.or_eq_false_iff] at he
    obtain ⟨x, y, hx, hy, hv⟩ := lane_cmp_eq_some.mp hv
    exact lane_cmp_eq_some.mpr ⟨x, y, lane_refines a h he.1 hx, lane_refines b h he.2 hy, hv⟩
  | .ramp a b _, _, _, _, _, _, h, he, hv => by
    rw [Expr.mentions, Bool.or_eq_false_iff] at he
    obtain ⟨hi, x, y, hx, hy, hv⟩ := lane_ramp_eq_some.mp hv
    exact lane_ramp_eq_some.mpr
      ⟨hi, x, y, lane_refines a h he.1 hx, lane_refines b h he.2 hy, arith_wrapping hv⟩
  | .load _ _ _ a b, _, _, _, _, _, h, he, hv => by
    rw [Expr.mentions, Bool.or_eq_false_iff] at he
    obtain ⟨hi, p, k, x, hp, hNe, hk, hx, hv⟩ := lane_load_eq_some.mp hv
    exact lane_load_eq_some.mpr ⟨hi, p, k, x, lane_refines b h he.2 hp, hNe, lane_refines a h he.1 hk,
      h.mem ▸ hx, read_wrapping hv⟩
  | .select c a b, _, _, _, _, _, h, he, hv => by
    rw [Expr.mentions, Bool.or_eq_false_iff, Bool.or_eq_false_iff] at he
    obtain ⟨z, x, y, hz, hx, hy, hv⟩ := lane_select_eq_some.mp hv
    exact lane_select_eq_some.mpr ⟨z, x, y, lane_refines c h he.1.1 hz, lane_refines a h he.1.2 hx,
      lane_refines b h he.2 hy, hv⟩
  | .call _ _ _ args, _, _, _, _, _, h, he, hv => by
    obtain ⟨hi, vs, hvs, hv⟩ := lane_call_eq_some.mp hv
    exact lane_call_eq_some.mpr ⟨hi, vs, laneArgs_refines args h he hvs, h.evalCall hv⟩
  | .letIn name value body, _, _, _, _, _, h, he, hv => by
    rw [lane] at hv ⊢
    exact lane_refines body (h.set name fun hd _ _ hx => lane_refines value h hd hx) he hv
  | .shuffle _ vectors _, _, _, _, _, _, h, he, hv => by
    obtain ⟨k, hk, hv⟩ := lane_shuffle_eq_some.mp hv
    exact lane_shuffle_eq_some.mpr ⟨k, hk, laneAt_refines vectors h he hv⟩

theorem laneArgs_refines : ∀ (args : List Expr) {D : Name → Bool} {ρ ρ' : Env} {i : Nat} {vs : List Int},
    ρ.Refines D ρ' → Expr.mentionsAny D args = false → laneArgs checked ρ args i = some vs →
      laneArgs wrapping ρ' args i = some vs
  | [], _, _, _, _, _, _, _, hvs => hvs
  | a :: args, _, _, _, _, _, h, he, hvs => by
    rw [Expr.mentionsAny, Bool.or_eq_false_iff] at he
    obtain ⟨x, xs, hx, hxs, rfl⟩ := laneArgs_cons_eq_some.mp hvs
    exact laneArgs_cons_eq_some.mpr
      ⟨x, xs, lane_refines a h he.1 hx, laneArgs_refines args h he.2 hxs, rfl⟩

theorem laneAt_refines : ∀ (vectors : List Expr) {D : Name → Bool} {ρ ρ' : Env} {k : Nat} {v : Int},
    ρ.Refines D ρ' → Expr.mentionsAny D vectors = false → laneAt checked ρ vectors k = some v →
      laneAt wrapping ρ' vectors k = some v
  | [], _, _, _, _, _, _, _, hv => hv
  | a :: rest, _, _, _, k, _, h, he, hv => by
    rw [Expr.mentionsAny, Bool.or_eq_false_iff] at he
    rw [laneAt] at hv ⊢
    split_ifs at hv ⊢ with hk
    · exact lane_refines a h he.1 hv
    · exact laneAt_refines rest h he.2 hv

end

end Refines

end Vyasa.Lanes
