import Vyasa.IR.Expr

/-! Facts about the value of an expression: what its operands must evaluate to,
that a checked value is the value over the integers, and which variables and
buffers it depends on. -/
namespace Vyasa.Expr

open Word IRMatch

variable {m : Mode} {ρ : Env} {T : IntType} {v x y z : Int} {a b c : Expr} {name : Name}

section Inversion

attribute [local simp] eval

theorem eval_bin (ha : eval m ρ a = some x) (hb : eval m ρ b = some y) (op : BinOp) :
    eval m ρ (bin op a b) = evalBin (modeAt m a.type) a.type op x y := by
  simp [eval, ha, hb]

theorem eval_cmp (ha : eval m ρ a = some x) (hb : eval m ρ b = some y) (op : CmpOp) :
    eval m ρ (cmp op a b) = some (evalCmp op x y) := by
  simp [eval, ha, hb]

theorem eval_not (ha : eval m ρ a = some x) : eval m ρ (not a) = some (if x = 0 then 1 else 0) := by
  simp [eval, ha]

theorem eval_letIn (ha : eval m ρ a = some x) :
    eval m ρ (letIn name a b) = eval m (ρ.set name x) b := by
  simp [eval, ha]

theorem eval_bin_eq_some {op : BinOp} : eval m ρ (bin op a b) = some v ↔
    ∃ x y, eval m ρ a = some x ∧ eval m ρ b = some y ∧
      evalBin (modeAt m a.type) a.type op x y = some v := by
  simp only [eval, Option.bind_eq_bind, Option.bind_eq_some_iff]
  grind

theorem eval_cmp_eq_some {op : CmpOp} : eval m ρ (cmp op a b) = some v ↔
    ∃ x y, eval m ρ a = some x ∧ eval m ρ b = some y ∧ evalCmp op x y = v := by
  simp only [eval, Option.bind_eq_bind, Option.bind_eq_some_iff, Option.pure_def,
    Option.some.injEq]
  grind

theorem eval_not_eq_some : eval m ρ (not a) = some v ↔
    ∃ x, eval m ρ a = some x ∧ (if x = 0 then 1 else 0) = v := by
  simp only [eval, Option.bind_eq_bind, Option.bind_eq_some_iff, Option.pure_def,
    Option.some.injEq]

theorem eval_select_eq_some : eval m ρ (select c a b) = some v ↔
    ∃ z x y, eval m ρ c = some z ∧ eval m ρ a = some x ∧ eval m ρ b = some y ∧
      (if z ≠ 0 then x else y) = v := by
  simp only [eval, Option.bind_eq_bind, Option.bind_eq_some_iff, Option.pure_def,
    Option.some.injEq]
  grind

theorem eval_letIn_eq_some : eval m ρ (letIn name a b) = some v ↔
    ∃ x, eval m ρ a = some x ∧ eval m (ρ.set name x) b = some v := by
  simp only [eval, Option.bind_eq_bind, Option.bind_eq_some_iff]

theorem eval_cast_eq_some : eval m ρ (cast T a) = some v ↔
    ∃ x, eval m ρ a = some x ∧ evalCast m T x = some v := by
  simp only [eval, Option.bind_eq_bind, Option.bind_eq_some_iff]

theorem eval_load_eq_some : eval m ρ (load T name a) = some v ↔
    ∃ x, eval m ρ a = some x ∧ ρ.mem name x = some v := by
  simp only [eval, Option.bind_eq_bind, Option.bind_eq_some_iff]

theorem eval_binCall_eq_some {op : BinCall} : eval m ρ (binCall op a b) = some v ↔
    ∃ x y, eval m ρ a = some x ∧ eval m ρ b = some y ∧ evalBinCall m a.type op x y = some v := by
  simp only [eval, Option.bind_eq_bind, Option.bind_eq_some_iff]
  grind

theorem eval_unaryCall_eq_some {op : UnaryCall} : eval m ρ (unaryCall op a) = some v ↔
    ∃ x, eval m ρ a = some x ∧ evalUnaryCall m a.type op x = some v := by
  simp only [eval, Option.bind_eq_bind, Option.bind_eq_some_iff]

end Inversion

section Exact

end Exact

section Constants

theorem evalCast_of_has (h : T.Has x) : evalCast m T x = some x := by
  simp [evalCast, h, T.wrap_of_has h]

theorem eval_of_isZero {e : Expr} (h : e.isZero = true) : eval m ρ e = some 0 := by
  induction e with
  | imm T v =>
      rw [isZero, decide_eq_true_eq] at h
      rw [eval, h]
  | cast T a ih => rw [eval, ih h, Option.bind_eq_bind, Option.bind_some, evalCast_of_has T.has_zero]
  | _ => cases h

theorem eval_of_isOne {e : Expr} (h : e.isOne = true) : eval m ρ e = some 1 := by
  induction e with
  | imm T v =>
      rw [isOne, decide_eq_true_eq] at h
      rw [eval, h]
  | cast T a ih => rw [eval, ih h, Option.bind_eq_bind, Option.bind_some, evalCast_of_has T.has_one]
  | _ => cases h

end Constants

section Dependence

/-- Environments that agree on the variables and the buffers of an expression. -/
structure Agrees (ρ ρ' : Env) (e : Expr) : Prop where
  vars : ∀ name, e.mentions name = true → ρ.vars name = ρ'.vars name
  mem : ∀ name ∈ e.buffers, ρ.mem name = ρ'.mem name

theorem eval_congr {ρ' : Env} {e : Expr} (h : Agrees ρ ρ' e) : eval m ρ e = eval m ρ' e := by
  induction e generalizing ρ ρ' with
  | imm _ _ | marker _ _ => rfl
  | var T n => simp only [eval, h.vars n (by simp [mentions])]
  | cast _ _ ih | not _ ih | unaryCall _ _ ih | intrin _ _ ih =>
      simp only [eval, ih ⟨h.vars, h.mem⟩]
  | load T n a ih =>
      simp only [eval, h.mem n (List.mem_cons_self ..),
        ih ⟨h.vars, fun name hn => h.mem name (List.mem_cons_of_mem _ hn)⟩]
  | bin _ _ _ iha ihb | cmp _ _ _ iha ihb | binCall _ _ _ iha ihb =>
      have ha := iha ⟨fun n hn => h.vars n (by simp [mentions, hn]),
        fun n hn => h.mem n (List.mem_append_left _ hn)⟩
      have hb := ihb ⟨fun n hn => h.vars n (by simp [mentions, hn]),
        fun n hn => h.mem n (List.mem_append_right _ hn)⟩
      simp only [eval, ha, hb]
  | select _ _ _ ihc iht ihf =>
      have hc := ihc ⟨fun n hn => h.vars n (by simp [mentions, hn]),
        fun n hn => h.mem n (List.mem_append_left _ (List.mem_append_left _ hn))⟩
      have ht := iht ⟨fun n hn => h.vars n (by simp [mentions, hn]),
        fun n hn => h.mem n (List.mem_append_left _ (List.mem_append_right _ hn))⟩
      have hf := ihf ⟨fun n hn => h.vars n (by simp [mentions, hn]),
        fun n hn => h.mem n (List.mem_append_right _ hn)⟩
      simp only [eval, hc, ht, hf]
  | letIn name value body ihv ihb =>
      have hv := ihv ⟨fun n hn => h.vars n (by simp [mentions, hn]),
        fun n hn => h.mem n (List.mem_append_left _ hn)⟩
      have hb (x : Int) : eval m (ρ.set name x) body = eval m (ρ'.set name x) body := by
        refine ihb ⟨fun n hn => ?_, fun n hn => h.mem n (List.mem_append_right _ hn)⟩
        by_cases hne : n = name
        · rw [hne, Env.set_vars_self, Env.set_vars_self]
        · rw [Env.set_vars_of_ne hne, Env.set_vars_of_ne hne]
          exact h.vars n (by simp [mentions, hn, Ne.symm hne])
      simp only [eval, hv, hb]

theorem eval_set {e : Expr} (h : e.mentions name = false) (x : Int) :
    eval m (ρ.set name x) e = eval m ρ e := by
  refine eval_congr ⟨fun n hn => Env.set_vars_of_ne ?_, fun _ _ => rfl⟩
  rintro rfl
  rw [hn] at h
  cases h

theorem hasType_of_wellTyped {buffers types : Name → IntType} {e : Expr}
    (he : WellTyped buffers types e) : HasType name (types name) e := by
  induction e generalizing types with
  | imm _ _ | marker _ _ => trivial
  | var T n => exact fun hn => hn ▸ he.symm
  | cast _ _ ih | unaryCall _ _ ih | intrin _ _ ih => exact ih he
  | not _ ih | load _ _ _ ih => exact ih he.1
  | bin _ _ _ iha ihb | cmp _ _ _ iha ihb | binCall _ _ _ iha ihb => exact ⟨iha he.1, ihb he.2.1⟩
  | select _ _ _ ihc iht ihf => exact ⟨ihc he.1, iht he.2.1, ihf he.2.2.1⟩
  | letIn n value body ihv ihb =>
      refine ⟨ihv he.1, or_iff_not_imp_left.mpr fun hn => ?_⟩
      have hBody := ihb he.2
      rwa [Function.update_of_ne (Ne.symm hn)] at hBody

theorem hasType_of_not_mentions {e : Expr} (h : e.mentions name = false) (T : IntType) :
    HasType name T e := by
  induction e with
  | imm _ _ | marker _ _ => trivial
  | var S n =>
      intro hn
      simp [hn] at h
  | cast _ _ ih | not _ ih | unaryCall _ _ ih | intrin _ _ ih | load _ _ _ ih => exact ih h
  | bin _ _ _ iha ihb | cmp _ _ _ iha ihb | binCall _ _ _ iha ihb =>
      simp only [mentions, Bool.or_eq_false_iff] at h
      exact ⟨iha h.1, ihb h.2⟩
  | select _ _ _ ihc iht ihf =>
      simp only [mentions, Bool.or_eq_false_iff] at h
      exact ⟨ihc h.1.1, iht h.1.2, ihf h.2⟩
  | letIn n value body ihv ihb =>
      simp only [mentions, Bool.or_eq_false_iff, Bool.and_eq_false_iff, decide_eq_false_iff_not,
        not_not] at h
      exact ⟨ihv h.1, h.2.imp_right ihb⟩

theorem type_substitute_of_hasType {r e : Expr} (he : HasType name r.type e) :
    (substitute name r e).type = e.type := by
  induction e with
  | var T n =>
      simp only [substitute]
      split_ifs with hn
      · exact (he hn).symm
      · rfl
  | imm _ _ | marker _ _ | cast _ _ _ | cmp _ _ _ _ _ | not _ _ | load _ _ _ _ => rfl
  | bin _ _ _ iha _ | binCall _ _ _ iha _ => exact iha he.1
  | select _ _ _ _ iht _ => exact iht he.2.1
  | intrin _ _ ih => exact ih he
  | unaryCall op _ ih =>
      cases op with
      | bitwiseNot => exact ih he
      | abs => exact congrArg IntType.toUnsigned (ih he)
  | letIn n value body _ ihb =>
      simp only [substitute, type]
      split_ifs with hn
      · rfl
      · exact ihb (he.2.resolve_left hn)

theorem type_substitute {buffers types : Name → IntType} {r e : Expr}
    (he : WellTyped buffers types e) (hType : types name = r.type) :
    (substitute name r e).type = e.type :=
  type_substitute_of_hasType (hType ▸ hasType_of_wellTyped he)

/-- Substitution puts the value of the replacement in, unless a let captures a
variable of the replacement. -/
theorem eval_substitute_of_hasType {r e : Expr} (hr : eval m ρ r = some x)
    (he : HasType name r.type e) (hBinds : ∀ n ∈ e.binds, r.mentions n = false) :
    eval m ρ (substitute name r e) = eval m (ρ.set name x) e := by
  induction e generalizing ρ with
  | var T n =>
      simp only [substitute]
      split_ifs with hn
      · rw [hr, eval, hn, Env.set_vars_self]
      · rw [eval, eval, Env.set_vars_of_ne hn]
  | imm _ _ | marker _ _ => rfl
  | cast _ _ ih | not _ ih | intrin _ _ ih => simp only [substitute, eval, ih hr he hBinds]
  | unaryCall _ a ih =>
      have hSame : (substitute name r a).type = a.type := type_substitute_of_hasType he
      simp only [substitute, eval, ih hr he hBinds, hSame]
  | load _ _ _ ih => simp only [substitute, eval, ih hr he hBinds, Env.set_mem]
  | bin _ _ _ iha ihb | cmp _ _ _ iha ihb | binCall _ _ _ iha ihb =>
      have ha := iha hr he.1 fun n hn => hBinds n (List.mem_append_left _ hn)
      have hb := ihb hr he.2 fun n hn => hBinds n (List.mem_append_right _ hn)
      simp only [substitute, eval, ha, hb, type_substitute_of_hasType he.1]
  | select _ _ _ ihc iht ihf =>
      have hc := ihc hr he.1
        fun n hn => hBinds n (List.mem_append_left _ (List.mem_append_left _ hn))
      have ht := iht hr he.2.1
        fun n hn => hBinds n (List.mem_append_left _ (List.mem_append_right _ hn))
      have hf := ihf hr he.2.2 fun n hn => hBinds n (List.mem_append_right _ hn)
      simp only [substitute, eval, hc, ht, hf]
  | letIn n value body ihv ihb =>
      have hv := ihv hr he.1
        fun k hk => hBinds k (List.mem_cons_of_mem _ (List.mem_append_left _ hk))
      simp only [substitute, eval, hv]
      refine congrArg _ (funext fun y => ?_)
      split_ifs with hn
      · rw [hn, Env.set_set]
      · have hFree : r.mentions n = false := hBinds n (List.mem_cons_self ..)
        rw [Env.set_comm ρ (Ne.symm hn), ihb (by rw [eval_set hFree, hr]) (he.2.resolve_left hn)
          fun k hk => hBinds k (List.mem_cons_of_mem _ (List.mem_append_right _ hk))]

theorem eval_substitute {buffers types : Name → IntType} {r e : Expr} (hr : eval m ρ r = some x)
    (he : WellTyped buffers types e) (hType : types name = r.type)
    (hBinds : ∀ n ∈ e.binds, r.mentions n = false) :
    eval m ρ (substitute name r e) = eval m (ρ.set name x) e :=
  eval_substitute_of_hasType hr (hType ▸ hasType_of_wellTyped he) hBinds

theorem hasType_substitute {r e : Expr} {n : Name} {T : IntType} (hr : HasType n T r)
    (he : n = name ∨ HasType n T e) : HasType n T (substitute name r e) := by
  induction e with
  | imm _ _ | marker _ _ => trivial
  | var S k =>
      simp only [substitute]
      split_ifs with hk
      · exact hr
      · intro hn
        rcases he with he | he
        · exact absurd (hn.trans he) hk
        · exact he hn
  | cast _ _ ih | not _ ih | unaryCall _ _ ih | intrin _ _ ih | load _ _ _ ih => exact ih he
  | bin _ _ _ iha ihb | cmp _ _ _ iha ihb | binCall _ _ _ iha ihb =>
      exact ⟨iha (he.imp_right And.left), ihb (he.imp_right And.right)⟩
  | select _ _ _ ihc iht ihf =>
      exact ⟨ihc (he.imp_right And.left), iht (he.imp_right fun h => h.2.1),
        ihf (he.imp_right fun h => h.2.2)⟩
  | letIn k value body ihv ihb =>
      refine ⟨ihv (he.imp_right And.left), ?_⟩
      by_cases hk : k = n
      · exact Or.inl hk
      · have hBody : n = name ∨ HasType n T body :=
          he.imp_right fun h => h.2.resolve_left hk
        split_ifs with hName
        · exact Or.inr (hBody.resolve_left fun hn => hk (hName.trans hn.symm))
        · exact Or.inr (ihb hBody)

/-- What a substituted expression mentions was there before or is brought in. -/
theorem mentions_substitute {r e : Expr} {n : Name} (h : (substitute name r e).mentions n = true) :
    (e.mentions n = true ∧ n ≠ name) ∨ r.mentions n = true := by
  induction e with
  | imm _ _ | marker _ _ => cases h
  | var T k =>
      simp only [substitute] at h
      split_ifs at h with hk
      · exact Or.inr h
      · refine Or.inl ⟨h, ?_⟩
        simp only [mentions, decide_eq_true_eq] at h
        exact fun hn => hk (h.trans hn)
  | cast _ _ ih | not _ ih | unaryCall _ _ ih | intrin _ _ ih | load _ _ _ ih => exact ih h
  | bin _ _ _ iha ihb | cmp _ _ _ iha ihb | binCall _ _ _ iha ihb =>
      simp only [substitute, mentions, Bool.or_eq_true] at h ⊢
      rcases h with h | h
      · exact (iha h).imp_left fun hn => ⟨Or.inl hn.1, hn.2⟩
      · exact (ihb h).imp_left fun hn => ⟨Or.inr hn.1, hn.2⟩
  | select _ _ _ ihc iht ihf =>
      simp only [substitute, mentions, Bool.or_eq_true] at h ⊢
      rcases h with (h | h) | h
      · exact (ihc h).imp_left fun hn => ⟨Or.inl (Or.inl hn.1), hn.2⟩
      · exact (iht h).imp_left fun hn => ⟨Or.inl (Or.inr hn.1), hn.2⟩
      · exact (ihf h).imp_left fun hn => ⟨Or.inr hn.1, hn.2⟩
  | letIn k value body ihv ihb =>
      simp only [substitute, mentions, Bool.or_eq_true, Bool.and_eq_true, decide_eq_true_eq] at h ⊢
      rcases h with h | ⟨hk, h⟩
      · exact (ihv h).imp_left fun hn => ⟨Or.inl hn.1, hn.2⟩
      · split_ifs at h with hName
        · exact Or.inl ⟨Or.inr ⟨hk, h⟩, fun hn => hk (hName.trans hn.symm)⟩
        · exact (ihb h).imp_left fun hn => ⟨Or.inr ⟨hk, hn.1⟩, hn.2⟩

theorem binds_substitute {r e : Expr} {n : Name} (hr : r.binds = [])
    (h : n ∈ (substitute name r e).binds) : n ∈ e.binds := by
  induction e with
  | imm _ _ | marker _ _ => exact h
  | var T k =>
      simp only [substitute] at h
      split_ifs at h
      · rw [hr] at h
        exact h
      · exact h
  | cast _ _ ih | not _ ih | unaryCall _ _ ih | intrin _ _ ih | load _ _ _ ih => exact ih h
  | bin _ _ _ iha ihb | cmp _ _ _ iha ihb | binCall _ _ _ iha ihb =>
      simp only [substitute, binds, List.mem_append] at h ⊢
      exact h.imp iha ihb
  | select _ _ _ ihc iht ihf =>
      simp only [substitute, binds, List.mem_append] at h ⊢
      exact h.imp (Or.imp ihc iht) ihf
  | letIn k value body ihv ihb =>
      simp only [substitute, binds, List.mem_cons, List.mem_append] at h ⊢
      refine h.imp_right (Or.imp ihv fun hn => ?_)
      split_ifs at hn
      · exact hn
      · exact ihb hn

theorem wellTyped_congr {buffers types types' : Name → IntType} {e : Expr}
    (he : WellTyped buffers types e) (h : ∀ n, e.mentions n = true → types n = types' n) :
    WellTyped buffers types' e := by
  induction e generalizing types types' with
  | imm _ _ | marker _ _ => exact he
  | var T n => exact (h n (by simp [mentions])).symm.trans he
  | cast _ _ ih | unaryCall _ _ ih | intrin _ _ ih => exact ih he h
  | not _ ih | load _ _ _ ih => exact ⟨ih he.1 h, he.2⟩
  | bin _ _ _ iha ihb | cmp _ _ _ iha ihb | binCall _ _ _ iha ihb =>
      exact ⟨iha he.1 fun n hn => h n (by simp [mentions, hn]),
        ihb he.2.1 fun n hn => h n (by simp [mentions, hn]), he.2.2⟩
  | select _ _ _ ihc iht ihf =>
      exact ⟨ihc he.1 fun n hn => h n (by simp [mentions, hn]),
        iht he.2.1 fun n hn => h n (by simp [mentions, hn]),
        ihf he.2.2.1 fun n hn => h n (by simp [mentions, hn]), he.2.2.2⟩
  | letIn name value body ihv ihb =>
      refine ⟨ihv he.1 fun n hn => h n (by simp [mentions, hn]), ihb he.2 fun n hn => ?_⟩
      by_cases hne : n = name
      · rw [hne, Function.update_self, Function.update_self]
      · rw [Function.update_of_ne hne, Function.update_of_ne hne]
        exact h n (by simp [mentions, hn, Ne.symm hne])

theorem wellTyped_substitute {buffers types : Name → IntType} {r e : Expr}
    (he : WellTyped buffers types e) (hr : WellTyped buffers types r) (hType : types name = r.type)
    (hBinds : ∀ n ∈ e.binds, r.mentions n = false) :
    WellTyped buffers types (substitute name r e) := by
  induction e generalizing types with
  | imm _ _ | marker _ _ => exact he
  | var T n =>
      simp only [substitute]
      split_ifs
      · exact hr
      · exact he
  | cast _ _ ih | unaryCall _ _ ih | intrin _ _ ih => exact ih he hr hType hBinds
  | load _ _ _ ih => exact ⟨ih he.1 hr hType hBinds, he.2⟩
  | not _ ih => exact ⟨ih he.1 hr hType hBinds, (type_substitute he.1 hType).trans he.2⟩
  | bin _ _ _ iha ihb =>
      have ha := type_substitute he.1 hType
      have hb := type_substitute he.2.1 hType
      exact ⟨iha he.1 hr hType fun n hn => hBinds n (List.mem_append_left _ hn),
        ihb he.2.1 hr hType fun n hn => hBinds n (List.mem_append_right _ hn),
        by rw [ha, hb, he.2.2.1], by rw [ha]; exact he.2.2.2⟩
  | cmp _ _ _ iha ihb | binCall _ _ _ iha ihb =>
      exact ⟨iha he.1 hr hType fun n hn => hBinds n (List.mem_append_left _ hn),
        ihb he.2.1 hr hType fun n hn => hBinds n (List.mem_append_right _ hn),
        by rw [type_substitute he.1 hType, type_substitute he.2.1 hType, he.2.2]⟩
  | select _ _ _ ihc iht ihf =>
      exact ⟨ihc he.1 hr hType
          fun n hn => hBinds n (List.mem_append_left _ (List.mem_append_left _ hn)),
        iht he.2.1 hr hType
          fun n hn => hBinds n (List.mem_append_left _ (List.mem_append_right _ hn)),
        ihf he.2.2.1 hr hType fun n hn => hBinds n (List.mem_append_right _ hn),
        (type_substitute he.1 hType).trans he.2.2.2.1,
        by rw [type_substitute he.2.1 hType, type_substitute he.2.2.1 hType, he.2.2.2.2]⟩
  | letIn n value body ihv ihb =>
      have hSame : (substitute name r value).type = value.type := type_substitute he.1 hType
      refine ⟨ihv he.1 hr hType
        fun k hk => hBinds k (List.mem_cons_of_mem _ (List.mem_append_left _ hk)), ?_⟩
      rw [hSame]
      split_ifs with hn
      · exact he.2
      · have hFree : r.mentions n = false := hBinds n (List.mem_cons_self ..)
        refine ihb he.2 (wellTyped_congr hr fun k hk => ?_)
          (by rw [Function.update_of_ne (Ne.symm hn), hType])
          fun k hk => hBinds k (List.mem_cons_of_mem _ (List.mem_append_right _ hk))
        rw [Function.update_of_ne]
        rintro rfl
        rw [hk] at hFree
        cases hFree

end Dependence

end Vyasa.Expr
