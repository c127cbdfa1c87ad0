import Vyasa.RemoveUndef.Mutator

/-! Expressions read without undef: a select with one branch that is always undef is read as
its other branch. Where every such select would take that branch, the reading is the value. -/
namespace Vyasa.RemoveUndef

variable {F : Type}

mutual

/-- Undef whatever the variables hold, where those in `dead` are. -/
def alwaysUndef (dead : List String) : Expr F → Bool
  | .imm _ => false
  | .var x => decide (x ∈ dead)
  | .op _ args => someUndef dead args
  | .not a => alwaysUndef dead a
  | .and a b => alwaysUndef dead a || alwaysUndef dead b
  | .select c t f => alwaysUndef dead c || (alwaysUndef dead t && alwaysUndef dead f)
  | .letIn x v b => if alwaysUndef dead v then alwaysUndef (x :: dead) b else alwaysUndef dead b
  | .undef => true

def someUndef (dead : List String) : Exprs F → Bool
  | .nil => false
  | .cons e rest => alwaysUndef dead e || someUndef dead rest

end

mutual

/-- No let gives a value to a name that stands for an undef one. -/
def FreshDead (dead : List String) : Expr F → Prop
  | .imm _ | .var _ | .undef => True
  | .op _ args => FreshDeadArgs dead args
  | .not a => FreshDead dead a
  | .and a b => FreshDead dead a ∧ FreshDead dead b
  | .select c t f => FreshDead dead c ∧ FreshDead dead t ∧ FreshDead dead f
  | .letIn x v b => FreshDead dead v ∧
      if alwaysUndef dead v then FreshDead (x :: dead) b else x ∉ dead ∧ FreshDead dead b

def FreshDeadArgs (dead : List String) : Exprs F → Prop
  | .nil => True
  | .cons e rest => FreshDead dead e ∧ FreshDeadArgs dead rest

end

section

variable (sem : F → Memory → List Int → Int) (mem : Memory)

mutual

/-- The reading of an expression. An undef part has no reading of its own. -/
def pick (dead : List String) (ρ : String → Int) : Expr F → Int
  | .imm v => v
  | .var x => ρ x
  | .op f args => sem f mem (pickArgs dead ρ args)
  | .not a => if pick dead ρ a = 0 then 1 else 0
  | .and a b => if pick dead ρ a ≠ 0 ∧ pick dead ρ b ≠ 0 then 1 else 0
  | .select c t f =>
      if alwaysUndef dead t then pick dead ρ f
      else if alwaysUndef dead f then pick dead ρ t
      else if pick dead ρ c ≠ 0 then pick dead ρ t else pick dead ρ f
  | .letIn x v b =>
      if alwaysUndef dead v then pick (x :: dead) ρ b
      else pick dead (Function.update ρ x (pick dead ρ v)) b
  | .undef => 0

def pickArgs (dead : List String) (ρ : String → Int) : Exprs F → List Int
  | .nil => []
  | .cons e rest => pick dead ρ e :: pickArgs dead ρ rest

end

mutual

/-- Every select with exactly one branch that is always undef takes the other one, wherever in
the expression the mutator meets it. -/
def Records (dead : List String) (ρ : String → Int) : Expr F → Prop
  | .imm _ | .var _ | .undef => True
  | .op _ args => RecordsArgs dead ρ args
  | .not a => Records dead ρ a
  | .and a b => Records dead ρ a ∧ (alwaysUndef dead a = false → Records dead ρ b)
  | .select c t f => Records dead ρ c ∧ Records dead ρ t ∧ Records dead ρ f ∧
      (alwaysUndef dead c = false →
        (alwaysUndef dead t = true → alwaysUndef dead f = false → pick sem mem dead ρ c = 0) ∧
        (alwaysUndef dead t = false → alwaysUndef dead f = true → pick sem mem dead ρ c ≠ 0))
  | .letIn x v b => Records dead ρ v ∧
      if alwaysUndef dead v then Records (x :: dead) ρ b
      else Records dead (Function.update ρ x (pick sem mem dead ρ v)) b

/-- The operands up to the first that is always undef are met. -/
def RecordsArgs (dead : List String) (ρ : String → Int) : Exprs F → Prop
  | .nil => True
  | .cons e rest => Records dead ρ e ∧ (alwaysUndef dead e = false → RecordsArgs dead ρ rest)

end

end

/-! ### The reading against the value -/

/-- The variables in `dead` have no value, and a value is what is read. -/
structure Under (dead : List String) (ρo : Env) (ρ : String → Int) : Prop where
  none_of_dead : ∀ x ∈ dead, ρo x = none
  read : ∀ x a, ρo x = some a → ρ x = a

theorem Under.bind {dead : List String} {ρo : Env} {ρ : String → Int} (h : Under dead ρo ρ)
    {x : String} (hx : x ∉ dead) {o : Option Int} {v : Int} (ho : ∀ a, o = some a → v = a) :
    Under dead (Function.update ρo x o) (Function.update ρ x v) where
  none_of_dead y hy := by
    have hne : y ≠ x := fun hEq => hx (hEq ▸ hy)
    rw [Function.update_of_ne hne]
    exact h.none_of_dead y hy
  read y a hy := by
    by_cases hEq : y = x
    · subst hEq
      rw [Function.update_self] at hy ⊢
      exact ho a hy
    · rw [Function.update_of_ne hEq] at hy ⊢
      exact h.read y a hy

theorem Under.kill {dead : List String} {ρo : Env} {ρ : String → Int} (h : Under dead ρo ρ)
    (x : String) : Under (x :: dead) (Function.update ρo x none) ρ where
  none_of_dead y hy := by
    by_cases hEq : y = x
    · subst hEq
      exact Function.update_self ..
    · rw [Function.update_of_ne hEq]
      exact h.none_of_dead y ((List.mem_cons.mp hy).resolve_left hEq)
  read y a hy := by
    by_cases hEq : y = x
    · subst hEq
      simp at hy
    · rw [Function.update_of_ne hEq] at hy
      exact h.read y a hy

variable {sem : F → Memory → List Int → Int} {mem : Memory}

mutual

/-- What is always undef has no value. -/
theorem eval_of_alwaysUndef {dead : List String} {ρo : Env} {ρ : String → Int}
    (h : Under dead ρo ρ) : (e : Expr F) → FreshDead dead e → alwaysUndef dead e = true →
    eval sem mem ρo e = none
  | .imm _, _, hUndef => by simp [alwaysUndef] at hUndef
  | .var x, _, hUndef => by
      simp only [alwaysUndef, decide_eq_true_eq] at hUndef
      exact h.none_of_dead x hUndef
  | .op f args, hFresh, hUndef => by
      simp only [eval, evalArgs_of_someUndef h args hFresh hUndef]
      rfl
  | .not a, hFresh, hUndef => by
      simp only [eval, eval_of_alwaysUndef h a hFresh hUndef]
      rfl
  | .and a b, hFresh, hUndef => by
      simp only [alwaysUndef, Bool.or_eq_true] at hUndef
      rcases hUndef with hUndef | hUndef
      · simp only [eval, eval_of_alwaysUndef h a hFresh.1 hUndef]
        rfl
      · simp only [eval, eval_of_alwaysUndef h b hFresh.2 hUndef]
        cases eval sem mem ρo a <;> rfl
  | .select c t f, hFresh, hUndef => by
      simp only [alwaysUndef, Bool.or_eq_true, Bool.and_eq_true] at hUndef
      rcases hUndef with hUndef | ⟨hT, hF⟩
      · simp only [eval, eval_of_alwaysUndef h c hFresh.1 hUndef]
        rfl
      · simp only [eval, eval_of_alwaysUndef h t hFresh.2.1 hT, eval_of_alwaysUndef h f hFresh.2.2 hF]
        cases eval sem mem ρo c with
        | none => rfl
        | some vc => exact ite_self _
  | .letIn x v b, hFresh, hUndef => by
      simp only [alwaysUndef] at hUndef
      simp only [FreshDead] at hFresh
      simp only [eval]
      split at hUndef
      · rename_i hv
        rw [if_pos hv] at hFresh
        rw [eval_of_alwaysUndef h v hFresh.1 hv]
        exact eval_of_alwaysUndef (h.kill x) b hFresh.2 hUndef
      · rename_i hv
        rw [if_neg hv] at hFresh
        exact eval_of_alwaysUndef (h.bind hFresh.2.1 (pick_of_eval h v hFresh.1)) b hFresh.2.2 hUndef
  | .undef, _, _ => rfl

theorem evalArgs_of_someUndef {dead : List String} {ρo : Env} {ρ : String → Int}
    (h : Under dead ρo ρ) : (args : Exprs F) → FreshDeadArgs dead args →
    someUndef dead args = true → evalArgs sem mem ρo args = none
  | .nil, _, hUndef => by simp [someUndef] at hUndef
  | .cons e rest, hFresh, hUndef => by
      simp only [someUndef, Bool.or_eq_true] at hUndef
      rcases hUndef with hUndef | hUndef
      · simp only [evalArgs, eval_of_alwaysUndef h e hFresh.1 hUndef]
        rfl
      · simp only [evalArgs, evalArgs_of_someUndef h rest hFresh.2 hUndef]
        cases eval sem mem ρo e <;> rfl

/-- A value, where there is one, is what is read. -/
theorem pick_of_eval {dead : List String} {ρo : Env} {ρ : String → Int}
    (h : Under dead ρo ρ) : (e : Expr F) → FreshDead dead e →
    ∀ a, eval sem mem ρo e = some a → pick sem mem dead ρ e = a
  | .imm v, _, a, hEval => by
      simp only [eval, Option.some.injEq] at hEval
      exact hEval
  | .var x, _, a, hEval => h.read x a hEval
  | .op f args, hFresh, a, hEval => by
      simp only [eval, Option.bind_eq_bind, Option.bind_eq_some_iff, Option.pure_def,
        Option.some.injEq] at hEval
      obtain ⟨vs, hArgs, rfl⟩ := hEval
      simp only [pick, pickArgs_of_evalArgs h args hFresh vs hArgs]
  | .not a, hFresh, r, hEval => by
      simp only [eval, Option.bind_eq_bind, Option.bind_eq_some_iff, Option.pure_def,
        Option.some.injEq] at hEval
      obtain ⟨va, ha, rfl⟩ := hEval
      simp only [pick, pick_of_eval h a hFresh va ha]
  | .and a b, hFresh, r, hEval => by
      simp only [eval, Option.bind_eq_bind, Option.bind_eq_some_iff, Option.pure_def,
        Option.some.injEq] at hEval
      obtain ⟨va, ha, vb, hb, rfl⟩ := hEval
      simp only [pick, pick_of_eval h a hFresh.1 va ha, pick_of_eval h b hFresh.2 vb hb]
  | .select c t f, hFresh, r, hEval => by
      simp only [eval, Option.bind_eq_bind, Option.bind_eq_some_iff] at hEval
      obtain ⟨vc, hc, hEval⟩ := hEval
      have hPick := pick_of_eval h c hFresh.1 vc hc
      simp only [pick, hPick]
      split at hEval
      · rename_i hTaken
        have hT : alwaysUndef dead t = false := by
          by_contra hT
          rw [eval_of_alwaysUndef h t hFresh.2.1 (by simpa using hT)] at hEval
          cases hEval
        simp [hT, hTaken, pick_of_eval h t hFresh.2.1 r hEval]
      · rename_i hTaken
        have hF : alwaysUndef dead f = false := by
          by_contra hF
          rw [eval_of_alwaysUndef h f hFresh.2.2 (by simpa using hF)] at hEval
          cases hEval
        simp [hF, hTaken, pick_of_eval h f hFresh.2.2 r hEval]
  | .letIn x v b, hFresh, r, hEval => by
      simp only [FreshDead] at hFresh
      simp only [eval] at hEval
      simp only [pick]
      split at hFresh
      · rename_i hv
        rw [if_pos hv]
        rw [eval_of_alwaysUndef h v hFresh.1 hv] at hEval
        exact pick_of_eval (h.kill x) b hFresh.2 r hEval
      · rename_i hv
        rw [if_neg hv]
        exact pick_of_eval (h.bind hFresh.2.1 (pick_of_eval h v hFresh.1)) b hFresh.2.2 r hEval
  | .undef, _, a, hEval => by cases hEval

theorem pickArgs_of_evalArgs {dead : List String} {ρo : Env} {ρ : String → Int}
    (h : Under dead ρo ρ) : (args : Exprs F) → FreshDeadArgs dead args →
    ∀ vs, evalArgs sem mem ρo args = some vs → pickArgs sem mem dead ρ args = vs
  | .nil, _, vs, hEval => by
      simp only [evalArgs, Option.some.injEq] at hEval
      exact hEval
  | .cons e rest, hFresh, vs, hEval => by
      simp only [evalArgs, Option.bind_eq_bind, Option.bind_eq_some_iff, Option.pure_def,
        Option.some.injEq] at hEval
      obtain ⟨v, he, vs', hRest, rfl⟩ := hEval
      simp only [pickArgs, pick_of_eval h e hFresh.1 v he,
        pickArgs_of_evalArgs h rest hFresh.2 vs' hRest]

end

/-- The variables in `dead` have no value, and the others have what is read. -/
structure Exact (dead : List String) (ρo : Env) (ρ : String → Int) : Prop where
  none_of_dead : ∀ x ∈ dead, ρo x = none
  some_of_live : ∀ x, x ∉ dead → ρo x = some (ρ x)

variable {dead : List String} {ρo : Env} {ρ : String → Int}

theorem exact_total (ρ : String → Int) : Exact [] (fun x => some (ρ x)) ρ :=
  ⟨by simp, fun _ _ => rfl⟩

theorem Exact.under (h : Exact dead ρo ρ) : Under dead ρo ρ where
  none_of_dead := h.none_of_dead
  read x a hx := by
    by_cases hDead : x ∈ dead
    · rw [h.none_of_dead x hDead] at hx
      cases hx
    · rw [h.some_of_live x hDead] at hx
      exact Option.some.inj hx

theorem Exact.bind (h : Exact dead ρo ρ) {x : String} (hx : x ∉ dead) (v : Int) :
    Exact dead (Function.update ρo x (some v)) (Function.update ρ x v) where
  none_of_dead y hy := by
    have hne : y ≠ x := fun hEq => hx (hEq ▸ hy)
    rw [Function.update_of_ne hne]
    exact h.none_of_dead y hy
  some_of_live y hy := by
    by_cases hEq : y = x
    · subst hEq
      simp
    · rw [Function.update_of_ne hEq, Function.update_of_ne hEq]
      exact h.some_of_live y hy

theorem Exact.kill (h : Exact dead ρo ρ) (x : String) :
    Exact (x :: dead) (Function.update ρo x none) ρ where
  none_of_dead := (h.under.kill x).none_of_dead
  some_of_live y hy := by
    simp only [List.mem_cons, not_or] at hy
    rw [Function.update_of_ne hy.1]
    exact h.some_of_live y hy.2

mutual

/-- Where every select with one undef branch takes the other, the value is what is read. -/
theorem eval_of_records {dead : List String} {ρo : Env} {ρ : String → Int}
    (h : Exact dead ρo ρ) : (e : Expr F) → FreshDead dead e → alwaysUndef dead e = false →
    Records sem mem dead ρ e → eval sem mem ρo e = some (pick sem mem dead ρ e)
  | .imm v, _, _, _ => rfl
  | .var x, _, hLive, _ => by
      simp only [alwaysUndef, decide_eq_false_iff_not] at hLive
      exact h.some_of_live x hLive
  | .op f args, hFresh, hLive, hRecords => by
      simp only [eval, evalArgs_of_records h args hFresh hLive hRecords]
      rfl
  | .not a, hFresh, hLive, hRecords => by
      simp only [eval, eval_of_records h a hFresh hLive hRecords]
      rfl
  | .and a b, hFresh, hLive, hRecords => by
      simp only [alwaysUndef, Bool.or_eq_false_iff] at hLive
      simp only [eval, eval_of_records h a hFresh.1 hLive.1 hRecords.1,
        eval_of_records h b hFresh.2 hLive.2 (hRecords.2 hLive.1)]
      rfl
  | .select c t f, hFresh, hLive, hRecords => by
      obtain ⟨hc, ht, hf, hTaken⟩ := hRecords
      simp only [alwaysUndef, Bool.or_eq_false_iff] at hLive
      obtain ⟨hLiveC, hLive⟩ := hLive
      obtain ⟨hTrue, hFalse⟩ := hTaken hLiveC
      simp only [eval, pick, eval_of_records h c hFresh.1 hLiveC hc]
      cases hT : alwaysUndef dead t with
      | true =>
        have hF : alwaysUndef dead f = false := by simpa [hT] using hLive
        simp [hTrue hT hF, eval_of_records h f hFresh.2.2 hF hf]
      | false =>
        cases hF : alwaysUndef dead f with
        | true => simp [hFalse hT hF, eval_of_records h t hFresh.2.1 hT ht]
        | false =>
          simp only [eval_of_records h t hFresh.2.1 hT ht, eval_of_records h f hFresh.2.2 hF hf]
          by_cases hZero : pick sem mem dead ρ c = 0 <;> simp [hZero]
  | .letIn x v b, hFresh, hLive, hRecords => by
      simp only [FreshDead] at hFresh
      simp only [alwaysUndef] at hLive
      simp only [Records] at hRecords
      simp only [eval, pick]
      cases hv : alwaysUndef dead v with
      | true =>
        simp only [hv, if_true] at hFresh hLive hRecords ⊢
        rw [eval_of_alwaysUndef h.under v hFresh.1 hv]
        exact eval_of_records (h.kill x) b hFresh.2 hLive hRecords.2
      | false =>
        simp only [hv, Bool.false_eq_true, if_false] at hFresh hLive hRecords ⊢
        rw [eval_of_records h v hFresh.1 hv hRecords.1]
        exact eval_of_records (h.bind hFresh.2.1 _) b hFresh.2.2 hLive hRecords.2
  | .undef, _, hLive, _ => by simp [alwaysUndef] at hLive

theorem evalArgs_of_records {dead : List String} {ρo : Env} {ρ : String → Int}
    (h : Exact dead ρo ρ) : (args : Exprs F) → FreshDeadArgs dead args →
    someUndef dead args = false → RecordsArgs sem mem dead ρ args →
    evalArgs sem mem ρo args = some (pickArgs sem mem dead ρ args)
  | .nil, _, _, _ => rfl
  | .cons e rest, hFresh, hLive, hRecords => by
      simp only [someUndef, Bool.or_eq_false_iff] at hLive
      simp only [evalArgs, eval_of_records h e hFresh.1 hLive.1 hRecords.1,
        evalArgs_of_records h rest hFresh.2 hLive.2 (hRecords.2 hLive.1)]
      rfl

end

end Vyasa.RemoveUndef
