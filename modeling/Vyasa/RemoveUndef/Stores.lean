import Vyasa.Pointwise.Basic
import Vyasa.RemoveUndef.Recorded

/-! The rewritten statement makes the same writes as the statement with undef, in every run
whose steps meet what the single predicate of the pass can express. -/
namespace Vyasa.RemoveUndef

variable {F : Type}

/-! ### Guards -/

section

variable {sem : F → Memory → List Int → Int} {mem : Memory} {ρ : Env}

theorem holds_and {a b : Expr F} :
    Holds sem mem ρ (.and a b) ↔ Holds sem mem ρ a ∧ Holds sem mem ρ b := by
  simp only [Holds, eval]
  cases eval sem mem ρ a with
  | none => simp
  | some va =>
    cases eval sem mem ρ b with
    | none => simp
    | some vb => by_cases hZero : va ≠ 0 ∧ vb ≠ 0 <;> simp_all

theorem holds_foldl_and {c : Expr F} {rest : Predicate F} :
    Holds sem mem ρ (rest.foldl .and c) ↔ Holds sem mem ρ c ∧ ∀ d ∈ rest, Holds sem mem ρ d := by
  induction rest generalizing c with
  | nil => simp
  | cons d rest ih =>
    rw [List.foldl_cons, ih, holds_and, List.forall_mem_cons, and_assoc]

theorem holds_toExpr {p : Predicate F} :
    (∀ c ∈ p, Holds sem mem ρ c) ↔ ∀ e, p.toExpr = some e → Holds sem mem ρ e := by
  cases p with
  | nil => simp [Predicate.toExpr]
  | cons c rest => simp [Predicate.toExpr, holds_foldl_and]

theorem exec_guarded_of_holds {p : Predicate F} {stmt : Stmt F} {s : State}
    (h : ∀ c ∈ p, Holds sem s.mem ρ c) : exec sem ρ (guarded p stmt) s = exec sem ρ stmt s := by
  rw [guarded]
  cases hp : p.toExpr with
  | none => rfl
  | some e =>
    obtain ⟨v, hv, hNe⟩ := holds_toExpr.mp h e hp
    simp [exec, hv, hNe]

theorem exec_guarded_of_not {p : Predicate F} {stmt : Stmt F} {s : State}
    (h : ¬ ∀ c ∈ p, Holds sem s.mem ρ c) : exec sem ρ (guarded p stmt) s = s := by
  rw [guarded]
  cases hp : p.toExpr with
  | none => exact absurd (holds_toExpr.mpr (by simp [hp])) h
  | some e =>
    have hNot : ¬ Holds sem s.mem ρ e := fun he => h (holds_toExpr.mpr (by simpa [hp] using he))
    simp only [exec]
    cases he : eval sem s.mem ρ e with
    | none => rfl
    | some v =>
      have hZero : v = 0 := by
        by_contra hNe
        exact hNot ⟨v, he, hNe⟩
      simp [hZero]

end

/-! ### What a run may rely on -/

/-- Names are bound so that nothing undef gets a value, and the conditions of a store stay in
their scope. -/
def Tidy (dead : List String) : Stmt F → Prop
  | .undefined => True
  | .Store _ predicate value index =>
      FreshDead dead predicate ∧ FreshDead dead value ∧ FreshDead dead index ∧
        Apart dead [predicate, value, index]
  | .Provide _ values args =>
      (∀ e ∈ values, FreshDead dead e ∧ Apart dead [e]) ∧ ∀ e ∈ args, FreshDead dead e
  | .For name min extent body =>
      FreshDead dead min ∧ FreshDead dead extent ∧ name ∉ dead ∧ Tidy dead body
  | .LetStmt name value body => FreshDead dead value ∧
      if alwaysUndef dead value then Tidy (name :: dead) body else name ∉ dead ∧ Tidy dead body
  | .IfThenElse condition then_case else_case =>
      FreshDead dead condition ∧ Tidy dead then_case ∧ Tidy dead else_case
  | .Block first rest => Tidy dead first ∧ Tidy dead rest

section

variable (sem : F → Memory → List Int → Int)

/-- What is read of a variable. -/
def readings (ρ : Env) : String → Int := fun x => (ρ x).getD 0

/-- The `i`-th iteration of a loop starts here. -/
def afterIterations (ρ : Env) (name : String) (lo : Int) (body : Stmt F) (i : Nat) (s : State) :
    State :=
  (List.range i).foldl (fun s (j : Nat) => exec sem (Function.update ρ name (some (lo + j))) body s) s

/-- In the state before each step: a store that is not undef has every select with one undef
branch take the other, also off the path of its value; a tuple is as undef as its last element
and its location is not; and a let, a bound or a condition has a value unless it never has. -/
def Meets (dead : List String) (ρ : Env) : Stmt F → State → Prop
  | .undefined, _ => True
  | .Store _ predicate value index, s =>
      (∃ p, eval sem s.mem ρ predicate = some p ∧ p ≠ 0) → eval sem s.mem ρ value ≠ none →
      eval sem s.mem ρ index ≠ none → ∀ e ∈ [predicate, value, index],
        Records sem s.mem dead (readings ρ) e
  | .Provide _ values args, s =>
      (∀ e ∈ args, alwaysUndef dead e = false) → ∀ last, values.getLast? = some last →
      ((∀ e ∈ args, eval sem s.mem ρ e ≠ none) → (∃ v ∈ values, eval sem s.mem ρ v ≠ none) →
        Records sem s.mem dead (readings ρ) last) ∧
      (Records sem s.mem dead (readings ρ) last → (∀ e ∈ args, eval sem s.mem ρ e ≠ none) ∧
        (alwaysUndef dead last = true →
          ∀ v ∈ values, alwaysUndef dead v = false → eval sem s.mem ρ v ≠ none))
  | .For name min extent body, s =>
      alwaysUndef dead min = false → alwaysUndef dead extent = false →
      ∃ lo n, eval sem s.mem ρ min = some lo ∧ eval sem s.mem ρ extent = some n ∧
        ∀ i < n.toNat, Meets dead (Function.update ρ name (some (lo + i))) body
          (afterIterations sem ρ name lo body i s)
  | .LetStmt name value body, s =>
      if alwaysUndef dead value then Meets (name :: dead) (Function.update ρ name none) body s
      else ∃ v, eval sem s.mem ρ value = some v ∧
        Meets dead (Function.update ρ name (some v)) body s
  | .IfThenElse condition then_case else_case, s =>
      alwaysUndef dead condition = false → ∃ c, eval sem s.mem ρ condition = some c ∧
        if c ≠ 0 then Meets dead ρ then_case s else Meets dead ρ else_case s
  | .Block first rest, s => Meets dead ρ first s ∧ Meets dead ρ rest (exec sem ρ first s)

end

/-! ### One store -/

/-- The environment in which the rewritten statement runs. -/
def total (ρ : String → Int) : Env := fun x => some (ρ x)

theorem update_total (ρ : String → Int) (x : String) (v : Int) :
    Function.update (total ρ) x (some v) = total (Function.update ρ x v) := by
  funext y
  by_cases hEq : y = x
  · subst hEq
    simp [total]
  · simp [total, Function.update_of_ne hEq]

section

variable {sem : F → Memory → List Int → Int} {dead : List String} {ρo : Env} {ρ : String → Int}

/-- Both statements read the same of the variables with a value. -/
theorem Exact.reads (h : Exact dead ρo ρ) : Reads dead (total ρ) (readings ρo) := by
  intro x hx
  simp [total, readings, h.some_of_live x hx]

theorem Exact.readings (h : Exact dead ρo ρ) : Exact dead ρo (readings ρo) where
  none_of_dead := h.none_of_dead
  some_of_live x hx := by simp [RemoveUndef.readings, h.some_of_live x hx]

/-- The new expression has the value of the old one, where that has one. -/
theorem Result.eval_eq {mem : Memory} {e e' : Expr F} (hr : Result dead e (some e'))
    (hFresh : FreshDead dead e) (h : Exact dead ρo ρ) {v : Int}
    (hv : eval sem mem ρo e = some v) : eval sem mem (total ρ) e' = some v := by
  rw [hr.value hFresh sem mem _ _ h.reads e' rfl]
  exact congrArg some (pick_of_eval h.readings.under e hFresh v hv)

/-- The recorded conditions hold exactly where the selects take the branch that is left, and
then the expression has a value. -/
theorem RecordedFor.holds_iff {mem : Memory} {e : Expr F} {q : Predicate F}
    (hq : RecordedFor dead e q) (h : Exact dead ρo ρ) :
    (∀ c ∈ q, Holds sem mem (total ρ) c) ↔ Records sem mem dead (readings ρo) e :=
  hq.holds sem mem _ _ h.reads

theorem eval_ne_none {mem : Memory} {e : Expr F} (hFresh : FreshDead dead e)
    (hLive : alwaysUndef dead e = false) (h : Exact dead ρo ρ)
    (hRecords : Records sem mem dead (readings ρo) e) : eval sem mem ρo e ≠ none := by
  rw [eval_of_records h.readings e hFresh hLive hRecords]
  simp

theorem exec_store {name : String} {p v i p' v' i' : Expr F} {s : State} {q : Predicate F}
    (hp : Result dead p (some p')) (hv : Result dead v (some v')) (hi : Result dead i (some i'))
    (hFreshP : FreshDead dead p) (hFreshV : FreshDead dead v) (hFreshI : FreshDead dead i)
    (h : Exact dead ρo ρ)
    (hq : (∀ c ∈ q, Holds sem s.mem (total ρ) c) ↔
      ∀ e ∈ [p, v, i], Records sem s.mem dead (readings ρo) e)
    (hMeets : Meets sem dead ρo (.Store name p v i) s) :
    exec sem (total ρ) (guarded q (.Store name p' v' i')) s =
      exec sem ρo (.Store name p v i) s := by
  by_cases hRecords : ∀ e ∈ [p, v, i], Records sem s.mem dead (readings ρo) e
  · rw [exec_guarded_of_holds (hq.mpr hRecords)]
    have hSame : ∀ {e e' : Expr F}, Result dead e (some e') → FreshDead dead e →
        Records sem s.mem dead (readings ρo) e →
        eval sem s.mem (total ρ) e' = eval sem s.mem ρo e := by
      intro e e' hr hFresh hRec
      rw [eval_of_records h.readings e hFresh hr.live hRec]
      exact hr.value hFresh sem s.mem _ _ h.reads e' rfl
    simp only [exec, hSame hp hFreshP (hRecords p (by simp)),
      hSame hv hFreshV (hRecords v (by simp)), hSame hi hFreshI (hRecords i (by simp))]
  · rw [exec_guarded_of_not fun hHolds => hRecords (hq.mp hHolds)]
    -- some select takes its undef branch, so the store is undef by what the run relies on
    simp only [exec]
    split
    · rename_i vp vv vi hEvalP hEvalV hEvalI
      split
      · rename_i hTrue
        exact absurd (hMeets ⟨vp, hEvalP, hTrue⟩ (by simp [hEvalV]) (by simp [hEvalI])) hRecords
      · rfl
    · rfl

/-! ### One tuple -/

theorem mapM_eq_some {α β : Type} {f : α → Option β} {g : α → β} {l : List α}
    (h : ∀ a ∈ l, f a = some (g a)) : l.mapM f = some (l.map g) := by
  induction l with
  | nil => rfl
  | cons a l ih =>
    rw [List.mapM_cons, h a List.mem_cons_self, ih fun b hb => h b (List.mem_cons_of_mem _ hb)]
    rfl

theorem mapM_eq_none {α β : Type} {f : α → Option β} {l : List α} {a : α} (ha : a ∈ l)
    (h : f a = none) : l.mapM f = none := by
  induction l with
  | nil => cases ha
  | cons b l ih =>
    rw [List.mapM_cons]
    rcases List.mem_cons.mp ha with rfl | ha
    · rw [h]
      rfl
    · rw [ih ha]
      cases f b <;> rfl

theorem provideArgs_ok {args : List (Expr F)} {l : List (Expr F × Predicate F)}
    (h : provideArgs dead args = .ok l) :
    List.Forall₂ (fun a n => (mutate dead a []).1 = some n.1) args l := by
  induction args generalizing l with
  | nil =>
    cases h
    exact .nil
  | cons a args ih =>
    simp only [provideArgs] at h
    generalize hm : mutate dead a [] = m at h
    obtain ⟨_ | a', p⟩ := m
    · cases h
    · cases hRest : provideArgs dead args with
      | error p' =>
        rw [hRest] at h
        cases h
      | ok rest =>
        rw [hRest] at h
        cases h
        exact .cons (by rw [hm]) (ih hRest)

theorem provideArgs_error {args : List (Expr F)} {p : Predicate F}
    (h : provideArgs dead args = .error p) : ∃ e ∈ args, alwaysUndef dead e = true := by
  induction args with
  | nil => cases h
  | cons a args ih =>
    have ha := mutate_result dead a []
    simp only [provideArgs] at h
    generalize mutate dead a [] = m at ha h
    obtain ⟨_ | a', p⟩ := m
    · exact ⟨a, List.mem_cons_self, ha.dead⟩
    · cases hRest : provideArgs dead args with
      | error p' =>
        rw [hRest] at h
        obtain ⟨e, he, hDead⟩ := ih (by rw [hRest]; exact h)
        exact ⟨e, List.mem_cons_of_mem _ he, hDead⟩
      | ok rest =>
        rw [hRest] at h
        cases h

theorem forall₂_live {args : List (Expr F)} {l : List (Expr F × Predicate F)}
    (h : List.Forall₂ (fun a n => (mutate dead a []).1 = some n.1) args l) :
    ∀ e ∈ args, alwaysUndef dead e = false := by
  induction h with
  | nil => simp
  | @cons a n args l hHead _ ih =>
    intro e he
    rcases List.mem_cons.mp he with rfl | he
    · have hr := mutate_result dead e []
      rw [hHead] at hr
      exact hr.live
    · exact ih e he

theorem mapM_newArgs {mem : Memory} {args : List (Expr F)} {l : List (Expr F × Predicate F)}
    (hl : List.Forall₂ (fun a n => (mutate dead a []).1 = some n.1) args l)
    (hFresh : ∀ e ∈ args, FreshDead dead e) (h : Exact dead ρo ρ) :
    (l.map Prod.fst).mapM (eval sem mem (total ρ)) =
      some (args.map (pick sem mem dead (readings ρo))) := by
  induction hl with
  | nil => rfl
  | @cons a n args l hHead _ ih =>
    have hr := mutate_result dead a []
    rw [hHead] at hr
    rw [List.map_cons, List.mapM_cons, ih fun e he => hFresh e (List.mem_cons_of_mem _ he),
      hr.value (hFresh a List.mem_cons_self) sem mem _ _ h.reads n.1 rfl]
    rfl

theorem providedWrites_none {name : String} {location : List Int} {i : Nat}
    {l : List (Option Int)} (h : ∀ o ∈ l, o = none) : providedWrites name location i l = [] := by
  induction l generalizing i with
  | nil => rfl
  | cons o l ih =>
    obtain rfl := h o List.mem_cons_self
    exact ih fun o ho => h o (List.mem_cons_of_mem _ ho)

/-- Conditions that print the same hold in the same environments. -/
theorem holds_of_toExpr_eq {mem : Memory} {ρ' : Env} {p q : Predicate F}
    (h : p.toExpr = q.toExpr) (hp : ∀ c ∈ p, Holds sem mem ρ' c) : ∀ c ∈ q, Holds sem mem ρ' c :=
  holds_toExpr.mpr fun e he => holds_toExpr.mp hp e (h.trans he)

theorem toExpr_eq_of_sameConditions [DecidableEq F] {l : List (Predicate F)}
    (h : sameConditions l = true) : ∀ p ∈ l, ∀ q ∈ l, p.toExpr = q.toExpr := by
  have hHead : ∀ (l : List (Predicate F)) (p : Predicate F), sameConditions (p :: l) = true →
      ∀ q ∈ p :: l, q.toExpr = p.toExpr := by
    intro l
    induction l with
    | nil => simp
    | cons r l ih =>
      intro p hSame q hq
      simp only [sameConditions, Bool.and_eq_true, decide_eq_true_eq] at hSame
      rcases List.mem_cons.mp hq with rfl | hq
      · rfl
      · exact (ih r hSame.2 q hq).trans hSame.1.symm
  cases l with
  | nil => simp
  | cons p l =>
    intro q hq r hr
    exact (hHead l p h q hq).trans (hHead l p h r hr).symm

/-- The values of a tuple under the predicate of its last element. -/
theorem exec_provide [DecidableEq F] {name : String} {values args : List (Expr F)}
    {new_args : List (Expr F × Predicate F)} {last : Expr F} {s : State}
    (hArgs : provideArgs dead args = .ok new_args) (hLast : values.getLast? = some last)
    (hSame : sameConditions (((provideValues dead values).filter fun v => v.1.isSome).map Prod.snd)
      = true)
    (hTidy : Tidy dead (.Provide name values args)) (h : Exact dead ρo ρ)
    (hMeets : Meets sem dead ρo (.Provide name values args) s) :
    exec sem (total ρ) (guarded (mutate dead last []).2 (.Provide name
      ((provideValues dead values).map fun v => v.1.getD .undef) (new_args.map Prod.fst))) s =
      exec sem ρo (.Provide name values args) s := by
  obtain ⟨hTidyValues, hFreshArgs⟩ := hTidy
  have hForall := provideArgs_ok hArgs
  obtain ⟨hOnPath, hEnough⟩ := hMeets (forall₂_live hForall) last hLast
  have hRec : ∀ v ∈ values, RecordedFor dead v (mutate dead v []).2 := fun v hv =>
    apart_recorded_one (hTidyValues v hv).1 (hTidyValues v hv).2
  have hMem : last ∈ values := List.mem_of_getLast? hLast
  have hHolds : (∀ c ∈ (mutate dead last []).2, Holds sem s.mem (total ρ) c) ↔
      Records sem s.mem dead (readings ρo) last := (hRec last hMem).holds_iff h
  by_cases hRecords : Records sem s.mem dead (readings ρo) last
  · rw [exec_guarded_of_holds (hHolds.mpr hRecords)]
    obtain ⟨hDefined, hOthers⟩ := hEnough hRecords
    -- every element that may have a value has one
    have hValues : ∀ v ∈ values, alwaysUndef dead v = false → eval sem s.mem ρo v ≠ none := by
      intro v hv hLive
      cases hDead : alwaysUndef dead last with
      | true => exact hOthers hDead v hv hLive
      | false =>
        have hKept : ∀ w ∈ values, alwaysUndef dead w = false → (mutate dead w []).2 ∈
            ((provideValues dead values).filter fun v => v.1.isSome).map Prod.snd := by
          intro w hw hLive
          refine List.mem_map.mpr ⟨mutate dead w [], List.mem_filter.mpr ⟨?_, ?_⟩, rfl⟩
          · exact List.mem_map.mpr ⟨w, hw, rfl⟩
          · have := (mutate_result dead w []).undef
            rw [hLive] at this
            simpa [← Option.isNone_eq_false_iff] using this
        have hEq := toExpr_eq_of_sameConditions hSame _ (hKept last hMem hDead) _ (hKept v hv hLive)
        refine eval_ne_none (hTidyValues v hv).1 hLive h ((hRec v hv).holds_iff h |>.mp ?_)
        exact holds_of_toExpr_eq hEq (hHolds.mpr hRecords)
    have hPicked : ∀ e ∈ args, eval sem s.mem ρo e =
        some (pick sem s.mem dead (readings ρo) e) := by
      intro e he
      obtain ⟨a, ha⟩ := Option.ne_none_iff_exists'.mp (hDefined e he)
      rw [ha, pick_of_eval h.readings.under e (hFreshArgs e he) a ha]
    have hList : ((provideValues dead values).map fun v => v.1.getD .undef).map
        (eval sem s.mem (total ρ)) = values.map (eval sem s.mem ρo) := by
      simp only [provideValues, List.map_map]
      refine List.map_congr_left fun v hv => ?_
      have hr := mutate_result dead v []
      simp only [Function.comp_apply]
      generalize mutate dead v [] = m at hr ⊢
      obtain ⟨_ | v', p⟩ := m
      · exact (eval_of_alwaysUndef h.under v (hTidyValues v hv).1 hr.dead).symm
      · obtain ⟨a, ha⟩ := Option.ne_none_iff_exists'.mp (hValues v hv hr.live)
        rw [ha]
        exact hr.eval_eq (hTidyValues v hv).1 h ha
    simp only [exec, mapM_newArgs hForall hFreshArgs h, mapM_eq_some hPicked, hList]
  · rw [exec_guarded_of_not fun hAll => hRecords (hHolds.mp hAll)]
    simp only [exec]
    split
    · rfl
    · rename_i location hLocation
      have hDefined : ∀ e ∈ args, eval sem s.mem ρo e ≠ none := by
        intro e he hNone
        rw [mapM_eq_none he hNone] at hLocation
        cases hLocation
      rw [providedWrites_none]
      · rfl
      · intro o ho
        obtain ⟨v, hv, rfl⟩ := List.mem_map.mp ho
        by_contra hSome
        exact hRecords (hOnPath hDefined ⟨v, hv, hSome⟩)

end

/-! ### Whole statements -/

def FreeInStmt (x : String) : Stmt F → Prop
  | .undefined => False
  | .Store _ predicate value index => FreeIn x predicate ∨ FreeIn x value ∨ FreeIn x index
  | .Provide _ values args => (∃ e ∈ values, FreeIn x e) ∨ ∃ e ∈ args, FreeIn x e
  | .For name min extent body =>
      FreeIn x min ∨ FreeIn x extent ∨ (x ≠ name ∧ FreeInStmt x body)
  | .LetStmt name value body => FreeIn x value ∨ (x ≠ name ∧ FreeInStmt x body)
  | .IfThenElse condition then_case else_case =>
      FreeIn x condition ∨ FreeInStmt x then_case ∨ FreeInStmt x else_case
  | .Block first rest => FreeInStmt x first ∨ FreeInStmt x rest

theorem free_of_foldl_and {x : String} {c : Expr F} {rest : Predicate F}
    (h : FreeIn x (rest.foldl .and c)) : ∃ d ∈ c :: rest, FreeIn x d := by
  induction rest generalizing c with
  | nil => exact ⟨c, List.mem_cons_self, h⟩
  | cons d rest ih =>
    obtain ⟨e, he, hx⟩ := ih h
    rcases List.mem_cons.mp he with rfl | he
    · rcases hx with hx | hx
      · exact ⟨c, by simp, hx⟩
      · exact ⟨d, by simp, hx⟩
    · exact ⟨e, by simp [he], hx⟩

theorem free_of_guarded {x : String} {p : Predicate F} {stmt : Stmt F}
    (h : FreeInStmt x (guarded p stmt)) : (∃ c ∈ p, FreeIn x c) ∨ FreeInStmt x stmt := by
  cases p with
  | nil => exact .inr h
  | cons c rest =>
    rcases h with h | h | h
    · exact .inl (free_of_foldl_and h)
    · exact .inr h
    · cases h

/-- The rewritten statement uses names of the old one that have a value, and makes the same
writes. A statement that is dropped makes none. -/
structure StmtResult (sem : F → Memory → List Int → Int) (dead : List String) (s : Stmt F)
    (r : Option (Stmt F)) : Prop where
  free : ∀ y, FreeInStmt y (r.getD .undefined) → FreeInStmt y s ∧ y ∉ dead
  run : ∀ ρo ρ state, Exact dead ρo ρ → Meets sem dead ρo s state →
    exec sem (total ρ) (r.getD .undefined) state = exec sem ρo s state

theorem StmtResult.drop {sem : F → Memory → List Int → Int} {dead : List String} {s : Stmt F}
    (h : ∀ ρo ρ state, Exact dead ρo ρ → Meets sem dead ρo s state → exec sem ρo s state = state) :
    StmtResult sem dead s none :=
  ⟨fun _ hy => hy.elim, fun ρo ρ state hExact hMeets => (h ρo ρ state hExact hMeets).symm⟩

/-- The iterations of a loop, one after the other. -/
theorem exec_iterations {sem : F → Memory → List Int → Int} {name : String} {body body' : Stmt F} {ρo : Env} {ρ : String → Int}
    {lo : Int} {n : Nat} {state : State}
    (hStep : ∀ i < n, ∀ s, s = afterIterations sem ρo name lo body i state →
      exec sem (Function.update (total ρ) name (some (lo + i))) body' s =
        exec sem (Function.update ρo name (some (lo + i))) body s) :
    (List.range n).foldl
        (fun s (i : Nat) => exec sem (Function.update (total ρ) name (some (lo + i))) body' s) state =
      afterIterations sem ρo name lo body n state := by
  induction n with
  | zero => rfl
  | succ n ih =>
    rw [afterIterations, List.range_succ, List.foldl_append, List.foldl_append,
      ih fun i hi => hStep i (by omega)]
    exact hStep n (by omega) _ rfl

section

variable [DecidableEq F] {sem : F → Memory → List Int → Int} {dead : List String}

theorem store_result {name : String} {pred value index : Expr F} {p p' : Predicate F}
    {r : Option (Stmt F)}
    (h : mutateStmt dead (.Store name pred value index) p = some (r, p'))
    (hTidy : Tidy dead (.Store name pred value index)) :
    StmtResult sem dead (.Store name pred value index) r := by
  obtain ⟨hFreshP, hFreshV, hFreshI, hApart⟩ := hTidy
  obtain ⟨qp, qv, qi, hqp, hqv, hqi, hRecP, hRecV, hRecI⟩ :=
    apart_recorded hFreshP hFreshV hFreshI hApart
  have hP := mutate_result dead pred []
  have hV := mutate_result dead value qp
  have hI := mutate_result dead index (qp ++ qv)
  simp only [mutateStmt] at h
  generalize mutate dead pred [] = m at hqp hP h
  obtain ⟨pred', _⟩ := m
  obtain rfl := hqp
  dsimp only at h
  generalize mutate dead value _ = m at hqv hV h
  obtain ⟨_ | value', _⟩ := m
  · cases h
    refine .drop fun ρo ρ state hExact _ => ?_
    simp only [exec, eval_of_alwaysUndef hExact.under value hFreshV hV.dead]
    split <;> simp_all
  · obtain rfl := hqv
    dsimp only at h
    generalize mutate dead index _ = m at hqi hI h
    obtain ⟨_ | index', _⟩ := m
    · cases h
      refine .drop fun ρo ρ state hExact _ => ?_
      simp only [exec, eval_of_alwaysUndef hExact.under index hFreshI hI.dead]
      split <;> simp_all
    · obtain rfl := hqi
      cases pred' with
      | none => cases h
      | some pred' =>
        cases h
        constructor
        · intro y hy
          rcases free_of_guarded hy with ⟨c, hc, hy⟩ | hy
          · simp only [List.append_assoc, List.mem_append] at hc
            rcases hc with hc | hc | hc
            · exact (hRecP.free c hc y hy).imp_left .inl
            · exact (hRecV.free c hc y hy).imp_left fun h => .inr (.inl h)
            · exact (hRecI.free c hc y hy).imp_left fun h => .inr (.inr h)
          · rcases hy with hy | hy | hy
            · exact (hP.free pred' rfl y hy).imp_left .inl
            · exact (hV.free value' rfl y hy).imp_left fun h => .inr (.inl h)
            · exact (hI.free index' rfl y hy).imp_left fun h => .inr (.inr h)
        · intro ρo ρ state hExact hMeets
          refine exec_store hP hV hI hFreshP hFreshV hFreshI hExact ?_ hMeets
          simp only [List.forall_mem_append, hRecP.holds_iff hExact, hRecV.holds_iff hExact,
            hRecI.holds_iff hExact, List.forall_mem_cons, and_assoc]
          simp

theorem provide_result {name : String} {values args : List (Expr F)} {p p' : Predicate F}
    {r : Option (Stmt F)} (h : mutateStmt dead (.Provide name values args) p = some (r, p'))
    (hTidy : Tidy dead (.Provide name values args)) :
    StmtResult sem dead (.Provide name values args) r := by
  simp only [mutateStmt] at h
  cases hArgs : provideArgs dead args with
  | error q =>
    rw [hArgs] at h
    cases h
    refine .drop fun ρo ρ state hExact _ => ?_
    obtain ⟨e, he, hDead⟩ := provideArgs_error hArgs
    simp only [exec, mapM_eq_none he (eval_of_alwaysUndef hExact.under e (hTidy.2 e he) hDead)]
  | ok new_args =>
    rw [hArgs] at h
    dsimp only at h
    split at h
    · cases h
    · split at h
      · rename_i hNone
        cases h
        refine .drop fun ρo ρ state hExact _ => ?_
        simp only [exec]
        split
        · rfl
        · rw [providedWrites_none]
          · rfl
          · intro o ho
            obtain ⟨v, hv, rfl⟩ := List.mem_map.mp ho
            have hUndef : (mutate dead v []).1.isNone = true :=
              List.all_eq_true.mp hNone _ (List.mem_map.mpr ⟨v, hv, rfl⟩)
            rw [(mutate_result dead v []).undef] at hUndef
            exact eval_of_alwaysUndef hExact.under v (hTidy.1 v hv).1 hUndef
      · rename_i hSome
        split at h
        · cases h
        · rename_i hSame
          cases h
          have hLast : ∃ last, values.getLast? = some last := by
            cases values with
            | nil => simp [provideValues] at hSome
            | cons v values => exact ⟨_, List.getLast?_cons⟩
          obtain ⟨last, hLast⟩ := hLast
          have hPredicate : ((((provideValues dead values).map Prod.snd).getLast?.orElse fun _ =>
              (new_args.map Prod.snd).getLast?).getD []) = (mutate dead last []).2 := by
            simp [provideValues, List.getLast?_map, hLast]
          rw [hPredicate]
          have hMem : last ∈ values := List.mem_of_getLast? hLast
          constructor
          · intro y hy
            rcases free_of_guarded hy with ⟨c, hc, hy⟩ | ⟨e, he, hy⟩ | ⟨e, he, hy⟩
            · have hRec := apart_recorded_one (hTidy.1 last hMem).1 (hTidy.1 last hMem).2
              exact (hRec.free c hc y hy).imp_left fun h => .inl ⟨last, hMem, h⟩
            · simp only [provideValues, List.map_map, List.mem_map, Function.comp_apply] at he
              obtain ⟨v, hv, rfl⟩ := he
              have hr := mutate_result dead v []
              generalize mutate dead v [] = m at hr hy
              obtain ⟨_ | v', q⟩ := m
              · cases hy
              · exact (hr.free v' rfl y hy).imp_left fun h => .inl ⟨v, hv, h⟩
            · obtain ⟨n, hn, rfl⟩ := List.mem_map.mp he
              obtain ⟨a, ha, hNew⟩ := Pointwise.exists_left (provideArgs_ok hArgs) hn
              have hr := mutate_result dead a []
              exact (hr.free n.1 hNew y hy).imp_left fun h => .inr ⟨a, ha, h⟩
          · intro ρo ρ state hExact hMeets
            exact exec_provide hArgs hLast (by simpa using hSame) hTidy hExact hMeets

theorem for_result {name : String} {min extent : Expr F} {body : Stmt F}
    (ih : ∀ {p p' : Predicate F} {r : Option (Stmt F)},
      mutateStmt dead body p = some (r, p') → Tidy dead body → StmtResult sem dead body r)
    {p p' : Predicate F} {r : Option (Stmt F)}
    (h : mutateStmt dead (.For name min extent body) p = some (r, p'))
    (hTidy : Tidy dead (.For name min extent body)) :
    StmtResult sem dead (.For name min extent body) r := by
  obtain ⟨hFreshMin, hFreshExtent, hName, hTidyBody⟩ := hTidy
  have hMin := mutate_result dead min p
  simp only [mutateStmt] at h
  generalize mutate dead min p = m at hMin h
  obtain ⟨_ | min', p₁⟩ := m
  · cases h
    refine .drop fun ρo ρ state hExact _ => ?_
    simp only [exec, eval_of_alwaysUndef hExact.under min hFreshMin hMin.dead]
  · have hExtent := mutate_result dead extent p₁
    dsimp only at h
    generalize mutate dead extent p₁ = m at hExtent h
    obtain ⟨_ | extent', p₂⟩ := m
    · cases h
      refine .drop fun ρo ρ state hExact _ => ?_
      simp only [exec, eval_of_alwaysUndef hExact.under extent hFreshExtent hExtent.dead]
      split <;> simp_all
    · dsimp only at h
      cases hBody : mutateStmt dead body p₂ with
      | none =>
        rw [hBody] at h
        cases h
      | some result =>
        obtain ⟨body', p₃⟩ := result
        have hResult := ih hBody hTidyBody
        rw [hBody] at h
        -- one iteration, from the state the loop has reached
        have hStep : ∀ {ρo : Env} {ρ : String → Int} {state : State} {lo n : Int},
            Exact dead ρo ρ → (∀ i < n.toNat, Meets sem dead
              (Function.update ρo name (some (lo + i))) body
              (afterIterations sem ρo name lo body i state)) →
            (List.range n.toNat).foldl (fun s (i : Nat) => exec sem
              (Function.update (total ρ) name (some (lo + i))) (body'.getD .undefined) s) state =
              afterIterations sem ρo name lo body n.toNat state := by
          intro ρo ρ state lo n hExact hMeets
          refine exec_iterations fun i hi s hs => ?_
          rw [update_total]
          refine hResult.run _ _ s (hExact.bind hName _) ?_
          rw [hs]
          exact hMeets i hi
        cases body' with
        | none =>
          cases h
          refine .drop fun ρo ρ state hExact hMeets => ?_
          obtain ⟨lo, n, hLo, hn, hIter⟩ := hMeets hMin.live hExtent.live
          simp only [exec, hLo, hn]
          refine (hStep hExact hIter).symm.trans ?_
          simp [exec]
        | some body' =>
          cases h
          constructor
          · intro y hy
            rcases hy with hy | hy | ⟨hNe, hy⟩
            · exact (hMin.free min' rfl y hy).imp_left .inl
            · exact (hExtent.free extent' rfl y hy).imp_left fun h => .inr (.inl h)
            · exact (hResult.free y hy).imp_left fun h => .inr (.inr ⟨hNe, h⟩)
          · intro ρo ρ state hExact hMeets
            obtain ⟨lo, n, hLo, hn, hIter⟩ := hMeets hMin.live hExtent.live
            simp only [Option.getD_some, exec, hLo, hn, hMin.eval_eq hFreshMin hExact hLo,
              hExtent.eval_eq hFreshExtent hExact hn]
            exact hStep hExact hIter

theorem let_result {name : String} {value : Expr F} {body : Stmt F}
    (ih : ∀ {dead : List String} {p p' : Predicate F} {r : Option (Stmt F)},
      mutateStmt dead body p = some (r, p') → Tidy dead body → StmtResult sem dead body r)
    {p p' : Predicate F} {r : Option (Stmt F)}
    (h : mutateStmt dead (.LetStmt name value body) p = some (r, p'))
    (hTidy : Tidy dead (.LetStmt name value body)) :
    StmtResult sem dead (.LetStmt name value body) r := by
  obtain ⟨hFresh, hTidy⟩ := hTidy
  have hValue := mutate_result dead value p
  simp only [mutateStmt] at h
  generalize mutate dead value p = m at hValue h
  obtain ⟨_ | value', p₁⟩ := m
  · rw [if_pos hValue.dead] at hTidy
    have hResult := ih h hTidy
    constructor
    · intro y hy
      obtain ⟨hFree, hLive⟩ := hResult.free y hy
      simp only [List.mem_cons, not_or] at hLive
      exact ⟨.inr ⟨hLive.1, hFree⟩, hLive.2⟩
    · intro ρo ρ state hExact hMeets
      simp only [Meets, hValue.dead, if_true] at hMeets
      simp only [exec, eval_of_alwaysUndef hExact.under value hFresh hValue.dead]
      exact hResult.run _ ρ state (hExact.kill name) hMeets
  · rw [if_neg (by simp [hValue.live])] at hTidy
    dsimp only at h
    cases hBody : mutateStmt dead body p₁ with
    | none =>
      rw [hBody] at h
      cases h
    | some result =>
      obtain ⟨body', p₂⟩ := result
      have hResult := ih hBody hTidy.2
      rw [hBody] at h
      cases body' with
      | none =>
        cases h
        refine .drop fun ρo ρ state hExact hMeets => ?_
        simp only [Meets, hValue.live, Bool.false_eq_true, if_false] at hMeets
        obtain ⟨v, hv, hMeets⟩ := hMeets
        simp only [exec, hv]
        exact (hResult.run _ _ state (hExact.bind hTidy.1 v) hMeets).symm
      | some body' =>
        cases h
        constructor
        · intro y hy
          rcases hy with hy | ⟨hNe, hy⟩
          · exact (hValue.free value' rfl y hy).imp_left .inl
          · exact (hResult.free y hy).imp_left fun h => .inr ⟨hNe, h⟩
        · intro ρo ρ state hExact hMeets
          simp only [Meets, hValue.live, Bool.false_eq_true, if_false] at hMeets
          obtain ⟨v, hv, hMeets⟩ := hMeets
          simp only [Option.getD_some, exec, hv, hValue.eval_eq hFresh hExact hv, update_total]
          exact hResult.run _ _ state (hExact.bind hTidy.1 v) hMeets

theorem if_result {condition : Expr F} {then_case else_case : Stmt F}
    (ihThen : ∀ {p p' : Predicate F} {r : Option (Stmt F)},
      mutateStmt dead then_case p = some (r, p') → Tidy dead then_case →
      StmtResult sem dead then_case r)
    (ihElse : ∀ {p p' : Predicate F} {r : Option (Stmt F)},
      mutateStmt dead else_case p = some (r, p') → Tidy dead else_case →
      StmtResult sem dead else_case r)
    {p p' : Predicate F} {r : Option (Stmt F)}
    (h : mutateStmt dead (.IfThenElse condition then_case else_case) p = some (r, p'))
    (hTidy : Tidy dead (.IfThenElse condition then_case else_case)) :
    StmtResult sem dead (.IfThenElse condition then_case else_case) r := by
  obtain ⟨hFresh, hTidyThen, hTidyElse⟩ := hTidy
  have hCondition := mutate_result dead condition p
  simp only [mutateStmt] at h
  generalize mutate dead condition p = m at hCondition h
  obtain ⟨_ | condition', p₁⟩ := m
  · cases h
    refine .drop fun ρo ρ state hExact _ => ?_
    simp only [exec, eval_of_alwaysUndef hExact.under condition hFresh hCondition.dead]
  · dsimp only at h
    cases hThen : mutateStmt dead then_case p₁ with
    | none =>
      rw [hThen] at h
      cases h
    | some result =>
      obtain ⟨then', p₂⟩ := result
      rw [hThen] at h
      dsimp only at h
      cases hElse : mutateStmt dead else_case p₂ with
      | none =>
        rw [hElse] at h
        cases h
      | some result =>
        obtain ⟨else', p₃⟩ := result
        rw [hElse] at h
        have hResultThen := ihThen hThen hTidyThen
        have hResultElse := ihElse hElse hTidyElse
        -- the case taken, in terms of the new ones
        have hRun : ∀ {ρo : Env} {ρ : String → Int} {state : State}, Exact dead ρo ρ →
            Meets sem dead ρo (.IfThenElse condition then_case else_case) state →
            ∃ c, eval sem state.mem (total ρ) condition' = some c ∧
              exec sem ρo (.IfThenElse condition then_case else_case) state =
                if c ≠ 0 then exec sem (total ρ) (then'.getD .undefined) state
                else exec sem (total ρ) (else'.getD .undefined) state := by
          intro ρo ρ state hExact hMeets
          obtain ⟨c, hc, hMeets⟩ := hMeets hCondition.live
          refine ⟨c, hCondition.eval_eq hFresh hExact hc, ?_⟩
          simp only [exec, hc]
          split
          · rename_i hTrue
            rw [if_pos hTrue] at hMeets
            exact (hResultThen.run ρo ρ state hExact hMeets).symm
          · rename_i hFalse
            rw [if_neg hFalse] at hMeets
            exact (hResultElse.run ρo ρ state hExact hMeets).symm
        rcases then' with _ | then'
        · rcases else' with _ | else'
          · cases h
            refine .drop fun ρo ρ state hExact hMeets => ?_
            obtain ⟨c, -, hEq⟩ := hRun hExact hMeets
            rw [hEq]
            simp [exec]
          · cases h
            constructor
            · intro y hy
              rcases hy with hy | hy | hy
              · exact (hCondition.free condition' rfl y hy).imp_left .inl
              · exact (hResultElse.free y hy).imp_left fun h => .inr (.inr h)
              · cases hy
            · intro ρo ρ state hExact hMeets
              obtain ⟨c, hc, hEq⟩ := hRun hExact hMeets
              rw [hEq]
              by_cases hZero : c = 0 <;> simp [exec, eval, hc, hZero]
        · cases h
          constructor
          · intro y hy
            rcases hy with hy | hy | hy
            · exact (hCondition.free condition' rfl y hy).imp_left .inl
            · exact (hResultThen.free y hy).imp_left fun h => .inr (.inl h)
            · exact (hResultElse.free y hy).imp_left fun h => .inr (.inr h)
          · intro ρo ρ state hExact hMeets
            obtain ⟨c, hc, hEq⟩ := hRun hExact hMeets
            rw [hEq]
            simp only [Option.getD_some, exec, hc]

theorem block_result {first rest : Stmt F}
    (ihFirst : ∀ {p p' : Predicate F} {r : Option (Stmt F)},
      mutateStmt dead first p = some (r, p') → Tidy dead first → StmtResult sem dead first r)
    (ihRest : ∀ {p p' : Predicate F} {r : Option (Stmt F)},
      mutateStmt dead rest p = some (r, p') → Tidy dead rest → StmtResult sem dead rest r)
    {p p' : Predicate F} {r : Option (Stmt F)}
    (h : mutateStmt dead (.Block first rest) p = some (r, p'))
    (hTidy : Tidy dead (.Block first rest)) : StmtResult sem dead (.Block first rest) r := by
  simp only [mutateStmt] at h
  cases hFirst : mutateStmt dead first p with
  | none =>
    rw [hFirst] at h
    cases h
  | some result =>
    obtain ⟨first', p₁⟩ := result
    rw [hFirst] at h
    dsimp only at h
    cases hRest : mutateStmt dead rest p₁ with
    | none =>
      rw [hRest] at h
      cases h
    | some result =>
      obtain ⟨rest', p₂⟩ := result
      rw [hRest] at h
      have hResultFirst := ihFirst hFirst hTidy.1
      have hResultRest := ihRest hRest hTidy.2
      have hRun : ∀ {ρo : Env} {ρ : String → Int} {state : State}, Exact dead ρo ρ →
          Meets sem dead ρo (.Block first rest) state →
          exec sem ρo (.Block first rest) state = exec sem (total ρ) (rest'.getD .undefined)
            (exec sem (total ρ) (first'.getD .undefined) state) := by
        intro ρo ρ state hExact hMeets
        rw [hResultFirst.run ρo ρ state hExact hMeets.1]
        exact (hResultRest.run ρo ρ _ hExact hMeets.2).symm
      rcases rest' with _ | rest'
      · cases h
        constructor
        · intro y hy
          exact (hResultFirst.free y hy).imp_left .inl
        · intro ρo ρ state hExact hMeets
          rw [hRun hExact hMeets]
          rfl
      rcases first' with _ | first'
      · cases h
        constructor
        · intro y hy
          exact (hResultRest.free y hy).imp_left .inr
        · intro ρo ρ state hExact hMeets
          rw [hRun hExact hMeets]
          rfl
      · cases h
        constructor
        · intro y hy
          rcases hy with hy | hy
          · exact (hResultFirst.free y hy).imp_left .inl
          · exact (hResultRest.free y hy).imp_left .inr
        · intro ρo ρ state hExact hMeets
          rw [hRun hExact hMeets]
          rfl

theorem mutateStmt_result {s : Stmt F} {dead : List String} {p p' : Predicate F}
    {r : Option (Stmt F)} (h : mutateStmt dead s p = some (r, p')) (hTidy : Tidy dead s) :
    StmtResult sem dead s r := by
  induction s generalizing dead p p' r with
  | undefined =>
    cases h
    exact .drop fun _ _ _ _ _ => rfl
  | Store name predicate value index => exact store_result h hTidy
  | Provide name values args => exact provide_result h hTidy
  | For name min extent body ih => exact for_result ih h hTidy
  | LetStmt name value body ih => exact let_result ih h hTidy
  | IfThenElse condition then_case else_case ihThen ihElse =>
    exact if_result ihThen ihElse h hTidy
  | Block first rest ihFirst ihRest => exact block_result ihFirst ihRest h hTidy

/-- The rewritten statement uses only names of the old one, and in every run that meets the
conditions it makes the same writes, in the same order, as the statement with undef. -/
theorem remove_undef_writes (sem : F → Memory → List Int → Int) {s : Stmt F}
    {r : Option (Stmt F)} (h : remove_undef s = some r) (hTidy : Tidy [] s) :
    (∀ y, FreeInStmt y (r.getD .undefined) → FreeInStmt y s) ∧
      ∀ (ρ : String → Int) (state : State), Meets sem [] (total ρ) s state →
        exec sem (total ρ) (r.getD .undefined) state = exec sem (total ρ) s state := by
  simp only [remove_undef] at h
  split at h
  · rename_i s' hStmt
    cases h
    have hResult : StmtResult sem [] s r := mutateStmt_result hStmt hTidy
    exact ⟨fun y hy => (hResult.free y hy).1,
      fun ρ state hMeets => hResult.run _ ρ state (exact_total ρ) hMeets⟩
  · cases h

end

/-! ### Stores without operators -/

def noOps : Empty → Memory → List Int → Int := nofun

/-- Nothing written yet. -/
def blank : State := ⟨fun _ _ _ => 0, []⟩

/-- `f(0) = select(c, 1, undef)` -/
def oneBranch : Stmt Empty := .Store "f" (.imm 1) (.select (.var "c") (.imm 1) .undef) (.imm 0)

theorem remove_undef_writes_oneBranch : ∃ r, remove_undef oneBranch = some (some r) ∧
    (exec noOps (total fun _ => 1) oneBranch blank).writes = [⟨"f", 0, [0], 1⟩] ∧
    exec noOps (total fun _ => 1) r blank = exec noOps (total fun _ => 1) oneBranch blank := by
  have hTidy : Tidy [] oneBranch := by
    refine ⟨trivial, ⟨trivial, trivial, trivial⟩, trivial, .inr ⟨["c"], ?_⟩⟩
    simp [NoRebind, LeakFree]
  refine ⟨_, rfl, rfl, (remove_undef_writes noOps rfl hTidy).2 _ _ ?_⟩
  intro _ _ _ e he
  simp only [List.mem_cons, List.not_mem_nil, or_false] at he
  rcases he with rfl | rfl | rfl
  · trivial
  · simp [Records, pick, alwaysUndef, readings, total]
  · trivial

/-- `f(0) = select(c, select(d, 1, undef), 2)` is dropped where neither `c` nor `d` holds. -/
theorem store_off_path_dropped : ∃ r,
    remove_undef (.Store "f" (.imm 1)
      (.select (.var "c") (.select (.var "d") (.imm 1) .undef) (.imm 2)) (.imm 0) : Stmt Empty) =
        some (some r) ∧
    (exec noOps (total fun _ => 0) (.Store "f" (.imm 1)
      (.select (.var "c") (.select (.var "d") (.imm 1) .undef) (.imm 2)) (.imm 0)) blank).writes =
        [⟨"f", 0, [0], 2⟩] ∧
    (exec noOps (total fun _ => 0) r blank).writes = [] :=
  ⟨_, rfl, rfl, rfl⟩

-- The guard of a tuple is lost where its last element is undef: one value is written anyway.
example : ∃ r,
    remove_undef (.Provide "f" [.select (.var "c") (.imm 1) .undef, .undef] [.imm 0] : Stmt Empty) =
      some (some r) ∧
    (exec noOps (total fun _ => 0) r blank).writes = [⟨"f", 0, [0], 1⟩] :=
  ⟨_, rfl, rfl⟩

-- The guard of a let around a store is lost.
example : ∃ r,
    remove_undef (.LetStmt "x" (.select (.var "c") (.imm 1) .undef)
      (.Store "f" (.imm 1) (.var "x") (.imm 0)) : Stmt Empty) = some (some r) ∧
    (exec noOps (total fun _ => 0) r blank).writes = [⟨"f", 0, [0], 1⟩] :=
  ⟨_, rfl, rfl⟩

end Vyasa.RemoveUndef
