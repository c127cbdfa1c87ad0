import Vyasa.Simplify.Facts

/-! When the replacements that the simplifier keeps for its variables lead
nowhere twice, and that the visit of a variable then returns. -/
namespace Vyasa.Simplify

open Word Vyasa.Expr Graph Relation

variable {scope : Scope VarInfo} {l l₁ l' : Learning} {rs rs' : List (Name × Expr)}
  {mutateInfo : Facts → Expr → ExprInfo}

section Learn

/-- A learning that pushes these replacements, and notes them for its destructor. -/
def Pushes (rs : List (Name × Expr)) (l l' : Learning) : Prop :=
  l'.simplify.varInfo = l.simplify.varInfo.replaceAll rs ∧
    l'.fact.popList = l.fact.popList ++ rs.map Prod.fst

theorem pushes_nil (hInfo : l'.simplify.varInfo = l.simplify.varInfo)
    (hPop : l'.fact.popList = l.fact.popList) : Pushes [] l l' :=
  ⟨hInfo, by rw [hPop, List.map_nil, List.append_nil]⟩

theorem Pushes.append (h : Pushes rs l l₁) (h' : Pushes rs' l₁ l') : Pushes (rs ++ rs') l l' := by
  refine ⟨?_, ?_⟩
  · rw [h'.1, h.1, Scope.replaceAll, Scope.replaceAll, Scope.replaceAll, List.foldl_append]
  · rw [h'.2, h.2, List.map_append, List.append_assoc]

theorem pushes_learnReplacement (v : Name) (replacement : Expr) (l : Learning) :
    Pushes [(v, replacement)] l (l.learnReplacement v replacement) :=
  ⟨rfl, rfl⟩

theorem pushes_learnInfo {v : Name} {info : ExprInfo} (h : l.learnInfo v info = some l') :
    Pushes [] l l' := by
  rw [Learning.learnInfo, Option.map_eq_some_iff] at h
  obtain ⟨_, -, rfl⟩ := h
  exact pushes_nil rfl rfl

theorem pushes_learnSide {a b : Expr} {learn : Name → Int64 → Learning → Option Learning}
    (hLearn : ∀ v i l l', learn v i l = some l' → Pushes [] l l')
    (h : Learning.learnSide a b learn l = some l') : Pushes [] l l' := by
  unfold Learning.learnSide at h
  split at h
  · exact hLearn _ _ _ _ h
  · cases h
    exact pushes_nil rfl rfl

theorem pushes_learnOrder {a b : Expr} {left right : Name → Int64 → Learning → Option Learning}
    (hLeft : ∀ v i l l', left v i l = some l' → Pushes [] l l')
    (hRight : ∀ v i l l', right v i l = some l' → Pushes [] l l')
    (h : Learning.learnOrder a b left right l = some l') : Pushes [] l l' := by
  rw [Learning.learnOrder, Option.bind_eq_some_iff] at h
  obtain ⟨l₁, hFirst, hSecond⟩ := h
  exact (pushes_learnSide hLeft hFirst).append (pushes_learnSide hRight hSecond)

theorem pushes_learnUpperBound (v : Name) (i : Int64) (l l' : Learning)
    (h : l.learnUpperBound v i = some l') : Pushes [] l l' :=
  pushes_learnInfo h

theorem pushes_learnLowerBound (v : Name) (i : Int64) (l l' : Learning)
    (h : l.learnLowerBound v i = some l') : Pushes [] l l' :=
  pushes_learnInfo h

theorem pushes_learnAlignment {a b : Expr} (h : Learning.learnAlignment a b l = some l') :
    Pushes [] l l' := by
  unfold Learning.learnAlignment at h
  split at h
  · split at h
    · exact pushes_learnInfo h
    · cases h
      exact pushes_nil rfl rfl
  · cases h
    exact pushes_nil rfl rfl

theorem pushes_learnEQ {a b : Expr} (h : Learning.learnEQ mutateInfo a b l = some l') :
    Pushes (replacementsTrue (.cmp .eq a b)) l l' := by
  unfold Learning.learnEQ at h
  split at h
  case h_1 T v =>
    rw [replacementsTrue]
    split_ifs at h with hReplaces hSigned
    · rw [if_pos hReplaces]
      cases h
      exact pushes_learnReplacement v b l
    · rw [if_neg hReplaces]
      exact pushes_learnInfo h
    · rw [if_neg hReplaces]
      cases h
      exact pushes_nil rfl rfl
  case h_2 hNotVar =>
    rw [show replacementsTrue (.cmp .eq a b) = [] by cases a <;> simp_all [replacementsTrue]]
    exact pushes_learnAlignment h

theorem pushes_learnTruth (fact : Expr) (l : Learning) : Pushes [] l (l.learnTruth fact) := by
  unfold Learning.learnTruth
  split <;> exact pushes_nil rfl rfl

theorem pushes_learnFalsehood (fact : Expr) (l : Learning) :
    Pushes [] l (l.learnFalsehood fact) := by
  unfold Learning.learnFalsehood
  split <;> exact pushes_nil rfl rfl

theorem pushes_learnNE {a b : Expr}
    (h : Learning.learnFalse mutateInfo (.cmp .ne a b) l = some l') :
    Pushes (replacementsFalse (.cmp .ne a b)) l l' := by
  rw [Learning.learnFalse.eq_def] at h
  dsimp only at h
  split at h
  case h_1 T v =>
    rw [replacementsFalse]
    split_ifs at h ⊢ with hConst
    · cases h
      exact pushes_learnReplacement v b l
    · cases h
      exact pushes_nil rfl rfl
  case h_2 hNotVar =>
    rw [show replacementsFalse (.cmp .ne a b) = [] by cases a <;> simp_all [replacementsFalse]]
    cases h
    exact pushes_nil rfl rfl

/-- What a condition pushes does not depend on what is known when it is learned. -/
theorem pushes_learn (fact : Expr) :
    (∀ l l', Learning.learnTrue mutateInfo fact l = some l' →
      Pushes (replacementsTrue fact) l l') ∧
    (∀ l l', Learning.learnFalse mutateInfo fact l = some l' →
      Pushes (replacementsFalse fact) l l') := by
  induction fact with
  | var T v =>
    refine ⟨fun l l' h => ?_, fun l l' h => ?_⟩
    · cases h
      exact pushes_learnReplacement v constTrue l
    · cases h
      exact pushes_learnReplacement v constFalse l
  | cmp op a b =>
    cases op
    case eq =>
      refine ⟨fun l l' h => pushes_learnEQ h, fun l l' h => ?_⟩
      cases h
      exact pushes_learnFalsehood _ l
    case ne =>
      refine ⟨fun l l' h => ?_, fun l l' h => pushes_learnNE h⟩
      cases h
      exact pushes_learnTruth _ l
    case lt =>
      exact ⟨fun l l' h => pushes_learnOrder (fun v i => pushes_learnUpperBound v _)
          (fun v i => pushes_learnLowerBound v _) h,
        fun l l' h => pushes_learnOrder pushes_learnLowerBound pushes_learnUpperBound h⟩
    case le =>
      exact ⟨fun l l' h => pushes_learnOrder pushes_learnUpperBound pushes_learnLowerBound h,
        fun l l' h => pushes_learnOrder (fun v i => pushes_learnLowerBound v _)
          (fun v i => pushes_learnUpperBound v _) h⟩
    all_goals
      refine ⟨fun l l' h => ?_, fun l l' h => ?_⟩
      · cases h
        exact pushes_learnTruth _ l
      · cases h
        exact pushes_learnFalsehood _ l
  | bin op a b iha ihb =>
    cases op
    case and =>
      refine ⟨fun l l' h => ?_, fun l l' h => ?_⟩
      · obtain ⟨l₁, hFirst, hSecond⟩ := Option.bind_eq_some_iff.mp h
        exact (iha.1 l l₁ hFirst).append (ihb.1 l₁ l' hSecond)
      · cases h
        exact pushes_learnFalsehood _ l
    case or =>
      refine ⟨fun l l' h => ?_, fun l l' h => ?_⟩
      · cases h
        exact pushes_learnTruth _ l
      · obtain ⟨l₁, hFirst, hSecond⟩ := Option.bind_eq_some_iff.mp h
        exact (iha.2 l l₁ hFirst).append (ihb.2 l₁ l' hSecond)
    all_goals
      refine ⟨fun l l' h => ?_, fun l l' h => ?_⟩
      · cases h
        exact pushes_learnTruth _ l
      · cases h
        exact pushes_learnFalsehood _ l
  | not a ih => exact ⟨ih.2, ih.1⟩
  | _ =>
    refine ⟨fun l l' h => ?_, fun l l' h => ?_⟩
    · cases h
      exact pushes_learnTruth _ l
    · cases h
      exact pushes_learnFalsehood _ l

end Learn

section Scopes

theorem replaces_push (scope : Scope VarInfo) (v : Name) (info : VarInfo) :
    Replaces (scope.push v info) =
      Redirect (Replaces scope) v
        (fun w => ∃ replacement, info.replacement = some replacement ∧ replacement.mentions w) := by
  funext a b
  rw [Replaces, Redirect, eq_iff_iff]
  by_cases h : a = v
  · subst h
    rw [Scope.get_push_self]
    cases info
    simp
  · rw [Scope.get_push_of_ne h]
    simp [h, Replaces]

theorem terminating_empty : Terminating (Replaces {}) := by
  refine ⟨fun v => Acc.intro v fun w hStep => ?_⟩
  obtain ⟨_, hGet, -⟩ := hStep
  cases hGet

theorem terminating_push {v : Name} {info : VarInfo} (h : Terminating (Replaces scope))
    (hNew : ∀ replacement, info.replacement = some replacement →
      ∀ w, replacement.mentions w → ¬ ReflTransGen (Replaces scope) w v) :
    Terminating (Replaces (scope.push v info)) := by
  rw [replaces_push]
  refine h.redirect fun w hw => ?_
  obtain ⟨replacement, hEq, hMentions⟩ := hw
  exact hNew replacement hEq w hMentions

/-- One replacement closes a cycle exactly when it is reached from what it mentions. -/
theorem terminating_push_iff {v : Name} {replacement : Expr} (h : Terminating (Replaces scope)) :
    Terminating (Replaces (scope.push v { replacement := some replacement })) ↔
      ∀ w, replacement.mentions w → ¬ ReflTransGen (Replaces scope) w v := by
  rw [replaces_push, terminating_redirect_iff h]
  simp

theorem terminating_replaceAll (h : Terminating (Replaces scope)) (hNew : Unreached scope rs) :
    Terminating (Replaces (scope.replaceAll rs)) := by
  induction rs generalizing scope with
  | nil => exact h
  | cons r rs ih =>
    obtain ⟨v, replacement⟩ := r
    exact ih ((terminating_push_iff h).mpr hNew.1) hNew.2

/-- The destructor of a learned fact undoes its replacements. -/
theorem popAll_replaceAll (scope : Scope VarInfo) (names : List Name) (rs : List (Name × Expr)) :
    (scope.replaceAll rs).popAll (names ++ rs.map Prod.fst) = scope.popAll names := by
  induction rs using List.reverseRecOn with
  | nil => rw [List.map_nil, List.append_nil]; rfl
  | append_singleton rs r ih =>
    rw [Scope.replaceAll, List.foldl_append, List.map_append, ← List.append_assoc]
    exact (Scope.popAll_push _ _ _ _).trans ih

end Scopes

section Run

/-- The names whose replacements a scope of the traversal pops. -/
def Frame.names : Frame → List Name
  | .fact learned => learned.popList
  | .variable name => [name]
  | .tracked _ => []

theorem Frame.leave_varInfo (simplify : Facts) (frame : Frame) :
    (frame.leave simplify).varInfo = simplify.varInfo.popAll frame.names := by
  cases frame <;> rfl

/-- The replacements terminate in the scopes that the traversal is in, and in
those it returns to. -/
def Unwinds : Scope VarInfo → List Frame → Prop
  | scope, [] => Terminating (Replaces scope)
  | scope, frame :: frames =>
      Terminating (Replaces scope) ∧ Unwinds (scope.popAll frame.names) frames

theorem Unwinds.terminating {frames : List Frame} (h : Unwinds scope frames) :
    Terminating (Replaces scope) := by
  cases frames with
  | nil => exact h
  | cons frame frames => exact h.1

/-- A learned condition keeps the scopes below its own. -/
theorem unwinds_learn {s t : State} {learn : Learning → Option Learning}
    (hPushes : ∀ l l', learn l = some l' → Pushes rs l l')
    (hNew : Unreached s.simplify.varInfo rs) (h : Unwinds s.simplify.varInfo s.frames)
    (hStep : s.learn learn = some t) : Unwinds t.simplify.varInfo t.frames := by
  unfold State.learn at hStep
  split at hStep
  case h_1 learned frames hFrames =>
    obtain ⟨l, hLearn, hEq⟩ := Option.bind_eq_some_iff.mp hStep
    cases hEq
    obtain ⟨hInfo, hPop⟩ := hPushes _ l hLearn
    rw [hFrames] at h
    refine ⟨?_, ?_⟩
    · rw [hInfo]
      exact terminating_replaceAll h.1 hNew
    · dsimp only [Frame.names]
      rw [hInfo, hPop, popAll_replaceAll]
      exact h.2
  case h_2 => cases hStep

theorem unwinds_step {s t : State} {a : Step} (hMeets : a.Meets s)
    (h : Unwinds s.simplify.varInfo s.frames) (hStep : s.step mutateInfo a = some t) :
    Unwinds t.simplify.varInfo t.frames := by
  cases a with
  | enter =>
    cases hStep
    exact ⟨h.terminating, h⟩
  | learnTrue fact => exact unwinds_learn (pushes_learn fact).1 hMeets h hStep
  | learnFalse fact => exact unwinds_learn (pushes_learn fact).2 hMeets h hStep
  | bind name info =>
    simp only [State.step] at hStep
    split at hStep
    · cases hStep
    · cases hStep
      refine ⟨terminating_push h.terminating ?_, ?_⟩
      · intro replacement hEq
        cases info
        cases hEq
        exact hMeets.1
      · exact (Scope.popAll_push s.simplify.varInfo [] name info).symm ▸ h
  | track name info =>
    cases hStep
    exact ⟨h.terminating, h⟩
  | leave =>
    simp only [State.step] at hStep
    split at hStep
    case h_1 frame frames hFrames =>
      cases hStep
      rw [hFrames] at h
      rw [Frame.leave_varInfo]
      exact h.2
    case h_2 => cases hStep

/-- A run of the traversal whose steps all meet the condition. -/
abbrev Runs (mutateInfo : Facts → Expr → ExprInfo) : State → State → Prop :=
  ReflTransGen fun s t => ∃ a : Step, a.Meets s ∧ s.step mutateInfo a = some t

theorem unwinds_run {s t : State} (h : Unwinds s.simplify.varInfo s.frames)
    (hRun : Runs mutateInfo s t) : Unwinds t.simplify.varInfo t.frames := by
  induction hRun with
  | refl => exact h
  | tail _ hStep ih =>
    obtain ⟨a, hMeets, hStep⟩ := hStep
    exact unwinds_step hMeets ih hStep

end Run

section Visit

open Filter

theorem finite_mentions (e : Expr) : {name | e.mentions name = true}.Finite := by
  induction e with
  | imm | marker => simp
  | var T n => simp
  | cast _ _ ih | not _ ih | unaryCall _ _ ih | intrin _ _ ih | load _ _ _ ih => exact ih
  | bin _ _ _ iha ihb | cmp _ _ _ iha ihb | binCall _ _ _ iha ihb =>
    exact (iha.union ihb).subset fun n hn => by simpa using hn
  | select _ _ _ ihc iht ihf =>
    exact ((ihc.union iht).union ihf).subset fun n hn => by simpa [or_assoc] using hn
  | letIn _ _ _ ihv ihb =>
    refine (ihv.union ihb).subset fun n hn => ?_
    simp only [Set.mem_ofPred_eq, mentions, Bool.or_eq_true, Bool.and_eq_true] at hn
    exact hn.imp_right And.right

/-- Where replacements terminate, the visit of every variable returns. -/
theorem visitVariable_returns {visitors : Visitors} {simplify : Facts}
    (h : Terminating (Replaces simplify.varInfo)) (v : Name) :
    ∀ᶠ depth in atTop, ∀ T, (visitVariable visitors simplify depth T v).isSome := by
  induction v using h.induction with
  | _ v ih =>
    -- one depth serves all the variables of the replacement
    have hReplaced : ∀ᶠ depth in atTop, ∀ replacement,
        simplify.varInfo.get v = some { replacement := some replacement } →
          (visitors.mutate (visitVariable visitors simplify depth) replacement).isSome := by
      by_cases hGet : ∃ replacement,
          simplify.varInfo.get v = some { replacement := some replacement }
      · obtain ⟨replacement, hGet⟩ := hGet
        have hAll := (eventually_all_finite (finite_mentions replacement)).mpr
          fun w hw => ih w ⟨replacement, hGet, hw⟩
        filter_upwards [hAll] with depth hDepth other hOther
        rw [hGet] at hOther
        cases hOther
        exact visitors.returns _ _ hDepth
      · exact Eventually.of_forall fun depth replacement hEq => absurd ⟨replacement, hEq⟩ hGet
    rw [← map_add_atTop_eq_nat 1, eventually_map]
    filter_upwards [hReplaced] with depth hDepth T
    simp only [visitVariable]
    split
    · split
      · rfl
      · split
        · exact hDepth _ ‹_›
        · rfl
    · split
      · exact hDepth _ ‹_›
      · rfl

/-- The replacements of the variables lead nowhere twice, and the visit of each
variable returns, in every state that a traversal reaches by learning conditions
of whose equalities none closes a cycle. -/
theorem replacements_acyclic (mutateInfo : Facts → Expr → ExprInfo) (visitors : Visitors)
    (info : Scope ExprInfo) (s : State)
    (hRun : Runs mutateInfo { simplify := { boundsAndAlignmentInfo := info } } s) :
    (∀ v, ¬ TransGen (Replaces s.simplify.varInfo) v v) ∧
      ∀ v, ∃ enough, ∀ depth ≥ enough, ∀ T,
        (visitVariable visitors s.simplify depth T v).isSome := by
  have h : Terminating (Replaces s.simplify.varInfo) :=
    (unwinds_run (s := { simplify := { boundsAndAlignmentInfo := info } })
      terminating_empty hRun).terminating
  exact ⟨h.acyclic, fun v => eventually_atTop.mp (visitVariable_returns h v)⟩

/-- A traversal that rewrites variables only. -/
def mapVariables (visit : IntType → Name → Option Expr) : Expr → Option Expr
  | .imm T v => some (.imm T v)
  | .marker T m => some (.marker T m)
  | .var T name => visit T name
  | .cast T a => do return .cast T (← mapVariables visit a)
  | .not a => do return .not (← mapVariables visit a)
  | .unaryCall op a => do return .unaryCall op (← mapVariables visit a)
  | .intrin op a => do return .intrin op (← mapVariables visit a)
  | .load T name a => do return .load T name (← mapVariables visit a)
  | .bin op a b => do return .bin op (← mapVariables visit a) (← mapVariables visit b)
  | .cmp op a b => do return .cmp op (← mapVariables visit a) (← mapVariables visit b)
  | .binCall op a b => do return .binCall op (← mapVariables visit a) (← mapVariables visit b)
  | .select c t f => do
      return .select (← mapVariables visit c) (← mapVariables visit t) (← mapVariables visit f)
  | .letIn name value body => do
      return .letIn name (← mapVariables visit value)
        (← mapVariables (fun T n => if n = name then some (.var T n) else visit T n) body)

theorem mapVariables_isSome (visit : IntType → Name → Option Expr) (e : Expr)
    (h : ∀ name, e.mentions name → ∀ T, (visit T name).isSome) : (mapVariables visit e).isSome := by
  induction e generalizing visit with
  | imm | marker => rfl
  | var T name => exact h name (by simp) T
  | cast _ _ ih | not _ ih | unaryCall _ _ ih | intrin _ _ ih | load _ _ _ ih =>
    obtain ⟨_, hA⟩ := Option.isSome_iff_exists.mp (ih visit h)
    simp [mapVariables, hA]
  | bin _ _ _ iha ihb | cmp _ _ _ iha ihb | binCall _ _ _ iha ihb =>
    obtain ⟨_, hA⟩ := Option.isSome_iff_exists.mp
      (iha visit fun name hn => h name (by simp [hn]))
    obtain ⟨_, hB⟩ := Option.isSome_iff_exists.mp
      (ihb visit fun name hn => h name (by simp [hn]))
    simp [mapVariables, hA, hB]
  | select _ _ _ ihc iht ihf =>
    obtain ⟨_, hC⟩ := Option.isSome_iff_exists.mp
      (ihc visit fun name hn => h name (by simp [hn]))
    obtain ⟨_, hT⟩ := Option.isSome_iff_exists.mp
      (iht visit fun name hn => h name (by simp [hn]))
    obtain ⟨_, hF⟩ := Option.isSome_iff_exists.mp
      (ihf visit fun name hn => h name (by simp [hn]))
    simp [mapVariables, hC, hT, hF]
  | letIn n _ _ ihv ihb =>
    obtain ⟨_, hV⟩ := Option.isSome_iff_exists.mp
      (ihv visit fun name hn => h name (by simp [hn]))
    obtain ⟨_, hB⟩ := Option.isSome_iff_exists.mp
      (ihb (fun T m => if m = n then some (.var T m) else visit T m) fun name hn T => by
        by_cases hEq : name = n
        · simp [hEq]
        · simpa [hEq] using h name (by simp [hn, Ne.symm hEq]) T)
    simp [mapVariables, hV, hB]

def Visitors.variables : Visitors where
  mutate := mapVariables
  mutate_var _ _ _ := rfl
  returns := mapVariables_isSome

/-- A variable that nothing replaces leads nowhere. -/
theorem not_reaches_of_get {v w : Name}
    (hGet : ∀ replacement, scope.get w ≠ some { replacement := some replacement }) (hNe : w ≠ v) :
    ¬ ReflTransGen (Replaces scope) w v := by
  intro h
  rcases h.cases_head with hEq | ⟨_, ⟨replacement, hSome, -⟩, -⟩
  · exact hNe hEq
  · exact hGet replacement hSome

/-- `x == y && z == y` may be learned. -/
theorem replacements_acyclic_chain :
    ∃ s, Runs (fun _ _ => {}) {} s ∧ s.simplify.varInfo.contains (.mk "z") ∧
      ∀ v, ¬ TransGen (Replaces s.simplify.varInfo) v v := by
  let x := Name.mk "x"
  let y := Name.mk "y"
  let z := Name.mk "z"
  let fact := Expr.and (.eq (.var .int32 x) (.var .int32 y)) (.eq (.var .int32 z) (.var .int32 y))
  have hMeets : (Step.learnTrue fact).Meets { simplify := {}, frames := [.fact {}] } := by
    refine ⟨fun w hw => ?_, fun w hw => ?_, trivial⟩
    all_goals
      have hEq : y = w := by simpa using hw
      subst hEq
      exact not_reaches_of_get (by simp [Scope.push, Scope.get, x, y]) (by decide)
  have hRun : Runs (fun _ _ => {}) {} _ :=
    (ReflTransGen.single ⟨.enter, trivial, rfl⟩).tail ⟨.learnTrue fact, hMeets, rfl⟩
  refine ⟨_, hRun, ?_, (replacements_acyclic (fun _ _ => {}) .variables {} _ hRun).1⟩
  rfl

/-- `x == y && y == x` replaces each of the two variables by the other, and the
visit of either does not return. -/
theorem swapped_equalities_cycle :
    ∃ s : State,
      ((State.step (fun _ _ => {}) {} .enter).bind fun t => t.step (fun _ _ => {})
        (.learnTrue (.and (.eq (.var .int32 (.mk "x")) (.var .int32 (.mk "y")))
          (.eq (.var .int32 (.mk "y")) (.var .int32 (.mk "x")))))) = some s ∧
      TransGen (Replaces s.simplify.varInfo) (.mk "x") (.mk "x") ∧
      ∀ depth, visitVariable .variables s.simplify depth .int32 (.mk "x") = none := by
  refine ⟨_, rfl, ?_, ?_⟩
  · exact TransGen.tail (b := .mk "y") (TransGen.single ⟨.var .int32 (.mk "y"), rfl, rfl⟩)
      ⟨.var .int32 (.mk "x"), rfl, rfl⟩
  · intro depth
    induction depth using Nat.strong_induction_on with
    | _ depth ih =>
      match depth with
      | 0 => rfl
      | 1 => rfl
      | depth + 2 => exact ih depth (by omega)

end Visit

end Vyasa.Simplify
