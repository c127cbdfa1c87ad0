import Vyasa.Schedule.ApplySplit
import Vyasa.Euclid.Tiling

/-! The names and types of a nest, and how its visit depends on them. -/
namespace Vyasa.Schedule.Nest

open Word Vyasa.Expr

variable {ρ ρ' : Env} {nest : Nest} {name n : Name} {r : Expr} {x : Int}
  {buffers types : Name → IntType}

/-- The name occurs free. -/
@[simp] def mentions (name : Name) : Nest → Bool
  | body index => index.mentions name
  | letStmt n value nest => value.mentions name || (n ≠ name && nest.mentions name)
  | ifThen c nest => c.mentions name || nest.mentions name

/-- The names that lets bind. -/
@[simp] def binds : Nest → List Name
  | body index => index.binds
  | letStmt n value nest => n :: (value.binds ++ nest.binds)
  | ifThen c nest => c.binds ++ nest.binds

/-- The expressions are well typed, and a let gives its name a value of its type. -/
@[simp] def WellTyped (buffers types : Name → IntType) : Nest → Prop
  | body index => index.WellTyped buffers types
  | letStmt n value nest =>
      value.WellTyped buffers types ∧ types n = value.type ∧ nest.WellTyped buffers types
  | ifThen c nest => c.WellTyped buffers types ∧ nest.WellTyped buffers types

theorem visit_body (ρ : Env) (index : Expr) : visit ρ (body index) = (exact ρ index).map some := by
  rw [visit]

theorem visit_letStmt {value : Expr} (h : exact ρ value = some x) :
    visit ρ (letStmt name value nest) = visit (ρ.set name x) nest := by
  simp [visit, h]

theorem visit_ifThen {c : Expr} (h : exact ρ c = some x) :
    visit ρ (ifThen c nest) = if x ≠ 0 then visit ρ nest else some none := by
  simp [visit, h]

theorem visit_congr (hMem : ρ.mem = ρ'.mem)
    (h : ∀ n, nest.mentions n = true → ρ.vars n = ρ'.vars n) : visit ρ nest = visit ρ' nest := by
  induction nest generalizing ρ ρ' with
  | body index => rw [visit_body, visit_body, exact, exact, eval_congr ⟨h, fun _ _ => by rw [hMem]⟩]
  | letStmt n value nest ih =>
      have hValue : exact ρ value = exact ρ' value :=
        eval_congr ⟨fun k hk => h k (by simp [hk]), fun _ _ => by rw [hMem]⟩
      simp only [visit, hValue]
      refine congrArg _ (funext fun x => ih hMem fun k hk => ?_)
      rw [Env.set_vars, Env.set_vars]
      split_ifs with hn
      · rfl
      · exact h k (by simp [hk, Ne.symm hn])
  | ifThen c nest ih =>
      have hCond : exact ρ c = exact ρ' c :=
        eval_congr ⟨fun k hk => h k (by simp [hk]), fun _ _ => by rw [hMem]⟩
      simp only [visit, hCond, ih hMem fun k hk => h k (by simp [hk])]

theorem visit_set (h : nest.mentions name = false) (x : Int) :
    visit (ρ.set name x) nest = visit ρ nest := by
  refine visit_congr rfl fun n hn => Env.set_vars_of_ne ?_
  rintro rfl
  rw [hn] at h
  cases h

theorem mentions_substitute (h : (substitute name r nest).mentions n = true) :
    (nest.mentions n = true ∧ n ≠ name) ∨ r.mentions n = true := by
  induction nest with
  | body index => exact Expr.mentions_substitute h
  | letStmt k value nest ih =>
      simp only [substitute, mentions, Bool.or_eq_true, Bool.and_eq_true, decide_eq_true_eq] at h ⊢
      rcases h with h | ⟨hk, h⟩
      · exact (Expr.mentions_substitute h).imp_left fun hn => ⟨Or.inl hn.1, hn.2⟩
      · split_ifs at h with hName
        · exact Or.inl ⟨Or.inr ⟨hk, h⟩, fun hn => hk (hName.trans hn.symm)⟩
        · exact (ih h).imp_left fun hn => ⟨Or.inr ⟨hk, hn.1⟩, hn.2⟩
  | ifThen c nest ih =>
      simp only [substitute, mentions, Bool.or_eq_true] at h ⊢
      rcases h with h | h
      · exact (Expr.mentions_substitute h).imp_left fun hn => ⟨Or.inl hn.1, hn.2⟩
      · exact (ih h).imp_left fun hn => ⟨Or.inr hn.1, hn.2⟩

theorem binds_substitute (hr : r.binds = []) (h : n ∈ (substitute name r nest).binds) :
    n ∈ nest.binds := by
  induction nest with
  | body index => exact Expr.binds_substitute hr h
  | letStmt k value nest ih =>
      simp only [substitute, binds, List.mem_cons, List.mem_append] at h ⊢
      refine h.imp_right (Or.imp (Expr.binds_substitute hr) fun hn => ?_)
      split_ifs at hn
      · exact hn
      · exact ih hn
  | ifThen c nest ih =>
      simp only [substitute, binds, List.mem_append] at h ⊢
      exact h.imp (Expr.binds_substitute hr) ih

theorem wellTyped_substitute (hNest : nest.WellTyped buffers types)
    (hr : r.WellTyped buffers types) (hType : types name = r.type)
    (hBinds : ∀ n ∈ nest.binds, r.mentions n = false) :
    (substitute name r nest).WellTyped buffers types := by
  induction nest with
  | body index => exact Expr.wellTyped_substitute hNest hr hType hBinds
  | letStmt k value nest ih =>
      obtain ⟨hValue, hName, hNest⟩ := hNest
      refine ⟨Expr.wellTyped_substitute hValue hr hType fun n hn => hBinds n (by simp [hn]),
        hName.trans (type_substitute hValue hType).symm, ?_⟩
      split_ifs
      · exact hNest
      · exact ih hNest fun n hn => hBinds n (by simp [hn])
  | ifThen c nest ih =>
      exact ⟨Expr.wellTyped_substitute hNest.1 hr hType fun n hn => hBinds n (by simp [hn]),
        ih hNest.2 fun n hn => hBinds n (by simp [hn])⟩

theorem visit_substitute (hr : exact ρ r = some x) (hNest : nest.WellTyped buffers types)
    (hType : types name = r.type) (hBinds : ∀ n ∈ nest.binds, r.mentions n = false) :
    visit ρ (substitute name r nest) = visit (ρ.set name x) nest := by
  induction nest generalizing ρ with
  | body index => simp only [substitute, visit_body, exact, eval_substitute hr hNest hType hBinds]
  | letStmt k value nest ih =>
      obtain ⟨hValue, -, hNest⟩ := hNest
      have hSame : exact ρ (Expr.substitute name r value) = exact (ρ.set name x) value :=
        eval_substitute hr hValue hType fun n hn => hBinds n (by simp [hn])
      simp only [substitute, visit, hSame]
      refine congrArg _ (funext fun y => ?_)
      split_ifs with hk
      · rw [hk, Env.set_set]
      · have hFree : r.mentions k = false := hBinds k (List.mem_cons_self ..)
        rw [Env.set_comm ρ (Ne.symm hk), ih (by rw [exact, eval_set hFree]; exact hr) hNest
          fun n hn => hBinds n (by simp [hn])]
  | ifThen c nest ih =>
      have hSame : exact ρ (Expr.substitute name r c) = exact (ρ.set name x) c :=
        eval_substitute hr hNest.1 hType fun n hn => hBinds n (by simp [hn])
      simp only [substitute, visit, hSame, ih hr hNest.2 fun n hn => hBinds n (by simp [hn])]

end Vyasa.Schedule.Nest

/-! The iterations of the loops around a nest, and what the nest visits in them. -/
namespace Vyasa.Schedule

open Euclid

variable {pre : String} {dims dims' : List String} {ρ ρ' : Env} {d : String}

/-- The environments in which the loops over these dimensions, outermost first,
run their body. -/
def iterations (pre : String) : List String → Env → List Env
  | [], ρ => [ρ]
  | d :: dims, ρ =>
      (interval (ρ.vars (loopMin pre d)) (ρ.vars (loopExtent pre d))).flatMap fun v =>
        iterations pre dims (ρ.set (loopVar pre d) v)

/-- What a nest visits in each iteration of the loops, in their order. -/
def visits (pre : String) (dims : List String) (ρ : Env) (nest : Nest) :
    List (Option (Option Int)) :=
  (iterations pre dims ρ).map fun ρ => nest.visit ρ

theorem loopVar_injective (pre : String) : Function.Injective (loopVar pre) := by
  intro a b h
  simpa [loopVar] using h

/-- The values of a dimension's loop. -/
abbrev loop (pre : String) (ρ : Env) (d : String) : List Int :=
  interval (ρ.vars (loopMin pre d)) (ρ.vars (loopExtent pre d))

theorem loop_set (v : Int) (d d' : String) :
    loop pre (ρ.set (loopVar pre d) v) d' = loop pre ρ d' := by
  simp only [loop, loopMin, loopExtent, loopVar, Env.set_vars, reduceCtorEq, if_false]

theorem iterations_cons (d : String) (dims : List String) (ρ : Env) :
    iterations pre (d :: dims) ρ =
      (loop pre ρ d).flatMap fun v => iterations pre dims (ρ.set (loopVar pre d) v) := by
  rw [iterations]

theorem visits_cons (d : String) (dims : List String) (ρ : Env) (nest : Nest) :
    visits pre (d :: dims) ρ nest =
      (loop pre ρ d).flatMap fun v => visits pre dims (ρ.set (loopVar pre d) v) nest := by
  rw [visits, iterations_cons, List.map_flatMap]
  rfl

theorem flatMap_comm {α β γ : Type} (l : List α) (l' : List β) (f : α → β → List γ) :
    (l.flatMap fun a => l'.flatMap fun b => f a b).Perm
      (l'.flatMap fun b => l.flatMap fun a => f a b) := by
  rw [← Multiset.coe_eq_coe]
  simp only [← Multiset.coe_bind]
  exact Multiset.bind_bind ..

theorem iterations_swap {d d' : String} (h : d ≠ d') (dims : List String) (ρ : Env) :
    (iterations pre (d :: d' :: dims) ρ).Perm (iterations pre (d' :: d :: dims) ρ) := by
  have hName : loopVar pre d ≠ loopVar pre d' := fun hEq => h (loopVar_injective pre hEq)
  simp only [iterations_cons, loop_set]
  refine (flatMap_comm ..).trans (List.Perm.of_eq ?_)
  simp only [Env.set_comm ρ hName]

/-- The loops run the same iterations in any order. -/
theorem iterations_perm (h : dims.Perm dims') (hDims : dims.Nodup) (ρ : Env) :
    (iterations pre dims ρ).Perm (iterations pre dims' ρ) := by
  induction h generalizing ρ with
  | nil => exact List.Perm.refl _
  | cons d _ ih =>
      simp only [iterations_cons]
      exact List.Perm.flatMap_left _ fun v _ => ih (List.nodup_cons.mp hDims).2 _
  | swap d d' dims =>
      refine iterations_swap ?_ dims ρ
      rintro rfl
      simp at hDims
  | trans hFirst _ ih ih' => exact (ih hDims ρ).trans (ih' (hFirst.nodup_iff.mp hDims) ρ)

theorem visits_perm (h : dims.Perm dims') (hDims : dims.Nodup) (ρ : Env) (nest : Nest) :
    (visits pre dims ρ nest).Perm (visits pre dims' ρ nest) :=
  (iterations_perm h hDims ρ).map _

/-- Two runs of the same loops, in environments that stay related. -/
theorem iterations_map_congr {α : Type} {R : Env → Env → Prop} {f f' : Env → α}
    (hLoop : ∀ ρ ρ', R ρ ρ' → ∀ d ∈ dims, loop pre ρ d = loop pre ρ' d)
    (hSet : ∀ ρ ρ', R ρ ρ' → ∀ d ∈ dims, ∀ v,
      R (ρ.set (loopVar pre d) v) (ρ'.set (loopVar pre d) v))
    (hBody : ∀ ρ ρ', R ρ ρ' → f ρ = f' ρ') (h : R ρ ρ') :
    (iterations pre dims ρ).map f = (iterations pre dims ρ').map f' := by
  induction dims generalizing ρ ρ' with
  | nil => simp only [iterations, List.map_cons, List.map_nil, hBody ρ ρ' h]
  | cons d dims ih =>
      simp only [iterations_cons, List.map_flatMap, hLoop ρ ρ' h d (List.mem_cons_self ..)]
      refine congrArg (List.flatMap · _) (funext fun v => ?_)
      exact ih (fun _ _ hR k hk => hLoop _ _ hR k (List.mem_cons_of_mem _ hk))
        (fun _ _ hR k hk => hSet _ _ hR k (List.mem_cons_of_mem _ hk))
        (hSet ρ ρ' h d (List.mem_cons_self ..) v)

/-- Every iteration is reached by setting loop variables to values of their loops. -/
theorem mem_iterations {P : Env → Prop} (h : ρ' ∈ iterations pre dims ρ) (hStart : P ρ)
    (hStep : ∀ ρ, P ρ → ∀ d ∈ dims, ∀ v, v ∈ loop pre ρ d → P (ρ.set (loopVar pre d) v)) :
    P ρ' := by
  induction dims generalizing ρ with
  | nil =>
      rw [iterations, List.mem_singleton] at h
      rw [h]
      exact hStart
  | cons d dims ih =>
      rw [iterations_cons, List.mem_flatMap] at h
      obtain ⟨v, hv, hMem⟩ := h
      exact ih hMem (hStep ρ hStart d (List.mem_cons_self ..) v hv)
        fun ρ hP k hk => hStep ρ hP k (List.mem_cons_of_mem _ hk)

/-- In every iteration each loop variable has a value of its loop. -/
theorem loop_of_mem_iterations (hDims : dims.Nodup) (h : ρ' ∈ iterations pre dims ρ) :
    ∀ d ∈ dims, ρ'.vars (loopVar pre d) ∈ loop pre ρ d := by
  induction dims generalizing ρ with
  | nil => exact fun d hd => absurd hd List.not_mem_nil
  | cons k dims ih =>
      obtain ⟨hk, hRest⟩ := List.nodup_cons.mp hDims
      rw [iterations_cons, List.mem_flatMap] at h
      obtain ⟨v, hv, hMem⟩ := h
      intro d hd
      rcases List.mem_cons.mp hd with rfl | hd
      · have hSame : ρ'.vars (loopVar pre d) = v := by
          refine mem_iterations (P := fun ρ' => ρ'.vars (loopVar pre d) = v) hMem
            (Env.set_vars_self ..) fun ρ₁ hP j hj w _ => ?_
          rw [Env.set_vars_of_ne, hP]
          exact fun hEq => hk (loopVar_injective pre hEq ▸ hj)
        rw [hSame]
        exact hv
      · have hLoop := ih hRest hMem d hd
        rwa [loop_set] at hLoop

end Vyasa.Schedule
