import Vyasa.Schedule.Results

/-! The lets around the loops: the bounds of the new dimensions, in an environment
that has those of the old ones. -/
namespace Vyasa.Schedule

open Word IRMatch Vyasa.Expr Euclid

variable {pre : String} {all used dims : List String} {ρ ρ' : Env} {nest : Nest}
  {n : Name} {d old outer inner : String} {factor e : Expr} {f x : Int}
  {buffers types : Name → IntType}

/-- The lets of one split. -/
def bindBounds (ρ : Env) (bounds : List (Name × Expr)) : Option Env :=
  bounds.foldlM (fun ρ bound => do return ρ.set bound.1 (← exact ρ bound.2)) ρ

theorem bindLoopBounds_cons (s : Split) (splits : List Split) (ρ : Env) :
    bindLoopBounds pre (s :: splits) ρ =
      (bindBounds ρ (computeLoopBoundsAfterSplit pre s).reverse).bind
        (bindLoopBounds pre splits) := by
  simp only [bindLoopBounds, bindBounds, List.flatMap_cons, List.foldlM_append]
  rfl

/-- An environment with these variables set, the first one first. -/
def setAll (ρ : Env) (values : List (Name × Int)) : Env :=
  values.foldl (fun ρ p => ρ.set p.1 p.2) ρ

theorem setAll_mem (values : List (Name × Int)) : (setAll ρ values).mem = ρ.mem := by
  induction values generalizing ρ with
  | nil => rfl
  | cons p values ih => exact ih

theorem setAll_vars {values : List (Name × Int)} (h : ∀ p ∈ values, n ≠ p.1) :
    (setAll ρ values).vars n = ρ.vars n := by
  induction values generalizing ρ with
  | nil => rfl
  | cons p values ih =>
      refine (ih fun q hq => h q (List.mem_cons_of_mem _ hq)).trans ?_
      exact Env.set_vars_of_ne (h p (List.mem_cons_self ..))

theorem setAll_vars_congr {values : List (Name × Int)} (h : ρ.vars n = ρ'.vars n) :
    (setAll ρ values).vars n = (setAll ρ' values).vars n := by
  induction values generalizing ρ ρ' with
  | nil => exact h
  | cons p values ih => exact ih (by rw [Env.set_vars, Env.set_vars, h])

theorem setAll_set {values : List (Name × Int)} (h : ∀ p ∈ values, n ≠ p.1) (x : Int) :
    setAll (ρ.set n x) values = (setAll ρ values).set n x := by
  induction values generalizing ρ with
  | nil => rfl
  | cons p values ih =>
      simp only [setAll, List.foldl_cons] at ih ⊢
      rw [Env.set_comm ρ (h p (List.mem_cons_self ..)),
        ih fun q hq => h q (List.mem_cons_of_mem _ hq)]

/-- Lets that do not read one another. -/
theorem bindBounds_eq {bounds : List (Name × Expr × Int)}
    (hFree : ∀ p ∈ bounds, ∀ q ∈ bounds, p.2.1.mentions q.1 = false)
    (hValue : ∀ p ∈ bounds, exact ρ p.2.1 = some p.2.2) :
    bindBounds ρ (bounds.map fun p => (p.1, p.2.1)) =
      some (setAll ρ (bounds.map fun p => (p.1, p.2.2))) := by
  induction bounds generalizing ρ with
  | nil => rfl
  | cons p bounds ih =>
      have hHead := hValue p (List.mem_cons_self ..)
      have hTail := ih (ρ := ρ.set p.1 p.2.2)
        (fun q hq r hr => hFree q (List.mem_cons_of_mem _ hq) r (List.mem_cons_of_mem _ hr))
        fun q hq => (eval_set (hFree q (List.mem_cons_of_mem _ hq) p (List.mem_cons_self ..))
          p.2.2).trans (hValue q (List.mem_cons_of_mem _ hq))
      simp only [bindBounds, List.map_cons, List.foldlM_cons, hHead] at hTail ⊢
      exact hTail

/-- The expression reads bounds of known dimensions, and what is there before. -/
def ReadsBounds (pre : String) (all used : List String) (e : Expr) : Prop :=
  ∀ n, e.mentions n = true → InScope pre all used [] n

theorem readsBounds_bin {op : BinOp} {a b : Expr} (ha : ReadsBounds pre all used a)
    (hb : ReadsBounds pre all used b) : ReadsBounds pre all used (.bin op a b) := by
  intro n hn
  rw [Expr.mentions, Bool.or_eq_true] at hn
  exact hn.elim (ha n) (hb n)

theorem readsBounds_int (v : Int) : ReadsBounds pre all used (int v) := fun _ hn => by simp at hn

theorem readsBounds_intVar (hd : d ∈ used)
    (hn : n = loopMin pre d ∨ n = loopMax pre d ∨ n = loopExtent pre d) :
    ReadsBounds pre all used (intVar n) := by
  intro m hm
  rw [Expr.mentions, decide_eq_true_eq] at hm
  exact Or.inr (Or.inl ⟨d, hd, hm ▸ hn⟩)

theorem Outside.readsBounds (h : Outside pre all buffers types e) : ReadsBounds pre all used e :=
  fun n hn => Or.inr (Or.inr (h.mentions n hn))

/-- The three bounds of a dimension. -/
def boundNames (pre d : String) : List Name := [loopMin pre d, loopMax pre d, loopExtent pre d]

theorem InScope.ne_bounds (h : InScope pre all used dims n) (hAll : d ∈ all) (hd : d ∉ used) :
    n ∉ boundNames pre d := by
  rcases h with ⟨k, hk, rfl⟩ | ⟨k, hk, h⟩ | hForeign
  · simp [boundNames, loopMin, loopMax, loopExtent, loopVar]
  · have hNe : k ≠ d := fun hEq => hd (hEq ▸ hk)
    rcases h with rfl | rfl | rfl <;>
      simpa [boundNames, loopMin, loopMax, loopExtent, loopVar] using hNe
  · intro hMem
    refine hForeign d hAll ?_
    simp only [boundNames, loopNames, List.mem_cons, List.not_mem_nil, or_false] at hMem ⊢
    tauto

theorem ReadsBounds.not_mentions (h : ReadsBounds pre all used e) (hAll : d ∈ all) (hd : d ∉ used)
    (hn : n ∈ boundNames pre d) : e.mentions n = false := by
  rw [Bool.eq_false_iff]
  exact fun hMention => (h n hMention).ne_bounds hAll hd hn

/-- The environment has the bounds of the new dimensions as well. -/
structure Extends (pre : String) (all used : List String) (ρ ρ' : Env) : Prop where
  mem : ρ'.mem = ρ.mem
  vars : ∀ n, InScope pre all used all n → ρ'.vars n = ρ.vars n

theorem Extends.bounds (h : Extends pre all used ρ ρ') (hd : d ∈ used) :
    ρ'.vars (loopMin pre d) = ρ.vars (loopMin pre d) ∧
      ρ'.vars (loopMax pre d) = ρ.vars (loopMax pre d) ∧
      ρ'.vars (loopExtent pre d) = ρ.vars (loopExtent pre d) :=
  ⟨h.vars _ (Or.inr (Or.inl ⟨d, hd, Or.inl rfl⟩)),
    h.vars _ (Or.inr (Or.inl ⟨d, hd, Or.inr (Or.inl rfl)⟩)),
    h.vars _ (Or.inr (Or.inl ⟨d, hd, Or.inr (Or.inr rfl)⟩))⟩

theorem Extends.exact_outside (h : Extends pre all used ρ ρ')
    (he : Outside pre all buffers types e) : exact ρ' e = exact ρ e :=
  eval_congr ⟨fun n hn => h.vars n (Or.inr (Or.inr (he.mentions n hn))), fun _ _ => by rw [h.mem]⟩

theorem Extends.set (h : Extends pre all used ρ ρ') (n : Name) (x : Int) :
    Extends pre all used (ρ.set n x) (ρ'.set n x) :=
  ⟨h.mem, fun k hk => by rw [Env.set_vars, Env.set_vars, h.vars k hk]⟩

/-- More bounds do not change what a nest visits. -/
theorem visits_extends {rest : List String} (h : Extends pre all used ρ ρ') (hRest : rest ⊆ used)
    (hDims : dims ⊆ all) (hNest : nest.Scoped pre all used dims [] buffers types) :
    visits pre rest ρ' nest = visits pre rest ρ nest := by
  refine iterations_map_congr
    (R := fun ρ' ρ => ρ'.mem = ρ.mem ∧ ∀ n, InScope pre all used all n → ρ'.vars n = ρ.vars n)
    ?_ ?_ ?_ ⟨h.mem, h.vars⟩
  · rintro ρ' ρ ⟨-, hVars⟩ d hd
    rw [loop, loop, hVars _ (Or.inr (Or.inl ⟨d, hRest hd, Or.inl rfl⟩)),
      hVars _ (Or.inr (Or.inl ⟨d, hRest hd, Or.inr (Or.inr rfl)⟩))]
  · rintro ρ' ρ ⟨hMem, hVars⟩ d hd v
    refine ⟨hMem, fun n hn => ?_⟩
    rw [Env.set_vars, Env.set_vars, hVars n hn]
  · rintro ρ' ρ ⟨hMem, hVars⟩
    refine Nest.visit_congr hMem fun n hn => hVars n ?_
    exact ((hNest.mentions n hn).resolve_left List.not_mem_nil).mono (List.Subset.refl _)
      fun d hd _ => hDims hd

section Directives

/-- Lets of new bounds that read the old ones. -/
theorem bindBounds_extends (pre : String) (all used : List String) (ρ : Env)
    (created : List String) (bounds : List (Name × Expr × Int))
    (hCreated : ∀ d ∈ created, d ∈ all ∧ d ∉ used)
    (hNames : ∀ p ∈ bounds, ∃ d ∈ created, p.1 ∈ boundNames pre d)
    (hReads : ∀ p ∈ bounds, ReadsBounds pre all used p.2.1)
    (hValues : ∀ p ∈ bounds, exact ρ p.2.1 = some p.2.2) :
    bindBounds ρ (bounds.map fun p => (p.1, p.2.1)) =
        some (setAll ρ (bounds.map fun p => (p.1, p.2.2))) ∧
      Extends pre all used ρ (setAll ρ (bounds.map fun p => (p.1, p.2.2))) := by
  refine ⟨bindBounds_eq (fun p hp q hq => ?_) hValues, setAll_mem _, fun n hn => ?_⟩
  · obtain ⟨d, hd, hName⟩ := hNames q hq
    exact (hReads p hp).not_mentions (hCreated d hd).1 (hCreated d hd).2 hName
  · refine setAll_vars fun q hq => ?_
    obtain ⟨p, hp, rfl⟩ := List.mem_map.mp hq
    obtain ⟨d, hd, hName⟩ := hNames p hp
    rintro rfl
    exact hn.ne_bounds (hCreated d hd).1 (hCreated d hd).2 hName

theorem bindBounds_split (hOld : old ∈ used) (hOuter : outer ∈ all) (hInner : inner ∈ all)
    (hOuterFresh : outer ∉ used) (hInnerFresh : inner ∉ used) (hNe : outer ≠ inner)
    (hFactor : Outside pre all buffers types factor) (hf : exact ρ factor = some f) (hPos : 0 < f)
    (tail : TailStrategy) :
    ∃ ρ', bindBounds ρ (computeLoopBoundsAfterSplit pre
          (.split old outer inner factor tail)).reverse = some ρ' ∧
      Extends pre all used ρ ρ' ∧
      ρ'.vars (loopMin pre outer) = 0 ∧
      ρ'.vars (loopExtent pre outer) =
        (ρ.vars (loopMax pre old) - ρ.vars (loopMin pre old) + f) / f ∧
      ρ'.vars (loopMax pre outer) =
        (ρ.vars (loopMax pre old) - ρ.vars (loopMin pre old) + f) / f - 1 ∧
      ρ'.vars (loopMin pre inner) = 0 ∧ ρ'.vars (loopExtent pre inner) = f ∧
      ρ'.vars (loopMax pre inner) = f - 1 := by
  let outerExtent :=
    div (add (sub (intVar (loopMax pre old)) (intVar (loopMin pre old))) factor) factor
  let E := (ρ.vars (loopMax pre old) - ρ.vars (loopMin pre old) + f) / f
  have hExtent : exact ρ outerExtent = some E :=
    exact_div rfl (exact_add rfl (exact_sub rfl (exact_intVar ..) (exact_intVar ..)) hf) hf hPos.ne'
  have hOuterReads : ReadsBounds pre all used outerExtent :=
    readsBounds_bin (readsBounds_bin (readsBounds_bin
      (readsBounds_intVar hOld (Or.inr (Or.inl rfl))) (readsBounds_intVar hOld (Or.inl rfl)))
      hFactor.readsBounds) hFactor.readsBounds
  obtain ⟨hBind, hExtends⟩ := bindBounds_extends pre all used ρ
    [inner, outer]
    [ (loopExtent pre outer, outerExtent, E),
      (loopMax pre outer, sub outerExtent (int 1), E - 1),
      (loopMin pre outer, int 0, 0),
      (loopExtent pre inner, factor, f),
      (loopMax pre inner, sub factor (int 1), f - 1),
      (loopMin pre inner, int 0, 0) ]
    (by simp [hOuter, hInner, hOuterFresh, hInnerFresh]) (by simp [boundNames])
    (by
      simp only [List.forall_mem_cons, List.not_mem_nil, false_implies, implies_true, and_true]
      exact ⟨hOuterReads, readsBounds_bin hOuterReads (readsBounds_int 1), readsBounds_int 0,
        hFactor.readsBounds, readsBounds_bin hFactor.readsBounds (readsBounds_int 1),
        readsBounds_int 0⟩)
    (by
      simp only [List.forall_mem_cons, List.not_mem_nil, false_implies, implies_true, and_true]
      exact ⟨hExtent, exact_sub rfl hExtent (exact_int ..), exact_int .., hf,
        exact_sub hFactor.type hf (exact_int ..), exact_int ..⟩)
  refine ⟨_, hBind, hExtends, ?_⟩
  simp [setAll, Env.set_vars, loopMin, loopMax, loopExtent, loopVar, hNe, E]

theorem bindBounds_fuse (pre : String) (ρ : Env) (hOld : old ∈ all) (hFresh : old ∉ used) (hOuter : outer ∈ used)
    (hInner : inner ∈ used) :
    ∃ ρ', bindBounds ρ (computeLoopBoundsAfterSplit pre (.fuse old outer inner)).reverse = some ρ' ∧
      Extends pre all used ρ ρ' ∧
      ρ'.vars (loopMin pre old) = 0 ∧
      ρ'.vars (loopExtent pre old) =
        ρ.vars (loopExtent pre inner) * ρ.vars (loopExtent pre outer) ∧
      ρ'.vars (loopMax pre old) =
        ρ.vars (loopExtent pre inner) * ρ.vars (loopExtent pre outer) - 1 := by
  let fusedExtent := mul (intVar (loopExtent pre inner)) (intVar (loopExtent pre outer))
  let E := ρ.vars (loopExtent pre inner) * ρ.vars (loopExtent pre outer)
  have hExtent : exact ρ fusedExtent = some E := exact_mul rfl (exact_intVar ..) (exact_intVar ..)
  have hReads : ReadsBounds pre all used fusedExtent :=
    readsBounds_bin (readsBounds_intVar hInner (Or.inr (Or.inr rfl)))
      (readsBounds_intVar hOuter (Or.inr (Or.inr rfl)))
  obtain ⟨hBind, hExtends⟩ := bindBounds_extends pre all used ρ
    [old]
    [ (loopExtent pre old, fusedExtent, E),
      (loopMax pre old, sub fusedExtent (int 1), E - 1),
      (loopMin pre old, int 0, 0) ]
    (by simp [hOld, hFresh]) (by simp [boundNames])
    (by
      simp only [List.forall_mem_cons, List.not_mem_nil, false_implies, implies_true, and_true]
      exact ⟨hReads, readsBounds_bin hReads (readsBounds_int 1), readsBounds_int 0⟩)
    (by
      simp only [List.forall_mem_cons, List.not_mem_nil, false_implies, implies_true, and_true]
      exact ⟨hExtent, exact_sub rfl hExtent (exact_int ..), exact_int ..⟩)
  refine ⟨_, hBind, hExtends, ?_⟩
  simp [setAll, Env.set_vars, loopMin, loopMax, loopExtent, loopVar, E]

theorem bindBounds_rename (pre : String) (ρ : Env) (hOld : old ∈ used) (hOuter : outer ∈ all) (hFresh : outer ∉ used) :
    ∃ ρ', bindBounds ρ (computeLoopBoundsAfterSplit pre (.rename old outer)).reverse = some ρ' ∧
      Extends pre all used ρ ρ' ∧
      ρ'.vars (loopMin pre outer) = ρ.vars (loopMin pre old) ∧
      ρ'.vars (loopExtent pre outer) = ρ.vars (loopExtent pre old) ∧
      ρ'.vars (loopMax pre outer) = ρ.vars (loopMax pre old) := by
  obtain ⟨hBind, hExtends⟩ := bindBounds_extends pre all used ρ
    [outer]
    [ (loopExtent pre outer, intVar (loopExtent pre old), ρ.vars (loopExtent pre old)),
      (loopMax pre outer, intVar (loopMax pre old), ρ.vars (loopMax pre old)),
      (loopMin pre outer, intVar (loopMin pre old), ρ.vars (loopMin pre old)) ]
    (by simp [hOuter, hFresh]) (by simp [boundNames])
    (by
      simp only [List.forall_mem_cons, List.not_mem_nil, false_implies, implies_true, and_true]
      exact ⟨readsBounds_intVar hOld (Or.inr (Or.inr rfl)),
        readsBounds_intVar hOld (Or.inr (Or.inl rfl)), readsBounds_intVar hOld (Or.inl rfl)⟩)
    (by simp)
  refine ⟨_, hBind, hExtends, ?_⟩
  simp [setAll, Env.set_vars, loopMin, loopMax, loopExtent, loopVar]

end Directives

end Vyasa.Schedule
