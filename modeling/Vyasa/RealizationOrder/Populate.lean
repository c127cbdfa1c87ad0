import Vyasa.RealizationOrder.Environment

/-! The pairs that are listed at the stages of the functions: those that were there, and one for each
stage that is fused. -/
namespace Vyasa.RealizationOrder

variable {ν : Type} [LinearOrder ν] {env env' : Environment ν} {p q : FusedPair ν} {name : ν}

section Keys

variable {κ α : Type} [DecidableEq κ]

/-- To push an element at the one key of a list adds it to all elements. -/
theorem perm_flatMap_push {l : List (κ × List α)} {k : κ} (x : α) (hNodup : (l.map Prod.fst).Nodup)
    (hMem : k ∈ l.map Prod.fst) :
    (l.flatMap fun e => if e.1 = k then e.2 ++ [x] else e.2).Perm (x :: l.flatMap Prod.snd) := by
  induction l with
  | nil => cases hMem
  | cons e l ih =>
    obtain ⟨hFresh, hRest⟩ := List.nodup_cons.mp hNodup
    rw [List.flatMap_cons, List.flatMap_cons]
    by_cases hKey : e.1 = k
    · have hSame : (l.flatMap fun e => if e.1 = k then e.2 ++ [x] else e.2) = l.flatMap Prod.snd := by
        refine List.flatMap_congr fun e' he' => if_neg fun hEq => hFresh ?_
        rw [hKey, ← hEq]
        exact List.mem_map_of_mem he'
      rw [if_pos hKey, hSame, List.append_assoc, List.singleton_append]
      exact List.perm_middle
    · rw [if_neg hKey]
      have hTail := ih hRest ((List.mem_cons.mp hMem).resolve_left (Ne.symm hKey))
      exact (hTail.append_left e.2).trans List.perm_middle

end Keys

/-- The pairs at the stages of the functions. -/
def fusedPairs (env : Environment ν) : List (FusedPair ν) :=
  (stages env).flatMap fun stage => stage.2.1.fusedPairs

/-- The pair of a stage that is fused. -/
def newPair (stage : ν × Definition ν × Nat) : Option (FusedPair ν) :=
  stage.2.1.fuseLevel.map fun level => ⟨level.func, level.stageIndex, stage.1, stage.2.2, level.var⟩

def newPairs (env : Environment ν) : List (FusedPair ν) := (stages env).filterMap newPair

/-- The stage exists, in a function without an extern definition. -/
def HasStage (env : Environment ν) (name : ν) (i : Nat) : Prop :=
  ∃ f, env.lookup name = some f ∧ f.hasExternDefinition = false ∧ i < f.definitions.length

/-- The environments have the same functions, stages and calls. -/
structure Same (env env' : Environment ν) : Prop where
  names : env'.map Prod.fst = env.map Prod.fst
  calls : findDirectCalls env' = findDirectCalls env
  hasStage : ∀ name i, HasStage env' name i ↔ HasStage env name i

theorem Same.refl (env : Environment ν) : Same env env := ⟨rfl, rfl, fun _ _ => Iff.rfl⟩

theorem Same.trans {env₂ : Environment ν} (h : Same env env') (h' : Same env' env₂) : Same env env₂ :=
  ⟨h'.names.trans h.names, h'.calls.trans h.calls, fun name i => (h'.hasStage name i).trans (h.hasStage name i)⟩

theorem lookup_pushPair (env : Environment ν) (p : FusedPair ν) (name : ν) :
    (pushPair env p).lookup name =
      (env.lookup name).map fun f => if name = p.func1 then f.push p else f := by
  induction env with
  | nil => rfl
  | cons entry env ih =>
    rw [pushPair, List.map_cons, ← pushPair]
    have hKey : (if entry.1 = p.func1 then (entry.1, entry.2.push p) else entry).1 = entry.1 := by
      split_ifs <;> rfl
    by_cases hName : name = entry.1
    · subst hName
      rw [List.lookup_cons, List.lookup_cons, hKey, BEq.rfl]
      split_ifs <;> rfl
    · have hBeq : (name == entry.1) = false := beq_false_of_ne hName
      rw [List.lookup_cons, List.lookup_cons, hKey, hBeq]
      exact ih

omit [LinearOrder ν] in
theorem length_push (f : Func ν) (p : FusedPair ν) : (f.push p).definitions.length = f.definitions.length :=
  List.length_modify ..

theorem same_pushPair (env : Environment ν) (p : FusedPair ν) : Same env (pushPair env p) where
  names := by
    rw [pushPair, List.map_map]
    refine List.map_congr_left fun entry _ => ?_
    simp only [Function.comp_apply]
    split_ifs <;> rfl
  calls := by
    funext name
    rw [findDirectCalls, lookup_pushPair, findDirectCalls]
    cases env.lookup name with
    | none => rfl
    | some f =>
      simp only [Option.map_some]
      split_ifs <;> rfl
  hasStage name i := by
    unfold HasStage
    rw [lookup_pushPair]
    cases env.lookup name with
    | none => exact Iff.rfl
    | some f =>
      simp only [Option.map_some, Option.some.injEq, exists_eq_left']
      split_ifs
      · rw [length_push]
        exact Iff.rfl
      · exact Iff.rfl

/-- The key of a stage. -/
def stageKey (stage : ν × Definition ν × Nat) : ν × Nat := (stage.1, stage.2.2)

theorem stages_pushPair (env : Environment ν) (p : FusedPair ν) :
    stages (pushPair env p) = (stages env).map fun stage =>
      if stageKey stage = (p.func1, p.stage1) then
        (stage.1, { stage.2.1 with fusedPairs := stage.2.1.fusedPairs ++ [p] }, stage.2.2)
      else stage := by
  rw [stages, pushPair, List.flatMap_map, stages, List.map_flatMap]
  refine List.flatMap_congr fun entry _ => ?_
  by_cases hName : entry.1 = p.func1
  · rw [if_pos hName]
    cases hExtern : entry.2.hasExternDefinition with
    | true => simp [Func.push, hExtern]
    | false =>
      simp only [Func.push, hExtern, Bool.false_eq_true, if_false, List.map_map]
      refine List.ext_getElem (by simp) fun i hi hi' => ?_
      simp only [List.getElem_map, List.getElem_zipIdx, List.getElem_modify, Function.comp_apply, stageKey, hName,
        Prod.mk.injEq, true_and, Nat.zero_add]
      by_cases hi : p.stage1 = i
      · simp [hi]
      · simp [hi, Ne.symm hi]
  · rw [if_neg hName]
    cases hExtern : entry.2.hasExternDefinition with
    | true => simp
    | false =>
      simp only [Bool.false_eq_true, if_false, List.map_map]
      refine List.map_congr_left fun stage _ => (if_neg fun hEq => hName ?_).symm
      exact (Prod.mk.inj hEq).1

omit [LinearOrder ν] in
theorem mem_stages {stage : ν × Definition ν × Nat} : stage ∈ stages env ↔
    ∃ f, (stage.1, f) ∈ env ∧ f.hasExternDefinition = false ∧ f.definitions[stage.2.2]? = some stage.2.1 := by
  obtain ⟨name, d, i⟩ := stage
  rw [stages, List.mem_flatMap]
  constructor
  · rintro ⟨⟨name', f⟩, hEntry, hStage⟩
    cases hExtern : f.hasExternDefinition with
    | true => simp [hExtern] at hStage
    | false =>
      simp only [hExtern, Bool.false_eq_true, if_false] at hStage
      obtain ⟨⟨d', i'⟩, hMem, hEq⟩ := List.mem_map.mp hStage
      cases hEq
      exact ⟨f, hEntry, hExtern, List.mem_zipIdx_iff_getElem?.mp hMem⟩
  · rintro ⟨f, hEntry, hExtern, hGet⟩
    refine ⟨(name, f), hEntry, ?_⟩
    simp only [hExtern, Bool.false_eq_true, if_false]
    exact List.mem_map.mpr ⟨(d, i), List.mem_zipIdx_iff_getElem?.mpr hGet, rfl⟩

omit [LinearOrder ν] in
theorem nodup_stageKeys (hNodup : (env.map Prod.fst).Nodup) : ((stages env).map stageKey).Nodup := by
  induction env with
  | nil => exact List.nodup_nil
  | cons entry env ih =>
    obtain ⟨hFresh, hRest⟩ := List.nodup_cons.mp hNodup
    have hSplit : stages (entry :: env) = stages [entry] ++ stages env := by
      simp only [stages, List.flatMap_cons, List.flatMap_nil, List.append_nil]
    rw [hSplit, List.map_append]
    refine List.nodup_append.mpr ⟨?_, ih hRest, fun key hKey key' hKey' hEq => ?_⟩
    · simp only [stages, List.flatMap_cons, List.flatMap_nil, List.append_nil]
      split_ifs
      · exact List.nodup_nil
      · rw [List.map_map]
        refine List.Nodup.of_map Prod.snd ?_
        have hIndices : ((entry.2.definitions.zipIdx.map (stageKey ∘ fun stage => (entry.1, stage.1, stage.2))).map
            Prod.snd) = List.range' 0 entry.2.definitions.length := by
          rw [List.map_map, ← List.zipIdx_map_snd]
          rfl
        rw [hIndices]
        exact List.nodup_range'
    · obtain ⟨stage, hStage, rfl⟩ := List.mem_map.mp hKey
      obtain ⟨stage', hStage', rfl⟩ := List.mem_map.mp hKey'
      obtain ⟨f, hMem, -⟩ := mem_stages.mp hStage
      obtain ⟨f', hMem', -⟩ := mem_stages.mp hStage'
      have hName : stage.1 = entry.1 := congrArg Prod.fst (List.mem_singleton.mp hMem)
      have hSame : stage.1 = stage'.1 := (Prod.mk.inj hEq).1
      exact hFresh (hName ▸ hSame ▸ List.mem_map_of_mem hMem')

theorem mem_iff_lookup {α : Type} {l : List (ν × α)} (hNodup : (l.map Prod.fst).Nodup) {v : α} :
    (name, v) ∈ l ↔ l.lookup name = some v := by
  induction l with
  | nil => simp
  | cons entry l ih =>
    obtain ⟨hFresh, hRest⟩ := List.nodup_cons.mp hNodup
    rw [List.mem_cons, List.lookup_cons]
    by_cases hName : name = entry.1
    · subst hName
      rw [BEq.rfl]
      constructor
      · rintro (hEq | hMem)
        · rw [← hEq]
        · exact absurd (List.mem_map_of_mem hMem) hFresh
      · intro hEq
        exact Or.inl (by rw [← Option.some.inj hEq])
    · rw [beq_false_of_ne hName, ih hRest]
      exact or_iff_right fun hEq => hName (congrArg Prod.fst hEq)

/-- Adding a pair at a stage adds it to the pairs. -/
theorem perm_fusedPairs_pushPair (hNodup : (env.map Prod.fst).Nodup) (hStage : HasStage env p.func1 p.stage1) :
    (fusedPairs (pushPair env p)).Perm (p :: fusedPairs env) := by
  obtain ⟨f, hLookup, hExtern, hLt⟩ := hStage
  have hMem : (p.func1, p.stage1) ∈ (stages env).map stageKey :=
    List.mem_map.mpr ⟨(p.func1, f.definitions[p.stage1], p.stage1),
      mem_stages.mpr ⟨f, (mem_iff_lookup hNodup).mpr hLookup, hExtern, List.getElem?_eq_getElem hLt⟩, rfl⟩
  have hKeys : ((stages env).map fun stage => (stageKey stage, stage.2.1.fusedPairs)).map Prod.fst =
      (stages env).map stageKey := by
    rw [List.map_map]
    rfl
  have hPush := perm_flatMap_push p (hKeys ▸ nodup_stageKeys hNodup) (hKeys ▸ hMem)
  rw [List.flatMap_map, List.flatMap_map] at hPush
  rw [fusedPairs, stages_pushPair, List.flatMap_map]
  refine (List.Perm.of_eq (List.flatMap_congr fun stage _ => ?_)).trans hPush
  split_ifs <;> rfl

/-- The pairs of a stage have it as their first. -/
def Owned (env : Environment ν) : Prop :=
  ∀ stage ∈ stages env, ∀ p ∈ stage.2.1.fusedPairs, p.func1 = stage.1 ∧ p.stage1 = stage.2.2

theorem owned_pushPair (h : Owned env) (p : FusedPair ν) : Owned (pushPair env p) := by
  intro stage hStage q hq
  rw [stages_pushPair] at hStage
  obtain ⟨stage, hMem, rfl⟩ := List.mem_map.mp hStage
  split_ifs at hq ⊢ with hKey
  · rcases List.mem_append.mp hq with hq | hq
    · exact h stage hMem q hq
    · rw [List.mem_singleton.mp hq]
      exact ⟨(Prod.mk.inj hKey).1.symm, (Prod.mk.inj hKey).2.symm⟩
  · exact h stage hMem q hq

theorem populateFusedPairsList_eq (stage : ν × Definition ν × Nat) :
    populateFusedPairsList env stage = some env' ↔
      match newPair stage with
      | none => env = env'
      | some p => HasStage env p.func1 p.stage1 ∧ pushPair env p = env' := by
  obtain ⟨name, d, i⟩ := stage
  unfold populateFusedPairsList newPair HasStage
  cases d.fuseLevel with
  | none => simp
  | some level =>
    simp only [Option.map_some, Option.bind_eq_bind]
    cases env.lookup level.func with
    | none => simp
    | some f => simp [and_assoc]

/-- The loop over stages adds the pair of each. -/
theorem populate_spec {l : List (ν × Definition ν × Nat)} (hNodup : (env.map Prod.fst).Nodup)
    (h : l.foldlM populateFusedPairsList env = some env') :
    Same env env' ∧ (fusedPairs env').Perm (fusedPairs env ++ l.filterMap newPair) ∧
      (Owned env → Owned env') := by
  induction l generalizing env with
  | nil =>
    cases h
    rw [List.filterMap_nil, List.append_nil]
    exact ⟨Same.refl env', List.Perm.refl _, id⟩
  | cons stage l ih =>
    rw [List.foldlM_cons] at h
    obtain ⟨env₁, hStep, hRest⟩ := Option.bind_eq_some_iff.mp h
    rw [populateFusedPairsList_eq] at hStep
    cases hPair : newPair stage with
    | none =>
      simp only [hPair] at hStep
      rw [List.filterMap_cons_none hPair]
      exact hStep ▸ ih (hStep ▸ hNodup) (hStep ▸ hRest)
    | some p =>
      simp only [hPair] at hStep
      obtain ⟨hStage, rfl⟩ := hStep
      have hSame := same_pushPair env p
      obtain ⟨hSame', hPerm, hOwned⟩ := ih (hSame.names ▸ hNodup) hRest
      rw [List.filterMap_cons_some hPair]
      refine ⟨hSame.trans hSame', hPerm.trans ?_, fun hOwn => hOwned (owned_pushPair hOwn p)⟩
      exact ((perm_fusedPairs_pushPair hNodup hStage).append_right _).trans List.perm_middle.symm

theorem populate_isSome {l : List (ν × Definition ν × Nat)}
    (h : ∀ p ∈ l.filterMap newPair, HasStage env p.func1 p.stage1) :
    ∃ env', l.foldlM populateFusedPairsList env = some env' := by
  induction l generalizing env with
  | nil => exact ⟨env, rfl⟩
  | cons stage l ih =>
    cases hPair : newPair stage with
    | none =>
      rw [List.filterMap_cons_none hPair] at h
      obtain ⟨env', hEnv'⟩ := ih h
      have hStep : populateFusedPairsList env stage = some env := by
        rw [populateFusedPairsList_eq, hPair]
      exact ⟨env', by rw [List.foldlM_cons, hStep]; exact hEnv'⟩
    | some p =>
      rw [List.filterMap_cons_some hPair, List.forall_mem_cons] at h
      have hStep : populateFusedPairsList env stage = some (pushPair env p) := by
        rw [populateFusedPairsList_eq, hPair]
        exact ⟨h.1, rfl⟩
      obtain ⟨env', hEnv'⟩ := ih fun q hq => ((same_pushPair env p).hasStage _ _).mpr (h.2 q hq)
      exact ⟨env', by rw [List.foldlM_cons, hStep]; exact hEnv'⟩

end Vyasa.RealizationOrder
