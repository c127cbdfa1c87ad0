import Vyasa.RealizationOrder.Populate

/-! The graphs that are collected from the pairs, each of which passes its checks. -/
namespace Vyasa.RealizationOrder

open Relation

variable {ν : Type} [LinearOrder ν] {env : Environment ν} {p : FusedPair ν} {a b name caller : ν}
  {c c' : Collected ν} {ps : List (FusedPair ν)}

/-- The names of the functions. -/
def names (env : Environment ν) : List ν := env.map Prod.fst

/-- The first function calls the second, perhaps through others. -/
def CallsThrough (env : Environment ν) (a b : ν) : Prop := ReflTransGen (Graph.Adjacent (findDirectCalls env)) a b

/-- Every function that is called is in the environment. -/
def Closed (env : Environment ν) : Prop := ∀ a ∈ names env, ∀ b ∈ findDirectCalls env a, b ∈ names env

theorem findTransitiveCalls_spec (hClosed : Closed env) (ha : a ∈ names env) :
    ∃ l, findTransitiveCalls env a = some l ∧ ∀ b, b ∈ l ↔ CallsThrough env a b := by
  have hInside : ∀ x ∈ (names env).toFinset, ∀ y ∈ findDirectCalls env x, y ∈ (names env).toFinset := by
    intro x hx y hy
    exact List.mem_toFinset.mpr (hClosed x (List.mem_toFinset.mp hx) y hy)
  have hCard : (Graph.unvisited (names env).toFinset []).card ≤ env.length := by
    refine (Finset.card_le_card (Finset.filter_subset _ _)).trans ((List.toFinset_card_le _).trans ?_)
    rw [names, List.length_map]
  obtain ⟨s, hs⟩ := Graph.explore_isSome (s := ⟨[], []⟩) hInside (List.mem_toFinset.mpr ha) List.not_mem_nil hCard
  obtain ⟨new, hNew, hMem⟩ := Graph.exploreSpec _ _ _ s a List.not_mem_nil hs
  refine ⟨s.group, by rw [findTransitiveCalls, hs]; rfl, fun b => ?_⟩
  rw [hNew.group, List.nil_append]
  constructor
  · intro hb
    obtain ⟨w, hw, hReach⟩ := hNew.reached b hb
    exact List.mem_singleton.mp hw ▸ hReach
  · intro hReach
    induction hReach with
    | refl => exact hMem
    | tail _ hStep ih => exact ((hNew.visited _).mp (hNew.closed _ ih _ hStep)).resolve_left List.not_mem_nil

theorem isSome_lookup_iff : (env.lookup name).isSome ↔ name ∈ names env := by
  induction env with
  | nil => simp [names]
  | cons entry env ih =>
    rw [List.lookup_cons, names, List.map_cons, List.mem_cons, ← names]
    by_cases hName : name = entry.1
    · simp [hName]
    · rw [beq_false_of_ne hName, ih]
      exact (or_iff_right hName).symm

/-- What is checked of a pair, its place among the others apart. -/
structure Validated (env : Environment ν) (p : FusedPair ν) : Prop where
  first : p.func1 ∈ names env
  second : p.func2 ∈ names env
  ne : p.func1 ≠ p.func2
  independent : ¬ CallsThrough env p.func1 p.func2 ∧ ¬ CallsThrough env p.func2 p.func1

private theorem guard_bind_eq_some {q : Prop} [Decidable q] {k : Option Unit} :
    (guard q >>= fun _ => k) = some () ↔ q ∧ k = some () := by
  by_cases hq : q
  · simp [hq]
  · simp [hq]

theorem validateFusedPair_iff (hClosed : Closed env) (hCaller : caller ∈ names env) {i : Nat} :
    validateFusedPair caller i env p ps = some () ↔
      p.func1 = caller ∧ p.stage1 = i ∧ p ∉ ps ∧ Validated env p := by
  rw [validateFusedPair, guard_bind_eq_some, guard_bind_eq_some, guard_bind_eq_some, guard_bind_eq_some,
    isSome_lookup_iff, and_assoc]
  have hCalls (hFirst : p.func1 ∈ names env) (hSecond : p.func2 ∈ names env) :
      (do
        let callees1 ← findTransitiveCalls env p.func1
        guard (p.func2 ∉ callees1)
        let callees2 ← findTransitiveCalls env p.func2
        guard (p.func1 ∉ callees2)) = some () ↔
        ¬ CallsThrough env p.func1 p.func2 ∧ ¬ CallsThrough env p.func2 p.func1 := by
    obtain ⟨callees1, h1, hMem1⟩ := findTransitiveCalls_spec hClosed hFirst
    obtain ⟨callees2, h2, hMem2⟩ := findTransitiveCalls_spec hClosed hSecond
    rw [h1, Option.bind_eq_bind, Option.bind_some, guard_bind_eq_some, h2, Option.bind_some,
      ← hMem1, ← hMem2]
    simp
  constructor
  · rintro ⟨hOwner, hStage, hSecond, hNe, hFresh, hRest⟩
    exact ⟨hOwner, hStage, hFresh, hOwner ▸ hCaller, hSecond, hNe, (hCalls (hOwner ▸ hCaller) hSecond).mp hRest⟩
  · rintro ⟨hOwner, hStage, hFresh, hValid⟩
    exact ⟨hOwner, hStage, hValid.second, hValid.ne, hFresh,
      (hCalls hValid.first hValid.second).mpr hValid.independent⟩

section Collected

theorem getD_allocate {α : Type} (m : ν → Option (List α)) (k a : ν) :
    ((allocate m k) a).getD [] = (m a).getD [] := by
  rw [allocate, Function.update_apply]
  split_ifs with h
  · rw [h, Option.getD_some]
  · rfl

theorem getD_pushBack {α : Type} (m : ν → Option (List α)) (k a : ν) (v : α) :
    ((pushBack m k v) a).getD [] = (m a).getD [] ++ if a = k then [v] else [] := by
  rw [pushBack, Function.update_apply]
  split_ifs with h
  · rw [h, Option.getD_some]
  · rw [List.append_nil]

theorem mem_insertAt (m : ν → Option (List ν)) (k v a b : ν) :
    b ∈ ((insertAt m k v) a).getD [] ↔ b ∈ (m a).getD [] ∨ (a = k ∧ b = v) := by
  rw [insertAt, Function.update_apply]
  split_ifs with hKey hOld
  · subst hKey
    rw [Option.getD_some]
    exact (or_iff_left_of_imp fun h => h.2 ▸ hOld).symm
  · subst hKey
    rw [Option.getD_some, List.mem_orderedInsert, or_comm]
    simp
  · exact (or_iff_left fun h => hKey h.1).symm

/-- What the pairs that were visited have filled in. -/
structure Holds (ps : List (FusedPair ν)) (c : Collected ν) : Prop where
  pairs : ∀ a, (c.fusedPairsGraph a).getD [] = ps.filter fun p => p.func1 = a
  adjacent : ∀ a b, b ∈ (c.fuseAdjacencyList a).getD [] ↔
    ∃ p ∈ ps, (p.func1 = a ∧ p.func2 = b) ∨ (p.func2 = a ∧ p.func1 = b)
  edges : ∀ a b, b ∈ (c.graph a).getD [] ↔ ∃ p ∈ ps, p.func1 = a ∧ p.func2 = b

theorem holds_nil : Holds [] ({} : Collected ν) where
  pairs _ := rfl
  adjacent _ _ := by simp
  edges _ _ := by simp

theorem Holds.allocate (h : Holds ps c) (caller : ν) :
    Holds ps { c with fusedPairsGraph := allocate c.fusedPairsGraph caller
                      fuseAdjacencyList := allocate c.fuseAdjacencyList caller } where
  pairs a := by rw [getD_allocate, h.pairs]
  adjacent a b := by rw [getD_allocate, h.adjacent]
  edges := h.edges

theorem Holds.collect (h : Holds ps c) (p : FusedPair ν) : Holds (ps ++ [p]) (collectFusedPairs p.func1 p c) where
  pairs a := by
    rw [collectFusedPairs, getD_pushBack, h.pairs, List.filter_append, List.filter_singleton]
    by_cases hEq : p.func1 = a
    · simp [hEq]
    · simp [hEq, Ne.symm hEq]
  adjacent a b := by
    rw [collectFusedPairs, mem_insertAt, mem_insertAt, h.adjacent]
    simp only [List.mem_append, List.mem_singleton, or_and_right, exists_or, exists_eq_left]
    grind
  edges a b := by
    rw [collectFusedPairs, getD_pushBack, List.mem_append, h.edges]
    simp only [List.mem_append, List.mem_singleton, or_and_right, exists_or, exists_eq_left]
    split_ifs with hEq <;> grind


section Loops

/-- The pairs of a function that may have some. -/
def callerPairs (entry : ν × Func ν) : List (FusedPair ν) :=
  if entry.2.hasExternDefinition then [] else (pairsOf entry.2).map Prod.fst

omit [LinearOrder ν] in
theorem fusedPairs_eq (env : Environment ν) : fusedPairs env = env.flatMap callerPairs := by
  rw [fusedPairs, stages, List.flatMap_assoc]
  refine List.flatMap_congr fun entry _ => ?_
  rw [callerPairs]
  split_ifs
  · rfl
  · rw [pairsOf, List.map_flatMap, List.flatMap_map]
    refine List.flatMap_congr fun stage _ => ?_
    rw [List.map_map]
    exact (List.map_id _).symm

theorem holds_collectPairs (hClosed : Closed env) (hCaller : caller ∈ names env) {l : List (FusedPair ν × Nat)}
    (hHolds : Holds ps c) (h : l.foldlM (collectPair env caller) c = some c') :
    Holds (ps ++ l.map Prod.fst) c' ∧ ∀ q ∈ l, Validated env q.1 := by
  induction l generalizing ps c with
  | nil =>
    cases h
    rw [List.map_nil, List.append_nil]
    exact ⟨hHolds, fun q hq => absurd hq List.not_mem_nil⟩
  | cons q l ih =>
    rw [List.foldlM_cons] at h
    obtain ⟨c₁, hStep, hRest⟩ := Option.bind_eq_some_iff.mp h
    rw [collectPair] at hStep
    obtain ⟨⟨⟩, hValid, hStep⟩ := Option.bind_eq_some_iff.mp hStep
    obtain ⟨hOwner, -, -, hValidated⟩ := (validateFusedPair_iff hClosed hCaller).mp hValid
    obtain rfl := Option.some.inj hStep
    have hNext := ih (hOwner ▸ hHolds.collect q.1) hRest
    rw [List.append_assoc] at hNext
    exact ⟨hNext.1, List.forall_mem_cons.mpr ⟨hValidated, hNext.2⟩⟩

theorem holds_collectCallers (hClosed : Closed env) {l : List (ν × Func ν)} (hNames : ∀ entry ∈ l, entry.1 ∈ names env)
    (hHolds : Holds ps c) (h : l.foldlM (collectCaller env) c = some c') :
    Holds (ps ++ l.flatMap callerPairs) c' ∧ ∀ q ∈ l.flatMap callerPairs, Validated env q := by
  induction l generalizing ps c with
  | nil =>
    cases h
    rw [List.flatMap_nil, List.append_nil]
    exact ⟨hHolds, fun q hq => absurd hq List.not_mem_nil⟩
  | cons entry l ih =>
    rw [List.forall_mem_cons] at hNames
    rw [List.foldlM_cons] at h
    obtain ⟨c₁, hStep, hRest⟩ := Option.bind_eq_some_iff.mp h
    have hHead : Holds (ps ++ callerPairs entry) c₁ ∧ ∀ q ∈ callerPairs entry, Validated env q := by
      rw [collectCaller] at hStep
      unfold callerPairs
      split_ifs at hStep ⊢
      · cases hStep
        rw [List.append_nil]
        exact ⟨hHolds.allocate entry.1, fun q hq => absurd hq List.not_mem_nil⟩
      · obtain ⟨hNext, hAll⟩ := holds_collectPairs hClosed hNames.1 (hHolds.allocate entry.1) hStep
        exact ⟨hNext, List.forall_mem_map.mpr hAll⟩
    obtain ⟨hNext, hAll⟩ := ih hNames.2 hHead.1 hRest
    rw [List.flatMap_cons, ← List.append_assoc]
    exact ⟨hNext, fun q hq => (List.mem_append.mp hq).elim (hHead.2 q) (hAll q)⟩

theorem exists_collectPairs (hClosed : Closed env) (hCaller : caller ∈ names env) {l : List (FusedPair ν × Nat)}
    (hHolds : Holds ps c) (hNodup : (ps ++ l.map Prod.fst).Nodup)
    (hOwner : ∀ q ∈ l, q.1.func1 = caller ∧ q.1.stage1 = q.2) (hValid : ∀ q ∈ l, Validated env q.1) :
    ∃ c', l.foldlM (collectPair env caller) c = some c' := by
  induction l generalizing ps c with
  | nil => exact ⟨c, rfl⟩
  | cons q l ih =>
    rw [List.forall_mem_cons] at hOwner hValid
    have hFresh : q.1 ∉ (c.fusedPairsGraph caller).getD [] := by
      rw [hHolds.pairs]
      intro hMem
      exact List.disjoint_of_nodup_append hNodup (List.mem_of_mem_filter hMem) List.mem_cons_self
    have hStep : collectPair env caller c q = some (collectFusedPairs caller q.1 c) := by
      rw [collectPair, (validateFusedPair_iff hClosed hCaller).mpr ⟨hOwner.1.1, hOwner.1.2, hFresh, hValid.1⟩]
      rfl
    have hHolds' : Holds (ps ++ [q.1]) (collectFusedPairs caller q.1 c) := hOwner.1.1 ▸ hHolds.collect q.1
    obtain ⟨c', hc'⟩ := ih hHolds' (by rwa [List.append_assoc]) hOwner.2 hValid.2
    exact ⟨c', by rw [List.foldlM_cons, hStep]; exact hc'⟩

omit [LinearOrder ν] in
theorem mem_pairsOf {f : Func ν} {q : FusedPair ν × Nat} (h : q ∈ pairsOf f) :
    ∃ d, f.definitions[q.2]? = some d ∧ q.1 ∈ d.fusedPairs := by
  obtain ⟨stage, hStage, hMem⟩ := List.mem_flatMap.mp h
  obtain ⟨p, hp, rfl⟩ := List.mem_map.mp hMem
  exact ⟨stage.1, List.mem_zipIdx_iff_getElem?.mp hStage, hp⟩

theorem exists_collectCallers (hClosed : Closed env) (hOwned : Owned env) {l : List (ν × Func ν)}
    (hSub : ∀ entry ∈ l, entry ∈ env) (hHolds : Holds ps c) (hNodup : (ps ++ l.flatMap callerPairs).Nodup)
    (hValid : ∀ q ∈ l.flatMap callerPairs, Validated env q) :
    ∃ c', l.foldlM (collectCaller env) c = some c' := by
  induction l generalizing ps c with
  | nil => exact ⟨c, rfl⟩
  | cons entry l ih =>
    rw [List.forall_mem_cons] at hSub
    rw [List.flatMap_cons, ← List.append_assoc] at hNodup
    rw [List.flatMap_cons] at hValid
    have hName : entry.1 ∈ names env := List.mem_map_of_mem hSub.1
    have hHead : ∃ c₁, collectCaller env c entry = some c₁ ∧ Holds (ps ++ callerPairs entry) c₁ := by
      have hHeadNodup := (List.nodup_append.mp hNodup).1
      have hHeadValid : ∀ q ∈ callerPairs entry, Validated env q := fun q hq =>
        hValid q (List.mem_append_left _ hq)
      rw [collectCaller]
      unfold callerPairs at hHeadNodup hHeadValid ⊢
      split_ifs at hHeadNodup hHeadValid ⊢ with hExtern
      · rw [List.append_nil]
        exact ⟨_, rfl, hHolds.allocate entry.1⟩
      · have hOwner : ∀ q ∈ pairsOf entry.2, q.1.func1 = entry.1 ∧ q.1.stage1 = q.2 := by
          intro q hq
          obtain ⟨d, hd, hMem⟩ := mem_pairsOf hq
          have hStage : (entry.1, d, q.2) ∈ stages env :=
            mem_stages.mpr ⟨entry.2, hSub.1, Bool.eq_false_of_not_eq_true hExtern, hd⟩
          exact hOwned _ hStage q.1 hMem
        obtain ⟨c₁, hc₁⟩ := exists_collectPairs hClosed hName (hHolds.allocate entry.1) hHeadNodup hOwner
          (List.forall_mem_map.mp hHeadValid)
        exact ⟨c₁, hc₁, (holds_collectPairs hClosed hName (hHolds.allocate entry.1) hc₁).1⟩
    obtain ⟨c₁, hc₁, hNext⟩ := hHead
    obtain ⟨c', hc'⟩ := ih hSub.2 hNext hNodup fun q hq => hValid q (List.mem_append_right _ hq)
    exact ⟨c', by rw [List.foldlM_cons, hc₁]; exact hc'⟩

end Loops

theorem holds_collect (hClosed : Closed env) (h : env.foldlM (collectCaller env) {} = some c) :
    Holds (fusedPairs env) c ∧ ∀ q ∈ fusedPairs env, Validated env q := by
  rw [fusedPairs_eq]
  obtain ⟨hHolds, hValid⟩ := holds_collectCallers hClosed (fun entry => List.mem_map_of_mem) holds_nil h
  exact ⟨hHolds, hValid⟩

theorem exists_collect (hClosed : Closed env) (hOwned : Owned env) (hNodup : (fusedPairs env).Nodup)
    (hValid : ∀ q ∈ fusedPairs env, Validated env q) : ∃ c, env.foldlM (collectCaller env) {} = some c := by
  rw [fusedPairs_eq] at hNodup hValid
  rw [← List.nil_append (env.flatMap callerPairs)] at hNodup
  exact exists_collectCallers hClosed hOwned (fun _ h => h) holds_nil hNodup hValid

/-- No two functions are computed with each other where no chain of pairs comes back. -/
theorem checkNoCyclic_of_holds (h : Holds (fusedPairs env) c)
    (hAcyclic : ∀ p ∈ fusedPairs env, ∀ q ∈ fusedPairs env, ¬ (p.func1 = q.func2 ∧ p.func2 = q.func1))
    (hNe : ∀ p ∈ fusedPairs env, p.func1 ≠ p.func2) :
    checkNoCyclicComputeWith env c.fusedPairsGraph = true := by
  rw [checkNoCyclicComputeWith, List.all_eq_true]
  intro entry _
  rw [List.all_eq_true]
  intro p hp
  rw [h.pairs] at hp ⊢
  have hMem := List.mem_of_mem_filter hp
  have hNone : ((fusedPairs env).filter fun q => q.func1 = p.func2).any (fun q =>
      p.func1 = q.func2 && p.func2 = q.func1) = false := by
    rw [List.any_eq_false]
    intro q hq hBoth
    rw [Bool.and_eq_true, decide_eq_true_eq, decide_eq_true_eq] at hBoth
    exact hAcyclic p hMem q (List.mem_of_mem_filter hq) hBoth
  rw [hNone, Bool.not_false, Bool.and_true, decide_eq_true_eq]
  exact hNe p hMem

end Collected

end Vyasa.RealizationOrder
