import Vyasa.RealizationOrder.Groups

/-! The order is a schedule: a group after what its functions call, and in a group the functions that
are computed with another before it. -/
namespace Vyasa.RealizationOrder

open Relation

variable {ν : Type} [LinearOrder ν] {unique : Nat → ν} {outputs : List ν} {env : Environment ν} {a b x y : ν}
  {ps : List (FusedPair ν)} {fusedGroups : List (ν × List ν)} {g : ν × List ν}
  {graph : ν → Option (List ν)} {temp : List ν} {t : Graph.Traversal ν}

/-- The environment of a pipeline: the functions that its outputs call, each once. -/
structure Pipeline (outputs : List ν) (env : Environment ν) : Prop where
  nodup : (names env).Nodup
  roots : ∀ o ∈ outputs, o ∈ names env
  closed : Closed env
  reachable : ∀ x ∈ names env, ∃ o ∈ outputs, CallsThrough env o x

/-- The pairs of a pipeline: those that are listed, and those of the stages that are fused. -/
def computeWith (env : Environment ν) : List (FusedPair ν) := fusedPairs env ++ newPairs env

/-- What a realization order is for. -/
structure Correct (env : Environment ν) (ps : List (FusedPair ν)) (order : List ν) (groupOrder : List (List ν)) :
    Prop where
  perm : order.Perm (names env)
  contiguous : order = groupOrder.flatten
  nonempty : ∀ group ∈ groupOrder, group ≠ []
  components : ∀ group ∈ groupOrder, ∀ x ∈ group, ∀ y, y ∈ group ↔ SameGroup ps x y
  callees : ∀ x ∈ names env, ∀ y ∈ findDirectCalls env x, y ≠ x → [y, x].Sublist order
  children : ∀ group ∈ groupOrder, ∀ p ∈ ps, p.func1 ∈ group → [p.func2, p.func1].Sublist group

section Sorted

/-- In a list that is sorted by a key, a smaller key comes before a greater one. -/
theorem sublist_of_pairwise {α : Type} {key : α → Nat} {l : List α} (h : l.Pairwise fun a b => key a ≤ key b)
    {a b : α} (ha : a ∈ l) (hb : b ∈ l) (hLt : key a < key b) : [a, b].Sublist l := by
  obtain ⟨before, after, rfl⟩ := List.append_of_mem ha
  obtain ⟨-, hAfter, hBetween⟩ := List.pairwise_append.mp h
  have hb' : b ∈ after := by
    rcases List.mem_append.mp hb with hb | hb
    · exact absurd (hBetween b hb a List.mem_cons_self) (not_le.mpr hLt)
    · refine (List.mem_cons.mp hb).resolve_left ?_
      rintro rfl
      exact lt_irrefl _ hLt
  exact ((List.singleton_sublist.mpr hb').cons_cons a).trans (List.sublist_append_right before (a :: after))

theorem flatten_sublist {α : Type} {l l' : List (List α)} (h : l.Sublist l') : l.flatten.Sublist l'.flatten := by
  induction h with
  | slnil => exact List.Sublist.refl _
  | cons a _ ih => exact ih.trans (List.sublist_append_right a _)
  | cons_cons a _ ih => exact ih.append_left a

theorem perm_sortGroup (temp group : List ν) : (sortGroup temp group).Perm group := List.perm_insertionSort _ _

theorem sorted_sortGroup (temp group : List ν) :
    (sortGroup temp group).Pairwise fun a b => temp.idxOf a ≤ temp.idxOf b := by
  have hTotal : Std.Total fun a b : ν => temp.idxOf a ≤ temp.idxOf b := ⟨fun a b => le_total _ _⟩
  have hTrans : IsTrans ν fun a b => temp.idxOf a ≤ temp.idxOf b := ⟨fun _ _ _ => le_trans⟩
  exact List.pairwise_insertionSort _ _

end Sorted

section Finished

variable (hLeads : ∀ a b, Graph.Edge graph a b ↔ Leads env ps fusedGroups a b) (ht : Graph.Settled graph t)

include hLeads ht

/-- What an edge leads to is listed before. -/
theorem before_of_leads {before after : List ν} (hSplit : t.order = before ++ a :: after)
    (hEdge : Leads env ps fusedGroups a b) : b ∈ before :=
  ht.closed before a after hSplit b ((hLeads a b).mpr hEdge)

theorem mem_order_of_leads (ha : a ∈ t.order) (hEdge : Leads env ps fusedGroups a b) : b ∈ t.order := by
  obtain ⟨before, after, hSplit⟩ := List.append_of_mem ha
  rw [hSplit]
  exact List.mem_append_left _ (before_of_leads hLeads ht hSplit hEdge)

theorem idxOf_lt_of_leads (ha : a ∈ t.order) (hEdge : Leads env ps fusedGroups a b) :
    t.order.idxOf b < t.order.idxOf a := by
  obtain ⟨before, after, hSplit⟩ := List.append_of_mem ha
  have hb := before_of_leads hLeads ht hSplit hEdge
  have hFresh : a ∉ before := fun hMem =>
    List.disjoint_of_nodup_append (hSplit ▸ ht.nodup) hMem List.mem_cons_self
  rw [hSplit, List.idxOf_append_of_mem hb, List.idxOf_append_of_notMem hFresh]
  exact Nat.lt_of_lt_of_le (List.idxOf_lt_length_of_mem hb) (Nat.le_add_right _ _)

/-- Every function is finished, and so is every group. -/
theorem functions_finished (hEnv : Pipeline outputs env) (h : Grouped env ps fusedGroups)
    (hRoots : ∀ o ∈ outputs, o ∈ t.order) :
    (∀ x ∈ names env, x ∈ t.order) ∧ ∀ g ∈ fusedGroups, g.1 ∈ t.order := by
  have hGroup {g : ν × List ν} (hg : g ∈ fusedGroups) {x : ν} (hx : x ∈ g.2) (hMem : x ∈ t.order) : g.1 ∈ t.order :=
    mem_order_of_leads hLeads ht hMem (Or.inr (Or.inl ⟨g, hg, hx, rfl⟩))
  have hFunctions : ∀ x ∈ names env, x ∈ t.order := by
    intro x hx
    obtain ⟨o, ho, hReach⟩ := hEnv.reachable x hx
    clear hx
    have hBoth : x ∈ names env ∧ x ∈ t.order := by
      induction hReach with
      | refl => exact ⟨hEnv.roots o ho, hRoots o ho⟩
      | @tail u w _ hCall ih =>
        refine ⟨hEnv.closed u ih.1 w hCall, ?_⟩
        by_cases hSelf : w = u
        · exact hSelf ▸ ih.2
        · obtain ⟨g, hg, hu⟩ := h.exists_group ih.1
          exact mem_order_of_leads hLeads ht (hGroup hg hu ih.2)
            (Or.inr (Or.inr ⟨g, hg, rfl, u, hu, hCall, hSelf⟩))
    exact hBoth.2
  refine ⟨hFunctions, fun g hg => ?_⟩
  obtain ⟨x, hx⟩ := List.exists_mem_of_ne_nil _ (h.nonempty g hg)
  exact hGroup hg hx (hFunctions x (h.mem_names hg hx))

end Finished

section GroupOrder

/-- The groups in the order that their nodes are finished in. -/
theorem groups_perm (h : Grouped env ps fusedGroups) (hNodup : temp.Nodup) (hAll : ∀ g ∈ fusedGroups, g.1 ∈ temp) :
    (temp.filterMap fun name => fusedGroups.lookup name).Perm (fusedGroups.map Prod.snd) := by
  have hNone {name : ν} (hName : name ∉ fusedGroups.map Prod.fst) : fusedGroups.lookup name = none := by
    rw [Option.eq_none_iff_forall_ne_some]
    intro group hGroup
    exact hName (List.mem_map_of_mem ((mem_iff_lookup h.names_nodup).mpr hGroup))
  have hFilter : temp.filterMap (fun name => fusedGroups.lookup name) =
      (temp.filter fun name => name ∈ fusedGroups.map Prod.fst).filterMap fun name => fusedGroups.lookup name := by
    rw [List.filterMap_filter]
    refine List.filterMap_congr fun name _ => ?_
    split_ifs with hName
    · rfl
    · exact hNone fun hMem => hName (decide_eq_true hMem)
  have hNames : (temp.filter fun name => name ∈ fusedGroups.map Prod.fst).Perm (fusedGroups.map Prod.fst) := by
    refine (List.perm_ext_iff_of_nodup (hNodup.filter _) h.names_nodup).mpr fun name => ?_
    rw [List.mem_filter, decide_eq_true_eq]
    refine and_iff_right_of_imp fun hName => ?_
    obtain ⟨g, hg, rfl⟩ := List.mem_map.mp hName
    exact hAll g hg
  rw [hFilter]
  refine (hNames.filterMap _).trans (List.Perm.of_eq ?_)
  rw [List.filterMap_map, ← List.filterMap_eq_map]
  exact List.filterMap_congr fun g hg => (mem_iff_lookup h.names_nodup).mp hg

theorem lookup_group (h : Grouped env ps fusedGroups) (hg : g ∈ fusedGroups) : fusedGroups.lookup g.1 = some g.2 :=
  (mem_iff_lookup h.names_nodup).mp hg

/-- The order that is made of the finished nodes is a schedule. -/
theorem correct_of_settled (hEnv : Pipeline outputs env) (h : Grouped env ps fusedGroups)
    (hLeads : ∀ a b, Graph.Edge graph a b ↔ Leads env ps fusedGroups a b) (ht : Graph.Settled graph t)
    (hRoots : ∀ o ∈ outputs, o ∈ t.order) :
    Correct env ps ((t.order.filterMap fun name => fusedGroups.lookup name).map (sortGroup t.order)).flatten
      ((t.order.filterMap fun name => fusedGroups.lookup name).map (sortGroup t.order)) := by
  obtain ⟨hFunctions, hGroups⟩ := functions_finished hLeads ht hEnv h hRoots
  have hPerm := groups_perm h ht.nodup hGroups
  have hGroup {group : List ν}
      (hMem : group ∈ (t.order.filterMap fun name => fusedGroups.lookup name).map (sortGroup t.order)) :
      ∃ g ∈ fusedGroups, group = sortGroup t.order g.2 := by
    obtain ⟨members, hMembers, rfl⟩ := List.mem_map.mp hMem
    obtain ⟨g, hg, rfl⟩ := List.mem_map.mp (hPerm.mem_iff.mp hMembers)
    exact ⟨g, hg, rfl⟩
  constructor
  case perm =>
    have hSorted : ((t.order.filterMap fun name => fusedGroups.lookup name).map (sortGroup t.order)).flatten.Perm
        (t.order.filterMap fun name => fusedGroups.lookup name).flatten := by
      rw [← List.flatMap_def]
      have hEach := List.Perm.flatMap_left (t.order.filterMap fun name => fusedGroups.lookup name)
        (f := sortGroup t.order) (g := id) fun group _ => perm_sortGroup t.order group
      rwa [List.flatMap_id] at hEach
    refine hSorted.trans (hPerm.flatten.trans ?_)
    rw [← List.flatMap_def]
    exact (List.perm_ext_iff_of_nodup h.nodup hEnv.nodup).mpr h.mem
  case contiguous => rfl
  case nonempty =>
    intro group hMem
    obtain ⟨g, hg, rfl⟩ := hGroup hMem
    intro hNil
    have hSame := perm_sortGroup t.order g.2
    rw [hNil] at hSame
    exact h.nonempty g hg (List.nil_perm.mp hSame)
  case components =>
    intro group hMem x hx y
    obtain ⟨g, hg, rfl⟩ := hGroup hMem
    rw [(perm_sortGroup t.order g.2).mem_iff] at hx ⊢
    exact h.connected g hg x hx y
  case callees =>
    intro x hx y hCall hNe
    obtain ⟨g, hg, hxg⟩ := h.exists_group hx
    obtain ⟨g', hg', hyg'⟩ := h.exists_group (hEnv.closed x hx y hCall)
    obtain ⟨before, after, hSplit⟩ := List.append_of_mem (hGroups g hg)
    -- the group of `y` is finished before `y`, and `y` before the group of `x`
    have hy : y ∈ before := before_of_leads hLeads ht hSplit (Or.inr (Or.inr ⟨g, hg, rfl, x, hxg, hCall, hNe⟩))
    obtain ⟨first, second, rfl⟩ := List.append_of_mem hy
    have hSplit' : t.order = first ++ y :: (second ++ g.1 :: after) := by
      rw [hSplit, List.append_assoc, List.cons_append]
    have hFirst : g'.1 ∈ first := before_of_leads hLeads ht hSplit' (Or.inr (Or.inl ⟨g', hg', hyg', rfl⟩))
    have hNodes : [g'.1, g.1].Sublist t.order := by
      rw [hSplit]
      exact (List.singleton_sublist.mpr (List.mem_append_left _ hFirst)).append
        (List.singleton_sublist.mpr List.mem_cons_self)
    have hTables := flatten_sublist ((hNodes.filterMap fun name => fusedGroups.lookup name).map (sortGroup t.order))
    simp only [List.filterMap_cons, List.filterMap_nil, lookup_group h hg', lookup_group h hg, List.map_cons, List.map_nil, List.flatten_cons, List.flatten_nil,
      List.append_nil] at hTables
    refine List.Sublist.trans ?_ hTables
    exact (List.singleton_sublist.mpr ((perm_sortGroup t.order g'.2).mem_iff.mpr hyg')).append
      (List.singleton_sublist.mpr ((perm_sortGroup t.order g.2).mem_iff.mpr hxg))
  case children =>
    intro group hMem p hp hFirst
    obtain ⟨g, hg, rfl⟩ := hGroup hMem
    have hFirst' : p.func1 ∈ g.2 := (perm_sortGroup t.order g.2).mem_iff.mp hFirst
    have hTogether : Together ps p.func1 p.func2 := ⟨p, hp, Or.inl ⟨rfl, rfl⟩⟩
    have hSecond : p.func2 ∈ g.2 := (h.connected g hg p.func1 hFirst' p.func2).mpr (ReflTransGen.single hTogether)
    refine sublist_of_pairwise (sorted_sortGroup t.order g.2) ((perm_sortGroup t.order g.2).mem_iff.mpr hSecond)
      hFirst (idxOf_lt_of_leads hLeads ht (hFunctions _ (h.mem_names hg hFirst')) (Or.inl ⟨p, hp, rfl, rfl⟩))

end GroupOrder

section Populated

variable {env' : Environment ν}

theorem names_eq (h : Same env env') : names env' = names env := h.names

theorem closed_of_same (h : Same env env') (hClosed : Closed env) : Closed env' := by
  intro a ha b hb
  rw [h.calls] at hb
  rw [names_eq h] at ha ⊢
  exact hClosed a ha b hb

theorem callsThrough_eq (h : Same env env') : CallsThrough env' = CallsThrough env := by
  unfold CallsThrough
  rw [h.calls]

theorem pipeline_of_same (h : Same env env') (hEnv : Pipeline outputs env) : Pipeline outputs env' where
  nodup := names_eq h ▸ hEnv.nodup
  roots := names_eq h ▸ hEnv.roots
  closed := closed_of_same h hEnv.closed
  reachable := by
    rw [names_eq h, callsThrough_eq h]
    exact hEnv.reachable

theorem validated_of_same (h : Same env env') {p : FusedPair ν} (hp : Validated env p) : Validated env' p where
  first := names_eq h ▸ hp.first
  second := names_eq h ▸ hp.second
  ne := hp.ne
  independent := callsThrough_eq h ▸ hp.independent

omit [LinearOrder ν] in
theorem together_eq {ps' : List (FusedPair ν)} (h : ps'.Perm ps) : Together ps' = Together ps := by
  funext a b
  unfold Together
  simp only [h.mem_iff]

theorem acyclic_of_same {ps' : List (FusedPair ν)} (h : Same env env') (hPerm : ps'.Perm ps)
    (hAcyclic : Acyclic env ps) : Acyclic env' ps' := by
  have hContracted : Contracted env' ps' = Contracted env ps := by
    funext a b
    unfold Contracted SameGroup
    rw [h.calls, together_eq hPerm]
  have hChild : Child ps' = Child ps := by
    funext a b
    unfold Child
    simp only [hPerm.mem_iff]
  constructor
  · rw [names_eq h, hContracted]
    exact hAcyclic.calls
  · rw [hChild]
    exact hAcyclic.pairs

theorem correct_of_same {ps' : List (FusedPair ν)} {order : List ν} {groupOrder : List (List ν)} (h : Same env env')
    (hPerm : ps'.Perm ps) (hCorrect : Correct env' ps' order groupOrder) : Correct env ps order groupOrder where
  perm := names_eq h ▸ hCorrect.perm
  contiguous := hCorrect.contiguous
  nonempty := hCorrect.nonempty
  components := by
    have hComponents := hCorrect.components
    unfold SameGroup at hComponents ⊢
    rwa [together_eq hPerm] at hComponents
  callees := by
    have hCallees := hCorrect.callees
    rwa [names_eq h, h.calls] at hCallees
  children group hGroup p hp := hCorrect.children group hGroup p (hPerm.mem_iff.mpr hp)

end Populated

/-- Every pair passes its checks: the stage that it is fused with exists, in a function without an extern
definition, no pair is listed twice, and neither function calls the other. -/
structure Valid (env : Environment ν) : Prop where
  hasStage : ∀ p ∈ newPairs env, HasStage env p.func1 p.stage1
  owned : Owned env
  nodup : (computeWith env).Nodup
  validated : ∀ p ∈ computeWith env, Validated env p

omit [LinearOrder ν] in
theorem settled_start (graph : ν → Option (List ν)) : Graph.Settled graph ⟨[], [], []⟩ where
  result _ := Iff.rfl
  entered _ h := h
  nodup := List.nodup_nil
  closed before x after h := by simp at h

theorem adds_start {fuel : Nat} (h : Graph.finishAll graph fuel outputs ⟨[], [], []⟩ = some t) :
    Graph.Settled graph t ∧ ∀ o ∈ outputs, o ∈ t.order := by
  obtain ⟨ht, -, hRoots, -⟩ := Graph.adds_finishAll (settled_start graph) h fun _ hx => hx
  exact ⟨ht, hRoots⟩

/-- What is returned is a schedule of the pipeline. -/
theorem correct_of_realizationOrder (hUnique : Function.Injective unique) (hFresh : ∀ i, unique i ∉ names env)
    (hEnv : Pipeline outputs env) {order : List ν} {groupOrder : List (List ν)}
    (h : realizationOrder unique outputs env = some (order, groupOrder)) :
    Correct env (computeWith env) order groupOrder := by
  rw [realizationOrder] at h
  obtain ⟨env', hPopulate, h⟩ := Option.bind_eq_some_iff.mp h
  obtain ⟨hSame, hPerm, -⟩ := populate_spec hEnv.nodup hPopulate
  have hEnv' := pipeline_of_same hSame hEnv
  obtain ⟨collected, hCollect, h⟩ := Option.bind_eq_some_iff.mp h
  obtain ⟨hHolds, hValid⟩ := holds_collect hEnv'.closed hCollect
  obtain ⟨-, -, h⟩ := Option.bind_eq_some_iff.mp h
  obtain ⟨fusedGroups, hGroups, h⟩ := Option.bind_eq_some_iff.mp h
  obtain ⟨groups, hGroups', hGrouped⟩ :=
    findFusedGroups_spec hUnique (fun i => (names_eq hSame).symm ▸ hFresh i) hHolds hValid
  obtain rfl := Option.some.inj (hGroups.symm.trans hGroups')
  obtain ⟨graph, hGraph, h⟩ := Option.bind_eq_some_iff.mp h
  obtain ⟨graph', hGraph', hLeads, -⟩ := exists_graph hEnv'.nodup hGrouped hHolds
  obtain rfl := Option.some.inj (hGraph.symm.trans hGraph')
  obtain ⟨t, hFinish, h⟩ := Option.bind_eq_some_iff.mp h
  obtain ⟨rfl, rfl⟩ := Prod.mk.inj (Option.some.inj h)
  obtain ⟨ht, hRoots⟩ := adds_start hFinish
  exact correct_of_same hSame hPerm (correct_of_settled hEnv' hGrouped hLeads ht hRoots)

theorem child_ne_of_acyclic (hAcyclic : Acyclic env ps) :
    ∀ p ∈ ps, ∀ q ∈ ps, ¬ (p.func1 = q.func2 ∧ p.func2 = q.func1) := by
  rintro p hp q hq ⟨hFirst, hSecond⟩
  have hForth : Child ps p.func1 p.func2 := ⟨p, hp, rfl, rfl⟩
  have hBack : Child ps p.func2 p.func1 := ⟨q, hq, hSecond.symm, hFirst.symm⟩
  exact hAcyclic.pairs p.func1 ((TransGen.single hForth).tail hBack)

/-- The nodes of the graph. -/
def nodes (env : Environment ν) (fusedGroups : List (ν × List ν)) : Finset ν :=
  (names env ++ fusedGroups.map Prod.fst).toFinset

theorem mem_nodes : x ∈ nodes env fusedGroups ↔ x ∈ names env ∨ ∃ g ∈ fusedGroups, x = g.1 := by
  rw [nodes, List.mem_toFinset, List.mem_append, List.mem_map]
  simp only [eq_comm]

theorem mem_nodes_of_leads (hClosed : Closed env) (h : Grouped env ps fusedGroups)
    (hValid : ∀ p ∈ ps, Validated env p) (hEdge : Leads env ps fusedGroups a b) : b ∈ nodes env fusedGroups := by
  rcases hEdge with ⟨p, hp, -, rfl⟩ | ⟨g, hg, -, rfl⟩ | ⟨g, hg, -, x, hx, hCall, -⟩
  · exact mem_nodes.mpr (Or.inl (hValid p hp).second)
  · exact mem_nodes.mpr (Or.inr ⟨g, hg, rfl⟩)
  · exact mem_nodes.mpr (Or.inl (hClosed x (h.mem_names hg hx) b hCall))

/-- The search over the graph fails nowhere. -/
theorem exists_finishAll (hEnv : Pipeline outputs env) (h : Grouped env ps fusedGroups)
    (hValid : ∀ p ∈ ps, Validated env p) (hAcyclic : Acyclic env ps)
    (hLeads : ∀ a b, Graph.Edge graph a b ↔ Leads env ps fusedGroups a b)
    (hDefined : ∀ a, (a ∈ names env ∨ ∃ g ∈ fusedGroups, a = g.1) → ∃ ws, graph a = some ws) :
    ∃ t, Graph.finishAll graph (env.length + fusedGroups.length) outputs ⟨[], [], []⟩ = some t := by
  have hInside : ∀ x ∈ nodes env fusedGroups, ∃ ws, graph x = some ws ∧ ∀ w ∈ ws, w ∈ nodes env fusedGroups := by
    intro x hx
    obtain ⟨ws, hws⟩ := hDefined x (mem_nodes.mp hx)
    exact ⟨ws, hws, fun w hw => mem_nodes_of_leads hEnv.closed h hValid ((hLeads x w).mp ⟨ws, hws, hw⟩)⟩
  have hNoCycle (x : ν) : ¬ TransGen (Graph.Edge graph) x x := by
    have hSame : Graph.Edge graph = Leads env ps fusedGroups := by
      funext a b
      exact propext (hLeads a b)
    rw [hSame]
    exact leads_acyclic hEnv.closed h hValid hAcyclic x
  have hCard : (nodes env fusedGroups).card ≤ env.length + fusedGroups.length := by
    refine (List.toFinset_card_le _).trans (le_of_eq ?_)
    rw [List.length_append, List.length_map, names, List.length_map]
  exact Graph.finishAll_isSome hInside hNoCycle hCard (fun o ho => mem_nodes.mpr (Or.inl (hEnv.roots o ho)))
    (settled_start graph) fun _ hx => hx

/-- Where the pairs are valid and nothing is cyclic, no assertion fires. -/
theorem exists_realizationOrder (hUnique : Function.Injective unique) (hFresh : ∀ i, unique i ∉ names env)
    (hEnv : Pipeline outputs env) (hValid : Valid env) (hAcyclic : Acyclic env (computeWith env)) :
    ∃ r, realizationOrder unique outputs env = some r := by
  obtain ⟨env', hPopulate⟩ := populate_isSome hValid.hasStage
  obtain ⟨hSame, hPerm, hOwned⟩ := populate_spec hEnv.nodup hPopulate
  have hEnv' := pipeline_of_same hSame hEnv
  have hChecked : ∀ p ∈ fusedPairs env', Validated env' p := fun p hp =>
    validated_of_same hSame (hValid.validated p (hPerm.mem_iff.mp hp))
  obtain ⟨collected, hCollect⟩ := exists_collect hEnv'.closed (hOwned hValid.owned)
    (hPerm.nodup_iff.mpr hValid.nodup) hChecked
  obtain ⟨hHolds, -⟩ := holds_collect hEnv'.closed hCollect
  have hAcyclic' := acyclic_of_same hSame hPerm hAcyclic
  have hCheck := checkNoCyclic_of_holds hHolds (child_ne_of_acyclic hAcyclic') fun p hp => (hChecked p hp).ne
  obtain ⟨fusedGroups, hGroups, hGrouped⟩ :=
    findFusedGroups_spec hUnique (fun i => (names_eq hSame).symm ▸ hFresh i) hHolds hChecked
  obtain ⟨graph, hGraph, hLeads, hDefined⟩ := exists_graph hEnv'.nodup hGrouped hHolds
  obtain ⟨t, hFinish⟩ := exists_finishAll hEnv' hGrouped hChecked hAcyclic' hLeads hDefined
  have hPopulate' : populateFusedPairs env = some env' := hPopulate
  simp only [realizationOrder, hPopulate', hCollect, hCheck, hGroups, hGraph, hFinish, Option.bind_eq_bind,
    Option.bind_some, guard_true, Option.pure_def]
  exact ⟨_, rfl⟩

/-- What is returned is a schedule of the pipeline, and something is returned where the pairs are valid
and nothing is cyclic. -/
theorem realizationOrder_schedules (unique : Nat → ν) (outputs : List ν) (env : Environment ν)
    (hUnique : Function.Injective unique) (hFresh : ∀ i, unique i ∉ names env) (hEnv : Pipeline outputs env) :
    (∀ order groupOrder, realizationOrder unique outputs env = some (order, groupOrder) →
      Correct env (computeWith env) order groupOrder) ∧
    (Valid env → Acyclic env (computeWith env) → ∃ r, realizationOrder unique outputs env = some r) :=
  ⟨fun _ _ h => correct_of_realizationOrder hUnique hFresh hEnv h,
    fun hValid hAcyclic => exists_realizationOrder hUnique hFresh hEnv hValid hAcyclic⟩

section Sample

/-- Nothing is cyclic where calls lead to groups that are less deep, and pairs to earlier places. -/
theorem acyclic_of_rank (depth place : ν → Nat) (hPairs : ∀ p ∈ ps, depth p.func1 = depth p.func2)
    (hCalls : ∀ x, ∀ y ∈ findDirectCalls env x, y ≠ x → depth y < depth x)
    (hPlaces : ∀ p ∈ ps, place p.func2 < place p.func1) : Acyclic env ps := by
  have hSame {a b : ν} (h : SameGroup ps a b) : depth a = depth b := by
    induction h with
    | refl => rfl
    | tail _ hStep ih =>
      obtain ⟨p, hp, ⟨rfl, rfl⟩ | ⟨rfl, rfl⟩⟩ := hStep
      · exact ih.trans (hPairs p hp)
      · exact ih.trans (hPairs p hp).symm
  have hContracted {a b : ν} (h : TransGen (Contracted env ps) a b) : depth b < depth a := by
    have hEdge {a b : ν} (h : Contracted env ps a b) : depth b < depth a := by
      obtain ⟨x, y, hx, hCall, hNe, hy⟩ := h
      rw [hSame hx, ← hSame hy]
      exact hCalls x y hCall hNe
    induction h with
    | single h => exact hEdge h
    | tail _ h ih => exact (hEdge h).trans ih
  have hChild {a b : ν} (h : TransGen (Child ps) a b) : place b < place a := by
    have hEdge {a b : ν} (h : Child ps a b) : place b < place a := by
      obtain ⟨p, hp, rfl, rfl⟩ := h
      exact hPlaces p hp
    induction h with
    | single h => exact hEdge h
    | tail _ h ih => exact (hEdge h).trans ih
  exact ⟨fun a _ h => lt_irrefl _ (hContracted h), fun a h => lt_irrefl _ (hChild h)⟩

/-- Two functions of which the second is computed with the first, and an output that calls both and itself. -/
def sampleEnv : Environment Nat :=
  [(0, { directCalls := [], definitions := [{}] }),
    (1, { directCalls := [], definitions := [{ fuseLevel := some ⟨0, 0, 7⟩ }] }),
    (2, { directCalls := [0, 1, 2], definitions := [{}, {}] })]

theorem pipeline_sampleEnv : Pipeline [2] sampleEnv where
  nodup := by decide
  roots := by decide
  closed := by
    have hAll : ∀ a ∈ names sampleEnv, ∀ b ∈ findDirectCalls sampleEnv a, b ∈ names sampleEnv := by decide
    exact hAll
  reachable x hx := by
    have hCall : x ∈ findDirectCalls sampleEnv 2 := by
      revert hx
      revert x
      decide
    exact ⟨2, List.mem_singleton_self 2, ReflTransGen.single hCall⟩

theorem valid_sampleEnv : Valid sampleEnv where
  hasStage := by
    intro p hp
    obtain rfl : p = ⟨0, 0, 1, 0, 7⟩ := by
      have hOnly : newPairs sampleEnv = [⟨0, 0, 1, 0, 7⟩] := by decide
      rw [hOnly] at hp
      exact List.mem_singleton.mp hp
    exact ⟨_, rfl, rfl, Nat.zero_lt_one⟩
  owned := by
    have hNone : ∀ stage ∈ stages sampleEnv, ∀ p ∈ stage.2.1.fusedPairs, p.func1 = stage.1 ∧ p.stage1 = stage.2.2 := by
      decide
    exact hNone
  nodup := by decide
  validated := by
    intro p hp
    obtain rfl : p = ⟨0, 0, 1, 0, 7⟩ := by
      have hOnly : computeWith sampleEnv = [⟨0, 0, 1, 0, 7⟩] := by decide
      rw [hOnly] at hp
      exact List.mem_singleton.mp hp
    have hLeaf {a b : Nat} (hCalls : findDirectCalls sampleEnv a = []) (h : CallsThrough sampleEnv a b) : a = b := by
      rcases h.cases_head with hEq | ⟨c, hc, -⟩
      · exact hEq
      · rw [Graph.Adjacent, hCalls] at hc
        exact absurd hc List.not_mem_nil
    exact ⟨by decide, by decide, by decide, fun h => absurd (hLeaf rfl h) (by decide),
      fun h => absurd (hLeaf rfl h) (by decide)⟩

theorem acyclic_sampleEnv : Acyclic sampleEnv (computeWith sampleEnv) := by
  refine acyclic_of_rank (fun x => if x = 2 then 1 else 0) (fun x => if x = 0 then 1 else 0) (by decide) ?_ (by decide)
  intro x y hy hNe
  have hx : x = 2 := by
    by_contra hx
    by_cases h0 : x = 0
    · subst h0
      exact absurd hy List.not_mem_nil
    · by_cases h1 : x = 1
      · subst h1
        exact absurd hy List.not_mem_nil
      · have hNone : findDirectCalls sampleEnv x = [] := by
          simp only [findDirectCalls, sampleEnv, List.lookup_cons, beq_false_of_ne h0, beq_false_of_ne h1,
            beq_false_of_ne hx, List.lookup_nil]
        rw [hNone] at hy
        exact absurd hy List.not_mem_nil
  subst hx
  rw [if_pos rfl, if_neg hNe]
  exact Nat.zero_lt_one

end Sample

theorem sampleEnv_scheduled : ∃ order groupOrder,
    realizationOrder (fun i => i + 100) [2] sampleEnv = some (order, groupOrder) ∧
      Correct sampleEnv (computeWith sampleEnv) order groupOrder := by
  obtain ⟨hCorrect, hReturns⟩ := realizationOrder_schedules (fun i => i + 100) [2] sampleEnv
    (fun _ _ h => Nat.add_right_cancel h) (fun i hi => by simp [names, sampleEnv] at hi) pipeline_sampleEnv
  obtain ⟨⟨order, groupOrder⟩, h⟩ := hReturns valid_sampleEnv acyclic_sampleEnv
  exact ⟨order, groupOrder, h, hCorrect order groupOrder h⟩

end Vyasa.RealizationOrder
