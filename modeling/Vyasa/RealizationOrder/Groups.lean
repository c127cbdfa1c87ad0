import Mathlib.Data.List.Pairwise
import Vyasa.RealizationOrder.Collect

/-! The fused groups, and the graph that has a node for each of them. -/
namespace Vyasa.RealizationOrder

open Relation

variable {ν : Type} [LinearOrder ν] {unique : Nat → ν} {env : Environment ν} {a b x y name : ν}
  {c : Collected ν} {ps : List (FusedPair ν)} {fusedGroups : List (ν × List ν)} {g g' : ν × List ν}
  {graph graph' : ν → Option (List ν)}

section Groups

/-- The functions are the two of a pair. -/
def Together (ps : List (FusedPair ν)) (a b : ν) : Prop :=
  ∃ p ∈ ps, (p.func1 = a ∧ p.func2 = b) ∨ (p.func2 = a ∧ p.func1 = b)

/-- The functions are in one connected component of the pairs. -/
def SameGroup (ps : List (FusedPair ν)) : ν → ν → Prop := ReflTransGen (Together ps)

omit [LinearOrder ν] in
theorem Together.symm (h : Together ps a b) : Together ps b a := by
  obtain ⟨p, hp, hPair⟩ := h
  exact ⟨p, hp, hPair.symm.imp And.symm And.symm⟩

omit [LinearOrder ν] in
theorem SameGroup.symm (h : SameGroup ps a b) : SameGroup ps b a := by
  induction h with
  | refl => exact ReflTransGen.refl
  | tail _ hStep ih => exact ReflTransGen.head hStep.symm ih

/-- The groups are the connected components, and their names are new and different. -/
structure Grouped (env : Environment ν) (ps : List (FusedPair ν)) (fusedGroups : List (ν × List ν)) : Prop where
  nodup : (fusedGroups.flatMap Prod.snd).Nodup
  mem : ∀ x, x ∈ fusedGroups.flatMap Prod.snd ↔ x ∈ names env
  connected : ∀ g ∈ fusedGroups, ∀ x ∈ g.2, ∀ y, y ∈ g.2 ↔ SameGroup ps x y
  nonempty : ∀ g ∈ fusedGroups, g.2 ≠ []
  names_nodup : (fusedGroups.map Prod.fst).Nodup
  fresh : ∀ g ∈ fusedGroups, g.1 ∉ names env

theorem findFusedGroups_spec (hUnique : Function.Injective unique) (hFresh : ∀ i, unique i ∉ names env)
    (hHolds : Holds ps c) (hValid : ∀ p ∈ ps, Validated env p) :
    ∃ fusedGroups, findFusedGroups unique env c.fuseAdjacencyList = some fusedGroups ∧
      Grouped env ps fusedGroups := by
  have hInside : ∀ x ∈ (names env).toFinset, ∀ y ∈ (c.fuseAdjacencyList x).getD [], y ∈ (names env).toFinset := by
    intro x _ y hy
    obtain ⟨p, hp, ⟨-, rfl⟩ | ⟨-, rfl⟩⟩ := (hHolds.adjacent x y).mp hy
    · exact List.mem_toFinset.mpr (hValid p hp).second
    · exact List.mem_toFinset.mpr (hValid p hp).first
  have hCard : (names env).toFinset.card ≤ env.length := by
    refine (List.toFinset_card_le _).trans ?_
    rw [names, List.length_map]
  obtain ⟨groups, hGroups⟩ := Graph.components_isSome hInside hCard (names env)
    (fun x hx => List.mem_toFinset.mpr hx) []
  have hSymm (x y : ν) (hy : y ∈ (c.fuseAdjacencyList x).getD []) : x ∈ (c.fuseAdjacencyList y).getD [] := by
    have hTogether : Together ps x y := (hHolds.adjacent x y).mp hy
    exact (hHolds.adjacent y x).mpr hTogether.symm
  have hDivides := Graph.components_divides hSymm hGroups
  have hRelation : Graph.Adjacent (fun v => (c.fuseAdjacencyList v).getD []) = Together ps := by
    funext x y
    exact propext (hHolds.adjacent x y)
  have hSnd : (groups.zipIdx.map fun group => (unique group.2, group.1)).map Prod.snd = groups := by
    rw [List.map_map]
    exact List.zipIdx_map_fst 0 groups
  have hFst : (groups.zipIdx.map fun group => (unique group.2, group.1)).map Prod.fst =
      (List.range' 0 groups.length).map unique := by
    rw [List.map_map, ← List.zipIdx_map_snd, List.map_map]
    rfl
  have hFlat : (groups.zipIdx.map fun group => (unique group.2, group.1)).flatMap Prod.snd = groups.flatten := by
    rw [List.flatMap_def, hSnd]
  have hMem {g : ν × List ν} (hg : g ∈ groups.zipIdx.map fun group => (unique group.2, group.1)) : g.2 ∈ groups :=
    hSnd ▸ List.mem_map_of_mem hg
  refine ⟨groups.zipIdx.map fun group => (unique group.2, group.1), by rw [findFusedGroups, ← names, hGroups]; rfl,
    ?_⟩
  constructor
  case nodup => rw [hFlat]; exact hDivides.nodup
  case mem =>
    intro x
    rw [hFlat]
    refine ⟨fun hx => ?_, hDivides.covers x⟩
    obtain ⟨v, hv, hReach⟩ := hDivides.reached x hx
    clear hx
    induction hReach with
    | refl => exact hv
    | tail _ hStep ih => exact List.mem_toFinset.mp (hInside _ (List.mem_toFinset.mpr ih) _ hStep)
  case connected =>
    intro g hg x hx y
    rw [hDivides.connected g.2 (hMem hg) x hx y, hRelation]
    exact Iff.rfl
  case nonempty => exact fun g hg => hDivides.nonempty g.2 (hMem hg)
  case names_nodup =>
    rw [hFst]
    exact List.Nodup.map hUnique List.nodup_range'
  case fresh =>
    intro g hg
    obtain ⟨group, -, rfl⟩ := List.mem_map.mp hg
    exact hFresh group.2

omit [LinearOrder ν] in
theorem Grouped.exists_group (h : Grouped env ps fusedGroups) (hx : x ∈ names env) :
    ∃ g ∈ fusedGroups, x ∈ g.2 := List.mem_flatMap.mp ((h.mem x).mpr hx)

omit [LinearOrder ν] in
theorem Grouped.mem_names (h : Grouped env ps fusedGroups) (hg : g ∈ fusedGroups) (hx : x ∈ g.2) :
    x ∈ names env := (h.mem x).mp (List.mem_flatMap.mpr ⟨g, hg, hx⟩)

omit [LinearOrder ν] in
theorem Grouped.eq_of_mem (h : Grouped env ps fusedGroups) (hg : g ∈ fusedGroups) (hg' : g' ∈ fusedGroups)
    (hx : x ∈ g.2) (hx' : x ∈ g'.2) : g = g' := by
  by_contra hNe
  have hPairwise : fusedGroups.Pairwise fun g g' => g.2.Disjoint g'.2 := (List.nodup_flatMap.mp h.nodup).2
  have hSymm : Std.Symm fun g g' : ν × List ν => g.2.Disjoint g'.2 := ⟨fun _ _ hDisjoint => hDisjoint.symm⟩
  exact List.disjoint_left.mp (hPairwise.forall hg hg' hNe) hx hx'

omit [LinearOrder ν] in
theorem Grouped.eq_of_name (h : Grouped env ps fusedGroups) (hg : g ∈ fusedGroups) (hg' : g' ∈ fusedGroups)
    (hName : g.1 = g'.1) : g = g' :=
  List.inj_on_of_nodup_map h.names_nodup hg hg' hName

theorem Grouped.groupName_eq (h : Grouped env ps fusedGroups) (hg : g ∈ fusedGroups) (hx : x ∈ g.2) :
    groupName fusedGroups x = some g.1 := by
  have hSome : (fusedGroups.find? fun group => x ∈ group.2).isSome :=
    List.find?_isSome.mpr ⟨g, hg, decide_eq_true hx⟩
  obtain ⟨g', hFind⟩ := Option.isSome_iff_exists.mp hSome
  have hx' := List.find?_some hFind
  rw [groupName, hFind, Option.map_some, h.eq_of_mem hg (List.mem_of_find?_eq_some hFind) hx (of_decide_eq_true hx')]

end Groups

section Graph

/-- The edges of the graph: from a function to those computed with it and to its group, and from a
group to what its functions call, themselves apart. -/
def Leads (env : Environment ν) (ps : List (FusedPair ν)) (fusedGroups : List (ν × List ν)) (a b : ν) : Prop :=
  (∃ p ∈ ps, p.func1 = a ∧ p.func2 = b) ∨ (∃ g ∈ fusedGroups, a ∈ g.2 ∧ b = g.1) ∨
    ∃ g ∈ fusedGroups, a = g.1 ∧ ∃ x ∈ g.2, b ∈ findDirectCalls env x ∧ b ≠ x

theorem isSome_pushBack (m : ν → Option (List ν)) (k v : ν) (h : (m a).isSome ∨ a = k) :
    ((pushBack m k v) a).isSome := by
  rw [pushBack, Function.update_apply]
  split_ifs with hKey
  · rfl
  · exact h.resolve_right hKey

theorem isSome_allocate (m : ν → Option (List ν)) (k : ν) (h : (m a).isSome ∨ a = k) :
    ((allocate m k) a).isSome := by
  rw [allocate, Function.update_apply]
  split_ifs with hKey
  · rfl
  · exact h.resolve_right hKey

/-- The loop over the calls of a function. -/
theorem mem_addCalls (x rename : ν) (calls : List ν) (graph : ν → Option (List ν)) :
    (∀ a b, b ∈ ((calls.foldl (fun graph callee =>
        if callee ≠ x ∧ callee ∉ (graph rename).getD [] then pushBack graph rename callee else graph) graph) a).getD [] ↔
      b ∈ (graph a).getD [] ∨ (a = rename ∧ b ∈ calls ∧ b ≠ x)) ∧
    ∀ a, (graph a).isSome → ((calls.foldl (fun graph callee =>
        if callee ≠ x ∧ callee ∉ (graph rename).getD [] then pushBack graph rename callee else graph) graph) a).isSome := by
  induction calls generalizing graph with
  | nil => exact ⟨fun a b => by simp, fun _ h => h⟩
  | cons callee calls ih =>
    rw [List.foldl_cons]
    split_ifs with hCallee
    · obtain ⟨hMem, hSome⟩ := ih (pushBack graph rename callee)
      refine ⟨fun a b => ?_, fun a h => hSome a (isSome_pushBack graph rename callee (Or.inl h))⟩
      rw [hMem, getD_pushBack, List.mem_append, List.mem_cons]
      split_ifs with hKey <;> grind
    · obtain ⟨hMem, hSome⟩ := ih graph
      refine ⟨fun a b => ?_, hSome⟩
      rw [hMem, List.mem_cons]
      grind

theorem addCaller_spec (graph : ν → Option (List ν)) {entry : ν × Func ν} {rename : ν}
    (hRename : groupName fusedGroups entry.1 = some rename) :
    ∃ graph', addCaller fusedGroups graph entry = some graph' ∧
      (∀ a b, b ∈ (graph' a).getD [] ↔ b ∈ (graph a).getD [] ∨ (a = entry.1 ∧ b = rename) ∨
        (a = rename ∧ b ∈ entry.2.directCalls ∧ b ≠ entry.1)) ∧
      ∀ a, (graph a).isSome ∨ a = entry.1 ∨ a = rename → (graph' a).isSome := by
  obtain ⟨hMem, hSome⟩ := mem_addCalls entry.1 rename entry.2.directCalls
    (allocate (pushBack graph entry.1 rename) rename)
  refine ⟨_, by rw [addCaller, hRename]; rfl, fun a b => ?_, fun a h => hSome a ?_⟩
  · rw [hMem, getD_allocate, getD_pushBack, List.mem_append, or_assoc]
    split_ifs with hKey <;> simp [hKey]
  · refine isSome_allocate _ rename ?_
    rcases h with h | h | h
    · exact Or.inl (isSome_pushBack graph entry.1 rename (Or.inl h))
    · exact Or.inl (isSome_pushBack graph entry.1 rename (Or.inr h))
    · exact Or.inr h


/-- The loop over the functions. -/
theorem addCallers_spec (l : List (ν × Func ν)) (graph : ν → Option (List ν))
    (hNamed : ∀ entry ∈ l, ∃ rename, groupName fusedGroups entry.1 = some rename) :
    ∃ graph', l.foldlM (addCaller fusedGroups) graph = some graph' ∧
      (∀ a b, b ∈ (graph' a).getD [] ↔ b ∈ (graph a).getD [] ∨ ∃ entry ∈ l,
        (a = entry.1 ∧ groupName fusedGroups entry.1 = some b) ∨
          (groupName fusedGroups entry.1 = some a ∧ b ∈ entry.2.directCalls ∧ b ≠ entry.1)) ∧
      ∀ a, ((graph a).isSome ∨ ∃ entry ∈ l, a = entry.1 ∨ groupName fusedGroups entry.1 = some a) →
        (graph' a).isSome := by
  induction l generalizing graph with
  | nil => exact ⟨graph, rfl, fun a b => by simp, fun a h => by simpa using h⟩
  | cons entry l ih =>
    rw [List.forall_mem_cons] at hNamed
    obtain ⟨rename, hRename⟩ := hNamed.1
    obtain ⟨graph₁, hStep, hMem₁, hSome₁⟩ := addCaller_spec graph hRename
    obtain ⟨graph', hRest, hMem, hSome⟩ := ih graph₁ hNamed.2
    refine ⟨graph', by rw [List.foldlM_cons, hStep]; exact hRest, fun a b => ?_, fun a h => hSome a ?_⟩
    · rw [hMem, hMem₁]
      simp only [List.mem_cons, or_and_right, exists_or, exists_eq_left, hRename, Option.some.injEq]
      rw [or_assoc, eq_comm (a := b), eq_comm (a := a) (b := rename), or_assoc]
    · simp only [List.mem_cons, or_and_right, exists_or, exists_eq_left, hRename, Option.some.injEq] at h
      rcases h with h | (h | h) | h
      · exact Or.inl (hSome₁ a (Or.inl h))
      · exact Or.inl (hSome₁ a (Or.inr (Or.inl h)))
      · exact Or.inl (hSome₁ a (Or.inr (Or.inr h.symm)))
      · exact Or.inr h

omit [LinearOrder ν] in
theorem edge_iff : Graph.Edge graph a b ↔ b ∈ (graph a).getD [] := by
  unfold Graph.Edge
  cases graph a with
  | none => simp
  | some ws => simp

/-- The graph has a node for every function and every group, and these edges. -/
theorem exists_graph (hNodup : (names env).Nodup) (hGrouped : Grouped env ps fusedGroups) (hHolds : Holds ps c) :
    ∃ graph, env.foldlM (addCaller fusedGroups) c.graph = some graph ∧
      (∀ a b, Graph.Edge graph a b ↔ Leads env ps fusedGroups a b) ∧
      ∀ a, (a ∈ names env ∨ ∃ g ∈ fusedGroups, a = g.1) → ∃ ws, graph a = some ws := by
  have hNamed : ∀ entry ∈ env, ∃ rename, groupName fusedGroups entry.1 = some rename := by
    intro entry hEntry
    obtain ⟨g, hg, hx⟩ := hGrouped.exists_group (List.mem_map_of_mem hEntry)
    exact ⟨g.1, hGrouped.groupName_eq hg hx⟩
  obtain ⟨graph, hGraph, hMem, hSome⟩ := addCallers_spec env c.graph hNamed
  have hName {x r : ν} (hx : x ∈ names env) : groupName fusedGroups x = some r ↔ ∃ g ∈ fusedGroups, x ∈ g.2 ∧ r = g.1 := by
    obtain ⟨g, hg, hxg⟩ := hGrouped.exists_group hx
    rw [hGrouped.groupName_eq hg hxg, Option.some.injEq]
    constructor
    · rintro rfl
      exact ⟨g, hg, hxg, rfl⟩
    · rintro ⟨g', hg', hxg', rfl⟩
      rw [hGrouped.eq_of_mem hg hg' hxg hxg']
  refine ⟨graph, hGraph, fun a b => ?_, fun a ha => Option.isSome_iff_exists.mp (hSome a (Or.inr ?_))⟩
  · rw [edge_iff, hMem, hHolds.edges, Leads]
    refine or_congr_right ⟨?_, ?_⟩
    · rintro ⟨entry, hEntry, ⟨rfl, hb⟩ | ⟨ha, hCall, hNe⟩⟩
      · exact Or.inl ((hName (List.mem_map_of_mem hEntry)).mp hb)
      · obtain ⟨g, hg, hx, rfl⟩ := (hName (List.mem_map_of_mem hEntry)).mp ha
        refine Or.inr ⟨g, hg, rfl, entry.1, hx, ?_, hNe⟩
        rw [findDirectCalls, (mem_iff_lookup hNodup).mp hEntry]
        exact hCall
    · rintro (⟨g, hg, ha, rfl⟩ | ⟨g, hg, rfl, x, hx, hCall, hNe⟩)
      · obtain ⟨entry, hEntry, rfl⟩ := List.mem_map.mp (hGrouped.mem_names hg ha)
        exact ⟨entry, hEntry, Or.inl ⟨rfl, hGrouped.groupName_eq hg ha⟩⟩
      · obtain ⟨entry, hEntry, rfl⟩ := List.mem_map.mp (hGrouped.mem_names hg hx)
        refine ⟨entry, hEntry, Or.inr ⟨hGrouped.groupName_eq hg hx, ?_, hNe⟩⟩
        rwa [findDirectCalls, (mem_iff_lookup hNodup).mp hEntry] at hCall
  · rcases ha with ha | ⟨g, hg, rfl⟩
    · obtain ⟨entry, hEntry, rfl⟩ := List.mem_map.mp ha
      exact ⟨entry, hEntry, Or.inl rfl⟩
    · obtain ⟨x, hx⟩ := List.exists_mem_of_ne_nil _ (hGrouped.nonempty g hg)
      obtain ⟨entry, hEntry, rfl⟩ := List.mem_map.mp (hGrouped.mem_names hg hx)
      exact ⟨entry, hEntry, Or.inr (hGrouped.groupName_eq hg hx)⟩

end Graph

section Acyclic

/-- An edge of the calls where each group is contracted to one node. -/
def Contracted (env : Environment ν) (ps : List (FusedPair ν)) (a b : ν) : Prop :=
  ∃ x y, SameGroup ps a x ∧ y ∈ findDirectCalls env x ∧ y ≠ x ∧ SameGroup ps y b

/-- The second function is computed with the first. -/
def Child (ps : List (FusedPair ν)) (a b : ν) : Prop := ∃ p ∈ ps, p.func1 = a ∧ p.func2 = b

/-- No path of contracted calls and no path of pairs comes back to its source. The first edges lead between
groups and the second stay in a group, so no other path could. -/
structure Acyclic (env : Environment ν) (ps : List (FusedPair ν)) : Prop where
  calls : ∀ a ∈ names env, ¬ TransGen (Contracted env ps) a a
  pairs : ∀ a, ¬ TransGen (Child ps) a a

/-- The node is a function of the group of this one, or the group itself. -/
def NodeOf (env : Environment ν) (ps : List (FusedPair ν)) (fusedGroups : List (ν × List ν)) (n a : ν) : Prop :=
  (n ∈ names env ∧ SameGroup ps n a) ∨ ∃ g ∈ fusedGroups, n = g.1 ∧ a ∈ g.2

theorem leads_group (hClosed : Closed env) (h : Grouped env ps fusedGroups) (hValid : ∀ p ∈ ps, Validated env p)
    (hg : g ∈ fusedGroups) (ha : a ∈ g.2) (hEdge : Leads env ps fusedGroups g.1 b) :
    Contracted env ps a b ∧ b ∈ names env := by
  rcases hEdge with ⟨p, hp, hFirst, -⟩ | ⟨g', hg', hMem, -⟩ | ⟨g', hg', hName, x, hx, hCall, hNe⟩
  · exact absurd (hFirst ▸ (hValid p hp).first) (h.fresh g hg)
  · exact absurd (h.mem_names hg' hMem) (h.fresh g hg)
  · obtain rfl := h.eq_of_name hg hg' hName
    exact ⟨⟨x, b, (h.connected g hg a ha x).mp hx, hCall, hNe, ReflTransGen.refl⟩,
      hClosed x (h.mem_names hg hx) b hCall⟩

theorem nodeOf_step (hClosed : Closed env) (h : Grouped env ps fusedGroups) (hValid : ∀ p ∈ ps, Validated env p)
    {n m : ν} (hNode : NodeOf env ps fusedGroups n a) (hEdge : Leads env ps fusedGroups n m) :
    ∃ b, NodeOf env ps fusedGroups m b ∧ ReflTransGen (Contracted env ps) a b := by
  rcases hNode with ⟨hn, hSame⟩ | ⟨g, hg, rfl, ha⟩
  · refine ⟨a, ?_, ReflTransGen.refl⟩
    rcases hEdge with ⟨p, hp, rfl, rfl⟩ | ⟨g, hg, hMem, rfl⟩ | ⟨g, hg, rfl, -⟩
    · have hTogether : Together ps p.func2 p.func1 := ⟨p, hp, Or.inr ⟨rfl, rfl⟩⟩
      exact Or.inl ⟨(hValid p hp).second, ReflTransGen.head hTogether hSame⟩
    · exact Or.inr ⟨g, hg, rfl, (h.connected g hg n hMem a).mpr hSame⟩
    · exact absurd hn (h.fresh g hg)
  · obtain ⟨hContracted, hm⟩ := leads_group hClosed h hValid hg ha hEdge
    exact ⟨m, Or.inl ⟨hm, ReflTransGen.refl⟩, ReflTransGen.single hContracted⟩

theorem nodeOf_path (hClosed : Closed env) (h : Grouped env ps fusedGroups) (hValid : ∀ p ∈ ps, Validated env p)
    {n m : ν} (hNode : NodeOf env ps fusedGroups n a) (hPath : ReflTransGen (Leads env ps fusedGroups) n m) :
    ∃ b, NodeOf env ps fusedGroups m b ∧ ReflTransGen (Contracted env ps) a b := by
  induction hPath with
  | refl => exact ⟨a, hNode, ReflTransGen.refl⟩
  | tail _ hEdge ih =>
    obtain ⟨b, hb, hReach⟩ := ih
    obtain ⟨b', hb', hStep⟩ := nodeOf_step hClosed h hValid hb hEdge
    exact ⟨b', hb', hReach.trans hStep⟩

/-- A contracted edge may end anywhere in its last group. -/
theorem contracted_of_sameGroup (h : TransGen (Contracted env ps) a x) (hSame : SameGroup ps x y) :
    TransGen (Contracted env ps) a y := by
  have hLast {u : ν} (hEdge : Contracted env ps u x) : Contracted env ps u y := by
    obtain ⟨v, w, hv, hCall, hNe, hw⟩ := hEdge
    exact ⟨v, w, hv, hCall, hNe, hw.trans hSame⟩
  cases h with
  | single hEdge => exact TransGen.single (hLast hEdge)
  | tail hPath hEdge => exact TransGen.tail hPath (hLast hEdge)

/-- A path of the graph goes along pairs only, or through the node of a group. -/
theorem path_cases {n m : ν} (hPath : TransGen (Leads env ps fusedGroups) n m) :
    TransGen (Child ps) n m ∨ ∃ g ∈ fusedGroups, ReflTransGen (Leads env ps fusedGroups) n g.1 ∧
      ReflTransGen (Leads env ps fusedGroups) g.1 m := by
  induction hPath with
  | single hEdge =>
    rcases hEdge with hPair | ⟨g, hg, hMem, rfl⟩ | ⟨g, hg, rfl, hCall⟩
    · exact Or.inl (TransGen.single hPair)
    · exact Or.inr ⟨g, hg, ReflTransGen.single (Or.inr (Or.inl ⟨g, hg, hMem, rfl⟩)), ReflTransGen.refl⟩
    · exact Or.inr ⟨g, hg, ReflTransGen.refl, ReflTransGen.single (Or.inr (Or.inr ⟨g, hg, rfl, hCall⟩))⟩
  | @tail u w hPath hEdge ih =>
    rcases ih with hPairs | ⟨g, hg, hTo, hFrom⟩
    · rcases hEdge with hPair | ⟨g, hg, hMem, rfl⟩ | ⟨g, hg, rfl, hCall⟩
      · exact Or.inl (hPairs.tail hPair)
      · exact Or.inr ⟨g, hg, (hPath.tail (Or.inr (Or.inl ⟨g, hg, hMem, rfl⟩))).to_reflTransGen, ReflTransGen.refl⟩
      · exact Or.inr ⟨g, hg, hPath.to_reflTransGen, ReflTransGen.single (Or.inr (Or.inr ⟨g, hg, rfl, hCall⟩))⟩
    · exact Or.inr ⟨g, hg, hTo, hFrom.tail hEdge⟩

/-- The graph has no cycle. -/
theorem leads_acyclic (hClosed : Closed env) (h : Grouped env ps fusedGroups) (hValid : ∀ p ∈ ps, Validated env p)
    (hAcyclic : Acyclic env ps) (n : ν) : ¬ TransGen (Leads env ps fusedGroups) n n := by
  intro hCycle
  rcases path_cases hCycle with hPairs | ⟨g, hg, hTo, hFrom⟩
  · exact hAcyclic.pairs n hPairs
  · have hGroupCycle : TransGen (Leads env ps fusedGroups) g.1 g.1 := (TransGen.trans_right hFrom hCycle).trans_left hTo
    obtain ⟨a, ha⟩ := List.exists_mem_of_ne_nil _ (h.nonempty g hg)
    obtain ⟨m, hEdge, hRest⟩ := TransGen.head'_iff.mp hGroupCycle
    obtain ⟨hContracted, hm⟩ := leads_group hClosed h hValid hg ha hEdge
    obtain ⟨b, hNode, hReach⟩ := nodeOf_path hClosed h hValid (Or.inl ⟨hm, ReflTransGen.refl⟩) hRest
    rcases hNode with ⟨hName, -⟩ | ⟨g', hg', hSame, hb⟩
    · exact h.fresh g hg hName
    · obtain rfl := h.eq_of_name hg hg' hSame
      exact hAcyclic.calls a (h.mem_names hg ha) (contracted_of_sameGroup
        ((TransGen.single hContracted).trans_left hReach) ((h.connected g hg b hb a).mp ha))

end Acyclic

end Vyasa.RealizationOrder
