import Mathlib.Data.Finset.Card
import Mathlib.Data.List.Nodup
import Mathlib.Logic.Relation

/-! Depth-first search with a list of marked vertices, and the division of a graph
into its connected components by one search from each vertex that is not marked
yet. -/
namespace Graph

open Relation

variable {V : Type*}

/-- The marked vertices, and those listed since the search began. -/
structure Search (V : Type*) where
  visited : List V
  group : List V

/-- Marks and lists a vertex, and then every neighbour that is not marked when its
turn comes. There is no result where the recursion is deeper than the fuel. -/
def explore [DecidableEq V] (adj : V → List V) : Nat → Search V → V → Option (Search V)
  | 0, _, _ => none
  | fuel + 1, s, v =>
    (adj v).foldlM (fun s w => if w ∈ s.visited then some s else explore adj fuel s w)
      { visited := v :: s.visited, group := s.group ++ [v] }

/-- One group for each vertex of the list that no earlier search has marked. -/
def components [DecidableEq V] (adj : V → List V) (fuel : Nat) : List V → List V → Option (List (List V))
  | [], _ => some []
  | v :: vs, visited =>
    if v ∈ visited then components adj fuel vs visited
    else do
      let s ← explore adj fuel ⟨visited, []⟩ v
      let groups ← components adj fuel vs s.visited
      return s.group :: groups

variable {adj : V → List V} {fuel : Nat} {s s' t : Search V} {v w x y : V}

/-- An edge leads from the first vertex to the second. -/
def Adjacent (adj : V → List V) (v w : V) : Prop := w ∈ adj v

/-- What a search has added: the vertices, each once and each reached from one of the
sources, and every neighbour of theirs is marked. -/
structure Extends (adj : V → List V) (sources : List V) (s s' : Search V) (new : List V) : Prop where
  group : s'.group = s.group ++ new
  visited : ∀ x, x ∈ s'.visited ↔ x ∈ s.visited ∨ x ∈ new
  nodup : new.Nodup
  fresh : ∀ x ∈ new, x ∉ s.visited
  reached : ∀ x ∈ new, ∃ w ∈ sources, ReflTransGen (Adjacent adj) w x
  closed : ∀ x ∈ new, ∀ y ∈ adj x, y ∈ s'.visited

theorem Extends.refl (s : Search V) : Extends adj [] s s [] where
  group := (List.append_nil _).symm
  visited := by simp
  nodup := List.nodup_nil
  fresh := by simp
  reached := by simp
  closed := by simp

/-- A search that follows another one. -/
theorem Extends.trans {sources sources' new new' : List V} (h : Extends adj sources s t new)
    (h' : Extends adj sources' t s' new') : Extends adj (sources ++ sources') s s' (new ++ new') where
  group := by rw [h'.group, h.group, List.append_assoc]
  visited x := by rw [h'.visited, h.visited, List.mem_append, or_assoc]
  nodup := by
    refine List.nodup_append.mpr ⟨h.nodup, h'.nodup, fun x hx y hy hEq => ?_⟩
    exact h'.fresh y hy ((h.visited y).mpr (Or.inr (hEq ▸ hx)))
  fresh x hx := by
    rcases List.mem_append.mp hx with hx | hx
    · exact h.fresh x hx
    · exact fun hOld => h'.fresh x hx ((h.visited x).mpr (Or.inl hOld))
  reached x hx := by
    rcases List.mem_append.mp hx with hx | hx
    · obtain ⟨w, hw, hReach⟩ := h.reached x hx
      exact ⟨w, List.mem_append_left _ hw, hReach⟩
    · obtain ⟨w, hw, hReach⟩ := h'.reached x hx
      exact ⟨w, List.mem_append_right _ hw, hReach⟩
  closed x hx y hy := by
    rcases List.mem_append.mp hx with hx | hx
    · exact (h'.visited y).mpr (Or.inl (h.closed x hx y hy))
    · exact h'.closed x hx y hy

/-- Further sources do no harm. -/
theorem Extends.mono {sources sources' new : List V} (h : Extends adj sources s s' new)
    (hSub : sources ⊆ sources') : Extends adj sources' s s' new where
  group := h.group
  visited := h.visited
  nodup := h.nodup
  fresh := h.fresh
  reached x hx := by
    obtain ⟨w, hw, hReach⟩ := h.reached x hx
    exact ⟨w, hSub hw, hReach⟩
  closed := h.closed

section Explored

variable [DecidableEq V]

/-- What one call of `explore` does, for the calls at a smaller depth. -/
def ExploreSpec (adj : V → List V) (fuel : Nat) : Prop :=
  ∀ s s' v, v ∉ s.visited → explore adj fuel s v = some s' →
    ∃ new, Extends adj [v] s s' new ∧ v ∈ new

/-- The loop over the neighbours of a vertex. -/
theorem extends_foldlM (hSpec : ExploreSpec adj fuel) (ws : List V) {s : Search V}
    (h : ws.foldlM (fun s w => if w ∈ s.visited then some s else explore adj fuel s w) s = some s') :
    ∃ new, Extends adj ws s s' new ∧ ∀ w ∈ ws, w ∈ s'.visited := by
  induction ws generalizing s with
  | nil =>
    cases h
    exact ⟨[], Extends.refl _, by simp⟩
  | cons w ws ih =>
    rw [List.foldlM_cons] at h
    obtain ⟨t, hStep, hRest⟩ := Option.bind_eq_some_iff.mp h
    obtain ⟨new', hNew', hAll⟩ := ih hRest
    have hHead : ∃ new, Extends adj [w] s t new ∧ w ∈ t.visited := by
      split_ifs at hStep with hw
      · cases hStep
        exact ⟨[], (Extends.refl s).mono (by simp), hw⟩
      · obtain ⟨new, hNew, hMem⟩ := hSpec s t w hw hStep
        exact ⟨new, hNew, (hNew.visited w).mpr (Or.inr hMem)⟩
    obtain ⟨new, hNew, hw⟩ := hHead
    refine ⟨new ++ new', hNew.trans hNew', fun x hx => ?_⟩
    rcases List.mem_cons.mp hx with rfl | hx
    · exact (hNew'.visited x).mpr (Or.inl hw)
    · exact hAll x hx

theorem exploreSpec (adj : V → List V) (fuel : Nat) : ExploreSpec adj fuel := by
  induction fuel with
  | zero =>
    intro s s' v _ h
    cases h
  | succ fuel ih =>
    intro s s' v hv h
    rw [explore] at h
    obtain ⟨new, hNew, hAll⟩ := extends_foldlM ih (adj v) h
    refine ⟨v :: new, ?_, List.mem_cons_self⟩
    constructor
    case group => rw [hNew.group, List.append_assoc, List.singleton_append]
    case visited =>
      intro x
      rw [hNew.visited, List.mem_cons, List.mem_cons]
      tauto
    case nodup =>
      exact List.nodup_cons.mpr ⟨fun hMem => hNew.fresh v hMem List.mem_cons_self, hNew.nodup⟩
    case fresh =>
      intro x hx hOld
      rcases List.mem_cons.mp hx with rfl | hx
      · exact hv hOld
      · exact hNew.fresh x hx (List.mem_cons_of_mem _ hOld)
    case reached =>
      intro x hx
      refine ⟨v, List.mem_cons_self, ?_⟩
      rcases List.mem_cons.mp hx with rfl | hx
      · exact ReflTransGen.refl
      · obtain ⟨w, hw, hReach⟩ := hNew.reached x hx
        exact ReflTransGen.head hw hReach
    case closed =>
      intro x hx y hy
      rcases List.mem_cons.mp hx with rfl | hx
      · exact hAll y hy
      · exact hNew.closed x hx y hy

end Explored

section Fuel

variable [DecidableEq V] {U : Finset V}

/-- Those vertices of a finite set that are not marked. -/
def unvisited (U : Finset V) (visited : List V) : Finset V := U.filter (· ∉ visited)

theorem unvisited_subset {sources new : List V} (h : Extends adj sources s s' new) :
    unvisited U s'.visited ⊆ unvisited U s.visited := by
  intro x hx
  obtain ⟨hU, hx⟩ := Finset.mem_filter.mp hx
  exact Finset.mem_filter.mpr ⟨hU, fun hOld => hx ((h.visited x).mpr (Or.inl hOld))⟩

/-- The recursion is no deeper than the number of vertices that are not marked. -/
theorem explore_isSome (hU : ∀ x ∈ U, ∀ y ∈ adj x, y ∈ U) (hv : v ∈ U) (hNew : v ∉ s.visited)
    (hFuel : (unvisited U s.visited).card ≤ fuel) : ∃ s', explore adj fuel s v = some s' := by
  induction fuel generalizing s v with
  | zero =>
    have hEmpty := Finset.card_eq_zero.mp (Nat.le_zero.mp hFuel)
    have hMem : v ∈ unvisited U s.visited := Finset.mem_filter.mpr ⟨hv, hNew⟩
    simp [hEmpty] at hMem
  | succ fuel ih =>
    rw [explore]
    have hLess : (unvisited U (v :: s.visited)).card ≤ fuel := by
      refine Nat.le_of_lt_succ (lt_of_lt_of_le (Finset.card_lt_card ?_) hFuel)
      refine (Finset.ssubset_iff_of_subset fun x hx => ?_).mpr ⟨v, ?_, ?_⟩
      · obtain ⟨hx, hOut⟩ := Finset.mem_filter.mp hx
        exact Finset.mem_filter.mpr ⟨hx, fun h => hOut (List.mem_cons_of_mem _ h)⟩
      · exact Finset.mem_filter.mpr ⟨hv, hNew⟩
      · simp [unvisited]
    have hLoop (ws : List V) : ∀ t : Search V, (∀ w ∈ ws, w ∈ U) →
        (unvisited U t.visited).card ≤ fuel →
        ∃ s', ws.foldlM (fun s w => if w ∈ s.visited then some s else explore adj fuel s w) t =
          some s' := by
      induction ws with
      | nil => exact fun t _ _ => ⟨t, rfl⟩
      | cons w ws ihWs =>
        intro t hWs hFuel
        rw [List.foldlM_cons]
        by_cases hw : w ∈ t.visited
        · rw [if_pos hw]
          exact ihWs t (fun x hx => hWs x (List.mem_cons_of_mem _ hx)) hFuel
        · obtain ⟨t', ht'⟩ := ih (hWs w List.mem_cons_self) hw hFuel
          obtain ⟨new, hNew, -⟩ := exploreSpec adj fuel t t' w hw ht'
          obtain ⟨s', hs'⟩ := ihWs t' (fun x hx => hWs x (List.mem_cons_of_mem _ hx))
            ((Finset.card_le_card (unvisited_subset hNew)).trans hFuel)
          exact ⟨s', by rw [if_neg hw, ht']; exact hs'⟩
    exact hLoop (adj v) _ (hU v hv) hLess

theorem components_isSome (hU : ∀ x ∈ U, ∀ y ∈ adj x, y ∈ U) (hFuel : U.card ≤ fuel) (vs : List V)
    (hVs : ∀ v ∈ vs, v ∈ U) (visited : List V) :
    ∃ groups, components adj fuel vs visited = some groups := by
  induction vs generalizing visited with
  | nil => exact ⟨[], rfl⟩
  | cons v vs ih =>
    rw [components]
    split_ifs with hv
    · exact ih (fun x hx => hVs x (List.mem_cons_of_mem _ hx)) visited
    · have hCard : (unvisited U visited).card ≤ fuel :=
        (Finset.card_le_card (Finset.filter_subset _ _)).trans hFuel
      obtain ⟨s, hs⟩ := explore_isSome (s := ⟨visited, []⟩) hU (hVs v List.mem_cons_self) hv hCard
      obtain ⟨groups, hGroups⟩ := ih (fun x hx => hVs x (List.mem_cons_of_mem _ hx)) s.visited
      exact ⟨s.group :: groups, by rw [hs, Option.bind_eq_bind, Option.bind_some, hGroups]; rfl⟩

end Fuel

/-- A division of the vertices listed into groups, each of which is one connected
component. -/
structure Divides (adj : V → List V) (vs : List V) (groups : List (List V)) : Prop where
  nodup : groups.flatten.Nodup
  covers : ∀ v ∈ vs, v ∈ groups.flatten
  reached : ∀ x ∈ groups.flatten, ∃ v ∈ vs, ReflTransGen (Adjacent adj) v x
  connected : ∀ g ∈ groups, ∀ x ∈ g, ∀ y, y ∈ g ↔ ReflTransGen (Adjacent adj) x y
  nonempty : ∀ g ∈ groups, g ≠ []

/-- Two vertices are in one group exactly if a path joins them. -/
theorem Divides.same_group {vs : List V} {groups : List (List V)} (h : Divides adj vs groups)
    (hx : x ∈ vs) : (∃ g ∈ groups, x ∈ g ∧ y ∈ g) ↔ ReflTransGen (Adjacent adj) x y := by
  constructor
  · rintro ⟨g, hg, hxg, hyg⟩
    exact (h.connected g hg x hxg y).mp hyg
  · intro hReach
    obtain ⟨g, hg, hxg⟩ := List.mem_flatten.mp (h.covers x hx)
    exact ⟨g, hg, hxg, (h.connected g hg x hxg y).mpr hReach⟩

/-- The vertices one search adds are a component, where those marked before it are
closed under edges. -/
theorem connected_of_extends {new : List V} (hSymm : ∀ x y, y ∈ adj x → x ∈ adj y)
    (hClosed : ∀ x ∈ s.visited, ∀ y ∈ adj x, y ∈ s.visited) (h : Extends adj [v] s s' new)
    (hx : x ∈ new) : y ∈ new ↔ ReflTransGen (Adjacent adj) x y := by
  have hBack : Std.Symm (Adjacent adj) := ⟨hSymm⟩
  have hFrom (z : V) (hz : z ∈ new) : ReflTransGen (Adjacent adj) v z := by
    obtain ⟨w, hw, hReach⟩ := h.reached z hz
    exact List.mem_singleton.mp hw ▸ hReach
  constructor
  · exact fun hy => (symm_of (ReflTransGen (Adjacent adj)) (hFrom x hx)).trans (hFrom y hy)
  · intro hReach
    induction hReach with
    | refl => exact hx
    | @tail z w _ hStep ih =>
      rcases (h.visited w).mp (h.closed z ih w hStep) with hOld | hNew
      · exact absurd (hClosed w hOld z (hSymm z w hStep)) (h.fresh z ih)
      · exact hNew

theorem components_divides_of_visited [DecidableEq V] (hSymm : ∀ x y, y ∈ adj x → x ∈ adj y) (vs : List V)
    {visited : List V} {groups : List (List V)}
    (hClosed : ∀ x ∈ visited, ∀ y ∈ adj x, y ∈ visited)
    (h : components adj fuel vs visited = some groups) :
    Divides adj (vs.filter (· ∉ visited)) groups ∧ ∀ x ∈ groups.flatten, x ∉ visited := by
  induction vs generalizing visited groups with
  | nil =>
    cases h
    exact ⟨⟨List.nodup_nil, by simp, by simp, by simp, by simp⟩, by simp⟩
  | cons v vs ih =>
    rw [components] at h
    split_ifs at h with hv
    · rw [List.filter_cons_of_neg (by simpa using hv)]
      exact ih hClosed h
    · obtain ⟨s, hs, h⟩ := Option.bind_eq_some_iff.mp h
      obtain ⟨rest, hRest, h⟩ := Option.bind_eq_some_iff.mp h
      cases h
      obtain ⟨new, hNew, hMem⟩ := exploreSpec adj fuel _ s v hv hs
      have hGroup : s.group = new := by rw [hNew.group, List.nil_append]
      have hClosed' : ∀ x ∈ s.visited, ∀ y ∈ adj x, y ∈ s.visited := by
        intro x hx y hy
        rcases (hNew.visited x).mp hx with hx | hx
        · exact (hNew.visited y).mpr (Or.inl (hClosed x hx y hy))
        · exact hNew.closed x hx y hy
      obtain ⟨hDivides, hOut⟩ := ih hClosed' hRest
      rw [List.filter_cons_of_pos (by simpa using hv), hGroup]
      have hApart : ∀ x ∈ rest.flatten, x ∉ new := fun x hx hIn =>
        hOut x hx ((hNew.visited x).mpr (Or.inr hIn))
      refine ⟨⟨?_, ?_, ?_, ?_, ?_⟩, ?_⟩
      · rw [List.flatten_cons]
        exact List.nodup_append.mpr ⟨hNew.nodup, hDivides.nodup, fun x hx y hy hEq =>
          hApart y hy (hEq ▸ hx)⟩
      · intro x hx
        rw [List.flatten_cons, List.mem_append]
        rcases List.mem_cons.mp hx with rfl | hx
        · exact Or.inl hMem
        · obtain ⟨hIn, hNot⟩ := List.mem_filter.mp hx
          by_cases hSeen : x ∈ s.visited
          · exact Or.inl (((hNew.visited x).mp hSeen).resolve_left (by simpa using hNot))
          · exact Or.inr (hDivides.covers x (List.mem_filter.mpr ⟨hIn, by simpa using hSeen⟩))
      · intro x hx
        rw [List.flatten_cons, List.mem_append] at hx
        rcases hx with hx | hx
        · obtain ⟨w, hw, hReach⟩ := hNew.reached x hx
          exact ⟨w, List.mem_cons.mpr (Or.inl (List.mem_singleton.mp hw)), hReach⟩
        · obtain ⟨w, hw, hReach⟩ := hDivides.reached x hx
          obtain ⟨hIn, hNot⟩ := List.mem_filter.mp hw
          refine ⟨w, List.mem_cons_of_mem _ (List.mem_filter.mpr ⟨hIn, ?_⟩), hReach⟩
          simp only [decide_not, Bool.not_eq_true', decide_eq_false_iff_not] at hNot ⊢
          exact fun hOld => hNot ((hNew.visited w).mpr (Or.inl hOld))
      · intro g hg x hx y
        rcases List.mem_cons.mp hg with rfl | hg
        · exact connected_of_extends hSymm hClosed hNew hx
        · exact hDivides.connected g hg x hx y
      · intro g hg
        rcases List.mem_cons.mp hg with rfl | hg
        · exact List.ne_nil_of_mem hMem
        · exact hDivides.nonempty g hg
      · intro x hx
        rw [List.flatten_cons, List.mem_append] at hx
        rcases hx with hx | hx
        · exact hNew.fresh x hx
        · exact fun hOld => hOut x hx ((hNew.visited x).mpr (Or.inl hOld))

/-- One search from each vertex that is not marked yet finds the components. -/
theorem components_divides [DecidableEq V] (hSymm : ∀ x y, y ∈ adj x → x ∈ adj y) {vs : List V}
    {groups : List (List V)} (h : components adj fuel vs [] = some groups) :
    Divides adj vs groups := by
  have hDivides := (components_divides_of_visited hSymm vs (by simp) h).1
  rwa [List.filter_eq_self.mpr (by simp)] at hDivides

end Graph
