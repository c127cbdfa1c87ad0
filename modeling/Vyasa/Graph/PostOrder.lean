import Mathlib.Data.Finset.Card
import Mathlib.Data.List.Nodup
import Mathlib.Logic.Relation

/-! Depth-first search that lists a vertex after its successors, and fails where it comes back to
a vertex that it has not finished. -/
namespace Graph

open Relation

variable {V : Type*}

/-- The vertices that were entered, those that were finished, and the order they were finished in. -/
structure Traversal (V : Type*) where
  visited : List V
  resultSet : List V
  order : List V

/-- Enters a vertex, finishes its successors and then the vertex. There is no result where the vertex is
not in the graph, where it is its own successor, where a successor is entered but not finished, or where
the recursion is deeper than the fuel. -/
def finish [DecidableEq V] (graph : V → Option (List V)) : Nat → Traversal V → V → Option (Traversal V)
  | 0, _, _ => none
  | fuel + 1, s, v => do
    let successors ← graph v
    let t ← successors.foldlM (fun s w =>
      if w = v then none
      else if w ∈ s.visited then (if w ∈ s.resultSet then some s else none)
      else finish graph fuel s w) { s with visited := v :: s.visited }
    return { t with resultSet := v :: t.resultSet, order := t.order ++ [v] }

/-- Finishes the vertices that were not entered yet. -/
def finishAll [DecidableEq V] (graph : V → Option (List V)) (fuel : Nat) (vs : List V) (s : Traversal V) :
    Option (Traversal V) :=
  vs.foldlM (fun s v => if v ∈ s.visited then some s else finish graph fuel s v) s

/-- An edge leads from the first vertex to the second. -/
def Edge (graph : V → Option (List V)) (v w : V) : Prop := ∃ ws, graph v = some ws ∧ w ∈ ws

variable {graph : V → Option (List V)} {fuel : Nat} {s s' t : Traversal V} {v w x y : V}

/-- The finished vertices are listed once, each after its successors. -/
structure Settled (graph : V → Option (List V)) (s : Traversal V) : Prop where
  result : ∀ x, x ∈ s.resultSet ↔ x ∈ s.order
  entered : ∀ x ∈ s.order, x ∈ s.visited
  nodup : s.order.Nodup
  closed : ∀ before x after, s.order = before ++ x :: after → ∀ y, Edge graph x y → y ∈ before

/-- What a search adds to the order: vertices that were not entered before, each reached from a source. -/
structure Adds (graph : V → Option (List V)) (sources : List V) (s s' : Traversal V) (new : List V) : Prop where
  order : s'.order = s.order ++ new
  visited : ∀ x, x ∈ s'.visited ↔ x ∈ s.visited ∨ x ∈ new
  fresh : ∀ x ∈ new, x ∉ s.visited
  reached : ∀ x ∈ new, ∃ w ∈ sources, ReflTransGen (Edge graph) w x

theorem Adds.refl (sources : List V) (s : Traversal V) : Adds graph sources s s [] where
  order := (List.append_nil _).symm
  visited x := by rw [or_iff_left List.not_mem_nil]
  fresh _ hx := absurd hx List.not_mem_nil
  reached _ hx := absurd hx List.not_mem_nil

theorem Adds.trans {sources sources' new new' : List V} (h : Adds graph sources s t new)
    (h' : Adds graph sources' t s' new') : Adds graph (sources ++ sources') s s' (new ++ new') where
  order := by rw [h'.order, h.order, List.append_assoc]
  visited x := by rw [h'.visited, h.visited, List.mem_append, or_assoc]
  fresh x hx := by
    rcases List.mem_append.mp hx with hx | hx
    · exact h.fresh x hx
    · exact fun hOld => h'.fresh x hx ((h.visited x).mpr (Or.inl hOld))
  reached x hx := by
    rcases List.mem_append.mp hx with hx | hx
    · obtain ⟨w, hw, hReach⟩ := h.reached x hx
      exact ⟨w, List.mem_append_left _ hw, hReach⟩
    · obtain ⟨w, hw, hReach⟩ := h'.reached x hx
      exact ⟨w, List.mem_append_right _ hw, hReach⟩

/-- To list a vertex whose successors are all listed keeps the order. -/
theorem closed_append_singleton {order : List V}
    (h : ∀ before x after, order = before ++ x :: after → ∀ y, Edge graph x y → y ∈ before)
    (hv : ∀ y, Edge graph v y → y ∈ order) :
    ∀ before x after, order ++ [v] = before ++ x :: after → ∀ y, Edge graph x y → y ∈ before := by
  intro before x after hEq y hy
  rcases List.eq_nil_or_concat after with rfl | ⟨after, z, rfl⟩
  · obtain ⟨rfl, hLast⟩ := List.append_inj' hEq rfl
    obtain rfl : v = x := List.head_eq_of_cons_eq hLast
    exact hv y hy
  · rw [List.concat_eq_append, ← List.cons_append, ← List.append_assoc] at hEq
    obtain ⟨hInit, -⟩ := List.append_inj' hEq rfl
    exact h before x after hInit y hy

section Spec

variable [DecidableEq V]

/-- What one call does, for the calls at a smaller depth. -/
def FinishSpec (graph : V → Option (List V)) (fuel : Nat) : Prop :=
  ∀ s s' v, Settled graph s → v ∉ s.visited → finish graph fuel s v = some s' →
    ∃ new, Adds graph [v] s s' new ∧ v ∈ s'.order ∧ Settled graph s'

/-- The loop over the successors of a vertex. -/
theorem adds_foldlM (hSpec : FinishSpec graph fuel) (ws : List V) {s : Traversal V} (hs : Settled graph s)
    (h : ws.foldlM (fun s w => if w = v then none
      else if w ∈ s.visited then (if w ∈ s.resultSet then some s else none)
      else finish graph fuel s w) s = some s') :
    ∃ new, Adds graph ws s s' new ∧ (∀ w ∈ ws, w ∈ s'.order) ∧ Settled graph s' := by
  induction ws generalizing s with
  | nil =>
    cases h
    exact ⟨[], Adds.refl _ _, fun w hw => absurd hw List.not_mem_nil, hs⟩
  | cons w ws ih =>
    rw [List.foldlM_cons] at h
    obtain ⟨t, hStep, hRest⟩ := Option.bind_eq_some_iff.mp h
    have hHead : ∃ new, Adds graph [w] s t new ∧ w ∈ t.order ∧ Settled graph t := by
      split_ifs at hStep with hEq hVisited hResult
      · cases hStep
        exact ⟨[], Adds.refl _ s, (hs.result w).mp hResult, hs⟩
      · exact hSpec s t w hs hVisited hStep
    obtain ⟨new, hNew, hw, ht⟩ := hHead
    obtain ⟨new', hNew', hAll, hs'⟩ := ih ht hRest
    refine ⟨new ++ new', hNew.trans hNew', fun x hx => ?_, hs'⟩
    rcases List.mem_cons.mp hx with rfl | hx
    · rw [hNew'.order]
      exact List.mem_append_left _ hw
    · exact hAll x hx

theorem finishSpec (graph : V → Option (List V)) (fuel : Nat) : FinishSpec graph fuel := by
  induction fuel with
  | zero =>
    intro s s' v _ _ h
    cases h
  | succ fuel ih =>
    intro s s' v hs hv h
    rw [finish] at h
    obtain ⟨successors, hSuccessors, h⟩ := Option.bind_eq_some_iff.mp h
    obtain ⟨t, hLoop, h⟩ := Option.bind_eq_some_iff.mp h
    cases h
    have hEntered : Settled graph { s with visited := v :: s.visited } :=
      ⟨hs.result, fun x hx => List.mem_cons_of_mem _ (hs.entered x hx), hs.nodup, hs.closed⟩
    obtain ⟨new, hNew, hAll, ht⟩ := adds_foldlM ih successors hEntered hLoop
    have hNotListed : v ∉ t.order := by
      rw [hNew.order, List.mem_append, not_or]
      exact ⟨fun hOld => hv (hs.entered v hOld), fun hNewMem => hNew.fresh v hNewMem List.mem_cons_self⟩
    have hEdges : ∀ y, Edge graph v y → y ∈ t.order := by
      rintro y ⟨ws, hws, hy⟩
      obtain rfl := Option.some.inj (hSuccessors.symm.trans hws)
      exact hAll y hy
    refine ⟨new ++ [v], ?_, List.mem_append_right _ List.mem_cons_self, ?_⟩
    · constructor
      case order => rw [hNew.order, List.append_assoc]
      case visited =>
        intro x
        rw [hNew.visited, List.mem_cons, List.mem_append, List.mem_singleton]
        tauto
      case fresh =>
        intro x hx
        rcases List.mem_append.mp hx with hx | hx
        · exact fun hOld => hNew.fresh x hx (List.mem_cons_of_mem _ hOld)
        · rwa [List.mem_singleton.mp hx]
      case reached =>
        intro x hx
        refine ⟨v, List.mem_cons_self, ?_⟩
        rcases List.mem_append.mp hx with hx | hx
        · obtain ⟨w, hw, hReach⟩ := hNew.reached x hx
          exact ReflTransGen.head ⟨successors, hSuccessors, hw⟩ hReach
        · rw [List.mem_singleton.mp hx]
    · constructor
      case result =>
        intro x
        rw [List.mem_cons, List.mem_append, List.mem_singleton, ht.result, or_comm]
      case entered =>
        intro x hx
        rcases List.mem_append.mp hx with hx | hx
        · exact ht.entered x hx
        · rw [List.mem_singleton.mp hx]
          exact (hNew.visited v).mpr (Or.inl List.mem_cons_self)
      case nodup =>
        refine List.nodup_append.mpr ⟨ht.nodup, List.nodup_singleton v, fun x hx y hy hEq => hNotListed ?_⟩
        rwa [← List.mem_singleton.mp hy, ← hEq]
      case closed => exact closed_append_singleton ht.closed hEdges

/-- The search from several vertices. -/
theorem adds_finishAll {vs : List V} (hs : Settled graph s) (h : finishAll graph fuel vs s = some s')
    (hVisited : ∀ x ∈ s.visited, x ∈ s.order) :
    Settled graph s' ∧ (∀ x ∈ s'.visited, x ∈ s'.order) ∧ (∀ v ∈ vs, v ∈ s'.order) ∧
      ∃ new, Adds graph vs s s' new := by
  induction vs generalizing s with
  | nil =>
    cases h
    exact ⟨hs, hVisited, fun v hv => absurd hv List.not_mem_nil, [], Adds.refl _ _⟩
  | cons v vs ih =>
    rw [finishAll, List.foldlM_cons] at h
    obtain ⟨t, hStep, hRest⟩ := Option.bind_eq_some_iff.mp h
    have hHead : ∃ new, Adds graph [v] s t new ∧ v ∈ t.order ∧ Settled graph t := by
      split_ifs at hStep with hv
      · cases hStep
        exact ⟨[], Adds.refl _ s, hVisited v hv, hs⟩
      · exact finishSpec graph fuel s t v hs hv hStep
    obtain ⟨new, hNew, hv, ht⟩ := hHead
    have hVisited' : ∀ x ∈ t.visited, x ∈ t.order := by
      intro x hx
      rw [hNew.order]
      rcases (hNew.visited x).mp hx with hx | hx
      · exact List.mem_append_left _ (hVisited x hx)
      · exact List.mem_append_right _ hx
    obtain ⟨hs', hAll, hRoots, new', hNew'⟩ := ih ht hRest hVisited'
    refine ⟨hs', hAll, fun x hx => ?_, new ++ new', hNew.trans hNew'⟩
    rcases List.mem_cons.mp hx with rfl | hx
    · rw [hNew'.order]
      exact List.mem_append_left _ hv
    · exact hRoots x hx

end Spec

section Acyclic

variable [DecidableEq V] {U : Finset V}

/-- Those vertices of a finite set that were not entered. -/
def unentered (U : Finset V) (visited : List V) : Finset V := U.filter (· ∉ visited)

theorem unentered_subset {sources new : List V} (h : Adds graph sources s s' new) :
    unentered U s'.visited ⊆ unentered U s.visited := by
  intro x hx
  obtain ⟨hU, hx⟩ := Finset.mem_filter.mp hx
  exact Finset.mem_filter.mpr ⟨hU, fun hOld => hx ((h.visited x).mpr (Or.inl hOld))⟩

theorem card_unentered_cons (hv : v ∈ U) (hNew : v ∉ s.visited) :
    (unentered U (v :: s.visited)).card < (unentered U s.visited).card := by
  refine Finset.card_lt_card ((Finset.ssubset_iff_of_subset fun x hx => ?_).mpr ⟨v, ?_, ?_⟩)
  · obtain ⟨hx, hOut⟩ := Finset.mem_filter.mp hx
    exact Finset.mem_filter.mpr ⟨hx, fun h => hOut (List.mem_cons_of_mem _ h)⟩
  · exact Finset.mem_filter.mpr ⟨hv, hNew⟩
  · exact fun h => (Finset.mem_filter.mp h).2 List.mem_cons_self

/-- Where no path comes back to its source, the search fails nowhere: what is entered and not finished
leads to the vertex that is entered. -/
theorem finish_isSome (hDefined : ∀ x ∈ U, ∃ ws, graph x = some ws ∧ ∀ w ∈ ws, w ∈ U)
    (hAcyclic : ∀ x, ¬ TransGen (Edge graph) x x) (hs : Settled graph s) (hv : v ∈ U) (hNew : v ∉ s.visited)
    (hStack : ∀ x ∈ s.visited, x ∈ s.order ∨ TransGen (Edge graph) x v)
    (hFuel : (unentered U s.visited).card ≤ fuel) : ∃ s', finish graph fuel s v = some s' := by
  induction fuel generalizing s v with
  | zero =>
    have hMem : v ∈ unentered U s.visited := Finset.mem_filter.mpr ⟨hv, hNew⟩
    rw [Finset.card_eq_zero.mp (Nat.le_zero.mp hFuel)] at hMem
    exact absurd hMem (Finset.notMem_empty v)
  | succ fuel ih =>
    obtain ⟨successors, hSuccessors, hInside⟩ := hDefined v hv
    have hLess : (unentered U (v :: s.visited)).card ≤ fuel :=
      Nat.le_of_lt_succ ((card_unentered_cons hv hNew).trans_le hFuel)
    have hEntered : Settled graph { s with visited := v :: s.visited } :=
      ⟨hs.result, fun x hx => List.mem_cons_of_mem _ (hs.entered x hx), hs.nodup, hs.closed⟩
    have hLoop (ws : List V) : ∀ t : Traversal V, (∀ w ∈ ws, w ∈ successors) → Settled graph t →
        (∀ x ∈ t.visited, x ∈ t.order ∨ x = v ∨ TransGen (Edge graph) x v) →
        (unentered U t.visited).card ≤ fuel →
        ∃ s', ws.foldlM (fun s w => if w = v then none
          else if w ∈ s.visited then (if w ∈ s.resultSet then some s else none)
          else finish graph fuel s w) t = some s' := by
      induction ws with
      | nil => exact fun t _ _ _ _ => ⟨t, rfl⟩
      | cons w ws ihWs =>
        intro t hWs ht hOpen hCard
        have hEdge : Edge graph v w := ⟨successors, hSuccessors, hWs w List.mem_cons_self⟩
        have hNe : w ≠ v := by
          rintro rfl
          exact hAcyclic w (TransGen.single hEdge)
        have hLeads : ∀ x ∈ t.visited, x ∈ t.order ∨ TransGen (Edge graph) x w := by
          intro x hx
          rcases hOpen x hx with hListed | rfl | hPath
          · exact Or.inl hListed
          · exact Or.inr (TransGen.single hEdge)
          · exact Or.inr (hPath.tail hEdge)
        rw [List.foldlM_cons, if_neg hNe]
        by_cases hw : w ∈ t.visited
        · have hListed : w ∈ t.resultSet := (ht.result w).mpr ((hLeads w hw).resolve_right (hAcyclic w))
          rw [if_pos hw, if_pos hListed]
          exact ihWs t (fun x hx => hWs x (List.mem_cons_of_mem _ hx)) ht hOpen hCard
        · obtain ⟨t', ht'⟩ := ih ht (hInside w (hWs w List.mem_cons_self)) hw hLeads hCard
          obtain ⟨new, hNew, -, hSettled⟩ := finishSpec graph fuel t t' w ht hw ht'
          have hOpen' : ∀ x ∈ t'.visited, x ∈ t'.order ∨ x = v ∨ TransGen (Edge graph) x v := by
            intro x hx
            rw [hNew.order, List.mem_append]
            rcases (hNew.visited x).mp hx with hx | hx
            · exact (hOpen x hx).imp_left Or.inl
            · exact Or.inl (Or.inr hx)
          obtain ⟨s', hs'⟩ := ihWs t' (fun x hx => hWs x (List.mem_cons_of_mem _ hx)) hSettled hOpen'
            ((Finset.card_le_card (unentered_subset hNew)).trans hCard)
          exact ⟨s', by rw [if_neg hw, ht']; exact hs'⟩
    obtain ⟨t, ht⟩ := hLoop successors { s with visited := v :: s.visited } (fun _ hw => hw) hEntered
      (fun x hx => (List.mem_cons.mp hx).elim (fun h => Or.inr (Or.inl h))
        fun hx => (hStack x hx).imp_right Or.inr) hLess
    rw [finish, hSuccessors, Option.bind_eq_bind, Option.bind_some, ht]
    exact ⟨_, rfl⟩

theorem finishAll_isSome (hDefined : ∀ x ∈ U, ∃ ws, graph x = some ws ∧ ∀ w ∈ ws, w ∈ U)
    (hAcyclic : ∀ x, ¬ TransGen (Edge graph) x x) (hFuel : U.card ≤ fuel) {vs : List V} (hVs : ∀ v ∈ vs, v ∈ U)
    (hs : Settled graph s) (hVisited : ∀ x ∈ s.visited, x ∈ s.order) :
    ∃ s', finishAll graph fuel vs s = some s' := by
  induction vs generalizing s with
  | nil => exact ⟨s, rfl⟩
  | cons v vs ih =>
    have hRest : ∀ w ∈ vs, w ∈ U := fun w hw => hVs w (List.mem_cons_of_mem _ hw)
    by_cases hv : v ∈ s.visited
    · obtain ⟨s', hs'⟩ := ih hRest hs hVisited
      exact ⟨s', by rw [finishAll, List.foldlM_cons, if_pos hv]; exact hs'⟩
    · have hCard : (unentered U s.visited).card ≤ fuel :=
        (Finset.card_le_card (Finset.filter_subset _ _)).trans hFuel
      obtain ⟨t, ht⟩ := finish_isSome hDefined hAcyclic hs (hVs v List.mem_cons_self) hv
        (fun x hx => Or.inl (hVisited x hx)) hCard
      obtain ⟨new, hNew, -, hSettled⟩ := finishSpec graph fuel s t v hs hv ht
      have hVisited' : ∀ x ∈ t.visited, x ∈ t.order := by
        intro x hx
        rw [hNew.order, List.mem_append]
        exact ((hNew.visited x).mp hx).imp_left (hVisited x)
      obtain ⟨s', hs'⟩ := ih hRest hSettled hVisited'
      exact ⟨s', by rw [finishAll, List.foldlM_cons, if_neg hv, ht]; exact hs'⟩

end Acyclic

end Graph
