import Vyasa.EarlyFree.Addresses
import Vyasa.EarlyFree.LastUse

/-! Every execution of an allocation frees it once, after its last use. -/
namespace Vyasa.EarlyFree

open InjectMarker

variable {func : Name} {last_use s : Stmt} {m : Marker} {t u : List Event}

section Traces

/-- The trace frees the function once and does not need it after that. -/
def FreedOnce (func : Name) (t : List Event) : Prop :=
  ∃ before after, t = before ++ .free func :: after ∧ .free func ∉ before ∧ .free func ∉ after ∧
    ∀ e ∈ after, e.refersTo func = false

theorem FreedOnce.prepend (h : FreedOnce func t) (hu : .free func ∉ u) : FreedOnce func (u ++ t) := by
  obtain ⟨before, after, rfl, hBefore, hAfter⟩ := h
  exact ⟨u ++ before, after, by rw [List.append_assoc],
    fun h => (List.mem_append.mp h).elim hu hBefore, hAfter⟩

theorem FreedOnce.append (h : FreedOnce func t) (hu : .free func ∉ u)
    (hQuiet : ∀ e ∈ u, e.refersTo func = false) : FreedOnce func (t ++ u) := by
  obtain ⟨before, after, rfl, hBefore, hAfter, hLater⟩ := h
  exact ⟨before, after ++ u, by rw [List.append_assoc, List.cons_append], hBefore,
    fun h => (List.mem_append.mp h).elim hAfter hu,
    fun e he => (List.mem_append.mp he).elim (hLater e) (hQuiet e)⟩

theorem freedOnce_of_end (hu : .free func ∉ u) : FreedOnce func (u ++ [.free func]) :=
  ⟨u, [], rfl, hu, List.not_mem_nil, fun _ h => absurd h List.not_mem_nil⟩

/-- The trace without the frees of one function. -/
def erase (func : Name) (t : List Event) : List Event := t.filter (· ≠ .free func)

theorem erase_append : erase func (t ++ u) = erase func t ++ erase func u := List.filter_append _ _

theorem erase_of_not_mem (h : .free func ∉ t) : erase func t = t :=
  List.filter_eq_self.mpr fun _ he => decide_eq_true fun hEq => h (hEq ▸ he)

/-- The frees of another function do not matter. -/
theorem FreedOnce.of_erase {other : Name} (hNe : other ≠ func) : ∀ {t : List Event},
    FreedOnce other (erase func t) → FreedOnce other t
  | [], h => h
  | e :: t, h => by
    by_cases he : e = .free func
    · subst he
      rw [erase, List.filter_cons_of_neg (by simp)] at h
      exact (FreedOnce.of_erase hNe h).prepend (u := [_]) fun hMem =>
        hNe (Event.free.inj (List.mem_singleton.mp hMem))
    · rw [erase, List.filter_cons_of_pos (by simpa using he)] at h
      obtain ⟨before, after, hEq, hBefore, hAfter, hLater⟩ := h
      cases before with
      | nil =>
        rw [List.nil_append, List.cons.injEq] at hEq
        obtain ⟨rfl, hEq⟩ := hEq
        have hIn : ∀ e ∈ t, e ∈ after ∨ e = .free func := by
          intro e he
          by_cases hFree : e = .free func
          · exact .inr hFree
          · exact .inl (hEq ▸ List.mem_filter.mpr ⟨he, by simpa using hFree⟩)
        refine ⟨[], t, rfl, List.not_mem_nil, fun hMem => ?_, fun e he => ?_⟩
        · rcases hIn _ hMem with hMem | hMem
          · exact hAfter hMem
          · exact hNe (Event.free.inj hMem)
        · rcases hIn e he with he | rfl
          · exact hLater e he
          · rfl
      | cons b before =>
        rw [List.cons_append, List.cons.injEq] at hEq
        obtain ⟨rfl, hEq⟩ := hEq
        rw [List.mem_cons, not_or] at hBefore
        have hRest : FreedOnce other t :=
          FreedOnce.of_erase hNe ⟨before, after, hEq, hBefore.2, hAfter, hLater⟩
        exact hRest.prepend (u := [e]) fun hMem => hBefore.1 (List.mem_singleton.mp hMem)

end Traces

section Nodes

variable {a n : Nat} {first rest first' rest' body body' : Stmt} {e : Event}

theorem exec_block : ∀ {first : Stmt} {n : Nat} {t : List Event}, ((first.block n rest).1).Exec t →
    ∃ u v, first.Exec u ∧ rest.Exec v ∧ t = u ++ v
  | .Block _ c d, n, t, ⟨u, v, hu, hv, ht⟩ => by
    obtain ⟨v', w, hv', hw, rfl⟩ := exec_block hv
    exact ⟨u ++ v', w, ⟨u, v', hu, hv', rfl⟩, hw, by rw [ht, List.append_assoc]⟩
  | .leaf _ _, _, _, h | .nest _ _ _, _, _, h | .both _ _ _ _, _, _, h => h

theorem exec_fork : ∀ {first : Stmt} {n : Nat} {t : List Event}, ((first.fork n rest).1).Exec t →
    ∃ u v, first.Exec u ∧ rest.Exec v ∧ Interleave u v t
  | .both _ .Fork c d, n, t, ⟨u, v, hu, hv, ht⟩ => by
    obtain ⟨v, w, hv, hw, hvw⟩ := exec_fork hv
    obtain ⟨uv, huv, ht⟩ := ht.assoc hvw
    exact ⟨uv, w, ⟨u, v, hu, hv, huv⟩, hw, ht⟩
  | .leaf _ _, _, _, h | .nest _ _ _, _, _, h | .both _ (.IfThenElse _) _ _, _, _, h
  | .Block _ _ _, _, _, h => h

theorem events_block : ∀ {first : Stmt} {n : Nat},
    (first.block n rest).1.events = first.events ++ rest.events
  | .Block _ c d, n => by
    rw [Stmt.block, Stmt.events, events_block, Stmt.events, List.append_assoc]
  | .leaf _ _, _ | .nest _ _ _, _ | .both _ _ _ _, _ => rfl

theorem events_fork : ∀ {first : Stmt} {n : Nat},
    (first.fork n rest).1.events = first.events ++ rest.events
  | .both _ .Fork c d, n => by
    rw [Stmt.fork, Stmt.events, events_fork, Stmt.events, List.append_assoc, List.append_assoc,
      List.append_assoc]
  | .leaf _ _, _ | .nest _ _ _, _ | .both _ (.IfThenElse _) _ _, _ | .Block _ _ _, _ => rfl

/-- Putting statements together makes no node over one statement. -/
theorem over_mem_block {x : Nat} {h : Over} {b : Stmt} : ∀ {first : Stmt} {n : Nat},
    .nest x h b ∈ (first.block n rest).1.nodes → .nest x h b ∈ first.nodes ∨ .nest x h b ∈ rest.nodes
  | .Block _ c d, n, hMem => by
    rcases List.mem_cons.mp hMem with hEq | hMem
    · cases hEq
    · rcases List.mem_append.mp hMem with hMem | hMem
      · exact .inl (List.mem_cons_of_mem _ (List.mem_append_left _ hMem))
      · exact (over_mem_block hMem).imp_left fun hMem =>
          List.mem_cons_of_mem _ (List.mem_append_right _ hMem)
  | .leaf _ _, _, hMem | .nest _ _ _, _, hMem | .both _ _ _ _, _, hMem => by
    rcases List.mem_cons.mp hMem with hEq | hMem
    · cases hEq
    · exact List.mem_append.mp hMem

theorem over_mem_fork {x : Nat} {h : Over} {b : Stmt} : ∀ {first : Stmt} {n : Nat},
    .nest x h b ∈ (first.fork n rest).1.nodes → .nest x h b ∈ first.nodes ∨ .nest x h b ∈ rest.nodes
  | .both _ .Fork c d, n, hMem => by
    rcases List.mem_cons.mp hMem with hEq | hMem
    · cases hEq
    · rcases List.mem_append.mp hMem with hMem | hMem
      · exact .inl (List.mem_cons_of_mem _ (List.mem_append_left _ hMem))
      · exact (over_mem_fork hMem).imp_left fun hMem =>
          List.mem_cons_of_mem _ (List.mem_append_right _ hMem)
  | .leaf _ _, _, hMem | .nest _ _ _, _, hMem | .both _ (.IfThenElse _) _ _, _, hMem
  | .Block _ _ _, _, hMem => by
    rcases List.mem_cons.mp hMem with hEq | hMem
    · cases hEq
    · exact List.mem_append.mp hMem

/-- The node that a mutator makes from one part. -/
theorem over_eq {h : Over} (hSame : body'.same_as body = true → body' = body) :
    ∃ x, (IRMutator.nest a h body body' n).1 = .nest x h body' := by
  unfold IRMutator.nest
  split_ifs with hEq
  · exact ⟨a, by rw [hSame hEq]⟩
  · exact ⟨n, rfl⟩

/-- What is made of two parts is a block, a fork or a conditional of them. -/
structure Made (whole : Stmt → Stmt → Stmt) (first rest r : Stmt) : Prop where
  exec : ∀ t, r.Exec t → (whole first rest).Exec t
  events : r.events = (whole first rest).events
  over_mem : ∀ x h b, .nest x h b ∈ r.nodes → .nest x h b ∈ first.nodes ∨ .nest x h b ∈ rest.nodes

theorem made_block (hFirst : first'.same_as first = true → first' = first)
    (hRest : rest'.same_as rest = true → rest' = rest) :
    Made (.Block a) first' rest' (IRMutator.block a first rest first' rest' n).1 := by
  unfold IRMutator.block
  split_ifs with hEq
  · obtain ⟨hEqFirst, hEqRest⟩ := Bool.and_eq_true_iff.mp hEq
    rw [← hFirst hEqFirst, ← hRest hEqRest]
    refine ⟨fun t h => h, rfl, fun x h b hMem => ?_⟩
    rcases List.mem_cons.mp hMem with hEq | hMem
    · cases hEq
    · exact List.mem_append.mp hMem
  · exact ⟨fun t h => exec_block h, events_block, fun x h b => over_mem_block⟩

theorem made_both {h : Both} (hFirst : first'.same_as first = true → first' = first)
    (hRest : rest'.same_as rest = true → rest' = rest) :
    Made (.both a h) first' rest' (IRMutator.both a h first rest first' rest' n).1 := by
  unfold IRMutator.both
  split_ifs with hEq
  · obtain ⟨hEqFirst, hEqRest⟩ := Bool.and_eq_true_iff.mp hEq
    rw [← hFirst hEqFirst, ← hRest hEqRest]
    refine ⟨fun t h => h, rfl, fun x h b hMem => ?_⟩
    rcases List.mem_cons.mp hMem with hEq | hMem
    · cases hEq
    · exact List.mem_append.mp hMem
  · cases h with
    | Fork =>
      exact ⟨fun t h => exec_fork h, events_fork, fun x h b => over_mem_fork⟩
    | IfThenElse condition =>
      refine ⟨fun t h => h, rfl, fun x h b hMem => ?_⟩
      rcases List.mem_cons.mp hMem with hEq | hMem
      · cases hEq
      · exact List.mem_append.mp hMem

end Nodes

/-- What the marker may do to a statement: put frees of the function into it. -/
structure Marked (func : Name) (s : Stmt) (m : Marker) (r : Stmt × Marker) : Prop where
  grows : Grows m.next s.nodes r.1.nodes r.2.next
  exec : ∀ t, r.1.Exec t → s.Exec (erase func t)
  events : ∀ e ∈ r.1.events, e ∈ s.events ∨ e = .free func
  over_mem : ∀ x h b, .nest x h b ∈ r.1.nodes → ∃ y b', .nest y h b' ∈ s.nodes ∧
    ∀ t, (Stmt.nest x h b).Exec t → (Stmt.nest y h b').Exec (erase func t)

section Marked

variable {a : Nat} {first rest body : Stmt} {r r' : Stmt × Marker}

theorem exec_erase (hFree : .free func ∉ s.events) (h : s.Exec t) : s.Exec (erase func t) := by
  rwa [erase_of_not_mem fun hMem => hFree (Stmt.mem_events h hMem)]

theorem Marked.refl (hOld : Bounded m.next s.nodes) (hFree : .free func ∉ s.events) :
    Marked func s m (s, m) where
  grows := Grows.refl hOld (List.Subset.refl _) le_rfl
  exec _ := exec_erase hFree
  events _ h := .inl h
  over_mem x _ b hMem := ⟨x, b, hMem, fun _ =>
    exec_erase fun h => hFree (Stmt.events_of_mem_nodes hMem h)⟩

/-- A free is put behind the statement. -/
theorem marked_free (hOld : Bounded m.next s.nodes) (hFree : .free func ∉ s.events) (injected : Bool) :
    Marked func s m ((s.block (m.next + 1) (.leaf m.next (.Free func))).1,
      ⟨injected, (s.block (m.next + 1) (.leaf m.next (.Free func))).2⟩) := by
  refine ⟨?_, fun t h => ?_, fun e he => ?_, fun x o b hMem => ?_⟩
  · have hLeaf : Bounded (m.next + 1) (Stmt.leaf m.next (.Free func)).nodes := by
      intro b hb
      rw [Stmt.nodes, List.mem_singleton] at hb
      rw [hb]
      exact Nat.lt_succ_self _
    have hNew : Grows m.next [] (Stmt.leaf m.next (.Free func)).nodes (m.next + 1) :=
      Grows.single (fun _ h => absurd h List.not_mem_nil) rfl
    have hBlock := Stmt.grows_block (hOld.mono (List.Subset.refl _) m.next.le_succ) hLeaf
    have hMid := (Grows.refl hOld (List.Subset.refl _) le_rfl).append hNew hOld
      fun _ h => absurd h List.not_mem_nil
    rw [List.append_nil] at hMid
    exact hMid.trans hBlock
  · obtain ⟨u, v, hu, hv, rfl⟩ := exec_block h
    cases hv
    rw [erase_append, show erase func (Leaf.Free func).events = [] from List.filter_cons_of_neg (by simp),
      List.append_nil]
    exact exec_erase hFree hu
  · rw [events_block] at he
    exact (List.mem_append.mp he).imp_right List.mem_singleton.mp
  · rcases over_mem_block hMem with hMem | hMem
    · exact ⟨x, b, hMem, fun _ => exec_erase fun h => hFree (Stmt.events_of_mem_nodes hMem h)⟩
    · rw [Stmt.nodes, List.mem_singleton] at hMem
      cases hMem

theorem marked_inject_marker (last_use : Stmt) {mutate : Marker → Stmt × Marker}
    (h : Marked func s m (mutate m)) (hOld : Bounded m.next s.nodes) (hFree : .free func ∉ s.events) :
    Marked func s m (inject_marker func last_use mutate s m) := by
  unfold inject_marker
  split_ifs
  · exact Marked.refl hOld hFree
  · exact marked_free hOld hFree true
  · exact h

/-- Only frees are left out. -/
def Frees (p : Event → Bool) : Prop := ∀ e, p e = false → ∃ name, e = .free name

theorem frees_erase (func : Name) : Frees fun e => decide (e ≠ .free func) :=
  fun _ h => ⟨func, not_not.mp (of_decide_eq_false h)⟩

theorem Frees.filter_of_not_mem {p : Event → Bool} (hp : Frees p) (h : ∀ name, .free name ∉ t) :
    t.filter p = t := by
  refine List.filter_eq_self.mpr fun e he => ?_
  by_contra hNot
  obtain ⟨name, rfl⟩ := hp e (Bool.eq_false_iff.mpr hNot)
  exact h name he

section Filter

variable {p : Event → Bool} {x y : Nat} {body' first' rest' : Stmt}

theorem exec_over_filter {h : Over} (hp : Frees p) (hBody : ∀ t, body'.Exec t → body.Exec (t.filter p))
    (ht : (Stmt.nest x h body').Exec t) : (Stmt.nest y h body).Exec (t.filter p) := by
  obtain ⟨ts, hTurns, hts, rfl⟩ := ht
  refine ⟨ts.map (List.filter p), by rwa [List.length_map], fun u hu => ?_, ?_⟩
  · obtain ⟨v, hv, rfl⟩ := List.mem_map.mp hu
    exact hBody v (hts v hv)
  · rw [List.filter_append, hp.filter_of_not_mem fun _ => h.free_not_mem, List.filter_flatten]

theorem exec_both_filter {h : Both} (hp : Frees p) (hFirst : ∀ t, first'.Exec t → first.Exec (t.filter p))
    (hRest : ∀ t, rest'.Exec t → rest.Exec (t.filter p)) (ht : (Stmt.both x h first' rest').Exec t) :
    (Stmt.both y h first rest).Exec (t.filter p) := by
  cases h with
  | IfThenElse condition =>
    obtain ⟨u, hu, rfl⟩ := ht
    refine ⟨u.filter p, hu.imp (hFirst u) (hRest u), ?_⟩
    rw [List.filter_append, hp.filter_of_not_mem fun _ => condition.free_not_mem]
  | Fork =>
    obtain ⟨u, v, hu, hv, ht⟩ := ht
    exact ⟨_, _, hFirst u hu, hRest v hv, ht.filter _⟩

theorem exec_block_filter (hFirst : ∀ t, first'.Exec t → first.Exec (t.filter p))
    (hRest : ∀ t, rest'.Exec t → rest.Exec (t.filter p)) (ht : (Stmt.Block x first' rest').Exec t) :
    (Stmt.Block y first rest).Exec (t.filter p) := by
  obtain ⟨u, v, hu, hv, rfl⟩ := ht
  exact ⟨_, _, hFirst u hu, hRest v hv, List.filter_append _ _⟩

end Filter

theorem marked_over {h : Over} (hBody : Marked func body m r) (hOld : Bounded m.next (Stmt.nest a h body).nodes)
    (hOne : (Stmt.nest a h body).Consistent) :
    Marked func (.nest a h body) m (r.2.after (IRMutator.nest a h body r.1 r.2.next)) := by
  have hSame := eq_of_same_as hBody.grows (hOld.mono (List.subset_cons_self _ _) le_rfl)
    (hOne.sub (List.subset_cons_self _ _))
  have hGrows := IRMutator.grows_over hBody.grows hOld
  obtain ⟨x, hx⟩ := over_eq (a := a) (n := r.2.next) (h := h) hSame
  refine ⟨hGrows, fun t ht => ?_, fun e he => ?_, fun y o b hMem => ?_⟩
  · change (IRMutator.nest a h body r.1 r.2.next).1.Exec t at ht
    rw [hx] at ht
    exact exec_over_filter (frees_erase func) hBody.exec ht
  · change e ∈ (IRMutator.nest a h body r.1 r.2.next).1.events at he
    rw [hx] at he
    rcases List.mem_append.mp he with he | he
    · exact .inl (List.mem_append_left _ he)
    · exact (hBody.events e he).imp_left (List.mem_append_right _)
  · change _ ∈ (IRMutator.nest a h body r.1 r.2.next).1.nodes at hMem
    rw [hx] at hMem
    rcases List.mem_cons.mp hMem with hEq | hMem
    · cases hEq
      exact ⟨a, body, List.mem_cons_self, fun t ht => exec_over_filter (frees_erase func) hBody.exec ht⟩
    · obtain ⟨z, b', hMem, hExec⟩ := hBody.over_mem y o b hMem
      exact ⟨z, b', List.mem_cons_of_mem _ hMem, hExec⟩

/-- What is made of two parts that were mutated. -/
theorem marked_made {m' m'' : Marker} (whole : Stmt → Stmt → Stmt) {n : Stmt × Nat} (hMade : Made whole r.1 r'.1 n.1)
    (hGrows : Grows m.next (whole first rest).nodes n.1.nodes n.2)
    (hFirst : Marked func first m' r) (hRest : Marked func rest m'' r')
    (hNodes : first.nodes ++ rest.nodes ⊆ (whole first rest).nodes)
    (hExec : ∀ t, (whole r.1 r'.1).Exec t → (whole first rest).Exec (erase func t))
    (hEvents : ∀ e ∈ (whole r.1 r'.1).events, e ∈ (whole first rest).events ∨ e ∈ r.1.events ∨ e ∈ r'.1.events)
    (hParts : ∀ e, e ∈ first.events ∨ e ∈ rest.events → e ∈ (whole first rest).events) {b : Bool} :
    Marked func (whole first rest) m (n.1, ⟨b, n.2⟩) where
  grows := hGrows
  exec t ht := hExec t (hMade.exec t ht)
  events e he := by
    rw [hMade.events] at he
    rcases hEvents e he with he | he | he
    · exact .inl he
    · exact (hFirst.events e he).imp_left fun he => hParts e (.inl he)
    · exact (hRest.events e he).imp_left fun he => hParts e (.inr he)
  over_mem x h b hMem := by
    rcases hMade.over_mem x h b hMem with hMem | hMem
    · obtain ⟨y, b', hMem, hExec⟩ := hFirst.over_mem x h b hMem
      exact ⟨y, b', hNodes (List.mem_append_left _ hMem), hExec⟩
    · obtain ⟨y, b', hMem, hExec⟩ := hRest.over_mem x h b hMem
      exact ⟨y, b', hNodes (List.mem_append_right _ hMem), hExec⟩

/-- The marker at work. -/
theorem mutate_marked (last_use : Stmt) : ∀ {s : Stmt} {m : Marker}, Bounded m.next s.nodes → s.Consistent →
    .free func ∉ s.events → Marked func s m (mutate func last_use s m)
  | .leaf _ _, _, hOld, _, hFree => Marked.refl hOld hFree
  | .nest a h body, m, hOld, hOne, hFree =>
      marked_over (mutate_marked last_use (hOld.mono (List.subset_cons_self _ _) le_rfl)
        (hOne.sub (List.subset_cons_self _ _)) fun h => hFree (List.mem_append_right _ h)) hOld hOne
  | .both a h first rest, m, hOld, hOne, hFree => by
    have hSub : first.nodes ⊆ (Stmt.both a h first rest).nodes :=
      List.Subset.trans (List.subset_append_left _ _) (List.subset_cons_self _ _)
    have hSub' : rest.nodes ⊆ (Stmt.both a h first rest).nodes :=
      List.Subset.trans (List.subset_append_right _ _) (List.subset_cons_self _ _)
    have hFirst := mutate_marked last_use (s := first) (m := m) (hOld.mono hSub le_rfl) (hOne.sub hSub)
      fun h => hFree (List.mem_append_left _ (List.mem_append_right _ h))
    have hLe := hFirst.grows.le
    have hRest := mutate_marked last_use (s := rest) (m := (mutate func last_use first m).2) (hOld.mono hSub' hLe)
      (hOne.sub hSub') fun h => hFree (List.mem_append_right _ h)
    have hBoth := hFirst.grows.append hRest.grows (hOld.mono hSub le_rfl) (hOld.mono hSub' le_rfl)
    refine marked_made (.both a h) (made_both
      (eq_of_same_as hFirst.grows (hOld.mono hSub le_rfl) (hOne.sub hSub))
      (eq_of_same_as hRest.grows (hOld.mono hSub' hLe) (hOne.sub hSub')))
      (IRMutator.grows_both hBoth hOld) hFirst hRest (List.subset_cons_self _ _) ?_ ?_ ?_
    · exact fun t ht => exec_both_filter (frees_erase func) hFirst.exec hRest.exec ht
    · intro e he
      rcases List.mem_append.mp he with he | he
      · rcases List.mem_append.mp he with he | he
        · exact .inl (List.mem_append_left _ (List.mem_append_left _ he))
        · exact .inr (.inl he)
      · exact .inr (.inr he)
    · exact fun e he => he.elim (fun he => List.mem_append_left _ (List.mem_append_right _ he))
        (List.mem_append_right _)
  | .Block a first rest, m, hOld, hOne, hFree => by
    have hSub : first.nodes ⊆ (Stmt.Block a first rest).nodes :=
      List.Subset.trans (List.subset_append_left _ _) (List.subset_cons_self _ _)
    have hSub' : rest.nodes ⊆ (Stmt.Block a first rest).nodes :=
      List.Subset.trans (List.subset_append_right _ _) (List.subset_cons_self _ _)
    have hFreeRest : .free func ∉ rest.events := fun h => hFree (List.mem_append_right _ h)
    have hFreeFirst : .free func ∉ first.events := fun h => hFree (List.mem_append_left _ h)
    have hRest := marked_inject_marker last_use (mutate_marked last_use (s := rest) (m := m)
      (hOld.mono hSub' le_rfl) (hOne.sub hSub') hFreeRest) (hOld.mono hSub' le_rfl) hFreeRest
    have hLe := hRest.grows.le
    have hFirst := marked_inject_marker last_use (mutate_marked last_use (s := first)
      (m := (inject_marker func last_use (mutate func last_use rest) rest m).2)
      (hOld.mono hSub hLe) (hOne.sub hSub) hFreeFirst) (hOld.mono hSub hLe) hFreeFirst
    have hBoth := hRest.grows.append hFirst.grows (hOld.mono hSub' le_rfl) (hOld.mono hSub le_rfl)
    refine marked_made (.Block a) (made_block
      (eq_of_same_as hFirst.grows (hOld.mono hSub hLe) (hOne.sub hSub))
      (eq_of_same_as hRest.grows (hOld.mono hSub' le_rfl) (hOne.sub hSub')))
      (IRMutator.grows_block ((hBoth.mono fun _ h => List.mem_append.mpr (List.mem_append.mp h).symm).sub
        fun _ h => List.mem_append.mpr (List.mem_append.mp h).symm) hOld)
      hFirst hRest (List.subset_cons_self _ _) ?_ ?_ ?_
    · exact fun t ht => exec_block_filter hFirst.exec hRest.exec ht
    · exact fun e he => .inr (List.mem_append.mp he)
    · exact fun e he => List.mem_append.mpr he

end Marked

section Found

variable {a : Nat} {first rest body found : Stmt}

theorem over_self (a : Nat) (h : Over) (body : Stmt) (n : Nat) :
    IRMutator.nest a h body body n = (.nest a h body, n) := if_pos (decide_eq_true rfl)

theorem both_self (a : Nat) (h : Both) (first rest : Stmt) (n : Nat) :
    IRMutator.both a h first rest first rest n = (.both a h first rest, n) :=
  if_pos (Bool.and_eq_true_iff.mpr ⟨decide_eq_true rfl, decide_eq_true rfl⟩)

theorem block_self (a : Nat) (first rest : Stmt) (n : Nat) :
    IRMutator.block a first rest first rest n = (.Block a first rest, n) :=
  if_pos (Bool.and_eq_true_iff.mpr ⟨decide_eq_true rfl, decide_eq_true rfl⟩)

/-- The marker is not at work any more, or the statement is not here. -/
def Idle (last_use s : Stmt) (m : Marker) : Prop :=
  m.injected = true ∨ ∀ b ∈ s.nodes, b.address ≠ last_use.address

theorem inject_marker_idle {mutate : Marker → Stmt × Marker} (h : Idle last_use s m)
    (hMutate : mutate m = (s, m)) : inject_marker func last_use mutate s m = (s, m) := by
  rw [inject_marker]
  rcases h with hInjected | hNot
  · rw [if_pos hInjected]
  · rw [Stmt.same_as, decide_eq_false (hNot s s.mem_nodes_self), if_neg Bool.false_ne_true, hMutate, ite_self]

theorem mutate_idle : ∀ {s : Stmt} {m : Marker}, Idle last_use s m → mutate func last_use s m = (s, m)
  | .leaf _ _, _, _ => rfl
  | .nest a h body, m, hIdle => by
    rw [mutate, mutate_idle (hIdle.imp_right fun h b hb => h b (List.mem_cons_of_mem _ hb))]
    dsimp only
    rw [over_self]
    rfl
  | .both a h first rest, m, hIdle => by
    rw [mutate, mutate_idle (hIdle.imp_right fun h b hb => h b
        (List.mem_cons_of_mem _ (List.mem_append_left _ hb)))]
    dsimp only
    rw [mutate_idle (hIdle.imp_right fun h b hb => h b
        (List.mem_cons_of_mem _ (List.mem_append_right _ hb)))]
    dsimp only
    rw [both_self]
    rfl
  | .Block a first rest, m, hIdle => by
    have hFirst : Idle last_use first m := hIdle.imp_right fun h b hb => h b
      (List.mem_cons_of_mem _ (List.mem_append_left _ hb))
    have hRest : Idle last_use rest m := hIdle.imp_right fun h b hb => h b
      (List.mem_cons_of_mem _ (List.mem_append_right _ hb))
    rw [mutate, inject_marker_idle hRest (mutate_idle hRest)]
    dsimp only
    rw [inject_marker_idle hFirst (mutate_idle hFirst)]
    dsimp only
    rw [block_self]
    rfl

theorem block_address : ∀ {first : Stmt} {n : Nat}, (first.block n rest).1.address = n
  | .Block _ _ _, _ | .leaf _ _, _ | .nest _ _ _, _ | .both _ _ _ _, _ => rfl

theorem not_same_of_new {n : Nat} (hOld : s.address < n) {r : Stmt} (hNew : n ≤ r.address) :
    r.same_as s = false := decide_eq_false (by omega)

/-- A statement that has been given its free. -/
structure Freed (func : Name) (n : Nat) (r : Stmt × Marker) : Prop where
  injected : r.2.injected = true
  address : n ≤ r.1.address
  once : ∀ t, r.1.Exec t → FreedOnce func t

theorem freedOnce_free {n : Nat} (hFree : .free func ∉ s.events)
    (ht : (s.block (n + 1) (.leaf n (.Free func))).1.Exec t) : FreedOnce func t := by
  obtain ⟨u, v, hu, hv, rfl⟩ := exec_block ht
  cases hv
  exact freedOnce_of_end fun h => hFree (Stmt.mem_events hu h)

theorem freed_inject_marker {mutate : Marker → Stmt × Marker} (hFree : .free func ∉ s.events)
    (hNot : m.injected = false) : Freed func m.next (inject_marker func s mutate s m) := by
  rw [inject_marker, hNot, if_neg Bool.false_ne_true, if_pos (show s.same_as s = true from decide_eq_true rfl)]
  exact ⟨rfl, block_address.symm ▸ Nat.le_succ _, fun t ht => freedOnce_free hFree ht⟩

theorem inject_marker_of_ne {mutate : Marker → Stmt × Marker} (hNot : m.injected = false)
    (hNe : s.address ≠ last_use.address) : inject_marker func last_use mutate s m = mutate m := by
  rw [inject_marker, hNot, if_neg Bool.false_ne_true, Stmt.same_as, decide_eq_false hNe,
    if_neg Bool.false_ne_true]

theorem turns_of_not_in_loop {h : Over} (hLoop : h.in_loop = false) {k : Nat} (hTurns : h.Turns k) :
    k = 1 := by
  cases h with
  | For | IfThenElse | Acquire => cases hLoop
  | LetStmt | ProducerConsumer | Allocate => exact hTurns

theorem freedOnce_over {h : Over} (hLoop : h.in_loop = false) (hBody : ∀ t, body.Exec t → FreedOnce func t)
    (ht : (Stmt.nest a h body).Exec t) : FreedOnce func t := by
  obtain ⟨ts, hTurns, hts, rfl⟩ := ht
  obtain ⟨u, rfl⟩ := List.length_eq_one_iff.mp (turns_of_not_in_loop hLoop hTurns)
  rw [List.flatten_singleton]
  exact (hBody u (hts u List.mem_cons_self)).prepend h.free_not_mem

theorem freed_over {n : Nat} {h : Over} {r : Stmt × Marker} (hLoop : h.in_loop = false)
    (hBody : Freed func n r) (hOld : body.address < n) (hLe : n ≤ r.2.next) :
    Freed func n (r.2.after (IRMutator.nest a h body r.1 r.2.next)) := by
  have hNew : IRMutator.nest a h body r.1 r.2.next = (.nest r.2.next h r.1, r.2.next + 1) := by
    rw [IRMutator.nest, not_same_of_new hOld hBody.address, if_neg Bool.false_ne_true]
  rw [hNew]
  exact ⟨hBody.injected, hLe, fun t ht => freedOnce_over hLoop hBody.once ht⟩

/-- The free in the rest of a block. -/
theorem freed_rest {n : Nat} {r : Stmt × Marker} (hRest : Freed func n r) (hOld : rest.address < n)
    (hLe : n ≤ r.2.next) (hFree : .free func ∉ first.events) :
    Freed func n (r.2.after (IRMutator.block a first rest first r.1 r.2.next)) := by
  have hNew : IRMutator.block a first rest first r.1 r.2.next = first.block r.2.next r.1 := by
    rw [IRMutator.block, not_same_of_new hOld hRest.address, Bool.and_false, if_neg Bool.false_ne_true]
  rw [hNew]
  refine ⟨hRest.injected, ?_, fun t ht => ?_⟩
  · exact hLe.trans_eq block_address.symm
  · obtain ⟨u, v, hu, hv, rfl⟩ := exec_block ht
    exact (hRest.once v hv).prepend fun h => hFree (Stmt.mem_events hu h)

/-- The free in the first statement of a block, with no use in the rest. -/
theorem freed_first {n : Nat} {r : Stmt × Marker} (hFirst : Freed func n r) (hOld : first.address < n)
    (hLe : n ≤ r.2.next) (hFree : .free func ∉ rest.events) (hQuiet : rest.mentions func = false) :
    Freed func n (r.2.after (IRMutator.block a first rest r.1 rest r.2.next)) := by
  have hNew : IRMutator.block a first rest r.1 rest r.2.next = r.1.block r.2.next rest := by
    rw [IRMutator.block, not_same_of_new hOld hFirst.address, Bool.false_and, if_neg Bool.false_ne_true]
  rw [hNew]
  refine ⟨hFirst.injected, ?_, fun t ht => ?_⟩
  · exact hLe.trans_eq block_address.symm
  · obtain ⟨u, v, hu, hv, rfl⟩ := exec_block ht
    exact (hFirst.once u hu).append (fun h => hFree (Stmt.mem_events hv h)) (not_refersTo hQuiet hv)

theorem address_ne (hOne : s.Consistent) (hFound : found ∈ s.nodes) {b : Stmt} (hb : b ∈ s.nodes)
    (hNe : b ≠ found) : b.address ≠ found.address := fun hEq => hNe (hOne b hb found hFound hEq)

/-- The marker meets the last use where it has been found. -/
theorem mutate_found : ∀ {s found : Stmt} {m : Marker}, m.injected = false → Bounded m.next s.nodes →
    s.Consistent → .free func ∉ s.events → lastAt func s = some (some found) →
    Freed func m.next (mutate func found s m)
  | .leaf _ l, _, _, _, _, _, _, h => by
    rw [lastAt] at h
    split_ifs at h
    cases h
  | .nest a e body, found, m, hNot, hOld, hOne, hFree, h => by
    cases hLoop : e.in_loop with
    | true =>
      rw [lastAt, hLoop, if_pos rfl] at h
      split_ifs at h
      cases h
    | false =>
      rw [lastAt_over hLoop] at h
      have hSub : body.nodes ⊆ (Stmt.nest a e body).nodes := List.subset_cons_self _ _
      have hFreeBody : .free func ∉ body.events := fun h => hFree (List.mem_append_right _ h)
      rcases hBody : lastAt func body with _ | found'
      · rw [hBody] at h
        dsimp only at h
        split_ifs at h
        cases h
      · rw [hBody] at h
        cases h
        exact freed_over hLoop (mutate_found hNot (hOld.mono hSub le_rfl) (hOne.sub hSub) hFreeBody hBody)
          (hOld body (hSub body.mem_nodes_self))
          (mutate_marked found (hOld.mono hSub le_rfl) (hOne.sub hSub) hFreeBody).grows.le
  | .both a e first rest, _, _, _, _, _, _, h => by
    rw [lastAt] at h
    split_ifs at h
    cases h
  | .Block a first rest, found, m, hNot, hOld, hOne, hFree, h => by
    have hSub : first.nodes ⊆ (Stmt.Block a first rest).nodes :=
      List.Subset.trans (List.subset_append_left _ _) (List.subset_cons_self _ _)
    have hSub' : rest.nodes ⊆ (Stmt.Block a first rest).nodes :=
      List.Subset.trans (List.subset_append_right _ _) (List.subset_cons_self _ _)
    have hFreeRest : .free func ∉ rest.events := fun h => hFree (List.mem_append_right _ h)
    have hFreeFirst : .free func ∉ first.events := fun h => hFree (List.mem_append_left _ h)
    have hFirstOld := hOld first (hSub first.mem_nodes_self)
    have hRestOld := hOld rest (hSub' rest.mem_nodes_self)
    have hMarked := marked_inject_marker found (mutate_marked found (s := rest) (m := m)
      (hOld.mono hSub' le_rfl) (hOne.sub hSub') hFreeRest) (hOld.mono hSub' le_rfl) hFreeRest
    obtain ⟨hFound, -, hUses⟩ := found_spec h
    rw [lastAt] at h
    -- once the rest has its free, the first statement stays as it is
    have hDone : Freed func m.next (inject_marker func found (mutate func found rest) rest m) →
        Freed func m.next (mutate func found (.Block a first rest) m) := by
      intro hRest
      have hIdle : Idle found first (inject_marker func found (mutate func found rest) rest m).2 :=
        .inl hRest.injected
      rw [mutate]
      dsimp only
      rw [inject_marker_idle hIdle (mutate_idle hIdle)]
      exact freed_rest hRest hRestOld hMarked.grows.le hFreeFirst
    rcases hRest : lastAt func rest with _ | _ | found'
    · rw [hRest] at h
      obtain ⟨found', hFirst, h⟩ := Option.map_eq_some_iff.mp h
      have hQuiet := lastAt_eq_none hRest
      have hIdle : Idle found rest m := by
        refine .inr fun b hb => address_ne hOne hFound (hSub' hb) ?_
        rintro rfl
        obtain ⟨e, he, hRefers⟩ := List.any_eq_true.mp hUses
        exact Bool.eq_false_iff.mp hQuiet (List.any_eq_true.mpr ⟨e, Stmt.events_of_mem_nodes hb he, hRefers⟩)
      have hFirstFreed : Freed func m.next (inject_marker func found (mutate func found first) first m) := by
        cases found' with
        | none =>
          cases h
          exact freed_inject_marker hFreeFirst hNot
        | some found' =>
          cases h
          have hLt := (found_spec hFirst).2.1
          rw [inject_marker_of_ne hNot (address_ne hOne hFound (hSub first.mem_nodes_self)
            fun hEq => absurd (congrArg Stmt.size hEq) hLt.ne')]
          exact mutate_found hNot (hOld.mono hSub le_rfl) (hOne.sub hSub) hFreeFirst hFirst
      rw [mutate, inject_marker_idle hIdle (mutate_idle hIdle)]
      exact freed_first hFirstFreed hFirstOld (marked_inject_marker found (mutate_marked found
        (hOld.mono hSub le_rfl) (hOne.sub hSub) hFreeFirst) (hOld.mono hSub le_rfl) hFreeFirst).grows.le
        hFreeRest hQuiet
    · rw [hRest] at h
      cases h
      exact hDone (freed_inject_marker hFreeRest hNot)
    · rw [hRest] at h
      cases h
      have hLt := (found_spec hRest).2.1
      refine hDone ?_
      rw [inject_marker_of_ne hNot (address_ne hOne hFound (hSub' rest.mem_nodes_self)
        fun hEq => absurd (congrArg Stmt.size hEq) hLt.ne')]
      exact mutate_found hNot (hOld.mono hSub' le_rfl) (hOne.sub hSub') hFreeRest hRest

end Found

end Vyasa.EarlyFree
