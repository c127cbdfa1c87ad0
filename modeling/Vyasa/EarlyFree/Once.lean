import Vyasa.EarlyFree.Freed

/-! The whole pass frees every allocation once, and does nothing else. -/
namespace Vyasa.EarlyFree

variable {s : Stmt} {n : Nat} {r : Stmt × Nat} {t : List Event}

section Allocations

/-- Allocations of one name are one node, which can be met at several places. -/
def UniqueNames (s : Stmt) : Prop :=
  ∀ a h body, .nest a h body ∈ s.nodes → ∀ a' h' body', .nest a' h' body' ∈ s.nodes →
    h.allocated ≠ none → h.allocated = h'.allocated → Stmt.nest a h body = .nest a' h' body'

/-- Every execution of an allocation frees it once, after its last use. -/
def EachFreedOnce (s : Stmt) : Prop :=
  ∀ a h body name, .nest a h body ∈ s.nodes → h.allocated = some name →
    ∀ t, (Stmt.nest a h body).Exec t → FreedOnce name t

theorem UniqueNames.sub {a : Stmt} (h : UniqueNames s) (hSub : a.nodes ⊆ s.nodes) : UniqueNames a :=
  fun _ _ _ hMem _ _ _ hMem' => h _ _ _ (hSub hMem) _ _ _ (hSub hMem')

mutual

theorem Expr.allocate_not_mem {name : Name} : ∀ e : Expr, .allocate name ∉ e.events
  | .imm _ => List.not_mem_nil
  | .Variable _ => by simp [Expr.events]
  | .Load _ predicate index => by
    simp [Expr.events, Expr.allocate_not_mem predicate, Expr.allocate_not_mem index]
  | .Call _ args => by simp [Expr.events, eventsAll_allocate_not_mem args]
  | .op args => eventsAll_allocate_not_mem args

theorem eventsAll_allocate_not_mem {name : Name} : ∀ es : List Expr, .allocate name ∉ eventsAll es
  | [] => List.not_mem_nil
  | e :: rest => by
    rw [eventsAll, List.mem_append, not_or]
    exact ⟨Expr.allocate_not_mem e, eventsAll_allocate_not_mem rest⟩

end

theorem Over.allocate_mem {h : Over} {name : Name} : .allocate name ∈ h.events ↔ h.allocated = some name := by
  rw [Over.events, List.mem_append, or_iff_right (eventsAll_allocate_not_mem _)]
  cases h.allocated <;> simp [eq_comm]

theorem Leaf.allocate_not_mem {name : Name} (l : Leaf) : .allocate name ∉ l.events := by
  cases l with
  | Evaluate value => exact Expr.allocate_not_mem value
  | Free _ => simp [Leaf.events]
  | Store _ predicate value index => simp [Leaf.events, Expr.allocate_not_mem]

/-- What allocates is an allocation. -/
theorem allocate_mem {name : Name} : ∀ {s : Stmt}, .allocate name ∈ s.events →
    ∃ a h body, .nest a h body ∈ s.nodes ∧ h.allocated = some name
  | .leaf _ l, h => absurd h l.allocate_not_mem
  | .nest a o body, h => by
    rcases List.mem_append.mp h with h | h
    · exact ⟨a, o, body, List.mem_cons_self, Over.allocate_mem.mp h⟩
    · obtain ⟨b, o', body', hMem, hName⟩ := allocate_mem h
      exact ⟨b, o', body', List.mem_cons_of_mem _ hMem, hName⟩
  | .both a o first rest, h => by
    rcases List.mem_append.mp h with h | h
    · rcases List.mem_append.mp h with h | h
      · exact absurd h (eventsAll_allocate_not_mem _)
      · obtain ⟨b, o', body', hMem, hName⟩ := allocate_mem h
        exact ⟨b, o', body', List.mem_cons_of_mem _ (List.mem_append_left _ hMem), hName⟩
    · obtain ⟨b, o', body', hMem, hName⟩ := allocate_mem h
      exact ⟨b, o', body', List.mem_cons_of_mem _ (List.mem_append_right _ hMem), hName⟩
  | .Block a first rest, h => by
    rcases List.mem_append.mp h with h | h
    · obtain ⟨b, o', body', hMem, hName⟩ := allocate_mem h
      exact ⟨b, o', body', List.mem_cons_of_mem _ (List.mem_append_left _ hMem), hName⟩
    · obtain ⟨b, o', body', hMem, hName⟩ := allocate_mem h
      exact ⟨b, o', body', List.mem_cons_of_mem _ (List.mem_append_right _ hMem), hName⟩

theorem allocate_mem_of_mem {a : Nat} {h : Over} {body : Stmt} {name : Name} (hMem : .nest a h body ∈ s.nodes)
    (hName : h.allocated = some name) : .allocate name ∈ s.events :=
  Stmt.events_of_mem_nodes hMem (List.mem_append_left _ (Over.allocate_mem.mpr hName))

/-- An allocation is not in itself. -/
theorem UniqueNames.not_mem_body {a : Nat} {h : Over} {body : Stmt} {name : Name}
    (hUnique : UniqueNames (.nest a h body)) (hName : h.allocated = some name) : .allocate name ∉ body.events := by
  intro hMem
  obtain ⟨b, h', body', hMem, hName'⟩ := allocate_mem hMem
  have hEq := hUnique a h body List.mem_cons_self b h' body' (List.mem_cons_of_mem _ hMem)
    (hName ▸ Option.some_ne_none _) (hName.trans hName'.symm)
  have hLe := size_le_of_mem hMem
  rw [← hEq] at hLe
  exact absurd hLe (Nat.not_le.mpr (Nat.lt_succ_self _))

end Allocations

section Done

def Event.isFree : Event → Bool
  | .free _ => true
  | _ => false

/-- The trace without frees. -/
def eraseFrees (t : List Event) : List Event := t.filter (!·.isFree)

theorem frees_isFree : Frees fun e => !e.isFree := by
  intro e h
  cases e with
  | free name => exact ⟨name, rfl⟩
  | _ => cases h

theorem eraseFrees_erase (func : Name) : eraseFrees (erase func t) = eraseFrees t := by
  rw [eraseFrees, erase, List.filter_filter, eraseFrees]
  refine List.filter_congr fun e _ => ?_
  cases e with
  | free name => rfl
  | _ => simp [Event.isFree]

/-- What the pass makes of a statement. -/
structure Done (s : Stmt) (n : Nat) (r : Stmt × Nat) : Prop where
  grows : Grows n s.nodes r.1.nodes r.2
  exec : ∀ t, r.1.Exec t → s.Exec (eraseFrees t)
  events : ∀ e ∈ r.1.events, e ∈ s.events ∨ ∃ name, e = .free name ∧ .allocate name ∈ s.events
  once : EachFreedOnce r.1

/-- The frees of another function leave an allocation as it is. -/
theorem EachFreedOnce.marked {func : Name} {m : InjectMarker.Marker} {r : Stmt × InjectMarker.Marker}
    (h : EachFreedOnce s) (hMarked : Marked func s m r) (hNot : .allocate func ∉ s.events) :
    EachFreedOnce r.1 := by
  intro a o body name hMem hName t ht
  obtain ⟨a', body', hMem', hExec⟩ := hMarked.over_mem a o body hMem
  have hNe : name ≠ func := by
    rintro rfl
    exact hNot (allocate_mem_of_mem hMem' hName)
  exact (h a' o body' name hMem' hName _ (hExec t ht)).of_erase hNe

theorem eachFreedOnce_over {a : Nat} {h : Over} {body : Stmt} (hBody : EachFreedOnce body)
    (hTop : ∀ name, h.allocated = some name → ∀ t, (Stmt.nest a h body).Exec t → FreedOnce name t) :
    EachFreedOnce (.nest a h body) := by
  intro b o c name hMem hName
  rcases List.mem_cons.mp hMem with hEq | hMem
  · cases hEq
    exact hTop name hName
  · exact hBody b o c name hMem hName

theorem eachFreedOnce_made {whole : Stmt → Stmt → Stmt} {first rest r : Stmt} (h : Made whole first rest r)
    (hFirst : EachFreedOnce first) (hRest : EachFreedOnce rest) : EachFreedOnce r := by
  intro b o c name hMem hName
  rcases h.over_mem b o c hMem with hMem | hMem
  · exact hFirst b o c name hMem hName
  · exact hRest b o c name hMem hName

theorem not_in_loop_of_allocated {h : Over} {name : Name} (hName : h.allocated = some name) :
    h.in_loop = false := by
  cases h with
  | Allocate => rfl
  | _ => cases hName

theorem free_spec {x : Nat} {h : Over} {body : Stmt} {name : Name} (hName : h.allocated = some name)
    (hOld : Bounded n (Stmt.nest x h body).nodes) (hOne : (Stmt.nest x h body).Consistent)
    (hFree : .free name ∉ body.events) (hNot : .allocate name ∉ body.events) (hBody : EachFreedOnce body) :
    (∃ b b', Marked name (.nest x h body) ⟨b, n⟩ ((InjectEarlyFrees.free name h (.nest x h body) body n).1,
      ⟨b', (InjectEarlyFrees.free name h (.nest x h body) body n).2⟩)) ∧
    EachFreedOnce (InjectEarlyFrees.free name h (.nest x h body) body n).1 := by
  have hLoop := not_in_loop_of_allocated hName
  have hSub : body.nodes ⊆ (Stmt.nest x h body).nodes := List.subset_cons_self _ _
  have hFreeAll : .free name ∉ (Stmt.nest x h body).events :=
    fun hMem => (List.mem_append.mp hMem).elim h.free_not_mem hFree
  rw [InjectEarlyFrees.free, visit_eq]
  have hEarly : ∀ found, lastAt name (.nest x h body) = some (some found) →
      (∃ b b', Marked name (.nest x h body) ⟨b, n⟩ ((InjectMarker.mutate name found (.nest x h body) ⟨false, n⟩).1,
        ⟨b', (InjectMarker.mutate name found (.nest x h body) ⟨false, n⟩).2.next⟩)) ∧
      EachFreedOnce (InjectMarker.mutate name found (.nest x h body) ⟨false, n⟩).1 := by
    intro found hFound
    refine ⟨⟨false, _, mutate_marked found hOld hOne hFreeAll⟩, ?_⟩
    have hFreed := mutate_found (m := ⟨false, n⟩) rfl hOld hOne hFreeAll hFound
    have hMarked := mutate_marked found (m := ⟨false, n⟩) (hOld.mono hSub le_rfl) (hOne.sub hSub) hFree
    obtain ⟨y, hy⟩ : ∃ y, (InjectMarker.mutate name found (.nest x h body) ⟨false, n⟩).1 =
        .nest y h (InjectMarker.mutate name found body ⟨false, n⟩).1 :=
      over_eq (eq_of_same_as hMarked.grows (hOld.mono hSub le_rfl) (hOne.sub hSub))
    have hOnce := hFreed.once
    rw [hy] at hOnce ⊢
    refine eachFreedOnce_over (hBody.marked hMarked hNot) fun name' hName' => ?_
    cases hName.symm.trans hName'
    exact hOnce
  have hLate : (∃ b b', Marked name (.nest x h body) ⟨b, n⟩
        (.nest (body.block (n + 1) (.leaf n (.Free name))).2 h (body.block (n + 1) (.leaf n (.Free name))).1,
          ⟨b', (body.block (n + 1) (.leaf n (.Free name))).2 + 1⟩)) ∧
      EachFreedOnce (.nest (body.block (n + 1) (.leaf n (.Free name))).2 h
        (body.block (n + 1) (.leaf n (.Free name))).1) := by
    have hMarked := marked_free (m := ⟨false, n⟩) (hOld.mono hSub le_rfl) hFree false
    constructor
    · have hOver := marked_over (a := x) hMarked hOld hOne
      rw [IRMutator.nest, not_same_of_new (hOld body (hSub body.mem_nodes_self))
        (block_address.symm ▸ Nat.le_succ n), if_neg Bool.false_ne_true] at hOver
      exact ⟨false, false, hOver⟩
    · refine eachFreedOnce_over (hBody.marked hMarked hNot) fun name' hName' t ht => ?_
      cases hName.symm.trans hName'
      exact freedOnce_over hLoop (fun t ht => freedOnce_free hFree ht) ht
  rcases hFound : lastAt name (.nest x h body) with _ | _ | found
  · exact hLate
  · exact hLate
  · exact hEarly found hFound

theorem mutate_over {a : Nat} {h : Over} {body : Stmt} {name : Name} (hName : h.allocated = some name) :
    InjectEarlyFrees.mutate (.nest a h body) n = InjectEarlyFrees.free name h
      (IRMutator.nest a h body (InjectEarlyFrees.mutate body n).1 (InjectEarlyFrees.mutate body n).2).1
      (InjectEarlyFrees.mutate body n).1
      (IRMutator.nest a h body (InjectEarlyFrees.mutate body n).1 (InjectEarlyFrees.mutate body n).2).2 := by
  simp only [InjectEarlyFrees.mutate, hName]

theorem mutate_over_of_none {a : Nat} {h : Over} {body : Stmt} (hName : h.allocated = none) :
    InjectEarlyFrees.mutate (.nest a h body) n =
      IRMutator.nest a h body (InjectEarlyFrees.mutate body n).1 (InjectEarlyFrees.mutate body n).2 := by
  simp only [InjectEarlyFrees.mutate, hName]

theorem done_over {a : Nat} {h : Over} {body : Stmt} (hBody : Done body n (InjectEarlyFrees.mutate body n))
    (hOld : Bounded n (Stmt.nest a h body).nodes) (hOne : (Stmt.nest a h body).Consistent)
    (hUnique : UniqueNames (.nest a h body)) (hFree : ∀ name, .free name ∉ (Stmt.nest a h body).events) :
    Done (.nest a h body) n (InjectEarlyFrees.mutate (.nest a h body) n) := by
  have hSub : body.nodes ⊆ (Stmt.nest a h body).nodes := List.subset_cons_self _ _
  have hGrows := IRMutator.grows_over (h := h) (x := a) hBody.grows hOld
  have hMade := over_eq (a := a) (n := (InjectEarlyFrees.mutate body n).2) (h := h)
    (eq_of_same_as hBody.grows (hOld.mono hSub le_rfl) (hOne.sub hSub))
  cases hName : h.allocated with
  | none =>
    rw [mutate_over_of_none hName]
    obtain ⟨x, hx⟩ := hMade
    refine ⟨hGrows, fun t ht => ?_, fun e he => ?_, ?_⟩
    · rw [hx] at ht
      exact exec_over_filter frees_isFree hBody.exec ht
    · rw [hx] at he
      rcases List.mem_append.mp he with he | he
      · exact .inl (List.mem_append_left _ he)
      · exact (hBody.events e he).imp (List.mem_append_right _)
          fun ⟨name, hEq, hMem⟩ => ⟨name, hEq, List.mem_append_right _ hMem⟩
    · rw [hx]
      exact eachFreedOnce_over hBody.once fun name hName' => absurd (hName.symm.trans hName') (Option.some_ne_none _).symm
  | some name =>
    rw [mutate_over hName]
    have hNotBody := hUnique.not_mem_body hName
    have hNot : .allocate name ∉ (InjectEarlyFrees.mutate body n).1.events := by
      intro hMem
      rcases hBody.events _ hMem with hMem | ⟨_, hEq, -⟩
      · exact hNotBody hMem
      · cases hEq
    have hFreeBody : .free name ∉ (InjectEarlyFrees.mutate body n).1.events := by
      intro hMem
      rcases hBody.events _ hMem with hMem | ⟨_, hEq, hMem⟩
      · exact hFree name (List.mem_append_right _ hMem)
      · cases hEq
        exact hNotBody hMem
    have hOldMade := hGrows.bounded hOld
    have hOneMade := hGrows.consistent hOne
    obtain ⟨x, hx⟩ := hMade
    rw [hx] at hGrows hOldMade hOneMade ⊢
    obtain ⟨⟨_, _, hMarked⟩, hOnce⟩ := free_spec hName hOldMade hOneMade hFreeBody hNot hBody.once
    refine ⟨hGrows.trans hMarked.grows, fun t ht => ?_, fun e he => ?_, hOnce⟩
    · have hExec := exec_over_filter (y := a) frees_isFree hBody.exec (hMarked.exec t ht)
      rwa [← eraseFrees, eraseFrees_erase] at hExec
    · rcases hMarked.events e he with he | rfl
      · rcases List.mem_append.mp he with he | he
        · exact .inl (List.mem_append_left _ he)
        · exact (hBody.events e he).imp (List.mem_append_right _)
            fun ⟨name, hEq, hMem⟩ => ⟨name, hEq, List.mem_append_right _ hMem⟩
      · exact .inr ⟨name, rfl, List.mem_append_left _ (Over.allocate_mem.mpr hName)⟩

/-- What is made of two parts that are done. -/
theorem done_made (whole : Stmt → Stmt → Stmt) {first rest : Stmt} {k k' : Nat} {q q' : Stmt × Nat}
    (hMade : Made whole q.1 q'.1 r.1) (hGrows : Grows n (whole first rest).nodes r.1.nodes r.2)
    (hFirst : Done first k q) (hRest : Done rest k' q')
    (hExec : ∀ t, (whole q.1 q'.1).Exec t → (whole first rest).Exec (eraseFrees t))
    (hEvents : ∀ e ∈ (whole q.1 q'.1).events, e ∈ (whole first rest).events ∨ e ∈ q.1.events ∨ e ∈ q'.1.events)
    (hParts : ∀ e, e ∈ first.events ∨ e ∈ rest.events → e ∈ (whole first rest).events) :
    Done (whole first rest) n r where
  grows := hGrows
  exec t ht := hExec t (hMade.exec t ht)
  events e he := by
    rw [hMade.events] at he
    rcases hEvents e he with he | he | he
    · exact .inl he
    · exact (hFirst.events e he).imp (fun he => hParts e (.inl he))
        fun ⟨name, hEq, hMem⟩ => ⟨name, hEq, hParts _ (.inl hMem)⟩
    · exact (hRest.events e he).imp (fun he => hParts e (.inr he))
        fun ⟨name, hEq, hMem⟩ => ⟨name, hEq, hParts _ (.inr hMem)⟩
  once := eachFreedOnce_made hMade hFirst.once hRest.once

theorem mutate_done : ∀ {s : Stmt} {n : Nat}, Bounded n s.nodes → s.Consistent → UniqueNames s →
    (∀ name, .free name ∉ s.events) → Done s n (InjectEarlyFrees.mutate s n)
  | .leaf a l, n, hOld, _, _, hFree => by
    refine ⟨Grows.refl hOld (List.Subset.refl _) le_rfl, fun t ht => ?_, fun e he => .inl he, ?_⟩
    · rwa [eraseFrees, frees_isFree.filter_of_not_mem fun name h => hFree name (Stmt.mem_events ht h)]
    · intro b o c name hMem
      rw [InjectEarlyFrees.mutate, Stmt.nodes, List.mem_singleton] at hMem
      cases hMem
  | .nest a h body, n, hOld, hOne, hUnique, hFree => by
    have hSub : body.nodes ⊆ (Stmt.nest a h body).nodes := List.subset_cons_self _ _
    exact done_over (mutate_done (hOld.mono hSub le_rfl) (hOne.sub hSub) (hUnique.sub hSub)
      fun name h => hFree name (List.mem_append_right _ h)) hOld hOne hUnique hFree
  | .both a h first rest, n, hOld, hOne, hUnique, hFree => by
    have hSub : first.nodes ⊆ (Stmt.both a h first rest).nodes :=
      List.Subset.trans (List.subset_append_left _ _) (List.subset_cons_self _ _)
    have hSub' : rest.nodes ⊆ (Stmt.both a h first rest).nodes :=
      List.Subset.trans (List.subset_append_right _ _) (List.subset_cons_self _ _)
    have hFirst := mutate_done (hOld.mono hSub le_rfl) (hOne.sub hSub) (hUnique.sub hSub)
      fun name h => hFree name (List.mem_append_left _ (List.mem_append_right _ h))
    have hRest := mutate_done (hOld.mono hSub' hFirst.grows.le) (hOne.sub hSub') (hUnique.sub hSub')
      fun name h => hFree name (List.mem_append_right _ h)
    have hBoth := hFirst.grows.append hRest.grows (hOld.mono hSub le_rfl) (hOld.mono hSub' le_rfl)
    refine done_made (.both a h) (made_both
      (eq_of_same_as hFirst.grows (hOld.mono hSub le_rfl) (hOne.sub hSub))
      (eq_of_same_as hRest.grows (hOld.mono hSub' hFirst.grows.le) (hOne.sub hSub')))
      (IRMutator.grows_both hBoth hOld) hFirst hRest ?_ ?_ ?_
    · exact fun t ht => exec_both_filter frees_isFree hFirst.exec hRest.exec ht
    · intro e he
      rcases List.mem_append.mp he with he | he
      · exact (List.mem_append.mp he).imp (fun he => List.mem_append_left _ (List.mem_append_left _ he)) .inl
      · exact .inr (.inr he)
    · exact fun e he => he.elim (fun he => List.mem_append_left _ (List.mem_append_right _ he))
        (List.mem_append_right _)
  | .Block a first rest, n, hOld, hOne, hUnique, hFree => by
    have hSub : first.nodes ⊆ (Stmt.Block a first rest).nodes :=
      List.Subset.trans (List.subset_append_left _ _) (List.subset_cons_self _ _)
    have hSub' : rest.nodes ⊆ (Stmt.Block a first rest).nodes :=
      List.Subset.trans (List.subset_append_right _ _) (List.subset_cons_self _ _)
    have hFirst := mutate_done (hOld.mono hSub le_rfl) (hOne.sub hSub) (hUnique.sub hSub)
      fun name h => hFree name (List.mem_append_left _ h)
    have hRest := mutate_done (hOld.mono hSub' hFirst.grows.le) (hOne.sub hSub') (hUnique.sub hSub')
      fun name h => hFree name (List.mem_append_right _ h)
    have hBoth := hFirst.grows.append hRest.grows (hOld.mono hSub le_rfl) (hOld.mono hSub' le_rfl)
    refine done_made (.Block a) (made_block
      (eq_of_same_as hFirst.grows (hOld.mono hSub le_rfl) (hOne.sub hSub))
      (eq_of_same_as hRest.grows (hOld.mono hSub' hFirst.grows.le) (hOne.sub hSub')))
      (IRMutator.grows_block hBoth hOld) hFirst hRest ?_ ?_ ?_
    · exact fun t ht => exec_block_filter hFirst.exec hRest.exec ht
    · exact fun e he => .inr (List.mem_append.mp he)
    · exact fun e he => List.mem_append.mpr he

end Done

section Main

variable (hOld : Bounded n s.nodes) (hOne : s.Consistent) (hUnique : UniqueNames s)
  (hFree : ∀ name, .free name ∉ s.events)

include hOld hOne hUnique hFree

end Main

section Points

/-- One store is used at two places. -/
private def storedTwice : Stmt :=
  .nest 0 (.Allocate "f" [.imm 8] (.imm 1) none) <| .Block 1 (.leaf 2 (.Store "f" (.imm 1) (.imm 5) (.imm 0))) <|
    .Block 3 (.leaf 2 (.Store "f" (.imm 1) (.imm 5) (.imm 0))) (.leaf 4 (.Evaluate (.imm 7)))

end Points

end Vyasa.EarlyFree
