import Vyasa.EarlyFree.Inject
import Mathlib.Tactic.Common

/-! New nodes have addresses of their own, so that nodes at one address stay one node. -/
namespace Vyasa.EarlyFree

variable {n n' n₁ n₂ : Nat} {old old' mid new new' : List Stmt} {s a b : Stmt}

/-- The addresses from `n` on are free. -/
def Bounded (n : Nat) (l : List Stmt) : Prop := ∀ a ∈ l, a.address < n

/-- The nodes are old ones, or have been put at addresses from `n` on, one node at an address. -/
structure Grows (n : Nat) (old new : List Stmt) (n' : Nat) : Prop where
  le : n ≤ n'
  mem : ∀ a ∈ new, a ∈ old ∨ n ≤ a.address ∧ a.address < n'
  one : ∀ a ∈ new, ∀ b ∈ new, n ≤ a.address → a.address = b.address → a = b

theorem Bounded.mono (h : Bounded n old) (hSub : new ⊆ old) (hLe : n ≤ n') : Bounded n' new :=
  fun a ha => (h a (hSub ha)).trans_le hLe

namespace Grows

theorem refl (h : Bounded n old) (hSub : new ⊆ old) (hLe : n ≤ n') : Grows n old new n' where
  le := hLe
  mem _ ha := .inl (hSub ha)
  one a ha _ _ hNew := absurd (h a (hSub ha)) (Nat.not_lt.mpr hNew)

theorem mono (h : Grows n old new n') (hSub : old ⊆ old') : Grows n old' new n' where
  le := h.le
  mem a ha := (h.mem a ha).imp_left fun ha => hSub ha
  one := h.one

theorem sub (h : Grows n old new n') (hSub : new' ⊆ new) : Grows n old new' n' where
  le := h.le
  mem a ha := h.mem a (hSub ha)
  one a ha b hb := h.one a (hSub ha) b (hSub hb)

theorem bounded (h : Grows n old new n') (hOld : Bounded n old) : Bounded n' new := by
  intro a ha
  rcases h.mem a ha with ha | ha
  · exact (hOld a ha).trans_le h.le
  · exact ha.2

theorem mem_old (h : Grows n old new n') (ha : a ∈ new) (hLt : a.address < n) : a ∈ old :=
  (h.mem a ha).resolve_right fun h => absurd hLt (Nat.not_lt.mpr h.1)

theorem consistent (h : Grows n old new n')
    (hOne : ∀ a ∈ old, ∀ b ∈ old, a.address = b.address → a = b) :
    ∀ a ∈ new, ∀ b ∈ new, a.address = b.address → a = b := by
  intro a ha b hb hEq
  by_cases hLt : a.address < n
  · exact hOne a (h.mem_old ha hLt) b (h.mem_old hb (hEq ▸ hLt)) hEq
  · exact h.one a ha b hb (Nat.not_lt.mp hLt) hEq

/-- One growth after the other, at different places. -/
theorem append (h : Grows n old new n₁) (h' : Grows n₁ old' new' n₂) (hOld : Bounded n old)
    (hOld' : Bounded n old') : Grows n (old ++ old') (new ++ new') n₂ := by
  have hLe := h.le
  have hLe' := h'.le
  have hApart : ∀ a ∈ new, ∀ b ∈ new', n ≤ a.address → a.address ≠ b.address := by
    intro a ha b hb hNew hEq
    have hLow := h.bounded hOld a ha
    rcases h'.mem b hb with hb | hb
    · have := hOld' b hb
      omega
    · omega
  refine ⟨hLe.trans hLe', fun a ha => ?_, fun a ha b hb hNew hEq => ?_⟩
  · rcases List.mem_append.mp ha with ha | ha
    · refine (h.mem a ha).imp (List.mem_append_left _) fun ha => ?_
      omega
    · refine (h'.mem a ha).imp (List.mem_append_right _) fun ha => ?_
      omega
  · rcases List.mem_append.mp ha with ha | ha <;> rcases List.mem_append.mp hb with hb | hb
    · exact h.one a ha b hb hNew hEq
    · exact absurd hEq (hApart a ha b hb hNew)
    · exact absurd hEq.symm (hApart b hb a ha (hEq ▸ hNew))
    · refine h'.one a ha b hb ?_ hEq
      rcases h'.mem a ha with hOldA | hOldA
      · exact absurd (hOld' a hOldA) (Nat.not_lt.mpr hNew)
      · exact hOldA.1

/-- One growth after the other, of the same nodes. -/
theorem trans (h : Grows n old mid n₁) (h' : Grows n₁ mid new n₂) : Grows n old new n₂ := by
  have hLe := h.le
  have hLe' := h'.le
  refine ⟨hLe.trans hLe', fun a ha => ?_, fun a ha b hb hNew hEq => ?_⟩
  · rcases h'.mem a ha with ha | ha
    · refine (h.mem a ha).imp_right fun ha => ?_
      omega
    · refine .inr ?_
      omega
  · by_cases hLt : a.address < n₁
    · exact h.one a (h'.mem_old ha hLt) b (h'.mem_old hb (hEq ▸ hLt)) hNew hEq
    · exact h'.one a ha b hb (Nat.not_lt.mp hLt) hEq

/-- A new node over nodes that are there, and over nodes that come after it. -/
theorem top (h : Grows (n + 1) old new n') (hOld : Bounded n old) (hMid : Bounded n mid)
    (hTop : a.address = n) : Grows n (mid ++ old) (a :: (mid ++ new)) n' := by
  have hLe := h.le
  have hAbove : ∀ b ∈ mid ++ new, n ≤ b.address → b ∈ new ∧ n + 1 ≤ b.address := by
    intro b hb hNew
    rcases List.mem_append.mp hb with hb | hb
    · exact absurd (hMid b hb) (Nat.not_lt.mpr hNew)
    · rcases h.mem b hb with hOldB | hOldB
      · exact absurd (hOld b hOldB) (Nat.not_lt.mpr hNew)
      · exact ⟨hb, hOldB.1⟩
  refine ⟨by omega, fun b hb => ?_, fun b hb c hc hNew hEq => ?_⟩
  · rcases List.mem_cons.mp hb with rfl | hb
    · exact .inr (by omega)
    · rcases List.mem_append.mp hb with hb | hb
      · exact .inl (List.mem_append_left _ hb)
      · exact (h.mem b hb).imp (List.mem_append_right _) fun hb => by omega
  · rcases List.mem_cons.mp hb with rfl | hb' <;> rcases List.mem_cons.mp hc with rfl | hc'
    · rfl
    · have hc' := (hAbove c hc' (hEq ▸ hNew)).2
      omega
    · have hb' := (hAbove b hb' hNew).2
      omega
    · have hb' := hAbove b hb' hNew
      exact h.one b hb'.1 c (hAbove c hc' (hEq ▸ hNew)).1 hb'.2 hEq

/-- One new node over nodes that are there. -/
theorem single (hMid : Bounded n mid) (hTop : a.address = n) : Grows n mid (a :: mid) (n + 1) := by
  have hNil : ∀ k, Bounded k [] := fun _ _ h => absurd h List.not_mem_nil
  have h := (Grows.refl (hNil (n + 1)) (List.Subset.refl []) le_rfl).top (hNil n) hMid hTop
  rwa [List.append_nil] at h

end Grows

namespace Stmt

theorem grows_block {b : Stmt} : ∀ {a : Stmt} {n : Nat}, Bounded n a.nodes → Bounded n b.nodes →
    Grows n (a.nodes ++ b.nodes) (a.block n b).1.nodes (a.block n b).2
  | .Block x c d, n, ha, hb => by
    have hc : Bounded n c.nodes := ha.mono (List.subset_cons_of_subset _ (List.subset_append_left _ _)) le_rfl
    have hd : Bounded n d.nodes := ha.mono (List.subset_cons_of_subset _ (List.subset_append_right _ _)) le_rfl
    have ih := grows_block (hd.mono (List.Subset.refl _) n.le_succ) (hb.mono (List.Subset.refl _) n.le_succ)
    have hDB : Bounded n (d.nodes ++ b.nodes) := fun e he =>
      (List.mem_append.mp he).elim (hd e) (hb e)
    refine (ih.top (a := .Block n c (d.block (n + 1) b).1) hDB hc rfl).mono ?_
    rw [← List.append_assoc]
    exact List.subset_cons_self _ _
  | .leaf _ _, _, ha, hb | .nest _ _ _, _, ha, hb | .both _ _ _ _, _, ha, hb =>
      ((Grows.refl (hb.mono (List.Subset.refl _) (Nat.le_succ _)) (List.Subset.refl _) le_rfl).top hb ha rfl)

theorem grows_fork {b : Stmt} : ∀ {a : Stmt} {n : Nat}, Bounded n a.nodes → Bounded n b.nodes →
    Grows n (a.nodes ++ b.nodes) (a.fork n b).1.nodes (a.fork n b).2
  | .both x .Fork c d, n, ha, hb => by
    have hc : Bounded n c.nodes := ha.mono (List.subset_cons_of_subset _ (List.subset_append_left _ _)) le_rfl
    have hd : Bounded n d.nodes := ha.mono (List.subset_cons_of_subset _ (List.subset_append_right _ _)) le_rfl
    have ih := grows_fork (hd.mono (List.Subset.refl _) n.le_succ) (hb.mono (List.Subset.refl _) n.le_succ)
    have hDB : Bounded n (d.nodes ++ b.nodes) := fun e he =>
      (List.mem_append.mp he).elim (hd e) (hb e)
    refine (ih.top (a := .both n .Fork c (d.fork (n + 1) b).1) hDB hc rfl).mono ?_
    rw [← List.append_assoc]
    exact List.subset_cons_self _ _
  | .leaf _ _, _, ha, hb | .nest _ _ _, _, ha, hb | .both _ (.IfThenElse _) _ _, _, ha, hb
  | .Block _ _ _, _, ha, hb =>
      ((Grows.refl (hb.mono (List.Subset.refl _) (Nat.le_succ _)) (List.Subset.refl _) le_rfl).top hb ha rfl)

theorem grows_makeBoth (h : Both) (ha : Bounded n a.nodes) (hb : Bounded n b.nodes) :
    Grows n (a.nodes ++ b.nodes) (makeBoth n h a b).1.nodes (makeBoth n h a b).2 := by
  cases h with
  | Fork => exact grows_fork ha hb
  | IfThenElse condition =>
    exact (Grows.refl (hb.mono (List.Subset.refl _) (Nat.le_succ _)) (List.Subset.refl _) le_rfl).top hb ha rfl

end Stmt

/-- A part that seems to be the same is the same. -/
theorem eq_of_same_as (h : Grows n s.nodes a.nodes n') (hOld : Bounded n s.nodes) (hOne : s.Consistent)
    (hSame : a.same_as s = true) : a = s := by
  have hEq := of_decide_eq_true hSame
  have hSelf := s.mem_nodes_self
  exact hOne a (h.mem_old a.mem_nodes_self (hEq ▸ hOld s hSelf)) s hSelf hEq

theorem Stmt.Consistent.sub (h : s.Consistent) (hSub : a.nodes ⊆ s.nodes) : a.Consistent :=
  fun b hb c hc => h b (hSub hb) c (hSub hc)

namespace IRMutator

variable {x : Nat} {h : Over} {o : Both} {body body' first rest first' rest' : Stmt}

theorem grows_over (hBody : Grows n body.nodes body'.nodes n') (hOld : Bounded n (Stmt.nest x h body).nodes) :
    Grows n (Stmt.nest x h body).nodes (nest x h body body' n').1.nodes (nest x h body body' n').2 := by
  unfold nest
  split_ifs
  · exact Grows.refl hOld (List.Subset.refl _) hBody.le
  · have hParts : Bounded n body.nodes := hOld.mono (List.subset_cons_self _ _) le_rfl
    have hTop := Grows.single (a := .nest n' h body') (hBody.bounded hParts) rfl
    exact (hBody.trans hTop).mono (List.subset_cons_self _ _)

variable (hBoth : Grows n (first.nodes ++ rest.nodes) (first'.nodes ++ rest'.nodes) n')

include hBoth in
theorem grows_block (hOld : Bounded n (Stmt.Block x first rest).nodes) :
    Grows n (Stmt.Block x first rest).nodes (block x first rest first' rest' n').1.nodes
      (block x first rest first' rest' n').2 := by
  unfold block
  split_ifs
  · exact Grows.refl hOld (List.Subset.refl _) hBoth.le
  · have hParts := hBoth.bounded (hOld.mono (List.subset_cons_self _ _) le_rfl)
    have hMake := Stmt.grows_block (hParts.mono (List.subset_append_left _ _) le_rfl)
      (hParts.mono (List.subset_append_right _ _) le_rfl)
    exact (hBoth.trans hMake).mono (List.subset_cons_self _ _)

include hBoth in
theorem grows_both (hOld : Bounded n (Stmt.both x o first rest).nodes) :
    Grows n (Stmt.both x o first rest).nodes (both x o first rest first' rest' n').1.nodes
      (both x o first rest first' rest' n').2 := by
  unfold both
  split_ifs
  · exact Grows.refl hOld (List.Subset.refl _) hBoth.le
  · have hParts := hBoth.bounded (hOld.mono (List.subset_cons_self _ _) le_rfl)
    have hMake := Stmt.grows_makeBoth o (hParts.mono (List.subset_append_left _ _) le_rfl)
      (hParts.mono (List.subset_append_right _ _) le_rfl)
    exact (hBoth.trans hMake).mono (List.subset_cons_self _ _)

end IRMutator

end Vyasa.EarlyFree
