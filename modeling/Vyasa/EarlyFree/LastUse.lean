import Vyasa.EarlyFree.Inject
import Mathlib.Tactic.Common

/-! Where the last use of an allocation is, and what is found for it. -/
namespace Vyasa.EarlyFree

variable {func : Name} {s : Stmt}

section Mentions

mutual

theorem Expr.mentions_eq : ∀ e : Expr, e.mentions func = e.events.any (Event.refersTo func)
  | .imm _ => rfl
  | .Variable name => by simp [Expr.mentions, Expr.events, Event.refersTo]
  | .Load name predicate index => by
    simp only [Expr.mentions, Expr.events, List.any_append, ← Expr.mentions_eq predicate,
      ← Expr.mentions_eq index, List.any_cons, List.any_nil, Event.refersTo, Bool.or_false]
    rw [Bool.or_assoc, Bool.or_comm]
  | .Call name args => by
    simp only [Expr.mentions, Expr.events, List.any_append, ← mentionsAny_eq args, List.any_cons,
      List.any_nil, Event.refersTo, Bool.or_false]
    rw [Bool.or_comm]
  | .op args => mentionsAny_eq args

theorem mentionsAny_eq : ∀ es : List Expr, mentionsAny func es = (eventsAll es).any (Event.refersTo func)
  | [] => rfl
  | e :: rest => by
    rw [mentionsAny, eventsAll, List.any_append, Expr.mentions_eq e, mentionsAny_eq rest]

end

mutual

theorem Expr.free_not_mem : ∀ e : Expr, .free func ∉ e.events
  | .imm _ => List.not_mem_nil
  | .Variable _ => by simp [Expr.events]
  | .Load _ predicate index => by
    simp [Expr.events, Expr.free_not_mem predicate, Expr.free_not_mem index]
  | .Call _ args => by simp [Expr.events, eventsAll_free_not_mem args]
  | .op args => eventsAll_free_not_mem args

theorem eventsAll_free_not_mem : ∀ es : List Expr, .free func ∉ eventsAll es
  | [] => List.not_mem_nil
  | e :: rest => by
    rw [eventsAll, List.mem_append, not_or]
    exact ⟨Expr.free_not_mem e, eventsAll_free_not_mem rest⟩

end

theorem Over.free_not_mem (h : Over) : .free func ∉ h.events := by
  rw [Over.events, List.mem_append, not_or]
  refine ⟨eventsAll_free_not_mem _, ?_⟩
  cases h.allocated <;> simp

theorem Leaf.mentions_eq (l : Leaf) : l.mentions func = l.events.any (Event.refersTo func) := by
  cases l with
  | Evaluate value => exact Expr.mentions_eq value
  | Free name => rfl
  | Store name predicate value index =>
    simp only [Leaf.mentions, Leaf.events, List.any_append, ← Expr.mentions_eq, List.any_cons,
      List.any_nil, Event.refersTo, Bool.or_false]
    rw [Bool.or_assoc, Bool.or_assoc, Bool.or_comm]
    simp only [Bool.or_assoc]

theorem Over.mentions_eq (h : Over) :
    mentionsAny func h.exprs = h.events.any (Event.refersTo func) := by
  rw [Over.events, List.any_append, mentionsAny_eq]
  cases h.allocated <;> simp [Event.refersTo]

/-- Some use is in the statement. -/
def Stmt.mentions (func : Name) (s : Stmt) : Bool := s.events.any (Event.refersTo func)

theorem mentions_over {a : Nat} {h : Over} {body : Stmt} :
    (Stmt.nest a h body).mentions func = (mentionsAny func h.exprs || body.mentions func) := by
  rw [Over.mentions_eq, Stmt.mentions, Stmt.events, List.any_append]
  rfl

theorem mentions_both {a : Nat} {h : Both} {first rest : Stmt} : (Stmt.both a h first rest).mentions func =
    (mentionsAny func h.exprs || first.mentions func || rest.mentions func) := by
  rw [Stmt.mentions, Stmt.events, List.any_append, List.any_append, ← mentionsAny_eq]
  rfl

theorem mentions_block {a : Nat} {first rest : Stmt} :
    (Stmt.Block a first rest).mentions func = (first.mentions func || rest.mentions func) :=
  List.any_append

theorem not_refersTo (h : s.mentions func = false) {t : List Event} (ht : s.Exec t) :
    ∀ e ∈ t, e.refersTo func = false := by
  intro e he
  exact Bool.eq_false_iff.mpr fun hRefers => Bool.eq_false_iff.mp h
    (List.any_eq_true.mpr ⟨e, Stmt.mem_events ht he, hRefers⟩)

end Mentions

section LastAt

/-- The last use of a statement, if there is one: in the statement that contains all of it, or in a
smaller one that a free can be put behind. -/
def lastAt (func : Name) : Stmt → Option (Option Stmt)
  | .leaf _ l => if l.mentions func then some none else none
  | .nest a h body =>
    if h.in_loop then if (Stmt.nest a h body).mentions func then some none else none
    else match lastAt func body with
      | none => if mentionsAny func h.exprs then some none else none
      | some s => some s
  | .both a h first rest => if (Stmt.both a h first rest).mentions func then some none else none
  | .Block _ first rest =>
    match lastAt func rest with
    | some s => some (some (s.getD rest))
    | none => (lastAt func first).map fun s => some (s.getD first)

theorem lastAt_over {a : Nat} {h : Over} {body : Stmt} (hLoop : h.in_loop = false) :
    lastAt func (.nest a h body) = match lastAt func body with
      | none => if mentionsAny func h.exprs then some none else none
      | some s => some s := by
  rw [lastAt, hLoop, if_neg Bool.false_ne_true]

theorem visit_in_loop : ∀ (s : Stmt) (containing last_use : Option Stmt),
    FindLastUse.visit func true containing s last_use =
      if s.mentions func then containing else last_use
  | .leaf _ l, _, _ => by
    rw [FindLastUse.visit, Leaf.mentions_eq]
    rfl
  | .nest _ h body, c, last => by
    rw [FindLastUse.visit, Bool.true_or, visit_in_loop body, mentions_over]
    cases mentionsAny func h.exprs <;> cases body.mentions func <;> rfl
  | .both _ h first rest, c, last => by
    rw [FindLastUse.visit, visit_in_loop rest, visit_in_loop first, mentions_both]
    cases mentionsAny func h.exprs <;> cases first.mentions func <;> cases rest.mentions func <;> rfl
  | .Block _ first rest, c, last => by
    rw [FindLastUse.visit, visit_in_loop rest, visit_in_loop first, mentions_block]
    cases first.mentions func <;> cases rest.mentions func <;> rfl

theorem visit_eq : ∀ (s : Stmt) (containing last_use : Option Stmt),
    FindLastUse.visit func false containing s last_use =
      match lastAt func s with
      | none => last_use
      | some none => containing
      | some (some found) => some found
  | .leaf _ l, _, _ => by
    rw [FindLastUse.visit, lastAt]
    cases l.mentions func <;> rfl
  | .nest a h body, c, last => by
    rw [FindLastUse.visit, lastAt, Bool.false_or]
    cases hLoop : h.in_loop with
    | true =>
      rw [visit_in_loop, mentions_over]
      cases mentionsAny func h.exprs <;> cases body.mentions func <;> rfl
    | false =>
      rw [visit_eq body]
      rcases lastAt func body with _ | _ | found
      · cases mentionsAny func h.exprs <;> rfl
      · rfl
      · rfl
  | .both a h first rest, c, last => by
    rw [FindLastUse.visit, visit_in_loop, visit_in_loop, lastAt, mentions_both]
    cases mentionsAny func h.exprs <;> cases first.mentions func <;> cases rest.mentions func <;> rfl
  | .Block _ first rest, c, last => by
    rw [FindLastUse.visit, visit_eq rest, visit_eq first, lastAt]
    rcases lastAt func rest with _ | _ | found
    · rcases lastAt func first with _ | _ | found <;> rfl
    · rfl
    · rfl

theorem lastAt_eq_none : ∀ {s : Stmt}, lastAt func s = none → s.mentions func = false
  | .leaf _ l, h => by
    rw [lastAt] at h
    rw [show (Stmt.leaf _ l).mentions func = l.mentions func from (Leaf.mentions_eq l).symm]
    simpa using h
  | .nest a e body, h => by
    cases hLoop : e.in_loop with
    | true =>
      rw [lastAt, hLoop, if_pos rfl] at h
      simpa using h
    | false =>
      rw [lastAt_over hLoop] at h
      rcases hBody : lastAt func body with _ | found
      · rw [hBody] at h
        rw [mentions_over, lastAt_eq_none hBody, Bool.or_false]
        simpa using h
      · rw [hBody] at h
        cases h
  | .both a e first rest, h => by
    rw [lastAt] at h
    simpa using h
  | .Block _ first rest, h => by
    rw [lastAt] at h
    rcases hRest : lastAt func rest with _ | found
    · rw [hRest, Option.map_eq_none_iff] at h
      rw [mentions_block, lastAt_eq_none h, lastAt_eq_none hRest]
      rfl
    · rw [hRest] at h
      cases h

theorem mentions_of_lastAt : ∀ {s : Stmt} {found : Option Stmt}, lastAt func s = some found →
    s.mentions func = true
  | .leaf _ l, _, h => by
    rw [lastAt] at h
    rw [show (Stmt.leaf _ l).mentions func = l.mentions func from (Leaf.mentions_eq l).symm]
    by_contra hNot
    rw [if_neg hNot] at h
    cases h
  | .nest a e body, _, h => by
    cases hLoop : e.in_loop with
    | true =>
      rw [lastAt, hLoop, if_pos rfl] at h
      by_contra hNot
      rw [if_neg hNot] at h
      cases h
    | false =>
      rw [lastAt_over hLoop] at h
      rw [mentions_over]
      rcases hBody : lastAt func body with _ | found
      · rw [hBody] at h
        cases hUse : mentionsAny func e.exprs with
        | true => rfl
        | false =>
          rw [hUse] at h
          cases h
      · rw [mentions_of_lastAt hBody, Bool.or_true]
  | .both a e first rest, _, h => by
    rw [lastAt] at h
    by_contra hNot
    rw [if_neg hNot] at h
    cases h
  | .Block _ first rest, _, h => by
    rw [lastAt] at h
    rw [mentions_block]
    rcases hRest : lastAt func rest with _ | found
    · rw [hRest] at h
      obtain ⟨found, hFirst, -⟩ := Option.map_eq_some_iff.mp h
      rw [mentions_of_lastAt hFirst, Bool.true_or]
    · rw [mentions_of_lastAt hRest, Bool.or_true]

end LastAt

/-- The number of statements. -/
def Stmt.size (s : Stmt) : Nat := s.nodes.length

theorem size_le_of_mem {a : Stmt} : ∀ {s : Stmt}, a ∈ s.nodes → a.size ≤ s.size
  | .leaf _ _, h => by
    rw [Stmt.nodes, List.mem_singleton] at h
    exact h ▸ le_rfl
  | .nest _ _ body, h => by
    rcases List.mem_cons.mp h with rfl | h
    · exact le_rfl
    · exact (size_le_of_mem h).trans (Nat.le_succ _)
  | .both _ _ first rest, h | .Block _ first rest, h => by
    rcases List.mem_cons.mp h with rfl | h
    · exact le_rfl
    · simp only [Stmt.size, Stmt.nodes, List.length_cons, List.length_append]
      rcases List.mem_append.mp h with h | h
      · have := size_le_of_mem h
        simp only [Stmt.size] at this
        omega
      · have := size_le_of_mem h
        simp only [Stmt.size] at this
        omega

/-- A statement that is found is a smaller one, and has a use in it. -/
theorem found_spec : ∀ {s found : Stmt}, lastAt func s = some (some found) →
    found ∈ s.nodes ∧ found.size < s.size ∧ found.mentions func = true
  | .leaf _ l, found, h => by
    rw [lastAt] at h
    split_ifs at h
    cases h
  | .nest a e body, found, h => by
    cases hLoop : e.in_loop with
    | true =>
      rw [lastAt, hLoop, if_pos rfl] at h
      split_ifs at h
      cases h
    | false =>
      rw [lastAt_over hLoop] at h
      rcases hBody : lastAt func body with _ | found'
      · rw [hBody] at h
        dsimp only at h
        split_ifs at h
        cases h
      · rw [hBody] at h
        cases h
        obtain ⟨hMem, hSize, hUses⟩ := found_spec hBody
        exact ⟨List.mem_cons_of_mem _ hMem, hSize.trans (Nat.lt_succ_self _), hUses⟩
  | .both a e first rest, found, h => by
    rw [lastAt] at h
    split_ifs at h
    cases h
  | .Block a first rest, found, h => by
    have hSize : (Stmt.Block a first rest).size = first.size + rest.size + 1 := by
      simp only [Stmt.size, Stmt.nodes, List.length_cons, List.length_append]
    have hMem : ∀ {c : Stmt}, c ∈ first.nodes ∨ c ∈ rest.nodes → c ∈ (Stmt.Block a first rest).nodes :=
      fun hc => List.mem_cons_of_mem _ (List.mem_append.mpr hc)
    have hSelf := first.mem_nodes_self
    have hSelf' := rest.mem_nodes_self
    rw [lastAt] at h
    rcases hRest : lastAt func rest with _ | _ | found'
    · rw [hRest] at h
      obtain ⟨found', hFirst, h⟩ := Option.map_eq_some_iff.mp h
      cases h
      cases found' with
      | none => exact ⟨hMem (.inl hSelf), by rw [hSize]; dsimp only [Option.getD]; omega, mentions_of_lastAt hFirst⟩
      | some found' =>
        obtain ⟨hIn, hLt, hUses⟩ := found_spec hFirst
        exact ⟨hMem (.inl hIn), by rw [hSize]; dsimp only [Option.getD]; omega, hUses⟩
    · rw [hRest] at h
      cases h
      exact ⟨hMem (.inr hSelf'), by rw [hSize]; dsimp only [Option.getD]; omega, mentions_of_lastAt hRest⟩
    · rw [hRest] at h
      cases h
      obtain ⟨hIn, hLt, hUses⟩ := found_spec hRest
      exact ⟨hMem (.inr hIn), by rw [hSize]; dsimp only [Option.getD]; omega, hUses⟩

end Vyasa.EarlyFree
