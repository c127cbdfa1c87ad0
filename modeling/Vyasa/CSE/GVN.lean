import Vyasa.CSE.Exact
import Vyasa.CSE.Mutator

/-! The global value numbering of an expression without lets. Every node of the result is the
expression of an entry, and the children of an entry come before it. -/
namespace Vyasa.CSE

open IREquality Binding

structure Entry where
  expr : Expr
  use_count : Nat
  /-- The consumers for which this is the last child. -/
  uses : List (Expr × Nat)

structure GVN where
  entries : List Entry
  shallow_numbering : ExprMap Nat
  output_numbering : ExprMap Nat
  leaves : List (Expr × Nat)
  /-- The number of the last child, or none if there is none. -/
  number : Option Nat
  cache : IRCompareCache

namespace GVN

def init : GVN := ⟨[], [], [], [], some 0, .empty 8⟩

def exprs (g : GVN) : List Expr := g.entries.map Entry.expr

/-- `ExprWithCompareCache::operator<`. -/
def less (a b : Expr) (cache : IRCompareCache) : Bool × IRCompareCache :=
  let (result, cache) := a.toTree.compareCached b.toTree cache
  (result == .lt, cache)

/-- The number of an expression that is neither before nor after the given one. -/
def findUse (e : Expr) : List (Expr × Nat) → IRCompareCache → Option Nat × IRCompareCache
  | [], cache => (none, cache)
  | (key, n) :: uses, cache =>
      let (before, cache) := less key e cache
      if before then findUse e uses cache
      else
        let (after, cache) := less e key cache
        if after then findUse e uses cache else (some n, cache)

/-- The consumers of the last child, or the leaves. -/
def useMap (g : GVN) : List (Expr × Nat) :=
  match g.number with
  | none => g.leaves
  | some n => (g.entries[n]?.map Entry.uses).getD []

/-- Put an expression in the map of the last child, or in that of the leaves. -/
def addUse (g : GVN) (e : Expr) (number : Nat) : GVN :=
  match g.number with
  | none => { g with leaves := (e, number) :: g.leaves }
  | some n =>
      { g with entries := g.entries.modify n fun entry => { entry with uses := (e, number) :: entry.uses } }

/-- Memorize the number for the old and the new form of an expression. -/
def memorize (g : GVN) (e new_e : Expr) (number : Nat) : GVN :=
  { g with
    number := some number
    shallow_numbering := g.shallow_numbering.insert e number
    output_numbering := g.output_numbering.insert new_e number }

/-- A new entry for an expression that was not seen before. -/
def withEntry (g : GVN) (e r : Expr) : GVN :=
  let g' := g.addUse r g.entries.length
  GVN.memorize { g' with entries := g'.entries ++ [⟨r, 0, []⟩] } e r g.entries.length

/-- Number an expression over canonical children. -/
def numbered (e new_e : Expr) (g : GVN) : Expr × GVN :=
  let (found, cache) := findUse new_e g.useMap g.cache
  let g := { g with cache := cache }
  match found with
  | none =>
      (new_e, g.withEntry e new_e)
  | some number =>
      let new_e := (g.entries[number]?.map Entry.expr).getD new_e
      (new_e, g.memorize e new_e number)

/-- The early out is for an expression that was seen before. -/
def mutate (e : Expr) (x : M GVN Expr) : M GVN Expr := fun s =>
  match s.own.shallow_numbering.find e with
  | some number =>
      ((s.own.entries[number]?.map Entry.expr).getD e, { s with own := { s.own with number := number } })
  | none =>
      let (new_e, s) := x { s with own := { s.own with number := none } }
      let (new_e, g) := numbered e new_e s.own
      (new_e, { s with own := g })

def mutator : IRMutator GVN where
  mutate := GVN.mutate
  visitVariable := visitVariable
  visitLet := visitLet

end GVN

/-! ### The invariant -/

def Exprs.toList : Exprs → List Expr
  | .nil => []
  | .cons e rest => e :: rest.toList

def Expr.children : Expr → List Expr
  | .Variable .. => []
  | .Let _ _ _ value body => [value, body]
  | .node _ _ args => args.toList

/-- The children of each expression come before it. -/
def Closed : List Expr → Prop
  | l => ∀ before e after, l = before ++ e :: after → ∀ child ∈ e.children, child ∈ before

namespace GVN

variable (floats : Set F64) (vars : Set String) (heap₀ : Heap)

/-- A canonical expression of the heap. -/
structure Canonical (heap : Heap) (e : Expr) : Prop where
  lives : e.Lives heap
  letFree : e.term.LetFree
  floatIn : e.term.All (Op.FloatIn floats)
  freeVars : e.term.freeVars ⊆ vars

/-- What holds between the calls of `mutate` for the nodes of a heap. -/
structure Inv (s : State GVN) : Prop where
  ok : s.heap.Ok
  initial : heap₀.Le s.heap
  canonical : ∀ e ∈ s.own.exprs, Canonical floats vars s.heap e
  shallow : ∀ p ∈ s.own.shallow_numbering, p.1.Lives s.heap ∧
    ∃ e, s.own.exprs[p.2]? = some e ∧ e.term = p.1.term
  output : ∀ p ∈ s.own.output_numbering, p.2 < s.own.entries.length
  outputs : ∀ e ∈ s.own.exprs, ∃ p ∈ s.own.output_numbering, p.1 = e
  leaves : ∀ p ∈ s.own.leaves, s.own.exprs[p.2]? = some p.1
  uses : ∀ entry ∈ s.own.entries, ∀ p ∈ entry.uses, s.own.exprs[p.2]? = some p.1
  closed : Closed s.own.exprs
  nodup : s.own.exprs.Nodup
  recorded : ∀ e ∈ s.own.exprs, e.Lives heap₀ → ∃ p ∈ s.own.shallow_numbering, p.1 = e
  valid : s.own.cache.Valid s.heap.memory

variable {floats vars heap₀} {s s' : State GVN} {e r : Expr}

theorem exprs_getElem? (g : GVN) (n : Nat) : g.exprs[n]? = g.entries[n]?.map Entry.expr :=
  List.getElem?_map ..

@[simp] theorem exprs_addUse (g : GVN) (e : Expr) (n : Nat) : (g.addUse e n).exprs = g.exprs := by
  unfold addUse
  split
  · rfl
  · next k _ =>
    refine List.ext_getElem? fun i => ?_
    rw [exprs_getElem?, exprs_getElem?, List.getElem?_modify]
    split
    · cases g.entries[i]? <;> rfl
    · simp

theorem length_exprs (g : GVN) : g.exprs.length = g.entries.length := List.length_map ..

/-- An expression that is found is equal in the deep comparison. -/
theorem findUse_spec {heap : Heap} (he : e.Lives heap) : ∀ {uses : List (Expr × Nat)}
    {cache : IRCompareCache}, (∀ p ∈ uses, p.1.Lives heap) → cache.Valid heap.memory →
      (findUse e uses cache).2.Valid heap.memory ∧
        ∀ n, (findUse e uses cache).1 = some n →
          ∃ key, (key, n) ∈ uses ∧ key.toTree.order e.toTree = .eq
  | [], cache, _, hCache => ⟨hCache, fun _ h => nomatch h⟩
  | (key, n) :: uses, cache, hUses, hCache => by
    have hKey := (hUses _ List.mem_cons_self).toTree
    have hRest : ∀ p ∈ uses, p.1.Lives heap := fun p hp => hUses p (List.mem_cons_of_mem _ hp)
    obtain ⟨hBefore, hCache₁⟩ := Tree.compareCached_spec hKey he.toTree hCache
    obtain ⟨hAfter, hCache₂⟩ := Tree.compareCached_spec he.toTree hKey hCache₁
    simp only [findUse, less, beq_iff_eq, hBefore, hAfter]
    split
    · obtain ⟨hValid, hFound⟩ := findUse_spec he hRest hCache₁
      refine ⟨hValid, fun m hm => ?_⟩
      obtain ⟨key', hMem, hOrder⟩ := hFound m hm
      exact ⟨key', List.mem_cons_of_mem _ hMem, hOrder⟩
    · next hNotBefore =>
      split
      · obtain ⟨hValid, hFound⟩ := findUse_spec he hRest hCache₂
        refine ⟨hValid, fun m hm => ?_⟩
        obtain ⟨key', hMem, hOrder⟩ := hFound m hm
        exact ⟨key', List.mem_cons_of_mem _ hMem, hOrder⟩
      · next hNotAfter =>
        refine ⟨hCache₂, fun m hm => ⟨key, ?_, ?_⟩⟩
        · rw [Option.some.inj hm]
          exact List.mem_cons_self
        · rw [← Tree.order_swap] at hNotAfter
          cases hOrder : key.toTree.order e.toTree with
          | eq => rfl
          | lt => exact absurd hOrder hNotBefore
          | gt => exact absurd (by rw [hOrder]; rfl) hNotAfter

theorem Canonical.mono {heap heap' : Heap} (hLe : heap.Le heap') (h : Canonical floats vars heap e) :
    Canonical floats vars heap' e :=
  ⟨h.lives.mono hLe, h.letFree, h.floatIn, h.freeVars⟩

/-- A larger heap is as good. -/
theorem Inv.mono_heap (h : Inv floats vars heap₀ s) {heap : Heap} (hOk : heap.Ok) (hLe : s.heap.Le heap) :
    Inv floats vars heap₀ { s with heap := heap } where
  ok := hOk
  initial := h.initial.trans hLe
  canonical e he := (h.canonical e he).mono hLe
  shallow p hp := ⟨(h.shallow p hp).1.mono hLe, (h.shallow p hp).2⟩
  output := h.output
  outputs := h.outputs
  leaves := h.leaves
  uses := h.uses
  closed := h.closed
  nodup := h.nodup
  recorded := h.recorded
  valid := hLe.valid h.valid

theorem Inv.useMap (h : Inv floats vars heap₀ s) :
    ∀ p ∈ s.own.useMap, s.own.exprs[p.2]? = some p.1 := by
  intro p hp
  unfold GVN.useMap at hp
  split at hp
  · exact h.leaves p hp
  · next n _ =>
    cases hEntry : s.own.entries[n]? with
    | none =>
      rw [hEntry] at hp
      exact (List.not_mem_nil hp).elim
    | some entry =>
      rw [hEntry] at hp
      exact h.uses entry (List.mem_of_getElem? hEntry) p hp

/-- Memorizing the number of an entry of the same term. -/
theorem Inv.memorize (h : Inv floats vars heap₀ s) {number : Nat} (he : e.Lives s.heap)
    (hNumber : s.own.exprs[number]? = some r) (hTerm : r.term = e.term) :
    Inv floats vars heap₀ { s with own := s.own.memorize e r number } where
  ok := h.ok
  initial := h.initial
  canonical := h.canonical
  shallow p hp := by
    rcases List.mem_cons.mp hp with rfl | hp
    · exact ⟨he, r, hNumber, hTerm⟩
    · exact h.shallow p hp
  output p hp := by
    rcases List.mem_cons.mp hp with rfl | hp
    · exact s.own.length_exprs ▸ (List.getElem?_eq_some_iff.mp hNumber).1
    · exact h.output p hp
  outputs x hx := by
    obtain ⟨p, hp, hEq⟩ := h.outputs x hx
    exact ⟨p, List.mem_cons_of_mem _ hp, hEq⟩
  leaves := h.leaves
  uses := h.uses
  closed := h.closed
  nodup := h.nodup
  recorded x hx hLives := by
    obtain ⟨p, hp, hEq⟩ := h.recorded x hx hLives
    exact ⟨p, List.mem_cons_of_mem _ hp, hEq⟩
  valid := h.valid

theorem mem_leaves_addUse {g : GVN} {n : Nat} {p : Expr × Nat} (hp : p ∈ (g.addUse r n).leaves) :
    p = (r, n) ∨ p ∈ g.leaves := by
  unfold addUse at hp
  split at hp
  · exact List.mem_cons.mp hp
  · exact Or.inr hp

theorem mem_uses_addUse {g : GVN} {n : Nat} {entry : Entry} (hEntry : entry ∈ (g.addUse r n).entries)
    {p : Expr × Nat} (hp : p ∈ entry.uses) :
    p = (r, n) ∨ ∃ entry' ∈ g.entries, p ∈ entry'.uses := by
  unfold addUse at hEntry
  split at hEntry
  · exact Or.inr ⟨entry, hEntry, hp⟩
  · obtain ⟨i, hi⟩ := List.getElem?_of_mem hEntry
    rw [List.getElem?_modify] at hi
    obtain ⟨entry', hEntry', hEq⟩ := Option.map_eq_some_iff.mp hi
    split at hEq
    · subst hEq
      rcases List.mem_cons.mp hp with rfl | hp
      · exact Or.inl rfl
      · exact Or.inr ⟨entry', List.mem_of_getElem? hEntry', hp⟩
    · exact Or.inr ⟨entry', List.mem_of_getElem? hEntry', hEq ▸ hp⟩

theorem Closed.concat {l : List Expr} (h : Closed l) (hChildren : ∀ child ∈ e.children, child ∈ l) :
    Closed (l ++ [e]) := by
  intro before x after hEq child hChild
  rcases List.eq_nil_or_concat after with rfl | ⟨after', y, rfl⟩
  · obtain ⟨rfl, hx⟩ := List.append_inj' hEq rfl
    rw [← List.singleton_inj.mp hx] at hChild
    exact hChildren child hChild
  · have hInit : l = before ++ x :: after' := by
      have hSplit : l ++ [e] = (before ++ x :: after') ++ [y] := by simpa using hEq
      exact (List.append_inj' hSplit rfl).1
    exact h before x after' hInit child hChild

theorem exprs_withEntry (g : GVN) (e r : Expr) : (g.withEntry e r).exprs = g.exprs ++ [r] := by
  change List.map Entry.expr ((g.addUse r g.entries.length).entries ++ [⟨r, 0, []⟩]) = _
  rw [List.map_append]
  exact congrArg (· ++ [r]) (exprs_addUse g r g.entries.length)

theorem shallow_withEntry (g : GVN) (e r : Expr) :
    (g.withEntry e r).shallow_numbering = (e, g.entries.length) :: g.shallow_numbering := by
  unfold withEntry addUse
  split <;> rfl

theorem output_withEntry (g : GVN) (e r : Expr) :
    (g.withEntry e r).output_numbering = (r, g.entries.length) :: g.output_numbering := by
  unfold withEntry addUse
  split <;> rfl

theorem cache_withEntry (g : GVN) (e r : Expr) : (g.withEntry e r).cache = g.cache := by
  unfold withEntry addUse
  split <;> rfl

/-- Where to find an entry after one more was added. -/
theorem getElem?_withEntry {g : GVN} {n : Nat} {x : Expr} (h : g.exprs[n]? = some x) :
    (g.withEntry e r).exprs[n]? = some x := by
  rw [exprs_withEntry, List.getElem?_append_left (List.getElem?_eq_some_iff.mp h).1, h]

theorem getElem?_withEntry_length (g : GVN) (e r : Expr) :
    (g.withEntry e r).exprs[g.entries.length]? = some r := by
  rw [exprs_withEntry, ← length_exprs, List.getElem?_concat_length]

/-- A new entry for an expression over entries. -/
theorem Inv.withEntry (h : Inv floats vars heap₀ s) (hr : Canonical floats vars s.heap r)
    (hChildren : ∀ child ∈ r.children, child ∈ s.own.exprs) (hNew : r ∉ s.own.exprs)
    (he : e.Lives s.heap) (hTerm : r.term = e.term) (hRecorded : r.Lives heap₀ → r = e) :
    Inv floats vars heap₀ { s with own := s.own.withEntry e r } where
  ok := h.ok
  initial := h.initial
  canonical x hx := by
    rw [exprs_withEntry] at hx
    rcases List.mem_append.mp hx with hx | hx
    · exact h.canonical x hx
    · rw [List.mem_singleton.mp hx]
      exact hr
  shallow p hp := by
    rw [shallow_withEntry] at hp
    rcases List.mem_cons.mp hp with rfl | hp
    · exact ⟨he, r, getElem?_withEntry_length .., hTerm⟩
    · obtain ⟨hLives, x, hx, hEq⟩ := h.shallow p hp
      exact ⟨hLives, x, getElem?_withEntry hx, hEq⟩
  output p hp := by
    have hLength : (s.own.withEntry e r).entries.length = s.own.entries.length + 1 := by
      rw [← length_exprs, exprs_withEntry, List.length_append, length_exprs]
      rfl
    refine lt_of_lt_of_eq ?_ hLength.symm
    rw [output_withEntry] at hp
    rcases List.mem_cons.mp hp with rfl | hp
    · exact Nat.lt_succ_self _
    · exact Nat.lt_succ_of_lt (h.output p hp)
  outputs x hx := by
    rw [exprs_withEntry] at hx
    rw [output_withEntry]
    rcases List.mem_append.mp hx with hx | hx
    · obtain ⟨p, hp, hEq⟩ := h.outputs x hx
      exact ⟨p, List.mem_cons_of_mem _ hp, hEq⟩
    · exact ⟨(r, s.own.entries.length), List.mem_cons_self, (List.mem_singleton.mp hx).symm⟩
  leaves p hp := by
    rcases mem_leaves_addUse hp with rfl | hp
    · exact getElem?_withEntry_length ..
    · exact getElem?_withEntry (h.leaves p hp)
  uses entry hEntry p hp := by
    rcases List.mem_append.mp hEntry with hEntry | hEntry
    · rcases mem_uses_addUse hEntry hp with rfl | ⟨entry', hEntry', hp⟩
      · exact getElem?_withEntry_length ..
      · exact getElem?_withEntry (h.uses entry' hEntry' p hp)
    · rw [List.mem_singleton.mp hEntry] at hp
      exact (List.not_mem_nil hp).elim
  closed := by
    rw [exprs_withEntry]
    exact Closed.concat h.closed hChildren
  nodup := by
    rw [exprs_withEntry]
    exact List.nodup_append.mpr ⟨h.nodup, List.pairwise_singleton _ r, by simpa using fun x hx => ne_of_mem_of_not_mem hx hNew⟩
  recorded x hx hLives := by
    rw [exprs_withEntry] at hx
    rw [shallow_withEntry]
    rcases List.mem_append.mp hx with hx | hx
    · obtain ⟨p, hp, hEq⟩ := h.recorded x hx hLives
      exact ⟨p, List.mem_cons_of_mem _ hp, hEq⟩
    · rw [List.mem_singleton.mp hx] at hLives ⊢
      exact ⟨(e, s.own.entries.length), List.mem_cons_self, (hRecorded hLives).symm⟩
  valid := by
    rw [cache_withEntry]
    exact h.valid

/-! ### The result -/

/-- The nodes of the initial heap may be given, without lets and with these floats. -/
def spec (floats : Set F64) (vars : Set String) (heap₀ : Heap) : Spec GVN Unit where
  Pre e := e.term.LetFree ∧ e.term.All (Op.FloatIn floats) ∧ e.term.freeVars ⊆ vars ∧ e.Lives heap₀
  PreAll es :=
    es.terms.LetFree ∧ es.terms.All (Op.FloatIn floats) ∧ es.terms.freeVars ⊆ vars ∧ es.Lives heap₀
  pre_node h := ⟨h.1, h.2.1.2, h.2.2.1, h.2.2.2.2⟩
  pre_cons h := ⟨⟨h.1.1, h.2.1.1, Set.subset_union_left.trans h.2.2.1, h.2.2.2.1⟩, h.1.2, h.2.1.2,
    Set.subset_union_right.trans h.2.2.1, h.2.2.2.2⟩
  Inv _ := Inv floats vars heap₀
  ok := Inv.ok
  Grows n s s' := s.heap.Le s'.heap ∧ s.own.exprs <+: s'.own.exprs ∧
    ∀ p ∈ s'.own.shallow_numbering, p ∈ s.own.shallow_numbering ∨ p.1.size ≤ n
  refl _ _ := ⟨Heap.Le.refl _, List.prefix_rfl, fun _ hp => Or.inl hp⟩
  trans h h' := ⟨h.1.trans h'.1, h.2.1.trans h'.2.1, fun p hp =>
    (h'.2.2 p hp).elim (h.2.2 p) Or.inr⟩
  weaken hLe h := ⟨h.1, h.2.1, fun p hp => (h.2.2 p hp).imp_right fun hSize => hSize.trans hLe⟩
  heap_le h := h.1
  Visited _ s e r := r.term = e.term ∧ (∀ child ∈ r.children, child ∈ s.own.exprs) ∧
    (r = e ∨ r ∉ s.own.exprs ∧ ¬ r.Lives heap₀)
  Rel _ s e r := r.term = e.term ∧ r ∈ s.own.exprs
  mono hGrows h := ⟨h.1, hGrows.2.1.subset h.2⟩

theorem size_pos (e : Expr) : 0 < e.size := by
  cases e <;> simp [Expr.size]

theorem ne_of_find_none {l : ExprMap Nat} (h : l.find e = none) : ∀ p ∈ l, p.1 ≠ e := by
  rintro p hp rfl
  simp only [ExprMap.find, Option.map_eq_none_iff, List.find?_eq_none] at h
  exact h p hp (by simp [Expr.same_as])

/-- An expression over entries that is none of them is found equal to an entry or is added. -/
theorem numbered_spec (hExact : Exact floats) (h : Inv floats vars heap₀ s) (hr : Canonical floats vars s.heap r)
    (hChildren : ∀ child ∈ r.children, child ∈ s.own.exprs) (hNew : r ∉ s.own.exprs)
    (he : e.Lives s.heap) (hTerm : r.term = e.term) (hRecorded : r.Lives heap₀ → r = e) :
    let p := numbered e r s.own
    Inv floats vars heap₀ { s with own := p.2 } ∧ s.own.exprs <+: p.2.exprs ∧
      (∃ n, p.2.shallow_numbering = (e, n) :: s.own.shallow_numbering) ∧
      p.1.term = e.term ∧ p.1 ∈ p.2.exprs := by
  have hUses : ∀ p ∈ s.own.useMap, p.1.Lives s.heap := fun p hp =>
    (h.canonical p.1 (List.mem_of_getElem? (h.useMap p hp))).lives
  obtain ⟨hValid, hFound⟩ := findUse_spec hr.lives hUses h.valid
  have hInv : Inv floats vars heap₀
      { s with own := { s.own with cache := (findUse r s.own.useMap s.own.cache).2 } } :=
    { h with valid := hValid }
  simp only [numbered]
  split
  · refine ⟨hInv.withEntry hr hChildren hNew he hTerm hRecorded, ?_, ⟨_, shallow_withEntry ..⟩, hTerm, ?_⟩
    · rw [exprs_withEntry]
      exact List.prefix_append ..
    · rw [exprs_withEntry]
      exact List.mem_append_right _ List.mem_cons_self
  · next n hSome =>
    obtain ⟨key, hKey, hOrder⟩ := hFound n hSome
    have hEntry := h.useMap _ hKey
    have hCanonical := h.canonical key (List.mem_of_getElem? hEntry)
    have hKeyTerm : key.term = e.term :=
      (Expr.term_eq_of_order hExact hCanonical.floatIn hr.floatIn hOrder).trans hTerm
    have hResult : (s.own.entries[n]?.map Entry.expr).getD r = key := by
      rw [← exprs_getElem?, hEntry]
      rfl
    simp only [hResult]
    exact ⟨hInv.memorize he hEntry hKeyTerm, List.prefix_rfl, ⟨n, rfl⟩, hKeyTerm,
      List.mem_of_getElem? hEntry⟩

theorem mutate_mutates (hExact : Exact floats) {x : M GVN Expr}
    (hx : (spec floats vars heap₀).Visits () e x) : (spec floats vars heap₀).Mutates () e (GVN.mutate e x) := by
  intro s hPre hInv hLives
  unfold GVN.mutate
  split
  · next n hFind =>
    have hMem := ExprMap.mem_of_find (fun p hp => (hInv.shallow p hp).1) hLives hFind
    obtain ⟨-, r, hr, hTerm⟩ := hInv.shallow _ hMem
    have hResult : (s.own.entries[n]?.map Entry.expr).getD e = r := by
      rw [← exprs_getElem?, hr]
      rfl
    rw [hResult]
    have hEntry := List.mem_of_getElem? hr
    exact ⟨{ hInv with }, (spec floats vars heap₀).refl _ s, (hInv.canonical r hEntry).lives, hTerm, hEntry⟩
  · next hFind =>
    have hStart : Inv floats vars heap₀ { s with own := { s.own with number := none } } := { hInv with }
    obtain ⟨hInv', hGrows, hResult, hTerm, hChildren, hFresh⟩ := hx _ hPre hStart hLives
    generalize x { s with own := { s.own with number := none } } = p at *
    -- What was seen below the expression is smaller than it.
    have hUnseen : ∀ q ∈ p.2.own.shallow_numbering, q.1 ≠ e := by
      rintro q hq rfl
      rcases hGrows.2.2 q hq with hOld | hSize
      · exact ne_of_find_none hFind q hOld rfl
      · have hPos := size_pos q.1
        omega
    have hNew : p.1 ∉ p.2.own.exprs := by
      rcases hFresh with hSame | ⟨hNew, -⟩
      · intro hMem
        rw [hSame] at hMem
        obtain ⟨q, hq, hEq⟩ := hInv'.recorded e hMem hPre.2.2.2
        exact hUnseen q hq hEq
      · exact hNew
    have hCanonical : Canonical floats vars p.2.heap p.1 := by
      refine ⟨hResult, ?_, ?_, ?_⟩
      · rw [hTerm]
        exact hPre.1
      · rw [hTerm]
        exact hPre.2.1
      · rw [hTerm]
        exact hPre.2.2.1
    obtain ⟨hInv'', hExprs, ⟨n, hShallow⟩, hTerm', hMem⟩ := numbered_spec hExact hInv' hCanonical
      hChildren hNew (hLives.mono hGrows.1) hTerm fun hOld => hFresh.resolve_right fun h => h.2 hOld
    refine ⟨hInv'', ⟨hGrows.1, hGrows.2.1.trans hExprs, fun q hq => ?_⟩,
      (hInv''.canonical _ hMem).lives, hTerm', hMem⟩
    have hq : q ∈ (numbered e p.1 p.2.own).2.shallow_numbering := hq
    rw [hShallow] at hq
    rcases List.mem_cons.mp hq with rfl | hq
    · exact Or.inr le_rfl
    · exact (hGrows.2.2 q hq).imp_right fun hSize => hSize.trans (Nat.sub_le _ _)

theorem relAll_terms : ∀ {args args' : Exprs}, (spec floats vars heap₀).RelAll () s args args' →
    args'.terms = args.terms ∧ ∀ child ∈ args'.toList, child ∈ s.own.exprs
  | .nil, .nil, _ => ⟨rfl, fun _ h => (List.not_mem_nil h).elim⟩
  | .nil, .cons .., h => h.elim
  | .cons .., .nil, h => h.elim
  | .cons .., .cons .., h => by
    obtain ⟨hTerms, hMem⟩ := relAll_terms h.2
    refine ⟨by rw [Exprs.terms, Exprs.terms, h.1.1, hTerms], fun child hChild => ?_⟩
    rcases List.mem_cons.mp hChild with rfl | hChild
    · exact h.1.2
    · exact hMem child hChild

theorem sound (hExact : Exact floats) (hOk : heap₀.Ok) : (spec floats vars heap₀).Sound mutator where
  mutate := mutate_mutates hExact
  visitVariable := by
    intro c addr type name s _ hInv hLives
    exact ⟨hInv, (spec floats vars heap₀).refl _ s, hLives, rfl, fun _ h => (List.not_mem_nil h).elim, Or.inl rfl⟩
  visitLet := by
    intro addr type name value body x y _ _ c s hPre _ _
    exact hPre.1.elim
  same := by
    intro c s addr op args hInv hLives hRel
    exact ⟨rfl, (relAll_terms hRel).2, Or.inl rfl⟩
  made := by
    intro c s addr op args args' hPre hInv hLives hArgs hRel
    obtain ⟨hTerms, hMem⟩ := relAll_terms hRel
    have hLe := hInv.ok.le_alloc fun addr => .node addr op args'
    refine ⟨hInv.mono_heap (hInv.ok.alloc _) hLe,
      ⟨hLe, List.prefix_rfl, fun _ hp => Or.inl hp⟩, ?_, hMem, Or.inr ⟨fun hOld => ?_, fun hOld => ?_⟩⟩
    · rw [Expr.term, Expr.term, hTerms]
    · exact absurd ((hInv.canonical _ hOld).lives.addr_lt hInv.ok) (lt_irrefl _)
    · have hLt := hOld.addr_lt hOk
      exact absurd (hLt.trans_le hInv.initial.1) (lt_irrefl _)

/-- The canonical form of an expression, from a new numbering. -/
theorem run_spec (hExact : Exact floats) {heap : Heap} (hOk : heap.Ok) (hLives : e.Lives heap)
    (hLetFree : e.term.LetFree) (hFloats : e.term.All (Op.FloatIn floats))
    (hVars : e.term.freeVars ⊆ vars) :
    let p := mutator.run e ⟨heap, init⟩
    Inv floats vars heap p.2 ∧ heap.Le p.2.heap ∧ p.1.term = e.term ∧ p.1 ∈ p.2.own.exprs := by
  have hInv : Inv floats vars heap ⟨heap, init⟩ :=
    { ok := hOk
      initial := Heap.Le.refl _
      canonical := fun _ h => (List.not_mem_nil h).elim
      shallow := fun _ h => (List.not_mem_nil h).elim
      output := fun _ h => (List.not_mem_nil h).elim
      outputs := fun _ h => (List.not_mem_nil h).elim
      leaves := fun _ h => (List.not_mem_nil h).elim
      uses := fun _ h => (List.not_mem_nil h).elim
      closed := fun _ _ _ h => absurd h.symm (List.append_ne_nil_of_right_ne_nil _ (List.cons_ne_nil _ _))
      nodup := List.nodup_nil
      recorded := fun _ h => (List.not_mem_nil h).elim
      valid := IRCompareCache.valid_empty 8 }
  obtain ⟨hInv', hGrows, -, hRel⟩ :=
    (sound hExact hOk).run e () _ ⟨hLetFree, hFloats, hVars, hLives⟩ hInv hLives
  exact ⟨hInv', hGrows.1, hRel⟩

end GVN

end Vyasa.CSE
