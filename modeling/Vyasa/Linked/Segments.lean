import Mathlib.Data.List.Nodup
import Mathlib.Logic.Function.Basic

/-! Linked lists in a heap, as the list of the nodes that their pointers lead through. -/
namespace Linked

variable {α : Type*}

/-- The pointers lead from `head` through the nodes of the list to `stop`. -/
def Chain (next : α → Option α) (stop : Option α) : Option α → List α → Prop
  | head, [] => head = stop
  | head, a :: l => head = some a ∧ Chain next stop (next a) l

/-- Pointers both ways through the nodes of the list, from `head` to `last`. Before the
first node stands `prev`, after the last one `stop`. -/
def Doubly (next back : α → Option α) (stop last : Option α) :
    Option α → Option α → List α → Prop
  | prev, head, [] => head = stop ∧ last = prev
  | prev, head, a :: l => head = some a ∧ back a = prev ∧
      Doubly next back stop last (some a) (next a) l

variable {next next' back back' : α → Option α} {head stop last prev : Option α} {a b : α}
  {l l' : List α}

/-! ### One way -/

theorem Chain.congr (h : Chain next stop head l) (hNext : ∀ a ∈ l, next' a = next a) :
    Chain next' stop head l := by
  induction l generalizing head with
  | nil => exact h
  | cons a l ih =>
    refine ⟨h.1, ?_⟩
    rw [hNext a List.mem_cons_self]
    exact ih h.2 fun b hb => hNext b (List.mem_cons_of_mem a hb)

theorem chain_append : Chain next stop head (l ++ l') ↔
    ∃ middle, Chain next middle head l ∧ Chain next stop middle l' := by
  induction l generalizing head with
  | nil => simp [Chain]
  | cons a l ih =>
    simp only [List.cons_append, Chain, ih]
    constructor
    · rintro ⟨hHead, middle, hLeft, hRight⟩
      exact ⟨middle, ⟨hHead, hLeft⟩, hRight⟩
    · rintro ⟨middle, ⟨hHead, hLeft⟩, hRight⟩
      exact ⟨hHead, middle, hLeft, hRight⟩

/-- The pointers lead through one list only. -/
theorem Chain.unique (h : Chain next none head l) (h' : Chain next none head l') : l = l' := by
  induction l generalizing head l' with
  | nil =>
    cases l' with
    | nil => rfl
    | cons b l' => exact absurd (h.symm.trans h'.1) (by simp)
  | cons a l ih =>
    cases l' with
    | nil => exact absurd (h.1.symm.trans h') (by simp)
    | cons b l' =>
      obtain rfl : a = b := Option.some.inj (h.1.symm.trans h'.1)
      rw [ih h.2 h'.2]

/-- The node after a node of the list is taken out. -/
theorem Chain.unlink [DecidableEq α] (h : Chain next stop head (l ++ b :: a :: l'))
    (hNodup : (l ++ b :: a :: l').Nodup) :
    Chain (Function.update next b (next a)) stop head (l ++ b :: l') := by
  obtain ⟨middle, hLeft, hMiddle, -, hRight⟩ := chain_append.mp h
  have hFresh : ∀ c ∈ l ++ l', c ≠ b := by
    rintro c hc rfl
    simp only [List.nodup_append, List.nodup_cons, List.mem_append, List.mem_cons] at hNodup hc
    grind
  refine chain_append.mpr ⟨middle, hLeft.congr fun c hc => ?_, hMiddle, ?_⟩
  · rw [Function.update_of_ne (hFresh c (List.mem_append_left _ hc))]
  · rw [Function.update_self]
    exact hRight.congr fun c hc => by
      rw [Function.update_of_ne (hFresh c (List.mem_append_right _ hc))]

/-- A node that points to the head goes in front. -/
theorem Chain.push [DecidableEq α] (h : Chain next stop head l) (hFresh : a ∉ l) :
    Chain (Function.update next a head) stop (some a) (a :: l) := by
  refine ⟨rfl, ?_⟩
  rw [Function.update_self]
  exact h.congr fun b hb => by
    rw [Function.update_of_ne]
    rintro rfl
    exact hFresh hb

/-! ### Both ways -/

theorem Doubly.congr (h : Doubly next back stop last prev head l)
    (hNext : ∀ a ∈ l, next' a = next a) (hBack : ∀ a ∈ l, back' a = back a) :
    Doubly next' back' stop last prev head l := by
  induction l generalizing head prev with
  | nil => exact h
  | cons a l ih =>
    refine ⟨h.1, (hBack a List.mem_cons_self).trans h.2.1, ?_⟩
    rw [hNext a List.mem_cons_self]
    exact ih h.2.2 (fun b hb => hNext b (List.mem_cons_of_mem a hb))
      fun b hb => hBack b (List.mem_cons_of_mem a hb)

theorem doubly_append : Doubly next back stop last prev head (l ++ l') ↔
    ∃ middle before, Doubly next back middle before prev head l ∧
      Doubly next back stop last before middle l' := by
  induction l generalizing head prev with
  | nil => simp [Doubly]
  | cons a l ih =>
    simp only [List.cons_append, Doubly, ih]
    constructor
    · rintro ⟨hHead, hBack, middle, before, hLeft, hRight⟩
      exact ⟨middle, before, ⟨hHead, hBack, hLeft⟩, hRight⟩
    · rintro ⟨middle, before, ⟨hHead, hBack, hLeft⟩, hRight⟩
      exact ⟨hHead, hBack, middle, before, hLeft, hRight⟩

/-- Forgetting the pointers back. -/
theorem Doubly.chain (h : Doubly next back stop last prev head l) : Chain next stop head l := by
  induction l generalizing head prev with
  | nil => exact h.1
  | cons a l ih => exact ⟨h.1, ih h.2.2⟩

/-- The pointers back lead through the list in reverse. -/
theorem Doubly.chain_reverse (h : Doubly next back stop last prev head l) :
    Chain back prev last l.reverse := by
  induction l generalizing head prev with
  | nil => exact h.2
  | cons a l ih =>
    rw [List.reverse_cons, chain_append]
    exact ⟨some a, ih h.2.2, rfl, h.2.1⟩

/-- A list that is not empty starts at its head and ends at `last`. -/
theorem Doubly.head_eq (h : Doubly next back stop last prev head (a :: l)) : head = some a := h.1

theorem Doubly.last_eq (h : Doubly next back stop last prev head (l ++ [a])) : last = some a := by
  obtain ⟨middle, before, -, hLast⟩ := doubly_append.mp h
  exact hLast.2.2.2

theorem Doubly.last_eq_getLast? (h : Doubly next back stop last none head l) :
    last = l.getLast? := by
  rcases List.eq_nil_or_concat l with rfl | ⟨l, a, rfl⟩
  · exact h.2
  · rw [List.concat_eq_append] at h ⊢
    rw [h.last_eq, List.getLast?_append, List.getLast?_singleton]
    rfl

/-- On the nodes of the list, the two pointers undo each other. -/
theorem Doubly.next_iff_back (h : Doubly next back none last none head l) (ha : a ∈ l)
    (hb : b ∈ l) : next a = some b ↔ back b = some a := by
  -- Both say that `b` comes right after `a`.
  have hNext : ∀ {x y}, x ∈ l → next x = some y → ∃ p q, l = p ++ x :: y :: q ∧ back y = some x := by
    intro x y hx hEq
    obtain ⟨p, q, rfl⟩ := List.append_of_mem hx
    obtain ⟨middle, before, -, -, -, hRest⟩ := doubly_append.mp h
    cases q with
    | nil => exact absurd (hEq.symm.trans hRest.1) (by simp)
    | cons z q =>
      obtain rfl : y = z := Option.some.inj (hEq.symm.trans hRest.1)
      exact ⟨p, q, rfl, hRest.2.1⟩
  have hBack : ∀ {x y}, y ∈ l → back y = some x → ∃ p q, l = p ++ x :: y :: q ∧ next x = some y := by
    intro x y hy hEq
    obtain ⟨p, q, rfl⟩ := List.append_of_mem hy
    obtain ⟨middle, before, hLeft, hHead, hPrev, -⟩ := doubly_append.mp h
    rcases List.eq_nil_or_concat p with rfl | ⟨p, z, rfl⟩
    · have hNone : before = none := hLeft.2
      rw [hNone, hEq] at hPrev
      cases hPrev
    · rw [List.concat_eq_append] at hLeft ⊢
      obtain ⟨middle', before', -, -, -, hStop, hBefore⟩ := doubly_append.mp hLeft
      obtain rfl : x = z := Option.some.inj (hEq.symm.trans (hPrev.trans hBefore))
      exact ⟨p, q, by simp, hStop.trans hHead⟩
  constructor
  · intro hEq
    obtain ⟨-, -, -, hResult⟩ := hNext ha hEq
    exact hResult
  · intro hEq
    obtain ⟨-, -, -, hResult⟩ := hBack hb hEq
    exact hResult

section Relink

variable [DecidableEq α] {p q : List α}

/-- A pointer of the node there, if there is one, is set. -/
def relink (f : α → Option α) (node value : Option α) : α → Option α :=
  match node with
  | some b => Function.update f b value
  | none => f

/-- An end of the list moves where it has no neighbour to be set instead. -/
def endAt (current node value : Option α) : Option α :=
  match node with
  | some _ => current
  | none => value

omit [DecidableEq α] in
/-- Both ends of a list are there, or neither. -/
theorem Doubly.endAt_eq (h : Doubly next back none last none head l) (a : α) :
    (if last = none then some a else last) = endAt last head (some a) := by
  rcases List.eq_nil_or_concat l with rfl | ⟨l, d, rfl⟩
  · rw [h.1, h.2]
    rfl
  · rw [List.concat_eq_append] at h
    rw [h.last_eq]
    cases l with
    | nil => rw [h.1]; rfl
    | cons m l => rw [h.1]; rfl

theorem relink_of_ne {f : α → Option α} {node value : Option α} (h : node ≠ some a) :
    relink f node value a = f a := by
  cases node with
  | none => rfl
  | some b =>
    have hNe : a ≠ b := fun hEq => h (by rw [hEq])
    exact Function.update_of_ne hNe _ _

/-- The list in front of a node leads elsewhere. -/
theorem Doubly.setStop (h : Doubly next back stop last none head p) (hNodup : p.Nodup)
    (value : Option α) :
    Doubly (relink next last value) back value last none (endAt head last value) p := by
  rcases List.eq_nil_or_concat p with rfl | ⟨p, b, rfl⟩
  · have hLast : last = none := h.2
    subst hLast
    exact ⟨rfl, rfl⟩
  · rw [List.concat_eq_append] at h hNodup ⊢
    obtain rfl := h.last_eq
    obtain ⟨middle, before, hLeft, hHead, hBack, -, -⟩ := doubly_append.mp h
    have hFresh : ∀ c ∈ p, c ≠ b := by
      rintro c hc rfl
      simp [List.nodup_append] at hNodup
      exact hNodup.2 c hc rfl
    refine doubly_append.mpr ⟨middle, before, hLeft.congr (fun c hc => ?_) fun _ _ => rfl, hHead,
      hBack, ?_, rfl⟩
    · exact relink_of_ne fun hEq => hFresh c hc (Option.some.inj hEq).symm
    · exact Function.update_self _ _ _

/-- The list behind a node comes after another one. -/
theorem Doubly.setPrev (h : Doubly next back none last prev head q) (hNodup : q.Nodup)
    (value : Option α) :
    Doubly next (relink back head value) none (endAt last head value) value head q := by
  cases q with
  | nil =>
    have hHead : head = none := h.1
    subst hHead
    exact ⟨rfl, rfl⟩
  | cons c q =>
    obtain ⟨rfl, -, hRest⟩ := h
    refine ⟨rfl, Function.update_self _ _ _, hRest.congr (fun _ _ => rfl) fun d hd => ?_⟩
    refine relink_of_ne fun hEq => ?_
    obtain rfl := Option.some.inj hEq
    exact (List.nodup_cons.mp hNodup).1 hd

/-- A node is taken out: its neighbours, or the ends of the list, are set to each other. -/
theorem Doubly.unlink (h : Doubly next back none last none head (p ++ a :: q))
    (hNodup : (p ++ a :: q).Nodup) :
    Doubly (relink next (back a) (next a)) (relink back (next a) (back a)) none
      (endAt last (next a) (back a)) none (endAt head (back a) (next a)) (p ++ q) := by
  obtain ⟨hNodupP, hNodupQ, hDisjoint⟩ := List.nodup_append.mp hNodup
  have hNodupQ' := (List.nodup_cons.mp hNodupQ).2
  obtain ⟨middle, before, hLeft, -, rfl, hRight⟩ := doubly_append.mp h
  have hLeft' := hLeft.setStop hNodupP (next a)
  have hRight' := hRight.setPrev hNodupQ' (back a)
  refine doubly_append.mpr ⟨next a, back a, hLeft'.congr (fun _ _ => rfl) fun c hc => ?_,
    hRight'.congr (fun c hc => ?_) fun _ _ => rfl⟩
  · -- The node behind `a` is not in the list in front of it.
    refine relink_of_ne fun hEq => ?_
    cases q with
    | nil => exact absurd (hEq.symm.trans hRight.1) (by simp)
    | cons d q =>
      obtain rfl : c = d := Option.some.inj (hEq.symm.trans hRight.1)
      exact hDisjoint c hc c (by simp) rfl
  · refine relink_of_ne fun hEq => ?_
    rcases List.eq_nil_or_concat p with rfl | ⟨p, b, rfl⟩
    · exact absurd (hEq.symm.trans hLeft.2) (by simp)
    · rw [List.concat_eq_append] at hLeft hDisjoint
      obtain rfl : c = b := Option.some.inj (hEq.symm.trans hLeft.last_eq)
      exact hDisjoint c (by simp) c (List.mem_cons_of_mem a hc) rfl

/-- A new node goes in front. -/
theorem Doubly.push (h : Doubly next back none last none head l) (hNodup : l.Nodup)
    (hFresh : a ∉ l) :
    Doubly (Function.update next a head) (relink (Function.update back a none) head (some a)) none
      (endAt last head (some a)) none (some a) (a :: l) := by
  have hPrev := h.setPrev hNodup (some a)
  have hNe : ∀ c ∈ l, c ≠ a := fun c hc hEq => hFresh (hEq ▸ hc)
  have hHead : head ≠ some a := by
    cases l with
    | nil => rw [h.1]; simp
    | cons c l => rw [h.1]; exact fun hEq => hNe c List.mem_cons_self (Option.some.inj hEq)
  refine ⟨rfl, ?_, ?_⟩
  · rw [relink_of_ne hHead, Function.update_self]
  · rw [Function.update_self]
    refine hPrev.congr (fun c hc => Function.update_of_ne (hNe c hc) _ _) fun c hc => ?_
    cases head with
    | none => exact Function.update_of_ne (hNe c hc) _ _
    | some d =>
      simp only [relink, Function.update_apply]
      by_cases hcd : c = d
      · simp [hcd]
      · simp [hcd, hNe c hc]

end Relink

end Linked
