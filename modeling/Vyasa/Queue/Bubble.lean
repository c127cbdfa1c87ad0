import Vyasa.Queue.Batches

/-! Passes of bubble sort that each leave out the element which the pass before began with. They work
like a queue that takes two elements and gives one away. -/

universe u v

namespace Queue

open List (Precedes)

variable {α : Type u} {β : Type v} [LinearOrder β] (key : α → β)

/-- The larger one first. -/
def exchange (m y : α) : α × α := if key m < key y then (y, m) else (m, y)

/-- The smaller one of two neighbours is carried on. -/
def pass : α → List α → List α
  | m, [] => [m]
  | m, y :: l => (exchange key m y).1 :: pass (exchange key m y).2 l

/-- The next pass leaves out the first element. -/
def passes : ℕ → List α → List α
  | 0, l => l
  | _ + 1, [] => []
  | n + 1, m :: l =>
    match pass key m l with
    | [] => []
    | e :: rest => e :: passes n rest

def pairs : List α → List (List α)
  | [] => []
  | [x] => [[x]]
  | x :: y :: l => [x, y] :: pairs l

/-- All of a pass but the last element. -/
def emits : α → List α → List α
  | _, [] => []
  | m, y :: l => (exchange key m y).1 :: emits (exchange key m y).2 l

def least : α → List α → α
  | m, [] => m
  | m, y :: l => least (exchange key m y).2 l

variable {key} {m y f : α} {q : List α}

section Exchange

theorem exchange_mem (key : α → β) (m y : α) : (exchange key m y).1 ∈ [m, y] ∧ (exchange key m y).2 ∈ [m, y] := by
  unfold exchange
  split_ifs <;> simp

theorem exchange_le (key : α → β) (m y : α) : key (exchange key m y).2 ≤ key (exchange key m y).1 ∧
    key (exchange key m y).2 ≤ key m := by
  unfold exchange
  split_ifs with h
  · exact ⟨h.le, le_rfl⟩
  · exact ⟨not_lt.mp h, not_lt.mp h⟩

theorem exchange_of_le (h : key f ≤ key m) : exchange key m f = (m, f) := if_neg h.not_gt

theorem enqueue_of_le : ∀ {q : List α}, (∀ x ∈ q, key y ≤ key x) → enqueue key y q = q ++ [y]
  | [], _ => rfl
  | x :: q, h => by
    rw [enqueue, if_neg (h x List.mem_cons_self).not_gt, enqueue_of_le fun z hz => h z (List.mem_cons_of_mem _ hz)]
    rfl

theorem enqueue_append_of_lt (hLt : key m < key y) : ∀ q : List α,
    enqueue key y (q ++ [m]) = enqueue key y q ++ [m]
  | [] => if_pos hLt
  | x :: q => by
    rw [List.cons_append, enqueue, enqueue, enqueue_append_of_lt hLt q]
    split_ifs <;> rfl

/-- The smallest element stays the last one, or makes room for the new one. -/
theorem enqueue_concat (h : ∀ x ∈ q, key m ≤ key x) :
    enqueue key y (q ++ [m]) = enqueue key (exchange key m y).1 q ++ [(exchange key m y).2] := by
  unfold exchange
  split_ifs with hLt
  · exact enqueue_append_of_lt hLt q
  · have hLe := not_lt.mp hLt
    rw [enqueue_of_le h, enqueue_of_le]
    intro x hx
    rcases List.mem_append.mp hx with hx | hx
    · exact hLe.trans (h x hx)
    · rwa [List.mem_singleton.mp hx]

theorem exists_enqueue (key : α → β) (y : α) (q : List α) : ∃ e rest, enqueue key y q = e :: rest := by
  refine List.exists_cons_of_length_pos ?_
  rw [enqueue_perm.length_eq]
  exact Nat.succ_pos _

theorem le_enqueue (h : ∀ x ∈ q, key m ≤ key x) (hy : key m ≤ key y) :
    ∀ x ∈ enqueue key y q, key m ≤ key x := by
  intro x hx
  rcases List.mem_cons.mp (enqueue_perm.mem_iff.mp hx) with rfl | hx
  · exact hy
  · exact h x hx

end Exchange

section Passes

theorem pass_eq (key : α → β) : ∀ (m : α) (l : List α), pass key m l = emits key m l ++ [least key m l]
  | _, [] => rfl
  | m, y :: l => by
    rw [pass, pass_eq key _ l]
    rfl

theorem length_emits : ∀ (m : α) (l : List α), (emits key m l).length = l.length
  | _, [] => rfl
  | _, _ :: l => congrArg Nat.succ (length_emits _ l)

theorem mem_pass {x : α} : ∀ {m : α} {l : List α}, x ∈ pass key m l → x ∈ m :: l
  | _, [], h => h
  | m, y :: l, h => by
    obtain ⟨hFirst, hSecond⟩ := exchange_mem key m y
    have hSub : ∀ z ∈ [m, y], z ∈ m :: y :: l := by simp
    rcases List.mem_cons.mp h with rfl | h
    · exact hSub _ hFirst
    · rcases List.mem_cons.mp (mem_pass h) with rfl | h
      · exact hSub _ hSecond
      · exact List.mem_cons_of_mem _ (List.mem_cons_of_mem _ h)

theorem least_le_self : ∀ (m : α) (l : List α), key (least key m l) ≤ key m
  | _, [] => le_rfl
  | m, y :: l => (least_le_self _ l).trans (exchange_le key m y).2

theorem least_le : ∀ (m : α) (l : List α), ∀ x ∈ pass key m l, key (least key m l) ≤ key x
  | m, [], x, hx => by
    cases List.mem_singleton.mp hx
    exact le_rfl
  | m, y :: l, x, hx => by
    have hRest := least_le (exchange key m y).2 l
    rcases List.mem_cons.mp hx with rfl | hx
    · exact (least_le_self _ l).trans (exchange_le key m y).1
    · exact hRest x hx

/-- The smallest element stays behind. -/
theorem pass_concat : ∀ {m : α} {l : List α}, (∀ x ∈ m :: l, key f ≤ key x) →
    pass key m (l ++ [f]) = pass key m l ++ [f]
  | m, [], h => by
    rw [List.nil_append, pass, pass, exchange_of_le (h m List.mem_cons_self)]
    rfl
  | m, y :: l, h => by
    rw [List.cons_append, pass, pass, pass_concat]
    · rfl
    · intro x hx
      rcases List.mem_cons.mp hx with rfl | hx
      · have hIn := (exchange_mem key m y).2
        exact h _ (by simpa [or_assoc] using Or.inl (List.mem_cons.mp hIn))
      · exact h x (List.mem_cons_of_mem _ (List.mem_cons_of_mem _ hx))

theorem passes_concat : ∀ {l : List α}, (∀ x ∈ l, key f ≤ key x) →
    passes key l.length (l ++ [f]) = passes key (l.length - 1) l ++ [f] := by
  intro l
  induction hLen : l.length generalizing l with
  | zero =>
    intro _
    rw [List.length_eq_zero_iff.mp hLen]
    rfl
  | succ n ih =>
    intro h
    obtain ⟨m, l, rfl⟩ := List.exists_cons_of_length_eq_add_one hLen
    have hPass : ∀ x ∈ pass key m l, key f ≤ key x := fun x hx => h x (mem_pass hx)
    have hCount : (pass key m l).length = n + 1 := by
      rw [pass_eq key, List.length_append, length_emits, List.length_singleton]
      exact hLen
    obtain ⟨e, rest, hEq⟩ := List.exists_cons_of_length_eq_add_one hCount
    rw [hEq] at hPass hCount
    rw [List.cons_append, passes, pass_concat h, hEq, List.cons_append]
    dsimp only
    rw [ih (Nat.succ.inj hCount) fun x hx => hPass x (List.mem_cons_of_mem _ hx)]
    cases n with
    | zero =>
      rw [List.length_eq_zero_iff.mp (Nat.succ.inj hCount)] at hEq ⊢
      rw [List.length_eq_zero_iff.mp (Nat.succ.inj hLen)] at hEq ⊢
      cases hEq
      rfl
    | succ n =>
      rw [Nat.add_sub_cancel, Nat.add_sub_cancel, passes, hEq]
      rfl

/-- The first pass works on the queue like its smallest element. -/
theorem serve_concat (key : α → β) : ∀ {l : List α} {q : List α} {m : α}, (∀ x ∈ q, key m ≤ key x) →
    serve key (q ++ [m]) (pairs l) = serve key q (pairs (emits key m l)) ++ [least key m l]
  | [], _, _, _ => rfl
  | [y], q, m, h => by
    have hEnqueue := enqueue_concat (y := y) h
    obtain ⟨e, rest, hEq⟩ := exists_enqueue key (exchange key m y).1 q
    simp only [pairs, emits, least, serve, enqueueAll, hEnqueue, hEq, List.cons_append]
  | y :: z :: l, q, m, h => by
    have hFirst := enqueue_concat (y := y) h
    have hLeFirst := exchange_le key m y
    have hLe := le_enqueue (fun x hx => hLeFirst.2.trans (h x hx)) hLeFirst.1
    have hSecond := enqueue_concat (y := z) hLe
    have hLeSecond := exchange_le key (exchange key m y).2 z
    have hLe' := le_enqueue (fun x hx => hLeSecond.2.trans (hLe x hx)) hLeSecond.1
    obtain ⟨e, rest, hEq⟩ := exists_enqueue key (exchange key (exchange key m y).2 z).1
      (enqueue key (exchange key m y).1 q)
    rw [hEq] at hLe' hSecond
    simp only [pairs, emits, least, serve, enqueueAll, hFirst, hSecond, hEq, List.cons_append]
    rw [serve_concat key fun x hx => hLe' x (List.mem_cons_of_mem _ hx)]

theorem passes_eq_serve : ∀ l : List α, passes key (l.length - 1) l = serve key [] (pairs l)
  | [] => rfl
  | [_] => rfl
  | m :: y :: l => by
    have ih := passes_eq_serve (emits key (exchange key m y).2 l)
    have hLeast : ∀ x ∈ emits key (exchange key m y).2 l, key (least key (exchange key m y).2 l) ≤ key x :=
      fun x hx => least_le _ _ x (pass_eq key _ _ ▸ List.mem_append_left _ hx)
    have hConcat := passes_concat hLeast
    rw [ih, length_emits, ← pass_eq key] at hConcat
    have hServe := serve_concat key (l := l) (q := []) (m := (exchange key m y).2)
      fun _ h => absurd h List.not_mem_nil
    have hQueue : enqueueAll key [m, y] [] = [(exchange key m y).1, (exchange key m y).2] :=
      enqueue_concat (q := []) fun _ h => absurd h List.not_mem_nil
    change passes key (l.length + 1) (m :: y :: l) = _
    rw [passes, pass, pairs, serve_cons hQueue]
    dsimp only
    rw [hConcat, ← hServe]
    rfl
termination_by l => l.length
decreasing_by
  rw [length_emits]
  exact Nat.lt_succ_of_lt (Nat.lt_succ_self _)

theorem flatten_pairs : ∀ l : List α, (pairs l).flatten = l
  | [] => rfl
  | [_] => rfl
  | x :: y :: l => congrArg (x :: y :: ·) (flatten_pairs l)

theorem mem_pairs {a : α} : ∀ {l : List α} {p : ℕ}, l[p]? = some a →
    ∃ batch, (pairs l)[p / 2]? = some batch ∧ a ∈ batch
  | [x], 0, h => ⟨[x], rfl, by cases h; exact List.mem_singleton_self _⟩
  | x :: y :: _, 0, h => ⟨[x, y], rfl, by cases h; simp⟩
  | x :: y :: _, 1, h => ⟨[x, y], rfl, by cases h; simp⟩
  | _ :: _ :: l, p + 2, h => by
    obtain ⟨batch, hBatch, ha⟩ := mem_pairs (l := l) (p := p) h
    refine ⟨batch, ?_, ha⟩
    rw [Nat.add_div_right p Nat.two_pos]
    exact hBatch

theorem precedes_passes_iff {l : List α} {a b : α} {p r : ℕ} (hKeys : Distinct key l) (hLt : key a < key b)
    (ha : l[p]? = some a) (hb : l[r]? = some b) :
    Precedes a b (passes key (l.length - 1) l) ↔
      ∃ k, p / 2 ≤ k ∧ k < r / 2 ∧ backlog key a 0 (pairs l) k = 0 := by
  obtain ⟨batch, hBatch, ha⟩ := mem_pairs ha
  rw [passes_eq_serve]
  refine precedes_iff List.Pairwise.nil ?_ hLt (.of_getElem? hBatch ha) (mem_pairs hb)
  rwa [List.nil_append, flatten_pairs]

end Passes

end Queue
