import Mathlib.Data.List.Basic

/-! Texts that are joined from tokens, and the replacement of the occurrences of a text. -/
namespace Text

variable {α : Type} [DecidableEq α] {find replace s u u' v v' : List α}

/-- Occurrences are replaced from left to right, and looked for again after what replaces them. -/
def replaceAll (find replace : List α) : List α → List α
  | [] => []
  | c :: s =>
    if find <+: c :: s then replace ++ replaceAll find replace (s.drop (find.length - 1))
    else c :: replaceAll find replace s
termination_by s => s.length
decreasing_by
  · simp only [List.length_drop, List.length_cons]
    omega
  · simp

theorem replaceAll_of_none (h : ∀ u v, s ≠ u ++ find ++ v) : replaceAll find replace s = s := by
  induction s with
  | nil => rw [replaceAll]
  | cons c s ih =>
    rw [replaceAll, if_neg, ih]
    · intro u v hEq
      exact h (c :: u) v (by rw [hEq, List.cons_append, List.cons_append])
    · rintro ⟨v, hEq⟩
      exact h [] v hEq.symm

/-- The only occurrence is replaced. -/
theorem replaceAll_of_unique (hFind : find ≠ []) (h : ∀ u' v', u ++ find ++ v = u' ++ find ++ v' → u' = u) :
    replaceAll find replace (u ++ find ++ v) = u ++ replace ++ v := by
  induction u with
  | nil =>
    obtain ⟨c, rest, rfl⟩ := List.exists_cons_of_ne_nil hFind
    have hNone : replaceAll (c :: rest) replace v = v := by
      refine replaceAll_of_none fun u v' hEq => ?_
      have hOther := h ((c :: rest) ++ u) v' (by rw [hEq]; simp only [List.nil_append, List.append_assoc])
      cases hOther
    rw [List.nil_append, List.cons_append, replaceAll, if_pos ⟨v, rfl⟩, List.length_cons, Nat.add_sub_cancel,
      List.drop_left, hNone, List.nil_append]
  | cons c u ih =>
    rw [List.cons_append, List.cons_append, replaceAll, if_neg, ih]
    · simp only [List.cons_append]
    · intro u' v' hEq
      have hSame := h (c :: u') v' (by simp only [List.cons_append, hEq])
      exact List.cons_injective hSame
    · rintro ⟨v', hEq⟩
      cases h [] v' (by simp only [List.cons_append, List.nil_append, hEq])

variable {x : α} {a b c : List α} {tokens before after : List (List α)}

/-- The tokens, with the separator between them. -/
def join (x : α) (tokens : List (List α)) : List α := [x].intercalate tokens

theorem split_join (hTokens : ∀ t ∈ tokens, x ∉ t) (hNonempty : tokens ≠ []) :
    (join x tokens).splitOn x = tokens :=
  List.splitOn_intercalate x hTokens hNonempty

theorem join_split (s : List α) : join x (s.splitOn x) = s := List.intercalate_splitOn x

omit [DecidableEq α] in
theorem join_singleton (t : List α) : join x [t] = t := List.intercalate_singleton

omit [DecidableEq α] in
theorem join_cons (t : List α) (h : tokens ≠ []) : join x (t :: tokens) = t ++ x :: join x tokens := by
  rw [join, List.intercalate_cons_of_ne_nil h, List.append_assoc, List.singleton_append, join]

omit [DecidableEq α] in
theorem join_cons_eq (t : List α) : join x (t :: tokens) = t ++ (tokens.map (x :: ·)).flatten := by
  induction tokens generalizing t with
  | nil => rw [join_singleton, List.map_nil, List.flatten_nil, List.append_nil]
  | cons t' tokens ih =>
    rw [join_cons t (List.cons_ne_nil t' tokens), ih, List.map_cons, List.flatten_cons, List.cons_append]

omit [DecidableEq α] in
theorem join_append (hBefore : before ≠ []) (hAfter : after ≠ []) :
    join x (before ++ after) = join x before ++ x :: join x after := by
  induction before with
  | nil => exact absurd rfl hBefore
  | cons t before ih =>
    rw [List.cons_append, join_cons t (List.append_ne_nil_of_right_ne_nil before hAfter)]
    by_cases hRest : before = []
    · rw [hRest, List.nil_append, join_singleton]
    · rw [ih hRest, join_cons t hRest, List.append_assoc, List.cons_append]

/-- A text that begins in one token, runs through a second and ends in a third occurs where the second
token is. -/
theorem eq_join_of_occurs (hTokens : ∀ t ∈ before ++ b :: after, x ∉ t) (hBefore : b ∉ before) (hAfter : b ∉ after)
    (hOccurs : join x (before ++ b :: after) = u ++ (a ++ x :: b ++ x :: c) ++ v) : join x before = u ++ a := by
  have hb : x ∉ b := hTokens b (List.mem_append_right _ List.mem_cons_self)
  have hSplit : before ++ b :: after = (u ++ a).splitOn x ++ b :: (c ++ v).splitOn x := by
    rw [← split_join hTokens (List.append_ne_nil_of_right_ne_nil before (List.cons_ne_nil b after)), hOccurs]
    have hAssoc : u ++ (a ++ x :: b ++ x :: c) ++ v = (u ++ a) ++ x :: (b ++ x :: (c ++ v)) := by
      simp only [List.append_assoc, List.cons_append]
    rw [hAssoc, List.splitOn_append_cons_self, List.splitOn_append_cons_self_of_not_mem hb]
  obtain ⟨hEq, -, -⟩ := (List.append_cons_inj_of_notMem hBefore hAfter).mp hSplit
  rw [hEq, join_split]

end Text
