import Mathlib.Data.List.Forall2
import Mathlib.Data.List.Perm.Basic

/-! Lists that are related element by element, as a list is to what it is mapped to,
and the distribution of a list over numbered buckets. -/
namespace Pointwise

variable {α β γ : Type} {R : α → β → Prop} {as : List α} {bs : List β} {a : α} {b : β}

/-- What a list is mapped to, one element after the other. -/
theorem of_mapM {f : α → Option β} (h : as.mapM f = some bs) :
    List.Forall₂ (fun a b => f a = some b) as bs := by
  induction as generalizing bs with
  | nil =>
    rw [List.mapM_nil] at h
    cases h
    exact List.Forall₂.nil
  | cons a as ih =>
    rw [List.mapM_cons] at h
    obtain ⟨b, hb, h⟩ := Option.bind_eq_some_iff.mp h
    obtain ⟨rest, hRest, h⟩ := Option.bind_eq_some_iff.mp h
    cases h
    exact List.Forall₂.cons hb (ih hRest)

theorem zipIdx (h : List.Forall₂ R as bs) (k : Nat) :
    List.Forall₂ (fun p q => R p.1 q.1 ∧ p.2 = q.2) (as.zipIdx k) (bs.zipIdx k) := by
  induction h generalizing k with
  | nil => exact List.Forall₂.nil
  | cons hHead _ ih => exact List.Forall₂.cons ⟨hHead, rfl⟩ (ih (k + 1))

theorem exists_left (h : List.Forall₂ R as bs) (hb : b ∈ bs) : ∃ a ∈ as, R a b := by
  induction h with
  | nil => cases hb
  | @cons a b' as bs hHead _ ih =>
    rcases List.mem_cons.mp hb with rfl | hb
    · exact ⟨a, List.mem_cons_self, hHead⟩
    · obtain ⟨a', ha', hR⟩ := ih hb
      exact ⟨a', List.mem_cons_of_mem _ ha', hR⟩

theorem exists_right (h : List.Forall₂ R as bs) (ha : a ∈ as) : ∃ b ∈ bs, R a b :=
  exists_left h.flip ha

/-- A quantity that related elements share. -/
theorem map_eq {f : α → γ} {g : β → γ} (h : List.Forall₂ R as bs) (hEq : ∀ a b, R a b → f a = g b) :
    as.map f = bs.map g := by
  induction h with
  | nil => rfl
  | cons hHead _ ih => rw [List.map_cons, List.map_cons, hEq _ _ hHead, ih]

/-- Each element is replaced by one that it determines together with an element of another
list. -/
theorem zipWith {δ : Type} {R' : γ → β → Prop} {f : α → δ → γ} {cs : List δ} (h : List.Forall₂ R as bs)
    (hLength : as.length = cs.length) (hStep : ∀ a ∈ as, ∀ c ∈ cs, ∀ b, R a b → R' (f a c) b) :
    List.Forall₂ R' (as.zipWith f cs) bs := by
  induction h generalizing cs with
  | nil => exact List.Forall₂.nil
  | @cons a b as bs hHead _ ih =>
    cases cs with
    | nil => cases hLength
    | cons c cs =>
      refine List.Forall₂.cons (hStep a List.mem_cons_self c List.mem_cons_self b hHead) ?_
      exact ih (Nat.succ.inj hLength) fun a' ha' c' hc' =>
        hStep a' (List.mem_cons_of_mem _ ha') c' (List.mem_cons_of_mem _ hc')

theorem exists_of_mem_zipWith {f : α → β → γ} {c : γ} (h : c ∈ as.zipWith f bs) :
    ∃ a ∈ as, ∃ b ∈ bs, c = f a b := by
  rw [← List.map_uncurry_zip_eq_zipWith] at h
  obtain ⟨⟨a, b⟩, hMem, rfl⟩ := List.mem_map.mp h
  obtain ⟨ha, hb⟩ := List.of_mem_zip hMem
  exact ⟨a, ha, b, hb, rfl⟩

/-- The result where every element has at most one. -/
theorem eq_map_of_mapM {f : α → Option β} {g : α → β} (h : as.mapM f = some bs)
    (hAll : ∀ a ∈ as, ∀ b, f a = some b → b = g a) : bs = as.map g := by
  induction as generalizing bs with
  | nil =>
    rw [List.mapM_nil] at h
    cases h
    rfl
  | cons a as ih =>
    rw [List.mapM_cons] at h
    obtain ⟨b, hb, h⟩ := Option.bind_eq_some_iff.mp h
    obtain ⟨rest, hRest, h⟩ := Option.bind_eq_some_iff.mp h
    cases h
    rw [List.map_cons, hAll a List.mem_cons_self b hb,
      ih hRest fun a' ha' => hAll a' (List.mem_cons_of_mem _ ha')]

/-- Nothing fails where nothing fails for an element. -/
theorem exists_mapM {f : α → Option β} : ∀ {l : List α}, (∀ a ∈ l, ∃ b, f a = some b) →
    ∃ bs, l.mapM f = some bs
  | [], _ => ⟨[], List.mapM_nil⟩
  | a :: as, h => by
    rw [List.forall_mem_cons] at h
    obtain ⟨b, hb⟩ := h.1
    obtain ⟨bs, hbs⟩ := exists_mapM h.2
    exact ⟨b :: bs, by rw [List.mapM_cons, hb, hbs]; rfl⟩

theorem mapM_eq_map {f : α → Option β} {g : α → β} (h : ∀ a ∈ as, f a = some (g a)) :
    as.mapM f = some (as.map g) := by
  obtain ⟨bs, hbs⟩ := exists_mapM fun a ha => ⟨g a, h a ha⟩
  rw [hbs, eq_map_of_mapM hbs fun a ha b hb => Option.some.inj (hb.symm.trans (h a ha))]

/-- The elements of a list that is made by number. -/
theorem getElem?_of_mapM_range {f : Nat → Option β} {n : Nat} (h : (List.range n).mapM f = some bs) :
    bs.length = n ∧ ∀ i < n, bs[i]? = f i := by
  have hAll := of_mapM h
  have hLength : bs.length = n := hAll.length_eq.symm.trans List.length_range
  refine ⟨hLength, fun i hi => ?_⟩
  have hGet := List.forall₂_iff_get.mp hAll
  have hf := hGet.2 i (by rwa [List.length_range]) (hLength ▸ hi)
  rw [List.getElem?_eq_getElem (hLength ▸ hi)]
  simpa only [List.get_eq_getElem, List.getElem_range] using hf.symm

/-- Something chosen for each pair of related elements. -/
theorem choose {S : α → β → γ → Prop} (h : List.Forall₂ R as bs) (hAll : ∀ a b, R a b → ∃ c, S a b c) :
    ∃ cs : List (β × γ), cs.map Prod.fst = bs ∧ List.Forall₂ (fun a p => S a p.1 p.2) as cs := by
  induction h with
  | nil => exact ⟨[], rfl, List.Forall₂.nil⟩
  | @cons a b as bs hHead _ ih =>
    obtain ⟨c, hc⟩ := hAll a b hHead
    obtain ⟨cs, rfl, hRest⟩ := ih
    exact ⟨(b, c) :: cs, rfl, List.Forall₂.cons hc hRest⟩

theorem flatMap_range_ite (n k : Nat) (a : α) :
    ((List.range n).flatMap fun i => if k = i then [a] else []) = if k < n then [a] else [] := by
  induction n with
  | zero => rfl
  | succ n ih =>
    rw [List.range_succ, List.flatMap_append, ih, List.flatMap_singleton]
    rcases Nat.lt_trichotomy k n with hLess | rfl | hLess
    · rw [if_pos hLess, if_neg (Nat.ne_of_lt hLess), if_pos (by omega), List.append_nil]
    · rw [if_neg (Nat.lt_irrefl k), if_pos rfl, if_pos (by omega), List.nil_append]
    · rw [if_neg (by omega), if_neg (by omega), if_neg (by omega), List.append_nil]

/-- A list is a permutation of its buckets, where every element has one. -/
theorem buckets_perm (key : α → Nat) {n : Nat} (h : ∀ a ∈ as, key a < n) :
    ((List.range n).flatMap fun i => as.filter (key · = i)).Perm as := by
  induction as with
  | nil => simp
  | cons a as ih =>
    have hSplit : ∀ i, (a :: as).filter (key · = i) =
        (if key a = i then [a] else []) ++ as.filter (key · = i) := by
      intro i
      rw [List.filter_cons]
      split_ifs with hKey hKey' hKey' <;> simp_all
    have hTail := ih fun b hb => h b (List.mem_cons_of_mem _ hb)
    simp only [hSplit]
    refine (List.flatMap_append_perm _ _ _).symm.trans ?_
    rw [flatMap_range_ite, if_pos (h a List.mem_cons_self)]
    exact List.Perm.cons a hTail

end Pointwise
