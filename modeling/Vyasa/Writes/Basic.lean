import Mathlib

/-! Writes one after the other, where the address of each is computed in the memory that it
finds, and when they amount to one write of everything at once. -/
namespace Writes

variable {ι A V : Type} [DecidableEq A]

/-- The memory after the writes. -/
def run (addr : ι → (A → V) → A) (val : ι → (A → V) → V) (l : List ι) (m : A → V) : A → V :=
  l.foldl (fun m i => Function.update m (addr i m) (val i m)) m

/-- The values are in their places, and there is no other change. -/
def Assigns (place : ι → A) (val : ι → V) (l : List ι) (m m' : A → V) : Prop :=
  (∀ i ∈ l, m' (place i) = val i) ∧ ∀ a, (∀ i ∈ l, a ≠ place i) → m' a = m a

variable {place : ι → A} {val : ι → V} {addr : ι → (A → V) → A} {l : List ι} {m m' m'' : A → V}
  {region : ι → Set A} {i : ι}

theorem run_cons (addr : ι → (A → V) → A) (val : ι → (A → V) → V) (i : ι) (l : List ι) (m : A → V) :
    run addr val (i :: l) m = run addr val l (Function.update m (addr i m) (val i m)) :=
  rfl

theorem run_concat (addr : ι → (A → V) → A) (val : ι → (A → V) → V) (l : List ι) (i : ι) (m : A → V) :
    run addr val (l ++ [i]) m =
      Function.update (run addr val l m) (addr i (run addr val l m)) (val i (run addr val l m)) :=
  List.foldl_concat ..

/-- A place that no write is at keeps its value. -/
theorem run_of_ne {a : A} {val : ι → (A → V) → V} (h : ∀ i ∈ l, ∀ m, a ≠ addr i m) :
    run addr val l m a = m a := by
  induction l generalizing m with
  | nil => rfl
  | cons i l ih =>
    rw [run, List.foldl_cons]
    refine (ih fun j hj => h j (List.mem_cons_of_mem _ hj)).trans ?_
    exact Function.update_of_ne (h i List.mem_cons_self m) _ _

omit [DecidableEq A] in
theorem Assigns.unique (h : Assigns place val l m m') (h' : Assigns place val l m m'') : m' = m'' := by
  funext a
  by_cases ha : ∃ i ∈ l, a = place i
  · obtain ⟨i, hi, rfl⟩ := ha
    rw [h.1 i hi, h'.1 i hi]
  · push Not at ha
    rw [h.2 a ha, h'.2 a ha]

/-- Where no write changes what a later one depends on, the values are those at the start. -/
theorem run_fixed {val : ι → (A → V) → V} (hUnread : ∀ i ∈ l, ∀ m', (∀ a, (∀ j ∈ l, a ≠ addr j m) → m' a = m a) →
    addr i m' = addr i m ∧ val i m' = val i m) : run addr val l m = run addr (fun i _ => val i m) l m := by
  suffices h : ∀ (rest : List ι) (m' : A → V), rest ⊆ l → (∀ a, (∀ j ∈ l, a ≠ addr j m) → m' a = m a) →
      run addr val rest m' = run addr (fun i _ => val i m) rest m' from h l m (List.Subset.refl l) fun _ _ => rfl
  intro rest
  induction rest with
  | nil => exact fun _ _ _ => rfl
  | cons i rest ih =>
    intro m' hRest hAgree
    have hi : i ∈ l := hRest List.mem_cons_self
    obtain ⟨hAddr, hVal⟩ := hUnread i hi m' hAgree
    rw [run, run, List.foldl_cons, List.foldl_cons, hVal]
    refine ih _ (fun j hj => hRest (List.mem_cons_of_mem _ hj)) fun a ha => ?_
    rw [hAddr, Function.update_of_ne (ha i hi)]
    exact hAgree a ha

/-- One more write, in a region that the ones before leave alone. -/
theorem assigns_concat_iff (place : ι → A) {R : Set A} {b : A} {v : V} (hHere : place i ∈ R) (hThere : b ∈ R)
    (hOther : ∀ j ∈ l, place j ∉ R) (hKept : ∀ a ∈ R, m' a = m a) (hVal : val i = v) :
    Assigns place val (l ++ [i]) m (Function.update m' b v) ↔
      Assigns place val l m m' ∧ (b = place i ∨ (m (place i) = v ∧ m b = v)) := by
  have hNe (j : ι) (hj : j ∈ l) : place j ≠ b := fun hEq => hOther j hj (hEq ▸ hThere)
  have hi : i ∈ l ++ [i] := List.mem_append_right _ List.mem_cons_self
  constructor
  · rintro ⟨hWritten, hElse⟩
    refine ⟨⟨fun j hj => ?_, fun a ha => ?_⟩, ?_⟩
    · rw [← hWritten j (List.mem_append_left _ hj), Function.update_of_ne (hNe j hj)]
    · by_cases hIn : a ∈ R
      · exact hKept a hIn
      · have hNot : a ≠ b := fun hEq => hIn (hEq ▸ hThere)
        rw [← hElse a, Function.update_of_ne hNot]
        intro j hj hEq
        rcases List.mem_append.mp hj with hj | hj
        · exact ha j hj hEq
        · rw [List.mem_singleton.mp hj] at hEq
          exact hIn (hEq ▸ hHere)
    · by_cases hEq : b = place i
      · exact Or.inl hEq
      · refine Or.inr ⟨?_, ?_⟩
        · rw [← hKept _ hHere, ← hVal, ← hWritten i hi, Function.update_of_ne (Ne.symm hEq)]
        · rw [← hElse b, Function.update_self]
          intro j hj
          rcases List.mem_append.mp hj with hj | hj
          · exact (hNe j hj).symm
          · rwa [List.mem_singleton.mp hj]
  · rintro ⟨⟨hWritten, hElse⟩, hLast⟩
    refine ⟨fun j hj => ?_, fun a ha => ?_⟩
    · rcases List.mem_append.mp hj with hj | hj
      · rw [Function.update_of_ne (hNe j hj), hWritten j hj]
      · rw [List.mem_singleton.mp hj, hVal]
        by_cases hEq : place i = b
        · rw [hEq, Function.update_self]
        · rw [Function.update_of_ne hEq, hKept _ hHere]
          exact (hLast.resolve_left fun h => hEq h.symm).1
    · have hSame := hElse a fun j hj => ha j (List.mem_append_left _ hj)
      by_cases hEq : a = b
      · rw [hEq, Function.update_self]
        exact (hLast.resolve_left fun h => ha i hi (hEq.trans h)).2.symm
      · rw [Function.update_of_ne hEq, hSame]

/-- Each write stays in a region of its own: then they are one assignment if and only if no
write moves a later one, unless the value is there already, at both places. -/
theorem assigns_run_iff (addr : ι → (A → V) → A) (region : ι → Set A) (hNodup : l.Nodup) (hRegion : ∀ i ∈ l, ∀ m, addr i m ∈ region i)
    (hDisjoint : ∀ i ∈ l, ∀ j ∈ l, i ≠ j → Disjoint (region i) (region j)) :
    Assigns (addr · m) val l m (run addr (fun i _ => val i) l m) ↔
      ∀ before i after, l = before ++ i :: after → ∀ m', Assigns (addr · m) val before m m' →
        addr i m' = addr i m ∨ (m (addr i m) = val i ∧ m (addr i m') = val i) := by
  induction l using List.reverseRecOn with
  | nil => exact iff_of_true ⟨nofun, fun _ _ => rfl⟩ fun before i after h => by simp at h
  | append_singleton init i ih =>
    obtain ⟨hInit, -, hNotMem⟩ := List.nodup_append.mp hNodup
    have hLeft (j : ι) (hj : j ∈ init) : j ∈ init ++ [i] := List.mem_append_left _ hj
    have hi : i ∈ init ++ [i] := List.mem_append_right _ List.mem_cons_self
    have ih := ih hInit (fun j hj => hRegion j (hLeft j hj)) fun j hj k hk =>
      hDisjoint j (hLeft j hj) k (hLeft k hk)
    have hOther (j : ι) (hj : j ∈ init) (m' : A → V) : addr j m' ∉ region i :=
      Set.disjoint_left.mp (hDisjoint j (hLeft j hj) i hi (hNotMem j hj i List.mem_cons_self))
        (hRegion j (hLeft j hj) m')
    have hKept (a : A) (ha : a ∈ region i) : run addr (fun i _ => val i) init m a = m a := by
      refine run_of_ne fun j hj m' hEq => ?_
      exact hOther j hj m' (hEq ▸ ha)
    rw [run_concat, assigns_concat_iff (addr · m) (hRegion i hi m) (hRegion i hi _)
      (fun j hj => hOther j hj m) hKept rfl]
    constructor
    · rintro ⟨hBefore, hLast⟩ before k after hSplit m' hAssigns
      rcases List.eq_nil_or_concat after with rfl | ⟨after, last, rfl⟩
      · obtain ⟨rfl, hEq⟩ := List.append_inj' hSplit rfl
        obtain rfl := List.singleton_inj.mp hEq
        rwa [hAssigns.unique hBefore]
      · rw [List.concat_eq_append, ← List.cons_append, ← List.append_assoc] at hSplit
        obtain ⟨rfl, -⟩ := List.append_inj' hSplit rfl
        exact ih.mp hBefore before k after rfl m' hAssigns
    · intro hCondition
      have hBefore := ih.mpr fun before k after hSplit =>
        hCondition before k (after ++ [i]) (by rw [hSplit, List.append_assoc, List.cons_append])
      exact ⟨hBefore, hCondition init i [] rfl _ hBefore⟩

/-- At places that are fixed and different, the writes are one assignment. -/
theorem assigns_run (hNodup : (l.map place).Nodup) :
    Assigns place val l m (run (fun i _ => place i) (fun i _ => val i) l m) := by
  refine (assigns_run_iff (fun i _ => place i) (fun i => {place i}) hNodup.of_map
    (fun _ _ _ => rfl) fun i hi j hj hNe => ?_).mpr fun _ _ _ _ _ _ => Or.inl rfl
  refine Set.disjoint_left.mpr fun a ha hb => hNe ?_
  exact List.inj_on_of_nodup_map hNodup hi hj (ha.symm.trans hb)

end Writes
