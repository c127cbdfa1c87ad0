import Vyasa.Hashmap.Shape

/-! Pruning while every entry is in use, and the clean-up; which copies of values are destroyed. -/
namespace Vyasa.Hashmap

open Linked

variable {α : Type} {s s' : HashMap α} {recency l : List Addr} {a b : Addr} {e : Contents α} {head : Option Addr}

/-! ### Pruning -/

/-- Entries that are in use are passed over. -/
theorem pruneFrom_eq (hChain : Chain s.more_recent none head l)
    (hInUse : ∀ a ∈ l, ∃ e, s.contents a = some e ∧ e.in_use_count ≠ 0) {fuel : ℕ} (hFuel : l.length < fuel) :
    s.pruneFrom fuel head = .ok s := by
  induction l generalizing head fuel with
  | nil =>
    obtain rfl : head = none := hChain
    obtain ⟨fuel, rfl⟩ := Nat.exists_eq_succ_of_ne_zero (Nat.ne_zero_of_lt hFuel)
    rw [HashMap.pruneFrom]
    split <;> rfl
  | cons a l ih =>
    obtain ⟨rfl, hRest⟩ := hChain
    obtain ⟨e, he, hCount⟩ := hInUse a List.mem_cons_self
    obtain ⟨fuel, rfl⟩ := Nat.exists_eq_succ_of_ne_zero (Nat.ne_zero_of_lt hFuel)
    rw [HashMap.pruneFrom]
    split
    · simp only [HashMap.deref_eq he, bind, Except.bind, hCount, if_false]
      exact ih hRest (fun b hb => hInUse b (List.mem_cons_of_mem a hb)) (Nat.lt_of_succ_lt_succ hFuel)
    · rfl

theorem prune_eq (h : Shaped s recency) (hInUse : ∀ a e, s.contents a = some e → e.in_use_count ≠ 0) {fuel : ℕ}
    (hFuel : recency.length < fuel) : s.prune fuel = .ok s := by
  refine pruneFrom_eq h.list.chain_reverse (fun a ha => ?_) (by rwa [List.length_reverse])
  obtain ⟨e, he⟩ := h.entry (List.mem_reverse.mp ha)
  exact ⟨e, he, hInUse a e he⟩

/-- Also where a new entry has been allocated. -/
theorem prune_allocated (h : Shaped s recency) (hInUse : ∀ a e, s.contents a = some e → e.in_use_count ≠ 0)
    {new_entry : Addr} (hFresh : s.contents new_entry = none) (e : Contents α) {fuel : ℕ}
    (hFuel : recency.length < fuel) : (allocated s new_entry e).prune fuel = .ok (allocated s new_entry e) := by
  have hNe : ∀ a ∈ recency, a ≠ new_entry := by
    rintro a ha rfl
    exact (h.live a).mpr ha hFresh
  have hChain : Chain (allocated s new_entry e).more_recent none s.least_recently_used recency.reverse :=
    h.list.chain_reverse.congr fun a ha => Function.update_of_ne (hNe a (List.mem_reverse.mp ha)) _ _
  refine pruneFrom_eq hChain (fun a ha => ?_) (by rwa [List.length_reverse])
  obtain ⟨d, hd⟩ := h.entry (List.mem_reverse.mp ha)
  refine ⟨d, ?_, hInUse a d hd⟩
  rw [← hd]
  exact Function.update_of_ne (hNe a (List.mem_reverse.mp ha)) _ _

/-! ### Copies -/

/-- Of the copies made so far each is held by one entry, or has been destroyed once. -/
structure Owned (copy : Addr → Option ℕ) (copies : ℕ) (destroyed : List ℕ) : Prop where
  nodup : destroyed.Nodup
  lt : ∀ c ∈ destroyed, c < copies
  held : ∀ a c, copy a = some c → c < copies ∧ c ∉ destroyed
  injective : ∀ a b c, copy a = some c → copy b = some c → a = b
  all : ∀ c < copies, c ∈ destroyed ∨ ∃ a, copy a = some c

namespace Owned

variable {copy : Addr → Option ℕ} {copies c : ℕ} {destroyed : List ℕ}

theorem none : Owned (fun _ => none) 0 [] where
  nodup := List.nodup_nil
  lt _ h := absurd h List.not_mem_nil
  held _ c h := absurd h (Option.some_ne_none c).symm
  injective _ _ c h := absurd h (Option.some_ne_none c).symm
  all c h := absurd h (Nat.not_lt_zero c)

theorem destroy (h : Owned copy copies destroyed) (ha : copy a = some c) :
    Owned (Function.update copy a Option.none) copies (destroyed ++ [c]) := by
  obtain ⟨hLt, hNotMem⟩ := h.held a c ha
  have hKept {b : Addr} {d : ℕ} (hb : Function.update copy a Option.none b = some d) : b ≠ a ∧ copy b = some d := by
    by_cases hEq : b = a
    · rw [hEq, Function.update_self] at hb
      exact absurd hb (Option.some_ne_none d).symm
    · rw [Function.update_of_ne hEq] at hb
      exact ⟨hEq, hb⟩
  refine ⟨?_, fun d hd => ?_, fun b d hb => ?_, fun b b' d hb hb' => ?_, fun d hd => ?_⟩
  · rw [List.nodup_append]
    refine ⟨h.nodup, List.nodup_singleton c, ?_⟩
    rintro d hd _ hc rfl
    exact hNotMem (List.mem_singleton.mp hc ▸ hd)
  · rcases List.mem_append.mp hd with hd | hd
    · exact h.lt d hd
    · exact List.mem_singleton.mp hd ▸ hLt
  · obtain ⟨hNe, hb⟩ := hKept hb
    obtain ⟨hLt, hNot⟩ := h.held b d hb
    refine ⟨hLt, ?_⟩
    rw [List.mem_append, List.mem_singleton, not_or]
    refine ⟨hNot, ?_⟩
    rintro rfl
    exact hNe (h.injective b a d hb ha)
  · exact h.injective b b' d (hKept hb).2 (hKept hb').2
  · rcases h.all d hd with hMem | ⟨b, hb⟩
    · exact Or.inl (List.mem_append_left _ hMem)
    · by_cases hEq : b = a
      · rw [hEq, ha] at hb
        exact Or.inl (List.mem_append_right _ (List.mem_singleton.mpr (Option.some.inj hb).symm))
      · exact Or.inr ⟨b, by rw [Function.update_of_ne hEq, hb]⟩

theorem make (h : Owned copy copies destroyed) (ha : copy a = Option.none) :
    Owned (Function.update copy a (some copies)) (copies + 1) destroyed := by
  have hCase {b : Addr} {d : ℕ} (hb : Function.update copy a (some copies) b = some d) :
      (b = a ∧ d = copies) ∨ (b ≠ a ∧ copy b = some d) := by
    by_cases hEq : b = a
    · rw [hEq, Function.update_self] at hb
      exact Or.inl ⟨hEq, (Option.some.inj hb).symm⟩
    · rw [Function.update_of_ne hEq] at hb
      exact Or.inr ⟨hEq, hb⟩
  refine ⟨h.nodup, fun d hd => (h.lt d hd).trans (Nat.lt_succ_self _), fun b d hb => ?_, fun b b' d hb hb' => ?_,
    fun d hd => ?_⟩
  · rcases hCase hb with ⟨-, rfl⟩ | ⟨-, hb⟩
    · exact ⟨Nat.lt_succ_self _, fun hMem => lt_irrefl _ (h.lt _ hMem)⟩
    · obtain ⟨hLt, hNot⟩ := h.held b d hb
      exact ⟨hLt.trans (Nat.lt_succ_self _), hNot⟩
  · rcases hCase hb with ⟨hEq, hd⟩ | ⟨-, hb⟩ <;> rcases hCase hb' with ⟨hEq', hd'⟩ | ⟨-, hb'⟩
    · rw [hEq, hEq']
    · exact absurd (h.held b' d hb').1 (by omega)
    · exact absurd (h.held b d hb).1 (by omega)
    · exact h.injective b b' d hb hb'
  · rcases Nat.lt_succ_iff_lt_or_eq.mp hd with hd | rfl
    · rcases h.all d hd with hMem | ⟨b, hb⟩
      · exact Or.inl hMem
      · refine Or.inr ⟨b, ?_⟩
        rw [Function.update_of_ne, hb]
        rintro rfl
        rw [ha] at hb
        exact absurd hb (Option.some_ne_none d).symm
    · exact Or.inr ⟨a, Function.update_self _ _ _⟩

/-- When no entry is left, each copy has been destroyed exactly once. -/
theorem count_eq_one (h : Owned copy copies destroyed) (hNone : ∀ a, copy a = Option.none) (hc : c < copies) :
    destroyed.count c = 1 := by
  rcases h.all c hc with hMem | ⟨a, ha⟩
  · exact List.count_eq_one_of_mem h.nodup hMem
  · rw [hNone a] at ha
    exact absurd ha (Option.some_ne_none c).symm

end Owned

/-- The numbers of the copies that entries hold. -/
def copyOf (contents : Addr → Option (Contents α)) (a : Addr) : Option ℕ := (contents a).map Contents.copy

theorem copyOf_update (contents : Addr → Option (Contents α)) (a : Addr) (e : Option (Contents α)) :
    copyOf (Function.update contents a e) = Function.update (copyOf contents) a (e.map Contents.copy) := by
  funext b
  by_cases hb : b = a
  · rw [hb, Function.update_self, copyOf, Function.update_self]
  · rw [Function.update_of_ne hb, copyOf, copyOf, Function.update_of_ne hb]

/-! ### The clean-up -/

def erase (contents : Addr → Option (Contents α)) (l : List Addr) (a : Addr) : Option (Contents α) :=
  if a ∈ l then none else contents a

theorem cleanChain_spec (hChain : Chain s.next none head l) (hNodup : l.Nodup) (hLive : ∀ a ∈ l, s.contents a ≠ none)
    (hOwned : Owned (copyOf s.contents) s.copies s.destroyed) :
    ∃ D, (∀ fuel, l.length < fuel →
        s.cleanChain fuel head = .ok { s with contents := erase s.contents l, destroyed := D }) ∧
      Owned (copyOf (erase s.contents l)) s.copies D := by
  induction l generalizing s head with
  | nil =>
    obtain rfl : head = none := hChain
    have hSame : erase s.contents [] = s.contents := funext fun a => if_neg List.not_mem_nil
    refine ⟨s.destroyed, fun fuel hFuel => ?_, by rw [hSame]; exact hOwned⟩
    obtain ⟨fuel, rfl⟩ := Nat.exists_eq_succ_of_ne_zero (Nat.ne_zero_of_lt hFuel)
    rw [hSame]
    rfl
  | cons x l ih =>
    obtain ⟨rfl, hRest⟩ := hChain
    obtain ⟨hNotIn, hNodup⟩ := List.nodup_cons.mp hNodup
    obtain ⟨e, he⟩ := Option.ne_none_iff_exists'.mp (hLive x List.mem_cons_self)
    have hOwned' : Owned (copyOf (Function.update s.contents x none)) s.copies (s.destroyed ++ [e.copy]) := by
      rw [copyOf_update]
      exact hOwned.destroy (by rw [copyOf, he]; rfl)
    obtain ⟨D, hClean, hLast⟩ := ih (s := { s with
      contents := Function.update s.contents x none, destroyed := s.destroyed ++ [e.copy] }) hRest hNodup
      (fun y hy => by
        show Function.update s.contents x none y ≠ none
        rw [Function.update_of_ne (ne_of_mem_of_not_mem hy hNotIn)]
        exact hLive y (List.mem_cons_of_mem x hy)) hOwned'
    have hErase : erase (Function.update s.contents x none) l = erase s.contents (x :: l) := by
      funext b
      by_cases hb : b = x
      · rw [hb, erase, erase, if_neg hNotIn, Function.update_self, if_pos List.mem_cons_self]
      · rw [erase, erase, Function.update_of_ne hb]
        simp only [List.mem_cons, hb, false_or]
    refine ⟨D, fun fuel hFuel => ?_, by rw [← hErase]; exact hLast⟩
    obtain ⟨fuel, rfl⟩ := Nat.exists_eq_succ_of_ne_zero (Nat.ne_zero_of_lt hFuel)
    rw [HashMap.cleanChain]
    simp only [HashMap.destroy, HashMap.deref_eq he, bind, Except.bind, pure, Except.pure]
    rw [hClean fuel (Nat.lt_of_succ_lt_succ hFuel), hErase]

/-- The chain of an index holds the entries whose hash leads there. -/
def Indexed (s : HashMap α) (i : ℕ) (n : ℕ) : Prop :=
  ∃ l, Chain s.next none (s.cache_entries i) l ∧ l.Nodup ∧ l.length ≤ n ∧
    ∀ a, a ∈ l ↔ ∃ e, s.contents a = some e ∧ e.hash % kHashTableSize = i

theorem Shaped.indexed (h : Shaped s recency) {i : ℕ} (hi : i < kHashTableSize) : Indexed s i recency.length := by
  obtain ⟨l, hChain, hNodup, hMem⟩ := h.chain i hi
  exact ⟨l, hChain, hNodup, h.length_chain hNodup hMem, hMem⟩

/-- What is left when the chains of some indices have been freed. -/
def emptied (contents : Addr → Option (Contents α)) (indices : List ℕ) (a : Addr) : Option (Contents α) :=
  (contents a).filter fun e => e.hash % kHashTableSize ∉ indices

theorem emptied_cons {i : ℕ} (contents : Addr → Option (Contents α)) (indices : List ℕ)
    (hMem : ∀ a, a ∈ l ↔ ∃ e, contents a = some e ∧ e.hash % kHashTableSize = i) :
    emptied (erase contents l) indices = emptied contents (i :: indices) := by
  funext a
  rw [emptied, emptied, erase]
  cases ha : contents a with
  | none => rw [ite_self, Option.filter_none, Option.filter_none]
  | some e =>
    have hIn : a ∈ l ↔ e.hash % kHashTableSize = i := by
      rw [hMem a]
      constructor
      · rintro ⟨d, hd, hHash⟩
        rw [ha] at hd
        rwa [Option.some.inj hd]
      · exact fun hHash => ⟨e, ha, hHash⟩
    by_cases hl : a ∈ l
    · rw [if_pos hl, Option.filter_none, Option.filter_some_neg]
      simp [hIn.mp hl]
    · have hNe : e.hash % kHashTableSize ≠ i := fun hEq => hl (hIn.mpr hEq)
      rw [if_neg hl, Option.filter_some, Option.filter_some]
      simp only [List.mem_cons, hNe, false_or]

theorem cleanChains_spec {indices : List ℕ} {n : ℕ} (hNodup : indices.Nodup)
    (hIndexed : ∀ i ∈ indices, Indexed s i n) (hOwned : Owned (copyOf s.contents) s.copies s.destroyed) :
    ∃ D table, (∀ fuel, n < fuel → indices.foldlM (fun s i =>
        { s with cache_entries := Function.update s.cache_entries i none }.cleanChain fuel (s.cache_entries i)) s =
          Except.ok { s with contents := emptied s.contents indices, cache_entries := table, destroyed := D }) ∧
      (∀ i, table i = if i ∈ indices then none else s.cache_entries i) ∧
      Owned (copyOf (emptied s.contents indices)) s.copies D := by
  induction indices generalizing s with
  | nil =>
    have hSame : emptied s.contents [] = s.contents := by
      funext a
      rw [emptied]
      cases s.contents a <;> simp
    exact ⟨s.destroyed, s.cache_entries, fun fuel _ => by rw [hSame]; rfl, fun i => (if_neg List.not_mem_nil).symm,
      by rwa [hSame]⟩
  | cons i indices ih =>
    obtain ⟨hFresh, hNodup⟩ := List.nodup_cons.mp hNodup
    obtain ⟨l, hChain, hNodupL, hLength, hMem⟩ := hIndexed i List.mem_cons_self
    have hChainLive : ∀ a ∈ l, s.contents a ≠ none := by
      intro a ha
      obtain ⟨e, he, -⟩ := (hMem a).mp ha
      rw [he]
      exact Option.some_ne_none e
    obtain ⟨D₁, hClean, hOwned₁⟩ := cleanChain_spec
      (s := { s with cache_entries := Function.update s.cache_entries i none }) hChain hNodupL hChainLive hOwned
    have hRest : ∀ j ∈ indices, Indexed { s with
        contents := erase s.contents l, cache_entries := Function.update s.cache_entries i none, destroyed := D₁ } j n := by
      intro j hj
      obtain ⟨l', hChain', hNodup', hLength', hMem'⟩ := hIndexed j (List.mem_cons_of_mem i hj)
      have hNe : j ≠ i := ne_of_mem_of_not_mem hj hFresh
      refine ⟨l', ?_, hNodup', hLength', fun a => ?_⟩
      · show Chain s.next none (Function.update s.cache_entries i none j) l'
        rwa [Function.update_of_ne hNe]
      · rw [hMem' a]
        show (∃ e, s.contents a = some e ∧ _) ↔ ∃ e, erase s.contents l a = some e ∧ _
        rw [erase]
        split
        · next hl =>
          obtain ⟨d, hd, hHash⟩ := (hMem a).mp hl
          rw [hd]
          constructor
          · rintro ⟨e, he, hHash'⟩
            rw [Option.some.inj he, hHash'] at hHash
            exact absurd hHash hNe
          · rintro ⟨e, he, -⟩
            exact absurd he (Option.some_ne_none e).symm
        · rfl
    obtain ⟨D, table, hEq, hTable, hLast⟩ := ih hNodup hRest hOwned₁
    rw [← emptied_cons s.contents indices hMem]
    refine ⟨D, table, fun fuel hFuel => ?_, fun j => ?_, hLast⟩
    · rw [List.foldlM_cons, hClean fuel (by omega)]
      exact hEq fuel hFuel
    · rw [hTable j]
      show (if j ∈ indices then none else Function.update s.cache_entries i none j) = _
      by_cases hj : j = i
      · rw [hj, Function.update_self, ite_self, if_pos List.mem_cons_self]
      · rw [Function.update_of_ne hj]
        simp only [List.mem_cons, hj, false_or]

theorem Shaped.empty (hContents : ∀ a, s.contents a = none) (hTable : ∀ i < kHashTableSize, s.cache_entries i = none)
    (hMru : s.most_recently_used = none) (hLru : s.least_recently_used = none) : Shaped s [] where
  list := ⟨hMru, hLru⟩
  nodup := List.nodup_nil
  live a := iff_of_false (not_not.mpr (hContents a)) List.not_mem_nil
  chain i hi := by
    refine ⟨[], hTable i hi, List.nodup_nil, fun a => iff_of_false List.not_mem_nil ?_⟩
    rintro ⟨e, he, -⟩
    rw [hContents a] at he
    exact absurd he (Option.some_ne_none e).symm

/-- The clean-up destroys what is left, and leaves an empty map. -/
theorem cleanup_spec (h : Shaped s recency) (hOwned : Owned (copyOf s.contents) s.copies s.destroyed) :
    ∃ s', (∀ fuel, recency.length < fuel → s.cleanup fuel = .ok s') ∧ Shaped s' [] ∧ (∀ a, s'.contents a = none) ∧
      Owned (copyOf s'.contents) s'.copies s'.destroyed ∧ s'.current_cache_size = 0 ∧
      s'.max_cache_size = s.max_cache_size := by
  obtain ⟨D, table, hEq, hTable, hLast⟩ := cleanChains_spec List.nodup_range
    (fun i hi => h.indexed (List.mem_range.mp hi)) hOwned
  have hNone (a : Addr) : emptied s.contents (List.range kHashTableSize) a = none := by
    rw [emptied]
    cases s.contents a with
    | none => rfl
    | some e =>
      refine Option.filter_some_neg ?_
      simp [Nat.mod_lt e.hash (show 0 < kHashTableSize by decide)]
  refine ⟨{ s with
    contents := emptied s.contents (List.range kHashTableSize)
    cache_entries := table
    destroyed := D
    current_cache_size := 0
    most_recently_used := none
    least_recently_used := none }, fun fuel hFuel => ?_, .empty hNone (fun i hi => ?_) rfl rfl, hNone, hLast, rfl, rfl⟩
  · rw [HashMap.cleanup, hEq fuel hFuel]
    rfl
  · exact (hTable i).trans (if_pos (List.mem_range.mpr hi))

end Vyasa.Hashmap
