import Vyasa.Hashmap.Map
import Vyasa.Linked.Segments
import Mathlib.Data.List.Perm.Subperm

/-! The shape of the links, one list by recency and a chain for each index, and the calls that keep it. -/
namespace Vyasa.Hashmap

open Linked

variable {α : Type} {s s' : HashMap α} {recency : List Addr} {a b : Addr} {e : Contents α} {key : List UInt8}

/-- The entries that are alive are those on the recency list; the chain of an index holds
those whose hash leads there. -/
structure Shaped (s : HashMap α) (recency : List Addr) : Prop where
  list : Doubly s.less_recent s.more_recent none s.least_recently_used none s.most_recently_used recency
  nodup : recency.Nodup
  live : ∀ a, s.contents a ≠ none ↔ a ∈ recency
  chain : ∀ i < kHashTableSize, ∃ l, Chain s.next none (s.cache_entries i) l ∧ l.Nodup ∧
    ∀ a, a ∈ l ↔ ∃ e, s.contents a = some e ∧ e.hash % kHashTableSize = i

namespace HashMap

theorem deref_eq (h : s.contents a = some e) : s.deref a = .ok e := by
  rw [deref, h]

theorem setLess_eq {node : Option Addr} (value : Option Addr) (h : ∀ b, node = some b → s.contents b ≠ none) :
    s.setLess node value = .ok { s with less_recent := relink s.less_recent node value } := by
  cases node with
  | none => rfl
  | some b =>
    obtain ⟨e, he⟩ := Option.ne_none_iff_exists'.mp (h b rfl)
    rw [setLess, deref_eq he]
    rfl

theorem setMore_eq {node : Option Addr} (value : Option Addr) (h : ∀ b, node = some b → s.contents b ≠ none) :
    s.setMore node value = .ok { s with more_recent := relink s.more_recent node value } := by
  cases node with
  | none => rfl
  | some b =>
    obtain ⟨e, he⟩ := Option.ne_none_iff_exists'.mp (h b rfl)
    rw [setMore, deref_eq he]
    rfl

end HashMap

namespace Shaped

theorem entry (h : Shaped s recency) (ha : a ∈ recency) : ∃ e, s.contents a = some e :=
  Option.ne_none_iff_exists'.mp ((h.live a).mpr ha)

theorem mem (h : Shaped s recency) (ha : s.contents a = some e) : a ∈ recency :=
  (h.live a).mp (by rw [ha]; exact Option.some_ne_none e)

/-- The shape is about the links, and where the hashes lead. -/
theorem congr (h : Shaped s recency) (hLess : s'.less_recent = s.less_recent) (hMore : s'.more_recent = s.more_recent)
    (hLru : s'.least_recently_used = s.least_recently_used) (hMru : s'.most_recently_used = s.most_recently_used)
    (hNext : s'.next = s.next) (hTable : s'.cache_entries = s.cache_entries)
    (hHash : ∀ a, (s'.contents a).map Contents.hash = (s.contents a).map Contents.hash) : Shaped s' recency := by
  have hLive (a : Addr) : s'.contents a ≠ none ↔ s.contents a ≠ none := by
    rw [ne_eq, ne_eq, ← Option.map_eq_none_iff (f := Contents.hash), hHash, Option.map_eq_none_iff]
  have hIndex (a : Addr) (i : ℕ) : (∃ e, s'.contents a = some e ∧ e.hash % kHashTableSize = i) ↔
      ∃ e, s.contents a = some e ∧ e.hash % kHashTableSize = i := by
    have hSame := hHash a
    cases hs : s.contents a <;> cases hs' : s'.contents a <;> rw [hs, hs'] at hSame <;> simp_all
  refine ⟨?_, h.nodup, fun a => (hLive a).trans (h.live a), fun i hi => ?_⟩
  · rw [hLess, hMore, hLru, hMru]
    exact h.list
  · obtain ⟨l, hChain, hNodup, hMem⟩ := h.chain i hi
    rw [hNext, hTable]
    exact ⟨l, hChain, hNodup, fun a => (hMem a).trans (hIndex a i).symm⟩

/-- No chain is longer than the list. -/
theorem length_chain (h : Shaped s recency) {l : List Addr} (hNodup : l.Nodup) {i : ℕ}
    (hMem : ∀ a, a ∈ l ↔ ∃ e, s.contents a = some e ∧ e.hash % kHashTableSize = i) : l.length ≤ recency.length := by
  refine (hNodup.subperm fun a ha => ?_).length_le
  obtain ⟨e, he, -⟩ := (hMem a).mp ha
  exact h.mem he

end Shaped

/-! ### Walking a chain -/

theorem find_spec {l : List Addr} {head : Option Addr} (h : ℕ) (key : List UInt8)
    (hChain : Chain s.next none head l) (hLive : ∀ a ∈ l, s.contents a ≠ none) :
    ∃ found, (∀ fuel, l.length < fuel → s.find h key fuel head = .ok found) ∧
      (∀ a, found = some a → ∃ e, s.contents a = some e ∧ e.matches h key = true) ∧
      (found = none → ∀ a ∈ l, ∀ e, s.contents a = some e → e.matches h key = false) := by
  induction l generalizing head with
  | nil =>
    obtain rfl : head = none := hChain
    refine ⟨none, fun fuel hFuel => ?_, fun a hEq => absurd hEq (Option.some_ne_none a).symm,
      fun _ a ha => absurd ha List.not_mem_nil⟩
    obtain ⟨fuel, rfl⟩ := Nat.exists_eq_succ_of_ne_zero (Nat.ne_zero_of_lt hFuel)
    rfl
  | cons x l ih =>
    obtain ⟨rfl, hRest⟩ := hChain
    obtain ⟨e, he⟩ := Option.ne_none_iff_exists'.mp (hLive x List.mem_cons_self)
    by_cases hMatch : e.matches h key = true
    · refine ⟨some x, fun fuel hFuel => ?_, ?_, fun hEq => absurd hEq (Option.some_ne_none x)⟩
      · obtain ⟨fuel, rfl⟩ := Nat.exists_eq_succ_of_ne_zero (Nat.ne_zero_of_lt hFuel)
        simp only [HashMap.find, HashMap.deref_eq he, bind, Except.bind, hMatch, if_true, pure, Except.pure]
      · rintro y hy
        obtain rfl := Option.some.inj hy
        exact ⟨e, he, hMatch⟩
    · obtain ⟨found, hFound, hSome, hNone⟩ := ih hRest fun y hy => hLive y (List.mem_cons_of_mem x hy)
      refine ⟨found, fun fuel hFuel => ?_, hSome, fun hEq y hy d hd => ?_⟩
      · obtain ⟨fuel, rfl⟩ := Nat.exists_eq_succ_of_ne_zero (Nat.ne_zero_of_lt hFuel)
        simp only [HashMap.find, HashMap.deref_eq he, bind, Except.bind, hMatch]
        exact hFound fuel (Nat.lt_of_succ_lt_succ hFuel)
      · rcases List.mem_cons.mp hy with rfl | hy
        · rw [he] at hd
          obtain rfl := Option.some.inj hd
          exact Bool.eq_false_iff.mpr hMatch
        · exact hNone hEq y hy d hd

theorem Contents.matches_iff (e : Contents α) (h : ℕ) (key : List UInt8) :
    e.matches h key = true ↔ e.hash = h ∧ e.key = key := by
  rw [Contents.matches, Bool.and_eq_true, Bool.and_eq_true, decide_eq_true_eq, decide_eq_true_eq, decide_eq_true_eq]
  constructor
  · rintro ⟨⟨hHash, -⟩, hKey⟩
    exact ⟨hHash, hKey⟩
  · rintro ⟨hHash, rfl⟩
    exact ⟨⟨hHash, rfl⟩, rfl⟩

/-- The walk along the chain of a hash finds an entry that matches, if there is one. -/
theorem Shaped.find (hShaped : Shaped s recency) (h : ℕ) (key : List UInt8) :
    ∃ found, (∀ fuel, recency.length < fuel →
        s.find h key fuel (s.cache_entries (h % kHashTableSize)) = .ok found) ∧
      (∀ a, found = some a → ∃ e, s.contents a = some e ∧ e.hash = h ∧ e.key = key) ∧
      (found = none → ∀ a e, s.contents a = some e → ¬ (e.hash = h ∧ e.key = key)) := by
  obtain ⟨l, hChain, hNodup, hMem⟩ := hShaped.chain (h % kHashTableSize) (Nat.mod_lt _ (by decide))
  have hLive : ∀ a ∈ l, s.contents a ≠ none := by
    intro a ha
    obtain ⟨e, he, -⟩ := (hMem a).mp ha
    exact (hShaped.live a).mpr (hShaped.mem he)
  obtain ⟨found, hFound, hSome, hNone⟩ := find_spec h key hChain hLive
  have hLength := hShaped.length_chain hNodup hMem
  refine ⟨found, fun fuel hFuel => hFound fuel (by omega), fun a hEq => ?_, fun hEq a e he hMatch => ?_⟩
  · obtain ⟨e, he, hMatch⟩ := hSome a hEq
    exact ⟨e, he, (e.matches_iff h key).mp hMatch⟩
  · have hIn : a ∈ l := (hMem a).mpr ⟨e, he, by rw [hMatch.1]⟩
    have hNot := hNone hEq a hIn e he
    rw [(e.matches_iff h key).mpr hMatch] at hNot
    exact absurd hNot (by decide)

/-! ### A hit moves the entry to the front -/

namespace Shaped

theorem less_live (h : Shaped s recency) (ha : a ∈ recency) (hb : s.less_recent a = some b) : s.contents b ≠ none := by
  obtain ⟨p, q, rfl⟩ := List.append_of_mem ha
  obtain ⟨middle, before, -, -, -, hRest⟩ := doubly_append.mp h.list
  cases q with
  | nil => exact absurd (hb.symm.trans hRest.1) (Option.some_ne_none b)
  | cons d q =>
    obtain rfl : b = d := Option.some.inj (hb.symm.trans hRest.1)
    exact (h.live b).mpr (by simp)

theorem more_live (h : Shaped s recency) (ha : a ∈ recency) (hb : s.more_recent a = some b) : s.contents b ≠ none := by
  obtain ⟨p, q, rfl⟩ := List.append_of_mem ha
  obtain ⟨middle, before, hLeft, -, hBack, -⟩ := doubly_append.mp h.list
  rcases List.eq_nil_or_concat p with rfl | ⟨p, d, rfl⟩
  · exact absurd (hb.symm.trans (hBack.trans hLeft.2)) (Option.some_ne_none b)
  · rw [List.concat_eq_append] at hLeft
    obtain rfl : b = d := Option.some.inj (hb.symm.trans (hBack.trans hLeft.last_eq))
    exact (h.live b).mpr (by simp)

theorem mru_live (h : Shaped s recency) (hb : s.most_recently_used = some b) : s.contents b ≠ none := by
  cases recency with
  | nil => exact absurd (hb.symm.trans h.list.1) (Option.some_ne_none b)
  | cons d l =>
    obtain rfl : b = d := Option.some.inj (hb.symm.trans h.list.1)
    exact (h.live b).mpr List.mem_cons_self

/-- An entry without a less recent one ends the list. -/
theorem lru_of_less (h : Shaped s recency) (ha : a ∈ recency) (hLess : s.less_recent a = none) :
    s.least_recently_used = some a := by
  obtain ⟨p, q, rfl⟩ := List.append_of_mem ha
  obtain ⟨middle, before, -, -, -, hRest⟩ := doubly_append.mp h.list
  cases q with
  | nil => exact hRest.2
  | cons d q => exact absurd (hLess.symm.trans hRest.1) (Option.some_ne_none d).symm

theorem mru_of_more (h : Shaped s recency) (ha : a ∈ recency) (hMore : s.more_recent a = none) :
    s.most_recently_used = some a := by
  obtain ⟨p, q, rfl⟩ := List.append_of_mem ha
  obtain ⟨middle, before, hLeft, hHead, hBack, -⟩ := doubly_append.mp h.list
  rcases List.eq_nil_or_concat p with rfl | ⟨p, d, rfl⟩
  · exact hLeft.1.trans hHead
  · rw [List.concat_eq_append] at hLeft
    exact absurd (hMore.symm.trans (hBack.trans hLeft.last_eq)) (Option.some_ne_none d).symm

/-- No entry of the list is its own neighbour. -/
theorem less_ne_self (h : Shaped s recency) (ha : a ∈ recency) : s.less_recent a ≠ some a := by
  intro hEq
  obtain ⟨p, q, rfl⟩ := List.append_of_mem ha
  obtain ⟨middle, before, -, -, -, hRest⟩ := doubly_append.mp h.list
  cases q with
  | nil => exact absurd (hEq.symm.trans hRest.1) (Option.some_ne_none a)
  | cons d q =>
    obtain rfl : a = d := Option.some.inj (hEq.symm.trans hRest.1)
    exact (List.nodup_cons.mp (List.nodup_append.mp h.nodup).2.1).1 List.mem_cons_self

end Shaped

theorem detach_eq (h : Shaped s recency) (ha : a ∈ recency) (hMore : s.more_recent a ≠ none) :
    s.detach a = .ok { s with
      less_recent := relink s.less_recent (s.more_recent a) (s.less_recent a)
      more_recent := relink s.more_recent (s.less_recent a) (s.more_recent a)
      least_recently_used := endAt s.least_recently_used (s.less_recent a) (s.more_recent a) } := by
  have hKept : relink s.more_recent (s.less_recent a) (s.more_recent a) a = s.more_recent a :=
    relink_of_ne (h.less_ne_self ha)
  have hSetLess (s' : HashMap α) (hContents : s'.contents = s.contents) :
      s'.setLess (s.more_recent a) (s.less_recent a) =
        .ok { s' with less_recent := relink s'.less_recent (s.more_recent a) (s.less_recent a) } :=
    HashMap.setLess_eq _ fun b hb => by
      rw [hContents]
      exact h.more_live ha hb
  rw [HashMap.detach]
  cases hLess : s.less_recent a with
  | none =>
    have hLast := h.lru_of_less ha hLess
    rw [hLess] at hSetLess
    simp only [hMore, hLast, if_false, if_true, ne_eq, not_true, bind, Except.bind, pure, Except.pure, hLess]
    exact hSetLess _ rfl
  | some l =>
    have hSetMore : s.setMore (some l) (s.more_recent a) =
        .ok { s with more_recent := relink s.more_recent (some l) (s.more_recent a) } :=
      HashMap.setMore_eq _ fun b hb => h.less_live ha (hLess.trans hb)
    rw [hLess] at hSetLess hKept
    simp only [hMore, if_false, ne_eq, Option.some_ne_none, not_false_eq_true, if_true, bind, Except.bind, pure,
      Except.pure, hSetMore, hKept, hLess]
    exact hSetLess _ rfl

theorem toFront_eq (ha : s.contents a ≠ none) (hMru : ∀ b, s.most_recently_used = some b → s.contents b ≠ none) :
    s.toFront a = .ok { s with
      less_recent := Function.update s.less_recent a s.most_recently_used
      more_recent := relink (Function.update s.more_recent a none) s.most_recently_used (some a)
      most_recently_used := some a } := by
  have hSelf : ∀ b, some a = some b → s.contents b ≠ none := fun b hb => Option.some.inj hb ▸ ha
  have hSetLess := HashMap.setLess_eq (s := { s with more_recent := relink s.more_recent (some a) none })
    s.most_recently_used hSelf
  have hSetMore := HashMap.setMore_eq (s := { s with
    more_recent := relink s.more_recent (some a) none
    less_recent := relink s.less_recent (some a) s.most_recently_used }) (some a) hMru
  rw [HashMap.toFront, HashMap.setMore_eq none hSelf]
  simp only [bind, Except.bind, hSetLess, hSetMore]
  rfl

/-- The entry is moved in front of the list, and nothing else changes. -/
theorem touch_spec {p q : List Addr} (h : Shaped s (p ++ a :: q)) :
    ∃ less more mru lru, s.touch a = .ok { s with
        less_recent := less, more_recent := more, most_recently_used := mru, least_recently_used := lru } ∧
      Shaped { s with
        less_recent := less, more_recent := more, most_recently_used := mru, least_recently_used := lru }
        (a :: (p ++ q)) := by
  have ha : a ∈ p ++ a :: q := by simp
  by_cases hMru : s.most_recently_used = some a
  · -- The entry is in front already.
    obtain rfl : p = [] := by
      cases p with
      | nil => rfl
      | cons d p =>
        obtain rfl : a = d := Option.some.inj (hMru.symm.trans h.list.1)
        exact absurd (List.mem_append_right p List.mem_cons_self) (List.nodup_cons.mp h.nodup).1
    exact ⟨_, _, _, _, by rw [HashMap.touch, if_neg (not_not.mpr hMru)], h⟩
  · have hMore : s.more_recent a ≠ none := fun hNone => hMru (h.mru_of_more ha hNone)
    have hPerm : (a :: (p ++ q)).Perm (p ++ a :: q) := List.perm_middle.symm
    obtain ⟨hFresh, hNodup⟩ := List.nodup_cons.mp (hPerm.nodup_iff.mpr h.nodup)
    have hPushed := (h.list.unlink h.nodup).push hNodup hFresh
    -- The entry has a more recent one, so the front of the list has not moved.
    obtain ⟨b, hb⟩ := Option.ne_none_iff_exists'.mp hMore
    have hHead : endAt s.most_recently_used (s.more_recent a) (s.less_recent a) = s.most_recently_used := by
      rw [hb]
      rfl
    obtain ⟨m, hm⟩ : ∃ m, s.most_recently_used = some m := by
      cases p with
      | nil => exact ⟨_, h.list.1⟩
      | cons d p => exact ⟨_, h.list.1⟩
    have hFront := toFront_eq (s := { s with
      less_recent := relink s.less_recent (s.more_recent a) (s.less_recent a)
      more_recent := relink s.more_recent (s.less_recent a) (s.more_recent a)
      least_recently_used := endAt s.least_recently_used (s.less_recent a) (s.more_recent a) })
      ((h.live a).mpr ha) fun b hb => h.mru_live hb
    refine ⟨Function.update (relink s.less_recent (s.more_recent a) (s.less_recent a)) a s.most_recently_used,
      relink (Function.update (relink s.more_recent (s.less_recent a) (s.more_recent a)) a none)
        s.most_recently_used (some a), some a,
      endAt s.least_recently_used (s.less_recent a) (s.more_recent a),
      ?_, ?_, hPerm.nodup_iff.mpr h.nodup, fun b => ?_, h.chain⟩
    · rw [HashMap.touch, if_pos hMru, detach_eq h ha hMore]
      exact hFront
    · rw [hHead, hm] at hPushed
      rw [hm]
      exact hPushed
    · rw [hPerm.mem_iff]
      exact h.live b

/-! ### A new entry -/

/-- A new entry that is not linked yet. -/
def allocated (s : HashMap α) (new_entry : Addr) (e : Contents α) : HashMap α :=
  { s with
    contents := Function.update s.contents new_entry (some e)
    next := Function.update s.next new_entry none
    more_recent := Function.update s.more_recent new_entry none
    less_recent := Function.update s.less_recent new_entry none
    copies := s.copies + 1
    current_cache_size := s.current_cache_size + e.value_size }

/-- And in front of the recency list and of a chain. -/
def linked (s : HashMap α) (index : ℕ) (new_entry : Addr) (e : Contents α) : HashMap α :=
  { s with
    contents := Function.update s.contents new_entry (some { e with in_use_count := 1 })
    next := Function.update s.next new_entry (s.cache_entries index)
    more_recent := relink (Function.update s.more_recent new_entry none) s.most_recently_used (some new_entry)
    less_recent := Function.update s.less_recent new_entry s.most_recently_used
    cache_entries := Function.update s.cache_entries index (some new_entry)
    most_recently_used := some new_entry
    least_recently_used := endAt s.least_recently_used s.most_recently_used (some new_entry)
    copies := s.copies + 1
    current_cache_size := s.current_cache_size + e.value_size }

/-- Both ends of the list are there, or neither. -/
theorem Shaped.lru_eq (h : Shaped s recency) (a : Addr) :
    (if s.least_recently_used = none then some a else s.least_recently_used) =
      endAt s.least_recently_used s.most_recently_used (some a) :=
  h.list.endAt_eq a

theorem link_eq (h : Shaped s recency) {new_entry : Addr} (hFresh : s.contents new_entry = none) (e : Contents α)
    (index : ℕ) : (allocated s new_entry e).link index new_entry = .ok (linked s index new_entry e) := by
  have hMru : ∀ b, s.most_recently_used = some b → Function.update s.contents new_entry (some e) b ≠ none := by
    intro b hb
    have hLive := h.mru_live hb
    rwa [Function.update_of_ne]
    rintro rfl
    exact hLive hFresh
  have hSetMore := HashMap.setMore_eq (s := { allocated s new_entry e with
    next := Function.update (allocated s new_entry e).next new_entry (s.cache_entries index)
    less_recent := Function.update (allocated s new_entry e).less_recent new_entry s.most_recently_used })
    (some new_entry) hMru
  have hEnd := h.lru_eq new_entry
  rw [HashMap.link]
  show (HashMap.setMore { allocated s new_entry e with
    next := Function.update (allocated s new_entry e).next new_entry (s.cache_entries index)
    less_recent := Function.update (allocated s new_entry e).less_recent new_entry s.most_recently_used }
    s.most_recently_used (some new_entry) >>= _) = _
  rw [hSetMore, linked, ← hEnd]
  by_cases hLru : s.least_recently_used = none
  · simp only [allocated, hLru, if_true, HashMap.deref, Function.update_self, Function.update_idem, pure, Except.pure,
      bind, Except.bind]
  · simp only [allocated, hLru, if_false, HashMap.deref, Function.update_self, Function.update_idem, pure,
      Except.pure, bind, Except.bind]

theorem linked_shaped (h : Shaped s recency) {new_entry : Addr} (hFresh : s.contents new_entry = none) (e : Contents α) :
    Shaped (linked s (e.hash % kHashTableSize) new_entry e) (new_entry :: recency) := by
  have hNotMem : new_entry ∉ recency := fun ha => (h.live new_entry).mpr ha hFresh
  have hNew : (linked s (e.hash % kHashTableSize) new_entry e).contents new_entry =
      some { e with in_use_count := 1 } := Function.update_self _ _ _
  have hOther (b : Addr) (hb : b ≠ new_entry) :
      (linked s (e.hash % kHashTableSize) new_entry e).contents b = s.contents b := Function.update_of_ne hb _ _
  refine ⟨h.list.push h.nodup hNotMem, List.nodup_cons.mpr ⟨hNotMem, h.nodup⟩, fun b => ?_, fun i hi => ?_⟩
  · by_cases hb : b = new_entry
    · subst hb
      rw [hNew]
      exact iff_of_true (Option.some_ne_none _) List.mem_cons_self
    · rw [hOther b hb, h.live b, List.mem_cons, or_iff_right hb]
  · obtain ⟨l, hChain, hNodup, hMem⟩ := h.chain i hi
    have hNotChain : new_entry ∉ l := by
      intro ha
      obtain ⟨d, hd, -⟩ := (hMem new_entry).mp ha
      exact hNotMem (h.mem hd)
    by_cases hIndex : i = e.hash % kHashTableSize
    · subst hIndex
      refine ⟨new_entry :: l, ?_, List.nodup_cons.mpr ⟨hNotChain, hNodup⟩, fun b => ?_⟩
      · show Chain _ none (Function.update s.cache_entries _ (some new_entry) _) _
        rw [Function.update_self]
        exact hChain.push hNotChain
      · by_cases hb : b = new_entry
        · subst hb
          rw [hNew]
          exact iff_of_true List.mem_cons_self ⟨_, rfl, rfl⟩
        · rw [hOther b hb, List.mem_cons, or_iff_right hb]
          exact hMem b
    · refine ⟨l, ?_, hNodup, fun b => ?_⟩
      · show Chain (Function.update s.next new_entry _) none (Function.update s.cache_entries _ (some new_entry) i) _
        rw [Function.update_of_ne hIndex]
        refine hChain.congr fun b hb => Function.update_of_ne ?_ _ _
        rintro rfl
        exact hNotChain hb
      · by_cases hb : b = new_entry
        · subst hb
          rw [hNew]
          refine iff_of_false hNotChain ?_
          rintro ⟨d, hd, hHash⟩
          obtain rfl := Option.some.inj hd
          exact hIndex hHash.symm
        · rw [hOther b hb]
          exact hMem b

end Vyasa.Hashmap
