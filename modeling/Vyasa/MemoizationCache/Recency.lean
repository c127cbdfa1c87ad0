import Vyasa.MemoizationCache.Shape

/-! What a lookup, a store and pruning do to the recency list and the hash chains. -/
namespace Vyasa.MemoizationCache

open Linked

variable {s s' : Cache} {recency : List Addr} {a b : Addr} {e : CacheEntry} {c : Contents}

/-- A change of links of the recency list that keeps the entries and the hash chains. -/
structure SameEntries (s s' : Cache) : Prop where
  live : ∀ a, s'.heap a ≠ none ↔ s.heap a ≠ none
  contents : s'.contents = s.contents
  next : s'.next = s.next
  blocks : s'.blocks = s.blocks
  cache_entries : s'.cache_entries = s.cache_entries
  max_cache_size : s'.max_cache_size = s.max_cache_size
  current_cache_size : s'.current_cache_size = s.current_cache_size

theorem SameEntries.refl (s : Cache) : SameEntries s s :=
  ⟨fun _ => Iff.rfl, rfl, rfl, rfl, rfl, rfl, rfl⟩

theorem SameEntries.trans {s'' : Cache} (h : SameEntries s s') (h' : SameEntries s' s'') :
    SameEntries s s'' :=
  ⟨fun a => (h'.live a).trans (h.live a), h'.contents.trans h.contents, h'.next.trans h.next,
    h'.blocks.trans h.blocks, h'.cache_entries.trans h.cache_entries,
    h'.max_cache_size.trans h.max_cache_size, h'.current_cache_size.trans h.current_cache_size⟩

/-- Other recency links of one entry. -/
theorem SameEntries.put (h : s.heap a = some e) {e' : CacheEntry}
    (hContents : e'.toContents = e.toContents) (hNext : e'.next = e.next) :
    SameEntries s (s.put a e') := by
  refine ⟨fun b => ?_, ?_, ?_, rfl, rfl, rfl, rfl⟩
  · by_cases hb : b = a
    · simp [hb, h]
    · rw [Cache.put_heap_of_ne s e' hb]
  · rw [Cache.put_contents, hContents, Cache.update_contents_self h]
  · rw [Cache.put_next, hNext, Cache.update_next_self h]

/-- The ends of the recency list are moved. -/
theorem SameEntries.ends (s : Cache) (mru lru : Option Addr) :
    SameEntries s { s with most_recently_used := mru, least_recently_used := lru } :=
  ⟨fun _ => Iff.rfl, rfl, rfl, rfl, rfl, rfl, rfl⟩

theorem Shaped.relist {recency' : List Addr} (h : Shaped s recency) (hSame : SameEntries s s')
    (hPerm : recency'.Perm recency)
    (hList : Doubly s'.less s'.more none s'.least_recently_used none s'.most_recently_used recency') :
    Shaped s' recency' := by
  refine ⟨hList, hPerm.nodup_iff.mpr h.nodup, fun b => ?_, fun i hi => ?_⟩
  · rw [hSame.live b, h.live b, hPerm.mem_iff]
  · obtain ⟨l, hChain, hRest⟩ := h.chain i hi
    refine ⟨l, ?_, ?_⟩
    · rw [hSame.next, hSame.cache_entries]
      exact hChain
    · rw [hSame.contents]
      exact hRest

/-- A write of one recency link, through a pointer that may be null. -/
theorem modifyIf_less (s : Cache) {node : Option Addr} (value : Option Addr)
    (h : ∀ b, node = some b → s.heap b ≠ none) :
    ∃ s', s.modifyIf node (fun x => { x with less_recent := value }) = .ok s' ∧
      SameEntries s s' ∧ s'.less = relink s.less node value ∧ s'.more = s.more ∧
      s'.most_recently_used = s.most_recently_used ∧
      s'.least_recently_used = s.least_recently_used := by
  cases node with
  | none => exact ⟨s, rfl, .refl s, rfl, rfl, rfl, rfl⟩
  | some b =>
    obtain ⟨e, he⟩ := Option.ne_none_iff_exists'.mp (h b rfl)
    refine ⟨_, Cache.modify_eq _ he, .put he rfl rfl, ?_, ?_, rfl, rfl⟩
    · rw [Cache.put_less]
      rfl
    · rw [Cache.put_more, Cache.update_more_self he]

theorem modifyIf_more (s : Cache) {node : Option Addr} (value : Option Addr)
    (h : ∀ b, node = some b → s.heap b ≠ none) :
    ∃ s', s.modifyIf node (fun x => { x with more_recent := value }) = .ok s' ∧
      SameEntries s s' ∧ s'.less = s.less ∧ s'.more = relink s.more node value ∧
      s'.most_recently_used = s.most_recently_used ∧
      s'.least_recently_used = s.least_recently_used := by
  cases node with
  | none => exact ⟨s, rfl, .refl s, rfl, rfl, rfl, rfl⟩
  | some b =>
    obtain ⟨e, he⟩ := Option.ne_none_iff_exists'.mp (h b rfl)
    refine ⟨_, Cache.modify_eq _ he, .put he rfl rfl, ?_, ?_, rfl, rfl⟩
    · rw [Cache.put_less, Cache.update_less_self he]
    · rw [Cache.put_more]
      rfl

/-- The neighbours of an entry on the list, and the ends of the list, are alive. -/
theorem Shaped.less_live (h : Shaped s recency) (ha : a ∈ recency) (hb : s.less a = some b) :
    s.heap b ≠ none := by
  obtain ⟨p, q, rfl⟩ := List.append_of_mem ha
  obtain ⟨middle, before, -, -, -, hRest⟩ := doubly_append.mp h.list
  cases q with
  | nil => exact absurd (hb.symm.trans hRest.1) (by simp)
  | cons d q =>
    obtain rfl : b = d := Option.some.inj (hb.symm.trans hRest.1)
    exact (h.live b).mpr (by simp)

theorem Shaped.mru_live (h : Shaped s recency) (hb : s.most_recently_used = some b) :
    s.heap b ≠ none := by
  cases recency with
  | nil => exact absurd (hb.symm.trans h.list.1) (by simp)
  | cons d l =>
    obtain rfl : b = d := Option.some.inj (hb.symm.trans h.list.1)
    exact (h.live b).mpr (by simp)

/-! ### A hit moves the entry to the front -/

/-- No entry of the list is its own neighbour. -/
theorem Shaped.less_ne_self (h : Shaped s recency) (ha : a ∈ recency) : s.less a ≠ some a := by
  intro hEq
  obtain ⟨p, q, rfl⟩ := List.append_of_mem ha
  obtain ⟨middle, before, -, -, -, hRest⟩ := doubly_append.mp h.list
  cases q with
  | nil => exact absurd (hEq.symm.trans hRest.1) (by simp)
  | cons d q =>
    obtain rfl : a = d := Option.some.inj (hEq.symm.trans hRest.1)
    have hNodup := (List.nodup_append.mp h.nodup).2.1
    simp at hNodup

theorem Shaped.more_live (h : Shaped s recency) (ha : a ∈ recency) (hb : s.more a = some b) :
    s.heap b ≠ none := by
  obtain ⟨p, q, rfl⟩ := List.append_of_mem ha
  obtain ⟨middle, before, hLeft, -, hBack, -⟩ := doubly_append.mp h.list
  rcases List.eq_nil_or_concat p with rfl | ⟨p, d, rfl⟩
  · exact absurd (hb.symm.trans (hBack.trans hLeft.2)) (by simp)
  · rw [List.concat_eq_append] at hLeft
    obtain rfl : b = d := Option.some.inj (hb.symm.trans (hBack.trans hLeft.last_eq))
    exact (h.live b).mpr (by simp)

/-- An entry without a less recent one ends the list. -/
theorem Shaped.lru_of_less (h : Shaped s recency) (ha : a ∈ recency) (hLess : s.less a = none) :
    s.least_recently_used = some a := by
  obtain ⟨p, q, rfl⟩ := List.append_of_mem ha
  obtain ⟨middle, before, -, -, -, hRest⟩ := doubly_append.mp h.list
  cases q with
  | nil => exact hRest.2
  | cons d q => exact absurd (hLess.symm.trans hRest.1) (by simp)

theorem Shaped.mru_of_more (h : Shaped s recency) (ha : a ∈ recency) (hMore : s.more a = none) :
    s.most_recently_used = some a := by
  obtain ⟨p, q, rfl⟩ := List.append_of_mem ha
  obtain ⟨middle, before, hLeft, hHead, hBack, -⟩ := doubly_append.mp h.list
  rcases List.eq_nil_or_concat p with rfl | ⟨p, d, rfl⟩
  · exact hLeft.1.trans hHead
  · rw [List.concat_eq_append] at hLeft
    exact absurd (hMore.symm.trans (hBack.trans hLeft.last_eq)) (by simp)

theorem bypass_spec (h : Shaped s recency) (ha : a ∈ recency) (he : s.heap a = some e) :
    ∃ s', s.bypass a e = .ok s' ∧ SameEntries s s' ∧ s'.less = s.less ∧
      s'.more = relink s.more (s.less a) (s.more a) ∧
      s'.most_recently_used = s.most_recently_used ∧
      s'.least_recently_used = endAt s.least_recently_used (s.less a) (s.more a) := by
  have hLess := Cache.less_eq he
  rw [hLess, Cache.more_eq he, Cache.bypass]
  cases hl : e.less_recent with
  | some l =>
    have hLive : ∀ b, some l = some b → s.heap b ≠ none := fun b hb =>
      h.less_live ha (by rw [hLess, hl, hb])
    exact modifyIf_more s e.more_recent hLive
  | none =>
    have hLast := h.lru_of_less ha (hLess.trans hl)
    simp only [hLast, ne_eq, not_true, if_false]
    exact ⟨_, rfl, .ends s _ _, rfl, rfl, rfl, rfl⟩

theorem detach_spec (h : Shaped s recency) (ha : a ∈ recency) (hMore : s.more a ≠ none) :
    ∃ s', s.detach a = .ok s' ∧ SameEntries s s' ∧
      s'.less = relink s.less (s.more a) (s.less a) ∧
      s'.more = relink s.more (s.less a) (s.more a) ∧
      s'.most_recently_used = s.most_recently_used ∧
      s'.least_recently_used = endAt s.least_recently_used (s.less a) (s.more a) := by
  obtain ⟨e, he⟩ := h.entry ha
  obtain ⟨s₁, hEq₁, hSame₁, hLess₁, hMore₁, hMru₁, hLru₁⟩ := bypass_spec h ha he
  obtain ⟨e₁, he₁⟩ := Option.ne_none_iff_exists'.mp ((hSame₁.live a).mpr ((h.live a).mpr ha))
  have hLessA : e₁.less_recent = s.less a := by rw [← Cache.less_eq he₁, hLess₁]
  have hMoreA : e₁.more_recent = s.more a := by
    rw [← Cache.more_eq he₁, hMore₁, relink_of_ne (h.less_ne_self ha)]
  obtain ⟨s₂, hEq₂, hSame₂, hLess₂, hMore₂, hMru₂, hLru₂⟩ := modifyIf_less s₁ (s.less a)
    fun b hb => (hSame₁.live b).mpr (h.more_live ha hb)
  refine ⟨s₂, ?_, hSame₁.trans hSame₂, ?_, hMore₂.trans hMore₁, hMru₂.trans hMru₁,
    hLru₂.trans hLru₁⟩
  · rw [Cache.more_eq he] at hMore
    simp only [Cache.detach, Cache.deref_eq he, bind, Except.bind, hMore, if_false, hEq₁,
      Cache.deref_eq he₁, hLessA, hMoreA, hEq₂]
  · rw [hLess₂, hLess₁]

theorem toFront_spec (ha : s.heap a ≠ none)
    (hMru : ∀ b, s.most_recently_used = some b → s.heap b ≠ none) :
    ∃ s', s.toFront a = .ok s' ∧ SameEntries s s' ∧
      s'.less = Function.update s.less a s.most_recently_used ∧
      s'.more = relink (Function.update s.more a none) s.most_recently_used (some a) ∧
      s'.most_recently_used = some a ∧ s'.least_recently_used = s.least_recently_used := by
  obtain ⟨e, he⟩ := Option.ne_none_iff_exists'.mp ha
  let e' : CacheEntry := { e with more_recent := none, less_recent := s.most_recently_used }
  have hSame : SameEntries s (s.put a e') := .put he rfl rfl
  obtain ⟨s₂, hEq₂, hSame₂, hLess₂, hMore₂, hMru₂, hLru₂⟩ :=
    modifyIf_more (s.put a e') (some a) fun b hb => (hSame.live b).mpr (hMru b hb)
  refine ⟨{ s₂ with most_recently_used := some a }, ?_,
    (hSame.trans hSame₂).trans (.ends s₂ _ _), ?_, ?_, rfl, hLru₂⟩
  · rw [Cache.toFront, Cache.modify_eq _ he]
    show ((s.put a e').modifyIf s.most_recently_used _ >>= _) = _
    rw [hEq₂]
    rfl
  · exact hLess₂.trans (Cache.put_less _ _ _)
  · exact hMore₂.trans (by rw [Cache.put_more])

theorem touch_spec (h : Shaped s recency) (ha : a ∈ recency) :
    ∃ s' recency', s.touch a = .ok s' ∧ Shaped s' recency' ∧ recency'.Perm recency ∧
      SameEntries s s' := by
  by_cases hMru : s.most_recently_used = some a
  · exact ⟨s, recency, by rw [Cache.touch, if_pos hMru], h, .refl _, .refl s⟩
  have hMore : s.more a ≠ none := fun hNone => hMru (h.mru_of_more ha hNone)
  obtain ⟨s₁, hEq₁, hSame₁, hLess₁, hMore₁, hMru₁, hLru₁⟩ := detach_spec h ha hMore
  obtain ⟨s₂, hEq₂, hSame₂, hLess₂, hMore₂, hMru₂, hLru₂⟩ := toFront_spec
    ((hSame₁.live a).mpr ((h.live a).mpr ha))
    fun b hb => (hSame₁.live b).mpr (h.mru_live (hMru₁ ▸ hb))
  obtain ⟨p, q, rfl⟩ := List.append_of_mem ha
  have hPerm : (a :: (p ++ q)).Perm (p ++ a :: q) := List.perm_middle.symm
  have hFresh : a ∉ p ++ q := (List.nodup_cons.mp (hPerm.nodup_iff.mpr h.nodup)).1
  have hNodup : (p ++ q).Nodup := (List.nodup_cons.mp (hPerm.nodup_iff.mpr h.nodup)).2
  have hPushed := (h.list.unlink h.nodup).push hNodup hFresh
  -- The entry has a more recent one, so the front of the list has not moved.
  obtain ⟨b, hb⟩ := Option.ne_none_iff_exists'.mp hMore
  have hHead : endAt s.most_recently_used (s.more a) (s.less a) = s.most_recently_used := by
    rw [hb]
    rfl
  have hSome : s.most_recently_used ≠ none := by
    intro hNone
    cases p with
    | nil => exact absurd (hNone.symm.trans h.list.1) (by simp)
    | cons c p => exact absurd (hNone.symm.trans h.list.1) (by simp)
  refine ⟨s₂, a :: (p ++ q), ?_, h.relist (hSame₁.trans hSame₂) hPerm ?_, hPerm,
    hSame₁.trans hSame₂⟩
  · simp only [Cache.touch, hMru, if_false, bind, Except.bind, hEq₁, hEq₂]
  · rw [hHead] at hPushed
    obtain ⟨m, hm⟩ := Option.ne_none_iff_exists'.mp hSome
    rw [hLess₂, hMore₂, hMru₂, hLru₂, hLess₁, hMore₁, hMru₁, hLru₁]
    rw [hm] at hPushed ⊢
    exact hPushed

end Vyasa.MemoizationCache
