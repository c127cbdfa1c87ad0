import Vyasa.MemoizationCache.Recency
import Mathlib.Data.List.Perm.Subperm

/-! A new entry goes in front of the recency list and of its chain; pruning takes entries
off the end of the list. -/
namespace Vyasa.MemoizationCache

open Linked

variable {s s' : Cache} {recency p : List Addr} {a b : Addr} {e : CacheEntry} {c : Contents}

/-! ### A new entry -/

theorem insert_spec (h : Shaped s recency) (hFresh : s.heap a = none) (c : Contents) :
    ∃ s', s.insert a c = .ok s' ∧ Shaped s' (a :: recency) ∧
      s'.contents = Function.update s.contents a (some c) ∧ s'.blocks = s.blocks ∧
      s'.max_cache_size = s.max_cache_size ∧ s'.current_cache_size = s.current_cache_size := by
  have hNotMem : a ∉ recency := fun ha => (h.live a).mpr ha hFresh
  let entry : CacheEntry :=
    { c with
      next := s.cache_entries (c.hash % kHashTableSize)
      more_recent := none
      less_recent := s.most_recently_used }
  have hLive : ∀ b, (s.put a entry).heap b ≠ none ↔ b ∈ a :: recency := by
    intro b
    by_cases hb : b = a
    · simp [hb]
    · rw [Cache.put_heap_of_ne s entry hb, h.live b]
      simp [hb]
  obtain ⟨s₁, hEq₁, hSame₁, hLess₁, hMore₁, hMru₁, hLru₁⟩ :=
    modifyIf_more (s.put a entry) (some a) fun b hb =>
      (hLive b).mpr (List.mem_cons_of_mem a ((h.live b).mp (h.mru_live hb)))
  let s₂ : Cache :=
    { s₁ with
      most_recently_used := some a
      least_recently_used := if s.least_recently_used = none then some a else s.least_recently_used
      cache_entries := Function.update s.cache_entries (c.hash % kHashTableSize) (some a) }
  have hEnd : (if s.least_recently_used = none then some a else s.least_recently_used) =
      endAt s.least_recently_used s.most_recently_used (some a) := h.list.endAt_eq a
  have hContents : s₂.contents = Function.update s.contents a (some c) :=
    hSame₁.contents.trans (Cache.put_contents s a entry)
  have hNext : s₂.next = Function.update s.next a (s.cache_entries (c.hash % kHashTableSize)) :=
    hSame₁.next.trans (Cache.put_next s a entry)
  refine ⟨s₂, ?_, ⟨?_, List.nodup_cons.mpr ⟨hNotMem, h.nodup⟩, fun b => ?_, fun i hi => ?_⟩,
    hContents, hSame₁.blocks, hSame₁.max_cache_size, hSame₁.current_cache_size⟩
  · rw [Cache.insert]
    show ((s.put a entry).modifyIf s.most_recently_used _ >>= _) = _
    rw [hEq₁]
    have hLru : s₁.least_recently_used = s.least_recently_used := hLru₁
    have hTable : s₁.cache_entries = s.cache_entries := hSame₁.cache_entries
    simp only [bind, Except.bind, pure, Except.pure, hLru, hTable, s₂]
    split <;> rfl
  · have hPushed := h.list.push h.nodup hNotMem
    have hLess : s₂.less = Function.update s.less a s.most_recently_used :=
      hLess₁.trans (Cache.put_less s a entry)
    have hMore : s₂.more = relink (Function.update s.more a none) s.most_recently_used (some a) := by
      refine hMore₁.trans ?_
      rw [Cache.put_more]
    rw [hLess, hMore]
    show Doubly _ _ none (if s.least_recently_used = none then some a else s.least_recently_used)
      none (some a) _
    rw [hEnd]
    exact hPushed
  · exact (hSame₁.live b).trans (hLive b)
  · obtain ⟨l, hChain, hNodup, hMem⟩ := h.chain i hi
    have hNotChain : a ∉ l := by
      intro ha
      obtain ⟨c', hc', -⟩ := (hMem a).mp ha
      exact hNotMem (h.mem_of_contents hc')
    have hOthers : ∀ b, b ≠ a → s₂.contents b = s.contents b := fun b hb => by
      rw [hContents, Function.update_of_ne hb]
    by_cases hIndex : i = c.hash % kHashTableSize
    · subst hIndex
      refine ⟨a :: l, ?_, List.nodup_cons.mpr ⟨hNotChain, hNodup⟩, fun b => ?_⟩
      · rw [hNext]
        show Chain _ none (Function.update s.cache_entries _ (some a) _) _
        rw [Function.update_self]
        exact hChain.push hNotChain
      · by_cases hb : b = a
        · simp [hb, hContents]
        · rw [hOthers b hb]
          simp [hb, hMem]
    · refine ⟨l, ?_, hNodup, fun b => ?_⟩
      · rw [hNext]
        show Chain _ none (Function.update s.cache_entries _ (some a) i) _
        rw [Function.update_of_ne hIndex]
        refine hChain.congr fun b hb => Function.update_of_ne ?_ _ _
        rintro rfl
        exact hNotChain hb
      · by_cases hb : b = a
        · subst hb
          simp only [hNotChain, false_iff, hContents, Function.update_self]
          rintro ⟨c', hc', hIdx⟩
          cases hc'
          exact hIndex hIdx.symm
        · rw [hOthers b hb]
          exact hMem b

/-! ### The end of the list is pruned -/

/-- The walk along a chain stops at the entry in front of the candidate. -/
theorem findPrevious_spec {l l' : List Addr} {head : Option Addr} {fuel : Nat}
    (hChain : Chain s.next none head (l ++ b :: a :: l')) (hNodup : (l ++ b :: a :: l').Nodup)
    (hLive : ∀ x ∈ l ++ [b], s.heap x ≠ none) (hFuel : l.length < fuel) :
    s.findPrevious a fuel head = .ok (some b) := by
  induction l generalizing head fuel with
  | nil =>
    obtain ⟨fuel, rfl⟩ : ∃ k, fuel = k + 1 := ⟨fuel - 1, by simp at hFuel; omega⟩
    obtain ⟨rfl, hNext, -⟩ := hChain
    obtain ⟨e, he⟩ := Option.ne_none_iff_exists'.mp (hLive b (by simp))
    rw [Cache.next_eq he] at hNext
    simp [Cache.findPrevious, Cache.deref_eq he, hNext, bind, Except.bind, pure, Except.pure]
  | cons x l ih =>
    obtain ⟨fuel, rfl⟩ : ∃ k, fuel = k + 1 := ⟨fuel - 1, by simp at hFuel; omega⟩
    obtain ⟨rfl, hRest⟩ := hChain
    obtain ⟨e, he⟩ := Option.ne_none_iff_exists'.mp (hLive x (by simp))
    have hNe : e.next ≠ some a := by
      rw [← Cache.next_eq he]
      intro hEq
      rw [hEq] at hRest
      cases l with
      | nil =>
        obtain rfl : a = b := Option.some.inj hRest.1
        simp at hNodup
      | cons y l =>
        obtain rfl : a = y := Option.some.inj hRest.1
        simp at hNodup
    rw [Cache.next_eq he] at hRest
    have hFound := ih hRest (List.nodup_cons.mp hNodup).2
      (fun y hy => hLive y (List.mem_cons_of_mem x hy)) (Nat.lt_of_succ_lt_succ hFuel)
    simp [Cache.findPrevious, Cache.deref_eq he, hNe, bind, Except.bind, hFound]

/-- The chains hold the entries that are present, each on the chain of its hash. -/
def Indexed (s : Cache) (present : Addr → Prop) : Prop :=
  ∀ i < kHashTableSize, ∃ l, Chain s.next none (s.cache_entries i) l ∧ l.Nodup ∧
    ∀ a, a ∈ l ↔ present a ∧ ∃ c, s.contents a = some c ∧ c.hash % kHashTableSize = i

theorem Shaped.indexed (h : Shaped s recency) : Indexed s fun _ => True := by
  intro i hi
  obtain ⟨l, hChain, hNodup, hMem⟩ := h.chain i hi
  exact ⟨l, hChain, hNodup, fun a => by simpa using hMem a⟩

/-- The chains are no longer than the list. -/
theorem Shaped.length_chain (h : Shaped s recency) {l : List Addr} (hNodup : l.Nodup) {i : Nat}
    (hMem : ∀ a, a ∈ l ↔ ∃ c, s.contents a = some c ∧ c.hash % kHashTableSize = i) :
    l.length ≤ recency.length := by
  refine (hNodup.subperm fun a ha => ?_).length_le
  obtain ⟨c, hc, -⟩ := (hMem a).mp ha
  exact h.mem_of_contents hc

/-- What `unhash` leaves as it was. -/
structure SameRecency (s s' : Cache) : Prop where
  live : ∀ a, s'.heap a ≠ none ↔ s.heap a ≠ none
  contents : s'.contents = s.contents
  less : s'.less = s.less
  more : s'.more = s.more
  blocks : s'.blocks = s.blocks
  most_recently_used : s'.most_recently_used = s.most_recently_used
  least_recently_used : s'.least_recently_used = s.least_recently_used
  max_cache_size : s'.max_cache_size = s.max_cache_size
  current_cache_size : s'.current_cache_size = s.current_cache_size

/-- Another `next` of one entry. -/
theorem SameRecency.put (h : s.heap b = some e) (value : Option Addr) :
    SameRecency s (s.put b { e with next := value }) := by
  have hContents := Cache.update_contents_self h
  have hLess := Cache.update_less_self h
  have hMore := Cache.update_more_self h
  refine ⟨fun x => ?_, (Cache.put_contents _ _ _).trans hContents,
    (Cache.put_less _ _ _).trans hLess, (Cache.put_more _ _ _).trans hMore, rfl, rfl, rfl, rfl, rfl⟩
  by_cases hx : x = b
  · simp [hx, h]
  · rw [Cache.put_heap_of_ne s _ hx]

theorem unhash_spec (h : Shaped s recency) (ha : a ∈ recency) :
    ∃ s', (∀ fuel, recency.length < fuel → s.unhash fuel a = .ok s') ∧ SameRecency s s' ∧
      Indexed s' (· ≠ a) := by
  obtain ⟨e, he⟩ := h.entry ha
  have hContents := Cache.contents_eq he
  set index := e.hash % kHashTableSize with hIndex
  have hLt : index < kHashTableSize := Nat.mod_lt _ (by decide)
  obtain ⟨l, hChain, hNodup, hMem⟩ := h.chain index hLt
  have hIn : a ∈ l := (hMem a).mpr ⟨_, hContents, rfl⟩
  obtain ⟨before, after, rfl⟩ := List.append_of_mem hIn
  -- The chains of the other indices do not hold the candidate.
  have hOther : ∀ i < kHashTableSize, i ≠ index → ∃ l, Chain s.next none (s.cache_entries i) l ∧
      l.Nodup ∧ (∀ b, b ∈ l ↔ b ≠ a ∧ ∃ c, s.contents b = some c ∧ c.hash % kHashTableSize = i) := by
    intro i hi hNe
    obtain ⟨l, hChain', hNodup', hMem'⟩ := h.chain i hi
    refine ⟨l, hChain', hNodup', fun b =>
      ⟨fun hb => ⟨?_, (hMem' b).mp hb⟩, fun hb => (hMem' b).mpr hb.2⟩⟩
    rintro rfl
    obtain ⟨c, hc, hHash⟩ := (hMem' b).mp hb
    rw [hContents] at hc
    cases hc
    exact hNe (hHash.symm.trans hIndex.symm)
  have hRest : ∀ b, b ∈ before ++ after ↔
      b ≠ a ∧ ∃ c, s.contents b = some c ∧ c.hash % kHashTableSize = index := by
    intro b
    rw [← hMem b]
    have hNotIn : a ∉ before ++ after :=
      (List.nodup_cons.mp (List.perm_middle.nodup_iff.mp hNodup)).1
    constructor
    · intro hb
      exact ⟨fun hEq => hNotIn (hEq ▸ hb), by simp at hb ⊢; tauto⟩
    · rintro ⟨hNe, hb⟩
      simp at hb ⊢
      tauto
  rcases List.eq_nil_or_concat before with rfl | ⟨before, b, rfl⟩
  · -- The candidate is first on its chain.
    obtain ⟨hHead, hTail⟩ := hChain
    refine ⟨{ s with cache_entries := Function.update s.cache_entries index e.next },
      fun fuel _ => ?_, ⟨fun _ => Iff.rfl, rfl, rfl, rfl, rfl, rfl, rfl, rfl, rfl⟩, fun i hi => ?_⟩
    · simp only [Cache.unhash, Cache.deref_eq he, bind, Except.bind, ← hIndex, hHead, if_true]
      rfl
    · by_cases hNe : i = index
      · subst hNe
        refine ⟨after, ?_, (List.nodup_cons.mp hNodup).2, hRest⟩
        show Chain s.next none (Function.update s.cache_entries index e.next index) after
        rw [Function.update_self, ← Cache.next_eq he]
        exact hTail
      · obtain ⟨l, hChain', hl⟩ := hOther i hi hNe
        refine ⟨l, ?_, hl⟩
        show Chain s.next none (Function.update s.cache_entries index e.next i) l
        rw [Function.update_of_ne hNe]
        exact hChain'
  · rw [List.concat_eq_append] at hChain hNodup hRest hMem
    rw [List.append_assoc, List.singleton_append] at hChain hNodup hMem
    rw [List.append_assoc, List.singleton_append] at hRest
    have hLength := h.length_chain hNodup hMem
    have hLive : ∀ x ∈ before ++ [b], s.heap x ≠ none := by
      intro x hx
      obtain ⟨c, hc, -⟩ := (hMem x).mp (by simp at hx ⊢; tauto)
      exact (h.live x).mpr (h.mem_of_contents hc)
    have hFound : ∀ fuel, recency.length < fuel →
        s.findPrevious a fuel (s.cache_entries index) = .ok (some b) := fun fuel hFuel =>
      findPrevious_spec hChain hNodup hLive (by simp at hLength; omega)
    have hHead : s.cache_entries index ≠ some a := by
      intro hEq
      rw [hEq] at hChain
      cases before with
      | nil =>
        obtain rfl : a = b := Option.some.inj hChain.1
        simp at hNodup
      | cons x before =>
        obtain rfl : a = x := Option.some.inj hChain.1
        simp at hNodup
    obtain ⟨eb, heb⟩ := Option.ne_none_iff_exists'.mp (hLive b (by simp))
    have hSame := SameRecency.put heb e.next
    refine ⟨s.put b { eb with next := e.next }, fun fuel hFuel => ?_, hSame, fun i hi => ?_⟩
    · simp only [Cache.unhash, Cache.deref_eq he, bind, Except.bind, ← hIndex, hHead, if_false,
        hFound fuel hFuel, Cache.modify_eq _ heb]
    · rw [hSame.contents, Cache.put_next]
      by_cases hNe : i = index
      · subst hNe
        refine ⟨before ++ b :: after, ?_, ?_, hRest⟩
        · have hUnlinked := hChain.unlink hNodup
          rw [Cache.next_eq he] at hUnlinked
          exact hUnlinked
        · have hSublist : (before ++ b :: after).Sublist (before ++ b :: a :: after) :=
            List.Sublist.append_left ((List.sublist_cons_self a after).cons_cons b) before
          exact hNodup.sublist hSublist
      · obtain ⟨l, hChain', hNodup', hMem'⟩ := hOther i hi hNe
        refine ⟨l, hChain'.congr fun x hx => Function.update_of_ne ?_ _ _, hNodup', hMem'⟩
        rintro rfl
        obtain ⟨-, c, hc, hHash⟩ := (hMem' x).mp hx
        obtain ⟨c', hc', hHash'⟩ := (hMem x).mp (by simp)
        rw [hc] at hc'
        cases hc'
        exact hNe (hHash.symm.trans hHash')

theorem unlist_spec
    (hList : Doubly s.less s.more none s.least_recently_used none s.most_recently_used (p ++ [a]))
    (hNodup : (p ++ [a]).Nodup) (hLive : ∀ x ∈ p ++ [a], s.heap x ≠ none) :
    ∃ s', s.unlist a (s.more a) = .ok s' ∧ SameEntries s s' ∧
      Doubly s'.less s'.more none s'.least_recently_used none s'.most_recently_used p := by
  have hLast := hList.last_eq
  obtain ⟨middle, before, hLeft, hHead, hMore, hLess, -⟩ := doubly_append.mp hList
  have hNotIn : a ∉ p := by
    intro ha
    exact (List.nodup_append.mp hNodup).2.2 a ha a (by simp) rfl
  -- The more recent neighbour, if there is one, is another entry of the list.
  have hBefore : ∀ b, s.more a = some b → b ∈ p := by
    intro b hb
    rcases List.eq_nil_or_concat p with rfl | ⟨p, d, rfl⟩
    · exact absurd (hb.symm.trans (hMore.trans hLeft.2)) (by simp)
    · rw [List.concat_eq_append] at hLeft ⊢
      obtain rfl : b = d := Option.some.inj (hb.symm.trans (hMore.trans hLeft.last_eq))
      simp
  have hMru : endAt s.most_recently_used (s.more a) none =
      if s.most_recently_used = some a then none else s.most_recently_used := by
    rcases List.eq_nil_or_concat p with rfl | ⟨p, d, rfl⟩
    · rw [hMore.trans hLeft.2, hLeft.1.trans hHead]
      simp [endAt]
    · rw [List.concat_eq_append] at hLeft hNotIn
      rw [hMore.trans hLeft.last_eq, if_neg]
      · rfl
      · intro hEq
        cases p with
        | nil => exact hNotIn (by simp [Option.some.inj (hEq.symm.trans hLeft.1)])
        | cons m p => exact hNotIn (by simp [Option.some.inj (hEq.symm.trans hLeft.1)])
  let s₀ : Cache := { s with least_recently_used := s.more a }
  obtain ⟨e, he⟩ := Option.ne_none_iff_exists'.mp (hLive a (by simp))
  have hNone : e.less_recent = none := by
    rw [← Cache.less_eq he]
    exact hLess
  have hBeforeLive : ∀ b, s.more a = some b → s₀.heap b ≠ none := fun b hb =>
    hLive b (List.mem_append_left _ (hBefore b hb))
  obtain ⟨s₁, hEq₁, hSame₁, hLess₁, hMore₁, hMru₁, hLru₁⟩ := modifyIf_less s₀ none hBeforeLive
  obtain ⟨e₁, he₁⟩ := Option.ne_none_iff_exists'.mp ((hSame₁.live a).mpr (hLive a (by simp)))
  have hNone₁ : e₁.less_recent = none := by
    rw [← Cache.less_eq he₁, hLess₁, relink_of_ne fun hEq => hNotIn (hBefore a hEq)]
    exact hLess
  have hMruS₁ : s₁.most_recently_used = s.most_recently_used := hMru₁
  let s₂ : Cache := { s₁ with
    most_recently_used := if s.most_recently_used = some a then none else s.most_recently_used }
  have hSame₂ : SameEntries s s₂ := (SameEntries.ends s s.most_recently_used (s.more a)).trans
    (hSame₁.trans (.ends s₁ _ s₁.least_recently_used))
  refine ⟨s₂, ?_, hSame₂, ?_⟩
  · rw [Cache.unlist, if_pos hLast]
    show (s₀.deref a >>= _) = _
    rw [Cache.deref_eq (show s₀.heap a = some e from he)]
    show (s₀.modifyIf (s.more a) _ >>= _) = _
    simp only [hNone, hEq₁, bind, Except.bind, Cache.deref_eq he₁, hNone₁, ne_eq, not_true, if_false,
      hMruS₁]
    by_cases hFirst : s.most_recently_used = some a
    · simp [hFirst, s₂]
    · simp only [hFirst, if_false, s₂]
      rw [← hMruS₁]
  · have hUnlinked := hList.unlink hNodup
    rw [List.append_nil, hLess] at hUnlinked
    show Doubly s₁.less s₁.more none s₁.least_recently_used none
      (if s.most_recently_used = some a then none else s.most_recently_used) p
    rw [← hMru, hLess₁, hMore₁, hLru₁]
    exact hUnlinked

/-- The blocks after those of some buffers are freed. -/
def freed (blocks : Host → Option CacheBlockHeader) (buffers : List Buffer) (h : Host) :
    Option CacheBlockHeader :=
  if h ∈ buffers.map Buffer.host then none else blocks h

theorem freeBlocks_spec {buffers : List Buffer} (s : Cache)
    (hNodup : (buffers.map Buffer.host).Nodup) (hBlocks : ∀ b ∈ buffers, s.blocks b.host ≠ none) :
    buffers.foldlM (fun s b => s.freeBlock b.host) s =
      .ok { s with blocks := freed s.blocks buffers } := by
  induction buffers generalizing s with
  | nil =>
    have hNone : freed s.blocks [] = s.blocks := by
      funext h
      simp [freed]
    rw [hNone]
    rfl
  | cons b buffers ih =>
    obtain ⟨header, hHeader⟩ := Option.ne_none_iff_exists'.mp (hBlocks b (by simp))
    rw [List.map_cons, List.nodup_cons] at hNodup
    have hRest : ∀ c ∈ buffers, Function.update s.blocks b.host none c.host ≠ none := by
      intro c hc
      have hNe : c.host ≠ b.host := fun hEq => hNodup.1 (hEq ▸ List.mem_map_of_mem hc)
      rw [Function.update_of_ne hNe]
      exact hBlocks c (List.mem_cons_of_mem b hc)
    rw [List.foldlM_cons, Cache.freeBlock, hHeader]
    show List.foldlM _ { s with blocks := Function.update s.blocks b.host none } buffers = _
    rw [ih { s with blocks := Function.update s.blocks b.host none } hNodup.2 hRest]
    congr 2
    funext h
    by_cases hEq : h = b.host
    · simp [freed, hEq]
    · simp [freed, hEq]

/-- An entry at the end of the list is taken off it and off its chain, and freed. -/
theorem evict_spec (h : Shaped s (p ++ [a])) (hc : s.contents a = some c)
    (hNodup : (c.buf.map Buffer.host).Nodup) (hBlocks : ∀ b ∈ c.buf, s.blocks b.host ≠ none) :
    ∃ s', (∀ fuel, (p ++ [a]).length < fuel → s.evict fuel a (s.more a) = .ok s') ∧ Shaped s' p ∧
      s'.contents = Function.update s.contents a none ∧ s'.blocks = freed s.blocks c.buf ∧
      s'.max_cache_size = s.max_cache_size ∧
      s'.current_cache_size = s.current_cache_size - Cache.bytesOf c.buf := by
  obtain ⟨s₁, hEq₁, hSame₁, hIndexed⟩ := unhash_spec h (a := a) (by simp)
  obtain ⟨s₂, hEq₂, hSame₂, hList₂⟩ := unlist_spec (s := s₁) (a := a) (p := p)
    (by rw [hSame₁.less, hSame₁.more, hSame₁.least_recently_used, hSame₁.most_recently_used]
        exact h.list) h.nodup fun x hx => (hSame₁.live x).mpr ((h.live x).mpr hx)
  have hLive₂ : ∀ x, s₂.heap x ≠ none ↔ x ∈ p ++ [a] := fun x =>
    (hSame₂.live x).trans ((hSame₁.live x).trans (h.live x))
  have hContents₂ : s₂.contents = s.contents := hSame₂.contents.trans hSame₁.contents
  have hBlocks₂ : s₂.blocks = s.blocks := hSame₂.blocks.trans hSame₁.blocks
  obtain ⟨e, he⟩ := Option.ne_none_iff_exists'.mp ((hLive₂ a).mpr (by simp))
  have hBuf : e.buf = c.buf := by
    have hEq := Cache.contents_eq he
    rw [hContents₂, hc] at hEq
    rw [Option.some.inj hEq]
  have hNotIn : a ∉ p := fun ha => (List.nodup_append.mp h.nodup).2.2 a ha a (by simp) rfl
  let s₃ : Cache := { s₂ with current_cache_size := s₂.current_cache_size - Cache.bytesOf e.buf }
  let s₄ : Cache := { s₃ with
    blocks := freed s₂.blocks c.buf, heap := Function.update s₂.heap a none }
  have hHeap : ∀ x, x ≠ a → s₄.heap x = s₂.heap x := fun x hx => Function.update_of_ne hx _ _
  have hContents₄ : s₄.contents = Function.update s.contents a none := by
    funext x
    by_cases hx : x = a
    · subst hx
      simp [Cache.contents, s₄]
    · rw [Function.update_of_ne hx, ← hContents₂]
      simp [Cache.contents, hHeap x hx]
  have hLink : ∀ x, x ≠ a → s₄.less x = s₂.less x ∧ s₄.more x = s₂.more x ∧ s₄.next x = s₂.next x :=
    fun x hx => by simp [Cache.less, Cache.more, Cache.next, hHeap x hx]
  have hNe : ∀ x ∈ p, x ≠ a := fun x hx hEq => hNotIn (hEq ▸ hx)
  refine ⟨s₄, fun fuel hFuel => ?_, ⟨?_, (List.nodup_append.mp h.nodup).1, fun x => ?_, fun i hi => ?_⟩, hContents₄, ?_,
    hSame₂.max_cache_size.trans hSame₁.max_cache_size, ?_⟩
  · have hFree := freeBlocks_spec s₃ hNodup fun b hb => by
      show s₂.blocks b.host ≠ none
      rw [hBlocks₂]
      exact hBlocks b hb
    rw [hSame₁.more] at hEq₂
    simp only [Cache.evict, hEq₁ fuel hFuel, bind, Except.bind, hEq₂, Cache.discard, Cache.deref_eq he]
    show Cache.destroy s₃ a e = _
    rw [Cache.destroy, hBuf, hFree]
    rfl
  · exact hList₂.congr (fun x hx => (hLink x (hNe x hx)).1) fun x hx => (hLink x (hNe x hx)).2.1
  · by_cases hx : x = a
    · subst hx
      simp [s₄, hNotIn]
    · rw [hHeap x hx, hLive₂ x]
      simp [hx]
  · obtain ⟨l, hChain, hNodupL, hMem⟩ := hIndexed i hi
    refine ⟨l, ?_, hNodupL, fun x => ?_⟩
    · show Chain s₄.next none (s₂.cache_entries i) l
      rw [hSame₂.cache_entries]
      refine hChain.congr fun x hx => ?_
      rw [(hLink x ((hMem x).mp hx).1).2.2, hSame₂.next]
    · rw [hMem x, hContents₄, hSame₁.contents]
      by_cases hx : x = a
      · simp [hx]
      · simp [hx]
  · show freed s₂.blocks c.buf = freed s.blocks c.buf
    rw [hBlocks₂]
  · show s₂.current_cache_size - Cache.bytesOf e.buf = _
    rw [hBuf, hSame₂.current_cache_size, hSame₁.current_cache_size]

end Vyasa.MemoizationCache
