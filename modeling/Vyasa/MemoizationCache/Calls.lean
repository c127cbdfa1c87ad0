import Vyasa.MemoizationCache.Ownership

/-! What each of the five calls does to the shape of the cache and to what clients hold. -/
namespace Vyasa.MemoizationCache

open Linked

variable {s s' : Cache} {recency : List Addr} {a b : Addr} {c : Contents} {e : CacheEntry}
  {held : Host → Nat} {stored : List Request} {r : Request}

/-! ### Walking a chain -/

theorem find_spec {l : List Addr} {head : Option Addr} (h : Nat) (r : Request)
    (hChain : Chain s.next none head l) (hLive : ∀ a ∈ l, s.heap a ≠ none) :
    ∃ found, (∀ fuel, l.length < fuel → s.find h r fuel head = .ok found) ∧
      (∀ a, found = some a → ∃ c, s.contents a = some c ∧ c.matches h r = true) ∧
      (found = none → ∀ a ∈ l, ∀ c, s.contents a = some c → c.matches h r = false) := by
  induction l generalizing head with
  | nil =>
    obtain rfl : head = none := hChain
    refine ⟨none, fun fuel hFuel => ?_, by simp, by simp⟩
    obtain ⟨fuel, rfl⟩ : ∃ k, fuel = k + 1 := ⟨fuel - 1, by simp at hFuel; omega⟩
    rfl
  | cons x l ih =>
    obtain ⟨rfl, hRest⟩ := hChain
    obtain ⟨e, he⟩ := Option.ne_none_iff_exists'.mp (hLive x List.mem_cons_self)
    have hContents := Cache.contents_eq he
    rw [Cache.next_eq he] at hRest
    by_cases hMatch : e.matches h r = true
    · refine ⟨some x, fun fuel hFuel => ?_, ?_, by simp⟩
      · obtain ⟨fuel, rfl⟩ : ∃ k, fuel = k + 1 := ⟨fuel - 1, by simp at hFuel; omega⟩
        simp only [Cache.find, Cache.deref_eq he, bind, Except.bind, hMatch, if_true, pure, Except.pure]
      · rintro y hy
        cases hy
        exact ⟨_, hContents, hMatch⟩
    · obtain ⟨found, hFound, hSome, hNone⟩ := ih hRest fun y hy => hLive y (List.mem_cons_of_mem x hy)
      refine ⟨found, fun fuel hFuel => ?_, hSome, fun hEq y hy d hd => ?_⟩
      · obtain ⟨fuel, rfl⟩ : ∃ k, fuel = k + 1 := ⟨fuel - 1, by simp at hFuel; omega⟩
        simp only [Cache.find, Cache.deref_eq he, bind, Except.bind, hMatch]
        exact hFound fuel (Nat.lt_of_succ_lt_succ hFuel)
      · rcases List.mem_cons.mp hy with rfl | hy
        · rw [hContents] at hd
          cases hd
          simpa using hMatch
        · exact hNone hEq y hy d hd

theorem Contents.hash_of_matches {h : Nat} (hMatch : c.matches h r = true) : c.hash = h := by
  simp only [Contents.matches, Bool.and_eq_true, decide_eq_true_eq] at hMatch
  exact hMatch.1.1.1.1.1

/-- The walk along the chain of a hash finds an entry of the cache that matches, if there
is one. -/
theorem Shaped.find (hShaped : Shaped s recency) (h : Nat) (r : Request) :
    ∃ found, (∀ fuel, recency.length < fuel →
        s.find h r fuel (s.cache_entries (h % kHashTableSize)) = .ok found) ∧
      (∀ a, found = some a → ∃ c, s.contents a = some c ∧ c.matches h r = true) ∧
      (found = none → ∀ a c, s.contents a = some c → c.matches h r = false) := by
  obtain ⟨l, hChain, hNodup, hMem⟩ := hShaped.chain (h % kHashTableSize) (Nat.mod_lt _ (by decide))
  have hLive : ∀ a ∈ l, s.heap a ≠ none := by
    intro a ha
    obtain ⟨c, hc, -⟩ := (hMem a).mp ha
    exact (hShaped.live a).mpr (hShaped.mem_of_contents hc)
  obtain ⟨found, hFound, hSome, hNone⟩ := find_spec h r hChain hLive
  have hLength := hShaped.length_chain hNodup hMem
  refine ⟨found, fun fuel hFuel => hFound fuel (by omega), hSome, fun hEq a c hc => ?_⟩
  by_contra hMatch
  have hMatch : c.matches h r = true := by simpa using hMatch
  have hIn : a ∈ l := (hMem a).mpr ⟨c, hc, by rw [Contents.hash_of_matches hMatch]⟩
  rw [hNone hEq a hIn c hc] at hMatch
  cases hMatch

/-! ### Counting -/

/-- Another count of an entry does not change the shape of the cache. -/
theorem Shaped.recount (h : Shaped s recency) (he : s.heap a = some e) (n : Nat) :
    Shaped (s.put a { e with in_use_count := n }) recency := by
  have hNext := Cache.update_next_self he
  have hMore := Cache.update_more_self he
  have hLess := Cache.update_less_self he
  refine ⟨?_, h.nodup, fun b => ?_, fun i hi => ?_⟩
  · rw [Cache.put_less, Cache.put_more, hLess, hMore]
    exact h.list
  · by_cases hb : b = a
    · subst hb
      simp [h.mem_of_heap he]
    · rw [Cache.put_heap_of_ne s _ hb, h.live b]
  · obtain ⟨l, hChain, hNodup, hMem⟩ := h.chain i hi
    refine ⟨l, ?_, hNodup, fun b => ?_⟩
    · rw [Cache.put_next, hNext]
      exact hChain
    · rw [hMem b, Cache.put_contents]
      by_cases hb : b = a
      · subst hb
        simp [Cache.contents_eq he]
      · rw [Function.update_of_ne hb]

/-- Another count of an entry does not change its bytes. -/
theorem totalBytes_recount (he : s.heap a = some e) (n : Nat) (l : List Addr) :
    (s.put a { e with in_use_count := n }).totalBytes l = s.totalBytes l := by
  have hBytes : (s.put a { e with in_use_count := n }).bytesAt = s.bytesAt := by
    funext b
    rw [Cache.bytesAt, Cache.bytesAt, Cache.put_contents]
    by_cases hb : b = a
    · subst hb
      simp [Cache.contents_eq he]
    · rw [Function.update_of_ne hb]
  rw [Cache.totalBytes, Cache.totalBytes, hBytes]

theorem totalBytes_perm {l l' : List Addr} (h : l'.Perm l) : s.totalBytes l' = s.totalBytes l :=
  (h.map s.bytesAt).sum_eq

/-! ### Blocks -/

/-- Fresh blocks that are freed again leave nothing behind. -/
theorem freed_allocated {blocks : Host → Option CacheBlockHeader} {h : Nat} {buffers : List Buffer}
    (hFresh : ∀ b ∈ buffers, blocks b.host = none) :
    freed (allocated blocks h buffers) buffers.reverse = blocks := by
  funext x
  by_cases hMem : x ∈ buffers.map Buffer.host
  · obtain ⟨b, hb, rfl⟩ := List.mem_map.mp hMem
    rw [freed, if_pos (by rw [List.map_reverse, List.mem_reverse]; exact hMem), hFresh b hb]
  · rw [freed, if_neg (by rw [List.map_reverse, List.mem_reverse]; exact hMem), allocated, if_neg hMem]

/-- The answers of the allocator are fresh and differ. -/
def Fresh (blocks : Host → Option CacheBlockHeader) (mallocs : List (Option Host)) : Prop :=
  (mallocs.filterMap id).Nodup ∧ ∀ h ∈ mallocs.filterMap id, blocks h = none

/-- Freeing the blocks allocated so far. -/
theorem freeBlocks_allocated {blocks : Host → Option CacheBlockHeader} {h : Nat} {done : List Buffer}
    (hBlocks : s.blocks = allocated blocks h done) (hNodup : (done.map Buffer.host).Nodup)
    (hFresh : ∀ b ∈ done, blocks b.host = none) :
    done.reverse.foldlM (fun s b => s.freeBlock b.host) s = .ok { s with blocks := blocks } := by
  rw [freeBlocks_spec s, hBlocks, freed_allocated hFresh]
  · rw [List.map_reverse, List.nodup_reverse]
    exact hNodup
  · intro b hb
    rw [hBlocks, allocated, if_pos (List.mem_map_of_mem (List.mem_reverse.mp hb))]
    simp

/-- With `done` allocated, either a fresh block is found for every buffer or all blocks are
freed. -/
theorem allocate_from {blocks : Host → Option CacheBlockHeader} (h : Nat) {buffers done : List Buffer}
    {mallocs : List (Option Host)} (hBlocks : s.blocks = allocated blocks h done)
    (hNodup : (done.map Buffer.host ++ mallocs.filterMap id).Nodup)
    (hFresh : ∀ x ∈ done.map Buffer.host ++ mallocs.filterMap id, blocks x = none) :
    (∃ all, s.allocate h buffers mallocs done =
        .ok (true, all, { s with blocks := allocated blocks h all }) ∧
      (all.map Buffer.host).Nodup ∧ ∀ b ∈ all, blocks b.host = none) ∨
    ∃ all, s.allocate h buffers mallocs done = .ok (false, all, { s with blocks := blocks }) := by
  have hDone : ∀ b ∈ done, blocks b.host = none := fun b hb =>
    hFresh _ (List.mem_append_left _ (List.mem_map_of_mem hb))
  have hNodupDone : (done.map Buffer.host).Nodup := (List.nodup_append.mp hNodup).1
  have hUndo := freeBlocks_allocated hBlocks hNodupDone hDone
  induction buffers generalizing s done mallocs with
  | nil =>
    refine Or.inl ⟨done, ?_, hNodupDone, hDone⟩
    simp only [Cache.allocate, ← hBlocks]
  | cons b buffers ih =>
    cases mallocs with
    | nil =>
      refine Or.inr ⟨(done ++ [b]).map ({ · with host := 0 }) ++ buffers, ?_⟩
      simp only [Cache.allocate, hUndo, bind, Except.bind, pure, Except.pure]
    | cons m mallocs =>
      cases m with
      | none =>
        refine Or.inr ⟨(done ++ [b]).map ({ · with host := 0 }) ++ buffers, ?_⟩
        simp only [Cache.allocate, hUndo, bind, Except.bind, pure, Except.pure]
      | some host =>
        let done' := done ++ [{ b with host := host }]
        let s' : Cache := { s with blocks := Function.update s.blocks host (some ⟨none, h⟩) }
        have hHosts : done'.map Buffer.host ++ mallocs.filterMap id =
            done.map Buffer.host ++ (some host :: mallocs).filterMap id := by
          simp [done']
        have hBlocks' : s'.blocks = allocated blocks h done' := by
          funext x
          by_cases hx : x = host
          · simp [s', done', allocated, hx]
          · simp [s', done', allocated, hx, hBlocks]
        have hNodup' : (done'.map Buffer.host ++ mallocs.filterMap id).Nodup := hHosts ▸ hNodup
        have hFresh' : ∀ x ∈ done'.map Buffer.host ++ mallocs.filterMap id, blocks x = none :=
          hHosts ▸ hFresh
        have hDone' : ∀ b ∈ done', blocks b.host = none := fun b hb =>
          hFresh' _ (List.mem_append_left _ (List.mem_map_of_mem hb))
        have hNodupDone' := (List.nodup_append.mp hNodup').1
        exact ih hBlocks' hNodup' hFresh' hDone' hNodupDone'
          (freeBlocks_allocated hBlocks' hNodupDone' hDone')

theorem allocate_spec (s : Cache) (h : Nat) (buffers : List Buffer) {mallocs : List (Option Host)}
    (hFresh : Fresh s.blocks mallocs) :
    (∃ all, s.allocate h buffers mallocs [] =
        .ok (true, all, { s with blocks := allocated s.blocks h all }) ∧
      (all.map Buffer.host).Nodup ∧ ∀ b ∈ all, s.blocks b.host = none) ∨
    ∃ all, s.allocate h buffers mallocs [] = .ok (false, all, s) := by
  have hNil : s.blocks = allocated s.blocks h [] := by
    funext x
    simp [allocated]
  exact allocate_from h hNil hFresh.1 hFresh.2

theorem setEntries_spec {buffers : List Buffer} (s : Cache) (entry : Option Addr)
    (hBlocks : ∀ b ∈ buffers, s.blocks b.host ≠ none) :
    s.setEntries entry buffers = .ok { s with blocks := entered s.blocks entry buffers } := by
  induction buffers generalizing s with
  | nil =>
    have hNone : entered s.blocks entry [] = s.blocks := by
      funext h
      simp [entered]
    rw [hNone]
    rfl
  | cons b buffers ih =>
    obtain ⟨header, hHeader⟩ := Option.ne_none_iff_exists'.mp (hBlocks b List.mem_cons_self)
    let s₁ : Cache :=
      { s with blocks := Function.update s.blocks b.host (some { header with entry := entry }) }
    have hRest : ∀ d ∈ buffers, s₁.blocks d.host ≠ none := by
      intro d hd
      by_cases hEq : d.host = b.host
      · simp [s₁, hEq]
      · simpa [s₁, Function.update_of_ne hEq] using hBlocks d (List.mem_cons_of_mem b hd)
    have hFirst : s.setEntry b.host entry = .ok s₁ := by
      simp only [Cache.setEntry, hHeader, s₁]
    have hTail := ih s₁ hRest
    have hEntered : entered s₁.blocks entry buffers = entered s.blocks entry (b :: buffers) := by
      funext x
      by_cases hx : x = b.host
      · subst hx
        simp [entered, s₁, hHeader]
      · simp [entered, s₁, hx]
    rw [Cache.setEntries, List.foldlM_cons, hFirst]
    show s₁.setEntries entry buffers = _
    rw [hTail, hEntered]

/-- A header that names no entry is not changed when it is cleared. -/
theorem entered_none {blocks : Host → Option CacheBlockHeader} {buffers : List Buffer}
    (h : ∀ b ∈ buffers, ∃ header, blocks b.host = some header ∧ header.entry = none) :
    entered blocks none buffers = blocks := by
  funext x
  by_cases hMem : x ∈ buffers.map Buffer.host
  · obtain ⟨b, hb, rfl⟩ := List.mem_map.mp hMem
    obtain ⟨⟨entry, hash⟩, hHeader, hEntry⟩ := h b hb
    cases hEntry
    rw [entered, if_pos hMem, hHeader]
    rfl
  · exact if_neg hMem

/-! ### The calls -/

/-- What holds between two calls: the links have their shape, the clients hold what the
entries count, and the size is that of the entries. -/
structure Inv (s : Cache) (held : Host → Nat) (stored : List Request) (recency : List Addr) :
    Prop where
  shaped : Shaped s recency
  sound : Sound s.contents s.blocks held stored
  size : s.current_cache_size = s.totalBytes recency

theorem Inv.init : Inv Cache.init (fun _ => 0) [] [] :=
  ⟨Shaped.init, Sound.init, rfl⟩

/-- What clients hold after a lookup: a failed one hands out nothing. -/
def handedOut (held : Host → Nat) (result : Cache.LookupResult) : Host → Nat :=
  if result.code = -1 then held else take held result.tuple_buffers

theorem Contents.length_of_matches {h : Nat} (hMatch : c.matches h r = true) :
    c.buf.length = r.tuple_buffers.length := by
  simp only [Contents.matches, Bool.and_eq_true, decide_eq_true_eq] at hMatch
  exact hMatch.1.2

theorem lookup_hit (h : Inv s held stored recency) (hc : s.contents a = some c)
    (hMatch : c.matches (djbHash r.key) r = true)
    (hCount : c.in_use_count + r.tuple_buffers.length < 2 ^ 32) :
    ∃ s₁ s₂ e recency', s.touch a = .ok s₁ ∧ s₁.deref a = .ok e ∧ e.buf = c.buf ∧
      s₁.modify a (fun x =>
        { x with in_use_count := (x.in_use_count + r.tuple_buffers.length) % 2 ^ 32 }) = .ok s₂ ∧
      Inv s₂ (take held c.buf) stored recency' := by
  obtain ⟨s₁, recency', hTouch, hShaped, hPerm, hSame⟩ :=
    touch_spec h.shaped (h.shaped.mem_of_contents hc)
  have hc₁ : s₁.contents a = some c := by rw [hSame.contents, hc]
  obtain ⟨e, he, rfl⟩ := Option.map_eq_some_iff.mp hc₁
  have hMod : (e.in_use_count + r.tuple_buffers.length) % 2 ^ 32 = e.in_use_count + e.buf.length := by
    rw [Nat.mod_eq_of_lt hCount, Contents.length_of_matches hMatch]
  refine ⟨s₁, _, e, recency', hTouch, Cache.deref_eq he, rfl, Cache.modify_eq _ he, ?_⟩
  rw [hMod]
  refine ⟨hShaped.recount he _, ?_, ?_⟩
  · rw [Cache.put_contents, hSame.contents]
    show Sound _ s₁.blocks _ _
    rw [hSame.blocks]
    exact h.sound.hit hc
  · rw [totalBytes_recount he, totalBytes_perm hPerm]
    show s₁.current_cache_size = _
    rw [hSame.current_cache_size, h.size]
    exact (Cache.totalBytes_congr fun b _ => by rw [hSame.contents]).symm

/-- Blocks do not matter to the links. -/
theorem Shaped.setBlocks (h : Shaped s recency) (blocks : Host → Option CacheBlockHeader) :
    Shaped { s with blocks := blocks } recency :=
  ⟨h.list, h.nodup, h.live, h.chain⟩

theorem Inv.setBlocks (h : Inv s held stored recency) {blocks : Host → Option CacheBlockHeader}
    {held' : Host → Nat} (hSound : Sound s.contents blocks held' stored) :
    Inv { s with blocks := blocks } held' stored recency :=
  ⟨h.shaped.setBlocks blocks, hSound, h.size⟩

theorem lookup_spec (h : Inv s held stored recency) {mallocs : List (Option Host)}
    (hFresh : Fresh s.blocks mallocs)
    (hCount : ∀ a c, s.contents a = some c → c.matches (djbHash r.key) r = true →
      c.in_use_count + r.tuple_buffers.length < 2 ^ 32) :
    ∃ result recency', (∀ fuel, recency.length < fuel →
        s.halide_memoization_cache_lookup fuel r mallocs = .ok result) ∧
      Inv result.cache (handedOut held result) stored recency' ∧
      (result.code = 0 → ∃ a c, s.contents a = some c ∧ c.matches (djbHash r.key) r = true ∧
        result.tuple_buffers = c.buf) := by
  obtain ⟨found, hFind, hSome, -⟩ := h.shaped.find (djbHash r.key) r
  cases found with
  | some a =>
    obtain ⟨c, hc, hMatch⟩ := hSome a rfl
    obtain ⟨s₁, s₂, e, recency', hTouch, hDeref, hBuf, hModify, hInv⟩ :=
      lookup_hit h hc hMatch (hCount a c hc hMatch)
    refine ⟨⟨0, e.buf, s₂⟩, recency', fun fuel hFuel => ?_, ?_, fun _ => ⟨a, c, hc, hMatch, hBuf⟩⟩
    · simp only [Cache.halide_memoization_cache_lookup, hFind fuel hFuel, bind, Except.bind, hTouch,
        hDeref, hModify, pure, Except.pure]
    · rw [handedOut, if_neg (show (0 : Int) ≠ -1 by decide), hBuf]
      exact hInv
  | none =>
    rcases allocate_spec s (djbHash r.key) r.tuple_buffers hFresh with
      ⟨all, hEq, hNodup, hNone⟩ | ⟨all, hEq⟩
    · refine ⟨⟨1, all, { s with blocks := allocated s.blocks (djbHash r.key) all }⟩, recency,
        fun fuel hFuel => ?_, ?_, fun hCode => absurd hCode (show (1 : Int) ≠ 0 by decide)⟩
      · simp only [Cache.halide_memoization_cache_lookup, hFind fuel hFuel, bind, Except.bind, hEq,
          pure, Except.pure, if_true]
      · rw [handedOut, if_neg (show (1 : Int) ≠ -1 by decide)]
        exact h.setBlocks (h.sound.miss (djbHash r.key) hNodup hNone)
    · refine ⟨⟨-1, all, s⟩, recency, fun fuel hFuel => ?_, ?_,
        fun hCode => absurd hCode (show (-1 : Int) ≠ 0 by decide)⟩
      · simp only [Cache.halide_memoization_cache_lookup, hFind fuel hFuel, bind, Except.bind, hEq,
          pure, Except.pure]
        rfl
      · rw [handedOut, if_pos rfl]
        exact h

theorem prune_spec (hShaped : Shaped s recency) (hSound : Sound s.contents s.blocks held stored)
    (hEnd : PrunesEnd s) :
    ∃ s' recency', (∀ fuel, recency.length + 1 < fuel → s.prune_cache fuel = .ok s') ∧
      Shaped s' recency' ∧ Sound s'.contents s'.blocks held stored ∧
      Pruned s s' recency recency' := by
  have hChain : Chain s.more none s.least_recently_used recency.reverse := hShaped.list.chain_reverse
  obtain ⟨s', recency', hEq, hRest⟩ := pruneFrom_spec hShaped hSound (hEnd _ hChain)
  refine ⟨s', recency', fun fuel hFuel => ?_, hRest⟩
  obtain ⟨fuel, rfl⟩ : ∃ k, fuel = k + 1 := ⟨fuel - 1, by omega⟩
  exact hEq fuel (by omega)

/-- The limit of the size after a call of `set_size`. -/
def sized (s : Cache) (size : Int) : Cache :=
  { s with max_cache_size := if size = 0 then kDefaultCacheSize else size }

theorem set_size_spec (h : Inv s held stored recency) {size : Int} (hEnd : PrunesEnd (sized s size)) :
    ∃ s' recency', (∀ fuel, recency.length + 1 < fuel →
        s.halide_memoization_cache_set_size fuel size = .ok s') ∧ Inv s' held stored recency' := by
  have hShaped : Shaped (sized s size) recency :=
    ⟨h.shaped.list, h.shaped.nodup, h.shaped.live, h.shaped.chain⟩
  obtain ⟨s', recency', hEq, hShaped', hSound', hPruned⟩ := prune_spec hShaped h.sound hEnd
  refine ⟨s', recency', hEq, hShaped', hSound', ?_⟩
  have hSize := hPruned.current_cache_size
  have hBefore : (sized s size).current_cache_size = (sized s size).totalBytes recency := h.size
  omega

/-- An entry stored under the key, the bounds and the shapes of a request matches it. -/
theorem bufferHasShape_refl (dim : List Dimension) : bufferHasShape dim dim = true := by
  induction dim with
  | nil => rfl
  | cons d dim ih => simp [bufferHasShape, ih]

theorem allBoundsEqual_of_dim {buffers buffers' : List Buffer}
    (h : buffers'.map Buffer.dim = buffers.map Buffer.dim) : allBoundsEqual buffers buffers' = true := by
  induction buffers generalizing buffers' with
  | nil => simp [allBoundsEqual]
  | cons b buffers ih =>
    cases buffers' with
    | nil => simp at h
    | cons b' buffers' =>
      simp only [List.map_cons, List.cons.injEq] at h
      simp [allBoundsEqual, h.1, bufferHasShape_refl, ih h.2]

theorem Contents.matches_of_same {h : Nat} (hHash : c.hash = h) (hKey : c.key = r.key)
    (hBounds : c.computed_bounds = r.computed_bounds)
    (hDim : c.buf.map Buffer.dim = r.tuple_buffers.map Buffer.dim) : c.matches h r = true := by
  have hLength : c.buf.length = r.tuple_buffers.length := by simpa using congrArg List.length hDim
  simp [Contents.matches, hHash, hKey, hBounds, bufferHasShape_refl, hLength,
    allBoundsEqual_of_dim hDim]

/-- What callers promise of a store: its buffers are blocks of their own, got from a lookup
of the key. -/
structure Storable (s : Cache) (r : Request) : Prop where
  nodup : (r.tuple_buffers.map Buffer.host).Nodup
  client : ∀ b ∈ r.tuple_buffers, s.blocks b.host = some ⟨none, djbHash r.key⟩

/-- The size while a store prunes. -/
def grown (s : Cache) (r : Request) : Cache :=
  { s with current_cache_size := s.current_cache_size + Cache.bytesOf r.tuple_buffers }

/-- A store that finds its request in the cache leaves its buffers to the caller. -/
theorem store_duplicate (h : Inv s held stored recency) (hStore : Storable s r)
    (hc : s.contents a = some c) :
    ((c.buf.zip r.tuple_buffers).any fun (d, b) => d.host = b.host) = false ∧
      s.setEntries none r.tuple_buffers = .ok s := by
  constructor
  · rw [List.any_eq_false]
    rintro ⟨d, b⟩ hMem
    obtain ⟨hd, hb⟩ := List.of_mem_zip hMem
    obtain ⟨header, hHeader, hEntry⟩ := h.sound.owner a c hc d hd
    have hClient := hStore.client b hb
    intro hEq
    have hHost : d.host = b.host := by simpa using hEq
    rw [hHost, hClient] at hHeader
    cases hHeader
    cases hEntry
  · rw [setEntries_spec s none fun b hb => by simp [hStore.client b hb]]
    rw [entered_none fun b hb => ⟨_, hStore.client b hb, rfl⟩]

/-- A store that does not find its request, with the answers of the allocator. -/
theorem store_new (h : Inv s held stored recency) (hStore : Storable s r)
    {malloc : Cache → Option Addr} (hMalloc : ∀ s a, malloc s = some a → s.heap a = none)
    (inited : Bool) (hNew : ∀ a c, s.contents a = some c → c.matches (djbHash r.key) r = false)
    (hEnd : PrunesEnd (grown s r)) :
    ∃ s₁ s' recency', (∀ fuel, recency.length + 1 < fuel → (grown s r).prune_cache fuel = .ok s₁) ∧
      (match malloc s₁, inited with
        | some new_entry, true => do
            let s ← s₁.insert new_entry
              ⟨r.key, djbHash r.key, r.tuple_buffers.length, r.computed_bounds, r.tuple_buffers⟩
            s.setEntries (some new_entry) r.tuple_buffers
        | _, _ =>
            let s := { s₁ with
              current_cache_size := s₁.current_cache_size - Cache.bytesOf r.tuple_buffers }
            s.setEntries none r.tuple_buffers) = .ok s' ∧
      Inv s' held (r :: stored) recency' := by
  have hShaped : Shaped (grown s r) recency :=
    ⟨h.shaped.list, h.shaped.nodup, h.shaped.live, h.shaped.chain⟩
  have hSound : Sound s.contents s.blocks held (r :: stored) :=
    h.sound.mono fun _ hr => List.mem_cons_of_mem r hr
  obtain ⟨s₁, recency', hEq, hShaped₁, hSound₁, hPruned⟩ := prune_spec hShaped hSound hEnd
  have hClient₁ : ∀ b ∈ r.tuple_buffers, s₁.blocks b.host = some ⟨none, djbHash r.key⟩ :=
    fun b hb => hPruned.client b.host _ (hStore.client b hb) rfl
  have hNone : ∀ b ∈ r.tuple_buffers, s₁.blocks b.host ≠ none := fun b hb => by
    simp [hClient₁ b hb]
  have hSize : s₁.current_cache_size =
      s₁.totalBytes recency' + Cache.bytesOf r.tuple_buffers := by
    have hPrunedSize := hPruned.current_cache_size
    have hGrown : (grown s r).current_cache_size =
        (grown s r).totalBytes recency + Cache.bytesOf r.tuple_buffers :=
      congrArg (· + Cache.bytesOf r.tuple_buffers) h.size
    omega
  -- Without the storage of an entry the buffers stay with the caller.
  let s₂ : Cache := { s₁ with
    current_cache_size := s₁.current_cache_size - Cache.bytesOf r.tuple_buffers }
  have hGivenUp : s₂.setEntries none r.tuple_buffers = .ok s₂ ∧ Inv s₂ held (r :: stored) recency' := by
    refine ⟨?_, ⟨hShaped₁.list, hShaped₁.nodup, hShaped₁.live, hShaped₁.chain⟩, hSound₁, ?_⟩
    · rw [setEntries_spec s₂ none hNone, entered_none fun b hb => ⟨_, hClient₁ b hb, rfl⟩]
    · show s₁.current_cache_size - Cache.bytesOf r.tuple_buffers = s₁.totalBytes recency'
      omega
  cases hAlloc : malloc s₁ with
  | none => exact ⟨s₁, s₂, recency', hEq, by rw [hAlloc]; exact hGivenUp.1, hGivenUp.2⟩
  | some a =>
    cases inited with
    | false => exact ⟨s₁, s₂, recency', hEq, by rw [hAlloc]; exact hGivenUp.1, hGivenUp.2⟩
    | true =>
      have hFresh : s₁.heap a = none := hMalloc s₁ a hAlloc
      obtain ⟨s₃, hInsert, hShaped₃, hContents₃, hBlocks₃, -, hSize₃⟩ := insert_spec hShaped₁ hFresh
        ⟨r.key, djbHash r.key, r.tuple_buffers.length, r.computed_bounds, r.tuple_buffers⟩
      have hNone₃ : ∀ b ∈ r.tuple_buffers, s₃.blocks b.host ≠ none := by
        rw [hBlocks₃]
        exact hNone
      refine ⟨s₁, { s₃ with blocks := entered s₃.blocks (some a) r.tuple_buffers }, a :: recency', hEq,
        ?_, hShaped₃.setBlocks _, ?_, ?_⟩
      · simp only [hAlloc, hInsert, bind, Except.bind]
        exact setEntries_spec s₃ (some a) hNone₃
      · show Sound s₃.contents (entered s₃.blocks (some a) r.tuple_buffers) held (r :: stored)
        rw [hContents₃, hBlocks₃]
        refine hSound₁.insert ?_ List.mem_cons_self hStore.nodup
          (fun b hb => ⟨_, hClient₁ b hb, rfl⟩) ?_
        · simp [Cache.contents, hFresh]
        · rintro x d hd ⟨hKey, hBounds, hDim⟩
          have hd₀ : s.contents x = some d := hPruned.contents x d hd
          have hHash : d.hash = djbHash r.key := by rw [hSound₁.hash x d hd, hKey]
          have hMatch := Contents.matches_of_same hHash hKey hBounds hDim
          rw [hNew x d hd₀] at hMatch
          cases hMatch
      · have hNotMem : a ∉ recency' := fun ha => (hShaped₁.live a).mpr ha hFresh
        have hOld : s₃.totalBytes recency' = s₁.totalBytes recency' := by
          refine Cache.totalBytes_congr fun b hb => ?_
          have hNe : b ≠ a := fun hEq => hNotMem (hEq ▸ hb)
          rw [hContents₃, Function.update_of_ne hNe]
        have hHead : s₃.bytesAt a = Cache.bytesOf r.tuple_buffers := by
          simp [Cache.bytesAt, hContents₃]
        show s₃.current_cache_size = s₃.bytesAt a + s₃.totalBytes recency'
        rw [hSize₃, hSize, hOld, hHead]
        omega

theorem store_spec (h : Inv s held stored recency) (hStore : Storable s r)
    {malloc : Cache → Option Addr} (hMalloc : ∀ s a, malloc s = some a → s.heap a = none)
    (inited : Bool)
    (hEnd : (∀ a c, s.contents a = some c → c.matches (djbHash r.key) r = false) →
      PrunesEnd (grown s r)) :
    ∃ s' recency', (∀ fuel, recency.length + 1 < fuel →
        s.halide_memoization_cache_store fuel r malloc inited = .ok s') ∧
      Inv s' held (r :: stored) recency' := by
  have hFirst := hStore.client (r.tuple_buffers.head r.nonempty) (List.head_mem _)
  obtain ⟨found, hFind, hSome, hNone⟩ := h.shaped.find (djbHash r.key) r
  cases found with
  | some a =>
    obtain ⟨c, hc, -⟩ := hSome a rfl
    obtain ⟨hHosts, hSet⟩ := store_duplicate h hStore hc
    obtain ⟨e, he, rfl⟩ := Option.map_eq_some_iff.mp hc
    refine ⟨s, recency, fun fuel hFuel => ?_, h.shaped, ?_, h.size⟩
    · have hFound := hFind fuel (by omega)
      simp only [Cache.halide_memoization_cache_store, hFirst, pure, Except.pure, bind, Except.bind,
        hFound, Cache.deref_eq he, hHosts, hSet]
      rfl
    · exact h.sound.mono fun _ hr => List.mem_cons_of_mem r hr
  | none =>
    have hNew := hNone rfl
    obtain ⟨s₁, s', recency', hPrune, hRest, hInv⟩ :=
      store_new h hStore hMalloc inited hNew (hEnd hNew)
    refine ⟨s', recency', fun fuel hFuel => ?_, hInv⟩
    have hFound := hFind fuel (by omega)
    have hPruned := hPrune fuel hFuel
    rw [grown] at hPruned
    simp only [Cache.halide_memoization_cache_store, hFirst, pure, Except.pure, bind, Except.bind,
      hFound, hPruned]
    exact hRest

theorem release_spec (h : Inv s held stored recency) {host : Host} (hHeld : 0 < held host) :
    ∃ s', s.halide_memoization_cache_release host = .ok s' ∧
      Inv s' (giveUp held host) stored recency := by
  have hAllocated : s.blocks host ≠ none := fun hNone => by
    have hZero := h.sound.free host hNone
    omega
  obtain ⟨header, hHeader⟩ := Option.ne_none_iff_exists'.mp hAllocated
  cases hEntry : header.entry with
  | none =>
    refine ⟨{ s with blocks := Function.update s.blocks host none }, ?_,
      h.setBlocks (h.sound.releaseClient hHeader hEntry)⟩
    simp only [Cache.halide_memoization_cache_release, hHeader, hEntry, Cache.freeBlock]
  | some a =>
    obtain ⟨c, hc, hMem⟩ := h.sound.entry host header a hHeader hEntry
    obtain ⟨hPos, hSound⟩ := h.sound.releaseEntry hc hMem hHeld
    obtain ⟨e, he, rfl⟩ := Option.map_eq_some_iff.mp hc
    have hNonzero : e.in_use_count ≠ 0 := Nat.ne_of_gt hPos
    refine ⟨s.put a { e with in_use_count := e.in_use_count - 1 }, ?_, h.shaped.recount he _, ?_, ?_⟩
    · simp only [Cache.halide_memoization_cache_release, hHeader, hEntry, Cache.deref_eq he, bind,
        Except.bind, hNonzero, if_false, Cache.modify_eq _ he]
    · rw [Cache.put_contents]
      exact hSound
    · rw [totalBytes_recount he]
      exact h.size

/-! ### Cleanup -/

/-- What clients hold once the blocks that are not there any more are taken from them. -/
def remaining (blocks : Host → Option CacheBlockHeader) (held : Host → Nat) (h : Host) : Nat :=
  if blocks h = none then 0 else held h

theorem drop_remaining (blocks : Host → Option CacheBlockHeader) (held : Host → Nat)
    (buffers : List Buffer) :
    drop (remaining blocks held) buffers = remaining (freed blocks buffers) held := by
  funext x
  by_cases hMem : x ∈ buffers.map Buffer.host <;> simp [drop, remaining, freed, hMem]

theorem destroy_spec
    (hSound : Sound s.contents s.blocks (remaining s.blocks held) stored) (he : s.heap a = some e) :
    ∃ s', s.destroy a e = .ok s' ∧ Sound s'.contents s'.blocks (remaining s'.blocks held) stored ∧
      s'.heap = Function.update s.heap a none ∧ s'.cache_entries = s.cache_entries := by
  have hContents := Cache.contents_eq he
  have hAllocated : ∀ b ∈ e.buf, s.blocks b.host ≠ none := by
    intro b hb
    obtain ⟨header, hHeader, -⟩ := hSound.owner a _ hContents b hb
    simp [hHeader]
  refine ⟨{ s with blocks := freed s.blocks e.buf, heap := Function.update s.heap a none },
    ?_, ?_, rfl, rfl⟩
  · simp only [Cache.destroy, freeBlocks_spec s (hSound.hosts a _ hContents) hAllocated, bind,
      Except.bind, pure, Except.pure]
  · have hDestroyed := hSound.destroy hContents
    rw [drop_remaining] at hDestroyed
    have hEq : Function.update s.contents a none =
        Cache.contents { s with heap := Function.update s.heap a none } := by
      funext b
      by_cases hb : b = a <;> simp [Cache.contents, hb]
    rw [hEq] at hDestroyed
    exact hDestroyed

theorem cleanChain_spec {l : List Addr} {head : Option Addr}
    (hChain : Chain s.next none head l) (hNodup : l.Nodup) (hLive : ∀ a ∈ l, s.heap a ≠ none)
    (hSound : Sound s.contents s.blocks (remaining s.blocks held) stored) :
    ∃ s', (∀ fuel, l.length < fuel → s.cleanChain fuel head = .ok s') ∧
      Sound s'.contents s'.blocks (remaining s'.blocks held) stored ∧
      (∀ a, s'.heap a = if a ∈ l then none else s.heap a) ∧
      s'.cache_entries = s.cache_entries := by
  induction l generalizing s head with
  | nil =>
    obtain rfl : head = none := hChain
    refine ⟨s, fun fuel hFuel => ?_, hSound, by simp, rfl⟩
    obtain ⟨fuel, rfl⟩ : ∃ k, fuel = k + 1 := ⟨fuel - 1, by simp at hFuel; omega⟩
    rfl
  | cons x l ih =>
    obtain ⟨rfl, hRest⟩ := hChain
    obtain ⟨hNotIn, hNodup⟩ := List.nodup_cons.mp hNodup
    obtain ⟨e, he⟩ := Option.ne_none_iff_exists'.mp (hLive x List.mem_cons_self)
    rw [Cache.next_eq he] at hRest
    obtain ⟨s₁, hDestroy, hSound₁, hHeap₁, hEntries₁⟩ := destroy_spec hSound he
    have hKept : ∀ y ∈ l, s₁.heap y = s.heap y := by
      intro y hy
      have hNe : y ≠ x := fun hEq => hNotIn (hEq ▸ hy)
      rw [hHeap₁, Function.update_of_ne hNe]
    have hRest₁ : Chain s₁.next none e.next l :=
      hRest.congr fun y hy => by simp only [Cache.next, hKept y hy]
    obtain ⟨s₂, hEq₂, hSound₂, hHeap₂, hEntries₂⟩ := ih hRest₁ hNodup
      (fun y hy => by rw [hKept y hy]; exact hLive y (List.mem_cons_of_mem x hy)) hSound₁
    refine ⟨s₂, fun fuel hFuel => ?_, hSound₂, fun y => ?_, hEntries₂.trans hEntries₁⟩
    · obtain ⟨fuel, rfl⟩ : ∃ k, fuel = k + 1 := ⟨fuel - 1, by simp at hFuel; omega⟩
      simp only [Cache.cleanChain, Cache.deref_eq he, bind, Except.bind, hDestroy]
      exact hEq₂ fuel (Nat.lt_of_succ_lt_succ hFuel)
    · rw [hHeap₂ y, hHeap₁]
      by_cases hy : y = x
      · simp [hy]
      · simp [hy]

/-- The cache when the chains of the first indices have been freed. -/
structure Cleaned (s s' : Cache) (n : Nat) : Prop where
  heap : ∀ a, s'.heap a = none ∨ s'.heap a = s.heap a
  freed : ∀ a c, s.contents a = some c → c.hash % kHashTableSize < n → s'.heap a = none
  kept : ∀ a c, s.contents a = some c → n ≤ c.hash % kHashTableSize → s'.heap a = s.heap a
  emptied : ∀ i < n, s'.cache_entries i = none
  chains : ∀ i, n ≤ i → s'.cache_entries i = s.cache_entries i

theorem cleanChains_spec (h : Inv s held stored recency) {n : Nat} (hn : n ≤ kHashTableSize) :
    ∃ s', (∀ fuel, recency.length < fuel → (List.range n).foldlM (fun s i =>
        { s with cache_entries := Function.update s.cache_entries i none }.cleanChain fuel
          (s.cache_entries i)) s = .ok s') ∧
      Sound s'.contents s'.blocks (remaining s'.blocks held) stored ∧ Cleaned s s' n := by
  induction n with
  | zero =>
    have hHeld : remaining s.blocks held = held := by
      funext x
      by_cases hx : s.blocks x = none
      · rw [remaining, if_pos hx, h.sound.free x hx]
      · exact if_neg hx
    refine ⟨s, fun _ _ => rfl, by rw [hHeld]; exact h.sound, fun _ => Or.inr rfl, ?_, ?_, ?_, ?_⟩
    · intro a c _ hLt
      omega
    · intros
      rfl
    · intro i hi
      omega
    · intros
      rfl
  | succ n ih =>
    obtain ⟨s₁, hEq₁, hSound₁, hCleaned⟩ := ih (by omega)
    obtain ⟨l, hChain, hNodup, hMem⟩ := h.shaped.chain n (by omega)
    have hKept : ∀ a ∈ l, s₁.heap a = s.heap a := by
      intro a ha
      obtain ⟨c, hc, hHash⟩ := (hMem a).mp ha
      exact hCleaned.kept a c hc (by omega)
    have hLive : ∀ a ∈ l, s₁.heap a ≠ none := by
      intro a ha
      obtain ⟨c, hc, -⟩ := (hMem a).mp ha
      rw [hKept a ha]
      exact (h.shaped.live a).mpr (h.shaped.mem_of_contents hc)
    let s₂ : Cache := { s₁ with cache_entries := Function.update s₁.cache_entries n none }
    have hChain₁ : Chain s₂.next none (s₁.cache_entries n) l := by
      rw [hCleaned.chains n (Nat.le_refl n)]
      exact hChain.congr fun a ha => congrArg (Option.bind · _) (hKept a ha)
    obtain ⟨s₃, hEq₃, hSound₃, hHeap₃, hEntries₃⟩ := cleanChain_spec hChain₁ hNodup hLive hSound₁
    have hLength := h.shaped.length_chain hNodup hMem
    refine ⟨s₃, fun fuel hFuel => ?_, hSound₃, ?_, ?_, ?_, ?_, ?_⟩
    · have hStep := hEq₃ fuel (by omega)
      simp only [s₂] at hStep
      rw [List.range_succ, List.foldlM_append, hEq₁ fuel hFuel]
      simp only [List.foldlM_cons, List.foldlM_nil, bind, Except.bind, hStep, pure, Except.pure]
    · intro a
      rw [hHeap₃ a]
      split
      · exact Or.inl rfl
      · exact hCleaned.heap a
    · intro a c hc hLt
      rw [hHeap₃ a]
      split
      · rfl
      · next hNotIn =>
        have hNe : c.hash % kHashTableSize ≠ n := fun hEq => hNotIn ((hMem a).mpr ⟨c, hc, hEq⟩)
        exact hCleaned.freed a c hc (by omega)
    · intro a c hc hLe
      rw [hHeap₃ a, if_neg]
      · exact hCleaned.kept a c hc (by omega)
      · intro hIn
        obtain ⟨c', hc', hHash⟩ := (hMem a).mp hIn
        rw [hc] at hc'
        cases hc'
        omega
    · intro i hi
      rw [hEntries₃]
      by_cases hin : i = n
      · simp [s₂, hin]
      · simp only [s₂, Function.update_of_ne hin]
        exact hCleaned.emptied i (by omega)
    · intro i hi
      have hin : i ≠ n := by omega
      rw [hEntries₃]
      simp only [s₂, Function.update_of_ne hin]
      exact hCleaned.chains i (by omega)

theorem cleanup_spec (h : Inv s held stored recency) :
    ∃ s', (∀ fuel, recency.length < fuel → s.halide_memoization_cache_cleanup fuel = .ok s') ∧
      Inv s' (remaining s'.blocks held) stored [] := by
  obtain ⟨s₁, hEq₁, hSound₁, hCleaned⟩ := cleanChains_spec h (Nat.le_refl kHashTableSize)
  have hNone : ∀ a, s₁.heap a = none := by
    intro a
    rcases hCleaned.heap a with hNone | hSame
    · exact hNone
    · cases hHeap : s.heap a with
      | none => rw [hSame, hHeap]
      | some e =>
        exact hCleaned.freed a e.toContents (Cache.contents_eq hHeap) (Nat.mod_lt _ (by decide))
  refine ⟨{ s₁ with current_cache_size := 0, most_recently_used := none, least_recently_used := none },
    fun fuel hFuel => ?_, ⟨⟨rfl, rfl⟩, List.nodup_nil, fun a => ?_, fun i hi => ?_⟩, hSound₁, rfl⟩
  · simp only [Cache.halide_memoization_cache_cleanup, hEq₁ fuel hFuel, bind, Except.bind, pure,
      Except.pure]
  · simp [hNone a]
  · refine ⟨[], hCleaned.emptied i hi, List.nodup_nil, fun a => ?_⟩
    simp [Cache.contents, hNone a]

end Vyasa.MemoizationCache
