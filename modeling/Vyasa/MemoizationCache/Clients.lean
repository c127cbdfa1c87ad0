import Vyasa.MemoizationCache.Calls

/-! Any number of clients call the cache in any order. A run keeps the representation of the
cache and the counts of what clients hold, as long as pruning frees entries at the end of
the recency list only. -/
namespace Vyasa.MemoizationCache

open Linked

/-- The cache, how often clients hold each block, and the stores made so far. -/
structure World where
  cache : Cache
  held : Host → Nat
  stored : List Request

def World.init : World := ⟨Cache.init, fun _ => 0, []⟩

/-- A call, with the answers of the allocator while it runs. -/
inductive Call where
  | lookup (r : Request) (mallocs : List (Option Host))
  | store (r : Request) (malloc : Cache → Option Addr) (inited : Bool)
  | release (host : Host)
  | set_size (size : Int)
  | cleanup

variable {w w' : World} {c : Call}

/-- One whole call. A cleanup takes the blocks it frees from the clients. -/
def World.exec (w : World) (fuel : Nat) : Call → Except Fault World
  | .lookup r mallocs => do
      let result ← w.cache.halide_memoization_cache_lookup fuel r mallocs
      return ⟨result.cache, handedOut w.held result, w.stored⟩
  | .store r malloc inited => do
      let cache ← w.cache.halide_memoization_cache_store fuel r malloc inited
      return ⟨cache, w.held, r :: w.stored⟩
  | .release host => do
      let cache ← w.cache.halide_memoization_cache_release host
      return ⟨cache, giveUp w.held host, w.stored⟩
  | .set_size size => do
      let cache ← w.cache.halide_memoization_cache_set_size fuel size
      return ⟨cache, w.held, w.stored⟩
  | .cleanup => do
      let cache ← w.cache.halide_memoization_cache_cleanup fuel
      return ⟨cache, remaining cache.blocks w.held, w.stored⟩

/-- A call returns. -/
def Step (w : World) (c : Call) (w' : World) : Prop :=
  ∃ n, ∀ fuel ≥ n, w.exec fuel c = .ok w'

/-- A call uses memory that has been freed. -/
def Faults (w : World) (c : Call) : Prop :=
  ∃ n, ∀ fuel ≥ n, w.exec fuel c = .error .useAfterFree

/-- To hold for any fuel from some amount on. -/
theorem from_add {p : Nat → Prop} {n : Nat} (h : ∀ k, p (k + n)) : ∀ fuel ≥ n, p fuel := by
  intro fuel hFuel
  obtain ⟨k, rfl⟩ := Nat.exists_eq_add_of_le' hFuel
  exact h k

/-- A fault with any fuel from some amount on. -/
theorem Faults.of_add (n : Nat) (h : ∀ k, w.exec (k + n) c = .error .useAfterFree) : Faults w c :=
  ⟨n, from_add h⟩

theorem Step.unique {w'' : World} (h : Step w c w') (h' : Step w c w'') : w' = w'' := by
  obtain ⟨n, hn⟩ := h
  obtain ⟨m, hm⟩ := h'
  have hEq := (hn (max n m) (Nat.le_max_left n m)).symm.trans (hm (max n m) (Nat.le_max_right n m))
  exact Except.ok.inj hEq

/-- What the allocator and the clients promise: memory is fresh, a store passes blocks that
a lookup of its key has handed out, and nothing is released that is not held. -/
def Permitted (w : World) : Call → Prop
  | .lookup _ mallocs => Fresh w.cache.blocks mallocs
  | .store r malloc _ => Storable w.cache r ∧ ∀ s a, malloc s = some a → s.heap a = none
  | .release host => 0 < w.held host
  | .set_size _ => True
  | .cleanup => True

/-- The shapes of the entries under the key of a request are long enough to be compared. -/
def Comparable (s : Cache) (r : Request) : Prop :=
  ∀ a c, s.contents a = some c → c.key = r.key → r.computed_bounds.length ≤ c.computed_bounds.length

/-- Pruning takes entries off the end of the recency list only, no count of an entry wraps,
and no shape is read past its end. -/
def Within (w : World) : Call → Prop
  | .lookup r _ => Comparable w.cache r ∧
      ∀ a c, w.cache.contents a = some c → c.matches (djbHash r.key) r = true →
        c.in_use_count + r.tuple_buffers.length < 2 ^ 32
  | .store r _ _ => Comparable w.cache r ∧
      ((∀ a c, w.cache.contents a = some c → c.matches (djbHash r.key) r = false) →
        PrunesEnd (grown w.cache r))
  | .release _ => True
  | .set_size size => PrunesEnd (sized w.cache size)
  | .cleanup => True

/-- The worlds that calls reach which are allowed. -/
inductive Reachable (allowed : World → Call → Prop) : World → Prop where
  | init : Reachable allowed World.init
  | step {w w' : World} {c : Call} : Reachable allowed w → allowed w c → Step w c w' →
      Reachable allowed w'

def World.Inv (w : World) : Prop :=
  ∃ recency, MemoizationCache.Inv w.cache w.held w.stored recency

/-- Every call returns and keeps the invariant. -/
theorem World.Inv.step (h : w.Inv) (hPermitted : Permitted w c) (hWithin : Within w c) :
    ∃ w', Step w c w' ∧ w'.Inv := by
  obtain ⟨recency, hInv⟩ := h
  cases c with
  | lookup r mallocs =>
    obtain ⟨result, recency', hEq, hInv', -⟩ := lookup_spec hInv hPermitted hWithin.2
    refine ⟨⟨result.cache, handedOut w.held result, w.stored⟩,
      ⟨recency.length + 1, fun fuel hFuel => ?_⟩, recency', hInv'⟩
    simp only [World.exec, hEq fuel hFuel, bind, Except.bind, pure, Except.pure]
  | store r malloc inited =>
    obtain ⟨s', recency', hEq, hInv'⟩ := store_spec hInv hPermitted.1 hPermitted.2 inited hWithin.2
    refine ⟨⟨s', w.held, r :: w.stored⟩, ⟨recency.length + 2, fun fuel hFuel => ?_⟩, recency', hInv'⟩
    simp only [World.exec, hEq fuel hFuel, bind, Except.bind, pure, Except.pure]
  | release host =>
    obtain ⟨s', hEq, hInv'⟩ := release_spec hInv hPermitted
    refine ⟨⟨s', giveUp w.held host, w.stored⟩, ⟨0, fun fuel _ => ?_⟩, recency, hInv'⟩
    simp only [World.exec, hEq, bind, Except.bind, pure, Except.pure]
  | set_size size =>
    obtain ⟨s', recency', hEq, hInv'⟩ := set_size_spec hInv hWithin
    refine ⟨⟨s', w.held, w.stored⟩, ⟨recency.length + 2, fun fuel hFuel => ?_⟩, recency', hInv'⟩
    simp only [World.exec, hEq fuel hFuel, bind, Except.bind, pure, Except.pure]
  | cleanup =>
    obtain ⟨s', hEq, hInv'⟩ := cleanup_spec hInv
    refine ⟨⟨s', remaining s'.blocks w.held, w.stored⟩, ⟨recency.length + 1, fun fuel hFuel => ?_⟩,
      [], hInv'⟩
    simp only [World.exec, hEq fuel hFuel, bind, Except.bind, pure, Except.pure]

/-- Permitted calls that meet the condition. -/
def Allowed (w : World) (c : Call) : Prop := Permitted w c ∧ Within w c

theorem Reachable.inv (h : Reachable Allowed w) : w.Inv := by
  induction h with
  | init => exact ⟨[], Inv.init⟩
  | step _ hAllowed hStep ih =>
    obtain ⟨w'', hStep', hInv⟩ := ih.step hAllowed.1 hAllowed.2
    rw [hStep.unique hStep']
    exact hInv

theorem Reachable.returns (h : Reachable Allowed w) (hAllowed : Allowed w c) :
    ∃ w', Step w c w' := by
  obtain ⟨w', hStep, -⟩ := h.inv.step hAllowed.1 hAllowed.2
  exact ⟨w', hStep⟩

/-! ### The representation -/

/-- The chains hold the entries of the recency list, each where its hash leads, and the
links of the list are inverse to each other and do not dangle. -/
structure Valid (s : Cache) (recency : List Addr) : Prop where
  less : Chain s.less none s.most_recently_used recency
  more : Chain s.more none s.least_recently_used recency.reverse
  inverse : ∀ a ∈ recency, ∀ b ∈ recency, s.less a = some b ↔ s.more b = some a
  chains : ∀ i < kHashTableSize, ∃ l, Chain s.next none (s.cache_entries i) l ∧ l.Nodup ∧
    ∀ a, a ∈ l ↔ a ∈ recency ∧ ∃ c, s.contents a = some c ∧ c.hash % kHashTableSize = i
  once : recency.Nodup
  alive : ∀ a ∈ recency, s.heap a ≠ none
  links : ∀ a b, s.less a = some b ∨ s.more a = some b ∨ s.next a = some b → s.heap b ≠ none
  size : s.current_cache_size = s.totalBytes recency

section Valid

variable {s : Cache} {held : Host → Nat} {stored : List Request} {recency : List Addr} {a b : Addr}

theorem Shaped.next_live (h : Shaped s recency) (ha : a ∈ recency) (hb : s.next a = some b) :
    s.heap b ≠ none := by
  obtain ⟨c, hc⟩ := h.contents ha
  obtain ⟨l, hChain, -, hMem⟩ := h.chain (c.hash % kHashTableSize) (Nat.mod_lt _ (by decide))
  obtain ⟨p, q, rfl⟩ := List.append_of_mem ((hMem a).mpr ⟨c, hc, rfl⟩)
  obtain ⟨middle, -, -, hRest⟩ := chain_append.mp hChain
  rw [hb] at hRest
  cases q with
  | nil => cases hRest
  | cons d q =>
    obtain rfl : b = d := Option.some.inj hRest.1
    obtain ⟨d, hd, -⟩ := (hMem b).mp (by simp)
    exact (h.live b).mpr (h.mem_of_contents hd)

theorem Inv.valid (h : Inv s held stored recency) : Valid s recency := by
  have hFrom : ∀ {x y : Addr} {link : CacheEntry → Option Addr},
      (s.heap x).bind link = some y → x ∈ recency := by
    intro x y link hLink
    obtain ⟨e, he, -⟩ := Option.bind_eq_some_iff.mp hLink
    exact h.shaped.mem_of_heap he
  refine ⟨h.shaped.list.chain, h.shaped.list.chain_reverse,
    fun a ha b hb => h.shaped.list.next_iff_back ha hb, fun i hi => ?_, h.shaped.nodup,
    fun a ha => (h.shaped.live a).mpr ha, ?_, h.size⟩
  · obtain ⟨l, hChain, hNodup, hMem⟩ := h.shaped.chain i hi
    refine ⟨l, hChain, hNodup, fun a => ⟨fun ha => ?_, fun ha => (hMem a).mpr ha.2⟩⟩
    obtain ⟨c, hc, hHash⟩ := (hMem a).mp ha
    exact ⟨h.shaped.mem_of_contents hc, c, hc, hHash⟩
  · rintro a b (hLink | hLink | hLink)
    · exact h.shaped.less_live (hFrom hLink) hLink
    · exact h.shaped.more_live (hFrom hLink) hLink
    · exact h.shaped.next_live (hFrom hLink) hLink

end Valid

/-- One more call of a run, with any fuel from some amount on. -/
theorem Reachable.next {allowed : World → Call → Prop} (h : Reachable allowed w) (c : Call)
    (hAllowed : allowed w c) (n : Nat) (hExec : ∀ k, w.exec (k + n) c = .ok w') :
    Reachable allowed w' :=
  h.step hAllowed ⟨n, from_add hExec⟩

/-- A request for one element of two bytes. -/
def Request.scalar (key : List UInt8) (host : Host) : Request :=
  ⟨key, [], [⟨host, [], 2⟩], by simp, by simp⟩

/-- An allocator that has one address. -/
def mallocAt (a : Addr) (s : Cache) : Option Addr := if s.heap a = none then some a else none

theorem mallocAt_fresh (a : Addr) (s : Cache) (b : Addr) (h : mallocAt a s = some b) :
    s.heap b = none := by
  unfold mallocAt at h
  split at h
  · cases h
    assumption
  · cases h

/-- A client misses and stores what it has computed. -/
theorem reachable_stored : ∃ w, Reachable Allowed w ∧
    (∀ a, a ≠ 1 → w.cache.heap a = none) ∧
    w.cache.contents 1 = some ⟨[], djbHash [], 1, [], [⟨1, [], 2⟩]⟩ ∧
    ∃ result, (∀ fuel ≥ 8, w.cache.halide_memoization_cache_lookup fuel (.scalar [] 0) [] =
      .ok result) ∧ result.code = 0 := by
  have hEmpty : ∀ a c, World.init.cache.contents a ≠ some c := by
    simp [World.init, Cache.init, Cache.contents]
  have hMissed := Reachable.next .init (.lookup (.scalar [] 0) [some 1])
    (show Allowed _ _ from ⟨⟨by decide, by decide⟩, fun a c hc => absurd hc (hEmpty a c),
      fun a c hc => absurd hc (hEmpty a c)⟩) 8 fun k => rfl
  have hPrunes : ∀ s : Cache, s.least_recently_used = none → PrunesEnd s := by
    intro s hNone l hChain
    cases l with
    | nil => trivial
    | cons a l => exact absurd (hNone.symm.trans hChain.1) (by simp)
  have hStored := hMissed.next (.store (.scalar [] 1) (mallocAt 1) true)
    ⟨⟨⟨by decide, by decide⟩, mallocAt_fresh 1⟩, fun a c hc => absurd hc (hEmpty a c),
      fun _ => hPrunes _ rfl⟩ 8 fun k => rfl
  exact ⟨_, hStored, fun a ha => Function.update_of_ne ha _ _, rfl, _,
    from_add fun k => rfl, rfl⟩

/-- In every run of allowed calls the representation is valid after each call, and the next
allowed call returns. -/
theorem representation_kept (h : Reachable Allowed w) :
    (∃ recency, Valid w.cache recency) ∧ ∀ c, Allowed w c → ∃ w', Step w c w' := by
  obtain ⟨recency, hInv⟩ := h.inv
  exact ⟨⟨recency, hInv.valid⟩, fun c hAllowed => h.returns hAllowed⟩

theorem representation_kept_stored : ∃ w : World, w.cache.contents 1 ≠ none ∧
    ∃ recency, Valid w.cache recency := by
  obtain ⟨w, hReachable, -, hEntry, -⟩ := reachable_stored
  exact ⟨w, by simp [hEntry], (representation_kept hReachable).1⟩

/-- Two clients store, the second releases, and the limit is lowered: the entry that is
freed is the most recent one and the other, which is in use, still links to it. -/
theorem reachable_dangling : ∃ w, Reachable Permitted w ∧ w.cache.more 1 = some 2 ∧
    w.cache.heap 2 = none ∧ Faults w (.set_size 1) := by
  have hMissed := Reachable.next .init (.lookup (.scalar [] 0) [some 1])
    (show Permitted _ _ from ⟨by decide, by decide⟩) 8 fun k => rfl
  have hStored := hMissed.next (.store (.scalar [] 1) (mallocAt 1) true)
    ⟨⟨by decide, by decide⟩, mallocAt_fresh 1⟩ 8 fun k => rfl
  have hMissed' := hStored.next (.lookup (.scalar [0] 0) [some 2]) ⟨by decide, by decide⟩ 8
    fun k => rfl
  have hStored' := hMissed'.next (.store (.scalar [0] 2) (mallocAt 2) true)
    ⟨⟨by decide, by decide⟩, mallocAt_fresh 2⟩ 8 fun k => rfl
  have hReleased := hStored'.next (.release 2) (show (0 : Nat) < _ by decide) 8 fun k => rfl
  have hPruned := hReleased.next (.set_size 1) trivial 8 fun k => rfl
  exact ⟨_, hPruned, rfl, rfl, Faults.of_add 8 fun k => rfl⟩

/-- Pruning from the middle of the list leaves a link to a freed entry. -/
theorem pruning_leaves_link : ∃ w, Reachable Permitted w ∧ ¬ ∃ recency, Valid w.cache recency := by
  obtain ⟨w, hReachable, hMore, hFreed, -⟩ := reachable_dangling
  refine ⟨w, hReachable, ?_⟩
  rintro ⟨recency, hValid⟩
  exact hValid.links 1 2 (Or.inr (Or.inl hMore)) hFreed

/-! ### The references -/

/-- Every block is owned once: by the entry that will free it, or by the client that holds
it. Entries count what clients hold of them, and no two are for one request. -/
structure Counted (w : World) : Prop where
  unique : ∀ a a' c c', w.cache.contents a = some c → w.cache.contents a' = some c' →
    SameRequest c c' → a = a'
  count : ∀ a c, w.cache.contents a = some c → c.in_use_count = heldOf w.held c.buf
  alive : ∀ h, 0 < w.held h → ∃ header, w.cache.blocks h = some header ∧
    ∀ a, header.entry = some a → ∃ c, w.cache.contents a = some c ∧ h ∈ c.buf.map Buffer.host
  owner : ∀ h header, w.cache.blocks h = some header → match header.entry with
    | none => w.held h = 1 ∧ ∀ a c, w.cache.contents a = some c → h ∉ c.buf.map Buffer.host
    | some a => ∀ b c, w.cache.contents b = some c →
        (c.buf.map Buffer.host).count h = if b = a then 1 else 0

theorem World.Inv.counted (h : w.Inv) : Counted w := by
  obtain ⟨recency, hInv⟩ := h
  have hSound := hInv.sound
  refine ⟨hSound.unique, hSound.used, fun x hx => ?_, fun x header hx => ?_⟩
  · obtain ⟨s', -, -⟩ := release_spec hInv hx
    cases hBlock : w.cache.blocks x with
    | none =>
      have hZero := hSound.free x hBlock
      omega
    | some header => exact ⟨header, rfl, fun a ha => hSound.entry x header a hBlock ha⟩
  · -- Where a block is on the list of an entry, the header names that entry.
    have hNamed : ∀ {b : Addr} {c : Contents}, w.cache.contents b = some c →
        x ∈ c.buf.map Buffer.host → header.entry = some b := by
      intro b c hc hMem
      obtain ⟨header', hHeader', hEntry'⟩ := hSound.entry_of_mem hc hMem
      rw [hx] at hHeader'
      cases hHeader'
      exact hEntry'
    cases hEntry : header.entry with
    | none =>
      refine ⟨hSound.client x header hx hEntry, fun a c hc hMem => ?_⟩
      have hSome := hNamed hc hMem
      rw [hEntry] at hSome
      cases hSome
    | some a =>
      obtain ⟨d, hd, hMem⟩ := hSound.entry x header a hx hEntry
      intro b c hc
      by_cases hba : b = a
      · subst hba
        rw [hd] at hc
        cases hc
        rw [if_pos rfl]
        exact List.count_eq_one_of_mem (hSound.hosts b d hd) hMem
      · rw [if_neg hba]
        refine List.count_eq_zero_of_not_mem fun hIn => hba ?_
        have hSome := hNamed hc hIn
        rw [hEntry] at hSome
        exact (Option.some.inj hSome).symm

/-- The entries under the key of a request have its number of dimensions. -/
def SameDimensions (s : Cache) (r : Request) : Prop :=
  ∀ a c, s.contents a = some c → c.key = r.key → c.computed_bounds.length = r.computed_bounds.length

theorem eq_of_bufferHasShape {dim shape : List Dimension} (hLength : shape.length = dim.length)
    (h : bufferHasShape dim shape = true) : shape = dim := by
  induction dim generalizing shape with
  | nil => exact List.length_eq_zero_iff.mp hLength
  | cons d dim ih =>
    cases shape with
    | nil => simp at hLength
    | cons e shape =>
      simp only [bufferHasShape] at h
      split at h
      · cases h
      · next hEq =>
        rw [not_not] at hEq
        rw [hEq, ih (by simpa using hLength) h]

theorem dim_of_allBoundsEqual {buffers buffers' : List Buffer} {n : Nat}
    (hLength : buffers'.length = buffers.length) (hDim : ∀ b ∈ buffers, b.dim.length = n)
    (hDim' : ∀ b ∈ buffers', b.dim.length = n) (h : allBoundsEqual buffers buffers' = true) :
    buffers'.map Buffer.dim = buffers.map Buffer.dim := by
  induction buffers generalizing buffers' with
  | nil =>
    obtain rfl := List.length_eq_zero_iff.mp hLength
    rfl
  | cons b buffers ih =>
    cases buffers' with
    | nil => simp at hLength
    | cons b' buffers' =>
      simp only [allBoundsEqual, Bool.and_eq_true] at h
      have hHead : b'.dim = b.dim := eq_of_bufferHasShape
        ((hDim' b' List.mem_cons_self).trans (hDim b List.mem_cons_self).symm) h.1
      have hTail := ih (by simpa using hLength) (fun d hd => hDim d (List.mem_cons_of_mem b hd))
        (fun d hd => hDim' d (List.mem_cons_of_mem b' hd)) h.2
      rw [List.map_cons, List.map_cons, hHead, hTail]

/-- A hit answers with the buffers of a store of the same request. -/
theorem World.Inv.hit (h : w.Inv) {r : Request} {a : Addr} {c : Contents}
    (hc : w.cache.contents a = some c) (hMatch : c.matches (djbHash r.key) r = true)
    (hDimensions : SameDimensions w.cache r) :
    ∃ r' ∈ w.stored, r'.key = r.key ∧ r'.computed_bounds = r.computed_bounds ∧
      r'.tuple_buffers.map Buffer.dim = r.tuple_buffers.map Buffer.dim ∧ c.buf = r'.tuple_buffers := by
  obtain ⟨recency, hInv⟩ := h
  obtain ⟨r', hr', hKey, hBounds, hBuf⟩ := hInv.sound.stored a c hc
  simp only [Contents.matches, Bool.and_eq_true, decide_eq_true_eq] at hMatch
  obtain ⟨⟨⟨⟨-, hSameKey⟩, hShape⟩, hLength⟩, hAll⟩ := hMatch
  have hCount := hDimensions a c hc hSameKey
  have hSameBounds : c.computed_bounds = r.computed_bounds := eq_of_bufferHasShape hCount hShape
  refine ⟨r', hr', hKey.symm.trans hSameKey, hBounds.symm.trans hSameBounds, ?_, hBuf⟩
  rw [hBuf] at hLength hAll
  refine dim_of_allBoundsEqual hLength r.dimensions (fun b hb => ?_) hAll
  rw [r'.dimensions b hb, ← hBounds, hCount]

/-- In every run of allowed calls the references are counted, a lookup that hits yields the
buffers of a store of its request, and the next allowed call returns. -/
theorem references_kept (h : Reachable Allowed w) :
    Counted w ∧ (∀ c, Allowed w c → ∃ w', Step w c w') ∧
      ∀ r mallocs n result, Allowed w (.lookup r mallocs) → SameDimensions w.cache r →
        (∀ fuel ≥ n, w.cache.halide_memoization_cache_lookup fuel r mallocs = .ok result) →
        result.code = 0 →
        ∃ r' ∈ w.stored, r'.key = r.key ∧ r'.computed_bounds = r.computed_bounds ∧
          r'.tuple_buffers.map Buffer.dim = r.tuple_buffers.map Buffer.dim ∧
          result.tuple_buffers = r'.tuple_buffers := by
  refine ⟨h.inv.counted, fun c hAllowed => h.returns hAllowed, ?_⟩
  intro r mallocs n result hAllowed hDimensions hResult hCode
  obtain ⟨recency, hInv⟩ := h.inv
  obtain ⟨result', recency', hEq, -, hHit⟩ := lookup_spec hInv hAllowed.1 hAllowed.2.2
  have hSame : result = result' := Except.ok.inj <|
    (hResult (n + recency.length + 1) (by omega)).symm.trans
      (hEq (n + recency.length + 1) (by omega))
  subst hSame
  obtain ⟨a, c, hc, hMatch, hBuf⟩ := hHit hCode
  rw [hBuf]
  exact h.inv.hit hc hMatch hDimensions

theorem references_kept_hit : ∃ (w : World) (result : Cache.LookupResult), Counted w ∧ w.cache.contents 1 ≠ none ∧
    (∀ fuel ≥ 8, w.cache.halide_memoization_cache_lookup fuel (.scalar [] 0) [] = .ok result) ∧
    result.code = 0 ∧ ∃ r' ∈ w.stored, r'.key = [] ∧ result.tuple_buffers = r'.tuple_buffers := by
  obtain ⟨w, hReachable, hOther, hOne, result, hResult, hCode⟩ := reachable_stored
  obtain ⟨hCounted, -, hHits⟩ := references_kept hReachable
  have hEntry : ∀ a c, w.cache.contents a = some c → c = ⟨[], djbHash [], 1, [], [⟨1, [], 2⟩]⟩ := by
    intro a c hc
    by_cases ha : a = 1
    · rw [ha, hOne] at hc
      exact (Option.some.inj hc).symm
    · simp [Cache.contents, hOther a ha] at hc
  have hAllowed : Allowed w (.lookup (.scalar [] 0) []) := by
    refine ⟨⟨List.nodup_nil, by simp⟩, fun _ _ _ _ => Nat.zero_le _, fun a c hc _ => ?_⟩
    rw [hEntry a c hc]
    decide
  have hDimensions : SameDimensions w.cache (.scalar [] 0) := by
    intro a c hc _
    rw [hEntry a c hc]
    rfl
  obtain ⟨r', hMem, hKey, -, -, hBuffers⟩ := hHits _ _ 8 result hAllowed hDimensions hResult hCode
  exact ⟨w, result, hCounted, by simp [hOne], hResult, hCode, r', hMem, hKey, hBuffers⟩

/-- A request for a row of ten bytes. -/
def Request.row (key : List UInt8) (host : Host) : Request :=
  ⟨key, [⟨0, 10, 1, 0⟩], [⟨host, [⟨0, 10, 1, 0⟩], 1⟩], by simp, by simp⟩

/-- Pruning uses an entry that it has freed, and a lookup that asks for no dimension is
answered with a row stored under its key. -/
theorem references_lost : (∃ w c, Reachable Permitted w ∧ Permitted w c ∧ Faults w c) ∧
    ∃ w r result, Reachable Permitted w ∧ Permitted w (.lookup r []) ∧
      (∀ k, w.cache.halide_memoization_cache_lookup (k + 8) r [] = .ok result) ∧ result.code = 0 ∧
      ∀ r' ∈ w.stored, r'.computed_bounds ≠ r.computed_bounds := by
  constructor
  · obtain ⟨w, hReachable, -, -, hFaults⟩ := reachable_dangling
    exact ⟨w, .set_size 1, hReachable, trivial, hFaults⟩
  · have hMissed := Reachable.next .init (.lookup (.row [] 0) [some 1])
      (show Permitted _ _ from ⟨by decide, by decide⟩) 8 fun k => rfl
    have hStored := hMissed.next (.store (.row [] 1) (mallocAt 1) true)
      ⟨⟨by decide, by decide⟩, mallocAt_fresh 1⟩ 8 fun k => rfl
    refine ⟨_, .scalar [] 0, _, hStored, ⟨by decide, by decide⟩, fun k => rfl, rfl, ?_⟩
    intro r' hr'
    obtain rfl := List.mem_singleton.mp hr'
    decide

end Vyasa.MemoizationCache
