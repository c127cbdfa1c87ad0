import Vyasa.MemoizationCache.Cache
import Vyasa.Linked.Segments

/-! The links of the cache as functions of the address, and the shape they have: one list
by recency and a chain for each index of the table. -/
namespace Vyasa.MemoizationCache

open Linked

namespace Cache

variable {s : Cache} {a b : Addr} {e : CacheEntry}

def next (s : Cache) (a : Addr) : Option Addr := (s.heap a).bind (·.next)

def more (s : Cache) (a : Addr) : Option Addr := (s.heap a).bind (·.more_recent)

def less (s : Cache) (a : Addr) : Option Addr := (s.heap a).bind (·.less_recent)

def contents (s : Cache) (a : Addr) : Option Contents := (s.heap a).map (·.toContents)

/-- The cache with another entry at an address. -/
def put (s : Cache) (a : Addr) (e : CacheEntry) : Cache :=
  { s with heap := Function.update s.heap a (some e) }

theorem deref_eq (h : s.heap a = some e) : s.deref a = .ok e := by
  simp [deref, h]

theorem modify_eq (f : CacheEntry → CacheEntry) (h : s.heap a = some e) :
    s.modify a f = .ok (s.put a (f e)) := by
  simp [modify, h, put]

@[simp] theorem put_heap_self (s : Cache) (a : Addr) (e : CacheEntry) :
    (s.put a e).heap a = some e := by
  simp [put]

theorem put_heap_of_ne (s : Cache) (e : CacheEntry) (h : b ≠ a) :
    (s.put a e).heap b = s.heap b := by
  simp [put, Function.update_of_ne h]

@[simp] theorem put_next (s : Cache) (a : Addr) (e : CacheEntry) :
    (s.put a e).next = Function.update s.next a e.next := by
  funext b
  by_cases h : b = a <;> simp [next, put, h]

@[simp] theorem put_more (s : Cache) (a : Addr) (e : CacheEntry) :
    (s.put a e).more = Function.update s.more a e.more_recent := by
  funext b
  by_cases h : b = a <;> simp [more, put, h]

@[simp] theorem put_less (s : Cache) (a : Addr) (e : CacheEntry) :
    (s.put a e).less = Function.update s.less a e.less_recent := by
  funext b
  by_cases h : b = a <;> simp [less, put, h]

@[simp] theorem put_contents (s : Cache) (a : Addr) (e : CacheEntry) :
    (s.put a e).contents = Function.update s.contents a (some e.toContents) := by
  funext b
  by_cases h : b = a <;> simp [contents, put, h]

theorem next_eq (h : s.heap a = some e) : s.next a = e.next := by simp [next, h]

theorem more_eq (h : s.heap a = some e) : s.more a = e.more_recent := by simp [more, h]

theorem less_eq (h : s.heap a = some e) : s.less a = e.less_recent := by simp [less, h]

theorem contents_eq (h : s.heap a = some e) : s.contents a = some e.toContents := by
  simp [contents, h]

/-- Writing back what an entry has changes nothing. -/
theorem update_next_self (h : s.heap a = some e) : Function.update s.next a e.next = s.next := by
  rw [← next_eq h, Function.update_eq_self]

theorem update_more_self (h : s.heap a = some e) :
    Function.update s.more a e.more_recent = s.more := by
  rw [← more_eq h, Function.update_eq_self]

theorem update_less_self (h : s.heap a = some e) :
    Function.update s.less a e.less_recent = s.less := by
  rw [← less_eq h, Function.update_eq_self]

theorem update_contents_self (h : s.heap a = some e) :
    Function.update s.contents a (some e.toContents) = s.contents := by
  rw [← contents_eq h, Function.update_eq_self]

/-- The bytes of the buffers of an entry. -/
def bytesAt (s : Cache) (a : Addr) : Int := ((s.contents a).map fun c => bytesOf c.buf).getD 0

/-- The bytes of the buffers of the listed entries. -/
def totalBytes (s : Cache) (l : List Addr) : Int := (l.map s.bytesAt).sum

theorem totalBytes_congr {s s' : Cache} {l : List Addr}
    (h : ∀ a ∈ l, s'.contents a = s.contents a) : s'.totalBytes l = s.totalBytes l := by
  have hMap : l.map s'.bytesAt = l.map s.bytesAt :=
    List.map_congr_left fun a ha => by simp only [bytesAt, h a ha]
  rw [totalBytes, totalBytes, hMap]

end Cache

/-- The entries that are alive are those on the recency list; the chain of an index holds
those whose hash leads there. -/
structure Shaped (s : Cache) (recency : List Addr) : Prop where
  list : Doubly s.less s.more none s.least_recently_used none s.most_recently_used recency
  nodup : recency.Nodup
  live : ∀ a, s.heap a ≠ none ↔ a ∈ recency
  chain : ∀ i < kHashTableSize, ∃ l, Chain s.next none (s.cache_entries i) l ∧ l.Nodup ∧
    ∀ a, a ∈ l ↔ ∃ c, s.contents a = some c ∧ c.hash % kHashTableSize = i

theorem Shaped.init : Shaped Cache.init [] :=
  ⟨⟨rfl, rfl⟩, List.nodup_nil, by simp [Cache.init],
    fun _ _ => ⟨[], rfl, List.nodup_nil, by simp [Cache.contents, Cache.init]⟩⟩

section Shaped

variable {s s' : Cache} {recency : List Addr} {a b : Addr} {c : Contents}

theorem Shaped.entry (h : Shaped s recency) (ha : a ∈ recency) : ∃ e, s.heap a = some e :=
  Option.ne_none_iff_exists'.mp ((h.live a).mpr ha)

theorem Shaped.mem_of_heap (h : Shaped s recency) {e : CacheEntry} (ha : s.heap a = some e) :
    a ∈ recency :=
  (h.live a).mp (by simp [ha])

theorem Shaped.mem_of_contents (h : Shaped s recency) (ha : s.contents a = some c) :
    a ∈ recency := by
  obtain ⟨e, he, -⟩ := Option.map_eq_some_iff.mp ha
  exact h.mem_of_heap he

theorem Shaped.contents (h : Shaped s recency) (ha : a ∈ recency) :
    ∃ c, s.contents a = some c := by
  obtain ⟨e, he⟩ := h.entry ha
  exact ⟨_, Cache.contents_eq he⟩

end Shaped

end Vyasa.MemoizationCache
