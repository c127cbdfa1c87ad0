import Vyasa.Hashmap.Calls
import Mathlib.Tactic.Ring

/-! The hash map refines a finite map that remembers in which order its keys were inserted and looked up;
when the size of its entries stays bounded. -/
namespace Vyasa.Hashmap

open Linked

variable {α : Type}

/-! ### The map -/

/-- The pairs of a map, the key that was inserted or looked up last in front. -/
structure Recent (α : Type) where
  entries : List (List UInt8 × α)
  max_size : ℤ

inductive Call (α : Type) where
  | store (key : List UInt8) (value : α) (new_entry : Addr)
  | lookup (key : List UInt8)
  | set_size (size : ℤ)
  | cleanup

namespace Recent

def init : Recent α := ⟨[], kDefaultCacheSize⟩

def get (m : Recent α) (key : List UInt8) : Option α := (m.entries.find? (·.1 = key)).map Prod.snd

def keys (m : Recent α) : List (List UInt8) := m.entries.map Prod.fst

/-- A present key is moved to the front by a lookup, and keeps its place when its value is overwritten. -/
def apply (m : Recent α) : Call α → Recent α
  | .store key value _ =>
    if key ∈ m.keys then { m with entries := m.entries.map fun p => if p.1 = key then (key, value) else p }
    else { m with entries := (key, value) :: m.entries }
  | .lookup key =>
    match m.get key with
    | some value => { m with entries := (key, value) :: m.entries.filter (·.1 ≠ key) }
    | none => m
  | .set_size size => { m with max_size := if size = 0 then kDefaultCacheSize else size }
  | .cleanup => { m with entries := [] }

/-- What a call returns. -/
def answer (m : Recent α) : Call α → ℤ × Option α
  | .lookup key =>
    match m.get key with
    | some value => (0, some value)
    | none => (1, none)
  | _ => (0, none)

end Recent

/-- A call with values of `size` bytes. -/
def Call.run (fuel size : ℕ) (s : HashMap α) : Call α → Except Fault ((ℤ × Option α) × HashMap α)
  | .store key value new_entry => do return ((0, none), ← s.store fuel key value size new_entry)
  | .lookup key => s.lookup fuel key size
  | .set_size size => do return ((0, none), ← s.set_size fuel size)
  | .cleanup => do return ((0, none), ← s.cleanup fuel)

/-! ### The relation -/

/-- The pair that the entry at an address holds. -/
def HashMap.pairAt (s : HashMap α) (a : Addr) : Option (List UInt8 × α) := (s.contents a).map fun e => (e.key, e.value)

/-- What holds of each entry. -/
structure Entry (size : ℕ) (e : Contents α) : Prop where
  hash : e.hash = djb_hash e.key
  value_size : e.value_size = size
  in_use : e.in_use_count ≠ 0

/-- The recency list leads through the pairs of the map in their order, and the chains through the same entries. -/
structure Represents (size : ℕ) (s : HashMap α) (recency : List Addr) (m : Recent α) : Prop where
  shaped : Shaped s recency
  entries : m.entries = recency.filterMap s.pairAt
  nodup : m.keys.Nodup
  sound : ∀ a e, s.contents a = some e → Entry size e
  owned : Owned (copyOf s.contents) s.copies s.destroyed
  current_cache_size : s.current_cache_size = m.entries.length * size
  max_cache_size : s.max_cache_size = m.max_size

variable {size : ℕ} {s s' : HashMap α} {recency : List Addr} {m : Recent α} {a b : Addr} {e : Contents α}
  {key : List UInt8} {value : α} {P Q : List (List UInt8 × α)}

/-- The map after `init`. -/
def HashMap.empty : HashMap α := { HashMap.zero with max_cache_size := kDefaultCacheSize, inited := true }

theorem init_zero : (HashMap.zero : HashMap α).init = .ok .empty := rfl

theorem Represents.init : Represents size (HashMap.empty : HashMap α) [] Recent.init := by
  refine ⟨.empty (fun _ => rfl) (fun _ _ => rfl) rfl rfl, rfl, List.nodup_nil, ?_, Owned.none, ?_, rfl⟩
  · exact fun a e h => absurd h (Option.some_ne_none e).symm
  · show (0 : ℤ) = ((0 : ℕ) : ℤ) * size
    rw [Nat.cast_zero, zero_mul]

/-! ### Keys -/

namespace Recent

theorem not_mem_of_nodup (hEntries : m.entries = P ++ (key, value) :: Q) (hNodup : m.keys.Nodup) :
    (∀ p ∈ P, p.1 ≠ key) ∧ ∀ p ∈ Q, p.1 ≠ key := by
  rw [keys, hEntries, List.map_append, List.map_cons, List.nodup_middle, List.nodup_cons, ← List.map_append] at hNodup
  have hNe : ∀ p ∈ P ++ Q, p.1 ≠ key := by
    intro p hp hEq
    exact hNodup.1 (List.mem_map.mpr ⟨p, hp, hEq⟩)
  exact ⟨fun p hp => hNe p (List.mem_append_left _ hp), fun p hp => hNe p (List.mem_append_right _ hp)⟩

theorem mem_keys (hEntries : m.entries = P ++ (key, value) :: Q) : key ∈ m.keys := by
  rw [keys, hEntries]
  exact List.mem_map_of_mem (f := Prod.fst) (List.mem_append_right _ List.mem_cons_self)

theorem get_eq (hEntries : m.entries = P ++ (key, value) :: Q) (hNodup : m.keys.Nodup) : m.get key = some value := by
  obtain ⟨hP, -⟩ := not_mem_of_nodup hEntries hNodup
  have hFind : P.find? (·.1 = key) = none := List.find?_eq_none.mpr fun p hp => by simpa using hP p hp
  rw [get, hEntries, List.find?_append, hFind, Option.none_or, List.find?_cons_of_pos (by simp)]
  rfl

theorem get_eq_none (h : key ∉ m.keys) : m.get key = none := by
  rw [get, Option.map_eq_none_iff, List.find?_eq_none]
  intro p hp hEq
  exact h (List.mem_map.mpr ⟨p, hp, by simpa using hEq⟩)

theorem filter_eq (hEntries : m.entries = P ++ (key, value) :: Q) (hNodup : m.keys.Nodup) :
    m.entries.filter (·.1 ≠ key) = P ++ Q := by
  obtain ⟨hP, hQ⟩ := not_mem_of_nodup hEntries hNodup
  rw [hEntries, List.filter_append, List.filter_cons_of_neg (by simp),
    List.filter_eq_self.mpr fun p hp => by simpa using hP p hp,
    List.filter_eq_self.mpr fun p hp => by simpa using hQ p hp]

theorem map_eq (hEntries : m.entries = P ++ (key, value) :: Q) (hNodup : m.keys.Nodup) (value' : α) :
    (m.entries.map fun p => if p.1 = key then (key, value') else p) = P ++ (key, value') :: Q := by
  obtain ⟨hP, hQ⟩ := not_mem_of_nodup hEntries hNodup
  have hSame {l : List (List UInt8 × α)} (h : ∀ p ∈ l, p.1 ≠ key) :
      (l.map fun p => if p.1 = key then (key, value') else p) = l :=
    (List.map_congr_left fun p hp => if_neg (h p hp)).trans (List.map_id' l)
  rw [hEntries, List.map_append, List.map_cons, hSame hP, hSame hQ, if_pos rfl]

end Recent

namespace Represents

/-- The pairs before and after that of an entry. -/
theorem split (h : Represents size s recency m) (ha : s.contents a = some e) :
    ∃ p q, recency = p ++ a :: q ∧
      m.entries = p.filterMap s.pairAt ++ (e.key, e.value) :: q.filterMap s.pairAt := by
  obtain ⟨p, q, rfl⟩ := List.append_of_mem (h.shaped.mem ha)
  refine ⟨p, q, rfl, ?_⟩
  rw [h.entries, List.filterMap_append, List.filterMap_cons_some (by rw [HashMap.pairAt, ha]; rfl)]

theorem mem_keys_iff (h : Represents size s recency m) :
    key ∈ m.keys ↔ ∃ a e, s.contents a = some e ∧ e.hash = djb_hash key ∧ e.key = key := by
  constructor
  · intro hKey
    obtain ⟨p, hp, rfl⟩ := List.mem_map.mp hKey
    rw [h.entries, List.mem_filterMap] at hp
    obtain ⟨a, -, hPair⟩ := hp
    obtain ⟨e, he, rfl⟩ := Option.map_eq_some_iff.mp hPair
    exact ⟨a, e, he, (h.sound a e he).hash, rfl⟩
  · rintro ⟨a, e, he, -, rfl⟩
    obtain ⟨p, q, -, hEntries⟩ := h.split he
    exact Recent.mem_keys hEntries

/-- Where a lookup or a store finds its key. -/
theorem find (h : Represents size s recency m) (key : List UInt8) :
    (key ∈ m.keys ∧ ∃ a e, s.contents a = some e ∧ e.key = key ∧ ∀ fuel, recency.length < fuel →
      s.find (djb_hash key) key fuel (s.cache_entries (djb_hash key % kHashTableSize)) = .ok (some a)) ∨
    (key ∉ m.keys ∧ ∀ fuel, recency.length < fuel →
      s.find (djb_hash key) key fuel (s.cache_entries (djb_hash key % kHashTableSize)) = .ok none) := by
  obtain ⟨found, hFind, hSome, hNone⟩ := h.shaped.find (djb_hash key) key
  cases found with
  | some a =>
    obtain ⟨e, he, hHash, hKey⟩ := hSome a rfl
    exact Or.inl ⟨h.mem_keys_iff.mpr ⟨a, e, he, hHash, hKey⟩, a, e, he, hKey, hFind⟩
  | none =>
    refine Or.inr ⟨fun hMem => ?_, hFind⟩
    obtain ⟨a, e, he, hMatch⟩ := h.mem_keys_iff.mp hMem
    exact hNone rfl a e he hMatch

theorem in_use (h : Represents size s recency m) (a : Addr) (e : Contents α) (he : s.contents a = some e) :
    e.in_use_count ≠ 0 := (h.sound a e he).in_use

end Represents

/-! ### Changes of one entry -/

/-- Other contents of an entry under the same hash. -/
theorem Shaped.set (h : Shaped s recency) (ha : s.contents a = some e) (e' : Contents α) (hHash : e'.hash = e.hash) :
    Shaped { s with contents := Function.update s.contents a (some e') } recency := by
  refine h.congr rfl rfl rfl rfl rfl rfl fun b => ?_
  show (Function.update s.contents a (some e') b).map Contents.hash = _
  by_cases hb : b = a
  · rw [hb, Function.update_self, ha, Option.map_some, Option.map_some, hHash]
  · rw [Function.update_of_ne hb]

theorem pairAt_of_ne {e' : Option (Contents α)} (hb : b ≠ a) :
    HashMap.pairAt { s with contents := Function.update s.contents a e' } b = s.pairAt b := by
  show (Function.update s.contents a e' b).map _ = _
  rw [Function.update_of_ne hb]
  rfl

theorem filterMap_of_not_mem {e' : Option (Contents α)} {l : List Addr} (ha : a ∉ l) :
    l.filterMap (HashMap.pairAt { s with contents := Function.update s.contents a e' }) = l.filterMap s.pairAt :=
  List.filterMap_congr fun _ hb => pairAt_of_ne (ne_of_mem_of_not_mem hb ha)

theorem sound_update {contents : Addr → Option (Contents α)} (h : ∀ a e, contents a = some e → Entry size e)
    {e' : Contents α} (he : Entry size e') : ∀ b d, Function.update contents a (some e') b = some d → Entry size d := by
  intro b d hd
  by_cases hb : b = a
  · rw [hb, Function.update_self] at hd
    exact Option.some.inj hd ▸ he
  · rw [Function.update_of_ne hb] at hd
    exact h b d hd

/-- The same copy is held. -/
theorem copyOf_set (ha : s.contents a = some e) (e' : Contents α) (hCopy : e'.copy = e.copy) :
    copyOf (Function.update s.contents a (some e')) = copyOf s.contents := by
  rw [copyOf_update, Option.map_some, hCopy]
  refine Function.update_eq_self_iff.mpr ?_
  rw [copyOf, ha, Option.map_some]

/-! ### The calls -/

namespace Represents

theorem lookup_hit (h : Represents size s recency m) (ha : s.contents a = some e) (hKey : e.key = key)
    (hFind : ∀ fuel, recency.length < fuel →
      s.find (djb_hash key) key fuel (s.cache_entries (djb_hash key % kHashTableSize)) = .ok (some a))
    (hCount : e.in_use_count + 1 < 2 ^ 32) :
    ∃ s' recency', (∀ fuel, recency.length < fuel → s.lookup fuel key size = .ok ((0, some e.value), s')) ∧
      Represents size s' recency' (m.apply (.lookup key)) ∧ m.get key = some e.value := by
  obtain ⟨p, q, rfl, hEntries⟩ := h.split ha
  subst hKey
  have hGet := Recent.get_eq hEntries h.nodup
  obtain ⟨less, more, mru, lru, hTouch, hShaped⟩ := touch_spec h.shaped
  have hPerm : (a :: (p ++ q)).Perm (p ++ a :: q) := List.perm_middle.symm
  obtain ⟨hFresh, -⟩ := List.nodup_cons.mp (hPerm.nodup_iff.mpr h.shaped.nodup)
  set e' : Contents α := { e with in_use_count := (e.in_use_count + 1) % 2 ^ 32 } with he'
  have hEntry := h.sound a e ha
  have hIn : e'.in_use_count ≠ 0 := by
    rw [he']
    show (e.in_use_count + 1) % 2 ^ 32 ≠ 0
    rw [Nat.mod_eq_of_lt hCount]
    exact Nat.succ_ne_zero _
  have hApply : m.apply (.lookup e.key) = ⟨(e.key, e.value) :: (p ++ q).filterMap s.pairAt, m.max_size⟩ := by
    rw [Recent.apply, hGet]
    simp only [Recent.filter_eq hEntries h.nodup, List.filterMap_append]
  refine ⟨{ s with
    contents := Function.update s.contents a (some e')
    less_recent := less
    more_recent := more
    most_recently_used := mru
    least_recently_used := lru }, a :: (p ++ q), fun fuel hFuel => ?_, ?_, hGet⟩
  · rw [HashMap.lookup, hFind fuel hFuel]
    simp only [bind, Except.bind, hTouch, HashMap.deref, ha, hEntry.value_size, ne_eq, not_true, if_false, pure, Except.pure, he']
  · rw [hApply]
    have hPerm' : ((e.key, e.value) :: (p ++ q).filterMap s.pairAt).Perm m.entries := by
      rw [hEntries, List.filterMap_append]
      exact List.perm_middle.symm
    refine ⟨hShaped.set ha e' rfl, ?_, ?_, sound_update h.sound ⟨hEntry.hash, hEntry.value_size, hIn⟩, ?_, ?_,
      h.max_cache_size⟩
    · rw [List.filterMap_cons_some (b := (e.key, e.value))]
      · exact congrArg _ (filterMap_of_not_mem hFresh).symm
      · show (Function.update s.contents a (some e') a).map _ = _
        rw [Function.update_self]
        rfl
    · exact ((hPerm'.map Prod.fst).nodup_iff).mpr h.nodup
    · show Owned (copyOf (Function.update s.contents a (some e'))) s.copies s.destroyed
      rw [copyOf_set ha e' rfl]
      exact h.owned
    · rw [hPerm'.length_eq]
      exact h.current_cache_size

theorem lookup_miss (size : ℕ) (hKey : key ∉ m.keys)
    (hFind : ∀ fuel, recency.length < fuel →
      s.find (djb_hash key) key fuel (s.cache_entries (djb_hash key % kHashTableSize)) = .ok none) :
    (∀ fuel, recency.length < fuel → s.lookup fuel key size = .ok ((1, none), s)) ∧ m.apply (.lookup key) = m ∧
      m.get key = none := by
  have hGet := Recent.get_eq_none hKey
  refine ⟨fun fuel hFuel => ?_, by rw [Recent.apply, hGet], hGet⟩
  rw [HashMap.lookup, hFind fuel hFuel]
  rfl

theorem store_hit (h : Represents size s recency m) (ha : s.contents a = some e) (hKey : e.key = key)
    (hFind : ∀ fuel, recency.length < fuel →
      s.find (djb_hash key) key fuel (s.cache_entries (djb_hash key % kHashTableSize)) = .ok (some a))
    (value : α) (new_entry : Addr) :
    ∃ s', (∀ fuel, recency.length < fuel → s.store fuel key value size new_entry = .ok s') ∧
      Represents size s' recency (m.apply (.store key value new_entry)) ∧
      s'.current_cache_size = s.current_cache_size ∧ s'.max_cache_size = s.max_cache_size := by
  obtain ⟨p, q, rfl, hEntries⟩ := h.split ha
  subst hKey
  have hEntry := h.sound a e ha
  obtain ⟨hP, hQ⟩ : a ∉ p ∧ a ∉ q := by
    have hNodup := h.shaped.nodup
    rw [List.nodup_middle, List.nodup_cons, List.mem_append, not_or] at hNodup
    exact hNodup.1
  set e' : Contents α := { e with value := value, copy := s.copies } with he'
  have hApply : m.apply (.store e.key value new_entry) =
      ⟨p.filterMap s.pairAt ++ (e.key, value) :: q.filterMap s.pairAt, m.max_size⟩ := by
    rw [Recent.apply, if_pos (Recent.mem_keys hEntries), Recent.map_eq hEntries h.nodup]
  refine ⟨{ s with
    contents := Function.update s.contents a (some e')
    copies := s.copies + 1
    destroyed := s.destroyed ++ [e.copy] }, fun fuel hFuel => ?_, ?_, rfl, rfl⟩
  · rw [HashMap.store, hFind fuel hFuel]
    simp only [bind, Except.bind, HashMap.overwrite, HashMap.deref_eq ha, hEntry.value_size, ne_eq, not_true, if_false,
      pure, Except.pure, he']
  · rw [hApply]
    refine ⟨(h.shaped.set ha e' rfl).congr rfl rfl rfl rfl rfl rfl fun _ => rfl, ?_, ?_,
      sound_update h.sound ⟨hEntry.hash, hEntry.value_size, hEntry.in_use⟩, ?_, ?_, h.max_cache_size⟩
    · rw [List.filterMap_append, List.filterMap_cons_some (b := (e.key, value))]
      · exact congrArg₂ _ (filterMap_of_not_mem hP).symm (congrArg _ (filterMap_of_not_mem hQ).symm)
      · show (Function.update s.contents a (some e') a).map _ = _
        rw [Function.update_self]
        rfl
    · have hNodup := h.nodup
      rw [Recent.keys, hEntries, List.map_append, List.map_cons] at hNodup
      rw [Recent.keys, List.map_append, List.map_cons]
      exact hNodup
    · have hDestroyed := (h.owned.destroy (a := a) (c := e.copy) (by rw [copyOf, ha]; rfl)).make
        (Function.update_self _ _ _)
      rw [Function.update_idem] at hDestroyed
      show Owned (copyOf (Function.update s.contents a (some e'))) (s.copies + 1) (s.destroyed ++ [e.copy])
      rw [copyOf_update]
      exact hDestroyed
    · have hSize := h.current_cache_size
      rw [hEntries, List.length_append, List.length_cons] at hSize
      rw [List.length_append, List.length_cons]
      exact hSize

theorem store_miss (h : Represents size s recency m) (hKey : key ∉ m.keys) {new_entry : Addr}
    (hFresh : s.contents new_entry = none)
    (hFind : ∀ fuel, recency.length < fuel →
      s.find (djb_hash key) key fuel (s.cache_entries (djb_hash key % kHashTableSize)) = .ok none) (value : α) :
    ∃ s', (∀ fuel, recency.length < fuel → s.store fuel key value size new_entry = .ok s') ∧
      Represents size s' (new_entry :: recency) (m.apply (.store key value new_entry)) ∧
      s'.current_cache_size = s.current_cache_size + size ∧ s'.max_cache_size = s.max_cache_size := by
  let e : Contents α := ⟨key, djb_hash key, 0, size, value, s.copies⟩
  have hApply : m.apply (.store key value new_entry) = ⟨(key, value) :: m.entries, m.max_size⟩ := by
    rw [Recent.apply, if_neg hKey]
  have hNotMem : new_entry ∉ recency := fun ha => (h.shaped.live new_entry).mpr ha hFresh
  refine ⟨linked s (djb_hash key % kHashTableSize) new_entry e, fun fuel hFuel => ?_, ?_, rfl, rfl⟩
  · have hPrune := prune_allocated h.shaped h.in_use hFresh e hFuel
    have hLink := link_eq h.shaped hFresh e (djb_hash key % kHashTableSize)
    rw [HashMap.store, hFind fuel hFuel]
    show ((allocated s new_entry e).prune fuel >>= fun s => s.link _ new_entry) = _
    rw [hPrune]
    exact hLink
  · rw [hApply]
    refine ⟨linked_shaped h.shaped hFresh e, ?_, ?_, sound_update h.sound ⟨rfl, rfl, one_ne_zero⟩, ?_, ?_,
      h.max_cache_size⟩
    · rw [List.filterMap_cons_some (b := (key, value)), h.entries]
      · exact congrArg _ (filterMap_of_not_mem hNotMem).symm
      · show (Function.update s.contents new_entry (some { e with in_use_count := 1 }) new_entry).map _ = _
        rw [Function.update_self]
        rfl
    · exact List.nodup_cons.mpr ⟨hKey, h.nodup⟩
    · have hMade := h.owned.make (a := new_entry) (by rw [copyOf, hFresh]; rfl)
      show Owned (copyOf (Function.update s.contents new_entry (some { e with in_use_count := 1 }))) (s.copies + 1)
        s.destroyed
      rw [copyOf_update]
      exact hMade
    · show s.current_cache_size + (size : ℤ) = _
      rw [h.current_cache_size, List.length_cons]
      push_cast
      ring

theorem set_size_spec (h : Represents size s recency m) (limit : ℤ) :
    ∃ s', (∀ fuel, recency.length < fuel → s.set_size fuel limit = .ok s') ∧
      Represents size s' recency (m.apply (.set_size limit)) := by
  have hShaped : Shaped { s with max_cache_size := if limit = 0 then kDefaultCacheSize else limit } recency :=
    h.shaped.congr rfl rfl rfl rfl rfl rfl fun _ => rfl
  refine ⟨_, fun fuel hFuel => prune_eq hShaped h.in_use hFuel, hShaped, h.entries, h.nodup, h.sound, h.owned,
    h.current_cache_size, rfl⟩

theorem cleanup_spec (h : Represents size s recency m) :
    ∃ s', (∀ fuel, recency.length < fuel → s.cleanup fuel = .ok s') ∧ Represents size s' [] (m.apply .cleanup) ∧
      ∀ i < s'.copies, s'.destroyed.count i = 1 := by
  obtain ⟨s', hRun, hShaped, hNone, hOwned, hSize, hMax⟩ := Hashmap.cleanup_spec h.shaped h.owned
  refine ⟨s', hRun, ⟨hShaped, rfl, List.nodup_nil, fun a e he => ?_, hOwned, ?_, hMax.trans h.max_cache_size⟩,
    fun i hi => hOwned.count_eq_one (fun a => ?_) hi⟩
  · rw [hNone a] at he
    exact absurd he (Option.some_ne_none e).symm
  · rw [hSize]
    show (0 : ℤ) = ((0 : ℕ) : ℤ) * size
    rw [Nat.cast_zero, zero_mul]
  · rw [copyOf, hNone a, Option.map_none]

end Represents

/-! ### Runs -/

/-- What the allocator and the counts of a call's entries allow: an entry is allocated where there is none, and a
count of users does not overflow. -/
def Permitted (s : HashMap α) : Call α → Prop
  | .store _ _ new_entry => s.contents new_entry = none
  | .lookup key => ∀ a e, s.contents a = some e → e.key = key → e.in_use_count + 1 < 2 ^ 32
  | _ => True

/-- The map after some calls with values of `size` bytes, and the pairs that it stands for. -/
inductive Reached (size : ℕ) : HashMap α → Recent α → Prop where
  | init : Reached size .empty .init
  | call {s s' : HashMap α} {m : Recent α} {c : Call α} {answer : ℤ × Option α} {n : ℕ} :
      Reached size s m → Permitted s c → (∀ fuel, n < fuel → c.run fuel size s = .ok (answer, s')) →
      Reached size s' (m.apply c)

/-- The sizes of the entries on the recency list. -/
def HashMap.totalSize (s : HashMap α) (recency : List Addr) : ℕ :=
  (recency.map fun a => ((s.contents a).map Contents.value_size).getD 0).sum

/-- The bound after a call: a store may exceed the maximum by its own entry. -/
def Bounded (size : ℕ) (s : HashMap α) (recency : List Addr) : Call α → Prop
  | .store _ _ _ => (s.totalSize recency : ℤ) ≤ s.max_cache_size + size
  | .set_size _ => (s.totalSize recency : ℤ) ≤ s.max_cache_size
  | _ => True

/-- The entries that are there before a call fit into the maximum. -/
def Fits (size : ℕ) (m : Recent α) : Call α → Prop
  | .store key _ _ => (m.entries.length * size : ℤ) ≤ if key ∈ m.keys then m.max_size + size else m.max_size
  | .set_size limit => (m.entries.length * size : ℤ) ≤ if limit = 0 then kDefaultCacheSize else limit
  | _ => True

theorem Represents.totalSize (h : Represents size s recency m) : s.totalSize recency = m.entries.length * size := by
  have hEach : ∀ a ∈ recency, ((s.contents a).map Contents.value_size).getD 0 = size := by
    intro a ha
    obtain ⟨e, he⟩ := h.shaped.entry ha
    rw [he]
    exact (h.sound a e he).value_size
  have hLength : m.entries.length = recency.length := by
    rw [h.entries, List.length_filterMap_eq_countP, List.countP_eq_length]
    intro a ha
    obtain ⟨e, he⟩ := h.shaped.entry ha
    rw [HashMap.pairAt, he]
    rfl
  rw [HashMap.totalSize, List.map_congr_left hEach, List.map_const', List.sum_replicate_nat, hLength]

theorem call_spec (h : Represents size s recency m) (c : Call α) (hc : Permitted s c) :
    ∃ s' recency', (∀ fuel, recency.length < fuel → c.run fuel size s = .ok (m.answer c, s')) ∧
      Represents size s' recency' (m.apply c) ∧ (c = .cleanup → ∀ i < s'.copies, s'.destroyed.count i = 1) ∧
      (Bounded size s' recency' c ↔ Fits size m c) := by
  cases c with
  | store key value new_entry =>
    rcases h.find key with ⟨hKey, a, e, he, hEq, hFind⟩ | ⟨hKey, hFind⟩
    · obtain ⟨s', hRun, hRep, hSize, hMax⟩ := h.store_hit he hEq hFind value new_entry
      refine ⟨s', recency, fun fuel hFuel => ?_, hRep, fun hEq => (nomatch hEq), ?_⟩
      · rw [Call.run, hRun fuel hFuel]
        rfl
      · rw [Bounded, hRep.totalSize, Fits, if_pos hKey]
        push_cast
        rw [← hRep.current_cache_size, hSize, h.current_cache_size, hMax, h.max_cache_size]
    · obtain ⟨s', hRun, hRep, hSize, hMax⟩ := h.store_miss hKey hc hFind value
      refine ⟨s', new_entry :: recency, fun fuel hFuel => ?_, hRep, fun hEq => (nomatch hEq), ?_⟩
      · rw [Call.run, hRun fuel hFuel]
        rfl
      · rw [Bounded, hRep.totalSize, Fits, if_neg hKey]
        push_cast
        rw [← hRep.current_cache_size, hSize, h.current_cache_size, hMax, h.max_cache_size, add_le_add_iff_right]
  | lookup key =>
    rcases h.find key with ⟨-, a, e, he, hKey, hFind⟩ | ⟨hKey, hFind⟩
    · obtain ⟨s', recency', hRun, hRep, hGet⟩ := h.lookup_hit he hKey hFind (hc a e he hKey)
      refine ⟨s', recency', fun fuel hFuel => ?_, hRep, fun hEq => (nomatch hEq), Iff.rfl⟩
      rw [Call.run, hRun fuel hFuel, Recent.answer, hGet]
    · obtain ⟨hRun, hApply, hGet⟩ := Represents.lookup_miss size hKey hFind
      refine ⟨s, recency, fun fuel hFuel => ?_, by rwa [hApply], fun hEq => (nomatch hEq), Iff.rfl⟩
      rw [Call.run, hRun fuel hFuel, Recent.answer, hGet]
  | set_size limit =>
    obtain ⟨s', hRun, hRep⟩ := h.set_size_spec limit
    refine ⟨s', recency, fun fuel hFuel => ?_, hRep, fun hEq => (nomatch hEq), ?_⟩
    · rw [Call.run, hRun fuel hFuel]
      rfl
    · rw [Bounded, hRep.totalSize, hRep.max_cache_size, Fits]
      push_cast
      rfl
  | cleanup =>
    obtain ⟨s', hRun, hRep, hCount⟩ := h.cleanup_spec
    refine ⟨s', [], fun fuel hFuel => ?_, hRep, fun _ => hCount, Iff.rfl⟩
    rw [Call.run, hRun fuel hFuel]
    rfl

/-- Every reached map stands for its pairs. -/
theorem Reached.represents (h : Reached size s m) : ∃ recency, Represents size s recency m := by
  induction h with
  | init => exact ⟨[], .init⟩
  | @call s s' m c answer n hPrior hc hRun ih =>
    obtain ⟨recency, hRep⟩ := ih
    obtain ⟨s'', recency', hRun', hRep', -⟩ := call_spec hRep c hc
    -- With enough fuel for both, the two runs are one.
    have hSame := (hRun (max n recency.length + 1) (by omega)).symm.trans
      (hRun' (max n recency.length + 1) (by omega))
    rw [Except.ok.injEq, Prod.mk.injEq] at hSame
    exact ⟨recency', hSame.2 ▸ hRep'⟩

/-- In every run each call returns what the map says and keeps to its pairs, a clean-up leaves each copy destroyed
once, and the size is bounded after a call exactly if what was there before it fits. -/
theorem hash_map_refines_iff (h : Reached size s m) (c : Call α) (hc : Permitted s c) :
    ∃ s' recency' n, (∀ fuel, n < fuel → c.run fuel size s = .ok (m.answer c, s')) ∧
      Represents size s' recency' (m.apply c) ∧ (c = .cleanup → ∀ i < s'.copies, s'.destroyed.count i = 1) ∧
      (Bounded size s' recency' c ↔ Fits size m c) := by
  obtain ⟨recency, hRep⟩ := h.represents
  obtain ⟨s', recency', hRun, hRest⟩ := call_spec hRep c hc
  exact ⟨s', recency', recency.length, hRun, hRest⟩

/-- The first store. -/
theorem refines_first : ∃ (s' : HashMap ℕ) (recency' : List Addr) (n : ℕ),
    (∀ fuel, n < fuel → (Call.store [1] 7 0).run fuel 1 .empty = .ok ((0, none), s')) ∧
      Represents 1 s' recency' ⟨[([1], 7)], kDefaultCacheSize⟩ ∧ Bounded 1 s' recency' (.store [1] 7 0) := by
  obtain ⟨s', recency', n, hRun, hRep, -, hBound⟩ := hash_map_refines_iff
    (Reached.init : Reached 1 .empty .init) (Call.store [1] 7 0) rfl
  refine ⟨s', recency', n, hRun, hRep, hBound.mpr ?_⟩
  rw [Fits, if_neg (show [1] ∉ Recent.init.keys from List.not_mem_nil)]
  decide

/-- Three one-byte values are stored where the maximum is one byte, and none is evicted. -/
theorem not_bounded_three : ∃ s₁ s₂ s₃ s₄ : HashMap ℕ,
    HashMap.empty.set_size 10 1 = .ok s₁ ∧ s₁.store 10 [1] 7 1 0 = .ok s₂ ∧ s₂.store 10 [2] 8 1 1 = .ok s₃ ∧
      s₃.store 10 [3] 9 1 2 = .ok s₄ ∧ Chain s₄.less_recent none s₄.most_recently_used [2, 1, 0] ∧
      ¬ Bounded 1 s₄ [2, 1, 0] (.store [3] 9 2) := by
  refine ⟨_, _, _, _, rfl, rfl, rfl, rfl, ⟨rfl, rfl, rfl, rfl⟩, ?_⟩
  rw [Bounded]
  decide

end Vyasa.Hashmap
