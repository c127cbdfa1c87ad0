import Mathlib

/-! The hash map of the runtime: entries on 256 chains and on a list by recency, each with a
copy of its value. -/
namespace Vyasa.Hashmap

/-- Address of a cache entry. -/
abbrev Addr := ℕ

/-- Why a call does not return. -/
inductive Fault where
  | useAfterFree
  | assertFailed
  | diverges
deriving DecidableEq

/-- What an entry keeps beside its links. The copies of values are numbered in the order they are made. -/
structure Contents (α : Type) where
  key : List UInt8
  hash : ℕ
  in_use_count : ℕ
  value_size : ℕ
  value : α
  copy : ℕ

/-- The map and what it has allocated, with the number of copies made so far and those that have been destroyed. -/
structure HashMap (α : Type) where
  contents : Addr → Option (Contents α)
  next : Addr → Option Addr
  more_recent : Addr → Option Addr
  less_recent : Addr → Option Addr
  cache_entries : ℕ → Option Addr
  most_recently_used : Option Addr
  least_recently_used : Option Addr
  max_cache_size : ℤ
  current_cache_size : ℤ
  inited : Bool
  copies : ℕ
  destroyed : List ℕ

def kHashTableSize : ℕ := 256

def kDefaultCacheSize : ℤ := 2 ^ 20

def djb_hash (key : List UInt8) : ℕ :=
  key.foldl (fun h byte => (h * 2 ^ 5 + h + byte.toNat) % 2 ^ 32) 5381

variable {α : Type}

/-- Memory that is all zero. -/
def HashMap.zero : HashMap α :=
  ⟨fun _ => none, fun _ => none, fun _ => none, fun _ => none, fun _ => none, none, none, 0, 0, false, 0, []⟩

/-- The test that lookup and store make on each entry of a chain. -/
def Contents.matches (e : Contents α) (h : ℕ) (key : List UInt8) : Bool :=
  e.hash = h && e.key.length = key.length && e.key = key

namespace HashMap

/-- Read an entry through a pointer. -/
def deref (s : HashMap α) (a : Addr) : Except Fault (Contents α) :=
  match s.contents a with
  | some e => .ok e
  | none => .error .useAfterFree

/-- Write to an entry through a pointer, if it is not null. -/
def setLess (s : HashMap α) (node value : Option Addr) : Except Fault (HashMap α) :=
  match node with
  | none => .ok s
  | some a => do
    let _ ← s.deref a
    return { s with less_recent := Function.update s.less_recent a value }

def setMore (s : HashMap α) (node value : Option Addr) : Except Fault (HashMap α) :=
  match node with
  | none => .ok s
  | some a => do
    let _ ← s.deref a
    return { s with more_recent := Function.update s.more_recent a value }

/-- `CacheEntry::destroy` and the free of the entry itself. -/
def destroy (s : HashMap α) (a : Addr) : Except Fault (HashMap α) := do
  let e ← s.deref a
  return { s with contents := Function.update s.contents a none, destroyed := s.destroyed ++ [e.copy] }

def init (s : HashMap α) : Except Fault (HashMap α) :=
  if s.inited then .error .assertFailed
  else .ok { s with
    most_recently_used := none
    least_recently_used := none
    max_cache_size := kDefaultCacheSize
    current_cache_size := 0
    cache_entries := fun _ => none
    inited := true }

/-! ### Pruning -/

/-- The entry on the chain whose `next` is the candidate. -/
def findPrevious (s : HashMap α) (candidate : Addr) : ℕ → Option Addr → Except Fault (Option Addr)
  | 0, _ => .error .diverges
  | _ + 1, none => .ok none
  | fuel + 1, some a => do
    let _ ← s.deref a
    if s.next a ≠ some candidate then s.findPrevious candidate fuel (s.next a) else return some a

/-- Remove from hash table. -/
def unhash (s : HashMap α) (fuel : ℕ) (candidate : Addr) : Except Fault (HashMap α) := do
  let e ← s.deref candidate
  let index := e.hash % kHashTableSize
  if s.cache_entries index = some candidate then
    return { s with cache_entries := Function.update s.cache_entries index (s.next candidate) }
  else
    match ← s.findPrevious candidate fuel (s.cache_entries index) with
    | none => .error .assertFailed
    | some prev => return { s with next := Function.update s.next prev (s.next candidate) }

/-- Remove from the recency list. -/
def unlist (s : HashMap α) (candidate : Addr) (more_recent : Option Addr) : Except Fault (HashMap α) := do
  let s := if s.least_recently_used = some candidate then { s with least_recently_used := more_recent } else s
  let s ← s.setLess more_recent (s.less_recent candidate)
  let s := if s.most_recently_used = some candidate then
    { s with most_recently_used := s.less_recent candidate } else s
  -- The link that is set is that of the candidate, not that of its less recent neighbour.
  if s.less_recent candidate ≠ none then s.setLess (some candidate) more_recent else .ok s

def evict (s : HashMap α) (fuel : ℕ) (candidate : Addr) (more_recent : Option Addr) : Except Fault (HashMap α) := do
  let s ← s.unhash fuel candidate
  let s ← s.unlist candidate more_recent
  let e ← s.deref candidate
  { s with current_cache_size := s.current_cache_size - e.value_size }.destroy candidate

def pruneFrom (s : HashMap α) : ℕ → Option Addr → Except Fault (HashMap α)
  | 0, _ => .error .diverges
  | fuel + 1, candidate =>
    if s.current_cache_size > s.max_cache_size then
      match candidate with
      | none => .ok s
      | some a => do
        let e ← s.deref a
        let more_recent := s.more_recent a
        let s ← if e.in_use_count = 0 then s.evict fuel a more_recent else .ok s
        s.pruneFrom fuel more_recent
    else .ok s

def prune (s : HashMap α) (fuel : ℕ) : Except Fault (HashMap α) := s.pruneFrom fuel s.least_recently_used

/-! ### The calls -/

def set_size (s : HashMap α) (fuel : ℕ) (size : ℤ) : Except Fault (HashMap α) :=
  let size := if size = 0 then kDefaultCacheSize else size
  { s with max_cache_size := size }.prune fuel

/-- The first entry on a chain that matches. -/
def find (s : HashMap α) (h : ℕ) (key : List UInt8) : ℕ → Option Addr → Except Fault (Option Addr)
  | 0, _ => .error .diverges
  | _ + 1, none => .ok none
  | fuel + 1, some a => do
    let e ← s.deref a
    if e.matches h key then return some a else s.find h key fuel (s.next a)

/-- Take an entry that is not the most recent one out of the recency list. -/
def detach (s : HashMap α) (entry : Addr) : Except Fault (HashMap α) := do
  if s.more_recent entry = none then throw .assertFailed
  let s ←
    if s.less_recent entry ≠ none then s.setMore (s.less_recent entry) (s.more_recent entry)
    else if s.least_recently_used = some entry then pure { s with least_recently_used := s.more_recent entry }
    else throw .assertFailed
  if s.more_recent entry = none then throw .assertFailed
  s.setLess (s.more_recent entry) (s.less_recent entry)

/-- Put an entry in front of the recency list. -/
def toFront (s : HashMap α) (entry : Addr) : Except Fault (HashMap α) := do
  let s ← s.setMore (some entry) none
  let s ← s.setLess (some entry) s.most_recently_used
  let s ← s.setMore s.most_recently_used (some entry)
  return { s with most_recently_used := some entry }

/-- Make an entry the most recent one. -/
def touch (s : HashMap α) (entry : Addr) : Except Fault (HashMap α) :=
  if s.most_recently_used ≠ some entry then do
    let s ← s.detach entry
    s.toFront entry
  else .ok s

/-- Zero with the value, or one without. -/
def lookup (s : HashMap α) (fuel : ℕ) (key : List UInt8) (cache_value_size : ℕ) :
    Except Fault ((ℤ × Option α) × HashMap α) := do
  let h := djb_hash key
  match ← s.find h key fuel (s.cache_entries (h % kHashTableSize)) with
  | none => return ((1, none), s)
  | some entry => do
    let s ← s.touch entry
    let e ← s.deref entry
    if cache_value_size ≠ e.value_size then throw .assertFailed
    let e' := { e with in_use_count := (e.in_use_count + 1) % 2 ^ 32 }
    return ((0, some e.value), { s with contents := Function.update s.contents entry (some e') })

/-- Overwrite the value of an entry. -/
def overwrite (s : HashMap α) (entry : Addr) (value : α) (cache_value_size : ℕ) : Except Fault (HashMap α) := do
  let e ← s.deref entry
  if cache_value_size ≠ e.value_size then throw .assertFailed
  let e' := { e with value := value, copy := s.copies }
  return { s with
    contents := Function.update s.contents entry (some e')
    copies := s.copies + 1
    destroyed := s.destroyed ++ [e.copy] }

/-- Link a new entry in. -/
def link (s : HashMap α) (index : ℕ) (new_entry : Addr) : Except Fault (HashMap α) := do
  let s := { s with
    next := Function.update s.next new_entry (s.cache_entries index)
    less_recent := Function.update s.less_recent new_entry s.most_recently_used }
  let s ← s.setMore s.most_recently_used (some new_entry)
  let s := { s with most_recently_used := some new_entry }
  let s := if s.least_recently_used = none then { s with least_recently_used := some new_entry } else s
  let e ← s.deref new_entry
  return { s with
    cache_entries := Function.update s.cache_entries index (some new_entry)
    contents := Function.update s.contents new_entry (some { e with in_use_count := 1 }) }

/-- The allocator answers with `new_entry` where it is asked. -/
def store (s : HashMap α) (fuel : ℕ) (key : List UInt8) (value : α) (cache_value_size : ℕ) (new_entry : Addr) :
    Except Fault (HashMap α) := do
  let h := djb_hash key
  let index := h % kHashTableSize
  match ← s.find h key fuel (s.cache_entries index) with
  | some entry => s.overwrite entry value cache_value_size
  | none => do
    -- `CacheEntry::init`
    let s := { s with
      contents := Function.update s.contents new_entry (some ⟨key, h, 0, cache_value_size, value, s.copies⟩)
      next := Function.update s.next new_entry none
      more_recent := Function.update s.more_recent new_entry none
      less_recent := Function.update s.less_recent new_entry none
      copies := s.copies + 1 }
    let s ← { s with current_cache_size := s.current_cache_size + cache_value_size }.prune fuel
    s.link index new_entry

/-- Free the entries of one chain. -/
def cleanChain (s : HashMap α) : ℕ → Option Addr → Except Fault (HashMap α)
  | 0, _ => .error .diverges
  | _ + 1, none => .ok s
  | fuel + 1, some a => do
    let next := s.next a
    let s ← s.destroy a
    s.cleanChain fuel next

def cleanup (s : HashMap α) (fuel : ℕ) : Except Fault (HashMap α) := do
  let s ← (List.range kHashTableSize).foldlM (fun s i =>
    { s with cache_entries := Function.update s.cache_entries i none }.cleanChain fuel (s.cache_entries i)) s
  return { s with current_cache_size := 0, most_recently_used := none, least_recently_used := none }

end HashMap

end Vyasa.Hashmap
