import Mathlib

/-! The memoization cache of the runtime: entries on hash chains and on a list by recency,
host blocks with a header that names their entry, and the five calls on them. -/
namespace Vyasa.MemoizationCache

/-- Address of a cache entry. -/
abbrev Addr := Nat

/-- Address of a host block, zero for none. -/
abbrev Host := Nat

structure Dimension where
  min : Int
  extent : Int
  stride : Int
  flags : Nat
deriving DecidableEq

structure Buffer where
  host : Host
  dim : List Dimension
  bytes : Int
deriving DecidableEq

/-- The bytes from the element with the lowest address to the one with the highest. -/
def Buffer.size_in_bytes (b : Buffer) : Int :=
  let first := (b.dim.map fun d => if d.stride < 0 then d.stride * (d.extent - 1) else 0).sum
  let last := (b.dim.map fun d => if d.stride > 0 then d.stride * (d.extent - 1) else 0).sum + 1
  last * b.bytes - first * b.bytes

/-- What an entry keeps beside its links. -/
structure Contents where
  key : List UInt8
  hash : Nat
  in_use_count : Nat
  computed_bounds : List Dimension
  buf : List Buffer
deriving DecidableEq

structure CacheEntry extends Contents where
  next : Option Addr
  more_recent : Option Addr
  less_recent : Option Addr
deriving DecidableEq

structure CacheBlockHeader where
  entry : Option Addr
  hash : Nat
deriving DecidableEq

/-- The arguments of a lookup or a store. There is a buffer for each element of the tuple,
and all have the dimensions of the computed bounds. -/
structure Request where
  key : List UInt8
  computed_bounds : List Dimension
  tuple_buffers : List Buffer
  nonempty : tuple_buffers ≠ []
  dimensions : ∀ b ∈ tuple_buffers, b.dim.length = computed_bounds.length

/-- Why a call does not return. -/
inductive Fault where
  | useAfterFree
  | assertFailed
  | diverges
deriving DecidableEq

/-- The cache and what it has allocated. -/
structure Cache where
  heap : Addr → Option CacheEntry
  blocks : Host → Option CacheBlockHeader
  cache_entries : Nat → Option Addr
  most_recently_used : Option Addr
  least_recently_used : Option Addr
  max_cache_size : Int
  current_cache_size : Int

def kHashTableSize : Nat := 256

def kDefaultCacheSize : Int := 2 ^ 20

def Cache.init : Cache :=
  ⟨fun _ => none, fun _ => none, fun _ => none, none, none, kDefaultCacheSize, 0⟩

def djbHash (key : List UInt8) : Nat :=
  key.foldl (fun h byte => (h * 2 ^ 5 + h + byte.toNat) % 2 ^ 32) 5381

/-- The dimensions of a buffer are those stored at a shape. A shape that ends too early is
not that of the buffer. -/
def bufferHasShape : List Dimension → List Dimension → Bool
  | [], _ => true
  | _ :: _, [] => false
  | d :: dim, e :: shape => if d ≠ e then false else bufferHasShape dim shape

/-- Every buffer of a tuple has the shape of the one stored at its place. -/
def allBoundsEqual : List Buffer → List Buffer → Bool
  | b :: buffers, c :: stored => bufferHasShape b.dim c.dim && allBoundsEqual buffers stored
  | _, _ => true

/-- The test that lookup and store make on each entry of a chain. -/
def Contents.matches (e : Contents) (h : Nat) (r : Request) : Bool :=
  e.hash = h && e.key.length = r.key.length && e.key = r.key &&
    bufferHasShape r.computed_bounds e.computed_bounds &&
    e.buf.length = r.tuple_buffers.length && allBoundsEqual r.tuple_buffers e.buf

namespace Cache

/-- Read an entry through a pointer. -/
def deref (s : Cache) (a : Addr) : Except Fault CacheEntry :=
  match s.heap a with
  | some e => .ok e
  | none => .error .useAfterFree

/-- Write an entry through a pointer. -/
def modify (s : Cache) (a : Addr) (f : CacheEntry → CacheEntry) : Except Fault Cache :=
  match s.heap a with
  | some e => .ok { s with heap := Function.update s.heap a (some (f e)) }
  | none => .error .useAfterFree

/-- Write through a pointer that may be null, in which case nothing is written. -/
def modifyIf (s : Cache) (a : Option Addr) (f : CacheEntry → CacheEntry) : Except Fault Cache :=
  match a with
  | some a => s.modify a f
  | none => .ok s

def freeBlock (s : Cache) (h : Host) : Except Fault Cache :=
  match s.blocks h with
  | some _ => .ok { s with blocks := Function.update s.blocks h none }
  | none => .error .useAfterFree

/-- Set the entry in the header of a block. -/
def setEntry (s : Cache) (h : Host) (entry : Option Addr) : Except Fault Cache :=
  match s.blocks h with
  | some header =>
      .ok { s with blocks := Function.update s.blocks h (some { header with entry := entry }) }
  | none => .error .useAfterFree

def setEntries (s : Cache) (entry : Option Addr) (buffers : List Buffer) : Except Fault Cache :=
  buffers.foldlM (fun s b => s.setEntry b.host entry) s

/-- `CacheEntry::destroy` and the free of the entry itself. -/
def destroy (s : Cache) (a : Addr) (e : CacheEntry) : Except Fault Cache := do
  let s ← e.buf.foldlM (fun s b => s.freeBlock b.host) s
  return { s with heap := Function.update s.heap a none }

/-- Bytes of all buffers of an entry or a request. -/
def bytesOf (buffers : List Buffer) : Int := (buffers.map Buffer.size_in_bytes).sum

/-! ### Pruning -/

/-- The entry on the chain whose `next` is the candidate. -/
def findPrevious (s : Cache) (candidate : Addr) : Nat → Option Addr → Except Fault (Option Addr)
  | 0, _ => .error .diverges
  | _ + 1, none => .ok none
  | fuel + 1, some a => do
      let e ← s.deref a
      if e.next ≠ some candidate then s.findPrevious candidate fuel e.next else return some a

/-- Take the candidate off its hash chain. -/
def unhash (s : Cache) (fuel : Nat) (candidate : Addr) : Except Fault Cache := do
  let e ← s.deref candidate
  let index := e.hash % kHashTableSize
  if s.cache_entries index = some candidate then
    return { s with cache_entries := Function.update s.cache_entries index e.next }
  else
    match ← s.findPrevious candidate fuel (s.cache_entries index) with
    | none => .error .assertFailed
    | some previous => s.modify previous fun p => { p with next := e.next }

/-- Take the candidate off the recency list. -/
def unlist (s : Cache) (candidate : Addr) (more_recent : Option Addr) : Except Fault Cache := do
  -- Remove from less recent chain.
  let s := if s.least_recently_used = some candidate then
    { s with least_recently_used := more_recent } else s
  let e ← s.deref candidate
  let s ← s.modifyIf more_recent fun m => { m with less_recent := e.less_recent }
  -- Remove from more recent chain.
  let e ← s.deref candidate
  let s := if s.most_recently_used = some candidate then
    { s with most_recently_used := e.less_recent } else s
  if e.less_recent ≠ none then
    s.modify candidate fun c => { c with less_recent := more_recent }
  else .ok s

/-- Decrease cache used amount and deallocate the candidate. -/
def discard (s : Cache) (candidate : Addr) : Except Fault Cache := do
  let e ← s.deref candidate
  { s with current_cache_size := s.current_cache_size - bytesOf e.buf }.destroy candidate e

def evict (s : Cache) (fuel : Nat) (candidate : Addr) (more_recent : Option Addr) :
    Except Fault Cache := do
  let s ← s.unhash fuel candidate
  let s ← s.unlist candidate more_recent
  s.discard candidate

def pruneFrom (s : Cache) : Nat → Option Addr → Except Fault Cache
  | 0, _ => .error .diverges
  | fuel + 1, candidate =>
      if s.current_cache_size > s.max_cache_size then
        match candidate with
        | none => .ok s
        | some a => do
            let e ← s.deref a
            if e.in_use_count = 0 then
              let s ← s.evict fuel a e.more_recent
              s.pruneFrom fuel e.more_recent
            else s.pruneFrom fuel e.more_recent
      else .ok s

def prune_cache (s : Cache) (fuel : Nat) : Except Fault Cache :=
  s.pruneFrom fuel s.least_recently_used

/-! ### The calls -/

def halide_memoization_cache_set_size (s : Cache) (fuel : Nat) (size : Int) : Except Fault Cache :=
  let size := if size = 0 then kDefaultCacheSize else size
  { s with max_cache_size := size }.prune_cache fuel

/-- The first entry on a chain that matches the request. -/
def find (s : Cache) (h : Nat) (r : Request) : Nat → Option Addr → Except Fault (Option Addr)
  | 0, _ => .error .diverges
  | _ + 1, none => .ok none
  | fuel + 1, some a => do
      let e ← s.deref a
      if e.matches h r then return some a else s.find h r fuel e.next

/-- The less recent neighbour of an entry, or the end of the list, gets its more recent one. -/
def bypass (s : Cache) (entry : Addr) (e : CacheEntry) : Except Fault Cache :=
  match e.less_recent with
  | some l => s.modify l fun x => { x with more_recent := e.more_recent }
  | none =>
      if s.least_recently_used ≠ some entry then .error .assertFailed
      else .ok { s with least_recently_used := e.more_recent }

/-- Take an entry that is not the most recent one out of the recency list. -/
def detach (s : Cache) (entry : Addr) : Except Fault Cache := do
  let e ← s.deref entry
  if e.more_recent = none then .error .assertFailed
  else
    let s ← s.bypass entry e
    let e ← s.deref entry
    s.modifyIf e.more_recent fun x => { x with less_recent := e.less_recent }

/-- Put an entry in front of the recency list. -/
def toFront (s : Cache) (entry : Addr) : Except Fault Cache := do
  let s ← s.modify entry fun x =>
    { x with more_recent := none, less_recent := s.most_recently_used }
  let s ← s.modifyIf s.most_recently_used fun x => { x with more_recent := some entry }
  return { s with most_recently_used := some entry }

/-- Make an entry the most recent one. -/
def touch (s : Cache) (entry : Addr) : Except Fault Cache :=
  if s.most_recently_used = some entry then .ok s
  else do
    let s ← s.detach entry
    s.toFront entry

/-- Allocate a block for each buffer; a failure frees those allocated before, last first.
The flag says whether every allocation succeeded. -/
def allocate (s : Cache) (h : Nat) : List Buffer → List (Option Host) → List Buffer →
    Except Fault (Bool × List Buffer × Cache)
  | [], _, done => .ok (true, done, s)
  | b :: rest, some host :: mallocs, done =>
      { s with blocks := Function.update s.blocks host (some ⟨none, h⟩) }.allocate h rest mallocs
        (done ++ [{ b with host := host }])
  | b :: rest, _, done => do
      let s ← done.reverse.foldlM (fun s b => s.freeBlock b.host) s
      return (false, (done ++ [b]).map ({ · with host := 0 }) ++ rest, s)

/-- The result of a lookup: its code, the buffers as it leaves them, and the cache. -/
structure LookupResult where
  code : Int
  tuple_buffers : List Buffer
  cache : Cache

def halide_memoization_cache_lookup (s : Cache) (fuel : Nat) (r : Request)
    (mallocs : List (Option Host)) : Except Fault LookupResult := do
  let h := djbHash r.key
  let index := h % kHashTableSize
  match ← s.find h r fuel (s.cache_entries index) with
  | some entry => do
      let s ← s.touch entry
      let e ← s.deref entry
      let s ← s.modify entry fun x =>
        { x with in_use_count := (x.in_use_count + r.tuple_buffers.length) % 2 ^ 32 }
      return ⟨0, e.buf, s⟩
  | none => do
      let (complete, buffers, s) ← s.allocate h r.tuple_buffers mallocs []
      return ⟨if complete then 1 else -1, buffers, s⟩

/-- Put a new entry in front of its hash chain and of the recency list. -/
def insert (s : Cache) (new_entry : Addr) (contents : Contents) : Except Fault Cache := do
  let index := contents.hash % kHashTableSize
  let entry : CacheEntry := { contents with
    next := s.cache_entries index, more_recent := none, less_recent := s.most_recently_used }
  let s := { s with heap := Function.update s.heap new_entry (some entry) }
  let s ← s.modifyIf s.most_recently_used fun x => { x with more_recent := some new_entry }
  let s := { s with most_recently_used := some new_entry }
  let s := if s.least_recently_used = none then
    { s with least_recently_used := some new_entry } else s
  return { s with cache_entries := Function.update s.cache_entries index (some new_entry) }

/-- `malloc` is what the allocator answers for the entry, and `inited` whether the storage
for its metadata is allocated too. -/
def halide_memoization_cache_store (s : Cache) (fuel : Nat) (r : Request)
    (malloc : Cache → Option Addr) (inited : Bool) : Except Fault Cache := do
  let first ← match s.blocks ((r.tuple_buffers.head r.nonempty).host) with
    | some header => pure header
    | none => throw .useAfterFree
  let h := first.hash
  let index := h % kHashTableSize
  match ← s.find h r fuel (s.cache_entries index) with
  | some entry => do
      let e ← s.deref entry
      if (e.buf.zip r.tuple_buffers).any fun (c, b) => c.host = b.host then
        throw .assertFailed
      s.setEntries none r.tuple_buffers
  | none => do
      let added_size := bytesOf r.tuple_buffers
      let s ← { s with current_cache_size := s.current_cache_size + added_size }.prune_cache fuel
      match malloc s, inited with
      | some new_entry, true => do
          let s ← s.insert new_entry
            ⟨r.key, h, r.tuple_buffers.length, r.computed_bounds, r.tuple_buffers⟩
          s.setEntries (some new_entry) r.tuple_buffers
      | _, _ =>
          let s := { s with current_cache_size := s.current_cache_size - added_size }
          s.setEntries none r.tuple_buffers

def halide_memoization_cache_release (s : Cache) (host : Host) : Except Fault Cache := do
  match s.blocks host with
  | none => throw .useAfterFree
  | some header =>
      match header.entry with
      | none => s.freeBlock host
      | some entry => do
          let e ← s.deref entry
          if e.in_use_count = 0 then throw .assertFailed
          s.modify entry fun x => { x with in_use_count := x.in_use_count - 1 }

/-- Free the entries of one chain. -/
def cleanChain (s : Cache) : Nat → Option Addr → Except Fault Cache
  | 0, _ => .error .diverges
  | _ + 1, none => .ok s
  | fuel + 1, some a => do
      let e ← s.deref a
      let s ← s.destroy a e
      s.cleanChain fuel e.next

def halide_memoization_cache_cleanup (s : Cache) (fuel : Nat) : Except Fault Cache := do
  let s ← (List.range kHashTableSize).foldlM (fun s i =>
    { s with cache_entries := Function.update s.cache_entries i none }.cleanChain fuel
      (s.cache_entries i)) s
  return { s with current_cache_size := 0, most_recently_used := none, least_recently_used := none }

end Cache

end Vyasa.MemoizationCache
