import Vyasa.MemoizationCache.Eviction
import Mathlib.Algebra.BigOperators.Group.List.Basic
import Mathlib.Algebra.Order.BigOperators.Group.List
import Mathlib.Algebra.Order.Group.Nat
import Mathlib.Data.List.Induction

/-! Who holds the host blocks: the headers name the entry of a block, an entry counts the
buffers that clients hold, and pruning frees only what nobody holds. -/
namespace Vyasa.MemoizationCache

open Linked

variable {s s' : Cache} {recency p : List Addr} {a b : Addr} {c : Contents}
  {held : Host → Nat} {stored : List Request}

/-- The buffers of a tuple that clients hold. -/
def heldOf (held : Host → Nat) (buffers : List Buffer) : Nat :=
  (buffers.map fun b => held b.host).sum

/-- The key, the bounds and the shapes that an entry was stored under. -/
def SameRequest (c c' : Contents) : Prop :=
  c.key = c'.key ∧ c.computed_bounds = c'.computed_bounds ∧
    c.buf.map Buffer.dim = c'.buf.map Buffer.dim

/-- The cache is a map from requests to the buffers stored under them, and counts what it
has handed out. `held` says how often clients hold a block. -/
structure Sound (contents : Addr → Option Contents) (blocks : Host → Option CacheBlockHeader)
    (held : Host → Nat) (stored : List Request) : Prop where
  hosts : ∀ a c, contents a = some c → (c.buf.map Buffer.host).Nodup
  owner : ∀ a c, contents a = some c → ∀ b ∈ c.buf,
    ∃ header, blocks b.host = some header ∧ header.entry = some a
  entry : ∀ h header a, blocks h = some header → header.entry = some a →
    ∃ c, contents a = some c ∧ h ∈ c.buf.map Buffer.host
  used : ∀ a c, contents a = some c → c.in_use_count = heldOf held c.buf
  client : ∀ h header, blocks h = some header → header.entry = none → held h = 1
  free : ∀ h, blocks h = none → held h = 0
  hash : ∀ a c, contents a = some c → c.hash = djbHash c.key
  unique : ∀ a a' c c', contents a = some c → contents a' = some c' → SameRequest c c' → a = a'
  stored : ∀ a c, contents a = some c →
    ∃ r ∈ stored, c.key = r.key ∧ c.computed_bounds = r.computed_bounds ∧ c.buf = r.tuple_buffers

theorem Sound.init : Sound Cache.init.contents Cache.init.blocks (fun _ => 0) [] := by
  constructor <;> simp [Cache.init, Cache.contents]

section Evict

variable {contents : Addr → Option Contents} {blocks : Host → Option CacheBlockHeader}

/-- A block of one entry is not a block of another. -/
theorem Sound.not_mem_hosts (h : Sound contents blocks held stored) {a a' : Addr}
    {c c' : Contents} (hc : contents a = some c) (hc' : contents a' = some c') (hNe : a' ≠ a)
    {b : Buffer} (hb : b ∈ c'.buf) : b.host ∉ c.buf.map Buffer.host := by
  intro hMem
  obtain ⟨d, hd, hHost⟩ := List.mem_map.mp hMem
  obtain ⟨header, hHeader, hEntry⟩ := h.owner a' c' hc' b hb
  obtain ⟨header', hHeader', hEntry'⟩ := h.owner a c hc d hd
  rw [hHost, hHeader] at hHeader'
  cases hHeader'
  rw [hEntry] at hEntry'
  exact hNe (Option.some.inj hEntry')

/-- Nobody holds the blocks of these buffers any more. -/
def drop (held : Host → Nat) (buffers : List Buffer) (h : Host) : Nat :=
  if h ∈ buffers.map Buffer.host then 0 else held h

theorem heldOf_congr {held held' : Host → Nat} {buffers : List Buffer}
    (h : ∀ b ∈ buffers, held' b.host = held b.host) : heldOf held' buffers = heldOf held buffers := by
  have hMap : (buffers.map fun b => held' b.host) = buffers.map fun b => held b.host :=
    List.map_congr_left h
  rw [heldOf, heldOf, hMap]

/-- Freeing an entry and its blocks, which takes them from the clients that hold them. -/
theorem Sound.destroy (h : Sound contents blocks held stored) (hc : contents a = some c) :
    Sound (Function.update contents a none) (freed blocks c.buf) (drop held c.buf) stored := by
  have hOld : ∀ {x y}, Function.update contents a none x = some y → x ≠ a ∧ contents x = some y := by
    intro x y hxy
    by_cases hx : x = a
    · simp [hx] at hxy
    · rw [Function.update_of_ne hx] at hxy
      exact ⟨hx, hxy⟩
  have hFreed : ∀ {x header}, freed blocks c.buf x = some header →
      x ∉ c.buf.map Buffer.host ∧ blocks x = some header := by
    intro x header hx
    simp only [freed] at hx
    split at hx
    · cases hx
    · exact ⟨‹_›, hx⟩
  refine ⟨?_, ?_, ?_, ?_, ?_, ?_, ?_, ?_, ?_⟩
  · intro x y hxy
    exact h.hosts x y (hOld hxy).2
  · intro x y hxy b hb
    obtain ⟨hNe, hxy⟩ := hOld hxy
    obtain ⟨header, hHeader, hEntry⟩ := h.owner x y hxy b hb
    refine ⟨header, ?_, hEntry⟩
    rw [freed, if_neg (h.not_mem_hosts hc hxy hNe hb)]
    exact hHeader
  · intro x header y hx hy
    obtain ⟨hNotMem, hx⟩ := hFreed hx
    obtain ⟨d, hd, hMem⟩ := h.entry x header y hx hy
    have hNe : y ≠ a := by
      rintro rfl
      rw [hc] at hd
      cases hd
      exact hNotMem hMem
    exact ⟨d, by rw [Function.update_of_ne hNe]; exact hd, hMem⟩
  · intro x y hxy
    obtain ⟨hNe, hxy⟩ := hOld hxy
    rw [h.used x y hxy]
    exact (heldOf_congr fun b hb => if_neg (h.not_mem_hosts hc hxy hNe hb)).symm
  · intro x header hx hy
    rw [drop, if_neg (hFreed hx).1]
    exact h.client x header (hFreed hx).2 hy
  · intro x hx
    simp only [freed] at hx
    by_cases hMem : x ∈ c.buf.map Buffer.host
    · exact if_pos hMem
    · rw [if_neg hMem] at hx
      rw [drop, if_neg hMem]
      exact h.free x hx
  · intro x y hxy
    exact h.hash x y (hOld hxy).2
  · intro x x' y y' hxy hxy' hSame
    exact h.unique x x' y y' (hOld hxy).2 (hOld hxy').2 hSame
  · intro x y hxy
    exact h.stored x y (hOld hxy).2

/-- The blocks of an entry that is not in use are held by nobody. -/
theorem Sound.drop_eq (h : Sound contents blocks held stored) (hc : contents a = some c)
    (hUse : c.in_use_count = 0) : drop held c.buf = held := by
  funext x
  by_cases hMem : x ∈ c.buf.map Buffer.host
  · obtain ⟨d, hd, rfl⟩ := List.mem_map.mp hMem
    have hSum := h.used a c hc
    rw [hUse, heldOf] at hSum
    have hMemHeld : held d.host ∈ c.buf.map fun b => held b.host :=
      List.mem_map_of_mem (f := fun b => held b.host) hd
    have hLe := List.single_le_sum (fun _ _ => Nat.zero_le _) _ hMemHeld
    rw [drop, if_pos hMem]
    omega
  · exact if_neg hMem

/-- Freeing an entry that nobody uses, with its blocks. -/
theorem Sound.evict (h : Sound contents blocks held stored) (hc : contents a = some c)
    (hUse : c.in_use_count = 0) :
    Sound (Function.update contents a none) (freed blocks c.buf) held stored := by
  have hDestroyed := h.destroy hc
  rwa [h.drop_eq hc hUse] at hDestroyed

/-- Clients take hold of the blocks of these buffers. -/
def take (held : Host → Nat) (buffers : List Buffer) (h : Host) : Nat :=
  held h + (buffers.map Buffer.host).count h

theorem take_of_not_mem {h : Host} {buffers : List Buffer} (hMem : h ∉ buffers.map Buffer.host) :
    take held buffers h = held h := by
  simp [take, List.count_eq_zero_of_not_mem hMem]

theorem take_of_mem {h : Host} {buffers : List Buffer} (hNodup : (buffers.map Buffer.host).Nodup)
    (hMem : h ∈ buffers.map Buffer.host) : take held buffers h = held h + 1 := by
  rw [take, List.count_eq_one_of_mem hNodup hMem]

theorem heldOf_take {buffers : List Buffer} (hNodup : (buffers.map Buffer.host).Nodup) :
    heldOf (take held buffers) buffers = heldOf held buffers + buffers.length := by
  have hOne : ∀ l : List Buffer, (∀ b ∈ l, b.host ∈ buffers.map Buffer.host) →
      heldOf (take held buffers) l = heldOf held l + l.length := by
    intro l
    induction l with
    | nil => intro _; rfl
    | cons b l ih =>
      intro hMem
      have hTail := ih fun d hd => hMem d (List.mem_cons_of_mem b hd)
      have hHead : take held buffers b.host = held b.host + 1 :=
        take_of_mem hNodup (hMem b List.mem_cons_self)
      simp only [heldOf, List.map_cons, List.sum_cons, List.length_cons] at hTail ⊢
      omega
  exact hOne buffers fun b hb => List.mem_map_of_mem hb

/-- The header of a block of an entry names the entry. -/
theorem Sound.entry_of_mem (h : Sound contents blocks held stored) (hc : contents a = some c)
    {x : Host} (hMem : x ∈ c.buf.map Buffer.host) :
    ∃ header, blocks x = some header ∧ header.entry = some a := by
  obtain ⟨d, hd, rfl⟩ := List.mem_map.mp hMem
  exact h.owner a c hc d hd

/-- What clients hold of one entry changes, and its count with it. -/
theorem Sound.recount (h : Sound contents blocks held stored) (hc : contents a = some c)
    {held' : Host → Nat} (hOther : ∀ x ∉ c.buf.map Buffer.host, held' x = held x) :
    Sound (Function.update contents a (some { c with in_use_count := heldOf held' c.buf }))
      blocks held' stored := by
  have hOld : ∀ {x y}, Function.update contents a
      (some { c with in_use_count := heldOf held' c.buf }) x = some y →
      ∃ z, contents x = some z ∧ y.key = z.key ∧ y.hash = z.hash ∧
        y.computed_bounds = z.computed_bounds ∧ y.buf = z.buf ∧
        (x = a ∧ y.in_use_count = heldOf held' c.buf ∨ x ≠ a ∧ y.in_use_count = z.in_use_count) := by
    intro x y hxy
    by_cases hx : x = a
    · subst hx
      rw [Function.update_self] at hxy
      cases hxy
      exact ⟨c, hc, rfl, rfl, rfl, rfl, Or.inl ⟨rfl, rfl⟩⟩
    · rw [Function.update_of_ne hx] at hxy
      exact ⟨y, hxy, rfl, rfl, rfl, rfl, Or.inr ⟨hx, rfl⟩⟩
  refine ⟨?_, ?_, ?_, ?_, ?_, ?_, ?_, ?_, ?_⟩
  · intro x y hxy
    obtain ⟨z, hz, -, -, -, hBuf, -⟩ := hOld hxy
    rw [hBuf]
    exact h.hosts x z hz
  · intro x y hxy b hb
    obtain ⟨z, hz, -, -, -, hBuf, -⟩ := hOld hxy
    exact h.owner x z hz b (hBuf ▸ hb)
  · intro x header y hx hy
    obtain ⟨d, hd, hMem⟩ := h.entry x header y hx hy
    by_cases hya : y = a
    · subst hya
      rw [hc] at hd
      cases hd
      exact ⟨_, Function.update_self _ _ _, hMem⟩
    · exact ⟨d, by rw [Function.update_of_ne hya]; exact hd, hMem⟩
  · intro x y hxy
    obtain ⟨z, hz, -, -, -, hBuf, ⟨hx, hUse⟩ | ⟨hx, hUse⟩⟩ := hOld hxy
    · subst hx
      rw [hc] at hz
      cases hz
      rw [hUse, hBuf]
    · rw [hUse, hBuf, h.used x z hz]
      exact (heldOf_congr fun b hb => hOther _ (h.not_mem_hosts hc hz hx hb)).symm
  · intro x header hx hy
    rw [hOther]
    · exact h.client x header hx hy
    · intro hMem
      obtain ⟨header', hHeader', hEntry'⟩ := h.entry_of_mem hc hMem
      rw [hx] at hHeader'
      cases hHeader'
      rw [hy] at hEntry'
      cases hEntry'
  · intro x hx
    rw [hOther]
    · exact h.free x hx
    · intro hMem
      obtain ⟨header', hHeader', -⟩ := h.entry_of_mem hc hMem
      rw [hx] at hHeader'
      cases hHeader'
  · intro x y hxy
    obtain ⟨z, hz, hKey, hHash, -⟩ := hOld hxy
    rw [hHash, hKey]
    exact h.hash x z hz
  · intro x x' y y' hxy hxy' hSame
    obtain ⟨z, hz, hKey, -, hBounds, hBuf, -⟩ := hOld hxy
    obtain ⟨z', hz', hKey', -, hBounds', hBuf', -⟩ := hOld hxy'
    refine h.unique x x' z z' hz hz' ?_
    simpa only [SameRequest, hKey, hKey', hBounds, hBounds', hBuf, hBuf'] using hSame
  · intro x y hxy
    obtain ⟨z, hz, hKey, -, hBounds, hBuf, -⟩ := hOld hxy
    rw [hKey, hBounds, hBuf]
    exact h.stored x z hz

/-- A hit hands out every buffer of an entry once more. -/
theorem Sound.hit (h : Sound contents blocks held stored) (hc : contents a = some c) :
    Sound (Function.update contents a (some { c with in_use_count := c.in_use_count + c.buf.length }))
      blocks (take held c.buf) stored := by
  have hOther : ∀ x ∉ c.buf.map Buffer.host, take held c.buf x = held x :=
    fun x hx => take_of_not_mem hx
  have hRecounted := h.recount hc hOther
  rwa [heldOf_take (h.hosts a c hc), ← h.used a c hc] at hRecounted

/-- A client gives up one hold of a block. -/
def giveUp (held : Host → Nat) (x : Host) : Host → Nat := Function.update held x (held x - 1)

theorem heldOf_giveUp {buffers : List Buffer} {x : Host} (hNodup : (buffers.map Buffer.host).Nodup)
    (hMem : x ∈ buffers.map Buffer.host) (hHeld : 0 < held x) :
    heldOf (giveUp held x) buffers + 1 = heldOf held buffers := by
  induction buffers with
  | nil => simp at hMem
  | cons b buffers ih =>
    rw [List.map_cons, List.nodup_cons] at hNodup
    rw [List.map_cons] at hMem
    by_cases hb : b.host = x
    · have hRest : heldOf (giveUp held x) buffers = heldOf held buffers := by
        refine heldOf_congr fun d hd => Function.update_of_ne ?_ _ _
        intro hEq
        exact hNodup.1 (hb ▸ hEq ▸ List.mem_map_of_mem hd)
      simp only [heldOf, List.map_cons, List.sum_cons] at hRest ⊢
      rw [hRest, hb, giveUp, Function.update_self]
      omega
    · have hTail := ih hNodup.2 ((List.mem_cons.mp hMem).resolve_left fun hEq => hb hEq.symm)
      simp only [heldOf, List.map_cons, List.sum_cons] at hTail ⊢
      have hHead : giveUp held x b.host = held b.host := Function.update_of_ne hb _ _
      omega

/-- A client releases a block of an entry. -/
theorem Sound.releaseEntry (h : Sound contents blocks held stored) (hc : contents a = some c)
    {x : Host} (hMem : x ∈ c.buf.map Buffer.host) (hHeld : 0 < held x) :
    0 < c.in_use_count ∧
      Sound (Function.update contents a (some { c with in_use_count := c.in_use_count - 1 })) blocks
        (giveUp held x) stored := by
  have hCount := heldOf_giveUp (h.hosts a c hc) hMem hHeld
  rw [← h.used a c hc] at hCount
  have hOther : ∀ y ∉ c.buf.map Buffer.host, giveUp held x y = held y := by
    intro y hy
    have hNe : y ≠ x := fun hEq => hy (hEq ▸ hMem)
    exact Function.update_of_ne hNe _ _
  have hRecounted := h.recount hc hOther
  have hEq : heldOf (giveUp held x) c.buf = c.in_use_count - 1 := by omega
  rw [hEq] at hRecounted
  exact ⟨by omega, hRecounted⟩

/-- A client releases a block of its own, which is freed. -/
theorem Sound.releaseClient (h : Sound contents blocks held stored) {x : Host}
    {header : CacheBlockHeader} (hx : blocks x = some header) (hEntry : header.entry = none) :
    Sound contents (Function.update blocks x none) (giveUp held x) stored := by
  have hOne := h.client x header hx hEntry
  have hOther : ∀ y, y ≠ x → giveUp held x y = held y ∧ Function.update blocks x none y = blocks y :=
    fun y hy => ⟨Function.update_of_ne hy _ _, Function.update_of_ne hy _ _⟩
  have hNe : ∀ b d, contents b = some d → ∀ k ∈ d.buf, k.host ≠ x := by
    rintro b d hd k hk rfl
    obtain ⟨header', hHeader', hEntry'⟩ := h.owner b d hd k hk
    rw [hx] at hHeader'
    cases hHeader'
    rw [hEntry] at hEntry'
    cases hEntry'
  refine ⟨h.hosts, ?_, ?_, ?_, ?_, ?_, h.hash, h.unique, h.stored⟩
  · intro b d hd k hk
    rw [(hOther _ (hNe b d hd k hk)).2]
    exact h.owner b d hd k hk
  · intro y header' b hy hb
    by_cases hyx : y = x
    · simp [hyx] at hy
    · rw [(hOther y hyx).2] at hy
      exact h.entry y header' b hy hb
  · intro b d hd
    rw [h.used b d hd]
    exact (heldOf_congr fun k hk => (hOther _ (hNe b d hd k hk)).1).symm
  · intro y header' hy hNone
    by_cases hyx : y = x
    · simp [hyx] at hy
    · rw [(hOther y hyx).2] at hy
      rw [(hOther y hyx).1]
      exact h.client y header' hy hNone
  · intro y hy
    by_cases hyx : y = x
    · rw [hyx, giveUp, Function.update_self]
      omega
    · rw [(hOther y hyx).2] at hy
      rw [(hOther y hyx).1]
      exact h.free y hy

/-- The blocks after fresh ones for these buffers. -/
def allocated (blocks : Host → Option CacheBlockHeader) (hash : Nat) (buffers : List Buffer)
    (x : Host) : Option CacheBlockHeader :=
  if x ∈ buffers.map Buffer.host then some ⟨none, hash⟩ else blocks x

/-- A miss hands out fresh blocks. -/
theorem Sound.miss (h : Sound contents blocks held stored) {buffers : List Buffer} (hash : Nat)
    (hNodup : (buffers.map Buffer.host).Nodup) (hFresh : ∀ b ∈ buffers, blocks b.host = none) :
    Sound contents (allocated blocks hash buffers) (take held buffers) stored := by
  have hNone : ∀ x ∈ buffers.map Buffer.host, blocks x = none := by
    intro x hx
    obtain ⟨b, hb, rfl⟩ := List.mem_map.mp hx
    exact hFresh b hb
  have hNotMem : ∀ {x header}, blocks x = some header → x ∉ buffers.map Buffer.host := by
    intro x header hx hMem
    rw [hNone x hMem] at hx
    cases hx
  refine ⟨h.hosts, ?_, ?_, ?_, ?_, ?_, h.hash, h.unique, h.stored⟩
  · intro b d hd k hk
    obtain ⟨header, hHeader, hEntry⟩ := h.owner b d hd k hk
    exact ⟨header, (if_neg (hNotMem hHeader)).trans hHeader, hEntry⟩
  · intro x header b hx hb
    simp only [allocated] at hx
    split at hx
    · cases hx
      cases hb
    · exact h.entry x header b hx hb
  · intro b d hd
    rw [h.used b d hd]
    refine (heldOf_congr fun k hk => ?_).symm
    obtain ⟨header, hHeader, -⟩ := h.owner b d hd k hk
    exact take_of_not_mem (hNotMem hHeader)
  · intro x header hx hEntry
    simp only [allocated] at hx
    split at hx
    · next hMem =>
      rw [take_of_mem hNodup hMem, h.free x (hNone x hMem)]
    · next hMem =>
      rw [take_of_not_mem hMem]
      exact h.client x header hx hEntry
  · intro x hx
    simp only [allocated] at hx
    split at hx
    · cases hx
    · next hMem =>
      rw [take_of_not_mem hMem]
      exact h.free x hx

/-- The blocks after the headers of these buffers are set to an entry. -/
def entered (blocks : Host → Option CacheBlockHeader) (entry : Option Addr) (buffers : List Buffer)
    (x : Host) : Option CacheBlockHeader :=
  if x ∈ buffers.map Buffer.host then (blocks x).map ({ · with entry := entry }) else blocks x

/-- Blocks of clients become those of a new entry, still held by the clients. -/
theorem Sound.insert (h : Sound contents blocks held stored) (hFresh : contents a = none)
    {r : Request} (hr : r ∈ stored) (hNodup : (r.tuple_buffers.map Buffer.host).Nodup)
    (hClient : ∀ b ∈ r.tuple_buffers, ∃ header, blocks b.host = some header ∧ header.entry = none)
    (hNew : ∀ x d, contents x = some d → ¬ (d.key = r.key ∧ d.computed_bounds = r.computed_bounds ∧
      d.buf.map Buffer.dim = r.tuple_buffers.map Buffer.dim)) :
    Sound (Function.update contents a (some ⟨r.key, djbHash r.key, r.tuple_buffers.length,
        r.computed_bounds, r.tuple_buffers⟩))
      (entered blocks (some a) r.tuple_buffers) held stored := by
  have hHosts : ∀ x ∈ r.tuple_buffers.map Buffer.host,
      ∃ header, blocks x = some header ∧ header.entry = none := by
    intro x hx
    obtain ⟨b, hb, rfl⟩ := List.mem_map.mp hx
    exact hClient b hb
  have hCases : ∀ {x y}, Function.update contents a (some ⟨r.key, djbHash r.key,
      r.tuple_buffers.length, r.computed_bounds, r.tuple_buffers⟩) x = some y →
      (x = a ∧ y = ⟨r.key, djbHash r.key, r.tuple_buffers.length, r.computed_bounds,
        r.tuple_buffers⟩) ∨ (x ≠ a ∧ contents x = some y) := by
    intro x y hxy
    by_cases hx : x = a
    · subst hx
      rw [Function.update_self] at hxy
      cases hxy
      exact Or.inl ⟨rfl, rfl⟩
    · rw [Function.update_of_ne hx] at hxy
      exact Or.inr ⟨hx, hxy⟩
  have hApart : ∀ {x d}, contents x = some d → ∀ k ∈ d.buf,
      k.host ∉ r.tuple_buffers.map Buffer.host := by
    intro x d hd k hk hMem
    obtain ⟨header, hHeader, hEntry⟩ := hHosts _ hMem
    obtain ⟨header', hHeader', hEntry'⟩ := h.owner x d hd k hk
    rw [hHeader] at hHeader'
    cases hHeader'
    rw [hEntry] at hEntry'
    cases hEntry'
  refine ⟨?_, ?_, ?_, ?_, ?_, ?_, ?_, ?_, ?_⟩
  · intro x y hxy
    rcases hCases hxy with ⟨-, rfl⟩ | ⟨-, hxy⟩
    · exact hNodup
    · exact h.hosts x y hxy
  · intro x y hxy b hb
    rcases hCases hxy with ⟨rfl, rfl⟩ | ⟨-, hxy⟩
    · obtain ⟨header, hHeader, -⟩ := hClient b hb
      refine ⟨{ header with entry := some x }, ?_, rfl⟩
      rw [entered, if_pos (List.mem_map_of_mem hb), hHeader]
      rfl
    · rw [entered, if_neg (hApart hxy b hb)]
      exact h.owner x y hxy b hb
  · intro x header y hx hy
    simp only [entered] at hx
    split at hx
    · next hMem =>
      obtain ⟨header', -, rfl⟩ := Option.map_eq_some_iff.mp hx
      cases hy
      exact ⟨_, Function.update_self _ _ _, hMem⟩
    · obtain ⟨d, hd, hMem⟩ := h.entry x header y hx hy
      have hNe : y ≠ a := by
        rintro rfl
        rw [hFresh] at hd
        cases hd
      exact ⟨d, by rw [Function.update_of_ne hNe]; exact hd, hMem⟩
  · intro x y hxy
    rcases hCases hxy with ⟨-, rfl⟩ | ⟨-, hxy⟩
    · have hOnes : ∀ l : List Buffer, (∀ b ∈ l, b ∈ r.tuple_buffers) → heldOf held l = l.length := by
        intro l
        induction l with
        | nil => intro _; rfl
        | cons b l ih =>
          intro hMem
          obtain ⟨header, hHeader, hEntry⟩ := hClient b (hMem b List.mem_cons_self)
          have hOne := h.client _ _ hHeader hEntry
          have hTail := ih fun d hd => hMem d (List.mem_cons_of_mem b hd)
          simp only [heldOf, List.map_cons, List.sum_cons, List.length_cons] at hTail ⊢
          omega
      exact (hOnes r.tuple_buffers fun _ hb => hb).symm
    · exact h.used x y hxy
  · intro x header hx hy
    simp only [entered] at hx
    split at hx
    · obtain ⟨header', -, rfl⟩ := Option.map_eq_some_iff.mp hx
      cases hy
    · exact h.client x header hx hy
  · intro x hx
    simp only [entered] at hx
    split at hx
    · exact h.free x (Option.map_eq_none_iff.mp hx)
    · exact h.free x hx
  · intro x y hxy
    rcases hCases hxy with ⟨-, rfl⟩ | ⟨-, hxy⟩
    · rfl
    · exact h.hash x y hxy
  · intro x x' y y' hxy hxy' hSame
    rcases hCases hxy with ⟨hx, rfl⟩ | ⟨-, hxy⟩
    · rcases hCases hxy' with ⟨hx', -⟩ | ⟨-, hxy'⟩
      · exact hx.trans hx'.symm
      · exact absurd ⟨hSame.1.symm, hSame.2.1.symm, hSame.2.2.symm⟩ (hNew x' y' hxy')
    · rcases hCases hxy' with ⟨-, rfl⟩ | ⟨-, hxy'⟩
      · exact absurd hSame (hNew x y hxy)
      · exact h.unique x x' y y' hxy hxy' hSame
  · intro x y hxy
    rcases hCases hxy with ⟨-, rfl⟩ | ⟨-, hxy⟩
    · exact ⟨r, hr, rfl, rfl, rfl⟩
    · exact h.stored x y hxy

theorem Sound.mono (h : Sound contents blocks held stored) {stored' : List Request}
    (hSub : ∀ r ∈ stored, r ∈ stored') : Sound contents blocks held stored' := by
  refine ⟨h.hosts, h.owner, h.entry, h.used, h.client, h.free, h.hash, h.unique, fun x y hxy => ?_⟩
  obtain ⟨r, hr, hRest⟩ := h.stored x y hxy
  exact ⟨r, hSub r hr, hRest⟩

end Evict

/-! ### Pruning -/

/-- The buffers of an entry that are handed out. -/
def Cache.inUse (s : Cache) (a : Addr) : Nat := ((s.contents a).map (·.in_use_count)).getD 0

/-- Pruning from the first of the listed entries on, the least recent one first: once it
meets an entry in use, it frees no other one. -/
def EndOnly (s : Cache) : Int → List Addr → Prop
  | _, [] => True
  | current, a :: l => current ≤ s.max_cache_size ∨
      if s.inUse a = 0 then EndOnly s (current - s.bytesAt a) l else ∀ b ∈ l, s.inUse b ≠ 0

/-- Pruning frees entries at the end of the recency list only. -/
def PrunesEnd (s : Cache) : Prop :=
  ∀ l, Chain s.more none s.least_recently_used l → EndOnly s s.current_cache_size l

theorem EndOnly.congr {s s' : Cache} {current : Int} {l : List Addr} (h : EndOnly s current l)
    (hMax : s'.max_cache_size = s.max_cache_size) (hContents : ∀ a ∈ l, s'.contents a = s.contents a) :
    EndOnly s' current l := by
  induction l generalizing current with
  | nil => trivial
  | cons a l ih =>
    have hUse : ∀ b ∈ a :: l, s'.inUse b = s.inUse b := fun b hb => by
      simp only [Cache.inUse, hContents b hb]
    have hBytes : s'.bytesAt a = s.bytesAt a := by
      simp only [Cache.bytesAt, hContents a List.mem_cons_self]
    simp only [EndOnly, hMax, hUse a List.mem_cons_self, hBytes] at h ⊢
    refine h.imp_right fun hRest => ?_
    split
    · next hZero =>
      rw [if_pos hZero] at hRest
      exact ih hRest fun b hb => hContents b (List.mem_cons_of_mem a hb)
    · next hUsed =>
      rw [if_neg hUsed] at hRest
      intro b hb
      rw [hUse b (List.mem_cons_of_mem a hb)]
      exact hRest b hb

/-- What pruning leaves: part of the entries, all client blocks, and the size less what was
freed. -/
structure Pruned (s s' : Cache) (recency recency' : List Addr) : Prop where
  contents : ∀ a c, s'.contents a = some c → s.contents a = some c
  client : ∀ h header, s.blocks h = some header → header.entry = none → s'.blocks h = some header
  max_cache_size : s'.max_cache_size = s.max_cache_size
  current_cache_size : s'.current_cache_size - s'.totalBytes recency' =
    s.current_cache_size - s.totalBytes recency

theorem Pruned.refl (s : Cache) (recency : List Addr) : Pruned s s recency recency :=
  ⟨fun _ _ h => h, fun _ _ h _ => h, rfl, rfl⟩

theorem Pruned.trans {s'' : Cache} {recency' recency'' : List Addr} (h : Pruned s s' recency recency')
    (h' : Pruned s' s'' recency' recency'') : Pruned s s'' recency recency'' :=
  ⟨fun a c hc => h.contents a c (h'.contents a c hc),
    fun x header hx hEntry => h'.client x header (h.client x header hx hEntry) hEntry,
    h'.max_cache_size.trans h.max_cache_size,
    h'.current_cache_size.trans h.current_cache_size⟩

/-- Entries in use are passed over. -/
theorem pruneFrom_skip {l : List Addr} {candidate : Option Addr} {fuel : Nat}
    (hChain : Chain s.more none candidate l) (hLive : ∀ a ∈ l, s.heap a ≠ none)
    (hUse : ∀ a ∈ l, s.inUse a ≠ 0) (hFuel : l.length < fuel) :
    s.pruneFrom fuel candidate = .ok s := by
  induction l generalizing candidate fuel with
  | nil =>
    obtain ⟨fuel, rfl⟩ : ∃ k, fuel = k + 1 := ⟨fuel - 1, by simp at hFuel; omega⟩
    obtain rfl : candidate = none := hChain
    simp only [Cache.pruneFrom]
    split <;> rfl
  | cons a l ih =>
    obtain ⟨fuel, rfl⟩ : ∃ k, fuel = k + 1 := ⟨fuel - 1, by simp at hFuel; omega⟩
    obtain ⟨rfl, hRest⟩ := hChain
    obtain ⟨e, he⟩ := Option.ne_none_iff_exists'.mp (hLive a List.mem_cons_self)
    have hUsed : e.in_use_count ≠ 0 := by
      simpa [Cache.inUse, Cache.contents_eq he] using hUse a List.mem_cons_self
    rw [Cache.more_eq he] at hRest
    have hTail := ih hRest (fun b hb => hLive b (List.mem_cons_of_mem a hb))
      (fun b hb => hUse b (List.mem_cons_of_mem a hb)) (Nat.lt_of_succ_lt_succ hFuel)
    simp only [Cache.pruneFrom, Cache.deref_eq he, bind, Except.bind, hUsed, if_false, hTail]
    split <;> rfl

theorem pruneFrom_spec (hShaped : Shaped s recency)
    (hSound : Sound s.contents s.blocks held stored)
    (hEnd : EndOnly s s.current_cache_size recency.reverse) :
    ∃ s' recency',
      (∀ fuel, recency.length < fuel → s.pruneFrom (fuel + 1) s.least_recently_used = .ok s') ∧
      Shaped s' recency' ∧ Sound s'.contents s'.blocks held stored ∧
      Pruned s s' recency recency' := by
  induction recency using List.reverseRecOn generalizing s with
  | nil =>
    have hNone : s.least_recently_used = none := hShaped.list.2
    refine ⟨s, [], fun fuel _ => ?_, hShaped, hSound, .refl s []⟩
    simp only [Cache.pruneFrom, hNone]
    split <;> rfl
  | append_singleton p a ih =>
    have hLast := hShaped.list.last_eq
    by_cases hOver : s.current_cache_size > s.max_cache_size
    swap
    · refine ⟨s, p ++ [a], fun fuel _ => ?_, hShaped, hSound, .refl s _⟩
      simp only [Cache.pruneFrom, hOver, if_false]
    obtain ⟨e, he⟩ := hShaped.entry (a := a) (by simp)
    have hContents := Cache.contents_eq he
    rw [List.reverse_append, List.reverse_singleton, List.singleton_append] at hEnd
    have hRest := hEnd.resolve_left (by omega)
    by_cases hUse : e.in_use_count = 0
    · have hZero : s.inUse a = 0 := by simp [Cache.inUse, hContents, hUse]
      rw [if_pos hZero] at hRest
      have hAllocated : ∀ b ∈ e.buf, s.blocks b.host ≠ none := by
        intro b hb
        obtain ⟨header, hHeader, -⟩ := hSound.owner a _ hContents b hb
        simp [hHeader]
      obtain ⟨s₁, hEq₁, hShaped₁, hContents₁, hBlocks₁, hMax₁, hSize₁⟩ :=
        evict_spec hShaped hContents (hSound.hosts a _ hContents) hAllocated
      have hSound₁ : Sound s₁.contents s₁.blocks held stored := by
        rw [hContents₁, hBlocks₁]
        exact hSound.evict hContents hUse
      have hNotIn : a ∉ p := fun ha =>
        (List.nodup_append.mp hShaped.nodup).2.2 a ha a (by simp) rfl
      have hKept : ∀ b ∈ p, s₁.contents b = s.contents b := by
        intro b hb
        have hNe : b ≠ a := fun hEq => hNotIn (hEq ▸ hb)
        rw [hContents₁, Function.update_of_ne hNe]
      have hBytes : s.bytesAt a = Cache.bytesOf e.buf := by simp [Cache.bytesAt, hContents]
      have hEnd₁ : EndOnly s₁ s₁.current_cache_size p.reverse := by
        rw [hSize₁, ← hBytes]
        exact hRest.congr hMax₁ fun b hb => hKept b (List.mem_reverse.mp hb)
      obtain ⟨s₂, recency', hEq₂, hShaped₂, hSound₂, hPruned₂⟩ := ih hShaped₁ hSound₁ hEnd₁
      have hPruned₁ : Pruned s s₁ (p ++ [a]) p := by
        refine ⟨fun b c hb => ?_, fun h header hh hEntry => ?_, hMax₁, ?_⟩
        · rw [hContents₁] at hb
          by_cases hba : b = a
          · simp [hba] at hb
          · rwa [Function.update_of_ne hba] at hb
        · rw [hBlocks₁, freed, if_neg]
          · exact hh
          · intro hMem
            obtain ⟨d, hd, rfl⟩ := List.mem_map.mp hMem
            obtain ⟨header', hHeader', hEntry'⟩ := hSound.owner a _ hContents d hd
            rw [hh] at hHeader'
            cases hHeader'
            rw [hEntry] at hEntry'
            cases hEntry'
        · have hTotal : s.totalBytes (p ++ [a]) = s.totalBytes p + s.bytesAt a := by
            simp [Cache.totalBytes]
          rw [Cache.totalBytes_congr hKept, hSize₁, hTotal, hBytes]
          omega
      refine ⟨s₂, recency', fun fuel hFuel => ?_, hShaped₂, hSound₂, hPruned₁.trans hPruned₂⟩
      have hNext : s₁.least_recently_used = e.more_recent := by
        obtain ⟨middle, before, hLeft, -, hBack, -⟩ := doubly_append.mp hShaped.list
        rw [hShaped₁.list.last_eq_getLast?, ← hLeft.last_eq_getLast?, ← hBack, Cache.more_eq he]
      have hRest : s₁.pruneFrom fuel e.more_recent = .ok s₂ := by
        obtain ⟨k, rfl⟩ : ∃ k, fuel = k + 1 := ⟨fuel - 1, by omega⟩
        rw [← hNext]
        exact hEq₂ k (by simp at hFuel; omega)
      rw [Cache.more_eq he] at hEq₁
      simp only [Cache.pruneFrom, hOver, if_true, hLast, Cache.deref_eq he, bind, Except.bind, hUse,
        hEq₁ fuel hFuel, hRest]
    · have hUsed : s.inUse a ≠ 0 := by simpa [Cache.inUse, hContents] using hUse
      rw [if_neg hUsed] at hRest
      refine ⟨s, p ++ [a], fun fuel hFuel => ?_, hShaped, hSound, .refl s _⟩
      rw [hLast]
      have hChain := hShaped.list.chain_reverse
      rw [hLast] at hChain
      refine pruneFrom_skip hChain (fun b hb => (hShaped.live b).mpr (List.mem_reverse.mp hb)) ?_
        (by simp at hFuel ⊢; omega)
      intro b hb
      rw [List.reverse_append, List.reverse_singleton, List.singleton_append] at hb
      rcases List.mem_cons.mp hb with rfl | hb
      · exact hUsed
      · exact hRest b hb

end Vyasa.MemoizationCache
