import Vyasa.Tracing.TraceBuffer
import Mathlib.Algebra.BigOperators.Fin
import Mathlib.Algebra.Order.BigOperators.Group.Finset

/-! What holds between the lock word, the cursor, the overage and the places of the
threads, in every state that the trace buffer reaches. -/
namespace Vyasa.Tracing

open Bytes

/-- One for a thread with shared access. -/
@[simp] def Pc.sharers : Pc → Nat
  | .claim _ | .addOverage _ | .releaseFailed _ | .holding _ _ => 1
  | _ => 0

/-- One for a thread with exclusive access. -/
@[simp] def Pc.exclusives : Pc → Nat
  | .testCursor _ | .subtract _ | .write _ | .clearCursor _ | .clearOverage _
  | .releaseExclusive _ => 1
  | _ => 0

/-- Bytes claimed in vain that are not in the overage yet. -/
@[simp] def Pc.pending : Pc → Nat
  | .addOverage size => size
  | _ => 0

/-- Bytes claimed in vain by a thread that has not flushed since. -/
@[simp] def Pc.due : Pc → Nat
  | .addOverage size | .releaseFailed size => size
  | .setWaiting retry | .swapExclusive retry | .testCursor retry | .subtract retry
  | .write retry | .clearCursor retry | .clearOverage retry
  | .releaseExclusive retry => retry.getD 0
  | _ => 0

/-- One for a thread that has changed the cursor in a flush and not finished. -/
@[simp] def Pc.busy : Pc → Nat
  | .write _ | .clearCursor _ | .clearOverage _ => 1
  | _ => 0

/-- The size a thread asks for. -/
@[simp] def Pc.size : Pc → Nat
  | .loadLock size | .swapShared size _ | .claim size | .addOverage size | .releaseFailed size
  | .holding _ size => size
  | .setWaiting retry | .swapExclusive retry | .testCursor retry | .subtract retry
  | .write retry | .clearCursor retry | .clearOverage retry
  | .releaseExclusive retry => retry.getD 0
  | .idle => 0

theorem Pc.sharers_pos {p : Pc} : p.Shared ↔ p.sharers = 1 := by
  cases p <;> simp [Pc.Shared]

theorem Pc.exclusives_pos {p : Pc} : p.Exclusive ↔ p.exclusives = 1 := by
  cases p <;> simp [Pc.Exclusive]

theorem Pc.due_le_size (p : Pc) : p.due ≤ p.size := by
  cases p <;> simp

section Count

variable {n : Nat} {pc : Fin n → Pc} {w : Pc → Nat}

/-- The sum of a weight over the threads. -/
def count (pc : Fin n → Pc) (w : Pc → Nat) : Nat := ∑ t, w (pc t)

/-- One thread moves: its old weight goes, its new weight comes. -/
theorem count_update (pc : Fin n → Pc) (t : Fin n) (p : Pc) (w : Pc → Nat) :
    count (Function.update pc t p) w + w (pc t) = count pc w + w p := by
  have hOthers : ∑ u ∈ Finset.univ.erase t, w (Function.update pc t p u) =
      ∑ u ∈ Finset.univ.erase t, w (pc u) := by
    refine Finset.sum_congr rfl fun u hu => ?_
    rw [Function.update_of_ne (Finset.ne_of_mem_erase hu)]
  rw [count, count, ← Finset.add_sum_erase _ _ (Finset.mem_univ t),
    ← Finset.add_sum_erase _ (fun u => w (pc u)) (Finset.mem_univ t), hOthers,
    Function.update_self]
  omega

theorem le_count (pc : Fin n → Pc) (t : Fin n) (w : Pc → Nat) : w (pc t) ≤ count pc w :=
  Finset.single_le_sum (f := fun u => w (pc u)) (fun _ _ => Nat.zero_le _) (Finset.mem_univ t)

theorem add_le_count (pc : Fin n → Pc) {t u : Fin n} (h : t ≠ u) (w : Pc → Nat) :
    w (pc t) + w (pc u) ≤ count pc w := by
  have hOthers : w (pc u) ≤ ∑ u ∈ Finset.univ.erase t, w (pc u) :=
    Finset.single_le_sum (f := fun u => w (pc u)) (fun _ _ => Nat.zero_le _)
      (Finset.mem_erase.mpr ⟨h.symm, Finset.mem_univ u⟩)
  rw [count, ← Finset.add_sum_erase _ _ (Finset.mem_univ t)]
  omega

theorem count_le {limit : Nat} (h : ∀ t, w (pc t) ≤ limit) : count pc w ≤ n * limit := by
  have hSum := Finset.sum_le_card_nsmul Finset.univ (fun t => w (pc t)) limit fun t _ => h t
  simpa [count] using hSum

theorem count_eq_zero (h : ∀ t, w (pc t) = 0) : count pc w = 0 :=
  Finset.sum_eq_zero fun t _ => h t

theorem eq_zero_of_count (h : count pc w = 0) (t : Fin n) : w (pc t) = 0 :=
  Nat.le_zero.mp (h ▸ le_count pc t w)

end Count

section Access

variable {n lock : Nat} {pc : Fin n → Pc} {t : Fin n} {p : Pc}

/-- The lock word counts the threads that have access, which is shared or exclusive. -/
structure Access (lock : Nat) (pc : Fin n → Pc) : Prop where
  word : ∃ waiting ≤ 1,
    lock = SpinLock.word (2 * count pc Pc.exclusives + waiting) (count pc Pc.sharers)
  sole : count pc Pc.exclusives ≤ 1
  split : count pc Pc.exclusives = 0 ∨ count pc Pc.sharers = 0
  swap : ∀ t size x, pc t = .swapShared size x → x < 2 ^ 30

theorem sharers_le (pc : Fin n → Pc) : count pc Pc.sharers ≤ n := by
  have hLe : ∀ t, (pc t).sharers ≤ 1 := fun t => by cases pc t <;> simp
  simpa using count_le hLe

theorem swap_update (h : ∀ t size x, pc t = .swapShared size x → x < 2 ^ 30)
    (hp : ∀ size x, p = .swapShared size x → x < 2 ^ 30) :
    ∀ u size x, Function.update pc t p u = .swapShared size x → x < 2 ^ 30 := by
  intro u size x hu
  by_cases hut : u = t
  · subst hut
    rw [Function.update_self] at hu
    exact hp size x hu
  · rw [Function.update_of_ne hut] at hu
    exact h u size x hu

/-- A move that neither takes nor gives up access. -/
theorem Access.move (h : Access lock pc) (hE : p.exclusives = (pc t).exclusives)
    (hS : p.sharers = (pc t).sharers) (hp : ∀ size x, p = .swapShared size x → x < 2 ^ 30) :
    Access lock (Function.update pc t p) := by
  have hE' := count_update pc t p Pc.exclusives
  have hS' := count_update pc t p Pc.sharers
  have hEq : count (Function.update pc t p) Pc.exclusives = count pc Pc.exclusives := by omega
  have hEq' : count (Function.update pc t p) Pc.sharers = count pc Pc.sharers := by omega
  exact ⟨by rw [hEq, hEq']; exact h.word, by rw [hEq]; exact h.sole,
    by rw [hEq, hEq']; exact h.split, swap_update h.swap hp⟩

/-- The compare and swap of `acquire_shared` succeeds. -/
theorem Access.acquireShared (h : Access lock pc) (hn : n < 4096) {size : Nat}
    (ht : pc t = .swapShared size lock) :
    Access (SpinLock.add32 lock 1) (Function.update pc t (.claim size)) := by
  obtain ⟨waiting, hWaiting, hWord⟩ := h.word
  have hLe := sharers_le pc
  have hLock := h.swap t size lock ht
  have hZero : SpinLock.word 0 lock = lock := SpinLock.word_zero lock
  have hInj := SpinLock.word_inj hLock (by omega) (hZero.trans hWord)
  have hE := count_update pc t (.claim size) Pc.exclusives
  have hS := count_update pc t (.claim size) Pc.sharers
  simp only [ht, Pc.exclusives, Pc.sharers] at hE hS
  refine ⟨⟨0, by omega, ?_⟩, by omega, by omega, swap_update h.swap (by simp)⟩
  have hE' : count (Function.update pc t (.claim size)) Pc.exclusives = 0 := by omega
  have hS' : count (Function.update pc t (.claim size)) Pc.sharers = lock + 1 := by omega
  rw [hE', hS', SpinLock.word_zero, SpinLock.add32_eq (by omega)]

/-- `release_shared` by a thread that has shared access. -/
theorem Access.releaseShared (h : Access lock pc) (hn : n < 4096) (hS : (pc t).sharers = 1)
    (hp : p.exclusives = 0) (hp' : p.sharers = 0) (hSwap : ∀ size x, p ≠ .swapShared size x) :
    Access (SpinLock.releaseShared lock) (Function.update pc t p) := by
  obtain ⟨waiting, hWaiting, hWord⟩ := h.word
  have hLe := sharers_le pc
  have hSole := h.sole
  have hSplit := h.split
  have hPos := le_count pc t Pc.sharers
  have hNone : (pc t).exclusives = 0 := by
    have := le_count pc t Pc.exclusives
    omega
  have hE' := count_update pc t p Pc.exclusives
  have hS' := count_update pc t p Pc.sharers
  refine ⟨⟨waiting, hWaiting, ?_⟩, by omega, by omega,
    swap_update h.swap fun size x hEq => absurd hEq (hSwap size x)⟩
  rw [hWord, SpinLock.releaseShared_word (by omega) (by omega)]
  congr 1 <;> omega

/-- The first half of a round of `acquire_exclusive`. -/
theorem Access.setWaiting (h : Access lock pc) (hE : p.exclusives = (pc t).exclusives)
    (hS : p.sharers = (pc t).sharers) (hp : ∀ size x, p = .swapShared size x → x < 2 ^ 30) :
    Access (SpinLock.setWaiting lock) (Function.update pc t p) := by
  have hMoved := h.move hE hS hp
  obtain ⟨waiting, hWaiting, hWord⟩ := hMoved.word
  refine ⟨⟨1, by omega, ?_⟩, hMoved.sole, hMoved.split, hMoved.swap⟩
  rw [hWord, SpinLock.setWaiting_word]
  have hFlags : ∀ e ≤ 1, ∀ w ≤ 1, (2 * e + w) ||| 1 = 2 * e + 1 := by decide
  rw [hFlags _ hMoved.sole _ hWaiting]

/-- The compare and swap of `acquire_exclusive` succeeds. -/
theorem Access.acquireExclusive (h : Access lock pc) (hn : n < 4096) {retry : Option Nat}
    (ht : pc t = .swapExclusive retry) (hLock : lock = SpinLock.exclusiveWaitingMask) :
    count pc Pc.sharers = 0 ∧
      Access SpinLock.exclusiveHeldMask (Function.update pc t (.testCursor retry)) := by
  obtain ⟨waiting, hWaiting, hWord⟩ := h.word
  have hLe := sharers_le pc
  have hMask : SpinLock.exclusiveWaitingMask = SpinLock.word 1 0 := by decide
  have hInj := SpinLock.word_inj (by decide) (by omega) (hMask.symm.trans (hLock.symm.trans hWord))
  have hE := count_update pc t (.testCursor retry) Pc.exclusives
  have hS := count_update pc t (.testCursor retry) Pc.sharers
  simp only [ht, Pc.exclusives, Pc.sharers] at hE hS
  refine ⟨by omega, ⟨0, by omega, ?_⟩, by omega, by omega, swap_update h.swap (by simp)⟩
  have hE' : count (Function.update pc t (.testCursor retry)) Pc.exclusives = 1 := by omega
  have hS' : count (Function.update pc t (.testCursor retry)) Pc.sharers = 0 := by omega
  rw [hE', hS']
  decide

/-- `release_exclusive` by the thread that has exclusive access. -/
theorem Access.releaseExclusive (h : Access lock pc) (hE : (pc t).exclusives = 1)
    (hp : p.exclusives = 0) (hp' : p.sharers = 0) (hSwap : ∀ size x, p ≠ .swapShared size x) :
    Access (SpinLock.releaseExclusive lock) (Function.update pc t p) := by
  obtain ⟨waiting, hWaiting, hWord⟩ := h.word
  have hSole := h.sole
  have hSplit := h.split
  have hPos := le_count pc t Pc.exclusives
  have hNone : (pc t).sharers = 0 := by
    have := le_count pc t Pc.sharers
    omega
  have hE' := count_update pc t p Pc.exclusives
  have hS' := count_update pc t p Pc.sharers
  refine ⟨⟨waiting, hWaiting, ?_⟩, by omega, by omega,
    swap_update h.swap fun size x hEq => absurd hEq (hSwap size x)⟩
  have hZero : count pc Pc.sharers = 0 := by omega
  have hOne : count pc Pc.exclusives = 1 := by omega
  rw [hWord, hZero, hOne, SpinLock.releaseExclusive_word (by decide)]
  have hFlags : ∀ w ≤ 1, (2 * 1 + w) &&& 1 = w := by decide
  rw [hFlags _ hWaiting]
  congr 1 <;> omega

end Access

section Handed

variable {n : Nat} {pc : Fin n → Pc} {t : Fin n} {p : Pc} {buf : Nat → UInt8}
  {packets : List (Packet n)}

/-- Bytes of the packets handed out. -/
def span (packets : List (Packet n)) : Nat := (packets.map fun p => p.cells.length).sum

/-- The packets tile the front of the buffer, and a thread holds each one that is not
released. -/
structure Handed (pc : Fin n → Pc) (buf : Nat → UInt8) (packets : List (Packet n)) : Prop where
  tiles : Tiles 0 (packets.map Packet.toWrite) (span packets)
  fits : span packets ≤ bufferSize
  held : ∀ p ∈ packets, p.released → p.Held buf
  owned : ∀ p ∈ packets, p.released = false → pc p.owner = .holding p.offset p.cells.length
  holding : ∀ t offset size, pc t = .holding offset size →
    ∃ p ∈ packets, p.owner = t ∧ p.released = false ∧ p.offset = offset ∧ p.cells.length = size

theorem Handed.nil (h : ∀ t offset size, pc t ≠ .holding offset size) : Handed pc buf [] :=
  ⟨rfl, Nat.zero_le _, by simp, by simp, fun t offset size ht => absurd ht (h t offset size)⟩

/-- A move of a thread that holds no packet before or after. -/
theorem Handed.move (h : Handed pc buf packets) (ht : ∀ offset size, pc t ≠ .holding offset size)
    (hp : ∀ offset size, p ≠ .holding offset size) :
    Handed (Function.update pc t p) buf packets := by
  refine ⟨h.tiles, h.fits, h.held, ?_, ?_⟩
  · intro q hq hReleased
    have hOwner := h.owned q hq hReleased
    have hNe : q.owner ≠ t := fun hEq => ht _ _ (hEq ▸ hOwner)
    rw [Function.update_of_ne hNe]
    exact hOwner
  · intro u offset size hu
    by_cases hut : u = t
    · subst hut
      rw [Function.update_self] at hu
      exact absurd hu (hp offset size)
    · rw [Function.update_of_ne hut] at hu
      exact h.holding u offset size hu

/-- A packet is handed out where the packets before it end. -/
theorem Handed.handOut (h : Handed pc buf packets) {size : Nat} {cells : List UInt8}
    (ht : ∀ offset size, pc t ≠ .holding offset size) (hCells : cells.length = size)
    (hFits : span packets + size ≤ bufferSize) :
    Handed (Function.update pc t (.holding (span packets) size)) buf
      (packets ++ [⟨⟨span packets, cells⟩, t, false⟩]) := by
  have hSpan : span (packets ++ [⟨⟨span packets, cells⟩, t, false⟩]) = span packets + size := by
    simp [span, hCells]
  refine ⟨?_, by omega, ?_, ?_, ?_⟩
  · rw [hSpan, List.map_append, tiles_append]
    exact ⟨span packets, h.tiles, rfl, by simp [Tiles, Write.stop, hCells]⟩
  · intro q hq hReleased
    rcases List.mem_append.mp hq with hq | hq
    · exact h.held q hq hReleased
    · simp only [List.mem_singleton] at hq
      subst hq
      cases hReleased
  · intro q hq hReleased
    rcases List.mem_append.mp hq with hq | hq
    · have hOwner := h.owned q hq hReleased
      have hNe : q.owner ≠ t := fun hEq => ht _ _ (hEq ▸ hOwner)
      rw [Function.update_of_ne hNe]
      exact hOwner
    · simp only [List.mem_singleton] at hq
      subst hq
      simp [hCells]
  · intro u offset size' hu
    by_cases hut : u = t
    · subst hut
      rw [Function.update_self] at hu
      cases hu
      exact ⟨_, List.mem_append_right _ List.mem_cons_self, rfl, rfl, rfl, hCells⟩
    · rw [Function.update_of_ne hut] at hu
      obtain ⟨q, hq, hRest⟩ := h.holding u offset size' hu
      exact ⟨q, List.mem_append_left _ hq, hRest⟩

/-- A thread writes into its packet, which no released packet overlaps. -/
theorem Handed.fill (h : Handed pc buf packets) {offset size i : Nat} {value : UInt8}
    (ht : pc t = .holding offset size) (hi : i < size) :
    Handed pc (Function.update buf (offset + i) value) packets := by
  refine ⟨h.tiles, h.fits, ?_, h.owned, h.holding⟩
  intro q hq hReleased j c hCell
  obtain ⟨mine, hMine, -, hOpen, hOffset, hSize⟩ := h.holding t offset size ht
  have hLt : j < q.cells.length := (List.getElem?_eq_some_iff.mp hCell).1
  have hNe : q ≠ mine := by
    rintro rfl
    simp [hOpen] at hReleased
  have hApart : ∀ v : Packet n, v ∈ packets → ∀ w ∈ packets, v ≠ w → v.toWrite.Apart w.toWrite := by
    have hSymm : Std.Symm fun v w : Packet n => v.toWrite.Apart w.toWrite :=
      ⟨fun v w hvw i hw hv => hvw i hv hw⟩
    intro v hv w hw hNe
    exact (List.pairwise_map.mp h.tiles.pairwise_apart).forall hv hw hNe
  have hDifferent : q.offset + j ≠ offset + i := by
    intro hEq
    refine hApart q hq mine hMine hNe (q.offset + j) ⟨by omega, ?_⟩ ⟨by omega, ?_⟩
    · simp only [Write.stop]
      omega
    · simp only [Write.stop]
      omega
  rw [Function.update_of_ne hDifferent]
  exact h.held q hq hReleased j c hCell

@[simp] theorem length_read (s : State n) (offset size : Nat) :
    (s.read offset size).length = size := by
  simp [State.read]

theorem held_read (s : State n) (offset size : Nat) :
    Write.Held s.buf ⟨offset, s.read offset size⟩ := by
  intro j c hCell
  obtain ⟨hLt, hEq⟩ := List.getElem?_eq_some_iff.mp hCell
  simpa [State.read] using hEq

@[simp] theorem close_offset (s : State n) (t : Fin n) (q : Packet n) :
    (s.close t q).offset = q.offset := by
  unfold State.close
  split <;> rfl

@[simp] theorem close_length (s : State n) (t : Fin n) (q : Packet n) :
    (s.close t q).cells.length = q.cells.length := by
  unfold State.close
  split <;> simp

/-- Writes with the same places tile the same range. -/
theorem tiles_map_close (s : State n) (t : Fin n) {start stop : Nat} :
    Tiles start ((packets.map (s.close t)).map Packet.toWrite) stop ↔
      Tiles start (packets.map Packet.toWrite) stop := by
  induction packets generalizing start with
  | nil => rfl
  | cons q packets ih => simp only [List.map_cons, Tiles, Write.stop, close_offset, close_length, ih]

/-- A thread releases its packet, whose bytes are now final. -/
theorem Handed.release {s : State n} (h : Handed s.pc s.buf packets)
    (hp : ∀ offset size, p ≠ .holding offset size) :
    Handed (Function.update s.pc t p) s.buf (packets.map (s.close t)) := by
  have hSpan : span (packets.map (s.close t)) = span packets := by
    simp [span, Function.comp_def]
  refine ⟨?_, hSpan ▸ h.fits, ?_, ?_, ?_⟩
  · rw [hSpan, tiles_map_close]
    exact h.tiles
  · intro q hq hReleased
    obtain ⟨q, hMem, rfl⟩ := List.mem_map.mp hq
    unfold State.close at hReleased ⊢
    split
    · exact held_read s q.offset q.cells.length
    · next hOther =>
      rw [if_neg hOther] at hReleased
      exact h.held q hMem hReleased
  · intro q hq hReleased
    obtain ⟨q, hMem, rfl⟩ := List.mem_map.mp hq
    unfold State.close at hReleased ⊢
    split
    · next hOwn => simp [hOwn] at hReleased
    · next hOther =>
      rw [if_neg hOther] at hReleased
      have hNe : q.owner ≠ t := fun hEq => hOther ⟨hEq, hReleased⟩
      rw [Function.update_of_ne hNe]
      exact h.owned q hMem hReleased
  · intro u offset size hu
    by_cases hut : u = t
    · subst hut
      rw [Function.update_self] at hu
      exact absurd hu (hp offset size)
    · rw [Function.update_of_ne hut] at hu
      obtain ⟨q, hq, hOwner, hRest⟩ := h.holding u offset size hu
      have hClose : s.close t q = q := by
        simp only [State.close, hOwner, hut, false_and, if_false]
      exact ⟨q, List.mem_map.mpr ⟨q, hq, hClose⟩, hOwner, hRest⟩

/-- With no thread in shared access, every packet is released, and the front of the buffer
is their concatenation. -/
theorem Handed.read_eq {s : State n} (h : Handed s.pc s.buf s.packets)
    (hShared : count s.pc Pc.sharers = 0) :
    s.read 0 (span s.packets) = s.packets.flatMap (·.cells) ∧ ∀ q ∈ s.packets, q.released := by
  have hReleased : ∀ q ∈ s.packets, q.released := by
    intro q hq
    by_contra hOpen
    have hOwner := h.owned q hq (by simpa using hOpen)
    have hZero := eq_zero_of_count hShared q.owner
    simp [hOwner] at hZero
  refine ⟨?_, hReleased⟩
  have hHeld : ∀ w ∈ s.packets.map Packet.toWrite, w.Held s.buf := by
    intro w hw
    obtain ⟨q, hq, rfl⟩ := List.mem_map.mp hw
    exact h.held q hq (hReleased q hq)
  simpa [State.read, List.flatMap_map] using h.tiles.read hHeld

end Handed

end Vyasa.Tracing
