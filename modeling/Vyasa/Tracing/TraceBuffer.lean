import Vyasa.Bytes.Writes
import Mathlib.Data.Nat.Bitwise
import Mathlib.Tactic.Common
import Mathlib.Logic.Function.Basic

/-! The word of the shared and exclusive spin lock: two flags above a count, and what the
atomic operations of the lock do to each of the three. -/
namespace Vyasa.Tracing.SpinLock

def exclusiveHeldMask : Nat := 2 ^ 31

def exclusiveWaitingMask : Nat := 2 ^ 30

def sharedMask : Nat := 2 ^ 30 - 1

/-- Addition of 32 bit words. -/
def add32 (a b : Nat) : Nat := (a + b) % 2 ^ 32

/-- Subtraction of 32 bit words, which wraps where the second is larger. -/
def sub32 (a b : Nat) : Nat := if b ≤ a then a - b else a + 2 ^ 32 - b

theorem add32_eq {a b : Nat} (h : a + b < 2 ^ 32) : add32 a b = a + b := Nat.mod_eq_of_lt h

theorem sub32_eq {a b : Nat} (h : b ≤ a) : sub32 a b = a - b := if_pos h

/-- The lock word with the given flags and count of sharers. -/
def word (flags count : Nat) : Nat := flags <<< 30 ||| count

/-- `lock & shared_mask`. -/
def readShared (lock : Nat) : Nat := lock &&& sharedMask

/-- `__sync_fetch_and_sub(&lock, 1)`. -/
def releaseShared (lock : Nat) : Nat := sub32 lock 1

/-- `__sync_fetch_and_or(&lock, exclusive_waiting_mask)`. -/
def setWaiting (lock : Nat) : Nat := lock ||| exclusiveWaitingMask

/-- `__sync_fetch_and_and(&lock, ~exclusive_held_mask)`. -/
def releaseExclusive (lock : Nat) : Nat := lock &&& (2 ^ 32 - 1 - exclusiveHeldMask)

variable {flags count : Nat}

theorem word_eq (h : count < 2 ^ 30) : word flags count = flags * 2 ^ 30 + count := by
  rw [word, ← Nat.shiftLeft_add_eq_or_of_lt h, Nat.shiftLeft_eq]

/-- A word tells its flags and its count apart. -/
theorem word_inj {flags' count' : Nat} (h : count < 2 ^ 30) (h' : count' < 2 ^ 30)
    (hEq : word flags count = word flags' count') : flags = flags' ∧ count = count' := by
  rw [word_eq h, word_eq h'] at hEq
  omega

theorem readShared_lt (lock : Nat) : readShared lock < 2 ^ 30 := by
  rw [readShared, sharedMask, Nat.and_two_pow_sub_one_eq_mod]
  exact Nat.mod_lt _ (by decide)

theorem word_zero (count : Nat) : word 0 count = count := by
  simp [word]

theorem releaseShared_word (hPos : 0 < count) (h : count < 2 ^ 30) :
    releaseShared (word flags count) = word flags (count - 1) := by
  rw [releaseShared, word_eq h, word_eq (by omega), sub32_eq (by omega)]
  omega

theorem setWaiting_word (flags count : Nat) :
    setWaiting (word flags count) = word (flags ||| 1) count := by
  simp only [setWaiting, word, exclusiveWaitingMask, Nat.shiftLeft_or_distrib]
  rw [Nat.or_assoc, Nat.or_comm count, ← Nat.or_assoc]
  rfl

theorem word_and_word {flags' count' : Nat} (h : count < 2 ^ 30) (h' : count' < 2 ^ 30) :
    word flags count &&& word flags' count' = word (flags &&& flags') (count &&& count') := by
  refine Nat.eq_of_testBit_eq fun i => ?_
  simp only [word, Nat.testBit_and, Nat.testBit_or, Nat.testBit_shiftLeft]
  by_cases hi : 30 ≤ i
  · have hPow : 2 ^ 30 ≤ 2 ^ i := Nat.pow_le_pow_right (by decide) hi
    rw [Nat.testBit_lt_two_pow (Nat.lt_of_lt_of_le h hPow),
      Nat.testBit_lt_two_pow (Nat.lt_of_lt_of_le h' hPow)]
    simp [hi]
  · simp [hi]

theorem releaseExclusive_word (h : count < 2 ^ 30) :
    releaseExclusive (word flags count) = word (flags &&& 1) count := by
  have hMask : 2 ^ 32 - 1 - exclusiveHeldMask = word 1 (2 ^ 30 - 1) := by decide
  rw [releaseExclusive, hMask, word_and_word h (by decide), Nat.and_two_pow_sub_one_eq_mod,
    Nat.mod_eq_of_lt h]

end Vyasa.Tracing.SpinLock

/-! The trace buffer as the atomic steps of threads that acquire, fill and release packets
and flush the buffer to a file. -/
namespace Vyasa.Tracing

open Bytes

def bufferSize : Nat := 1024 * 1024

/-- Where a thread is. `retry` is the size of the packet that a flush makes room for. -/
inductive Pc where
  | idle
  -- acquire_shared: read the count, then compare and swap.
  | loadLock (size : Nat)
  | swapShared (size x : Nat)
  -- try_acquire_packet, under shared access.
  | claim (size : Nat)
  | addOverage (size : Nat)
  | releaseFailed (size : Nat)
  -- The packet is the caller's until it is released.
  | holding (offset size : Nat)
  -- acquire_exclusive: set the waiting bit, then compare and swap.
  | setWaiting (retry : Option Nat)
  | swapExclusive (retry : Option Nat)
  -- flush, under exclusive access.
  | testCursor (retry : Option Nat)
  | subtract (retry : Option Nat)
  | write (retry : Option Nat)
  | clearCursor (retry : Option Nat)
  | clearOverage (retry : Option Nat)
  | releaseExclusive (retry : Option Nat)
deriving DecidableEq

/-- A packet that was handed out: its bytes when it was released, or when it was handed
out if it has not been. -/
structure Packet (n : Nat) extends Write UInt8 where
  owner : Fin n
  released : Bool

/-- One flush: what it wrote, and the packets handed out since the flush before. -/
structure Flush (n : Nat) where
  bytes : List UInt8
  packets : List (Packet n)

/-- The buffer, the threads, the packets handed out since the last flush, and the flushes. -/
structure State (n : Nat) where
  lock : Nat
  cursor : Nat
  overage : Nat
  buf : Nat → UInt8
  pc : Fin n → Pc
  packets : List (Packet n)
  flushes : List (Flush n)

def State.init (n : Nat) (buf : Nat → UInt8) : State n :=
  ⟨0, 0, 0, buf, fun _ => .idle, [], []⟩

/-- What a thread does next: a call, a byte written into its packet, or one more step of
the call it is in. -/
inductive Event where
  | acquirePacket (size : Nat)
  | flush
  | fill (i : Nat) (value : UInt8)
  | releasePacket
  | advance

namespace State

variable {n : Nat}

def goto (s : State n) (t : Fin n) (p : Pc) : State n := { s with pc := Function.update s.pc t p }

def read (s : State n) (offset size : Nat) : List UInt8 := (List.range' offset size).map s.buf

/-- The packet that thread `t` is given at the cursor. -/
def handOut (s : State n) (t : Fin n) (size : Nat) : State n :=
  { s with packets := s.packets ++ [⟨⟨s.cursor, s.read s.cursor size⟩, t, false⟩] }

/-- A packet with its present bytes, if it is this thread's. -/
def close (s : State n) (t : Fin n) (p : Packet n) : Packet n :=
  if p.owner = t ∧ p.released = false then
    { p with cells := s.read p.offset p.cells.length, released := true }
  else p

/-- The end of a flush, with what it wrote. -/
def flushed (s : State n) (bytes : List UInt8) : State n :=
  { s with packets := [], flushes := s.flushes ++ [⟨bytes, s.packets⟩] }

/-- The step of a call that needs no choice, or `none` outside a call. -/
def advance (s : State n) (t : Fin n) : Option (State n) :=
  match s.pc t with
  | .idle => none
  | .holding _ _ => none
  | .loadLock size => some (s.goto t (.swapShared size (SpinLock.readShared s.lock)))
  | .swapShared size x =>
      if s.lock = x then some ({ s with lock := SpinLock.add32 x 1 }.goto t (.claim size))
      else some (s.goto t (.loadLock size))
  | .claim size =>
      -- The assertion that the size is at most that of the buffer is the caller's promise.
      let cursor := SpinLock.add32 s.cursor size
      if SpinLock.add32 s.cursor size > bufferSize then
        some ({ s with cursor := cursor }.goto t (.addOverage size))
      else
        some ({ s.handOut t size with cursor := cursor }.goto t (.holding s.cursor size))
  | .addOverage size =>
      some ({ s with overage := SpinLock.add32 s.overage size }.goto t (.releaseFailed size))
  | .releaseFailed size =>
      some ({ s with lock := SpinLock.releaseShared s.lock }.goto t (.setWaiting (some size)))
  | .setWaiting retry =>
      some ({ s with lock := SpinLock.setWaiting s.lock }.goto t (.swapExclusive retry))
  | .swapExclusive retry =>
      if s.lock = SpinLock.exclusiveWaitingMask then
        some ({ s with lock := SpinLock.exclusiveHeldMask }.goto t (.testCursor retry))
      else some (s.goto t (.setWaiting retry))
  | .testCursor retry =>
      if s.cursor ≠ 0 then some (s.goto t (.subtract retry))
      else some ((s.flushed []).goto t (.releaseExclusive retry))
  | .subtract retry =>
      some ({ s with cursor := SpinLock.sub32 s.cursor s.overage }.goto t (.write retry))
  | .write retry => some ((s.flushed (s.read 0 s.cursor)).goto t (.clearCursor retry))
  | .clearCursor retry => some ({ s with cursor := 0 }.goto t (.clearOverage retry))
  | .clearOverage retry => some ({ s with overage := 0 }.goto t (.releaseExclusive retry))
  | .releaseExclusive retry =>
      some ({ s with lock := SpinLock.releaseExclusive s.lock }.goto t
        (match retry with
          | none => .idle
          | some size => .loadLock size))

/-- One atomic step of a thread; `none` where the thread is not there. -/
def step (s : State n) (t : Fin n) : Event → Option (State n)
  | .acquirePacket size => if s.pc t = .idle then some (s.goto t (.loadLock size)) else none
  | .flush => if s.pc t = .idle then some (s.goto t (.setWaiting none)) else none
  | .fill i value =>
      match s.pc t with
      | .holding offset size =>
          if i < size then some { s with buf := Function.update s.buf (offset + i) value } else none
      | _ => none
  | .releasePacket =>
      match s.pc t with
      | .holding _ _ =>
          some ({ s with lock := SpinLock.releaseShared s.lock,
                         packets := s.packets.map (s.close t) }.goto t .idle)
      | _ => none
  | .advance => s.advance t

end State

/-- The states of runs in which no packet is larger than `limit`. -/
inductive Reachable (n limit : Nat) : State n → Prop where
  | init (buf : Nat → UInt8) : Reachable n limit (State.init n buf)
  | step {s s' : State n} (t : Fin n) (e : Event) (prior : Reachable n limit s)
      (hSize : ∀ size, e = .acquirePacket size → size ≤ limit) (h : s.step t e = some s') :
      Reachable n limit s'

/-- The thread has shared access. -/
def Pc.Shared : Pc → Prop
  | .claim _ | .addOverage _ | .releaseFailed _ | .holding _ _ => True
  | _ => False

/-- The thread has exclusive access. -/
def Pc.Exclusive : Pc → Prop
  | .testCursor _ | .subtract _ | .write _ | .clearCursor _ | .clearOverage _
  | .releaseExclusive _ => True
  | _ => False

/-- Access is never both shared and exclusive, packets do not overlap or leave the buffer,
and every flush wrote the packets handed out since the one before, all released. -/
structure Integrity {n : Nat} (s : State n) : Prop where
  access : ∀ t u, (s.pc t).Exclusive → ¬ (s.pc u).Shared
  sole : ∀ t u, (s.pc t).Exclusive → (s.pc u).Exclusive → t = u
  apart : (s.packets.map Packet.toWrite).Pairwise Write.Apart
  inside : ∀ p ∈ s.packets, p.stop ≤ bufferSize
  flushed : ∀ f ∈ s.flushes, f.bytes = f.packets.flatMap (·.cells) ∧ ∀ p ∈ f.packets, p.released

end Vyasa.Tracing
