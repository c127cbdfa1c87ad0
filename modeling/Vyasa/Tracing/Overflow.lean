import Vyasa.Tracing.Integrity

/-! The run in which claims in vain carry the cursor past the end of its word, and the
exact number of threads and size of packets for which there is none. -/
namespace Vyasa.Tracing

open Bytes

variable {n limit : Nat} {s : State n} {t : Fin n}

/-- A thread that was idle gets shared access and is about to claim its bytes. -/
theorem Reachable.share (h : Reachable n limit s) (ht : s.pc t = .idle) {size : Nat}
    (hSize : size ≤ limit) (hLock : s.lock < 2 ^ 20) :
    ∃ s', Reachable n limit s' ∧ s'.lock = s.lock + 1 ∧ s'.cursor = s.cursor ∧
      s'.pc = Function.update s.pc t (.claim size) := by
  have hRead : SpinLock.readShared s.lock = s.lock := by
    rw [SpinLock.readShared, SpinLock.sharedMask, Nat.and_two_pow_sub_one_eq_mod]
    omega
  have hStart : s.step t (.acquirePacket size) = some (s.goto t (.loadLock size)) := by
    simp [State.step, ht]
  have hLoad : (s.goto t (.loadLock size)).step t .advance =
      some (s.goto t (.swapShared size s.lock)) := by
    simp [State.step, State.advance, State.goto, hRead]
  have hSwap : (s.goto t (.swapShared size s.lock)).step t .advance =
      some ({ s with lock := SpinLock.add32 s.lock 1 }.goto t (.claim size)) := by
    simp [State.step, State.advance, State.goto]
  refine ⟨_, ((h.step t _ ?_ hStart).step t _ (by simp) hLoad).step t _ (by simp) hSwap, ?_, rfl,
    rfl⟩
  · rintro size' ⟨⟩
    exact hSize
  · exact SpinLock.add32_eq (by omega)

/-- A claim that fits: the bytes from the cursor on are handed out. -/
theorem Reachable.claimed (h : Reachable n limit s) {size : Nat} (ht : s.pc t = .claim size)
    (hRoom : SpinLock.add32 s.cursor size ≤ bufferSize) :
    ∃ s', Reachable n limit s' ∧ s'.lock = s.lock ∧ s'.cursor = SpinLock.add32 s.cursor size ∧
      s'.pc = Function.update s.pc t (.holding s.cursor size) ∧
      s'.packets = (s.handOut t size).packets := by
  have hStep : s.step t .advance = some ({ s.handOut t size with
      cursor := SpinLock.add32 s.cursor size }.goto t (.holding s.cursor size)) := by
    simp only [State.step, State.advance, ht]
    exact if_neg (Nat.not_lt.mpr hRoom)
  exact ⟨_, h.step t .advance (by simp) hStep, rfl, rfl, rfl, rfl⟩

/-- A claim that does not fit, or seems not to. -/
theorem Reachable.refused (h : Reachable n limit s) {size : Nat} (ht : s.pc t = .claim size)
    (hFull : bufferSize < SpinLock.add32 s.cursor size) :
    ∃ s', Reachable n limit s' ∧ s'.cursor = SpinLock.add32 s.cursor size ∧
      s'.pc = Function.update s.pc t (.addOverage size) := by
  have hStep : s.step t .advance = some ({ s with
      cursor := SpinLock.add32 s.cursor size }.goto t (.addOverage size)) := by
    simp only [State.step, State.advance, ht]
    exact if_pos hFull
  exact ⟨_, h.step t .advance (by simp) hStep, rfl, rfl⟩

theorem Reachable.release (h : Reachable n limit s) {offset size : Nat}
    (ht : s.pc t = .holding offset size) :
    ∃ s', Reachable n limit s' ∧ s'.lock = SpinLock.releaseShared s.lock ∧ s'.cursor = s.cursor ∧
      s'.pc = Function.update s.pc t .idle := by
  have hStep : s.step t .releasePacket = some ({ s with
      lock := SpinLock.releaseShared s.lock, packets := s.packets.map (s.close t) }.goto t .idle) := by
    simp only [State.step, ht]
  exact ⟨_, h.step t .releasePacket (by simp) hStep, rfl, rfl, rfl⟩

/-- One thread fills the buffer with a packet and releases it. -/
theorem reachable_full (t : Fin n) :
    ∃ s, Reachable n bufferSize s ∧ s.lock = 0 ∧ s.cursor = bufferSize ∧ ∀ u, s.pc u = .idle := by
  have hInit : Reachable n bufferSize (State.init n fun _ => 0) := .init _
  obtain ⟨s, hs, hLock, hCursor, hPc⟩ := hInit.share (t := t) rfl (Nat.le_refl bufferSize)
    (Nat.two_pow_pos 20)
  have ht : s.pc t = .claim bufferSize := by rw [hPc, Function.update_self]
  have hAdd : SpinLock.add32 s.cursor bufferSize = bufferSize := by
    rw [hCursor]
    exact SpinLock.add32_eq (a := 0) (by decide)
  obtain ⟨s₁, hs₁, hLock₁, hCursor₁, hPc₁, -⟩ := hs.claimed ht (Nat.le_of_eq hAdd)
  have ht₁ : s₁.pc t = .holding s.cursor bufferSize := by rw [hPc₁, Function.update_self]
  obtain ⟨s₂, hs₂, hLock₂, hCursor₂, hPc₂⟩ := hs₁.release ht₁
  refine ⟨s₂, hs₂, ?_, by rw [hCursor₂, hCursor₁, hAdd], fun u => ?_⟩
  · have hOne : s.lock = 1 := hLock
    rw [hLock₂, hLock₁, hOne]
    decide
  · by_cases hu : u = t
    · simp [hPc₂, hu]
    · simp [hPc₂, hPc₁, hPc, hu, State.init]

/-- Any number of threads can be about to claim a packet as large as the full buffer. -/
theorem reachable_claiming (t : Fin n) (hn : n < 4096) (k : Nat) (hk : k ≤ n) :
    ∃ s, Reachable n bufferSize s ∧ s.lock = k ∧ s.cursor = bufferSize ∧
      ∀ u : Fin n, s.pc u = if u.val < k then .claim bufferSize else .idle := by
  induction k with
  | zero =>
    obtain ⟨s, hs, hLock, hCursor, hPc⟩ := reachable_full t
    exact ⟨s, hs, hLock, hCursor, by simpa using hPc⟩
  | succ k ih =>
    obtain ⟨s, hs, hLock, hCursor, hPc⟩ := ih (by omega)
    have hIdle : s.pc ⟨k, hk⟩ = .idle := by simp [hPc]
    obtain ⟨s', hs', hLock', hCursor', hPc'⟩ := hs.share hIdle (Nat.le_refl bufferSize)
      (by omega)
    refine ⟨s', hs', by omega, by omega, fun u => ?_⟩
    by_cases hu : u = ⟨k, hk⟩
    · simp [hPc', hu]
    · have hNe : u.val ≠ k := fun hEq => hu (Fin.ext hEq)
      simp only [hPc', Function.update_of_ne hu, hPc]
      congr 1
      simp only [eq_iff_iff]
      omega

/-- The threads claim one after the other, in vain, until the cursor is at the end of its
word. -/
theorem reachable_refused (k : Nat) (hk : k ≤ 4094) :
    ∃ s, Reachable 4095 bufferSize s ∧ s.cursor = (k + 1) * bufferSize ∧
      ∀ u : Fin 4095, k ≤ u.val → s.pc u = .claim bufferSize := by
  induction k with
  | zero =>
    obtain ⟨s, hs, -, hCursor, hPc⟩ := reachable_claiming (n := 4095) ⟨0, by decide⟩ (by decide) 4095
      (Nat.le_refl _)
    exact ⟨s, hs, by simpa using hCursor, fun u _ => by rw [hPc, if_pos u.isLt]⟩
  | succ k ih =>
    obtain ⟨s, hs, hCursor, hPc⟩ := ih (by omega)
    have hClaim := hPc ⟨k, by omega⟩ (Nat.le_refl k)
    have hAdd : SpinLock.add32 s.cursor bufferSize = (k + 1 + 1) * bufferSize := by
      rw [hCursor, SpinLock.add32_eq (by simp only [bufferSize]; omega), Nat.succ_mul (k + 1)]
    obtain ⟨s', hs', hCursor', hPc'⟩ := hs.refused hClaim (by
      rw [hAdd]
      simp only [bufferSize]
      omega)
    refine ⟨s', hs', hCursor'.trans hAdd, fun u hu => ?_⟩
    have hNe : u ≠ ⟨k, by omega⟩ := fun hEq => by simp [hEq] at hu
    rw [hPc', Function.update_of_ne hNe]
    exact hPc u (by omega)

/-- The claim of the last thread wraps, seems to fit, and hands out bytes far outside the
buffer. -/
theorem reachable_outside : ∃ s, Reachable 4095 bufferSize s ∧ ¬ Integrity s := by
  obtain ⟨s, hs, hCursor, hPc⟩ := reachable_refused 4094 (Nat.le_refl _)
  have hAdd : SpinLock.add32 s.cursor bufferSize = 0 := by
    rw [hCursor]
    decide
  obtain ⟨s', hs', -, -, -, hPackets⟩ := hs.claimed (hPc ⟨4094, by decide⟩ (Nat.le_refl _))
    (by rw [hAdd]; exact Nat.zero_le _)
  refine ⟨s', hs', fun hIntegrity => ?_⟩
  have hInside := hIntegrity.inside
    ⟨⟨s.cursor, s.read s.cursor bufferSize⟩, ⟨4094, by decide⟩, false⟩
    (by simp [hPackets, State.handOut])
  simp only [Write.stop, length_read, hCursor, bufferSize] at hInside
  omega

/-- Every run of fewer than 4096 threads keeps the trace buffer intact, if and only if it is
not the case that there are 4095 of them and packets may be as large as the buffer. -/
theorem integrity_iff (hn : n < 4096) (hLimit : limit ≤ bufferSize) :
    (∀ s : State n, Reachable n limit s → Integrity s) ↔ ¬ (n = 4095 ∧ limit = bufferSize) := by
  constructor
  · rintro hAll ⟨rfl, rfl⟩
    obtain ⟨s, hs, hNot⟩ := reachable_outside
    exact hNot (hAll s hs)
  · intro hNot s hs
    have hRoom : bufferSize + n * limit < 2 ^ 32 := by
      simp only [bufferSize] at *
      rcases Nat.lt_or_ge n 4095 with hLt | hGe
      · have hMul : n * limit ≤ 4094 * (1024 * 1024) := Nat.mul_le_mul (by omega) hLimit
        omega
      · obtain rfl : n = 4095 := by omega
        omega
    exact (hs.inv hn hRoom).integrity

/-- Four threads with packets of any size. -/
theorem integrity_four_threads :
    4 < 4096 ∧ bufferSize ≤ bufferSize ∧ ∀ s : State 4, Reachable 4 bufferSize s → Integrity s :=
  ⟨by decide, Nat.le_refl _, (integrity_iff (by decide) (Nat.le_refl _)).mpr (by decide)⟩

/-- The number of threads may be below 4096 and a packet yet leave the buffer. -/
theorem full_packets_leave_buffer :
    ¬ ∀ n < 4096, ∀ s : State n, Reachable n bufferSize s → Integrity s := by
  intro hAll
  obtain ⟨s, hs, hNot⟩ := reachable_outside
  exact hNot (hAll 4095 (by decide) s hs)

end Vyasa.Tracing
