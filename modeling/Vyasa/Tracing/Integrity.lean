import Vyasa.Tracing.Invariant

/-! The trace buffer loses, tears and repeats no packet, as long as the cursor cannot run
past the end of its word. -/
namespace Vyasa.Tracing

open Bytes

variable {n limit : Nat} {s : State n} {pc : Fin n → Pc} {t : Fin n} {p : Pc}
  {cursor overage : Nat} {packets : List (Packet n)}

/-- Bytes claimed in vain since the last flush. -/
def failed (pc : Fin n → Pc) (overage : Nat) : Nat := overage + count pc Pc.pending

/-- Outside a flush the cursor has passed the packets and the bytes claimed in vain, and no
claim succeeds after one that failed. -/
structure Settled (pc : Fin n → Pc) (cursor overage : Nat) (packets : List (Packet n)) :
    Prop where
  cursor : cursor = span packets + failed pc overage
  due : failed pc overage ≤ count pc Pc.due
  full : failed pc overage = 0 ∨ bufferSize < span packets + failed pc overage

/-- What a flush has made of the cursor and the overage. -/
def Stage (cursor overage : Nat) (packets : List (Packet n)) : Pc → Prop
  | .write _ => cursor = span packets
  | .clearCursor _ => packets = []
  | .clearOverage _ => packets = [] ∧ cursor = 0
  | .releaseExclusive _ => packets = [] ∧ cursor = 0 ∧ overage = 0
  | _ => True

structure Counted (limit : Nat) (pc : Fin n → Pc) (cursor overage : Nat)
    (packets : List (Packet n)) : Prop where
  size : ∀ t, (pc t).size ≤ limit
  stage : ∀ t, Stage cursor overage packets (pc t)
  settled : count pc Pc.busy = 0 → Settled pc cursor overage packets

/-- Every flush wrote the packets handed out since the one before. -/
def Written (s : State n) : Prop :=
  ∀ f ∈ s.flushes, f.bytes = f.packets.flatMap (·.cells) ∧ ∀ p ∈ f.packets, p.released

structure Inv (limit : Nat) (s : State n) : Prop where
  access : Access s.lock s.pc
  handed : Handed s.pc s.buf s.packets
  counted : Counted limit s.pc s.cursor s.overage s.packets
  written : Written s

theorem Inv.integrity (h : Inv limit s) : Integrity s := by
  have hExclusive : ∀ t, (s.pc t).Exclusive → count s.pc Pc.exclusives = 1 := by
    intro t ht
    have hOne := Pc.exclusives_pos.mp ht
    have hLe := le_count s.pc t Pc.exclusives
    have hSole := h.access.sole
    omega
  refine ⟨?_, ?_, h.handed.tiles.pairwise_apart, ?_, h.written⟩
  · intro t u ht hu
    have hOne := hExclusive t ht
    have hShared := Pc.sharers_pos.mp hu
    have hLe := le_count s.pc u Pc.sharers
    have hSplit := h.access.split
    omega
  · intro t u ht hu
    by_contra hne
    have hSum := add_le_count s.pc hne Pc.exclusives
    have hOne := hExclusive t ht
    have hT := Pc.exclusives_pos.mp ht
    have hU := Pc.exclusives_pos.mp hu
    omega
  · intro p hp
    exact (h.handed.tiles.inside (List.mem_map_of_mem hp)).2.trans h.handed.fits

theorem Inv.init (limit : Nat) (buf : Nat → UInt8) : Inv limit (State.init n buf) := by
  have hCount : ∀ w : Pc → Nat, w .idle = 0 → count (fun _ : Fin n => Pc.idle) w = 0 :=
    fun w hw => count_eq_zero fun _ => hw
  have hFailed : failed (fun _ : Fin n => Pc.idle) 0 = 0 := by
    rw [failed, hCount Pc.pending rfl]
  refine ⟨⟨⟨0, by omega, ?_⟩, ?_, ?_, ?_⟩, Handed.nil ?_, ⟨?_, ?_, fun _ => ⟨?_, ?_, ?_⟩⟩, ?_⟩
  all_goals simp [hCount Pc.exclusives rfl, hCount Pc.sharers rfl, hFailed, State.init, span, SpinLock.word, Stage, Written]

/-! ### The counts in one step -/

theorem stage_of_exclusives (h : p.exclusives = 0) : Stage cursor overage packets p := by
  cases p <;> trivial

theorem count_busy_le (pc : Fin n → Pc) : count pc Pc.busy ≤ count pc Pc.exclusives :=
  Finset.sum_le_sum fun t _ => by cases pc t <;> simp

/-- While a thread has shared access, no thread has exclusive access. -/
theorem Access.exclusives_eq_zero {lock : Nat} (h : Access lock pc) (ht : (pc t).sharers = 1) :
    count pc Pc.exclusives = 0 := by
  have hLe := le_count pc t Pc.sharers
  have hSplit := h.split
  omega

/-- While a thread has exclusive access, nothing is pending and no other thread has it. -/
theorem Access.alone {lock : Nat} (h : Access lock pc) (ht : (pc t).exclusives = 1) :
    count pc Pc.sharers = 0 ∧ ∀ u, u ≠ t → (pc u).exclusives = 0 := by
  have hLe := le_count pc t Pc.exclusives
  have hSole := h.sole
  have hSplit := h.split
  refine ⟨by omega, fun u hu => ?_⟩
  have hSum := add_le_count pc hu Pc.exclusives
  omega

theorem Access.not_busy {lock : Nat} (h : Access lock pc) (ht : (pc t).exclusives = 1)
    (hBusy : (pc t).busy = 0) : count pc Pc.busy = 0 := by
  refine count_eq_zero fun u => ?_
  by_cases hut : u = t
  · rw [hut]
    exact hBusy
  · have hNone := (h.alone ht).2 u hut
    cases hu : pc u <;> simp [hu] at hNone ⊢

theorem pending_eq_zero (h : count pc Pc.sharers = 0) : count pc Pc.pending = 0 := by
  refine count_eq_zero fun t => ?_
  have hZero := eq_zero_of_count h t
  cases hp : pc t <;> simp [hp] at hZero ⊢

theorem size_update (h : ∀ t, (pc t).size ≤ limit) (hp : p.size ≤ limit) :
    ∀ u, (Function.update pc t p u).size ≤ limit := by
  intro u
  by_cases hut : u = t
  · subst hut
    rw [Function.update_self]
    exact hp
  · rw [Function.update_of_ne hut]
    exact h u

theorem stage_update (h : ∀ u, u ≠ t → Stage cursor overage packets (pc u))
    (hp : Stage cursor overage packets p) :
    ∀ u, Stage cursor overage packets (Function.update pc t p u) := by
  intro u
  by_cases hut : u = t
  · subst hut
    rw [Function.update_self]
    exact hp
  · rw [Function.update_of_ne hut]
    exact h u hut

theorem busy_update (pc : Fin n → Pc) (t : Fin n) (hp : p.busy = 1) :
    count (Function.update pc t p) Pc.busy ≠ 0 := by
  have hLe := le_count (Function.update pc t p) t Pc.busy
  rw [Function.update_self] at hLe
  omega

/-- A move that leaves the cursor, the overage and what is due as they are. -/
theorem Counted.move (h : Counted limit pc cursor overage packets) (hSize : p.size ≤ limit)
    (hStage : Stage cursor overage packets p) (hPending : p.pending = (pc t).pending)
    (hBusy : p.busy = (pc t).busy) (hDue : p.due = (pc t).due) :
    Counted limit (Function.update pc t p) cursor overage packets := by
  have hP := count_update pc t p Pc.pending
  have hB := count_update pc t p Pc.busy
  have hD := count_update pc t p Pc.due
  refine ⟨size_update h.size hSize, stage_update (fun u _ => h.stage u) hStage, fun hZero => ?_⟩
  have hSettled := h.settled (by omega)
  have hFailed : failed (Function.update pc t p) overage = failed pc overage := by
    simp only [failed]
    omega
  have hDue' : count (Function.update pc t p) Pc.due = count pc Pc.due := by omega
  exact ⟨hFailed ▸ hSettled.cursor, by rw [hFailed, hDue']; exact hSettled.due,
    hFailed ▸ hSettled.full⟩

/-- The cursor plus a size that a thread asks for stays in its word. -/
theorem Counted.no_overflow (h : Counted limit pc cursor overage packets)
    (hSettled : Settled pc cursor overage packets) (hFits : span packets ≤ bufferSize)
    {size : Nat} (ht : pc t = .claim size) (hLimit : bufferSize + n * limit < 2 ^ 32) :
    cursor + size < 2 ^ 32 := by
  -- Were the claim to fail, its bytes would be due as well.
  have hD := count_update pc t (.addOverage size) Pc.due
  have hSize := h.size t
  simp only [ht, Pc.due, Pc.size] at hD hSize
  have hLe : count (Function.update pc t (.addOverage size)) Pc.due ≤ n * limit :=
    count_le fun u => (Pc.due_le_size _).trans (size_update h.size (by simpa using hSize) u)
  have hCursor := hSettled.cursor
  have hDue := hSettled.due
  omega

/-! ### One step keeps the invariant -/

/-- A step that changes no more than the lock and the place of one thread. -/
theorem Inv.move (h : Inv limit s) {lock : Nat} (hAccess : Access lock (Function.update s.pc t p))
    (ht : ∀ offset size, s.pc t ≠ .holding offset size)
    (hp : ∀ offset size, p ≠ .holding offset size) (hSize : p.size ≤ limit)
    (hStage : Stage s.cursor s.overage s.packets p) (hPending : p.pending = (s.pc t).pending)
    (hBusy : p.busy = (s.pc t).busy) (hDue : p.due = (s.pc t).due) :
    Inv limit ({ s with lock := lock }.goto t p) :=
  ⟨hAccess, h.handed.move ht hp, h.counted.move hSize hStage hPending hBusy hDue, h.written⟩

/-- The claim of a packet: it fails and is due, or the packet is handed out. -/
theorem Inv.claim (h : Inv limit s) {size : Nat} (ht : s.pc t = .claim size)
    (hLimit : bufferSize + n * limit < 2 ^ 32) {s' : State n} (hs' : s.advance t = some s') :
    Inv limit s' := by
  have hExclusives := h.access.exclusives_eq_zero (t := t) (by simp [ht])
  have hIdle := Nat.le_zero.mp (hExclusives ▸ count_busy_le s.pc)
  have hSettled := h.counted.settled hIdle
  have hStage : ∀ (cursor : Nat) (packets : List (Packet n)) u, u ≠ t →
      Stage cursor s.overage packets (s.pc u) :=
    fun _ _ u _ => stage_of_exclusives (eq_zero_of_count hExclusives u)
  have hSize : size ≤ limit := by simpa [ht] using h.counted.size t
  have hNoOverflow := h.counted.no_overflow hSettled h.handed.fits ht hLimit
  have hCursor := hSettled.cursor
  have hDue := hSettled.due
  have hFull := hSettled.full
  have hFits := h.handed.fits
  simp only [State.advance, ht, SpinLock.add32_eq hNoOverflow] at hs'
  split at hs'
  · next hOver =>
    cases hs'
    have hP := count_update s.pc t (.addOverage size) Pc.pending
    have hD := count_update s.pc t (.addOverage size) Pc.due
    simp only [ht, Pc.pending, Pc.due] at hP hD
    have hFailed : failed (Function.update s.pc t (.addOverage size)) s.overage =
        failed s.pc s.overage + size := by
      simp only [failed]
      omega
    have hSettled' : Settled (Function.update s.pc t (.addOverage size)) (s.cursor + size)
        s.overage s.packets := ⟨by omega, by omega, by omega⟩
    exact ⟨h.access.move (by simp [ht]) (by simp [ht]) (by simp),
      h.handed.move (by simp [ht]) (by simp), ⟨size_update h.counted.size hSize,
        stage_update (hStage _ _) trivial, fun _ => hSettled'⟩, h.written⟩
  · next hRoom =>
    cases hs'
    -- After a failed claim the cursor is past the buffer, so no claim has failed.
    have hNone : failed s.pc s.overage = 0 := by omega
    have hStart : s.cursor = span s.packets := by omega
    have hP := count_update s.pc t (.holding s.cursor size) Pc.pending
    have hD := count_update s.pc t (.holding s.cursor size) Pc.due
    simp only [ht, Pc.pending, Pc.due] at hP hD
    have hFailed : failed (Function.update s.pc t (.holding s.cursor size)) s.overage =
        failed s.pc s.overage := by
      simp only [failed]
      omega
    have hSpan : span (s.packets ++ [⟨⟨s.cursor, s.read s.cursor size⟩, t, false⟩]) =
        span s.packets + size := by simp [span]
    have hSettled' : Settled (Function.update s.pc t (.holding s.cursor size)) (s.cursor + size)
        s.overage (s.packets ++ [⟨⟨s.cursor, s.read s.cursor size⟩, t, false⟩]) :=
      ⟨by omega, by omega, by omega⟩
    have hHanded := h.handed.handOut (t := t) (by simp [ht]) (length_read s s.cursor size)
      (by omega)
    rw [← hStart] at hHanded
    exact ⟨h.access.move (by simp [ht]) (by simp [ht]) (by simp), hHanded,
      ⟨size_update h.counted.size hSize, stage_update (hStage _ _) trivial, fun _ => hSettled'⟩,
      h.written⟩

/-- A failed claim is entered into the overage. -/
theorem Inv.addOverage (h : Inv limit s) {size : Nat} (ht : s.pc t = .addOverage size)
    (hLimit : bufferSize + n * limit < 2 ^ 32) :
    Inv limit ({ s with overage := SpinLock.add32 s.overage size }.goto t (.releaseFailed size)) := by
  have hExclusives := h.access.exclusives_eq_zero (t := t) (by simp [ht])
  have hIdle := Nat.le_zero.mp (hExclusives ▸ count_busy_le s.pc)
  obtain ⟨hCursor, hDue, hFull⟩ := h.counted.settled hIdle
  have hSize : size ≤ limit := by simpa [ht] using h.counted.size t
  have hP := count_update s.pc t (.releaseFailed size) Pc.pending
  have hD := count_update s.pc t (.releaseFailed size) Pc.due
  have hPending := le_count s.pc t Pc.pending
  simp only [ht, Pc.pending, Pc.due] at hP hD hPending
  have hBound : count s.pc Pc.due ≤ n * limit :=
    count_le fun u => (Pc.due_le_size _).trans (h.counted.size u)
  have hNoOverflow : SpinLock.add32 s.overage size = s.overage + size := by
    refine SpinLock.add32_eq ?_
    simp only [failed] at hDue
    omega
  have hFailed : failed (Function.update s.pc t (.releaseFailed size))
      (SpinLock.add32 s.overage size) = failed s.pc s.overage := by
    simp only [failed]
    omega
  have hSettled : Settled (Function.update s.pc t (.releaseFailed size)) s.cursor
      (SpinLock.add32 s.overage size) s.packets := ⟨by omega, by omega, by omega⟩
  exact ⟨h.access.move (by simp [ht]) (by simp [ht]) (by simp),
    h.handed.move (by simp [ht]) (by simp), ⟨size_update h.counted.size hSize,
      stage_update (fun u _ => stage_of_exclusives (eq_zero_of_count hExclusives u)) trivial,
      fun _ => hSettled⟩, h.written⟩

theorem Inv.fill (h : Inv limit s) {offset size i : Nat} {value : UInt8}
    (ht : s.pc t = .holding offset size) (hi : i < size) :
    Inv limit { s with buf := Function.update s.buf (offset + i) value } :=
  ⟨h.access, h.handed.fill ht hi, h.counted, h.written⟩

theorem Inv.releasePacket (h : Inv limit s) (hn : n < 4096) {offset size : Nat}
    (ht : s.pc t = .holding offset size) :
    Inv limit ({ s with lock := SpinLock.releaseShared s.lock,
                        packets := s.packets.map (s.close t) }.goto t .idle) := by
  have hExclusives := h.access.exclusives_eq_zero (t := t) (by simp [ht])
  have hMoved := h.counted.move (t := t) (p := .idle) (Nat.zero_le _) trivial (by simp [ht])
    (by simp [ht]) (by simp [ht])
  have hSpan : span (s.packets.map (s.close t)) = span s.packets := by
    simp [span, Function.comp_def]
  refine ⟨h.access.releaseShared hn (by simp [ht]) rfl rfl (by simp),
    h.handed.release (s := s) (t := t) (p := .idle) (by simp), ⟨hMoved.size, ?_, fun hIdle => ?_⟩, h.written⟩
  · exact stage_update (fun u _ => stage_of_exclusives (eq_zero_of_count hExclusives u)) trivial
  · obtain ⟨hCursor, hDue, hFull⟩ := hMoved.settled hIdle
    have hSettled : Settled (Function.update s.pc t .idle) s.cursor s.overage
        (s.packets.map (s.close t)) :=
      ⟨by rw [hSpan]; exact hCursor, hDue, by rw [hSpan]; exact hFull⟩
    exact hSettled

/-- The stages of the other threads while this one has exclusive access. -/
theorem Inv.stage_alone (h : Inv limit s) (ht : (s.pc t).exclusives = 1) (cursor overage : Nat)
    (packets : List (Packet n)) (hp : Stage cursor overage packets p) :
    ∀ u, Stage cursor overage packets (Function.update s.pc t p u) :=
  stage_update (fun u hu => stage_of_exclusives ((h.access.alone ht).2 u hu)) hp

/-- With nothing pending, an empty buffer is settled. -/
theorem Inv.settled_empty (h : Inv limit s) (ht : (s.pc t).exclusives = 1) (hp : p.pending = 0) :
    Settled (Function.update s.pc t p) 0 0 ([] : List (Packet n)) := by
  have hPending := pending_eq_zero (h.access.alone ht).1
  have hP := count_update s.pc t p Pc.pending
  have hFailed : failed (Function.update s.pc t p) 0 = 0 := by
    simp only [failed]
    omega
  refine ⟨?_, ?_, Or.inl hFailed⟩
  · rw [hFailed]
    rfl
  · rw [hFailed]
    exact Nat.zero_le _

/-- No thread holds a packet while one has exclusive access. -/
theorem Inv.handed_empty (h : Inv limit s) (ht : (s.pc t).exclusives = 1)
    (hp : ∀ offset size, p ≠ .holding offset size) :
    Handed (Function.update s.pc t p) s.buf [] := by
  refine Handed.nil fun u offset size hu => ?_
  by_cases hut : u = t
  · subst hut
    rw [Function.update_self] at hu
    exact hp offset size hu
  · rw [Function.update_of_ne hut] at hu
    have hZero := eq_zero_of_count (h.access.alone ht).1 u
    simp [hu] at hZero

theorem Inv.flushed (h : Inv limit s) {bytes : List UInt8}
    (hBytes : bytes = s.packets.flatMap (·.cells)) (hReleased : ∀ q ∈ s.packets, q.released) :
    Written (s.flushed bytes) := by
  intro f hf
  rcases List.mem_append.mp hf with hf | hf
  · exact h.written f hf
  · rw [List.mem_singleton.mp hf]
    exact ⟨hBytes, hReleased⟩

/-- A flush finds the cursor at zero: there is nothing to write. -/
theorem Inv.flushNothing (h : Inv limit s) {retry : Option Nat} (ht : s.pc t = .testCursor retry)
    (hZero : s.cursor = 0) :
    Inv limit ((s.flushed []).goto t (.releaseExclusive retry)) := by
  have hOne : (s.pc t).exclusives = 1 := by simp [ht]
  have hBusy := h.access.not_busy hOne (by simp [ht])
  obtain ⟨hCursor, -, -⟩ := h.counted.settled hBusy
  have hSpan : span s.packets = 0 := by omega
  have hOverage : s.overage = 0 := by
    simp only [failed] at hCursor
    omega
  obtain ⟨hRead, hReleased⟩ := h.handed.read_eq (h.access.alone hOne).1
  rw [hSpan] at hRead
  refine ⟨h.access.move (by simp [ht]) (by simp [ht]) (by simp), h.handed_empty hOne (by simp),
    ⟨size_update h.counted.size (by simpa [ht] using h.counted.size t),
      h.stage_alone hOne _ _ _ ⟨rfl, hZero, hOverage⟩, fun _ => ?_⟩, h.flushed hRead hReleased⟩
  have hSettled := h.settled_empty (p := .releaseExclusive retry) hOne rfl
  simpa [State.goto, State.flushed, hZero, hOverage] using hSettled

/-- The overage is taken off the cursor, which is then where the packets end. -/
theorem Inv.subtract (h : Inv limit s) {retry : Option Nat} (ht : s.pc t = .subtract retry) :
    Inv limit ({ s with cursor := SpinLock.sub32 s.cursor s.overage }.goto t
      (.write retry)) := by
  have hOne : (s.pc t).exclusives = 1 := by simp [ht]
  have hBusy := h.access.not_busy hOne (by simp [ht])
  obtain ⟨hCursor, -, -⟩ := h.counted.settled hBusy
  have hPending := pending_eq_zero (h.access.alone hOne).1
  have hCursor' : SpinLock.sub32 s.cursor s.overage = span s.packets := by
    simp only [failed, hPending] at hCursor
    rw [SpinLock.sub32_eq (by omega)]
    omega
  exact ⟨h.access.move (by simp [ht]) (by simp [ht]) (by simp),
    h.handed.move (by simp [ht]) (by simp),
    ⟨size_update h.counted.size (by simpa [ht] using h.counted.size t),
      h.stage_alone hOne _ _ _ hCursor', fun hIdle => absurd hIdle (busy_update s.pc t rfl)⟩,
    h.written⟩

/-- The packets are written out. -/
theorem Inv.write (h : Inv limit s) {retry : Option Nat} (ht : s.pc t = .write retry) :
    Inv limit ((s.flushed (s.read 0 s.cursor)).goto t (.clearCursor retry)) := by
  have hOne : (s.pc t).exclusives = 1 := by simp [ht]
  have hCursor : s.cursor = span s.packets := by simpa [ht, Stage] using h.counted.stage t
  obtain ⟨hRead, hReleased⟩ := h.handed.read_eq (h.access.alone hOne).1
  rw [← hCursor] at hRead
  exact ⟨h.access.move (by simp [ht]) (by simp [ht]) (by simp), h.handed_empty hOne (by simp),
    ⟨size_update h.counted.size (by simpa [ht] using h.counted.size t),
      h.stage_alone hOne _ _ _ rfl, fun hIdle => absurd hIdle (busy_update s.pc t rfl)⟩,
    h.flushed hRead hReleased⟩

theorem Inv.clearCursor (h : Inv limit s) {retry : Option Nat} (ht : s.pc t = .clearCursor retry) :
    Inv limit ({ s with cursor := 0 }.goto t (.clearOverage retry)) := by
  have hOne : (s.pc t).exclusives = 1 := by simp [ht]
  have hPackets : s.packets = [] := by simpa [ht, Stage] using h.counted.stage t
  exact ⟨h.access.move (by simp [ht]) (by simp [ht]) (by simp),
    h.handed.move (by simp [ht]) (by simp),
    ⟨size_update h.counted.size (by simpa [ht] using h.counted.size t),
      h.stage_alone hOne _ _ _ ⟨hPackets, rfl⟩,
      fun hIdle => absurd hIdle (busy_update s.pc t rfl)⟩, h.written⟩

theorem Inv.clearOverage (h : Inv limit s) {retry : Option Nat}
    (ht : s.pc t = .clearOverage retry) :
    Inv limit ({ s with overage := 0 }.goto t (.releaseExclusive retry)) := by
  have hOne : (s.pc t).exclusives = 1 := by simp [ht]
  obtain ⟨hPackets, hCursor⟩ : s.packets = [] ∧ s.cursor = 0 := by
    simpa [ht, Stage] using h.counted.stage t
  refine ⟨h.access.move (by simp [ht]) (by simp [ht]) (by simp),
    h.handed.move (by simp [ht]) (by simp),
    ⟨size_update h.counted.size (by simpa [ht] using h.counted.size t),
      h.stage_alone hOne _ _ _ ⟨hPackets, hCursor, rfl⟩, fun _ => ?_⟩, h.written⟩
  have hSettled := h.settled_empty (p := .releaseExclusive retry) hOne rfl
  simpa [State.goto, hPackets, hCursor] using hSettled

/-- The flush is over; a thread whose claim failed tries again. -/
theorem Inv.releaseExclusive (h : Inv limit s) {retry : Option Nat}
    (ht : s.pc t = .releaseExclusive retry) (hE : p.exclusives = 0) (hS : p.sharers = 0)
    (hSwap : ∀ size x, p ≠ .swapShared size x) (hp : ∀ offset size, p ≠ .holding offset size)
    (hPending : p.pending = 0) (hSize : p.size ≤ limit) :
    Inv limit ({ s with lock := SpinLock.releaseExclusive s.lock }.goto t p) := by
  have hOne : (s.pc t).exclusives = 1 := by simp [ht]
  obtain ⟨hPackets, hCursor, hOverage⟩ : s.packets = [] ∧ s.cursor = 0 ∧ s.overage = 0 := by
    simpa [ht, Stage] using h.counted.stage t
  refine ⟨h.access.releaseExclusive hOne hE hS hSwap, h.handed.move (by simp [ht]) hp,
    ⟨size_update h.counted.size hSize, h.stage_alone hOne _ _ _ (stage_of_exclusives hE),
      fun _ => ?_⟩, h.written⟩
  have hSettled := h.settled_empty hOne hPending
  simpa [State.goto, hPackets, hCursor, hOverage] using hSettled

theorem Inv.advance (h : Inv limit s) (hn : n < 4096) (hLimit : bufferSize + n * limit < 2 ^ 32)
    {s' : State n} (hs' : s.advance t = some s') : Inv limit s' := by
  have hSize := h.counted.size t
  cases ht : s.pc t with
  | idle => simp [State.advance, ht] at hs'
  | holding offset size => simp [State.advance, ht] at hs'
  | loadLock size =>
    simp only [State.advance, ht, Option.some.injEq] at hs'
    subst hs'
    rw [ht] at hSize
    refine h.move (h.access.move (by simp [ht]) (by simp [ht]) ?_) (by simp [ht]) (by simp) hSize
      trivial (by simp [ht]) (by simp [ht]) (by simp [ht])
    rintro size x ⟨⟩
    exact SpinLock.readShared_lt s.lock
  | swapShared size x =>
    simp only [State.advance, ht] at hs'
    rw [ht] at hSize
    split at hs'
    · next hLock =>
      cases hs'
      subst hLock
      exact h.move (h.access.acquireShared hn ht) (by simp [ht]) (by simp) hSize trivial
        (by simp [ht]) (by simp [ht]) (by simp [ht])
    · cases hs'
      exact h.move (h.access.move (by simp [ht]) (by simp [ht]) (by simp)) (by simp [ht]) (by simp)
        hSize trivial (by simp [ht]) (by simp [ht]) (by simp [ht])
  | claim size => exact h.claim ht hLimit hs'
  | addOverage size =>
    simp only [State.advance, ht, Option.some.injEq] at hs'
    exact hs' ▸ h.addOverage ht hLimit
  | releaseFailed size =>
    simp only [State.advance, ht, Option.some.injEq] at hs'
    subst hs'
    rw [ht] at hSize
    exact h.move (h.access.releaseShared hn (by simp [ht]) rfl rfl (by simp)) (by simp [ht])
      (by simp) hSize trivial (by simp [ht]) (by simp [ht]) (by simp [ht])
  | setWaiting retry =>
    simp only [State.advance, ht, Option.some.injEq] at hs'
    subst hs'
    rw [ht] at hSize
    exact h.move (h.access.setWaiting (by simp [ht]) (by simp [ht]) (by simp)) (by simp [ht])
      (by simp) hSize trivial (by simp [ht]) (by simp [ht]) (by simp [ht])
  | swapExclusive retry =>
    simp only [State.advance, ht] at hs'
    rw [ht] at hSize
    split at hs'
    · next hLock =>
      cases hs'
      exact h.move (h.access.acquireExclusive hn ht hLock).2 (by simp [ht]) (by simp) hSize trivial
        (by simp [ht]) (by simp [ht]) (by simp [ht])
    · cases hs'
      exact h.move (h.access.move (by simp [ht]) (by simp [ht]) (by simp)) (by simp [ht]) (by simp)
        hSize trivial (by simp [ht]) (by simp [ht]) (by simp [ht])
  | testCursor retry =>
    simp only [State.advance, ht] at hs'
    rw [ht] at hSize
    split at hs'
    · cases hs'
      exact h.move (h.access.move (by simp [ht]) (by simp [ht]) (by simp)) (by simp [ht]) (by simp)
        hSize trivial (by simp [ht]) (by simp [ht]) (by simp [ht])
    · next hZero =>
      cases hs'
      exact h.flushNothing ht (not_not.mp hZero)
  | subtract retry =>
    simp only [State.advance, ht, Option.some.injEq] at hs'
    exact hs' ▸ h.subtract ht
  | write retry =>
    simp only [State.advance, ht, Option.some.injEq] at hs'
    exact hs' ▸ h.write ht
  | clearCursor retry =>
    simp only [State.advance, ht, Option.some.injEq] at hs'
    exact hs' ▸ h.clearCursor ht
  | clearOverage retry =>
    simp only [State.advance, ht, Option.some.injEq] at hs'
    exact hs' ▸ h.clearOverage ht
  | releaseExclusive retry =>
    simp only [State.advance, ht, Option.some.injEq] at hs'
    subst hs'
    rw [ht] at hSize
    cases retry with
    | none => exact h.releaseExclusive ht rfl rfl (by simp) (by simp) rfl (Nat.zero_le _)
    | some size => exact h.releaseExclusive ht rfl rfl (by simp) (by simp) rfl hSize

theorem Inv.step (h : Inv limit s) (hn : n < 4096) (hLimit : bufferSize + n * limit < 2 ^ 32)
    {e : Event} (hSize : ∀ size, e = .acquirePacket size → size ≤ limit) {s' : State n}
    (hs' : s.step t e = some s') : Inv limit s' := by
  cases e with
  | acquirePacket size =>
    simp only [State.step] at hs'
    split at hs'
    · next ht =>
      cases hs'
      exact h.move (h.access.move (by simp [ht]) (by simp [ht]) (by simp)) (by simp [ht]) (by simp)
        (hSize size rfl) trivial (by simp [ht]) (by simp [ht]) (by simp [ht])
    · cases hs'
  | flush =>
    simp only [State.step] at hs'
    split at hs'
    · next ht =>
      cases hs'
      exact h.move (h.access.move (by simp [ht]) (by simp [ht]) (by simp)) (by simp [ht]) (by simp)
        (Nat.zero_le _) trivial (by simp [ht]) (by simp [ht]) (by simp [ht])
    · cases hs'
  | fill i value =>
    simp only [State.step] at hs'
    split at hs'
    · next offset size ht =>
      split at hs'
      · next hi =>
        cases hs'
        exact h.fill ht hi
      · cases hs'
    · cases hs'
  | releasePacket =>
    simp only [State.step] at hs'
    split at hs'
    · next offset size ht =>
      cases hs'
      exact h.releasePacket hn ht
    · cases hs'
  | advance => exact h.advance hn hLimit hs'

/-- The invariant holds in every state of every run in which the cursor stays in its word. -/
theorem Reachable.inv (h : Reachable n limit s) (hn : n < 4096)
    (hLimit : bufferSize + n * limit < 2 ^ 32) : Inv limit s := by
  induction h with
  | init buf => exact Inv.init limit buf
  | step t e prior hSize hs' ih => exact ih.step hn hLimit hSize hs'

end Vyasa.Tracing
