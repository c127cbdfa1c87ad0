import Vyasa.Synchronization.Conditions

/-! No thread sleeps on at a mutex that nobody has locked, unless another is on its way to it. When all
threads that are in a call are stuck they sleep, and each of them for a reason. -/
namespace Vyasa.Synchronization

open Function

variable {hash : Addr → Bucket} {t t' w : Thread} {s s' : State} {m m' : Mutex} {c : Cond} {b : Bucket}
  {k : ParkControl}

/-- A mutex that is known to be locked, with the bit for parked threads set. -/
def Pc.full : Pc → Option Mutex
  | .enqueue (.mutex m) | .requeue _ m false => some m
  | _ => none

/-- A mutex that the thread is awake to lock. -/
def Pc.locks : Pc → Option Mutex
  | .lock m | .lock_load m _ | .lock_loop m _ _ | .park (.mutex m) | .validate (.mutex m)
  | .park_unlock (.mutex m) false => some m
  | _ => none

/-- A thread to wake up and the mutex it will lock. -/
def Pc.aims : Pc → Option (Thread × Mutex)
  | .unpark (.mutex m _) (some w) _ | .requeue_callback _ m _ (some w) _ => some (w, m)
  | _ => none

/-- Somebody is woken up unless there is nobody. -/
def Pc.Sure : Pc → Prop
  | .unpark _ none more => more = false
  | .requeue_callback _ _ true none some_requeued => some_requeued = false
  | _ => True

/-- Somebody is on the way to the mutex: a thread that is awake, one that was woken up, or one that is
about to be. -/
def Roused (s : State) (m : Mutex) : Prop :=
  ∃ t, (s.pc t).locks = some m ∨
    (∃ k, (s.pc t).sleeps = some k ∧ k.lock = m ∧ s.should_park t = false) ∨
    ∃ w k, (s.pc t).target = some w ∧ (s.pc w).sleeps = some k ∧ k.lock = m

section Places

variable {pc : Pc}

theorem inside_of_full (h : pc.full = some m) : pc.inside hash (hash (.mutex m)) := by
  unfold Pc.full at h
  split at h <;> cases h
  · exact rfl
  · exact either_iff.mpr (.inr rfl)

theorem target_of_aims (h : pc.aims = some (w, m)) : pc.target = some w := by
  unfold Pc.aims at h
  split at h <;> cases h <;> rfl

theorem not_plain_of_full (h : pc.full = some m) : ¬ pc.Plain := by
  unfold Pc.full at h
  split at h <;> cases h <;> exact not_false

theorem not_plain_of_aims (h : pc.aims = some (w, m)) : ¬ pc.Plain := by
  unfold Pc.aims at h
  split at h <;> cases h <;> exact not_false

theorem sure_of_plain (h : pc.Plain) : pc.Sure := by
  unfold Pc.Plain at h
  split at h
  all_goals first | exact trivial | cases h

end Places

section Steps

variable (hStep : Step hash t s s')
include hStep

theorem Step.locks (hLocks : (s.pc t).locks = some m) :
    (s'.pc t).locks = some m ∨ (s'.mutex m).lock_bit = true := by
  cases hStep with
  | lock_take m' hPc | loop_take m' e n hPc =>
    rw [hPc] at hLocks
    cases hLocks
    exact .inr (by simp [State.goto, State.setHeld, State.setMutex])
  | validate_mutex m' hPc hWord =>
    rw [hPc] at hLocks
    cases hLocks
    exact .inr (by simp [State.goto, hWord])
  | park k hPc =>
    rw [hPc] at hLocks
    rcases k with m' | ⟨c, m'⟩ <;> cases hLocks
    exact .inl (by simp [State.goto, Pc.locks])
  | park_unlock_invalid k hPc =>
    rw [hPc] at hLocks
    rcases k with m' | ⟨c, m'⟩ <;> cases hLocks
    exact .inl (by simp [State.resume, State.goto, Pc.locks])
  | _ => simp_all [State.goto, Pc.locks]

/-- A thread that was woken up goes on to lock its mutex. -/
theorem Step.rises (hInfo : s.unpark_info t = none) (hPc : s.pc t = .parked k) :
    (s'.pc t).locks = some k.lock := by
  cases hStep with
  | parked k' hPc' =>
    rw [hPc] at hPc'
    cases hPc'
    cases k <;> simp [State.resume, State.goto, hInfo, Pc.locks]
  | _ => simp_all

theorem Step.mutex_full (hInfo : s.unpark_info t = none) (hWord : s.mutex m = ⟨true, true⟩) :
    s'.mutex m = ⟨true, true⟩ ∨ ∃ sleep data more, s.pc t = .unpark (.mutex m sleep) data more := by
  rcases hStep.mutexEffect hInfo with ⟨hMutex, -⟩ | ⟨m', hFree, -, hMutex, -⟩ |
      ⟨m', w, -, -, hCase, hMutex, -⟩ | ⟨m', hMutex, -⟩
  · exact .inl (by rw [hMutex, hWord])
  · rcases eq_or_ne m' m with rfl | hm
    · rw [hWord] at hFree
      cases hFree
    · exact .inl (by rw [hMutex, update_of_ne hm.symm, hWord])
  · rcases eq_or_ne m' m with rfl | hm
    · rcases hCase with ⟨h, -⟩ | ⟨sleep, data, hPc⟩
      · rw [hWord] at h
        cases h
      · exact .inr ⟨sleep, data, _, hPc⟩
    · exact .inl (by rw [hMutex, update_of_ne hm.symm, hWord])
  · rcases eq_or_ne m' m with rfl | hm
    · exact .inl (by rw [hMutex, update_self, hWord])
    · exact .inl (by rw [hMutex, update_of_ne hm.symm, hWord])

/-- A node comes to a mutex with a thread that goes to sleep there or with a requeue. -/
theorem Step.mutex_node (h : (w, .mutex m) ∈ s'.queue b) : (w, .mutex m) ∈ s.queue b ∨
    s.pc t = .enqueue (.mutex m) ∨ ∃ c one wakeup, s.pc t = .requeue c m one ∧
      s'.pc t = .requeue_callback c m one wakeup true ∧
      (one = true → ∃ v, wakeup = some v ∧ (v, .cond c) ∈ s.queue (hash (.cond c))) := by
  rcases hStep.node h with hOld | ⟨k, hPc, -, ha⟩ |
      ⟨c, m', one, wakeup, requeued, rest, hPc, hPc', hCollect, hIn⟩
  · exact .inl hOld
  · rcases k with m' | ⟨c, m'⟩ <;> cases ha
    exact .inr (.inl hPc)
  · obtain ⟨-, hHits, hTo, -, hSome⟩ := collect_spec hCollect
    cases hTo _ hIn
    have hNe : requeued ≠ [] := List.ne_nil_of_mem hIn
    refine .inr (.inr ⟨c, one, wakeup, hPc, ?_, fun hOne => ?_⟩)
    · rw [hPc', show requeued.isEmpty = false by simpa using hNe]
      rfl
    · obtain ⟨v, hv⟩ := Option.ne_none_iff_exists'.mp (hSome hOne hNe)
      refine ⟨v, hv, mem_hits.mp ?_⟩
      rw [← hHits, hv]
      exact List.mem_cons_self

/-- A thread that was woken up need not sleep again before it has got up. -/
theorem Step.stays_up (hUp : s.should_park w = false) (hSleeps : (s.pc w).sleeps = some k) :
    s'.should_park w = false := by
  rcases hStep.nodeEffect with ⟨-, hPark, -⟩ | ⟨k', hPc, -, -, hPark⟩ | ⟨u, data, more, rest, -, -, -, -, hPark⟩ |
      ⟨c, m, one, wakeup, requeued, rest, -, -, -, -, hPark⟩ | ⟨v, -, -, -, -, hPark⟩ |
      ⟨k', -, -, -, -, -, -, hPark⟩
  · rw [hPark, hUp]
  · have hNe : w ≠ t := by
      rintro rfl
      rw [hPc] at hSleeps
      cases hSleeps
    rw [hPark, update_of_ne hNe, hUp]
  · rw [hPark, hUp]
  · rw [hPark, hUp]
  · rw [hPark, update_apply]
    split_ifs
    · rfl
    · exact hUp
  · rw [hPark, hUp]

end Steps

/-- The node of a thread that is to be woken up stays asleep until it is. -/
theorem NodeInv.sleeps_target (hNodes : NodeInv hash s) (hStep : Step hash t s s')
    (h : (s.pc t').target = some w) : (s'.pc w).sleeps = (s.pc w).sleeps := by
  obtain ⟨hPark, ⟨k, hk⟩, -⟩ := hNodes.target t' w h
  exact hStep.sleeps_of_parked hPark hk

theorem Roused.step (hRoused : Roused s m) (hNodes : NodeInv hash s) (hInfo : s.unpark_info t = none)
    (hStep : Step hash t s s') (hFree : (s'.mutex m).lock_bit = false) : Roused s' m := by
  obtain ⟨t', hLocks | ⟨k, hk, hLock, hUp⟩ | ⟨w, k, hTarget, hk, hLock⟩⟩ := hRoused
  · rcases eq_or_ne t' t with rfl | hNe
    · rcases hStep.locks hLocks with h | h
      · exact ⟨t', .inl h⟩
      · rw [hFree] at h
        cases h
    · exact ⟨t', .inl (by rw [hStep.pc_of_ne hNe, hLocks])⟩
  · rcases hStep.sleeps_on hk with hSleeps | ⟨rfl, hPc, -⟩
    · exact ⟨t', .inr (.inl ⟨k, hSleeps, hLock, hStep.stays_up hUp hk⟩)⟩
    · exact ⟨t', .inl (hLock ▸ hStep.rises hInfo hPc)⟩
  · have hSleeps := (hNodes.sleeps_target hStep hTarget).trans hk
    rcases eq_or_ne t' t with rfl | hNe
    · rcases hStep.nodeEffect with ⟨-, -, -, hSame⟩ | ⟨k', hPc, -⟩ | ⟨u, data, more, rest, hPc, -⟩ |
          ⟨c, m, one, wakeup, requeued, rest, hPc, -⟩ | ⟨v, hv, -, -, -, hPark⟩ | ⟨k', -, -, hNone, -⟩
      · exact ⟨t', .inr (.inr ⟨w, k, hSame.trans hTarget, hSleeps, hLock⟩)⟩
      · rw [hPc] at hTarget
        cases hTarget
      · rw [hPc] at hTarget
        cases hTarget
      · rw [hPc] at hTarget
        cases hTarget
      · obtain rfl := Option.some.inj (hv.symm.trans hTarget)
        exact ⟨v, .inr (.inl ⟨k, hSleeps, hLock, by rw [hPark, update_self]⟩)⟩
      · rw [hNone] at hTarget
        cases hTarget
    · exact ⟨t', .inr (.inr ⟨w, k, by rw [hStep.pc_of_ne hNe, hTarget], hSleeps, hLock⟩)⟩

structure WakeInv (s : State) : Prop where
  full : ∀ t m, (s.pc t).full = some m → s.mutex m = ⟨true, true⟩
  sure : ∀ t, (s.pc t).Sure
  aims : ∀ t w m, (s.pc t).aims = some (w, m) → ∃ k, (s.pc w).sleeps = some k ∧ k.lock = m
  marked : ∀ b w m, (w, .mutex m) ∈ s.queue b → (s.mutex m).parked_bit = true ∨
    ∃ t c data, s.pc t = .requeue_callback c m true data true
  roused : ∀ b w m, (w, .mutex m) ∈ s.queue b → (s.mutex m).lock_bit = false → Roused s m

section Step

variable (hStep : Step hash t s s')
include hStep

theorem WakeInv.full_step (hInv : WakeInv s) (hBuckets : BucketInv hash s) (hInfo : s.unpark_info t = none)
    (h : (s'.pc t').full = some m) : s'.mutex m = ⟨true, true⟩ := by
  rcases eq_or_ne t' t with rfl | hNe
  · cases hStep with
    | validate_mutex m' hPc hWord =>
      simp only [State.goto, update_self] at h ⊢
      cases h
      exact hWord
    | parked_loop_mark c m' val hPc hLock hWord =>
      simp only [State.goto, update_self] at h ⊢
      cases h
      simp [State.setMutex, hLock]
    | park_unlock_invalid | parked | unlock_give | full_give | unpark_unlock | wake | unlock_only
    | unlock_second => exact absurd (by simp [State.goto]) (not_plain_of_full h)
    | _ => simp [State.goto, Pc.full] at h
  · rw [hStep.pc_of_ne hNe] at h
    refine (hStep.mutex_full hInfo (hInv.full t' m h)).resolve_right ?_
    rintro ⟨sleep, data, more, hPc⟩
    exact hBuckets.outside hNe (inside_of_full h) (by rw [hPc]; rfl)

theorem WakeInv.sure_step (hInv : WakeInv s) (t' : Thread) : (s'.pc t').Sure := by
  rcases eq_or_ne t' t with rfl | hNe
  · cases hStep with
    | find u data more rest hPc hDequeue =>
      simp only [State.goto, update_self]
      cases data with
      | none => exact (dequeue_none hDequeue).1
      | some w => exact trivial
    | requeue c m one wakeup requeue rest hPc hCollect =>
      simp only [State.goto, update_self]
      obtain ⟨-, -, -, -, hSome⟩ := collect_spec hCollect
      cases one with
      | false => exact trivial
      | true =>
        cases wakeup with
        | some w => exact trivial
        | none =>
          by_contra hNot
          refine hSome rfl (fun hNil => hNot ?_) rfl
          rw [hNil]
          rfl
    | park_unlock_invalid | parked | unlock_give | full_give | unpark_unlock | wake | unlock_only
    | unlock_second => exact sure_of_plain (by simp [State.goto])
    | _ => simp [State.goto, Pc.Sure]
  · rw [hStep.pc_of_ne hNe]
    exact hInv.sure t'

theorem WakeInv.aims_step (hInv : WakeInv s) (hNodes : NodeInv hash s) (hBuckets : BucketInv hash s)
    (hConds : CondInv hash s) (h : (s'.pc t').aims = some (w, m)) :
    ∃ k, (s'.pc w).sleeps = some k ∧ k.lock = m := by
  rcases eq_or_ne t' t with rfl | hNe
  · cases hStep' : hStep with
    | find u data more rest hPc hDequeue =>
      rcases u with ⟨m', sleep⟩ | ⟨c, m'⟩ <;> cases data <;>
        simp only [State.goto, update_self] at h <;> cases h
      obtain ⟨before, behind, hAll, -⟩ := dequeue_some hDequeue
      have hMem : (w, Addr.mutex m) ∈ s.queue (hash (.mutex m)) := by
        rw [UnparkControl.addr_mutex] at hAll
        simp [hAll]
      obtain ⟨k, hk, hLock⟩ := hNodes.lock_of_mem hMem
      exact ⟨k, (hNodes.sleeps_step hStep hMem).trans hk, hLock⟩
    | requeue c m' one wakeup requeued rest hPc hCollect =>
      cases wakeup <;> simp only [State.goto, update_self] at h <;> cases h
      obtain ⟨-, hHits, -⟩ := collect_spec hCollect
      have hMem : (w, Addr.cond c) ∈ s.queue (hash (.cond c)) := by
        rw [← mem_hits, ← hHits]
        exact List.mem_cons_self
      have hSleeps := hConds.waits_requeue hBuckets hPc hMem
      exact ⟨_, (hNodes.sleeps_step hStep hMem).trans hSleeps, rfl⟩
    | park_unlock_invalid | parked | unlock_give | full_give | unpark_unlock | wake | unlock_only
    | unlock_second => exact absurd (by simp [State.goto]) (not_plain_of_aims h)
    | _ => simp [State.goto, Pc.aims] at h
  · rw [hStep.pc_of_ne hNe] at h
    obtain ⟨k, hk, hLock⟩ := hInv.aims t' w m h
    exact ⟨k, (hNodes.sleeps_target hStep (target_of_aims h)).trans hk, hLock⟩

theorem WakeInv.full_stays (hInv : WakeInv s) (hInfo : s.unpark_info t = none)
    (h : (s.pc t).full = some m) : s'.mutex m = ⟨true, true⟩ := by
  refine (hStep.mutex_full hInfo (hInv.full t m h)).resolve_right ?_
  rintro ⟨sleep, data, more, hPc⟩
  rw [hPc] at h
  cases h

theorem WakeInv.marked_step (hInv : WakeInv s) (hNodes : NodeInv hash s) (hConds : CondInv hash s)
    (hInfo : s.unpark_info t = none) (h : (w, .mutex m) ∈ s'.queue b) :
    (s'.mutex m).parked_bit = true ∨ ∃ t c data, s'.pc t = .requeue_callback c m true data true := by
  rcases hStep.mutex_node h with hOld | hPc | ⟨c, one, wakeup, hPc, hPc', -⟩
  · rcases hInv.marked b w m hOld with hBit | ⟨t', c, data, hPc⟩
    · refine .inl ?_
      rcases hStep.mutexEffect hInfo with ⟨hMutex, -⟩ | ⟨m', -, -, hMutex, -⟩ |
          ⟨m', word, -, -, hCase, hMutex, -⟩ | ⟨m', hMutex, -⟩
      · rw [hMutex, hBit]
      · rw [hMutex, update_apply]
        split_ifs with hm
        · rw [← hm, hBit]
        · exact hBit
      · rw [hMutex, update_apply]
        split_ifs with hm
        · rw [← hm] at hCase
          rcases hCase with ⟨hWord, -⟩ | ⟨sleep, data, hPc⟩
          · rw [hWord] at hBit
            cases hBit
          · refine (hConds.more t _ _ _ hPc).mpr ⟨w, ?_⟩
            rw [UnparkControl.addr_mutex, hNodes.place b w _ hOld]
            exact hOld
        · exact hBit
      · rw [hMutex, update_apply]
        split_ifs
        · rfl
        · exact hBit
    · rcases eq_or_ne t' t with rfl | hNe
      · refine .inl ?_
        cases hStep with
        | callback_mark c' m' one wakeup some_requeued hPc' =>
          rw [hPc] at hPc'
          cases hPc'
          simp [State.goto, State.setInfo, State.setMutex]
        | _ => simp_all
      · exact .inr ⟨t', c, data, by rw [hStep.pc_of_ne hNe, hPc]⟩
  · exact .inl (by rw [hInv.full_stays hStep hInfo (by rw [hPc]; rfl)])
  · cases one with
    | false => exact .inl (by rw [hInv.full_stays hStep hInfo (by rw [hPc]; rfl)])
    | true => exact .inr ⟨t, c, wakeup, hPc'⟩

theorem WakeInv.roused_step (hInv : WakeInv s) (hNodes : NodeInv hash s) (hBuckets : BucketInv hash s)
    (hConds : CondInv hash s) (hInfo : s.unpark_info t = none) (h : (w, .mutex m) ∈ s'.queue b)
    (hFree : (s'.mutex m).lock_bit = false) : Roused s' m := by
  rcases hStep.mutex_node h with hOld | hPc | ⟨c, one, wakeup, hPc, hPc', hSome⟩
  · suffices hCase : Roused s m ∨ ∃ sleep data more, s.pc t = .unpark (.mutex m sleep) data more by
      rcases hCase with hRoused | ⟨sleep, data, more, hPc⟩
      · exact hRoused.step hNodes hInfo hStep hFree
      · -- the list is not empty, so somebody was taken off it
        have hMore := (hConds.more t _ data more hPc).mpr ⟨w, by
          rw [UnparkControl.addr_mutex, hNodes.place b w _ hOld]
          exact hOld⟩
        have hSure := hInv.sure t
        rw [hPc] at hSure
        cases data with
        | none =>
          rw [show more = false from hSure] at hMore
          cases hMore
        | some v =>
          obtain ⟨k, hk, hLock⟩ := hInv.aims t v m (by rw [hPc]; rfl)
          have hTarget : (s'.pc t).target = some v := by
            cases hStep with
            | unpark_mutex m' sleep' data' more' hPc' =>
              rw [hPc] at hPc'
              cases hPc'
              simp [State.goto, Pc.target]
            | _ => simp_all
          have hWas : (s.pc t).target = some v := by rw [hPc]; rfl
          exact ⟨t, .inr (.inr ⟨v, k, hTarget, (hNodes.sleeps_target hStep hWas).trans hk, hLock⟩)⟩
    have hOldFree (hSame : (s.mutex m).lock_bit = false) : Roused s m := hInv.roused b w m hOld hSame
    rcases hStep.mutexEffect hInfo with ⟨hMutex, -⟩ | ⟨m', -, -, hMutex, -⟩ |
        ⟨m', word, -, -, hCase, hMutex, -⟩ | ⟨m', hMutex, -⟩
    · exact .inl (hOldFree (by rw [← hMutex, hFree]))
    · rw [hMutex, update_apply] at hFree
      split_ifs at hFree with hm
      exact .inl (hOldFree hFree)
    · rcases eq_or_ne m m' with rfl | hm
      · rcases hCase with ⟨hWord, -⟩ | ⟨sleep, data, hPc⟩
        · refine .inl ?_
          rcases hInv.marked b w m hOld with hBit | ⟨t', c, data, hPc⟩
          · rw [hWord] at hBit
            cases hBit
          · have hSure := hInv.sure t'
            rw [hPc] at hSure
            cases data with
            | none => cases hSure
            | some v =>
              obtain ⟨k, hk, hLock⟩ := hInv.aims t' v m (by rw [hPc]; rfl)
              exact ⟨t', .inr (.inr ⟨v, k, by rw [hPc]; rfl, hk, hLock⟩)⟩
        · exact .inr ⟨sleep, data, _, hPc⟩
      · rw [hMutex, update_of_ne hm] at hFree
        exact .inl (hOldFree hFree)
    · rw [hMutex, update_apply] at hFree
      split_ifs at hFree with hm
      · exact .inl (hOldFree (hm ▸ hFree))
      · exact .inl (hOldFree hFree)
  · rw [hInv.full_stays hStep hInfo (by rw [hPc]; rfl)] at hFree
    cases hFree
  · cases one with
    | false =>
      rw [hInv.full_stays hStep hInfo (by rw [hPc]; rfl)] at hFree
      cases hFree
    | true =>
      obtain ⟨v, rfl, -⟩ := hSome rfl
      have hAims : (s'.pc t).aims = some (v, m) := by rw [hPc']; rfl
      obtain ⟨k, hk, hLock⟩ := hInv.aims_step hStep hNodes hBuckets hConds hAims
      exact ⟨t, .inr (.inr ⟨v, k, by rw [hPc']; rfl, hk, hLock⟩)⟩

theorem WakeInv.step (hInv : WakeInv s) (hNodes : NodeInv hash s) (hBuckets : BucketInv hash s)
    (hConds : CondInv hash s) (hInfo : s.unpark_info t = none) : WakeInv s' :=
  ⟨fun _ _ h => hInv.full_step hStep hBuckets hInfo h, hInv.sure_step hStep,
    fun _ _ _ h => hInv.aims_step hStep hNodes hBuckets hConds h,
    fun _ _ _ h => hInv.marked_step hStep hNodes hConds hInfo h,
    fun _ _ _ h hFree => hInv.roused_step hStep hNodes hBuckets hConds hInfo h hFree⟩

end Step

section Runs

structure Inv (hash : Addr → Bucket) (s : State) : Prop where
  buckets : BucketInv hash s
  info : ∀ t, s.unpark_info t = none
  mutexes : MutexInv s
  nodes : NodeInv hash s
  conds : CondInv hash s
  wakes : WakeInv s

theorem Step.info (hStep : Step hash t s s') (hInfo : ∀ t, s.unpark_info t = none) (t' : Thread) :
    s'.unpark_info t' = none := by
  cases hStep with
  | park_unlock_invalid k | parked k =>
    cases k <;> simp only [State.resume] <;> split <;> exact hInfo t'
  | enqueue k | unpark_mutex m sleep data more | unpark_signal c m data more
  | callback_mark c m one wakeup some_requeued | callback_skip c m one wakeup some_requeued =>
    simp only [State.goto, State.setInfo]
    split
    · rfl
    · exact hInfo t'
  | _ => exact hInfo t'

theorem Inv.step (hInv : Inv hash s) (hStep : Step hash t s s') : Inv hash s' where
  buckets := hInv.buckets.step hStep
  info := hStep.info hInv.info
  mutexes := hInv.mutexes.step hStep (hInv.info t)
  nodes := hInv.nodes.step hStep fun _ _ _ hPc _ _ h => hInv.conds.waits_requeue hInv.buckets hPc h
  conds := hInv.conds.step hInv.nodes hStep hInv.buckets
  wakes := hInv.wakes.step hStep hInv.nodes hInv.buckets hInv.conds (hInv.info t)

theorem Inv.cond_eq_some (hInv : Inv hash s) (hFree : s.bucket (hash (.cond c)) = none) :
    s.cond c = some m ↔
      ∃ w, (w, .cond c) ∈ s.queue (hash (.cond c)) ∧ (s.pc w).sleeps = some (.wait c m) := by
  have hNobody (t) : ¬ (s.pc t).inside hash (hash (.cond c)) := by
    intro h
    rw [(hInv.buckets t _).mp h] at hFree
    cases hFree
  constructor
  · intro hCond
    rcases hInv.conds.filled c m hCond with ⟨b, w, hMem⟩ | ⟨t, hPc | ⟨m', data, hPc⟩⟩
    · obtain ⟨m', hSleeps, hNamed | ⟨t, ht⟩⟩ := hInv.conds.waits b w c hMem
      · cases hCond.symm.trans hNamed
        exact ⟨w, by rwa [hInv.nodes.place b w _ hMem], hSleeps⟩
      · exact absurd (inside_of_blank (blank_of_cleared ht)) (hNobody t)
    · exact absurd (by rw [hPc]; rfl) (hNobody t)
    · exact absurd (by rw [hPc]; rfl) (hNobody t)
  · rintro ⟨w, hMem, hSleeps⟩
    obtain ⟨m', hWait, hNamed | ⟨t, ht⟩⟩ := hInv.conds.waits _ w c hMem
    · cases hWait.symm.trans hSleeps
      exact hNamed
    · exact absurd (inside_of_blank (blank_of_cleared ht)) (hNobody t)

theorem Inv.init : Inv hash .init := by
  refine ⟨fun t b => ?_, fun t => rfl, ?_, ?_, ?_, ?_⟩
  · simp [State.init, Pc.inside]
  · constructor <;> simp [State.init, Pc.claim, Pc.slow]
  · constructor <;> simp [State.init, Pc.target, Pc.sleeps]
  · constructor <;> simp [State.init, Pc.blank, Pc.named]
  · constructor <;> simp [State.init, Pc.full, Pc.Sure, Pc.aims]

theorem Reachable.inv (h : Reachable hash s) : Inv hash s := by
  induction h with
  | init => exact .init
  | step t _ hStep ih => exact ih.step hStep

theorem Reachable.lock_second_ne (h : Reachable hash s) (hPc : s.pc t = .lock_second c m) :
    hash (.cond c) ≠ hash (.mutex m) := by
  induction h with
  | init => cases hPc
  | @step s s' t' _ hStep ih =>
    rcases eq_or_ne t t' with rfl | hNe
    · have hNot : ¬ (s'.pc t).Plain := by
        rw [hPc]
        exact not_false
      cases hStep with
      | lock_first c' m' _ hNe =>
        simp only [State.goto, update_self] at hPc
        cases hPc
        exact hNe
      | park_unlock_invalid | parked | unlock_give | full_give | unpark_unlock | wake | unlock_only
      | unlock_second => exact absurd (by simp [State.goto]) hNot
      | _ => simp [State.goto] at hPc
    · exact ih (hStep.pc_of_ne hNe ▸ hPc)

/-- The bucket that a thread waits for. -/
def Pc.blocks (hash : Addr → Bucket) : Pc → Option Bucket
  | .park k => some (hash k.addr)
  | .unpark_one u => some (hash u.addr)
  | .lock_first c m => some (firstBucket hash c m)
  | .lock_second c m => some (lastBucket hash c m)
  | _ => none

/-- A thread in a call can take a step, unless it waits for a bucket or to be woken up. -/
theorem exists_step (hash : Addr → Bucket) (hPc : s.pc t ≠ .user) : (∃ s', Step hash t s s') ∨
    (∃ k, s.pc t = .parked k ∧ s.should_park t = true) ∨
    ∃ b t', (s.pc t).blocks hash = some b ∧ s.bucket b = some t' := by
  have hBlocks {b} (h : (s.pc t).blocks hash = some b) (hFree : s.bucket b = none → ∃ s', Step hash t s s') :
      (∃ s', Step hash t s s') ∨ (∃ k, s.pc t = .parked k ∧ s.should_park t = true) ∨
        ∃ b t', (s.pc t).blocks hash = some b ∧ s.bucket b = some t' := by
    cases hBucket : s.bucket b with
    | none => exact .inl (hFree hBucket)
    | some t' => exact .inr (.inr ⟨b, t', h, hBucket⟩)
  cases h : s.pc t with
  | user => exact absurd h hPc
  | lock m => exact .inl ⟨_, .lock_fail m h⟩
  | lock_load m n => exact .inl ⟨_, .lock_load m n h⟩
  | lock_loop m e n =>
    refine .inl ?_
    rcases e with ⟨_ | _, _ | _⟩
    · exact ⟨_, .loop_fail m _ n h rfl⟩
    · exact ⟨_, .loop_fail m _ n h rfl⟩
    · cases hSpin : (should_spin n).1 with
      | true => exact ⟨_, .loop_spin m _ n h rfl rfl hSpin⟩
      | false => exact ⟨_, .loop_mark_fail m _ n h rfl rfl hSpin⟩
    · exact ⟨_, .loop_park m _ n h rfl rfl⟩
  | park k => exact h ▸ hBlocks (by rw [h]; rfl) fun hFree => ⟨_, .park k h hFree⟩
  | validate k =>
    refine .inl ?_
    rcases k with m | ⟨c, m⟩
    · by_cases hWord : s.mutex m = ⟨true, true⟩
      · exact ⟨_, .validate_mutex m h hWord⟩
      · exact ⟨_, .validate_mutex_fail m h hWord⟩
    · cases hCond : s.cond c with
      | none => exact ⟨_, .validate_wait_first c m h hCond⟩
      | some m' =>
        by_cases hm : m' = m
        · exact ⟨_, .validate_wait c m h (hm ▸ hCond)⟩
        · exact ⟨_, .validate_wait_fail c m m' h hCond hm⟩
  | validate_store c m => exact .inl ⟨_, .validate_store c m h⟩
  | enqueue k => exact .inl ⟨_, .enqueue k h⟩
  | park_unlock k valid =>
    refine .inl ?_
    cases valid with
    | false => exact ⟨_, .park_unlock_invalid k h⟩
    | true =>
      rcases k with m | ⟨c, m⟩
      · exact ⟨_, .park_unlock_mutex m h⟩
      · exact ⟨_, .park_unlock_wait c m h⟩
  | parked k =>
    cases hPark : s.should_park t with
    | false => exact .inl ⟨_, .parked k h hPark⟩
    | true => exact .inr (.inl ⟨k, rfl, rfl⟩)
  | unlock m sleep => exact .inl ⟨_, .unlock_fail m sleep h⟩
  | unlock_full m sleep =>
    by_cases hWord : s.mutex m = ⟨true, false⟩
    · exact .inl ⟨_, .full_give m sleep h hWord⟩
    · exact .inl ⟨_, .full_unpark m sleep h hWord⟩
  | unpark_one u => exact h ▸ hBlocks (by rw [h]; rfl) fun hFree => ⟨_, .unpark_one u h hFree⟩
  | find u => exact .inl ⟨_, .find u _ _ _ h rfl⟩
  | unpark u data more =>
    rcases u with ⟨m, sleep⟩ | ⟨c, m⟩
    · exact .inl ⟨_, .unpark_mutex m sleep data more h⟩
    · exact .inl ⟨_, .unpark_signal c m data more h⟩
  | unpark_unlock u data => exact .inl ⟨_, .unpark_unlock u data h⟩
  | wake data after => exact .inl ⟨_, .wake data after h⟩
  | signal c =>
    cases hCond : s.cond c with
    | none => exact .inl ⟨_, .signal_none c h hCond⟩
    | some m => exact .inl ⟨_, .signal c m h hCond⟩
  | broadcast c =>
    cases hCond : s.cond c with
    | none => exact .inl ⟨_, .broadcast_none c h hCond⟩
    | some m => exact .inl ⟨_, .broadcast c m h hCond⟩
  | lock_first c m =>
    refine h ▸ hBlocks (by rw [h]; rfl) fun hFree => ?_
    by_cases hSame : hash (.cond c) = hash (.mutex m)
    · exact ⟨_, .lock_only c m h hSame hFree⟩
    · exact ⟨_, .lock_first c m h hSame hFree⟩
  | lock_second c m => exact h ▸ hBlocks (by rw [h]; rfl) fun hFree => ⟨_, .lock_second c m h hFree⟩
  | requeue_validate c m =>
    by_cases hCond : s.cond c = some m
    · exact .inl ⟨_, .requeue_validate c m h hCond⟩
    · exact .inl ⟨_, .requeue_validate_fail c m h hCond⟩
  | requeue_clear c m => exact .inl ⟨_, .requeue_clear c m h⟩
  | parked_load c m => exact .inl ⟨_, .parked_load c m h⟩
  | parked_loop c m val =>
    cases hLock : val.lock_bit with
    | false => exact .inl ⟨_, .parked_loop_free c m val h hLock⟩
    | true => exact .inl ⟨_, .parked_loop_fail c m val h hLock⟩
  | requeue c m one => exact .inl ⟨_, .requeue c m one _ _ _ h rfl⟩
  | requeue_callback c m one wakeup some_requeued =>
    cases hBoth : one && some_requeued with
    | false => exact .inl ⟨_, .callback_skip c m one wakeup some_requeued h hBoth⟩
    | true => exact .inl ⟨_, .callback_mark c m one wakeup some_requeued h hBoth⟩
  | unlock_first c m wakeup =>
    by_cases hSame : hash (.cond c) = hash (.mutex m)
    · exact .inl ⟨_, .unlock_only c m wakeup h hSame⟩
    · exact .inl ⟨_, .unlock_first c m wakeup h hSame⟩
  | unlock_second c m wakeup => exact .inl ⟨_, .unlock_second c m wakeup h⟩

/-- No thread in a call can go on. -/
def Stuck (hash : Addr → Bucket) (s : State) : Prop :=
  ∀ t s', s.pc t ≠ .user → ¬ Step hash t s s'

/-- The locks of the buckets are taken in the order of the buckets, so threads do not get stuck at them. -/
theorem Stuck.bucket_free (hStuck : Stuck hash s) (hReach : Reachable hash s) {n : ℕ}
    (hHash : ∀ a, hash a < n) (b : Bucket) : s.bucket b = none := by
  by_contra hSome
  obtain ⟨t, ht⟩ := Option.ne_none_iff_exists'.mp hSome
  induction hd : n - b using Nat.strong_induction_on generalizing b t with
  | _ d ih =>
    have hInside := (hReach.inv.buckets t b).mpr ht
    have hCall : s.pc t ≠ .user := by
      intro h
      rw [h] at hInside
      exact hInside
    rcases exists_step hash hCall with ⟨s', hStep⟩ | ⟨k, hPc, -⟩ | ⟨b', t', hBlocks, ht'⟩
    · exact hStuck t s' hCall hStep
    · rw [hPc] at hInside
      exact hInside
    · cases hPc : s.pc t <;> rw [hPc] at hBlocks hInside <;> cases hBlocks <;> try exact hInside
      rename_i c m
      have hNe := hReach.lock_second_ne hPc
      have hb : b = firstBucket hash c m := hInside
      have hLt : b < lastBucket hash c m := by
        rw [hb]
        unfold firstBucket lastBucket
        exact min_lt_max.mpr hNe
      have hBound : lastBucket hash c m < n := max_lt (hHash _) (hHash _)
      exact ih (n - lastBucket hash c m) (hd ▸ Nat.sub_lt_sub_left (hLt.trans hBound) hLt) _ (by rw [ht']; simp) t' ht' rfl

theorem Stuck.parked (hStuck : Stuck hash s) (hReach : Reachable hash s) {n : ℕ} (hHash : ∀ a, hash a < n)
    (hCall : s.pc t ≠ .user) : ∃ k, s.pc t = .parked k ∧ s.should_park t = true := by
  rcases exists_step hash hCall with ⟨s', hStep⟩ | hParked | ⟨b, t', -, ht'⟩
  · exact absurd hStep (hStuck t s' hCall)
  · exact hParked
  · rw [hStuck.bucket_free hReach hHash b] at ht'
    cases ht'

end Runs

section Results

/-- No two threads have locked one mutex, and the lock bit is set while one has. -/
theorem mutual_exclusion (hReach : Reachable hash s) (hHeld : s.held t m = true) :
    (s.mutex m).lock_bit = true ∧ ∀ t', s.held t' m = true → t' = t :=
  ⟨(hReach.inv.mutexes.locked m).mpr ⟨t, hHeld⟩,
    fun t' h => hReach.inv.mutexes.excludes t' t m h hHeld⟩

/-- Thread 0 has locked mutex 0. -/
def locked : State :=
  (((State.init.goto 0 (.lock 0)).setMutex 0 ⟨true, false⟩).setHeld 0 0 true).goto 0 .user

theorem reachable_locked (hash : Addr → Bucket) : Reachable hash locked :=
  .step 0 (.step 0 .init (.call_lock 0 rfl rfl)) (.lock_take 0 rfl rfl)

theorem mutual_exclusion_locked : (locked.mutex 0).lock_bit = true ∧
    ∀ t, locked.held t 0 = true → t = 0 :=
  mutual_exclusion (reachable_locked fun _ => 0) (t := 0) rfl

/-- While nobody is inside its bucket, a condition names the mutex with which threads wait there, and
none when nobody does. So a signal or a broadcast does not miss anyone. -/
theorem cond_names_mutex (hReach : Reachable hash s) (hFree : s.bucket (hash (.cond c)) = none) :
    s.cond c = some m ↔
      ∃ w, (w, .cond c) ∈ s.queue (hash (.cond c)) ∧ (s.pc w).sleeps = some (.wait c m) :=
  hReach.inv.cond_eq_some hFree

/-- It is inside the bucket of condition 0, and then it sleeps there. -/
def parking : State := (((locked.goto 0 (.park (.wait 0 0))).setBucket 0 (some 0)).goto 0
  (.validate (.wait 0 0))).goto 0 (.validate_store 0 0)

def waiting : State :=
  let s := (parking.setCond 0 (some 0)).goto 0 (.enqueue (.wait 0 0))
  let s := (((s.setQueue 0 (s.queue 0 ++ [(0, .cond 0)])).setParked 0 true).setInfo (some 0) none).goto 0
    (.park_unlock (.wait 0 0) true)
  let s := (s.setBucket 0 none).goto 0 (.unlock 0 (some 0))
  ((s.setMutex 0 ⟨false, false⟩).setHeld 0 0 false).goto 0 (.parked (.wait 0 0))

theorem reachable_waiting : Reachable (fun _ => 0) waiting := by
  have hParking : Reachable (fun _ => 0) parking :=
    .step 0 (.step 0 (.step 0 (reachable_locked _) (.call_wait 0 0 rfl rfl)) (.park (.wait 0 0) rfl rfl))
      (.validate_wait_first 0 0 rfl rfl)
  exact .step 0 (.step 0 (.step 0 (.step 0 hParking (.validate_store 0 0 rfl)) (.enqueue (.wait 0 0) rfl))
    (.park_unlock_wait 0 0 rfl)) (.unlock_give 0 (some 0) rfl rfl)

theorem cond_names_mutex_waiting : waiting.cond 0 = some 0 ↔
    ∃ w, (w, .cond 0) ∈ waiting.queue 0 ∧ (waiting.pc w).sleeps = some (.wait 0 0) :=
  cond_names_mutex reachable_waiting rfl

theorem stuck_waiting : Stuck (fun _ => 0) waiting := by
  intro t s' hCall hStep
  have hPc {t'} (h : t' ≠ 0) : waiting.pc t' = .user := by
    simp [waiting, parking, locked, State.goto, State.setBucket, State.setCond, State.setQueue, State.setParked,
      State.setInfo, State.setMutex, State.setHeld, State.init, update_of_ne h]
  obtain rfl : t = 0 := by
    by_contra h
    exact hCall (hPc h)
  have hSelf : waiting.pc 0 = .parked (.wait 0 0) := rfl
  cases hStep with
  | parked k _ hUp => cases hUp
  | _ => simp_all

end Results

end Vyasa.Synchronization
