import Vyasa.Synchronization.ParkingLot

/-! Threads exclude each other from a bucket while they hold its lock, and from the mutexes they have
locked. -/
namespace Vyasa.Synchronization

open Function

variable {hash : Addr → Bucket} {t t' : Thread} {s s' : State} {m : Mutex} {c : Cond} {b : Bucket}

theorem Step.pc_of_ne (hStep : Step hash t s s') (hNe : t' ≠ t) : s'.pc t' = s.pc t' := by
  cases hStep with
  | park_unlock_invalid k | parked k =>
    cases k <;> simp only [State.resume] <;> split <;> exact update_of_ne hNe ..
  | _ => exact update_of_ne hNe ..

/-- A place with no bucket locked and nothing under way: with the caller, at the start of a lock, asleep, or
about to wake up a thread. -/
def Pc.Plain : Pc → Prop
  | .user | .lock _ | .lock_load _ _ | .parked _ | .wake _ _ => True
  | _ => False

@[simp] theorem plain_afterUnlock (after : Option (Cond × Mutex)) : (Pc.afterUnlock after).Plain := by
  cases after <;> exact trivial

@[simp] theorem plain_wakeAny (after : Option (Cond × Mutex)) (data : Option Thread) :
    (Pc.wakeAny after data).Plain := by
  cases data with
  | none => exact plain_afterUnlock after
  | some w => exact trivial

@[simp] theorem plain_resume (s : State) (t : Thread) (k : ParkControl) (result : Option Mutex) :
    ((s.resume t k result).pc t).Plain := by
  cases k <;> simp only [State.resume] <;> split <;> simp [State.goto, Pc.Plain]

section Buckets

/-- The buckets whose locks a thread holds. -/
def Pc.inside (hash : Addr → Bucket) : Pc → Bucket → Prop
  | .validate k, b | .enqueue k, b | .park_unlock k _, b => b = hash k.addr
  | .validate_store c _, b => b = hash (.cond c)
  | .find u, b | .unpark u _ _, b | .unpark_unlock u _, b => b = hash u.addr
  | .lock_second c m, b | .unlock_second c m _, b => b = firstBucket hash c m
  | .requeue_validate c m, b | .requeue_clear c m, b | .parked_load c m, b | .parked_loop c m _, b
  | .requeue c m _, b | .requeue_callback c m _ _ _, b | .unlock_first c m _, b =>
      b = firstBucket hash c m ∨ b = lastBucket hash c m
  | _, _ => False

theorem either_iff : b = firstBucket hash c m ∨ b = lastBucket hash c m ↔
    b = hash (.cond c) ∨ b = hash (.mutex m) := by
  unfold firstBucket lastBucket
  rcases le_total (hash (.cond c)) (hash (.mutex m)) with h | h <;> simp [h, or_comm]

/-- What a step does to the locks of the buckets. -/
inductive BucketEffect (hash : Addr → Bucket) (t : Thread) (s s' : State) : Prop
  | same : s'.bucket = s.bucket →
      (∀ b, (s'.pc t).inside hash b ↔ (s.pc t).inside hash b) → BucketEffect hash t s s'
  | lock (b : Bucket) : s.bucket b = none → s'.bucket = update s.bucket b (some t) →
      (∀ b', (s'.pc t).inside hash b' ↔ (s.pc t).inside hash b' ∨ b' = b) → BucketEffect hash t s s'
  | unlock (b : Bucket) : (s.pc t).inside hash b → s'.bucket = update s.bucket b none →
      (∀ b', (s'.pc t).inside hash b' ↔ (s.pc t).inside hash b' ∧ b' ≠ b) → BucketEffect hash t s s'

theorem not_inside_of_plain {pc : Pc} (h : pc.Plain) (b : Bucket) : ¬ pc.inside hash b := by
  unfold Pc.Plain at h
  split at h
  all_goals first | exact not_false | cases h

theorem Step.bucketEffect (hStep : Step hash t s s') : BucketEffect hash t s s' := by
  cases hStep with
  | park k hPc hFree =>
    exact .lock _ hFree rfl fun b => by simp [State.goto, State.setBucket, Pc.inside, hPc]
  | park_unlock_invalid k hPc =>
    refine .unlock (hash k.addr) (by simp [hPc, Pc.inside]) ?_ ?_ <;>
      cases k <;> simp [State.resume, State.goto, State.setBucket, Pc.inside, hPc]
  | park_unlock_mutex m hPc | park_unlock_wait c m hPc =>
    exact .unlock _ (by simp [hPc, Pc.inside]) rfl fun b => by
      simp [State.goto, State.setBucket, Pc.inside, hPc]
  | parked k hPc =>
    refine .same ?_ fun b => ?_ <;> cases k <;> simp only [State.resume] <;> split <;>
      simp [State.goto, State.setHeld, Pc.inside, hPc]
  | unlock_give m sleep hPc | full_give m sleep hPc | wake data after hPc =>
    refine .same rfl fun b => ?_
    simp only [State.goto, update_self, hPc]
    exact iff_of_false (not_inside_of_plain (plain_afterUnlock _) b) not_false
  | unpark_one u hPc hFree =>
    exact .lock _ hFree rfl fun b => by simp [State.goto, State.setBucket, Pc.inside, hPc]
  | unpark_unlock u data hPc =>
    refine .unlock (hash u.addr) (by simp [hPc, Pc.inside]) rfl fun b => ?_
    simp only [State.goto, update_self, hPc, Pc.inside, and_not_self_iff]
    exact iff_of_false (not_inside_of_plain (plain_wakeAny ..) b) not_false
  | lock_only c m hPc hSame hFree =>
    refine .lock _ hFree rfl fun b => ?_
    simp [State.goto, State.setBucket, Pc.inside, hPc, firstBucket, lastBucket, hSame]
  | lock_first c m hPc hNe hFree =>
    exact .lock _ hFree rfl fun b => by simp [State.goto, State.setBucket, Pc.inside, hPc]
  | lock_second c m hPc hFree =>
    exact .lock _ hFree rfl fun b => by simp [State.goto, State.setBucket, Pc.inside, hPc]
  | unlock_only c m wakeup hPc hSame =>
    refine .unlock (lastBucket hash c m) (by simp [hPc, Pc.inside]) rfl fun b => ?_
    have hFirst : firstBucket hash c m = lastBucket hash c m := by simp [firstBucket, lastBucket, hSame]
    simp only [State.goto, update_self, hPc, Pc.inside, hFirst, or_self, and_not_self_iff]
    exact iff_of_false (not_inside_of_plain (plain_wakeAny ..) b) not_false
  | unlock_first c m wakeup hPc hNe =>
    refine .unlock (lastBucket hash c m) (by simp [hPc, Pc.inside]) rfl fun b => ?_
    have hFirst : firstBucket hash c m ≠ lastBucket hash c m := by simpa [firstBucket, lastBucket] using hNe
    simp only [State.goto, update_self, hPc, Pc.inside]
    constructor
    · rintro rfl
      exact ⟨Or.inl rfl, hFirst⟩
    · rintro ⟨h | h, hb⟩
      · exact h
      · exact absurd h hb
  | unlock_second c m wakeup hPc =>
    refine .unlock (firstBucket hash c m) (by simp [hPc, Pc.inside]) rfl fun b => ?_
    simp only [State.goto, update_self, hPc, Pc.inside, and_not_self_iff]
    exact iff_of_false (not_inside_of_plain (plain_wakeAny ..) b) not_false
  | _ => exact .same rfl fun b => by simp [State.goto, Pc.inside, *]

/-- A thread is inside the lock of a bucket just where its code says so. -/
def BucketInv (hash : Addr → Bucket) (s : State) : Prop :=
  ∀ t b, (s.pc t).inside hash b ↔ s.bucket b = some t

theorem BucketInv.step (hInv : BucketInv hash s) (hStep : Step hash t s s') : BucketInv hash s' := by
  intro t' b'
  have hOld := hInv t' b'
  rcases eq_or_ne t' t with rfl | hNe
  · rcases hStep.bucketEffect with ⟨hSame, hPc⟩ | ⟨b, hFree, hSet, hPc⟩ | ⟨b, hIn, hSet, hPc⟩
    · rw [hPc, hSame, hOld]
    · rw [hPc, hSet, hOld, update_apply]
      split_ifs with hb <;> simp [hb]
    · rw [hPc, hSet, hOld, update_apply]
      split_ifs with hb <;> simp [hb]
  · rw [hStep.pc_of_ne hNe, hOld]
    rcases hStep.bucketEffect with ⟨hSame, -⟩ | ⟨b, hFree, hSet, -⟩ | ⟨b, hIn, hSet, -⟩
    · rw [hSame]
    · rw [hSet, update_apply]
      split_ifs with hb
      · simp [hb, hFree, hNe.symm]
      · rfl
    · rw [hSet, update_apply]
      split_ifs with hb
      · simp [hb, (hInv t b).mp hIn, hNe.symm]
      · rfl

theorem BucketInv.eq (hInv : BucketInv hash s) (h : (s.pc t).inside hash b)
    (h' : (s.pc t').inside hash b) : t = t' :=
  Option.some.inj (((hInv t b).mp h).symm.trans ((hInv t' b).mp h'))

end Buckets

section Mutexes

/-- A mutex that a thread has to have locked at a place, or not to have locked. -/
def Pc.claim : Pc → Option (Mutex × Bool)
  | .lock m | .lock_load m _ | .lock_loop m _ _ | .park (.mutex m) | .validate (.mutex m)
  | .enqueue (.mutex m) | .park_unlock (.mutex m) _ | .unpark_unlock (.mutex m _) _
  | .wake _ (some (_, m)) | .parked (.mutex m) | .parked (.wait _ m) => some (m, false)
  | .park (.wait _ m) | .validate (.wait _ m) | .validate_store _ m | .enqueue (.wait _ m)
  | .park_unlock (.wait _ m) _ | .unlock m _ | .unlock_full m _ | .unpark_one (.mutex m _)
  | .find (.mutex m _) | .unpark (.mutex m _) _ _ => some (m, true)
  | _ => none

/-- The mutex that a thread unlocks the slow way. -/
def Pc.slow : Pc → Option Mutex
  | .unpark_one (.mutex m _) | .find (.mutex m _) | .unpark (.mutex m _) _ _ => some m
  | _ => none

theorem claim_afterUnlock {sleep : Option Cond} {m' : Mutex} {h : Bool}
    (hClaim : (Pc.afterUnlock (UnparkControl.mutex m sleep).after).claim = some (m', h)) :
    m' = m ∧ h = false := by
  cases sleep with
  | none => cases hClaim
  | some c =>
    cases hClaim
    exact ⟨rfl, rfl⟩

theorem slow_of_plain {pc : Pc} (h : pc.Plain) : pc.slow = none := by
  unfold Pc.Plain at h
  split at h
  all_goals first | rfl | cases h

/-- What a step does to the mutexes. -/
inductive MutexEffect (t : Thread) (s s' : State) : Prop
  | same : s'.mutex = s.mutex → s'.held = s.held →
      (∀ m h, (s'.pc t).claim = some (m, h) → (s.pc t).claim = some (m, h) ∨ s.held t m = h) →
      (∀ m, (s'.pc t).slow = some m → (s.pc t).slow = some m ∨
        (s.pc t).claim = some (m, true) ∧ s.mutex m ≠ ⟨true, false⟩) → MutexEffect t s s'
  | take (m : Mutex) : (s.mutex m).lock_bit = false → (s.pc t).claim = some (m, false) →
      s'.mutex = update s.mutex m ⟨true, (s.mutex m).parked_bit⟩ →
      s'.held = update s.held t (update (s.held t) m true) → s'.pc t = .user → MutexEffect t s s'
  | give (m : Mutex) (w : Word) : (s.pc t).claim = some (m, true) → w.lock_bit = false →
      (s.mutex m = ⟨true, false⟩ ∧ w.parked_bit = false ∨
        ∃ sleep data, s.pc t = .unpark (.mutex m sleep) data w.parked_bit) →
      s'.mutex = update s.mutex m w → s'.held = update s.held t (update (s.held t) m false) →
      (∀ m' h, (s'.pc t).claim = some (m', h) → m' = m ∧ h = false) → (s'.pc t).slow = none →
      MutexEffect t s s'
  | mark (m : Mutex) : s'.mutex = update s.mutex m ⟨(s.mutex m).lock_bit, true⟩ → s'.held = s.held →
      (∀ p, (s'.pc t).claim = some p → (s.pc t).claim = some p) → (s'.pc t).slow = none →
      MutexEffect t s s'

theorem MutexEffect.of_eq (hMutex : s'.mutex = s.mutex) (hHeld : s'.held = s.held)
    (hClaim : (s'.pc t).claim = (s.pc t).claim) (hSlow : (s'.pc t).slow = (s.pc t).slow) :
    MutexEffect t s s' :=
  .same hMutex hHeld (fun _ _ h => .inl (hClaim ▸ h)) fun _ h => .inl (hSlow ▸ h)

theorem MutexEffect.resume {k : ParkControl} {result : Option Mutex} (hMutex : s'.mutex = s.mutex)
    (hHeld : s'.held = s.held) (hNot : ∀ m, k = .mutex m → result = none)
    (hClaim : ∀ c m, k = .wait c m → (s.pc t).claim = some (m, decide (result = some m)))
    (hSame : ∀ m, k = .mutex m → (s.pc t).claim = some (m, false)) :
    MutexEffect t s (s'.resume t k result) := by
  cases k with
  | mutex m =>
    simp only [State.resume, hNot m rfl]
    refine .same hMutex hHeld (fun m' h hEq => ?_) (fun m' hEq => ?_)
    · simp only [State.goto, update_self, reduceCtorEq, if_false, Pc.claim] at hEq
      exact .inl (hEq ▸ hSame m rfl)
    · simp [State.goto, Pc.slow] at hEq
  | wait c m =>
    simp only [State.resume]
    split
    · refine .same hMutex hHeld (fun m' h hEq => ?_) (fun m' hEq => ?_)
      · simp [State.goto, Pc.claim] at hEq
      · simp [State.goto, Pc.slow] at hEq
    · rename_i hNe
      refine .same hMutex hHeld (fun m' h hEq => ?_) (fun m' hEq => ?_)
      · simp only [State.goto, update_self, Pc.claim] at hEq
        exact .inl (by rw [hClaim c m rfl, ← hEq]; simp [hNe])
      · simp [State.goto, Pc.slow] at hEq

theorem Step.mutexEffect (hStep : Step hash t s s') (hInfo : s.unpark_info t = none) :
    MutexEffect t s s' := by
  cases hStep with
  | call_lock m hPc hHeld | call_unlock m hPc hHeld | call_wait c m hPc hHeld =>
    refine .same rfl rfl (fun m' h hEq => .inr ?_) (fun m' hEq => ?_)
    · simp only [State.goto, update_self, Pc.claim, Option.some.injEq, Prod.mk.injEq] at hEq
      rw [← hEq.1, ← hEq.2, hHeld]
    · simp [State.goto, Pc.slow] at hEq
  | lock_take m hPc hWord =>
    exact .take m (by rw [hWord]) (by rw [hPc]; rfl) (by rw [hWord]; rfl) rfl (update_self ..)
  | loop_take m e n hPc hLock hWord =>
    exact .take m (by rw [hWord, hLock]) (by rw [hPc]; rfl) (by rw [hWord]; rfl) rfl (update_self ..)
  | loop_mark m e n hPc hLock hParked hSpin hWord =>
    refine .mark m (by rw [hWord]; rfl) rfl (fun p hEq => ?_) ?_
    · rw [hPc]
      simpa [State.goto, Pc.claim] using hEq
    · simp [State.goto, Pc.slow]
  | park_unlock_invalid k hPc =>
    refine .resume rfl rfl (fun m hk => by rw [hk]; rfl) (fun c m hk => ?_) fun m hk => ?_
    · simp [hPc, hk, Pc.claim]
    · simp [hPc, hk, Pc.claim]
  | parked k hPc =>
    refine .resume rfl rfl (fun m hk => hInfo) (fun c m hk => ?_) fun m hk => ?_
    · simp [hPc, hk, hInfo, Pc.claim]
    · simp [hPc, hk, Pc.claim]
  | unlock_give m sleep hPc hWord | full_give m sleep hPc hWord =>
    refine .give m ⟨false, false⟩ (by rw [hPc]; rfl) rfl (.inl ⟨hWord, rfl⟩) rfl rfl (fun m' h hEq => ?_) ?_
    · simp only [State.goto, update_self] at hEq
      exact claim_afterUnlock hEq
    · simp only [State.goto, update_self]
      exact slow_of_plain (plain_afterUnlock _)
  | full_unpark m sleep hPc hWord =>
    refine .same rfl rfl (fun m' h hEq => .inl ?_) (fun m' hEq => .inr ?_)
    · rw [hPc]
      simpa [State.goto, Pc.claim] using hEq
    · obtain rfl : m = m' := by simpa [State.goto, Pc.slow] using hEq
      exact ⟨by rw [hPc]; rfl, hWord⟩
  | park k hPc | enqueue k hPc =>
    refine .of_eq rfl rfl ?_ ?_ <;> simp only [State.goto, update_self, hPc] <;> cases k <;> rfl
  | unpark_one u hPc | find u data more rest hPc =>
    refine .of_eq rfl rfl ?_ ?_ <;> simp only [State.goto, update_self, hPc] <;> cases u <;> rfl
  | unpark_mutex m sleep data more hPc =>
    refine .give m ⟨false, more⟩ (by rw [hPc]; rfl) rfl (.inr ⟨_, _, hPc⟩) rfl rfl (fun m' h hEq => ?_) ?_
    · simp only [State.goto, update_self, Pc.claim, Option.some.injEq, Prod.mk.injEq] at hEq
      exact ⟨hEq.1.symm, hEq.2.symm⟩
    · simp [State.goto, Pc.slow]
  | unpark_unlock u data hPc =>
    refine .same rfl rfl (fun m' h hEq => .inl ?_) (fun m' hEq => ?_)
    · rw [hPc]
      simp only [State.goto, update_self] at hEq
      rcases u with ⟨m, _ | c⟩ | ⟨c, m⟩ <;> cases data <;> first | exact hEq | cases hEq
    · simp only [State.goto, update_self] at hEq
      rcases u with ⟨m, _ | c⟩ | ⟨c, m⟩ <;> cases data <;> cases hEq
  | wake data after hPc =>
    refine .same rfl rfl (fun m' h hEq => .inl ?_) (fun m' hEq => ?_)
    · rw [hPc]
      simp only [State.goto, update_self] at hEq
      cases after <;> exact hEq
    · simp only [State.goto, update_self, slow_of_plain (plain_afterUnlock _), reduceCtorEq] at hEq
  | parked_loop_mark c m val hPc hLock hWord =>
    refine .mark m (by rw [hWord]; rfl) rfl (fun p hEq => ?_) ?_
    · simp [State.goto, Pc.claim] at hEq
    · simp [State.goto, Pc.slow]
  | callback_mark c m one wakeup some_requeued hPc =>
    refine .mark m rfl rfl (fun p hEq => ?_) ?_
    · simp [State.goto, Pc.claim] at hEq
    · simp [State.goto, Pc.slow]
  | unlock_only c m wakeup hPc | unlock_second c m wakeup hPc =>
    refine .same rfl rfl (fun m' h hEq => ?_) (fun m' hEq => ?_) <;>
      simp only [State.goto, update_self] at hEq <;> cases wakeup <;> cases hEq
  | _ =>
    refine .same rfl rfl (fun m' h hEq => .inl ?_) (fun m' hEq => .inl ?_) <;>
      simp_all [State.goto, Pc.claim, Pc.slow]

structure MutexInv (s : State) : Prop where
  claim : ∀ t m h, (s.pc t).claim = some (m, h) → s.held t m = h
  locked : ∀ m, (s.mutex m).lock_bit = true ↔ ∃ t, s.held t m = true
  excludes : ∀ t t' m, s.held t m = true → s.held t' m = true → t = t'
  slow : ∀ t m, (s.pc t).slow = some m → s.mutex m = ⟨true, true⟩

theorem claim_of_slow {pc : Pc} (h : pc.slow = some m) : pc.claim = some (m, true) := by
  unfold Pc.slow at h
  split at h <;> cases h <;> rfl

theorem held_of_ne {held : Thread → Mutex → Bool} {m' : Mutex} {h : Bool} (hNe : ¬ (t' = t ∧ m' = m)) :
    update held t (update (held t) m h) t' m' = held t' m' := by
  rw [update_apply]
  split_ifs with ht
  · rw [ht, update_of_ne fun hm => hNe ⟨ht, hm⟩]
  · rfl

theorem MutexInv.step (hInv : MutexInv s) (hStep : Step hash t s s') (hInfo : s.unpark_info t = none) :
    MutexInv s' := by
  have hOther {t'} (hNe : t' ≠ t) := hStep.pc_of_ne hNe
  rcases hStep.mutexEffect hInfo with ⟨hMutex, hHeld, hClaim, hSlow⟩ |
      ⟨m, hFree, hWas, hMutex, hHeld, hPc⟩ | ⟨m, w, hWas, hLock, -, hMutex, hHeld, hClaim, hSlow⟩ |
      ⟨m, hMutex, hHeld, hClaim, hSlow⟩
  · refine ⟨fun t' m h hEq => ?_, fun m => ?_, fun t₁ t₂ m h₁ h₂ => ?_, fun t' m hEq => ?_⟩
    · rw [hHeld]
      rcases eq_or_ne t' t with rfl | hNe
      · exact (hClaim m h hEq).elim (hInv.claim t' m h) id
      · exact hInv.claim t' m h (hOther hNe ▸ hEq)
    · rw [hMutex, hHeld]
      exact hInv.locked m
    · exact hInv.excludes t₁ t₂ m (hHeld ▸ h₁) (hHeld ▸ h₂)
    · rw [hMutex]
      rcases eq_or_ne t' t with rfl | hNe
      · rcases hSlow m hEq with h | ⟨h, hWord⟩
        · exact hInv.slow t' m h
        · have hLocked := (hInv.locked m).mpr ⟨t', hInv.claim t' m true h⟩
          rcases hCase : s.mutex m with ⟨lock, parked⟩
          rw [hCase] at hLocked hWord
          cases hLocked
          cases parked
          · exact absurd rfl hWord
          · rfl
      · exact hInv.slow t' m (hOther hNe ▸ hEq)
  · have hNobody (t') : s.held t' m = false := by
      by_contra h
      rw [(hInv.locked m).mpr ⟨t', by simpa using h⟩] at hFree
      cases hFree
    have hElse {t' m'} (h : ¬ (t' = t ∧ m' = m)) : s'.held t' m' = s.held t' m' := by
      rw [hHeld, held_of_ne h]
    have hTaken : s'.held t m = true := by rw [hHeld, update_self, update_self]
    refine ⟨fun t' m' h hEq => ?_, fun m' => ?_, fun t₁ t₂ m' h₁ h₂ => ?_, fun t' m' hEq => ?_⟩
    · rcases eq_or_ne t' t with rfl | hNe
      · rw [hPc] at hEq
        cases hEq
      · rw [hElse fun h => hNe h.1]
        exact hInv.claim t' m' h (hOther hNe ▸ hEq)
    · rw [hMutex, update_apply]
      split_ifs with hm
      · exact iff_of_true rfl ⟨t, hm ▸ hTaken⟩
      · simp only [hElse fun h => hm h.2, hInv.locked m']
    · rcases eq_or_ne m' m with rfl | hm
      · have hIs (t') (h : s'.held t' m' = true) : t' = t := by
          by_contra hNe
          rw [hElse fun h => hNe h.1, hNobody] at h
          cases h
        rw [hIs t₁ h₁, hIs t₂ h₂]
      · rw [hElse fun h => hm h.2] at h₁ h₂
        exact hInv.excludes t₁ t₂ m' h₁ h₂
    · rcases eq_or_ne t' t with rfl | hNe
      · rw [hPc] at hEq
        cases hEq
      · have hWord := hInv.slow t' m' (hOther hNe ▸ hEq)
        have hm : m' ≠ m := fun hm => by
          rw [← hm, hWord] at hFree
          cases hFree
        rw [hMutex, update_of_ne hm, hWord]
  · have hHolds := hInv.claim t m true hWas
    have hElse {t' m'} (h : ¬ (t' = t ∧ m' = m)) : s'.held t' m' = s.held t' m' := by
      rw [hHeld, held_of_ne h]
    have hGiven : s'.held t m = false := by rw [hHeld, update_self, update_self]
    have hNobody (t') : s'.held t' m = false := by
      rcases eq_or_ne t' t with rfl | hNe
      · exact hGiven
      · by_contra h
        rw [hElse fun h => hNe h.1] at h
        exact hNe (hInv.excludes t' t m (by simpa using h) hHolds)
    refine ⟨fun t' m' h hEq => ?_, fun m' => ?_, fun t₁ t₂ m' h₁ h₂ => ?_, fun t' m' hEq => ?_⟩
    · rcases eq_or_ne t' t with rfl | hNe
      · obtain ⟨rfl, rfl⟩ := hClaim m' h hEq
        exact hGiven
      · rw [hElse fun h => hNe h.1]
        exact hInv.claim t' m' h (hOther hNe ▸ hEq)
    · rw [hMutex, update_apply]
      split_ifs with hm
      · simp [hm, hLock, hNobody]
      · simp only [hElse fun h => hm h.2, hInv.locked m']
    · have hm : m' ≠ m := fun hm => by
        rw [hm, hNobody] at h₁
        cases h₁
      rw [hElse fun h => hm h.2] at h₁ h₂
      exact hInv.excludes t₁ t₂ m' h₁ h₂
    · rcases eq_or_ne t' t with rfl | hNe
      · rw [hSlow] at hEq
        cases hEq
      · have hEq := hOther hNe ▸ hEq
        have hm : m' ≠ m := fun hm =>
          hNe (hInv.excludes t' t m (hm ▸ hInv.claim t' m' true (claim_of_slow hEq)) hHolds)
        rw [hMutex, update_of_ne hm]
        exact hInv.slow t' m' hEq
  · refine ⟨fun t' m' h hEq => ?_, fun m' => ?_, fun t₁ t₂ m' h₁ h₂ => ?_, fun t' m' hEq => ?_⟩
    · rw [hHeld]
      rcases eq_or_ne t' t with rfl | hNe
      · exact hInv.claim t' m' h (hClaim _ hEq)
      · exact hInv.claim t' m' h (hOther hNe ▸ hEq)
    · rw [hMutex, hHeld, ← hInv.locked m', update_apply]
      split_ifs with hm
      · rw [hm]
      · rfl
    · exact hInv.excludes t₁ t₂ m' (hHeld ▸ h₁) (hHeld ▸ h₂)
    · rcases eq_or_ne t' t with rfl | hNe
      · rw [hSlow] at hEq
        cases hEq
      · have hWord := hInv.slow t' m' (hOther hNe ▸ hEq)
        rw [hMutex, update_apply]
        split_ifs with hm
        · rw [← hm, hWord]
        · exact hWord

end Mutexes

end Vyasa.Synchronization
