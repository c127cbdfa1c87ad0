import Vyasa.Synchronization.Sleepers

/-! The state of a condition variable names the mutex that the threads which sleep there wait with, as
long as there is one. -/
namespace Vyasa.Synchronization

open Function

variable {hash : Addr → Bucket} {t t' w : Thread} {s s' : State} {m m' : Mutex} {c : Cond} {b : Bucket}
  {k : ParkControl}

/-- A condition whose state is 0 at this place. -/
def Pc.blank : Pc → Option Cond
  | .validate_store c _ | .parked_load c _ | .parked_loop c _ _ | .requeue c _ _ => some c
  | _ => none

/-- A condition whose state was cleared before its threads are requeued. -/
def Pc.cleared : Pc → Option (Cond × Mutex)
  | .parked_load c m | .parked_loop c m _ | .requeue c m _ => some (c, m)
  | _ => none

/-- A condition whose state is known to be the mutex. -/
def Pc.named : Pc → Option (Cond × Mutex)
  | .enqueue (.wait c m) | .requeue_clear c m => some (c, m)
  | _ => none

section Places

variable {pc : Pc}

theorem inside_of_blank (h : pc.blank = some c) : pc.inside hash (hash (.cond c)) := by
  unfold Pc.blank at h
  split at h <;> cases h
  · exact rfl
  all_goals exact either_iff.mpr (.inl rfl)

theorem blank_of_cleared (h : pc.cleared = some (c, m)) : pc.blank = some c := by
  unfold Pc.cleared at h
  split at h <;> cases h <;> rfl

theorem inside_of_named (h : pc.named = some (c, m)) : pc.inside hash (hash (.cond c)) := by
  unfold Pc.named at h
  split at h <;> cases h
  · exact rfl
  · exact either_iff.mpr (.inl rfl)

end Places

/-- Nobody touches the list of a bucket from outside. -/
theorem Step.queue_of_outside (hStep : Step hash t s s') (h : ¬ (s.pc t).inside hash b) :
    s'.queue b = s.queue b := by
  rcases hStep.nodeEffect with ⟨hQueue, -⟩ | ⟨k, hPc, -, hQueue, -⟩ | ⟨u, data, more, rest, hPc, -, -, hQueue, -⟩ |
      ⟨c, m, one, wakeup, requeued, rest, hPc, -, -, hQueue, -⟩ | ⟨w, -, -, -, hQueue, -⟩ |
      ⟨k, -, -, -, -, -, hQueue, -⟩
  · rw [hQueue]
  · rw [hPc] at h
    rw [hQueue, update_of_ne h]
  · rw [hPc] at h
    rw [hQueue, update_of_ne h]
  · simp only [hPc, Pc.inside, either_iff, not_or] at h
    rw [hQueue]
    simp only [State.moved, State.setQueue, update_of_ne h.1, update_of_ne h.2]
  · rw [hQueue]
  · rw [hQueue]

/-- A node comes to a list with a thread that goes to sleep, or with a requeue. -/
theorem Step.node (hStep : Step hash t s s') {a : Addr} (h : (w, a) ∈ s'.queue b) : (w, a) ∈ s.queue b ∨
    (∃ k, s.pc t = .enqueue k ∧ w = t ∧ a = k.addr) ∨ ∃ c m one wakeup requeued rest,
      s.pc t = .requeue c m one ∧ s'.pc t = .requeue_callback c m one wakeup (!requeued.isEmpty) ∧
      collect (.cond c) (.mutex m) one none (s.queue (hash (.cond c))) = (wakeup, requeued, rest) ∧
      (w, a) ∈ requeued := by
  rcases hStep.nodeEffect with ⟨hQueue, -⟩ | ⟨k, hPc, -, hQueue, -⟩ |
      ⟨u, data, more, rest, hPc, -, hDequeue, hQueue, -⟩ |
      ⟨c, m, one, wakeup, requeued, rest, hPc, hPc', hCollect, hQueue, -⟩ | ⟨v, -, -, -, hQueue, -⟩ |
      ⟨k, -, -, -, -, -, hQueue, -⟩
  · exact .inl (hQueue ▸ h)
  · rw [hQueue, update_apply] at h
    split_ifs at h with hb
    · rw [hb]
      rcases List.mem_append.mp h with h | h
      · exact .inl h
      · simp only [List.mem_singleton, Prod.mk.injEq] at h
        exact .inr (.inl ⟨k, hPc, h⟩)
    · exact .inl h
  · rw [hQueue, update_apply] at h
    split_ifs at h with hb
    · rw [hb]
      cases data with
      | none => exact .inl ((dequeue_none hDequeue).2.1 ▸ h)
      | some v =>
        obtain ⟨before, behind, hAll, rfl, -⟩ := dequeue_some hDequeue
        rw [hAll]
        exact .inl (((List.Sublist.refl before).append (List.sublist_cons_self ..)).subset h)
    · exact .inl h
  · obtain ⟨rfl, -⟩ := collect_spec hCollect
    rw [hQueue, mem_moved] at h
    rcases h with h | ⟨-, h⟩
    · split_ifs at h with hb
      · exact .inl (hb ▸ (List.mem_filter.mp h).1)
      · exact .inl h
    · exact .inr (.inr ⟨c, m, one, wakeup, requeued, _, hPc, hPc', hCollect, h⟩)
  · exact .inl (hQueue ▸ h)
  · exact .inl (hQueue ▸ h)

/-- A thread sleeps on until it finds that it was woken up. -/
theorem Step.sleeps_on (hStep : Step hash t s s') (hSleeps : (s.pc w).sleeps = some k) :
    (s'.pc w).sleeps = some k ∨ w = t ∧ s.pc w = .parked k ∧ s.should_park w = false := by
  rcases eq_or_ne w t with rfl | hNe
  · rcases hStep.nodeEffect with ⟨-, -, hSame, -⟩ | ⟨k', hPc, -⟩ | ⟨u, data, more, rest, hPc, hPc', -⟩ |
        ⟨c, m, one, wakeup, requeued, rest, hPc, -⟩ | ⟨v, -, -, hSame, -⟩ | ⟨k', hPc, hUp, -⟩
    · exact .inl (hSame.trans hSleeps)
    · rw [hPc] at hSleeps
      cases hSleeps
    · refine .inl ?_
      rw [← hSleeps, hPc, hPc']
      rcases u with ⟨m, _ | c⟩ | ⟨c, m⟩ <;> rfl
    · rw [hPc] at hSleeps
      cases hSleeps
    · exact .inl (hSame.trans hSleeps)
    · rw [hPc] at hSleeps
      cases hSleeps
      exact .inr ⟨rfl, hPc, hUp⟩
  · exact .inl (by rw [hStep.pc_of_ne hNe, hSleeps])

theorem Step.sleeps_of_parked (hStep : Step hash t s s') (hPark : s.should_park w = true)
    (hSleeps : (s.pc w).sleeps = some k) : (s'.pc w).sleeps = (s.pc w).sleeps := by
  rcases hStep.sleeps_on hSleeps with h | ⟨-, -, hUp⟩
  · rw [h, hSleeps]
  · rw [hPark] at hUp
    cases hUp

/-- What a step does to the conditions. -/
inductive CondEffect (t : Thread) (s s' : State) : Prop
  | same : s'.cond = s.cond → (∀ c, (s'.pc t).blank = some c → s.cond c = none ∨ (s.pc t).blank = some c) →
      (∀ c m, (s'.pc t).named = some (c, m) → s.cond c = some m) →
      (∀ c m, (s.pc t).cleared = some (c, m) →
        (s'.pc t).cleared = some (c, m) ∨ ∃ one, s.pc t = .requeue c m one) → CondEffect t s s'
  | store (c : Cond) (m : Mutex) : s.pc t = .validate_store c m → s'.pc t = .enqueue (.wait c m) →
      s'.cond = update s.cond c (some m) → CondEffect t s s'
  | drop (c : Cond) (m : Mutex) (data : Option Thread) : s.pc t = .unpark (.signal c m) data false →
      s'.pc t = .unpark_unlock (.signal c m) data → s'.cond = update s.cond c none → CondEffect t s s'
  | clear (c : Cond) (m : Mutex) : s.pc t = .requeue_clear c m → s'.pc t = .parked_load c m →
      s'.cond = update s.cond c none → CondEffect t s s'

theorem quiet_of_plain {pc : Pc} (h : pc.Plain) : pc.blank = none ∧ pc.named = none := by
  unfold Pc.Plain at h
  split at h
  all_goals first | exact ⟨rfl, rfl⟩ | cases h

theorem CondEffect.quiet (hCond : s'.cond = s.cond) (hNone : (s'.pc t).blank = none ∧ (s'.pc t).named = none)
    (hCleared : (s.pc t).cleared = none) : CondEffect t s s' := by
  refine .same hCond (fun c h => ?_) (fun c m h => ?_) fun c m h => ?_
  · rw [hNone.1] at h
    cases h
  · rw [hNone.2] at h
    cases h
  · rw [hCleared] at h
    cases h

theorem Step.condEffect (hStep : Step hash t s s') : CondEffect t s s' := by
  cases hStep with
  | validate_wait_first c m hPc hCond =>
    refine .same rfl (fun c' h => .inl ?_) (fun c' m' h => ?_) fun c' m' h => ?_
    · simp only [State.goto, update_self] at h
      cases h
      exact hCond
    · simp [State.goto, Pc.named] at h
    · simp [hPc, Pc.cleared] at h
  | validate_wait c m hPc hCond | requeue_validate c m hPc hCond =>
    refine .same rfl (fun c' h => ?_) (fun c' m' h => ?_) fun c' m' h => ?_
    · simp [State.goto, Pc.blank] at h
    · simp only [State.goto, update_self] at h
      cases h
      exact hCond
    · simp [hPc, Pc.cleared] at h
  | validate_store c m hPc => exact .store c m hPc (update_self ..) rfl
  | park_unlock_invalid k hPc | parked k hPc =>
    refine .quiet ?_ (quiet_of_plain (plain_resume ..)) (by rw [hPc]; rfl)
    cases k <;> simp only [State.resume] <;> split <;> rfl
  | unlock_give m sleep hPc | full_give m sleep hPc | wake data after hPc =>
    refine .quiet rfl ?_ (by rw [hPc]; rfl)
    simp only [State.goto, update_self]
    exact quiet_of_plain (plain_afterUnlock _)
  | unpark_signal c m data more hPc =>
    cases more with
    | false => exact .drop c m data hPc (update_self ..) rfl
    | true =>
      refine .quiet (update_eq_self ..) ?_ (by rw [hPc]; rfl)
      simp [State.goto, Pc.blank, Pc.named]
  | unpark_unlock u data hPc | unlock_only c m wakeup hPc | unlock_second c m wakeup hPc =>
    refine .quiet rfl ?_ (by rw [hPc]; rfl)
    simp only [State.goto, update_self]
    exact quiet_of_plain (plain_wakeAny ..)
  | requeue_clear c m hPc => exact .clear c m hPc (update_self ..) rfl
  | parked_load c m hPc | parked_loop_free c m val hPc | parked_loop_mark c m val hPc
  | parked_loop_fail c m val hPc =>
    refine .same rfl (fun c' h => .inr ?_) (fun c' m' h => ?_) fun c' m' h => .inl ?_
    · rw [hPc]
      simpa [State.goto, Pc.blank] using h
    · simp [State.goto, Pc.named] at h
    · rw [hPc] at h
      simpa [State.goto, Pc.cleared] using h
  | requeue c m one wakeup requeue rest hPc =>
    refine .same rfl (fun c' h => ?_) (fun c' m' h => ?_) fun c' m' h => .inr ⟨one, ?_⟩
    · simp [State.goto, Pc.blank] at h
    · simp [State.goto, Pc.named] at h
    · rw [hPc] at h
      cases h
      exact hPc
  | _ => exact .quiet rfl (by simp [State.goto, Pc.blank, Pc.named]) (by simp [Pc.cleared, *])

structure CondInv (hash : Addr → Bucket) (s : State) : Prop where
  blank : ∀ t c, (s.pc t).blank = some c → s.cond c = none
  named : ∀ t c m, (s.pc t).named = some (c, m) → s.cond c = some m
  more : ∀ t u data more, s.pc t = .unpark u data more →
    (more = true ↔ ∃ w, (w, u.addr) ∈ s.queue (hash u.addr))
  waits : ∀ b w c, (w, .cond c) ∈ s.queue b → ∃ m, (s.pc w).sleeps = some (.wait c m) ∧
    (s.cond c = some m ∨ ∃ t, (s.pc t).cleared = some (c, m))
  filled : ∀ c m, s.cond c = some m → (∃ b w, (w, .cond c) ∈ s.queue b) ∨
    ∃ t, s.pc t = .enqueue (.wait c m) ∨ ∃ m' data, s.pc t = .unpark (.signal c m') data false

theorem CondEffect.cond_of_ne (hEffect : CondEffect t s s') (hOutside : ¬ (s.pc t).inside hash (hash (.cond c))) :
    s'.cond c = s.cond c := by
  rcases hEffect with ⟨hCond, -⟩ | ⟨c₀, m₀, hPc, -, hCond⟩ | ⟨c₀, m₀, data, hPc, -, hCond⟩ |
      ⟨c₀, m₀, hPc, -, hCond⟩
  · rw [hCond]
  all_goals
    rw [hCond, update_of_ne]
    rintro rfl
    refine hOutside ?_
    rw [hPc]
  · exact rfl
  · exact rfl
  · exact either_iff.mpr (.inl rfl)

/-- Nobody else changes a bucket that one is inside of. -/
theorem BucketInv.outside (hBuckets : BucketInv hash s) (hNe : t' ≠ t) (h : (s.pc t').inside hash b) :
    ¬ (s.pc t).inside hash b := fun h' => hNe (hBuckets.eq h h')

/-- The threads at a condition whose threads are requeued all wait with one mutex. -/
theorem CondInv.waits_requeue (hInv : CondInv hash s) (hBuckets : BucketInv hash s) {one : Bool}
    (hPc : s.pc t = .requeue c m one) (h : (w, .cond c) ∈ s.queue b) : (s.pc w).sleeps = some (.wait c m) := by
  obtain ⟨m', hSleeps, hNamed⟩ := hInv.waits b w c h
  have hBlank : (s.pc t).blank = some c := by rw [hPc]; rfl
  rcases hNamed with hSome | ⟨t', ht'⟩
  · rw [hInv.blank t c hBlank] at hSome
    cases hSome
  · obtain rfl := hBuckets.eq (inside_of_blank (blank_of_cleared ht')) (inside_of_blank hBlank)
    rw [hPc] at ht'
    cases ht'
    exact hSleeps

section Step

variable (hInv : CondInv hash s) (hBuckets : BucketInv hash s) (hStep : Step hash t s s')
include hBuckets hStep hInv

theorem CondInv.blank_step (h : (s'.pc t').blank = some c) : s'.cond c = none := by
  rcases eq_or_ne t' t with rfl | hNe
  · rcases hStep.condEffect with ⟨hCond, hBlank, -, -⟩ | ⟨c₀, m₀, hPc, hPc', hCond⟩ |
        ⟨c₀, m₀, data, hPc, hPc', hCond⟩ | ⟨c₀, m₀, hPc, hPc', hCond⟩
    · rw [hCond]
      exact (hBlank c h).elim id (hInv.blank t' c)
    · rw [hPc'] at h
      cases h
    · rw [hPc'] at h
      cases h
    · rw [hPc'] at h
      cases h
      rw [hCond, update_self]
  · rw [hStep.pc_of_ne hNe] at h
    rw [hStep.condEffect.cond_of_ne (hBuckets.outside hNe (inside_of_blank h))]
    exact hInv.blank t' c h

theorem CondInv.named_step (h : (s'.pc t').named = some (c, m)) : s'.cond c = some m := by
  rcases eq_or_ne t' t with rfl | hNe
  · rcases hStep.condEffect with ⟨hCond, -, hNamed, -⟩ | ⟨c₀, m₀, hPc, hPc', hCond⟩ |
        ⟨c₀, m₀, data, hPc, hPc', hCond⟩ | ⟨c₀, m₀, hPc, hPc', hCond⟩
    · rw [hCond]
      exact hNamed c m h
    · rw [hPc'] at h
      cases h
      rw [hCond, update_self]
    · rw [hPc'] at h
      cases h
    · rw [hPc'] at h
      cases h
  · rw [hStep.pc_of_ne hNe] at h
    rw [hStep.condEffect.cond_of_ne (hBuckets.outside hNe (inside_of_named h))]
    exact hInv.named t' c m h

theorem CondInv.more_step {u : UnparkControl} {data : Option Thread} {more : Bool}
    (h : s'.pc t' = .unpark u data more) : more = true ↔ ∃ w, (w, u.addr) ∈ s'.queue (hash u.addr) := by
  rcases eq_or_ne t' t with rfl | hNe
  · have hNot : ¬ (s'.pc t').Plain := by
      rw [h]
      exact not_false
    have hFind : s.pc t' = .find u ∧
        ∃ rest, dequeue u.addr (s.queue (hash u.addr)) = (data, more, rest) ∧
          s'.queue (hash u.addr) = rest := by
      cases hStep with
      | find u' data' more' rest hPc hDequeue =>
        simp only [State.goto, update_self, Pc.unpark.injEq] at h
        obtain ⟨rfl, rfl, rfl⟩ := h
        exact ⟨hPc, rest, hDequeue, update_self ..⟩
      | park_unlock_invalid | parked | unlock_give | full_give | unpark_unlock | wake | unlock_only
      | unlock_second => exact absurd (by simp [State.goto]) hNot
      | _ => simp [State.goto] at h
    obtain ⟨-, rest, hDequeue, hRest⟩ := hFind
    rw [hRest]
    cases data with
    | none =>
      obtain ⟨rfl, rfl, hNone⟩ := dequeue_none hDequeue
      simp only [Bool.false_eq_true, false_iff]
      rintro ⟨w, hw⟩
      exact hNone _ hw rfl
    | some w =>
      obtain ⟨before, behind, -, rfl, hBefore, hMore⟩ := dequeue_some hDequeue
      rw [hMore]
      constructor
      · rintro ⟨⟨v, a⟩, hMem, rfl⟩
        exact ⟨v, List.mem_append_right _ hMem⟩
      · rintro ⟨v, hv⟩
        rcases List.mem_append.mp hv with hv | hv
        · exact absurd rfl (hBefore _ hv)
        · exact ⟨_, hv, rfl⟩
  · rw [hStep.pc_of_ne hNe] at h
    rw [hStep.queue_of_outside (hBuckets.outside hNe (by rw [h]; rfl))]
    exact hInv.more t' u data more h

end Step

section Waits

variable (hNodes : NodeInv hash s) (hStep : Step hash t s s')
include hNodes hStep

theorem NodeInv.sleeps_step {a : Addr} (h : (w, a) ∈ s.queue b) : (s'.pc w).sleeps = (s.pc w).sleeps := by
  obtain ⟨hPark, k, hk, -⟩ := hNodes.node b w a h
  exact hStep.sleeps_of_parked hPark hk

omit hNodes in
/-- A node comes to a condition only with a thread that goes to sleep there. -/
theorem Step.cond_node (h : (w, .cond c) ∈ s'.queue b) :
    (w, .cond c) ∈ s.queue b ∨ w = t ∧ ∃ m, s.pc t = .enqueue (.wait c m) := by
  rcases hStep.node h with hOld | ⟨k, hPc, hw, ha⟩ |
      ⟨c', m, one, wakeup, requeued, rest, -, -, hCollect, hIn⟩
  · exact .inl hOld
  · rcases k with m | ⟨c', m⟩ <;> cases ha
    exact .inr ⟨hw, m, hPc⟩
  · obtain ⟨-, -, hTo, -⟩ := collect_spec hCollect
    cases hTo _ hIn

omit hNodes in
theorem Step.of_requeue {one : Bool} (hPc : s.pc t = .requeue c m one) : ∃ wakeup requeued rest,
    collect (.cond c) (.mutex m) one none (s.queue (hash (.cond c))) = (wakeup, requeued, rest) ∧
      s' = (s.moved (hash (.cond c)) (hash (.mutex m)) rest requeued).goto t
        (.requeue_callback c m one wakeup (!requeued.isEmpty)) := by
  cases hStep with
  | requeue c' m' one' wakeup requeued rest hPc' hCollect =>
    rw [hPc] at hPc'
    cases hPc'
    exact ⟨wakeup, requeued, rest, hCollect, rfl⟩
  | _ => simp_all

/-- Nobody is left at a condition whose threads were requeued. -/
theorem NodeInv.gone_of_requeue {one : Bool} (hPc : s.pc t = .requeue c m one) :
    (w, .cond c) ∉ s'.queue b := by
  intro h
  obtain ⟨wakeup, requeued, rest, hCollect, rfl⟩ := hStep.of_requeue hPc
  obtain ⟨rfl, -, hTo, -⟩ := collect_spec hCollect
  rcases (mem_moved _ _ _).mp h with h | ⟨-, h⟩
  · split_ifs at h with hb
    · simp at h
    · exact hb (hNodes.place b w _ h).symm
  · cases hTo _ h

theorem CondInv.waits_step (hInv : CondInv hash s) (hBuckets : BucketInv hash s)
    (h : (w, .cond c) ∈ s'.queue b) : ∃ m, (s'.pc w).sleeps = some (.wait c m) ∧
      (s'.cond c = some m ∨ ∃ t, (s'.pc t).cleared = some (c, m)) := by
  rcases hStep.cond_node h with hOld | ⟨rfl, m, hPc⟩
  · obtain ⟨m, hSleeps, hNamed⟩ := hInv.waits b w c hOld
    refine ⟨m, (hNodes.sleeps_step hStep hOld).trans hSleeps, ?_⟩
    have hOthers {t'} (ht : (s.pc t').cleared = some (c, m)) (hNe : t' ≠ t) :
        ∃ t, (s'.pc t).cleared = some (c, m) := ⟨t', by rw [hStep.pc_of_ne hNe, ht]⟩
    rcases hStep.condEffect with ⟨hCond, -, -, hCleared⟩ | ⟨c₀, m₀, hPc, hPc', hCond⟩ |
        ⟨c₀, m₀, data, hPc, hPc', hCond⟩ | ⟨c₀, m₀, hPc, hPc', hCond⟩
    · rw [hCond]
      refine hNamed.imp_right fun ⟨t', ht'⟩ => ?_
      rcases eq_or_ne t' t with rfl | hNe
      · rcases hCleared c m ht' with hStill | ⟨one, hPc⟩
        · exact ⟨t', hStill⟩
        · exact absurd h (hNodes.gone_of_requeue hStep hPc)
      · exact hOthers ht' hNe
    · rcases eq_or_ne c₀ c with rfl | hc
      · have hNone := hInv.blank t c₀ (by rw [hPc]; rfl)
        rcases hNamed with hSome | ⟨t', ht'⟩
        · rw [hNone] at hSome
          cases hSome
        · obtain rfl := hBuckets.eq (inside_of_blank (blank_of_cleared ht')) (by rw [hPc]; rfl)
          rw [hPc] at ht'
          cases ht'
      · rw [hCond, update_of_ne hc.symm]
        refine hNamed.imp_right fun ⟨t', ht'⟩ => hOthers ht' ?_
        rintro rfl
        rw [hPc] at ht'
        cases ht'
    · rcases eq_or_ne c₀ c with rfl | hc
      · have hNone := (hInv.more t _ data false hPc).mpr ⟨w, by
          rw [UnparkControl.addr_signal, hNodes.place b w _ hOld]
          exact hOld⟩
        cases hNone
      · rw [hCond, update_of_ne hc.symm]
        refine hNamed.imp_right fun ⟨t', ht'⟩ => hOthers ht' ?_
        rintro rfl
        rw [hPc] at ht'
        cases ht'
    · have hIs := hInv.named t c₀ m₀ (by rw [hPc]; rfl)
      rcases eq_or_ne c₀ c with rfl | hc
      · rcases hNamed with hSome | ⟨t', ht'⟩
        · cases hIs.symm.trans hSome
          exact .inr ⟨t, by rw [hPc']; rfl⟩
        · rw [hInv.blank t' c₀ (blank_of_cleared ht')] at hIs
          cases hIs
      · rw [hCond, update_of_ne hc.symm]
        refine hNamed.imp_right fun ⟨t', ht'⟩ => hOthers ht' ?_
        rintro rfl
        rw [hPc] at ht'
        cases ht'
  · have hSome := hInv.named w c m (by rw [hPc]; rfl)
    cases hStep with
    | enqueue k hPc' =>
      rw [hPc] at hPc'
      cases hPc'
      exact ⟨m, by simp [State.goto, Pc.sleeps], .inl hSome⟩
    | _ => simp_all

omit hNodes in
theorem CondInv.filled_step (hInv : CondInv hash s) (hBuckets : BucketInv hash s)
    (h : s'.cond c = some m) : (∃ b w, (w, .cond c) ∈ s'.queue b) ∨
      ∃ t, s'.pc t = .enqueue (.wait c m) ∨ ∃ m' data, s'.pc t = .unpark (.signal c m') data false := by
  have hOld : s.cond c = some m ∨ s'.pc t = .enqueue (.wait c m) := by
    rcases hStep.condEffect with ⟨hCond, -⟩ | ⟨c₀, m₀, -, hPc', hCond⟩ | ⟨c₀, m₀, data, -, -, hCond⟩ |
        ⟨c₀, m₀, -, -, hCond⟩
    · exact .inl (hCond ▸ h)
    all_goals
      rw [hCond, update_apply] at h
      split_ifs at h with hc
    · cases h
      exact .inr (hc ▸ hPc')
    all_goals exact .inl h
  rcases hOld with hOld | hPc
  · rcases hInv.filled c m hOld with ⟨b, w, hMem⟩ | ⟨t', ht'⟩
    · rcases hStep.nodeEffect with ⟨hQueue, -⟩ | ⟨k, hPc, -, hQueue, -⟩ |
          ⟨u, data, more, rest, hPc, hPc', hDequeue, hQueue, -⟩ |
          ⟨c', m', one, wakeup, requeued, rest, hPc, -, hCollect, hQueue, -⟩ | ⟨v, -, -, -, hQueue, -⟩ |
          ⟨k, -, -, -, -, -, hQueue, -⟩
      · exact .inl ⟨b, w, hQueue ▸ hMem⟩
      · refine .inl ⟨b, w, ?_⟩
        rw [hQueue, update_apply]
        split_ifs with hb
        · exact List.mem_append_left _ (hb ▸ hMem)
        · exact hMem
      · by_cases hu : u.addr = .cond c
        · cases more with
          | true =>
            obtain ⟨v, hv⟩ := (hInv.more_step hBuckets hStep hPc').mp rfl
            exact .inl ⟨_, v, hu ▸ hv⟩
          | false =>
            rcases u with ⟨m', sleep⟩ | ⟨c', m'⟩
            · cases hu
            · cases hu
              exact .inr ⟨t, .inr ⟨m', data, hPc'⟩⟩
        · refine .inl ⟨b, w, ?_⟩
          rw [hQueue, update_apply]
          split_ifs with hb
          · rw [hb] at hMem
            cases data with
            | none => exact (dequeue_none hDequeue).2.1 ▸ hMem
            | some v =>
              obtain ⟨before, behind, hAll, rfl, -⟩ := dequeue_some hDequeue
              rw [hAll] at hMem
              simpa [Ne.symm hu] using hMem
          · exact hMem
      · rcases eq_or_ne c' c with rfl | hc
        · rw [hInv.blank t c' (by rw [hPc]; rfl)] at hOld
          cases hOld
        · refine .inl ⟨b, w, ?_⟩
          obtain ⟨rfl, -⟩ := collect_spec hCollect
          rw [hQueue, mem_moved]
          refine .inl ?_
          split_ifs with hb
          · rw [hb] at hMem
            simpa [hc.symm] using hMem
          · exact hMem
      · exact .inl ⟨b, w, hQueue ▸ hMem⟩
      · exact .inl ⟨b, w, hQueue ▸ hMem⟩
    · rcases eq_or_ne t' t with rfl | hNe
      · rcases ht' with hPc | ⟨m', data, hPc⟩
        · cases hStep with
          | enqueue k hPc' =>
            rw [hPc] at hPc'
            cases hPc'
            exact .inl ⟨hash (.cond c), t', by simp [State.goto, State.setInfo, State.setParked, State.setQueue]⟩
          | _ => simp_all
        · cases hStep with
          | unpark_signal c' m'' data' more hPc' =>
            rw [hPc] at hPc'
            cases hPc'
            simp [State.goto, State.setInfo, State.setCond] at h
          | _ => simp_all
      · exact .inr ⟨t', by rw [hStep.pc_of_ne hNe]; exact ht'⟩
  · exact .inr ⟨t, .inl hPc⟩

theorem CondInv.step (hInv : CondInv hash s) (hBuckets : BucketInv hash s) : CondInv hash s' :=
  ⟨fun _ _ h => hInv.blank_step hBuckets hStep h, fun _ _ _ h => hInv.named_step hBuckets hStep h,
    fun _ _ _ _ h => hInv.more_step hBuckets hStep h,
    fun _ _ _ h => hInv.waits_step hNodes hStep hBuckets h,
    fun _ _ h => hInv.filled_step hStep hBuckets h⟩

end Waits

end Vyasa.Synchronization
