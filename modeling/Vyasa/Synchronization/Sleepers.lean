import Vyasa.Synchronization.Mutex

/-! A thread that sleeps stands in the list of one bucket, or another is about to wake it up. -/
namespace Vyasa.Synchronization

open Function

variable {hash : Addr → Bucket} {t t' w : Thread} {s s' : State} {m : Mutex} {c : Cond} {b : Bucket}
  {a : Addr} {k : ParkControl}

section Walks

variable {addr addr' : Addr} {q rest requeue : List Node} {data wakeup : Option Thread}
  {one more : Bool}

theorem dequeue_none (h : dequeue addr q = (none, more, rest)) :
    more = false ∧ rest = q ∧ ∀ node ∈ q, node.2 ≠ addr := by
  induction q generalizing rest with
  | nil =>
    cases h
    exact ⟨rfl, rfl, by simp⟩
  | cons node q ih =>
    simp only [dequeue] at h
    split_ifs at h with hAddr
    · cases h
    · obtain ⟨hMore, hRest, hNone⟩ := @ih (dequeue addr q).2.2 (by
        simp only [Prod.mk.injEq] at h
        rw [← h.1, ← h.2.1])
      simp only [Prod.mk.injEq] at h
      exact ⟨hMore, by rw [← h.2.2, hRest], by simpa [hAddr] using hNone⟩

theorem dequeue_some (h : dequeue addr q = (some w, more, rest)) :
    ∃ before behind, q = before ++ (w, addr) :: behind ∧ rest = before ++ behind ∧
      (∀ node ∈ before, node.2 ≠ addr) ∧ (more = true ↔ ∃ node ∈ behind, node.2 = addr) := by
  induction q generalizing rest with
  | nil => cases h
  | cons node q ih =>
    simp only [dequeue] at h
    split_ifs at h with hAddr
    · simp only [Prod.mk.injEq, Option.some.injEq] at h
      refine ⟨[], q, by rw [← h.1, ← hAddr]; rfl, h.2.2.symm, by simp, ?_⟩
      rw [← h.2.1]
      simp
    · simp only [Prod.mk.injEq] at h
      obtain ⟨before, behind, hQ, hRest, hBefore, hMore⟩ := @ih (dequeue addr q).2.2 (by
        rw [← h.1, ← h.2.1])
      refine ⟨node :: before, behind, by rw [hQ]; rfl, by rw [← h.2.2, hRest]; rfl, ?_, hMore⟩
      simpa [hAddr] using hBefore

/-- The nodes at the address, in the order of the list. -/
def hits (addr : Addr) (q : List Node) : List Thread := (q.filter (·.2 = addr)).map Prod.fst

theorem mem_hits : w ∈ hits addr q ↔ (w, addr) ∈ q := by
  simp [hits]

/-- The first hit is woken up if there has to be one. -/
theorem collect_eq (one : Bool) (wakeup : Option Thread) (q : List Node) :
    collect addr addr' one wakeup q =
      if one && wakeup.isNone then
        ((hits addr q).head?, (hits addr q).tail.map (·, addr'), q.filter (·.2 ≠ addr))
      else (wakeup, (hits addr q).map (·, addr'), q.filter (·.2 ≠ addr)) := by
  induction q generalizing wakeup with
  | nil => cases one <;> cases wakeup <;> rfl
  | cons node q ih =>
    by_cases hAddr : node.2 = addr <;> cases one <;> cases wakeup <;>
      simp [collect, hAddr, ih, hits]

end Walks

section Effects

/-- What a thread sleeps with, from the time on that its node is in a list. -/
def Pc.sleeps : Pc → Option ParkControl
  | .park_unlock k true | .parked k => some k
  | .unlock m (some c) | .unlock_full m (some c) | .unpark_one (.mutex m (some c))
  | .find (.mutex m (some c)) | .unpark (.mutex m (some c)) _ _ | .unpark_unlock (.mutex m (some c)) _
  | .wake _ (some (c, m)) => some (.wait c m)
  | _ => none

/-- The thread that one has taken off a list to wake it up. -/
def Pc.target : Pc → Option Thread
  | .unpark _ data _ | .unpark_unlock _ data => data
  | .wake data _ => some data
  | .requeue_callback _ _ _ wakeup _ | .unlock_first _ _ wakeup | .unlock_second _ _ wakeup => wakeup
  | _ => none

theorem target_afterUnlock (after : Option (Cond × Mutex)) : (Pc.afterUnlock after).target = none := by
  cases after <;> rfl

theorem target_wakeAny (after : Option (Cond × Mutex)) (data : Option Thread) :
    (Pc.wakeAny after data).target = data := by
  cases data with
  | none => exact target_afterUnlock after
  | some w => rfl

theorem sleeps_afterUnlock (after : Option (Cond × Mutex)) :
    (Pc.afterUnlock after).sleeps = after.map fun p => .wait p.1 p.2 := by
  cases after <;> rfl

theorem sleeps_wakeAny (after : Option (Cond × Mutex)) (data : Option Thread) :
    (Pc.wakeAny after data).sleeps = after.map fun p => .wait p.1 p.2 := by
  cases data with
  | none => exact sleeps_afterUnlock after
  | some w => cases after <;> rfl

/-- What a step does to the lists and to those who sleep. -/
inductive NodeEffect (hash : Addr → Bucket) (t : Thread) (s s' : State) : Prop
  | same : s'.queue = s.queue → s'.should_park = s.should_park → (s'.pc t).sleeps = (s.pc t).sleeps →
      (s'.pc t).target = (s.pc t).target → NodeEffect hash t s s'
  | enqueue (k : ParkControl) : s.pc t = .enqueue k → s'.pc t = .park_unlock k true →
      s'.queue = update s.queue (hash k.addr) (s.queue (hash k.addr) ++ [(t, k.addr)]) →
      s'.should_park = update s.should_park t true → NodeEffect hash t s s'
  | find (u : UnparkControl) (data : Option Thread) (more : Bool) (rest : List Node) : s.pc t = .find u →
      s'.pc t = .unpark u data more → dequeue u.addr (s.queue (hash u.addr)) = (data, more, rest) →
      s'.queue = update s.queue (hash u.addr) rest → s'.should_park = s.should_park →
      NodeEffect hash t s s'
  | requeue (c : Cond) (m : Mutex) (one : Bool) (wakeup : Option Thread) (requeue rest : List Node) :
      s.pc t = .requeue c m one → s'.pc t = .requeue_callback c m one wakeup (!requeue.isEmpty) →
      collect (.cond c) (.mutex m) one none (s.queue (hash (.cond c))) = (wakeup, requeue, rest) →
      s'.queue = (s.moved (hash (.cond c)) (hash (.mutex m)) rest requeue).queue →
      s'.should_park = s.should_park → NodeEffect hash t s s'
  | wake (w : Thread) : (s.pc t).target = some w → (s'.pc t).target = none →
      (s'.pc t).sleeps = (s.pc t).sleeps → s'.queue = s.queue →
      s'.should_park = update s.should_park w false → NodeEffect hash t s s'
  | rise (k : ParkControl) : s.pc t = .parked k → s.should_park t = false → (s.pc t).target = none → (s'.pc t).target = none →
      (s'.pc t).sleeps = none → s'.queue = s.queue → s'.should_park = s.should_park →
      NodeEffect hash t s s'

theorem Step.nodeEffect (hStep : Step hash t s s') : NodeEffect hash t s s' := by
  cases hStep with
  | park_unlock_invalid k hPc =>
    refine .same ?_ ?_ ?_ ?_ <;> cases k <;>
      simp [State.resume, State.goto, State.setBucket, Pc.sleeps, Pc.target, hPc]
  | enqueue k hPc => exact .enqueue k hPc (update_self ..) rfl rfl
  | parked k hPc hPark =>
    have hTarget : (s.pc t).target = none := by rw [hPc]; rfl
    refine .rise k hPc hPark hTarget ?_ ?_ ?_ ?_ <;> cases k <;> simp only [State.resume] <;> split <;>
      simp [State.goto, State.setHeld, Pc.sleeps, Pc.target]
  | unlock_give m sleep hPc | full_give m sleep hPc =>
    refine .same rfl rfl ?_ ?_ <;> simp only [State.goto, update_self, hPc] <;> cases sleep <;> rfl
  | unlock_fail m sleep hPc | full_unpark m sleep hPc =>
    refine .same rfl rfl ?_ ?_ <;> simp only [State.goto, update_self, hPc] <;> cases sleep <;> rfl
  | unpark_one u hPc =>
    refine .same rfl rfl ?_ ?_ <;> simp only [State.goto, update_self, hPc]
    · rcases u with ⟨m, _ | c⟩ | ⟨c, m⟩ <;> rfl
    · rfl
  | find u data more rest hPc hDequeue =>
    exact .find u data more rest hPc (update_self ..) hDequeue rfl rfl
  | unpark_mutex m sleep data more hPc =>
    refine .same rfl rfl ?_ ?_ <;> simp only [State.goto, update_self, hPc]
    · cases sleep <;> rfl
    · rfl
  | unpark_unlock u data hPc =>
    refine .same rfl rfl ?_ ?_ <;> simp only [State.goto, update_self, hPc]
    · rw [sleeps_wakeAny]
      rcases u with ⟨m, _ | c⟩ | ⟨c, m⟩ <;> rfl
    · exact target_wakeAny ..
  | wake data after hPc =>
    refine .wake data (by rw [hPc]; rfl) ?_ ?_ rfl rfl <;> simp only [State.goto, update_self, hPc]
    · exact target_afterUnlock after
    · rw [sleeps_afterUnlock]
      cases after <;> rfl
  | requeue c m one wakeup requeue rest hPc hCollect =>
    exact .requeue c m one wakeup requeue rest hPc (update_self ..) hCollect rfl rfl
  | callback_mark c m one wakeup some_requeued hPc | callback_skip c m one wakeup some_requeued hPc =>
    refine .same rfl rfl ?_ ?_ <;> simp only [State.goto, update_self, hPc] <;> rfl
  | unlock_only c m wakeup hPc | unlock_second c m wakeup hPc =>
    refine .same rfl rfl ?_ ?_ <;> simp only [State.goto, update_self, hPc]
    · exact sleeps_wakeAny none wakeup
    · exact target_wakeAny none wakeup
  | unlock_first c m wakeup hPc =>
    refine .same rfl rfl ?_ ?_ <;> simp only [State.goto, update_self, hPc] <;> rfl
  | _ =>
    refine .same rfl rfl ?_ ?_ <;> simp [State.goto, Pc.sleeps, Pc.target, *]

end Effects

section Nodes

/-- An address of a control: its own, or that of the mutex after a requeue. -/
def ParkControl.Places (k : ParkControl) (a : Addr) : Prop := a = k.addr ∨ a = .mutex k.lock

/-- Where the nodes are. -/
structure NodeInv (hash : Addr → Bucket) (s : State) : Prop where
  place : ∀ b w a, (w, a) ∈ s.queue b → hash a = b
  node : ∀ b w a, (w, a) ∈ s.queue b →
    s.should_park w = true ∧ ∃ k, (s.pc w).sleeps = some k ∧ k.Places a
  nodup : ∀ b, ((s.queue b).map Prod.fst).Nodup
  once : ∀ b b' w a a', (w, a) ∈ s.queue b → (w, a') ∈ s.queue b' → b = b'
  target : ∀ t w, (s.pc t).target = some w →
    s.should_park w = true ∧ (∃ k, (s.pc w).sleeps = some k) ∧ ∀ b a, (w, a) ∉ s.queue b
  target_inj : ∀ t t' w, (s.pc t).target = some w → (s.pc t').target = some w → t = t'
  found : ∀ w k, (s.pc w).sleeps = some k → s.should_park w = true →
    (∃ b a, (w, a) ∈ s.queue b) ∨ ∃ t, (s.pc t).target = some w

theorem pc_congr {α : Type} {f : Pc → α} (hOther : ∀ t', t' ≠ t → s'.pc t' = s.pc t')
    (hSelf : f (s'.pc t) = f (s.pc t)) (t' : Thread) : f (s'.pc t') = f (s.pc t') := by
  rcases eq_or_ne t' t with rfl | hNe
  · exact hSelf
  · rw [hOther t' hNe]

theorem NodeInv.congr (hInv : NodeInv hash s) (hQueue : s'.queue = s.queue)
    (hPark : s'.should_park = s.should_park) (hSleeps : ∀ t, (s'.pc t).sleeps = (s.pc t).sleeps)
    (hTarget : ∀ t, (s'.pc t).target = (s.pc t).target) : NodeInv hash s' := by
  obtain ⟨hPlace, hNode, hNodup, hOnce, hTargets, hInj, hFound⟩ := hInv
  constructor <;> simpa only [hQueue, hPark, hSleeps, hTarget]

/-- The nodes move, and at most one leaves, whose thread is to be woken up. -/
theorem NodeInv.move (hInv : NodeInv hash s) {data : Option Thread}
    (hOther : ∀ t', t' ≠ t → s'.pc t' = s.pc t') (hPark : s'.should_park = s.should_park)
    (hSleeps : (s'.pc t).sleeps = (s.pc t).sleeps) (hNone : (s.pc t).target = none)
    (hTarget : (s'.pc t).target = data) (hPlace : ∀ b w a, (w, a) ∈ s'.queue b → hash a = b)
    (hOld : ∀ b w a, (w, a) ∈ s'.queue b → data ≠ some w ∧ ∃ b₀ a₀, (w, a₀) ∈ s.queue b₀ ∧
      ∀ k, (s.pc w).sleeps = some k → k.Places a₀ → k.Places a)
    (hNodup : ∀ b, ((s'.queue b).map Prod.fst).Nodup)
    (hOnce : ∀ b b' w a a', (w, a) ∈ s'.queue b → (w, a') ∈ s'.queue b' → b = b')
    (hData : ∀ w, data = some w → ∃ b a, (w, a) ∈ s.queue b)
    (hRest : ∀ b w a, (w, a) ∈ s.queue b → data = some w ∨ ∃ b' a', (w, a') ∈ s'.queue b') :
    NodeInv hash s' := by
  have hSleep := pc_congr hOther hSleeps
  have hTargets (t' w) (h : (s'.pc t').target = some w) :
      t' = t ∧ data = some w ∨ t' ≠ t ∧ (s.pc t').target = some w := by
    rcases eq_or_ne t' t with rfl | hNe
    · exact .inl ⟨rfl, hTarget.symm.trans h⟩
    · exact .inr ⟨hNe, hOther t' hNe ▸ h⟩
  have hNew (t' w) (hw : data = some w) : (s.pc t').target ≠ some w := by
    intro h
    obtain ⟨b, a, hMem⟩ := hData w hw
    exact (hInv.target t' w h).2.2 b a hMem
  refine ⟨hPlace, fun b w a hMem => ?_, hNodup, hOnce, fun t' w h => ?_, fun t₁ t₂ w h₁ h₂ => ?_,
    fun w k hk hw => ?_⟩
  · obtain ⟨-, b₀, a₀, hMem₀, hPlaces⟩ := hOld b w a hMem
    obtain ⟨hw, k, hk, hAt⟩ := hInv.node b₀ w a₀ hMem₀
    exact ⟨hPark ▸ hw, k, (hSleep w).trans hk, hPlaces k hk hAt⟩
  · rw [hPark, hSleep]
    rcases hTargets t' w h with ⟨-, hw⟩ | ⟨-, hw⟩
    · obtain ⟨b, a, hMem⟩ := hData w hw
      obtain ⟨hParked, k, hk, -⟩ := hInv.node b w a hMem
      exact ⟨hParked, ⟨k, hk⟩, fun b' a' h' => (hOld b' w a' h').1 hw⟩
    · obtain ⟨hParked, hk, hNot⟩ := hInv.target t' w hw
      refine ⟨hParked, hk, fun b' a' h' => ?_⟩
      obtain ⟨-, b₀, a₀, hMem₀, -⟩ := hOld b' w a' h'
      exact hNot b₀ a₀ hMem₀
  · rcases hTargets t₁ w h₁ with ⟨hEq₁, hw₁⟩ | ⟨-, hw₁⟩ <;> rcases hTargets t₂ w h₂ with ⟨hEq₂, hw₂⟩ | ⟨-, hw₂⟩
    · rw [hEq₁, hEq₂]
    · exact absurd hw₂ (hNew t₂ w hw₁)
    · exact absurd hw₁ (hNew t₁ w hw₂)
    · exact hInv.target_inj t₁ t₂ w hw₁ hw₂
  · rcases hInv.found w k ((hSleep w).symm.trans hk) (hPark ▸ hw) with ⟨b, a, hMem⟩ | ⟨t', ht'⟩
    · rcases hRest b w a hMem with h | h
      · exact .inr ⟨t, hTarget.trans h⟩
      · exact .inl h
    · have hNe : t' ≠ t := by
        rintro rfl
        rw [hNone] at ht'
        cases ht'
      exact .inr ⟨t', by rw [hOther t' hNe, ht']⟩

theorem NodeInv.eq_of_mem (hInv : NodeInv hash s) {b' : Bucket} {a' : Addr} (h : (w, a) ∈ s.queue b)
    (h' : (w, a') ∈ s.queue b') : b = b' ∧ a = a' := by
  obtain rfl := hInv.once b b' w a a' h h'
  exact ⟨rfl, congrArg Prod.snd (List.inj_on_of_nodup_map (hInv.nodup b) h h' rfl)⟩

/-- A node at a mutex belongs to a thread that locks it once it is awake. -/
theorem NodeInv.lock_of_mem (hInv : NodeInv hash s) (h : (w, .mutex m) ∈ s.queue b) :
    ∃ k, (s.pc w).sleeps = some k ∧ k.lock = m := by
  obtain ⟨-, k, hk, hPlace⟩ := hInv.node b w _ h
  refine ⟨k, hk, ?_⟩
  rcases hPlace with hPlace | hPlace
  · cases k <;> cases hPlace
    rfl
  · cases hPlace
    rfl

theorem NodeInv.enqueue (hInv : NodeInv hash s) (hOther : ∀ t', t' ≠ t → s'.pc t' = s.pc t')
    (hPc : s.pc t = .enqueue k) (hPc' : s'.pc t = .park_unlock k true)
    (hQueue : s'.queue = update s.queue (hash k.addr) (s.queue (hash k.addr) ++ [(t, k.addr)]))
    (hPark : s'.should_park = update s.should_park t true) : NodeInv hash s' := by
  have hNo (b a) : (t, a) ∉ s.queue b := by
    intro h
    obtain ⟨-, k', hk', -⟩ := hInv.node b t a h
    rw [hPc] at hk'
    cases hk'
  have hMem (b w a) : (w, a) ∈ s'.queue b ↔
      (w, a) ∈ s.queue b ∨ w = t ∧ a = k.addr ∧ b = hash k.addr := by
    rw [hQueue, update_apply]
    split_ifs with hb
    · simp [hb]
    · simp [hb]
  have hNode {b a w} (h : (w, a) ∈ s.queue b) : w ≠ t := fun hw => hNo b a (hw ▸ h)
  have hTarget : ∀ t', (s'.pc t').target = (s.pc t').target :=
    pc_congr hOther (by rw [hPc, hPc']; rfl)
  refine ⟨fun b w a h => ?_, fun b w a h => ?_, fun b => ?_, fun b b' w a a' h h' => ?_, fun t' w h => ?_,
    fun t₁ t₂ w h₁ h₂ => ?_, fun w k' hk' hw => ?_⟩
  · rcases (hMem b w a).mp h with h | ⟨-, rfl, rfl⟩
    · exact hInv.place b w a h
    · rfl
  · rcases (hMem b w a).mp h with h | ⟨rfl, rfl, -⟩
    · rw [hPark, update_of_ne (hNode h), hOther w (hNode h)]
      exact hInv.node b w a h
    · rw [hPark, update_self, hPc']
      exact ⟨rfl, k, rfl, .inl rfl⟩
  · rw [hQueue, update_apply]
    split_ifs with hb
    · rw [List.map_append, List.map_cons, List.map_nil, ← List.concat_eq_append]
      refine (hInv.nodup _).concat fun h => ?_
      obtain ⟨⟨w, a⟩, hIn, rfl⟩ := List.mem_map.mp h
      exact hNo _ a hIn
    · exact hInv.nodup b
  · rcases (hMem b w a).mp h with h | ⟨rfl, -, rfl⟩ <;> rcases (hMem b' _ a').mp h' with h' | ⟨hw, -, rfl⟩
    · exact hInv.once b b' w a a' h h'
    · exact absurd hw (hNode h)
    · exact absurd h' (hNo b' a')
    · rfl
  · rw [hTarget t'] at h
    obtain ⟨hw, ⟨k', hk'⟩, hNot⟩ := hInv.target t' w h
    have hNe : w ≠ t := by
      rintro rfl
      rw [hPc] at hk'
      cases hk'
    rw [hPark, update_of_ne hNe, hOther w hNe]
    refine ⟨hw, ⟨k', hk'⟩, fun b a hIn => ?_⟩
    rcases (hMem b w a).mp hIn with hIn | ⟨h, -⟩
    · exact hNot b a hIn
    · exact hNe h
  · exact hInv.target_inj t₁ t₂ w (hTarget t₁ ▸ h₁) (hTarget t₂ ▸ h₂)
  · rcases eq_or_ne w t with rfl | hNe
    · exact .inl ⟨_, _, (hMem _ w _).mpr (.inr ⟨rfl, rfl, rfl⟩)⟩
    · rw [hPark, update_of_ne hNe] at hw
      rw [hOther w hNe] at hk'
      rcases hInv.found w k' hk' hw with ⟨b, a, h⟩ | ⟨t', h⟩
      · exact .inl ⟨b, a, (hMem b w a).mpr (.inl h)⟩
      · exact .inr ⟨t', (hTarget t').trans h⟩

theorem NodeInv.find (hInv : NodeInv hash s) {u : UnparkControl} {data : Option Thread} {more : Bool}
    {rest : List Node} (hOther : ∀ t', t' ≠ t → s'.pc t' = s.pc t') (hPc : s.pc t = .find u)
    (hPc' : s'.pc t = .unpark u data more)
    (hDequeue : dequeue u.addr (s.queue (hash u.addr)) = (data, more, rest))
    (hQueue : s'.queue = update s.queue (hash u.addr) rest) (hPark : s'.should_park = s.should_park) :
    NodeInv hash s' := by
  have hSleeps : (s'.pc t).sleeps = (s.pc t).sleeps := by
    rw [hPc, hPc']
    rcases u with ⟨m, _ | c⟩ | ⟨c, m⟩ <;> rfl
  have hNone : (s.pc t).target = none := by rw [hPc]; rfl
  have hTarget : (s'.pc t).target = data := by rw [hPc']; rfl
  cases data with
  | none =>
    obtain ⟨-, rfl, -⟩ := dequeue_none hDequeue
    rw [update_eq_self] at hQueue
    exact hInv.congr hQueue hPark (pc_congr hOther hSleeps) (pc_congr hOther (hTarget.trans hNone.symm))
  | some w =>
    obtain ⟨before, behind, hAll, rfl, -⟩ := dequeue_some hDequeue
    have hSub (b) : (s'.queue b).Sublist (s.queue b) := by
      rw [hQueue, update_apply]
      split_ifs with hb
      · rw [hb, hAll]
        exact (List.Sublist.refl before).append (List.sublist_cons_self ..)
      · exact .refl _
    have hIn : (w, u.addr) ∈ s.queue (hash u.addr) := by simp [hAll]
    have hGone (b a) : (w, a) ∉ s'.queue b := by
      intro h
      obtain ⟨rfl, rfl⟩ := hInv.eq_of_mem ((hSub b).subset h) hIn
      rw [hQueue, update_self] at h
      have hNodup := hInv.nodup (hash u.addr)
      rw [hAll, List.map_append, List.map_cons, List.nodup_middle, List.nodup_cons] at hNodup
      exact hNodup.1 (by rw [← List.map_append]; exact List.mem_map_of_mem (f := Prod.fst) h)
    refine hInv.move hOther hPark hSleeps hNone hTarget (fun b v a h => hInv.place b v a ((hSub b).subset h))
      (fun b v a h => ⟨?_, b, a, (hSub b).subset h, fun _ _ h => h⟩)
      (fun b => (hInv.nodup b).sublist ((hSub b).map _))
      (fun b b' v a a' h h' => hInv.once b b' v a a' ((hSub b).subset h) ((hSub b').subset h'))
      (fun v hv => ?_) fun b v a h => ?_
    · rintro hv
      cases hv
      exact hGone b a h
    · cases hv
      exact ⟨_, _, hIn⟩
    · rcases eq_or_ne v w with rfl | hNe
      · exact .inl rfl
      · refine .inr ⟨b, a, ?_⟩
        rw [hQueue, update_apply]
        split_ifs with hb
        · rw [hb, hAll] at h
          simpa [hNe] using h
        · exact h

section Moved

variable {one : Bool} {wakeup : Option Thread} {requeued rest : List Node} {q : List Node}

/-- What the nodes of a list become. -/
theorem collect_spec (hCollect : collect a (.mutex m) one none q = (wakeup, requeued, rest)) :
    rest = q.filter (·.2 ≠ a) ∧ wakeup.toList ++ requeued.map Prod.fst = hits a q ∧
      (∀ node ∈ requeued, node.2 = .mutex m) ∧ (one = false → wakeup = none) ∧
      (one = true → requeued ≠ [] → wakeup ≠ none) := by
  rw [collect_eq] at hCollect
  cases one with
  | false =>
    obtain ⟨rfl, rfl, rfl⟩ := by simpa using hCollect
    simp [comp_def]
  | true =>
    obtain ⟨rfl, rfl, rfl⟩ := by simpa using hCollect
    cases hits a q <;> simp [comp_def]

theorem mem_moved (source target : Bucket) (node : Node) :
    node ∈ (s.moved source target rest requeued).queue b ↔
      (if b = source then node ∈ rest else node ∈ s.queue b) ∨ b = target ∧ node ∈ requeued := by
  simp only [State.moved, State.setQueue, update_apply]
  split_ifs <;> simp_all

theorem NodeInv.requeue (hInv : NodeInv hash s) (hOther : ∀ t', t' ≠ t → s'.pc t' = s.pc t')
    (hPc : s.pc t = .requeue c m one)
    (hPc' : s'.pc t = .requeue_callback c m one wakeup (!requeued.isEmpty))
    (hWait : ∀ b w, (w, .cond c) ∈ s.queue b → (s.pc w).sleeps = some (.wait c m))
    (hCollect : collect (.cond c) (.mutex m) one none (s.queue (hash (.cond c))) = (wakeup, requeued, rest))
    (hQueue : s'.queue = (s.moved (hash (.cond c)) (hash (.mutex m)) rest requeued).queue)
    (hPark : s'.should_park = s.should_park) : NodeInv hash s' := by
  obtain ⟨hRest, hHits, hTo, -, -⟩ := collect_spec hCollect
  have hMem (b w a) : (w, a) ∈ s'.queue b ↔
      (w, a) ∈ s.queue b ∧ a ≠ .cond c ∨ b = hash (.mutex m) ∧ (w, a) ∈ requeued := by
    rw [hQueue, mem_moved, hRest]
    refine or_congr_left ?_
    split_ifs with hb
    · simp [hb]
    · refine (and_iff_left_of_imp fun h hc => hb ?_).symm
      rw [← hInv.place b w a h, hc]
  -- a thread that is requeued or woken up slept at the condition
  have hFrom (w) : w ∈ wakeup.toList ++ requeued.map Prod.fst ↔ (w, .cond c) ∈ s.queue (hash (.cond c)) := by
    rw [hHits, mem_hits]
  have hTaken {w a} (h : (w, a) ∈ requeued) : (w, .cond c) ∈ s.queue (hash (.cond c)) :=
    (hFrom w).mp (List.mem_append_right _ (List.mem_map_of_mem (f := Prod.fst) h))
  have hNodup : (wakeup.toList ++ requeued.map Prod.fst).Nodup := by
    rw [hHits]
    exact (hInv.nodup _).sublist (List.filter_sublist.map _)
  have hPerm : (rest.map Prod.fst ++ (wakeup.toList ++ requeued.map Prod.fst)).Perm
      ((s.queue (hash (.cond c))).map Prod.fst) := by
    rw [hHits, hits, hRest, ← List.map_append]
    refine List.Perm.map _ (List.perm_append_comm.trans ?_)
    simpa using List.filter_append_perm (fun node : Node => decide (node.2 = .cond c)) (s.queue (hash (.cond c)))
  have hOut {w a b} (h : (w, a) ∈ s.queue b) (ha : a ≠ .cond c) :
      (w, .cond c) ∉ s.queue (hash (.cond c)) := fun h' => ha (hInv.eq_of_mem h h').2
  have hTarget : (s'.pc t).target = wakeup := by rw [hPc']; rfl
  refine hInv.move hOther hPark (by rw [hPc, hPc']; rfl) (by rw [hPc]; rfl) hTarget (fun b w a h => ?_)
    (fun b w a h => ?_) (fun b => ?_) (fun b b' w a a' h h' => ?_) (fun w hw => ?_) fun b w a h => ?_
  · rcases (hMem b w a).mp h with ⟨hIn, -⟩ | ⟨hb, hIn⟩
    · exact hInv.place b w a hIn
    · rw [show a = .mutex m from hTo _ hIn, hb]
  · rcases (hMem b w a).mp h with ⟨hIn, ha⟩ | ⟨hb, hIn⟩
    · exact ⟨fun hw => hOut hIn ha ((hFrom w).mp (by simp [hw])), b, a, hIn, fun _ _ h => h⟩
    · refine ⟨fun hw => ?_, _, _, hTaken hIn, fun k hk _ => .inr ?_⟩
      · rw [hw, Option.toList_some, List.singleton_append, List.nodup_cons] at hNodup
        exact hNodup.1 (List.mem_map_of_mem (f := Prod.fst) hIn)
      · rw [hWait _ _ (hTaken hIn)] at hk
        cases hk
        exact hTo _ hIn
  · have hAll := (hPerm.nodup_iff).mpr (hInv.nodup _)
    rw [hQueue]
    simp only [State.moved, State.setQueue, update_apply]
    split_ifs with hTo hSame hSource
    · rw [List.map_append]
      exact hAll.sublist ((List.Sublist.refl _).append (List.sublist_append_right ..))
    · rw [List.map_append, List.nodup_append']
      refine ⟨hInv.nodup _, hNodup.sublist (List.sublist_append_right ..), fun w hIn hReq => ?_⟩
      obtain ⟨⟨w₁, a₁⟩, hNode₁, rfl⟩ := List.mem_map.mp hIn
      obtain ⟨⟨w₂, a₂⟩, hNode₂, hEq⟩ := List.mem_map.mp hReq
      obtain rfl : w₂ = w₁ := hEq
      exact hSame (hInv.once _ _ _ _ _ hNode₁ (hTaken hNode₂))
    · exact hAll.sublist (List.sublist_append_left ..)
    · exact hInv.nodup b
  · rcases (hMem b w a).mp h with ⟨h, ha⟩ | ⟨hb, h⟩ <;> rcases (hMem b' w a').mp h' with ⟨h', ha'⟩ | ⟨hb', h'⟩
    · exact hInv.once b b' w a a' h h'
    · exact absurd (hTaken h') (hOut h ha)
    · exact absurd (hTaken h) (hOut h' ha')
    · rw [hb, hb']
  · exact ⟨_, _, (hFrom w).mp (by simp [hw])⟩
  · by_cases ha : a = .cond c
    · rw [ha] at h
      have hb := hInv.place b w _ h
      rw [← hb] at h
      rcases List.mem_append.mp ((hFrom w).mpr h) with hw | hw
      · exact .inl (by simpa using hw)
      · obtain ⟨⟨w, a'⟩, hReq, rfl⟩ := List.mem_map.mp hw
        exact .inr ⟨_, _, (hMem _ w a').mpr (.inr ⟨rfl, hReq⟩)⟩
    · exact .inr ⟨b, a, (hMem b w a).mpr (.inl ⟨h, ha⟩)⟩

end Moved

theorem NodeInv.wake (hInv : NodeInv hash s) (hOther : ∀ t', t' ≠ t → s'.pc t' = s.pc t')
    (hPc : (s.pc t).target = some w) (hPc' : (s'.pc t).target = none)
    (hSelf : (s'.pc t).sleeps = (s.pc t).sleeps) (hQueue : s'.queue = s.queue)
    (hPark : s'.should_park = update s.should_park w false) : NodeInv hash s' := by
  obtain ⟨-, -, hNot⟩ := hInv.target t w hPc
  have hSleeps := pc_congr hOther hSelf
  have hTarget {t' v} (h : (s'.pc t').target = some v) : t' ≠ t ∧ (s.pc t').target = some v := by
    rcases eq_or_ne t' t with rfl | hNe
    · rw [hPc'] at h
      cases h
    · exact ⟨hNe, hOther t' hNe ▸ h⟩
  refine ⟨fun b v a h => hInv.place b v a (hQueue ▸ h), fun b v a h => ?_, fun b => hQueue ▸ hInv.nodup b,
    fun b b' v a a' h h' => hInv.once b b' v a a' (hQueue ▸ h) (hQueue ▸ h'), fun t' v h => ?_,
    fun t₁ t₂ v h₁ h₂ => hInv.target_inj t₁ t₂ v (hTarget h₁).2 (hTarget h₂).2, fun v k hk hv => ?_⟩
  · rw [hQueue] at h
    have hNe : v ≠ w := fun hv => hNot b a (hv ▸ h)
    rw [hPark, update_of_ne hNe, hSleeps]
    exact hInv.node b v a h
  · obtain ⟨hNe, h⟩ := hTarget h
    have hv : v ≠ w := fun hv => hNe (hInv.target_inj t' t w (hv ▸ h) hPc)
    rw [hPark, update_of_ne hv, hSleeps, hQueue]
    exact hInv.target t' v h
  · have hNe : v ≠ w := by
      rintro rfl
      rw [hPark, update_self] at hv
      cases hv
    rw [hPark, update_of_ne hNe] at hv
    rw [hQueue]
    rcases hInv.found v k ((hSleeps v).symm.trans hk) hv with h | ⟨t', h⟩
    · exact .inl h
    · refine .inr ⟨t', ?_⟩
      have ht : t' ≠ t := by
        rintro rfl
        exact hNe (Option.some.inj (h.symm.trans hPc))
      rw [hOther t' ht, h]

theorem NodeInv.rise (hInv : NodeInv hash s) (hOther : ∀ t', t' ≠ t → s'.pc t' = s.pc t')
    (hUp : s.should_park t = false) (hPc : (s.pc t).target = none) (hPc' : (s'.pc t).target = none)
    (hSelf : (s'.pc t).sleeps = none) (hQueue : s'.queue = s.queue)
    (hPark : s'.should_park = s.should_park) : NodeInv hash s' := by
  have hTarget := pc_congr hOther (f := Pc.target) (hPc'.trans hPc.symm)
  have hSleeps {v} (hv : s.should_park v = true) : (s'.pc v).sleeps = (s.pc v).sleeps := by
    have hNe : v ≠ t := by
      rintro rfl
      rw [hUp] at hv
      cases hv
    rw [hOther v hNe]
  obtain ⟨hPlace, hNode, hNodup, hOnce, hTargets, hInj, hFound⟩ := hInv
  refine ⟨by simpa only [hQueue], fun b v a h => ?_, by simpa only [hQueue], by simpa only [hQueue],
    fun t' v h => ?_, by simpa only [hTarget], fun v k hk hv => ?_⟩
  · rw [hQueue] at h
    have hv := (hNode b v a h).1
    rw [hPark, hSleeps hv]
    exact hNode b v a h
  · rw [hTarget] at h
    have hv := (hTargets t' v h).1
    rw [hPark, hQueue, hSleeps hv]
    exact hTargets t' v h
  · rw [hPark] at hv
    rw [hSleeps hv] at hk
    simpa only [hQueue, hTarget] using hFound v k hk hv

theorem NodeInv.step (hInv : NodeInv hash s) (hStep : Step hash t s s')
    (hWait : ∀ c m one, s.pc t = .requeue c m one → ∀ b w, (w, .cond c) ∈ s.queue b →
      (s.pc w).sleeps = some (.wait c m)) : NodeInv hash s' := by
  have hOther t' (hNe : t' ≠ t) := hStep.pc_of_ne hNe
  rcases hStep.nodeEffect with ⟨hQueue, hPark, hSleeps, hTarget⟩ | ⟨k, hPc, hPc', hQueue, hPark⟩ |
      ⟨u, data, more, rest, hPc, hPc', hDequeue, hQueue, hPark⟩ |
      ⟨c, m, one, wakeup, requeue, rest, hPc, hPc', hCollect, hQueue, hPark⟩ |
      ⟨w, hPc, hPc', hSleeps, hQueue, hPark⟩ | ⟨k, -, hUp, hPc, hPc', hSleeps, hQueue, hPark⟩
  · exact hInv.congr hQueue hPark (pc_congr hOther hSleeps) (pc_congr hOther hTarget)
  · exact hInv.enqueue hOther hPc hPc' hQueue hPark
  · exact hInv.find hOther hPc hPc' hDequeue hQueue hPark
  · exact hInv.requeue hOther hPc hPc' (hWait c m one hPc) hCollect hQueue hPark
  · exact hInv.wake hOther hPc hPc' hSleeps hQueue hPark
  · exact hInv.rise hOther hUp hPc hPc' hSleeps hQueue hPark

end Nodes

end Vyasa.Synchronization
