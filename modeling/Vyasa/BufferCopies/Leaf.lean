import Vyasa.BufferCopies.Inject

/-! What one leaf does to the buffer, and what the calls before and after it leave of the two
copies and of what is tracked about them. -/
namespace Vyasa.BufferCopies

open Mirror

variable {M V : Type}

/-! ### What is tracked -/

/-- A flag tracked as set or clear has that value at run time. -/
def FlagState.Holds (flag : FlagState) (b : Bool) : Prop :=
  (flag = .True → b = true) ∧ (flag = .False → b = false)

structure State.Sound (state : State) (buf : Buffer V) : Prop where
  device_dirty : state.device_dirty.Holds buf.far_dirty
  host_dirty : state.host_dirty.Holds buf.near_dirty
  device_allocation_exists : state.device_allocation_exists.Holds buf.far.isSome
  current_device : state.device_allocation_exists = .True →
    state.current_device ≠ .None ∧ buf.far.map Prod.fst = some state.current_device

def Event.Fresh (e : Event V) : Prop := e.seen = some e.latest

/-- Every use of the buffer saw the most recent write. -/
def Run.Fresh (r : Run M V) : Prop := ∀ e ∈ r.trace, e.Fresh

/-- Where the run ended. -/
def Outcome.last : Outcome M V → Run M V
  | .ok r => r
  | .error (_, r) => r

theorem FlagState.Holds.union {flag other : FlagState} {b : Bool} (h : flag.Holds b) :
    (if flag ≠ other then FlagState.Unknown else flag).Holds b := by
  split
  · exact ⟨by simp, by simp⟩
  · exact h

/-- Joining keeps only what both branches know, so it is sound on either path. -/
theorem State.Sound.union_with {state other : State} {buf : Buffer V} (h : state.Sound buf) :
    (state.union_with other).Sound buf where
  device_dirty := h.device_dirty.union
  host_dirty := h.host_dirty.union
  device_allocation_exists := by
    simp only [State.union_with]
    split
    · exact ⟨by simp, by simp⟩
    · exact h.device_allocation_exists
  current_device := by
    simp only [State.union_with]
    split
    · simp
    · exact h.current_device

theorem State.union_with_comm (state other : State) :
    state.union_with other = other.union_with state := by
  simp only [State.union_with, State.mk.injEq]
  refine ⟨?_, ?_, ?_, ?_⟩ <;> grind

/-! ### The usage of a statement -/

theorem loopDevice_ne_none (device_api : DeviceAPI) : loopDevice device_api .Host ≠ .None := by
  unfold loopDevice
  split
  · assumption
  · simp

theorem none_not_mem_usage (s : Stmt M V) :
    .None ∉ (FindBufferUsage .Host s).devices_touched := by
  induction s with
  | undefined => simp [FindBufferUsage]
  | Store a | Evaluate a =>
    simp only [FindBufferUsage, Access.usage]
    split <;> simp
  | AssertStmt c =>
    simp only [FindBufferUsage, Value.usage]
    split <;> simp
  | For device_api a =>
    simp only [FindBufferUsage, Access.usage]
    split
    · simpa using (loopDevice_ne_none device_api).symm
    · simp
  | Block first rest ihFirst ihRest =>
    simp only [FindBufferUsage, Usage.union, Finset.mem_union, not_or]
    exact ⟨ihFirst, ihRest⟩
  | LetStmt name value body ih =>
    simp only [FindBufferUsage, Usage.union, Value.usage, Finset.mem_union, not_or]
    exact ⟨by split <;> simp, ih⟩
  | ProducerConsumer name is_producer body ih => exact ih
  | IfThenElse condition then_case else_case ihThen ihElse =>
    simp only [FindBufferUsage, Usage.union, Value.usage, Finset.mem_union, not_or]
    exact ⟨by split <;> simp, ihThen, ihElse⟩

theorem Access.writing_subset (d : DeviceAPI) (a : Access M V) :
    (a.usage d).devices_writing ⊆ (a.usage d).devices_touched := by
  cases a <;> simp [Access.usage, Access.writes, Access.touches]

theorem writing_subset_touched (s : Stmt M V) :
    (FindBufferUsage .Host s).devices_writing ⊆ (FindBufferUsage .Host s).devices_touched := by
  induction s with
  | undefined => simp [FindBufferUsage]
  | Store a | Evaluate a | For device_api a => exact Access.writing_subset _ a
  | AssertStmt c => exact Finset.empty_subset _
  | Block first rest ihFirst ihRest => exact Finset.union_subset_union ihFirst ihRest
  | LetStmt name value body ih => exact Finset.union_subset_union (Finset.empty_subset _) ih
  | ProducerConsumer name is_producer body ih => exact ih
  | IfThenElse condition then_case else_case ihThen ihElse =>
    exact Finset.union_subset_union (Finset.empty_subset _)
      (Finset.union_subset_union ihThen ihElse)

theorem Value.usage_subset {α : Type} (v : Value M V α) :
    (v.usage .Host).devices_touched ⊆ {.Host} := by
  simp only [Value.usage]
  split <;> simp

/-- Without a loop there is no way onto a device. -/
theorem touched_of_no_loops {s : Stmt M V} (h : HasLoops s = false) :
    (FindBufferUsage .Host s).devices_touched ⊆ {.Host} := by
  induction s with
  | undefined => simp [FindBufferUsage]
  | Store a | Evaluate a =>
    simp only [FindBufferUsage, Access.usage]
    split <;> simp
  | AssertStmt c => exact c.usage_subset
  | For device_api a => simp [HasLoops] at h
  | Block first rest ihFirst ihRest =>
    simp only [HasLoops, Bool.or_eq_false_iff] at h
    exact Finset.union_subset (ihFirst h.1) (ihRest h.2)
  | LetStmt name value body ih => exact Finset.union_subset value.usage_subset (ih h)
  | ProducerConsumer name is_producer body ih => exact ih h
  | IfThenElse condition then_case else_case ihThen ihElse =>
    simp only [HasLoops, Bool.or_eq_false_iff] at h
    exact Finset.union_subset condition.usage_subset
      (Finset.union_subset (ihThen h.1) (ihElse h.2))

theorem Value.usage_free {α : Type} {v : Value M V α} (h : v.loads = false) :
    (v.usage .Host).devices_touched = ∅ := by
  simp [Value.usage, h]

theorem Value.run_free {α : Type} {v : Value M V α} (h : v.loads = false) (env : Env)
    (r : Run M V) : (v.run env r).2 = r := by
  cases v with
  | free value => rfl
  | loading value => cases h

/-! ### Runs of a leaf -/

theorem Run.Fresh.note {r : Run M V} {d : DeviceAPI} (h : r.Fresh)
    (hSees : r.sees d = some r.buf.latest) : (r.note d).Fresh := by
  intro e he
  rcases List.mem_cons.mp he with rfl | he
  · exact hSees
  · exact h e he

/-- Nothing on a device comes after a write on the host. -/
def DeviceBeforeHost : Stmt M V → Prop
  | .Block first rest => DeviceBeforeHost first ∧ DeviceBeforeHost rest ∧
      (.Host ∈ (FindBufferUsage .Host first).devices_writing →
        (FindBufferUsage .Host rest).devices_touched ⊆ {.Host})
  | .LetStmt _ _ body | .ProducerConsumer _ _ body => DeviceBeforeHost body
  | .IfThenElse _ then_case else_case => DeviceBeforeHost then_case ∧ DeviceBeforeHost else_case
  | _ => True

theorem deviceBeforeHost_of_touched {s : Stmt M V}
    (h : (FindBufferUsage .Host s).devices_touched ⊆ {.Host}) : DeviceBeforeHost s := by
  induction s with
  | undefined | Store a | Evaluate a | AssertStmt c | For device_api a => trivial
  | Block first rest ihFirst ihRest =>
    obtain ⟨hFirst, hRest⟩ := Finset.union_subset_iff.mp h
    exact ⟨ihFirst hFirst, ihRest hRest, fun _ => hRest⟩
  | LetStmt name value body ih => exact ih (Finset.union_subset_iff.mp h).2
  | ProducerConsumer name is_producer body ih => exact ih h
  | IfThenElse condition then_case else_case ihThen ihElse =>
    obtain ⟨hThen, hElse⟩ := Finset.union_subset_iff.mp (Finset.union_subset_iff.mp h).2
    exact ⟨ihThen hThen, ihElse hElse⟩

/-- Both sides hold the latest contents for what a leaf is about to use. -/
structure Run.Ready (r : Run M V) (usage : Usage) : Prop where
  near : .Host ∈ usage.devices_touched → r.buf.near = r.buf.latest
  far : ∀ d ∈ usage.devices_touched, d ≠ .Host → r.buf.far = some (d, r.buf.latest)

/-- What a leaf that writes on the host at most leaves of the buffer. -/
structure Run.After (r r' : Run M V) (usage : Usage) : Prop where
  near : r.buf.near = r.buf.latest → r'.buf.near = r'.buf.latest
  far : r'.buf.far = r.buf.far
  near_dirty : r'.buf.near_dirty = r.buf.near_dirty
  far_dirty : r'.buf.far_dirty = r.buf.far_dirty
  unwritten : .Host ∉ usage.devices_writing → r'.buf = r.buf

theorem Run.After.of_buf {r r' : Run M V} {usage : Usage} (h : r'.buf = r.buf) :
    r.After r' usage := by
  refine ⟨?_, ?_, ?_, ?_, fun _ => h⟩ <;> rw [h]
  exact id

theorem Run.After.trans {r₁ r₂ r₃ : Run M V} {u v : Usage} (h : r₁.After r₂ u)
    (h' : r₂.After r₃ v) : r₁.After r₃ (u.union v) where
  near hNear := h'.near (h.near hNear)
  far := h'.far.trans h.far
  near_dirty := h'.near_dirty.trans h.near_dirty
  far_dirty := h'.far_dirty.trans h.far_dirty
  unwritten hNot := by
    simp only [Usage.union, Finset.mem_union, not_or] at hNot
    exact (h'.unwritten hNot.2).trans (h.unwritten hNot.1)

theorem Run.sees_of_ready {r : Run M V} {usage : Usage} {d : DeviceAPI} (h : r.Ready usage)
    (hd : d ∈ usage.devices_touched) : r.sees d = some r.buf.latest := by
  by_cases hHost : d = .Host
  · subst hHost
    simp [Run.sees, h.near hd]
  · simp [Run.sees, hHost, h.far d hd hHost]

theorem Value.run_ready {α : Type} {env : Env} {r : Run M V} {v : Value M V α}
    (h : r.Ready (v.usage .Host)) (hFresh : r.Fresh) :
    (v.run env r).2.Fresh ∧ (v.run env r).2.buf = r.buf := by
  cases v with
  | free value => exact ⟨hFresh, rfl⟩
  | loading value =>
    refine ⟨hFresh.note (Run.sees_of_ready h ?_), rfl⟩
    simp [Value.usage, Value.loads]

/-- One use of the buffer with both sides up to date. -/
theorem Access.run_ready {d : DeviceAPI} {env : Env} {r : Run M V} {a : Access M V}
    (h : r.Ready (a.usage d)) (hFresh : r.Fresh) :
    (a.run d env r).last.Fresh ∧ ∀ r', a.run d env r = .ok r' →
      (a.writes = false → r'.buf = r.buf) ∧
      (a.writes = true → ∃ update, r'.buf = r.write d update) := by
  cases a with
  | none effect =>
    refine ⟨hFresh, ?_⟩
    rintro r' ⟨⟩
    exact ⟨fun _ => rfl, by simp [Access.writes]⟩
  | load effect =>
    have hSees : r.sees d = some r.buf.latest :=
      Run.sees_of_ready h (by simp [Access.usage, Access.touches])
    simp only [Access.run, hSees]
    refine ⟨hFresh.note hSees, ?_⟩
    rintro r' ⟨⟩
    exact ⟨fun _ => rfl, by simp [Access.writes]⟩
  | store effect =>
    have hSees : r.sees d = some r.buf.latest :=
      Run.sees_of_ready h (by simp [Access.usage, Access.touches])
    simp only [Access.run, hSees]
    refine ⟨hFresh.note hSees, ?_⟩
    rintro r' ⟨⟩
    exact ⟨by simp [Access.writes], fun _ => ⟨_, rfl⟩⟩

/-- A use that writes on the host at most. -/
theorem Access.run_after {d : DeviceAPI} {env : Env} {r r' : Run M V} {a : Access M V}
    (h : r.Ready (a.usage d)) (hFresh : r.Fresh)
    (hWriting : (a.usage d).devices_writing ⊆ {.Host}) (hRun : a.run d env r = .ok r') :
    r.After r' (a.usage d) := by
  obtain ⟨hSame, hWrite⟩ := (Access.run_ready h hFresh).2 r' hRun
  cases hw : a.writes with
  | false =>
    exact .of_buf (hSame hw)
  | true =>
    obtain rfl : d = .Host := by simpa [Access.usage, hw] using hWriting
    obtain ⟨update, hBuf⟩ := hWrite hw
    have hBuf' : r'.buf = r.buf.writeNear update := by simpa [Run.write] using hBuf
    refine ⟨fun hNear => ?_, by rw [hBuf']; rfl, by rw [hBuf']; rfl, by rw [hBuf']; rfl, ?_⟩
    · rw [hBuf']
      simp [Mirror.writeNear, hNear]
    · intro hNot
      simp [Access.usage, hw] at hNot

theorem Run.After.rebase {r r₁ r' : Run M V} {u v : Usage} (h : r₁.After r' u)
    (hBuf : r₁.buf = r.buf) (hSub : u.devices_writing ⊆ v.devices_writing) : r.After r' v := by
  obtain ⟨hNear, hFar, hNearDirty, hFarDirty, hUnwritten⟩ := h
  rw [hBuf] at hNear hFar hNearDirty hFarDirty hUnwritten
  exact ⟨hNear, hFar, hNearDirty, hFarDirty, fun hNot => hUnwritten fun hd => hNot (hSub hd)⟩

theorem Run.Ready.union {r : Run M V} {u v : Usage} (h : r.Ready (u.union v)) :
    r.Ready u ∧ r.Ready v := by
  simp only [Usage.union] at h
  refine ⟨⟨fun hd => h.near ?_, fun d hd => h.far d ?_⟩, ⟨fun hd => h.near ?_, fun d hd => h.far d ?_⟩⟩
  · exact Finset.mem_union_left _ hd
  · exact Finset.mem_union_left _ hd
  · exact Finset.mem_union_right _ hd
  · exact Finset.mem_union_right _ hd

theorem Run.Ready.of_buf {r r' : Run M V} {u : Usage} (h : r.Ready u) (hBuf : r'.buf = r.buf) :
    r'.Ready u := by
  constructor
  · rw [hBuf]
    exact h.near
  · rw [hBuf]
    exact h.far

/-- After a part that writes on the host, what follows may only use the host. -/
theorem Run.Ready.after {r r' : Run M V} {u v : Usage} (h : r.Ready v) (hAfter : r.After r' u)
    (hOrder : .Host ∈ u.devices_writing → v.devices_touched ⊆ {.Host}) : r'.Ready v := by
  constructor
  · intro hd
    exact hAfter.near (h.near hd)
  · intro d hd hNe
    have hNot : .Host ∉ u.devices_writing := by
      intro hHost
      exact hNe (Finset.mem_singleton.mp (hOrder hHost hd))
    rw [hAfter.unwritten hNot]
    exact h.far d hd hNe

theorem subset_of_union {u v : Usage} {S : Finset DeviceAPI}
    (h : (u.union v).devices_writing ⊆ S) : u.devices_writing ⊆ S ∧ v.devices_writing ⊆ S :=
  Finset.union_subset_iff.mp h

/-- A leaf that starts with both sides up to date, uses the devices first and then writes on
the host at most, sees the latest contents throughout. -/
theorem Stmt.run_ready {env : Env} {r : Run M V} {s : Stmt M V} (hOrder : DeviceBeforeHost s)
    (hWriting : (FindBufferUsage .Host s).devices_writing ⊆ {.Host})
    (h : r.Ready (FindBufferUsage .Host s)) (hFresh : r.Fresh) :
    (s.run env r).last.Fresh ∧
      ∀ r', s.run env r = .ok r' → r.After r' (FindBufferUsage .Host s) := by
  induction s generalizing env r with
  | undefined =>
    refine ⟨hFresh, ?_⟩
    rintro r' ⟨⟩
    exact .of_buf rfl
  | Store a | Evaluate a | For device_api a =>
    exact ⟨(Access.run_ready h hFresh).1, fun r' => Access.run_after h hFresh hWriting⟩
  | AssertStmt c =>
    obtain ⟨hFresh', hBuf⟩ := @Value.run_ready M V _ env r c h hFresh
    simp only [Stmt.run]
    split
    · refine ⟨hFresh', ?_⟩
      rintro r' ⟨⟩
      exact .of_buf hBuf
    · exact ⟨hFresh', fun r' hRun => nomatch hRun⟩
  | Block first rest ihFirst ihRest =>
    obtain ⟨hFirst, hRest, hCross⟩ := hOrder
    obtain ⟨hWritingFirst, hWritingRest⟩ := subset_of_union hWriting
    obtain ⟨hReadyFirst, hReadyRest⟩ := h.union
    obtain ⟨hFreshFirst, hAfterFirst⟩ := @ihFirst env r hFirst hWritingFirst hReadyFirst hFresh
    simp only [Stmt.run]
    cases hRun : first.run env r with
    | error e =>
      rw [hRun] at hFreshFirst
      exact ⟨hFreshFirst, fun r' hRun => nomatch hRun⟩
    | ok r₁ =>
      rw [hRun] at hFreshFirst
      have hAfter := hAfterFirst r₁ hRun
      obtain ⟨hFreshRest, hAfterRest⟩ :=
        @ihRest env r₁ hRest hWritingRest (hReadyRest.after hAfter hCross) hFreshFirst
      exact ⟨hFreshRest, fun r' hRun' => hAfter.trans (hAfterRest r' hRun')⟩
  | LetStmt name value body ih =>
    obtain ⟨hReadyValue, hReadyBody⟩ := h.union
    obtain ⟨hFreshValue, hBuf⟩ := @Value.run_ready M V _ env r value hReadyValue hFresh
    obtain ⟨hFreshBody, hAfterBody⟩ := @ih (env.bind name (value.run env r).1) _ hOrder
      (subset_of_union hWriting).2 (hReadyBody.of_buf hBuf) hFreshValue
    refine ⟨hFreshBody, fun r' hRun => ?_⟩
    exact (hAfterBody r' hRun).rebase hBuf Finset.subset_union_right
  | ProducerConsumer name is_producer body ih => exact ih hOrder hWriting h hFresh
  | IfThenElse condition then_case else_case ihThen ihElse =>
    obtain ⟨hReadyCondition, hReadyCases⟩ := h.union
    obtain ⟨hFreshCondition, hBuf⟩ :=
      @Value.run_ready M V _ env r condition hReadyCondition hFresh
    obtain ⟨hReadyThen, hReadyElse⟩ := (hReadyCases.of_buf hBuf).union
    obtain ⟨hWritingThen, hWritingElse⟩ := subset_of_union (subset_of_union hWriting).2
    have hThen := @ihThen env _ hOrder.1 hWritingThen hReadyThen hFreshCondition
    have hElse := @ihElse env _ hOrder.2 hWritingElse hReadyElse hFreshCondition
    simp only [Stmt.run]
    split
    · refine ⟨hThen.1, fun r' hRun => (hThen.2 r' hRun).rebase hBuf ?_⟩
      exact Finset.subset_union_left.trans Finset.subset_union_right
    · refine ⟨hElse.1, fun r' hRun => (hElse.2 r' hRun).rebase hBuf ?_⟩
      exact Finset.subset_union_right.trans Finset.subset_union_right

/-! ### The runtime calls -/

section

variable {buf buf' : Buffer V} {d : DeviceAPI}

theorem validate_bind_ok {f : Unit → Except RuntimeError (Buffer V)}
    (h : (debug_log_and_validate_buf buf >>= f) = .ok buf') : f () = .ok buf' := by
  unfold debug_log_and_validate_buf at h
  split at h
  · cases h
  · exact h

variable [Inhabited V]

theorem copy_to_host_spec (hBuf : buf.Coherent default) (h : halide_copy_to_host buf = .ok buf') :
    buf'.Coherent default ∧ buf'.far_dirty = false ∧ buf'.near_dirty = buf.near_dirty ∧
      buf'.far = buf.far := by
  have h := validate_bind_ok h
  simp only [copy_to_host_already_locked] at h
  split at h
  · rename_i hClean
    cases h
    exact ⟨hBuf, by simpa using hClean, rfl, rfl⟩
  · rename_i hDirty
    split at h
    · cases h
    · split at h
      · cases h
      · rename_i hSome
        cases h
        obtain ⟨⟨d, v⟩, hFar⟩ := Option.ne_none_iff_exists'.mp (by simpa using hSome)
        refine ⟨hBuf.pull (by simpa using hDirty) hFar, ?_⟩
        simp [Mirror.pull, hFar]

theorem device_malloc_spec (hBuf : buf.Coherent default)
    (h : halide_device_malloc buf d = .ok buf') :
    buf'.Coherent default ∧ buf'.far_dirty = buf.far_dirty ∧ buf'.near_dirty = buf.near_dirty ∧
      buf'.far.map Prod.fst = some d := by
  have h := validate_bind_ok h
  split at h
  · rename_i current v hFar
    split at h
    · cases h
    · rename_i hSame
      cases h
      refine ⟨hBuf, rfl, rfl, ?_⟩
      simpa [hFar] using hSame
  · rename_i hFar
    cases h
    exact ⟨hBuf.alloc hFar, rfl, rfl, rfl⟩

theorem copy_to_device_spec (hBuf : buf.Coherent default)
    (h : halide_copy_to_device buf d = .ok buf') :
    buf'.Coherent default ∧ buf'.far_dirty = buf.far_dirty ∧ buf'.near_dirty = false ∧
      buf'.far.map Prod.fst = some d := by
  have h := validate_bind_ok h
  split at h
  · cases h
  · rename_i hSame
    have hAlloc : ∃ b : Buffer V, b.Coherent default ∧ b.far_dirty = buf.far_dirty ∧
        b.far.map Prod.fst = some d ∧ (if b.near_dirty then
          if b.far_dirty then Except.error RuntimeError.copy_to_device_failed else .ok b.push
          else .ok b) = .ok buf' := by
      split at h
      · cases hMalloc : halide_device_malloc buf d with
        | error e =>
          rw [hMalloc] at h
          cases h
        | ok b =>
          rw [hMalloc] at h
          obtain ⟨hb, hFarDirty, -, hFar⟩ := device_malloc_spec hBuf hMalloc
          exact ⟨b, hb, hFarDirty, hFar, h⟩
      · rename_i hSome
        obtain ⟨c, hFar⟩ := Option.ne_none_iff_exists'.mp (by simpa using hSome)
        refine ⟨buf, hBuf, rfl, ?_, h⟩
        simpa [hFar] using hSame
    obtain ⟨b, hb, hFarDirty, hPlace, hPush⟩ := hAlloc
    obtain ⟨⟨d', v⟩, hFar, hd⟩ := Option.map_eq_some_iff.mp hPlace
    obtain rfl : d' = d := hd
    split at hPush
    · rename_i hDirty
      split at hPush
      · cases hPush
      · cases hPush
        exact ⟨hb.push hDirty hFar, hFarDirty, rfl, by simp [Mirror.push, hFar]⟩
    · rename_i hDirty
      cases hPush
      exact ⟨hb, hFarDirty, by simpa using hDirty, hPlace⟩

/-- Freeing the device copy while the host one is ahead. -/
theorem device_free_spec (hBuf : buf.Coherent default) (hDirty : buf.near_dirty = true)
    (h : halide_device_free buf = .ok buf') :
    buf'.Coherent default ∧ buf'.far_dirty = false ∧ buf'.near_dirty = true ∧ buf'.far = none := by
  have h := validate_bind_ok h
  have hClean := hBuf.one_dirty hDirty
  split at h
  · cases h
    exact ⟨hBuf.drop hDirty, hClean, hDirty, rfl⟩
  · rename_i hNone
    cases h
    have hSame : ({ buf with far_dirty := false } : Buffer V) = buf := by rw [← hClean]
    rw [hSame]
    exact ⟨hBuf, hClean, hDirty, by simpa using hNone⟩

/-! ### Around a leaf -/

/-- Whatever the calls leave behind, if none of them fails, satisfies `P`. -/
def Leads (calls : List Call) (buf : Buffer V) (P : Buffer V → Prop) : Prop :=
  ∀ buf', calls.foldlM Call.perform buf = .ok buf' → P buf'

theorem leads_nil {P : Buffer V → Prop} (h : P buf) : Leads [] buf P := by
  rintro buf' ⟨⟩
  exact h

theorem leads_cons {c : Call} {calls : List Call} {P : Buffer V → Prop}
    (h : ∀ b, c.perform buf = .ok b → Leads calls b P) : Leads (c :: calls) buf P := by
  intro buf' hRun
  rw [List.foldlM_cons] at hRun
  cases hb : c.perform buf with
  | error e =>
    rw [hb] at hRun
    cases hRun
  | ok b =>
    rw [hb] at hRun
    exact h b hb buf' hRun

theorem leads_append {calls calls' : List Call} {P Q : Buffer V → Prop} (h : Leads calls buf P)
    (h' : ∀ b, P b → Leads calls' b Q) : Leads (calls ++ calls') buf Q := by
  intro buf' hRun
  rw [List.foldlM_append] at hRun
  cases hb : calls.foldlM Call.perform buf with
  | error e =>
    rw [hb] at hRun
    cases hRun
  | ok b =>
    rw [hb] at hRun
    exact h' b (h b hb) buf' hRun

theorem findTouching_foldlM {l : List DeviceAPI} {t t' : DeviceAPI}
    (h : l.foldlM findTouching t = some t') :
    (t ≠ .None → t' = t) ∧ ∀ d ∈ l, d ≠ .Host → d ≠ .None → t' = d := by
  induction l generalizing t with
  | nil =>
    cases h
    exact ⟨fun _ => rfl, by simp⟩
  | cons head l ih =>
    rw [List.foldlM_cons] at h
    unfold findTouching at h
    split at h
    · rename_i hHost
      obtain ⟨hKept, hRest⟩ := ih h
      refine ⟨hKept, ?_⟩
      intro d hd hNe hNone
      rcases List.mem_cons.mp hd with rfl | hd
      · exact absurd hHost hNe
      · exact hRest d hd hNe hNone
    · split at h
      · rename_i hStart
        obtain ⟨hKept, hRest⟩ := ih h
        refine ⟨fun hNe => absurd hStart hNe, ?_⟩
        intro d hd hNe hNone
        rcases List.mem_cons.mp hd with rfl | hd
        · exact hKept hNone
        · exact hRest d hd hNe hNone
      · cases h

theorem mem_all_device_apis (d : DeviceAPI) : d ∈ all_device_apis := by
  cases d <;> decide

/-- There is one touching device, if any. -/
theorem touchingDevice_eq {touched : Finset DeviceAPI} {t : DeviceAPI}
    (h : touchingDevice touched = some t) (hd : d ∈ touched) (hHost : d ≠ .Host)
    (hNone : d ≠ .None) : t = d :=
  (findTouching_foldlM h).2 d (by simp [mem_all_device_apis, hd]) hHost hNone

theorem card_gt_iff {touched : Finset DeviceAPI} :
    (touched.card > if DeviceAPI.Host ∈ touched then 1 else 0) ↔ ∃ d ∈ touched, d ≠ .Host := by
  split
  · rename_i hHost
    constructor
    · intro hCard
      exact Finset.exists_mem_ne hCard .Host
    · rintro ⟨d, hd, hNe⟩
      exact Finset.one_lt_card.mpr ⟨d, hd, .Host, hHost, hNe⟩
  · rename_i hHost
    constructor
    · intro hCard
      obtain ⟨d, hd⟩ := Finset.card_pos.mp hCard
      exact ⟨d, hd, fun hEq => hHost (hEq ▸ hd)⟩
    · rintro ⟨d, hd, -⟩
      exact Finset.card_pos.mpr ⟨d, hd⟩

theorem touchingDevice_mem {touched : Finset DeviceAPI} {t : DeviceAPI}
    (h : touchingDevice touched = some t) (hNone : t ≠ .None) : t ∈ touched ∧ t ≠ .Host := by
  have hFold : ∀ (l : List DeviceAPI) (start : DeviceAPI), l.foldlM findTouching start = some t →
      t = start ∨ (t ∈ l ∧ t ≠ .Host) := by
    intro l
    induction l with
    | nil =>
      intro start hRun
      cases hRun
      exact .inl rfl
    | cons head l ih =>
      intro start hRun
      rw [List.foldlM_cons] at hRun
      unfold findTouching at hRun
      split at hRun
      · exact (ih start hRun).imp_right fun h => ⟨List.mem_cons_of_mem _ h.1, h.2⟩
      · rename_i hHost
        split at hRun
        · rcases ih head hRun with rfl | h
          · exact .inr ⟨List.mem_cons_self, hHost⟩
          · exact .inr ⟨List.mem_cons_of_mem _ h.1, h.2⟩
        · cases hRun
  rcases hFold _ _ h with hEq | ⟨hMem, hHost⟩
  · exact absurd hEq hNone
  · exact ⟨by simpa [mem_all_device_apis] using hMem, hHost⟩

/-- The tests `do_copies` makes, in the terms of the usage. -/
structure Needs.Spec (n : Needs) (state : State) (usage : Usage) : Prop where
  touching : touchingDevice usage.devices_touched = some n.touching_device
  device_flip : n.device_flip = true ↔ state.device_allocation_exists ≠ .False ∧
    state.current_device ≠ n.touching_device ∧ state.current_device ≠ .None ∧
    n.touching_device ≠ .None
  copy_to_device : n.copy_to_device = true ↔ (∃ d ∈ usage.devices_touched, d ≠ .Host) ∧
    (state.host_dirty ≠ .False ∨ n.device_flip = true)
  device_malloc : n.device_malloc = true ↔ (∃ d ∈ usage.devices_touched, d ≠ .Host) ∧
    state.device_allocation_exists ≠ .True ∧ n.copy_to_device = false
  copy_to_host : n.copy_to_host = true ↔
    (.Host ∈ usage.devices_touched ∨ n.device_flip = true) ∧ state.device_dirty ≠ .False
  host_dirty : n.host_dirty = true ↔
    .Host ∈ usage.devices_writing ∧ state.host_dirty ≠ .True
  device_dirty : n.device_dirty = true ↔
    (usage.devices_writing.card > if DeviceAPI.Host ∈ usage.devices_touched then 1 else 0) ∧
      state.device_dirty ≠ .True

theorem needs_spec {n : Needs} {state : State} {usage : Usage} (h : needs state usage = some n) :
    n.Spec state usage := by
  simp only [needs, Option.bind_eq_bind, Option.bind_eq_some_iff, Option.some.injEq] at h
  obtain ⟨t, ht, rfl⟩ := h
  constructor
  · exact ht
  · simp [and_assoc]
  · simp only [decide_eq_true_eq, Bool.and_eq_true, card_gt_iff]
    simp
  · simp only [decide_eq_true_eq, Bool.and_eq_true, card_gt_iff, bne_iff_ne, Bool.not_eq_true',
      and_assoc]
  · simp
  · simp
  · simp

theorem Needs.before_fst (n : Needs) (state : State) :
    (n.before state).1 = (if n.copy_to_host then [.copy_to_host] else []) ++
      ((if n.device_flip then [.host_dirty, .device_free] else []) ++
        ((if n.copy_to_device then [.copy_to_device n.touching_device] else []) ++
          (if n.device_malloc then [.device_malloc n.touching_device] else []))) := by
  obtain ⟨t, malloc, flip, toDevice, toHost, -, -⟩ := n
  cases malloc <;> cases flip <;> cases toDevice <;> cases toHost <;> rfl

theorem Needs.before_snd (n : Needs) (state : State) :
    (n.before state).2 =
      { device_dirty := if n.copy_to_host || n.device_flip then .False else state.device_dirty
        host_dirty := if n.copy_to_device then .False else state.host_dirty
        device_allocation_exists := if n.copy_to_device || n.device_malloc then .True
          else if n.device_flip then .False else state.device_allocation_exists
        current_device := if n.copy_to_device || n.device_malloc then n.touching_device
          else state.current_device } := by
  obtain ⟨t, malloc, flip, toDevice, toHost, -, -⟩ := n
  cases malloc <;> cases flip <;> cases toDevice <;> cases toHost <;> rfl

/-- Where the buffer stands once the calls before a leaf are made. -/
structure Prepared (usage : Usage) (state : State) (buf : Buffer V) : Prop where
  coherent : buf.Coherent default
  sound : state.Sound buf
  host : .Host ∈ usage.devices_touched → buf.far_dirty = false
  device : ∀ d ∈ usage.devices_touched, d ≠ .Host →
    buf.near_dirty = false ∧ buf.far.map Prod.fst = some d

variable {n : Needs} {state : State} {usage : Usage}

theorem leads_copy_to_host (hn : n.Spec state usage) (hBuf : buf.Coherent default)
    (hSound : state.Sound buf) :
    Leads (if n.copy_to_host then [.copy_to_host] else []) buf fun b => b.Coherent default ∧
      b.near_dirty = buf.near_dirty ∧ b.far = buf.far ∧
      (.Host ∈ usage.devices_touched ∨ n.device_flip = true → b.far_dirty = false) ∧
      (if n.copy_to_host then .False else state.device_dirty : FlagState).Holds b.far_dirty := by
  cases hCopy : n.copy_to_host with
  | true =>
    refine leads_cons fun b hb => leads_nil ?_
    obtain ⟨hCoherent, hClean, hNear, hFar⟩ := copy_to_host_spec hBuf hb
    exact ⟨hCoherent, hNear, hFar, fun _ => hClean, ⟨by simp, fun _ => hClean⟩⟩
  | false =>
    refine leads_nil ⟨hBuf, rfl, rfl, ?_, hSound.device_dirty⟩
    intro hTouched
    apply hSound.device_dirty.2
    by_contra hDirty
    have := hn.copy_to_host.mpr ⟨hTouched, hDirty⟩
    simp [hCopy] at this

/-- The device a leaf touches is the touching one. -/
theorem Needs.Spec.device (hn : n.Spec state usage) (hNone : .None ∉ usage.devices_touched)
    (hd : d ∈ usage.devices_touched) (hHost : d ≠ .Host) : n.touching_device = d :=
  touchingDevice_eq hn.touching hd hHost fun hEq => hNone (hEq ▸ hd)

theorem Needs.Spec.copies_of_flip (hn : n.Spec state usage) (hFlip : n.device_flip = true) :
    n.touching_device ≠ .None ∧ n.copy_to_device = true := by
  obtain ⟨-, -, -, hTouching⟩ := hn.device_flip.mp hFlip
  obtain ⟨hMem, hHost⟩ := touchingDevice_mem hn.touching hTouching
  exact ⟨hTouching, hn.copy_to_device.mpr ⟨⟨_, hMem, hHost⟩, .inr hFlip⟩⟩

theorem Needs.Spec.not_malloc (hn : n.Spec state usage) (hDevice : n.copy_to_device = true) :
    n.device_malloc = false := by
  by_contra hMalloc
  have := (hn.device_malloc.mp (by simpa using hMalloc)).2.2
  simp [hDevice] at this

/-- A flip goes through the host: mark it, free the old copy, copy to the new device. -/
theorem leads_flip (hn : n.Spec state usage) (hNone : .None ∉ usage.devices_touched)
    (hFlip : n.device_flip = true) (hBuf : buf.Coherent default) (hClean : buf.far_dirty = false) :
    Leads ([.host_dirty, .device_free] ++ [.copy_to_device n.touching_device]) buf
      (Prepared usage (n.before state).2) := by
  obtain ⟨hTouching, hDevice⟩ := hn.copies_of_flip hFlip
  refine leads_cons fun b₁ hb₁ => leads_cons fun b₂ hb₂ => leads_cons fun b₃ hb₃ => leads_nil ?_
  cases hb₁
  have hMarked := @coherent_markNear _ _ default _ hClean (hBuf.near_latest hClean)
  obtain ⟨hCoherent₂, hClean₂, -, -⟩ := device_free_spec hMarked rfl hb₂
  obtain ⟨hCoherent₃, hClean₃, hNear₃, hPlace⟩ := copy_to_device_spec hCoherent₂ hb₃
  have hClean' : b₃.far_dirty = false := hClean₃.trans hClean₂
  refine ⟨hCoherent₃, ?_, fun _ => hClean', ?_⟩
  · rw [Needs.before_snd, hFlip, hDevice]
    refine ⟨⟨by simp, fun _ => hClean'⟩, ⟨by simp, fun _ => hNear₃⟩, ⟨fun _ => ?_, by simp⟩, fun _ => ?_⟩
    · rw [← Option.isSome_map, hPlace]
      rfl
    · exact ⟨by simpa using hTouching, by simpa using hPlace⟩
  · intro d hd hHost
    exact ⟨hNear₃, hn.device hNone hd hHost ▸ hPlace⟩

/-- Without a flip the device side is brought up to date in place, or known to be so. -/
theorem leads_device (hn : n.Spec state usage) (hNone : .None ∉ usage.devices_touched)
    (hFlip : n.device_flip = false) (hBuf : buf.Coherent default)
    (hHost : .Host ∈ usage.devices_touched → buf.far_dirty = false)
    (hDirty : (if n.copy_to_host then .False else state.device_dirty : FlagState).Holds
      buf.far_dirty)
    (hNear : state.host_dirty.Holds buf.near_dirty)
    (hExists : state.device_allocation_exists.Holds buf.far.isSome)
    (hCurrent : state.device_allocation_exists = .True → state.current_device ≠ .None ∧
      buf.far.map Prod.fst = some state.current_device) :
    Leads ((if n.copy_to_device then [.copy_to_device n.touching_device] else []) ++
      (if n.device_malloc then [.device_malloc n.touching_device] else [])) buf
      (Prepared usage (n.before state).2) := by
  rw [Needs.before_snd, hFlip]
  have hTouching : ∀ d ∈ usage.devices_touched, d ≠ .Host → n.touching_device ≠ .None := by
    intro d hd hNe
    rw [hn.device hNone hd hNe]
    exact fun hEq => hNone (hEq ▸ hd)
  cases hDevice : n.copy_to_device with
  | true =>
    obtain ⟨⟨d, hd, hNe⟩, -⟩ := hn.copy_to_device.mp hDevice
    rw [hn.not_malloc hDevice]
    refine leads_cons fun b hb => leads_nil ?_
    obtain ⟨hCoherent, hSame, hClean, hPlace⟩ := copy_to_device_spec hBuf hb
    refine ⟨hCoherent, ?_, fun h => hSame.trans (hHost h), fun d hd hNe => ⟨hClean, ?_⟩⟩
    · refine ⟨by simpa [hSame] using hDirty, ⟨by simp, fun _ => hClean⟩, ⟨fun _ => ?_, by simp⟩,
        fun _ => ⟨by simpa using hTouching d hd hNe, by simpa using hPlace⟩⟩
      rw [← Option.isSome_map, hPlace]
      rfl
    · exact hn.device hNone hd hNe ▸ hPlace
  | false =>
    -- the host is not ahead wherever a device is touched
    have hClean : ∀ d ∈ usage.devices_touched, d ≠ .Host → buf.near_dirty = false := by
      intro d hd hNe
      apply hNear.2
      by_contra hUnknown
      have := hn.copy_to_device.mpr ⟨⟨d, hd, hNe⟩, .inl hUnknown⟩
      simp [hDevice] at this
    cases hMalloc : n.device_malloc with
    | true =>
      obtain ⟨⟨d, hd, hNe⟩, -, -⟩ := hn.device_malloc.mp hMalloc
      refine leads_cons fun b hb => leads_nil ?_
      obtain ⟨hCoherent, hSame, hSameNear, hPlace⟩ := device_malloc_spec hBuf hb
      refine ⟨hCoherent, ?_, fun h => hSame.trans (hHost h), fun d hd hNe => ⟨?_, ?_⟩⟩
      · refine ⟨by simpa [hSame] using hDirty, by simpa [hSameNear] using hNear,
          ⟨fun _ => ?_, by simp⟩,
          fun _ => ⟨by simpa using hTouching d hd hNe, by simpa using hPlace⟩⟩
        rw [← Option.isSome_map, hPlace]
        rfl
      · exact hSameNear.trans (hClean d hd hNe)
      · exact hn.device hNone hd hNe ▸ hPlace
    | false =>
      refine leads_nil ⟨hBuf, ?_, hHost, fun d hd hNe => ⟨hClean d hd hNe, ?_⟩⟩
      · exact ⟨by simpa using hDirty, by simpa using hNear, by simpa using hExists,
          by simpa using hCurrent⟩
      · have hKnown : state.device_allocation_exists = .True := by
          by_contra hUnknown
          have := hn.device_malloc.mpr ⟨⟨d, hd, hNe⟩, hUnknown, hDevice⟩
          simp [hMalloc] at this
        obtain ⟨hActual, hPlace⟩ := hCurrent hKnown
        have hSame : state.current_device = n.touching_device := by
          by_contra hOther
          have := hn.device_flip.mpr ⟨by simp [hKnown], hOther, hActual, hTouching d hd hNe⟩
          simp [hFlip] at this
        rw [hPlace, hSame, hn.device hNone hd hNe]

theorem leads_before (hn : n.Spec state usage) (hNone : .None ∉ usage.devices_touched)
    (hBuf : buf.Coherent default) (hSound : state.Sound buf) :
    Leads (n.before state).1 buf (Prepared usage (n.before state).2) := by
  rw [Needs.before_fst]
  refine leads_append (leads_copy_to_host hn hBuf hSound) ?_
  rintro b ⟨hCoherent, hNear, hFar, hHost, hDirty⟩
  cases hFlip : n.device_flip with
  | true =>
    obtain ⟨-, hDevice⟩ := hn.copies_of_flip hFlip
    rw [hDevice, hn.not_malloc hDevice]
    exact leads_flip hn hNone hFlip hCoherent (hHost (.inr hFlip))
  | false =>
    refine leads_device hn hNone hFlip hCoherent (fun h => hHost (.inl h)) hDirty ?_ ?_ ?_
    · rw [hNear]
      exact hSound.host_dirty
    · rw [hFar]
      exact hSound.device_allocation_exists
    · rw [hFar]
      exact hSound.current_device

/-! ### Marks after a leaf -/

theorem Needs.after_eq (n : Needs) (state : State) :
    n.after state = ((if n.host_dirty then [.host_dirty] else []) ++
        (if n.device_dirty then [.device_dirty] else []),
      { state with
        host_dirty := if n.host_dirty then .True else state.host_dirty
        device_dirty := if n.device_dirty then .True else state.device_dirty }) := by
  obtain ⟨t, -, -, -, -, host, device⟩ := n
  cases host <;> cases device <;> rfl

/-- What is tracked and what the buffer holds agree. -/
def Agrees (state : State) (buf : Buffer V) : Prop := buf.Coherent default ∧ state.Sound buf

/-- Nothing was written: nothing is marked. -/
theorem leads_after_unwritten (hn : n.Spec state usage) (hWriting : usage.devices_writing = ∅)
    {state' : State} (h : Agrees state' buf) :
    Leads (n.after state').1 buf (Agrees (n.after state').2) := by
  have hHost : n.host_dirty = false := by
    by_contra hHost
    have := (hn.host_dirty.mp (by simpa using hHost)).1
    simp [hWriting] at this
  have hDevice : n.device_dirty = false := by
    by_contra hDevice
    have := (hn.device_dirty.mp (by simpa using hDevice)).1
    simp [hWriting] at this
  rw [Needs.after_eq, hHost, hDevice]
  exact leads_nil h

/-- The host was written: it is marked, or was known to be ahead already. -/
theorem leads_after_host (hn : n.Spec state usage) (hWriting : usage.devices_writing = {.Host})
    (hTouched : .Host ∈ usage.devices_touched) {state' : State} (hNear : buf.near = buf.latest)
    (hClean : buf.far_dirty = false) (hSound : state'.Sound buf)
    (hKnown : state.host_dirty = .True → state'.host_dirty = .True) :
    Leads (n.after state').1 buf (Agrees (n.after state').2) := by
  have hDevice : n.device_dirty = false := by
    by_contra hDevice
    have := (hn.device_dirty.mp (by simpa using hDevice)).1
    simp [hWriting, hTouched] at this
  rw [Needs.after_eq, hDevice]
  have hMarked : buf.markNear.Coherent default := coherent_markNear hClean hNear
  cases hHost : n.host_dirty with
  | true =>
    refine leads_cons fun b hb => leads_nil ?_
    cases hb
    refine ⟨hMarked, hSound.device_dirty, ⟨fun _ => rfl, by simp⟩, hSound.device_allocation_exists,
      hSound.current_device⟩
  | false =>
    have hTrue : state.host_dirty = .True := by
      by_contra hOther
      have := hn.host_dirty.mpr ⟨by simp [hWriting], hOther⟩
      simp [hHost] at this
    have hSame : buf.markNear = buf := by
      have hDirty := hSound.host_dirty.1 (hKnown hTrue)
      rw [Mirror.markNear, ← hDirty]
    rw [hSame] at hMarked
    exact leads_nil ⟨hMarked, hSound⟩

/-- A device was written: it is marked, or was known to be ahead already. -/
theorem leads_after_device (hn : n.Spec state usage) (hWriting : usage.devices_writing = {d})
    (hHost : .Host ∉ usage.devices_touched) (hd : d ≠ .Host) {state' : State}
    (hFar : buf.far = some (d, buf.latest)) (hClean : buf.near_dirty = false)
    (hSound : state'.Sound buf)
    (hKnown : state.device_dirty = .True → state'.device_dirty = .True) :
    Leads (n.after state').1 buf (Agrees (n.after state').2) := by
  have hNot : n.host_dirty = false := by
    by_contra hNot
    have := (hn.host_dirty.mp (by simpa using hNot)).1
    exact hd (by simpa [hWriting, eq_comm] using this)
  rw [Needs.after_eq, hNot]
  have hMarked : buf.markFar.Coherent default := coherent_markFar hClean hFar
  cases hDevice : n.device_dirty with
  | true =>
    refine leads_cons fun b hb => leads_nil ?_
    cases hb
    exact ⟨hMarked, ⟨fun _ => rfl, by simp⟩, hSound.host_dirty, hSound.device_allocation_exists,
      hSound.current_device⟩
  | false =>
    have hTrue : state.device_dirty = .True := by
      by_contra hOther
      have := hn.device_dirty.mpr ⟨by simp [hWriting, hHost], hOther⟩
      simp [hDevice] at this
    have hSame : buf.markFar = buf := by
      have hDirty := hSound.device_dirty.1 (hKnown hTrue)
      rw [Mirror.markFar, ← hDirty]
    rw [hSame] at hMarked
    exact leads_nil ⟨hMarked, hSound⟩

end

end Vyasa.BufferCopies
