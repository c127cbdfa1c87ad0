import Vyasa.BufferCopies.Leaf

/-! Every use of the buffer in the injected code sees the most recent write, and what is
tracked holds at every statement a run reaches. Left out are the steps `Fine` excludes, where
`do_copies` misses a load or a mark. -/
namespace Vyasa.BufferCopies

open Mirror

variable {M V : Type} [Inhabited V]

/-! ### Running the injected calls -/

/-- How a run of the injected code should end. -/
def Outcome.Good (state : State) : Outcome M V → Prop
  | .ok r => r.Fresh ∧ Agrees state r.buf
  | .error (_, r) => r.Fresh

theorem run_callsThen {calls : List Call} {last : Injected M V} {env : Env} {r : Run M V}
    {P : Buffer V → Prop} {state : State} (hFresh : r.Fresh) (h : Leads calls r.buf P)
    (hLast : ∀ b, P b → (last.run env { r with buf := b }).Good state) :
    ((callsThen calls last).run env r).Good state := by
  induction calls generalizing r with
  | nil => exact hLast r.buf (h r.buf rfl)
  | cons c calls ih =>
    change (Injected.run env r (.Block (.call c) (callsThen calls last))).Good state
    simp only [Injected.run]
    cases hc : c.perform r.buf with
    | error e => exact hFresh
    | ok b =>
      refine @ih { r with buf := b } hFresh ?_ hLast
      intro b' hb'
      refine h b' ?_
      rw [List.foldlM_cons, hc]
      exact hb'

theorem run_thenCalls {calls : List Call} {first : Injected M V} {env : Env} {r : Run M V}
    {state : State} (hFresh : (first.run env r).last.Fresh)
    (hFirst : ∀ r', first.run env r = .ok r' → Leads calls r'.buf (Agrees state)) :
    ((thenCalls first calls).run env r).Good state := by
  induction calls generalizing first r with
  | nil =>
    simp only [thenCalls]
    cases hRun : first.run env r with
    | error e =>
      rw [hRun] at hFresh
      exact hFresh
    | ok r' =>
      rw [hRun] at hFresh
      exact ⟨hFresh, hFirst r' hRun r'.buf rfl⟩
  | cons c calls ih =>
    simp only [thenCalls, Injected.run]
    cases hRun : first.run env r with
    | error e =>
      rw [hRun] at hFresh
      exact hFresh
    | ok r' =>
      rw [hRun] at hFresh
      apply ih
      · simp only [Injected.run]
        cases c.perform r'.buf <;> exact hFresh
      · intro r'' hCall
        simp only [Injected.run] at hCall
        cases hc : c.perform r'.buf with
        | error e =>
          rw [hc] at hCall
          cases hCall
        | ok b =>
          rw [hc] at hCall
          cases hCall
          intro b' hb'
          refine hFirst r' hRun b' ?_
          rw [List.foldlM_cons, hc]
          exact hb'

/-! ### One leaf -/

/-- The calls before a leaf make both sides ready for it. -/
theorem Prepared.ready {usage : Usage} {state : State} {r : Run M V}
    (h : Prepared usage state r.buf) : r.Ready usage where
  near hHost := h.coherent.near_latest (h.host hHost)
  far d hd hNe := by
    obtain ⟨hClean, hPlace⟩ := h.device d hd hNe
    obtain ⟨⟨d', v⟩, hFar, hEq⟩ := Option.map_eq_some_iff.mp hPlace
    obtain rfl : d' = d := hEq
    rw [hFar, h.coherent.far_latest hClean d' v hFar]

/-- A leaf that uses the devices first and then writes on the host at most is handled right,
unless it writes on the host after a copy to a device has cleared the mark it relies on. -/
theorem do_copies_host {s : Stmt M V} {state state' : State} {t : Injected M V} {env : Env}
    {r : Run M V} (h : do_copies state s = some (t, state'))
    (hWriting : (FindBufferUsage .Host s).devices_writing ⊆ {.Host})
    (hOrder : DeviceBeforeHost s)
    (hMark : .Host ∈ (FindBufferUsage .Host s).devices_writing → state.host_dirty = .True →
      (FindBufferUsage .Host s).devices_touched ⊆ {.Host})
    (hFresh : r.Fresh) (hAgrees : Agrees state r.buf) : (t.run env r).Good state' := by
  simp only [do_copies, Option.bind_eq_bind, Option.bind_eq_some_iff, Option.some.injEq,
    Prod.mk.injEq] at h
  obtain ⟨n, hNeeds, rfl, rfl⟩ := h
  have hn := needs_spec hNeeds
  refine run_callsThen hFresh (leads_before hn (none_not_mem_usage s) hAgrees.1 hAgrees.2) ?_
  intro b hb
  obtain ⟨hFreshLeaf, hAfter⟩ := @Stmt.run_ready M V env { r with buf := b } s hOrder hWriting
    (Prepared.ready hb) hFresh
  refine run_thenCalls hFreshLeaf fun r' hRun => ?_
  have hAfter := hAfter r' hRun
  by_cases hHost : .Host ∈ (FindBufferUsage .Host s).devices_writing
  · have hOne : (FindBufferUsage .Host s).devices_writing = {.Host} :=
      Finset.Subset.antisymm hWriting (Finset.singleton_subset_iff.mpr hHost)
    have hTouched := writing_subset_touched s hHost
    have hClean := hb.host hTouched
    refine leads_after_host hn hOne hTouched (hAfter.near (hb.coherent.near_latest hClean))
      (hAfter.far_dirty.trans hClean) ?_ ?_
    · obtain ⟨hDevice, hNear, hExists, hCurrent⟩ := hb.sound
      rw [← hAfter.far_dirty] at hDevice
      rw [← hAfter.near_dirty] at hNear
      rw [← hAfter.far] at hExists hCurrent
      exact ⟨hDevice, hNear, hExists, hCurrent⟩
    · intro hTrue
      have hNot : n.copy_to_device = false := by
        by_contra hCopy
        obtain ⟨⟨d, hd, hNe⟩, -⟩ := hn.copy_to_device.mp (by simpa using hCopy)
        exact hNe (Finset.mem_singleton.mp (hMark hHost hTrue hd))
      simp [Needs.before_snd, hNot, hTrue]
  · have hNone : (FindBufferUsage .Host s).devices_writing = ∅ := by
      rcases Finset.subset_singleton_iff.mp hWriting with hEmpty | hOne
      · exact hEmpty
      · simp [hOne] at hHost
    refine leads_after_unwritten hn hNone ?_
    rw [hAfter.unwritten hHost]
    exact ⟨hb.coherent, hb.sound⟩

/-- A loop that writes on a device is handled right, unless the buffer moves there from
another device that is known to be ahead: the mark is then skipped. -/
theorem do_copies_device {device_api : DeviceAPI} {a : Access M V} {state state' : State}
    {t : Injected M V} {env : Env} {r : Run M V}
    (h : do_copies state (.For device_api a) = some (t, state')) (hWrites : a.writes = true)
    (hDevice : loopDevice device_api .Host ≠ .Host)
    (hMark : state.device_dirty = .True →
      state.current_device = loopDevice device_api .Host ∨ state.current_device = .None)
    (hFresh : r.Fresh) (hAgrees : Agrees state r.buf) : (t.run env r).Good state' := by
  simp only [do_copies, Option.bind_eq_bind, Option.bind_eq_some_iff, Option.some.injEq,
    Prod.mk.injEq] at h
  obtain ⟨n, hNeeds, rfl, rfl⟩ := h
  have hn := needs_spec hNeeds
  have hNone := none_not_mem_usage (Stmt.For device_api a)
  generalize hd : loopDevice device_api .Host = d at hDevice hMark
  have hTouches : a.touches = true := by
    cases a with
    | none effect | load effect => simp [Access.writes] at hWrites
    | store effect => rfl
  have hUsage : FindBufferUsage .Host (.For device_api a) = ⟨{d}, {d}⟩ := by
    simp [FindBufferUsage, Access.usage, hd, hWrites, hTouches]
  refine run_callsThen hFresh (leads_before hn hNone hAgrees.1 hAgrees.2) ?_
  intro b hb
  have hReady := @Prepared.ready M V _ _ _ { r with buf := b } hb
  have hSees := @Access.run_ready M V d env { r with buf := b } a
    (by simpa only [FindBufferUsage, hd] using hReady) hFresh
  have hRunEq : Injected.run env { r with buf := b } (.leaf (.For device_api a)) =
      a.run d env { r with buf := b } := by rw [← hd]; rfl
  rw [hUsage] at hn hb hNone
  refine run_thenCalls (by rw [hRunEq]; exact hSees.1) fun r' hRun => ?_
  rw [hRunEq] at hRun
  obtain ⟨update, hBuf⟩ := (hSees.2 r' hRun).2 hWrites
  have hBuf' : r'.buf = b.writeFar update := by simpa [Run.write, hDevice] using hBuf
  obtain ⟨hClean, hPlace⟩ := hb.device d (by simp) hDevice
  obtain ⟨⟨d', v⟩, hFar, hEq⟩ := Option.map_eq_some_iff.mp hPlace
  obtain rfl : d' = d := hEq
  have hv : v = b.latest := hb.coherent.far_latest hClean d' v hFar
  have hFar' : r'.buf.far = some (d', r'.buf.latest) := by
    rw [hBuf']
    simp [Mirror.writeFar, hFar, hv]
  refine leads_after_device hn rfl (by simpa using Ne.symm hDevice) hDevice hFar'
    (by rw [hBuf']; exact hClean) ?_ ?_
  · obtain ⟨hDirty, hNear, hExists, hCurrent⟩ := hb.sound
    rw [hBuf']
    refine ⟨hDirty, hNear, ?_, ?_⟩
    · simpa [Mirror.writeFar, hFar] using hExists
    · simpa [Mirror.writeFar, hFar] using hCurrent
  · intro hTrue
    have hFlip : n.device_flip = false := by
      by_contra hFlip
      obtain ⟨-, hOther, hActual, -⟩ := hn.device_flip.mp (by simpa using hFlip)
      have hTouching : n.touching_device = d' := hn.device hNone (by simp) hDevice
      rcases hMark hTrue with hSame | hNot
      · exact hOther (hSame.trans hTouching.symm)
      · exact hActual hNot
    have hHost : n.copy_to_host = false := by
      by_contra hHost
      rcases (hn.copy_to_host.mp (by simpa using hHost)).1 with hMem | hFlip'
      · exact hDevice (by simpa [eq_comm] using hMem)
      · simp [hFlip] at hFlip'
    simp [Needs.before_snd, hFlip, hHost, hTrue]

/-! ### The steps of a run -/

/-- What a step may rely on, in the state before it: a loop that writes on a device does not
take the buffer over from another device known to be ahead; a let that loads the buffer does
not mix the two sides in its leaf; a branch condition does not load the buffer while a device
is ahead. -/
def Fine (state : State) (buf : Buffer V) : Stmt M V → Prop
  | .For device_api a => a.writes = true → loopDevice device_api .Host ≠ .Host →
      state.device_dirty = .True →
      state.current_device = loopDevice device_api .Host ∨ state.current_device = .None
  | .LetStmt _ value body => value.loads = true →
      (FindBufferUsage .Host body).devices_writing ⊆ {.Host} ∧ DeviceBeforeHost body ∧
      (.Host ∈ (FindBufferUsage .Host body).devices_writing → state.host_dirty = .True →
        (FindBufferUsage .Host body).devices_touched ⊆ {.Host})
  | .IfThenElse condition _ _ => condition.loads = true → buf.far_dirty = false
  | _ => True

/-- A run of the injected code of a statement reaches another one, with the state tracked when
the mutator gets there. -/
inductive Reaches : Stmt M V → State → Env → Run M V → Stmt M V → State → Env → Run M V → Prop
  | here {s : Stmt M V} {state : State} {env : Env} {r : Run M V} :
      Reaches s state env r s state env r
  | first {first rest s : Stmt M V} {state state' : State} {env env' : Env} {r r' : Run M V} :
      HasLoops (.Block first rest) = true → Reaches first state env r s state' env' r' →
      Reaches (.Block first rest) state env r s state' env' r'
  | rest {first rest s : Stmt M V} {t : Injected M V} {state₀ state state' : State}
      {env env' : Env} {r₀ r r' : Run M V} : HasLoops (.Block first rest) = true →
      mutate first state₀ = some (t, state) → t.run env r₀ = .ok r →
      Reaches rest state env r s state' env' r' →
      Reaches (.Block first rest) state₀ env r₀ s state' env' r'
  | body {name : String} {value : Value M V Int} {body s : Stmt M V} {state state' : State}
      {env env' : Env} {r r' : Run M V} : value.loads = false →
      Reaches body state (env.bind name (value.run env r).1) (value.run env r).2 s state' env' r' →
      Reaches (.LetStmt name value body) state env r s state' env' r'
  | stage {name : String} {is_producer : Bool} {body s : Stmt M V} {state state' : State}
      {env env' : Env} {r r' : Run M V} : Reaches body state env r s state' env' r' →
      Reaches (.ProducerConsumer name is_producer body) state env r s state' env' r'
  | taken {condition : Value M V Bool} {then_case else_case s : Stmt M V} {state state' : State}
      {env env' : Env} {r r' : Run M V} : (condition.run env r).1 = true →
      Reaches then_case state env (condition.run env r).2 s state' env' r' →
      Reaches (.IfThenElse condition then_case else_case) state env r s state' env' r'
  | passed {condition : Value M V Bool} {then_case else_case s : Stmt M V} {state state' : State}
      {env env' : Env} {r r' : Run M V} : (condition.run env r).1 = false →
      Reaches else_case state env (condition.run env r).2 s state' env' r' →
      Reaches (.IfThenElse condition then_case else_case) state env r s state' env' r'

/-- Every statement a run reaches is fine where it is reached. -/
def AllFine (s : Stmt M V) (state : State) (env : Env) (r : Run M V) : Prop :=
  ∀ s' state' env' r', Reaches s state env r s' state' env' r' → Fine state' r'.buf s'

/-- A leaf that stays on the host. -/
theorem do_copies_good {s : Stmt M V} {state state' : State} {t : Injected M V} {env : Env}
    {r : Run M V} (h : do_copies state s = some (t, state'))
    (hTouched : (FindBufferUsage .Host s).devices_touched ⊆ {.Host})
    (hFresh : r.Fresh) (hAgrees : Agrees state r.buf) : (t.run env r).Good state' :=
  do_copies_host h ((writing_subset_touched s).trans hTouched) (deviceBeforeHost_of_touched hTouched)
    (fun _ _ => hTouched) hFresh hAgrees

theorem do_copies_for {device_api : DeviceAPI} {a : Access M V} {state state' : State}
    {t : Injected M V} {env : Env} {r : Run M V}
    (h : do_copies state (.For device_api a) = some (t, state'))
    (hFine : Fine state r.buf (.For device_api a)) (hFresh : r.Fresh)
    (hAgrees : Agrees state r.buf) : (t.run env r).Good state' := by
  by_cases hDevice : loopDevice device_api .Host = .Host
  · refine do_copies_good h ?_ hFresh hAgrees
    simp only [FindBufferUsage, Access.usage, hDevice]
    split <;> simp
  · cases hWrites : a.writes with
    | true => exact do_copies_device h hWrites hDevice (hFine hWrites hDevice) hFresh hAgrees
    | false =>
      have hNone : (FindBufferUsage .Host (.For device_api a)).devices_writing = ∅ := by
        simp [FindBufferUsage, Access.usage, hWrites]
      refine do_copies_host h ?_ trivial ?_ hFresh hAgrees
      · simp [hNone]
      · simp [hNone]

theorem do_copies_let {name : String} {value : Value M V Int} {body : Stmt M V}
    {state state' : State} {t : Injected M V} {env : Env} {r : Run M V}
    (h : do_copies state (.LetStmt name value body) = some (t, state'))
    (hLoads : value.loads = true) (hFine : Fine state r.buf (.LetStmt name value body))
    (hFresh : r.Fresh) (hAgrees : Agrees state r.buf) : (t.run env r).Good state' := by
  obtain ⟨hWriting, hOrder, hMark⟩ := hFine hLoads
  have hSame : (FindBufferUsage .Host (.LetStmt name value body)).devices_writing =
      (FindBufferUsage .Host body).devices_writing := Finset.empty_union _
  refine do_copies_host h (by rwa [hSame]) hOrder ?_ hFresh hAgrees
  intro hHost hTrue
  rw [hSame] at hHost
  exact Finset.union_subset value.usage_subset (hMark hHost hTrue)

theorem condition_good {condition : Value M V Bool} {then_case else_case : Stmt M V}
    {state : State} {env : Env} {r : Run M V}
    (hFine : Fine state r.buf (.IfThenElse condition then_case else_case)) (hFresh : r.Fresh)
    (hAgrees : Agrees state r.buf) :
    (condition.run env r).2.Fresh ∧ (condition.run env r).2.buf = r.buf := by
  cases condition with
  | free value => exact ⟨hFresh, rfl⟩
  | loading value =>
    refine ⟨hFresh.note ?_, rfl⟩
    simp [Run.sees, hAgrees.1.near_latest (hFine rfl)]

theorem Outcome.Good.union_with {state other : State} {o : Outcome M V} (h : o.Good state) :
    o.Good (state.union_with other) := by
  match o, h with
  | .ok r, ⟨hFresh, hCoherent, hSound⟩ => exact ⟨hFresh, hCoherent, hSound.union_with⟩
  | .error (_, r), hFresh => exact hFresh

/-- The run of the injected code keeps both sides and the tracked state in step. -/
theorem mutate_good {s : Stmt M V} {state state' : State} {t : Injected M V} {env : Env}
    {r : Run M V} (h : mutate s state = some (t, state')) (hFine : AllFine s state env r)
    (hFresh : r.Fresh) (hAgrees : Agrees state r.buf) : (t.run env r).Good state' := by
  have hHere := hFine _ _ _ _ .here
  induction s generalizing state state' t env r with
  | undefined =>
    cases h
    exact ⟨hFresh, hAgrees⟩
  | Store a | Evaluate a =>
    refine do_copies_good h ?_ hFresh hAgrees
    simp only [FindBufferUsage, Access.usage]
    split <;> simp
  | AssertStmt c => exact do_copies_good h c.usage_subset hFresh hAgrees
  | For device_api a => exact do_copies_for h hHere hFresh hAgrees
  | Block first rest ihFirst ihRest =>
    simp only [mutate] at h
    split at h
    · rename_i hLoops
      simp only [Option.bind_eq_bind, Option.bind_eq_some_iff, Option.some.injEq,
        Prod.mk.injEq] at h
      obtain ⟨⟨first', state₁⟩, hFirst, ⟨rest', state₂⟩, hRest, rfl, rfl⟩ := h
      have hGood : (first'.run env r).Good state₁ := ihFirst hFirst
        (fun s' state' env' r' hReach => hFine s' state' env' r' (.first hLoops hReach))
        hFresh hAgrees (hFine _ _ _ _ (.first hLoops .here))
      simp only [Injected.run]
      cases hRun : first'.run env r with
      | error e =>
        rw [hRun] at hGood
        exact hGood
      | ok r₁ =>
        rw [hRun] at hGood
        exact ihRest hRest
          (fun s' state' env' r' hReach =>
            hFine s' state' env' r' (.rest hLoops hFirst hRun hReach))
          hGood.1 hGood.2 (hFine _ _ _ _ (.rest hLoops hFirst hRun .here))
    · rename_i hLoops
      exact do_copies_good h (touched_of_no_loops (by simpa using hLoops)) hFresh hAgrees
  | LetStmt name value body ih =>
    simp only [mutate] at h
    cases hLoads : value.loads with
    | false =>
      rw [if_pos (Value.usage_free hLoads)] at h
      simp only [Option.bind_eq_bind, Option.bind_eq_some_iff, Option.some.injEq,
        Prod.mk.injEq] at h
      obtain ⟨⟨body', state₁⟩, hBody, rfl, rfl⟩ := h
      simp only [Injected.run]
      refine ih hBody (fun s' state' env' r' hReach => hFine s' state' env' r' (.body hLoads hReach))
        ?_ ?_ (hFine _ _ _ _ (.body hLoads .here))
      · rwa [Value.run_free hLoads]
      · rwa [Value.run_free hLoads]
    | true =>
      rw [if_neg (by simp [Value.usage, hLoads])] at h
      exact do_copies_let h hLoads hHere hFresh hAgrees
  | ProducerConsumer name is_producer body ih =>
    simp only [mutate, Option.bind_eq_bind, Option.bind_eq_some_iff, Option.some.injEq,
      Prod.mk.injEq] at h
    obtain ⟨⟨body', state₁⟩, hBody, rfl, rfl⟩ := h
    simp only [Injected.run]
    exact ih hBody (fun s' state' env' r' hReach => hFine s' state' env' r' (.stage hReach))
      hFresh hAgrees (hFine _ _ _ _ (.stage .here))
  | IfThenElse condition then_case else_case ihThen ihElse =>
    simp only [mutate, Option.bind_eq_bind, Option.bind_eq_some_iff, Option.some.injEq,
      Prod.mk.injEq] at h
    obtain ⟨⟨then', state₁⟩, hThen, ⟨else', state₂⟩, hElse, rfl, rfl⟩ := h
    obtain ⟨hFreshCondition, hBuf⟩ := condition_good hHere hFresh hAgrees
    simp only [Injected.run]
    cases hTaken : (condition.run env r).1 with
    | true =>
      have hGood := ihThen hThen
        (fun s' state' env' r' hReach => hFine s' state' env' r' (.taken hTaken hReach))
        hFreshCondition (hBuf ▸ hAgrees) (hFine _ _ _ _ (.taken hTaken .here))
      rw [State.union_with_comm]
      exact hGood.union_with
    | false =>
      have hGood := ihElse hElse
        (fun s' state' env' r' hReach => hFine s' state' env' r' (.passed hTaken hReach))
        hFreshCondition (hBuf ▸ hAgrees) (hFine _ _ _ _ (.passed hTaken .here))
      exact hGood.union_with

/-- What is tracked at a statement holds whenever a run gets there. -/
theorem reaches_agrees {s s' : Stmt M V} {state state' : State} {env env' : Env} {r r' : Run M V}
    (hReach : Reaches s state env r s' state' env' r') {result : Injected M V × State}
    (h : mutate s state = some result) (hFine : AllFine s state env r) (hFresh : r.Fresh)
    (hAgrees : Agrees state r.buf) : Agrees state' r'.buf := by
  induction hReach generalizing result with
  | here => exact hAgrees
  | first hLoops _ ih =>
    simp only [mutate, hLoops, if_true, Option.bind_eq_bind, Option.bind_eq_some_iff] at h
    obtain ⟨_, hFirst, -⟩ := h
    exact ih hFirst (fun _ _ _ _ hReach => hFine _ _ _ _ (.first hLoops hReach)) hFresh hAgrees
  | rest hLoops hFirst hRun _ ih =>
    have hGood := mutate_good hFirst
      (fun _ _ _ _ hReach => hFine _ _ _ _ (.first hLoops hReach)) hFresh hAgrees
    rw [hRun] at hGood
    simp only [mutate, hLoops, if_true, Option.bind_eq_bind, Option.bind_eq_some_iff, hFirst,
      Option.some.injEq, exists_eq_left'] at h
    obtain ⟨_, hRest, -⟩ := h
    exact ih hRest (fun _ _ _ _ hReach => hFine _ _ _ _ (.rest hLoops hFirst hRun hReach))
      hGood.1 hGood.2
  | body hLoads _ ih =>
    simp only [mutate, Value.usage_free hLoads, if_true, Option.bind_eq_bind,
      Option.bind_eq_some_iff] at h
    obtain ⟨_, hBody, -⟩ := h
    refine ih hBody (fun _ _ _ _ hReach => hFine _ _ _ _ (.body hLoads hReach)) ?_ ?_
    · rwa [Value.run_free hLoads]
    · rwa [Value.run_free hLoads]
  | stage _ ih =>
    simp only [mutate, Option.bind_eq_bind, Option.bind_eq_some_iff] at h
    obtain ⟨_, hBody, -⟩ := h
    exact ih hBody (fun _ _ _ _ hReach => hFine _ _ _ _ (.stage hReach)) hFresh hAgrees
  | taken hTaken _ ih =>
    obtain ⟨hFreshCondition, hBuf⟩ := condition_good (hFine _ _ _ _ .here) hFresh hAgrees
    simp only [mutate, Option.bind_eq_bind, Option.bind_eq_some_iff] at h
    obtain ⟨_, hThen, -⟩ := h
    exact ih hThen (fun _ _ _ _ hReach => hFine _ _ _ _ (.taken hTaken hReach)) hFreshCondition
      (hBuf ▸ hAgrees)
  | passed hPassed _ ih =>
    obtain ⟨hFreshCondition, hBuf⟩ := condition_good (hFine _ _ _ _ .here) hFresh hAgrees
    simp only [mutate, Option.bind_eq_bind, Option.bind_eq_some_iff] at h
    obtain ⟨_, _, _, hElse, -⟩ := h
    exact ih hElse (fun _ _ _ _ hReach => hFine _ _ _ _ (.passed hPassed hReach)) hFreshCondition
      (hBuf ▸ hAgrees)

/-! ### The whole run -/

theorem agrees_start (mem : M) : Agrees State.internal (Run.start mem : Run M V).buf := by
  refine ⟨coherent_fresh, ?_, ?_, ?_, ?_⟩
  · exact ⟨by simp [State.internal], fun _ => rfl⟩
  · exact ⟨by simp [State.internal], fun _ => rfl⟩
  · exact ⟨by simp [State.internal], fun _ => rfl⟩
  · simp [State.internal]

/-- A kernel that writes `n`. -/
def kernel (device_api : DeviceAPI) (n : Nat) : Stmt Nat Nat :=
  .For device_api (.store fun _ mem _ => (mem, n))

/-- Host code that copies what it loads to the rest of the memory. -/
def hostLoad : Stmt Nat Nat := .Evaluate (.load fun _ _ v => v)

-- Two kernels on different devices: the second write is not marked, since the mark is taken
-- to be there already, and the host does not get it.
example : ∃ t state r,
    inject (.Block (kernel .CUDA 1) (.Block (kernel .OpenCL 2) hostLoad)) = some (t, state) ∧
      t.run (fun _ => 0) (Run.start 0) = .ok r ∧ r.mem = 1 :=
  ⟨_, _, _, rfl, rfl, rfl⟩

-- A let that loads the buffer around a kernel that writes it: the leaf counts as one of the
-- host, and the host does not get what the kernel wrote.
example : ∃ t state r,
    inject (.Block (.LetStmt "x" (.loading fun _ _ v => Int.ofNat v) (kernel .CUDA 1)) hostLoad) =
      some (t, state) ∧ t.run (fun _ => 0) (Run.start 0) = .ok r ∧ r.mem = 0 :=
  ⟨_, _, _, rfl, rfl, rfl⟩

end Vyasa.BufferCopies
