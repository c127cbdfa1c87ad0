import Vyasa.ThreadPool.Queue

/-! What is left of each job, who works on it and which of its indices were executed, as an
invariant of the whole pool. A step changes the accounts of one job at most, or adds jobs. -/
namespace Vyasa.ThreadPool

open Pool

/-! ### Filling in and searching -/

/-- At most the last task has nothing to do. -/
def Dense (tasks : List Task) : Prop :=
  ∀ k t, tasks[k]? = some t → t.extent ≤ 0 → k + 1 = tasks.length

theorem Dense.tail {t : Task} {tasks : List Task} (h : Dense (t :: tasks)) : Dense tasks := by
  intro k u hu hExtent
  have hLast := h (k + 1) u (by simpa using hu) hExtent
  simpa using hLast

/-- The jobs to enqueue are those of the tasks with something to do, in their order. -/
structure Filled (tasks : List Task) (i num : Nat) (jobs : Nat → Option Task) : Prop where
  le : i ≤ num
  lt : ∀ k, i + k < num ↔ ∃ t, tasks[k]? = some t ∧ 0 < t.extent
  slot : ∀ k t, tasks[k]? = some t → 0 < t.extent → jobs (i + k) = some t

theorem fillLoop_of_dense {tasks : List Task} (hDense : Dense tasks) :
    ∀ {fuel : Nat} (i : Nat) (jobs : Nat → Option Task), tasks.length ≤ fuel →
      Filled tasks i (fillLoop fuel i (i + tasks.length) tasks jobs).1
          (fillLoop fuel i (i + tasks.length) tasks jobs).2 ∧
        ∀ k < i, (fillLoop fuel i (i + tasks.length) tasks jobs).2 k = jobs k := by
  induction tasks with
  | nil =>
    intro fuel i jobs _
    have hStop : fillLoop fuel i (i + ([] : List Task).length) [] jobs = (i, jobs) := by
      cases fuel <;> simp [fillLoop]
    rw [hStop]
    exact ⟨⟨le_rfl, by simp, by simp⟩, fun _ _ => rfl⟩
  | cons t rest ih =>
    intro fuel i jobs hFuel
    obtain _ | fuel := fuel
    · simp at hFuel
    have hFuel : rest.length ≤ fuel := by simpa using hFuel
    rw [fillLoop, if_pos (by simp)]
    split
    · rename_i hNone
      have hLast := hDense 0 t rfl hNone
      obtain rfl : rest = [] := List.length_eq_zero_iff.mp (by simpa using hLast.symm)
      have hStop : fillLoop fuel (i + 1) (i + [t].length - 1) [t] jobs = (i, jobs) := by
        cases fuel <;> simp [fillLoop]
      rw [hStop]
      refine ⟨⟨le_rfl, fun k => ?_, fun k u hu hPos => ?_⟩, fun _ _ => rfl⟩
      · obtain _ | k := k <;> simp [hNone]
      · obtain _ | k := k
        · obtain rfl : t = u := by simpa using hu
          exact absurd hPos (not_lt.mpr hNone)
        · simp at hu
    · rename_i hSome
      have hPos : 0 < t.extent := not_le.mp hSome
      have hNum : i + (t :: rest).length = i + 1 + rest.length := by simp; omega
      obtain ⟨⟨hLe, hLt, hSlot⟩, hKeep⟩ :=
        ih hDense.tail (i + 1) (Function.update jobs i (some t)) hFuel
      rw [hNum]
      refine ⟨⟨by omega, fun k => ?_, fun k u hu hExtent => ?_⟩, fun k hk => ?_⟩
      · obtain _ | k := k
        · simp [hPos]
          omega
        · rw [List.getElem?_cons_succ, ← hLt k, show i + 1 + k = i + (k + 1) by omega]
      · obtain _ | k := k
        · obtain rfl : t = u := by simpa using hu
          rw [hKeep _ (by omega)]
          simp
        · rw [show i + (k + 1) = i + 1 + k by omega]
          exact hSlot k u (by simpa using hu) hExtent
      · rw [hKeep k (by omega), Function.update_of_ne (by omega)]

theorem fillJobs_of_dense {tasks : List Task} (hDense : Dense tasks) :
    Filled tasks 0 (fillJobs tasks).1 (fillJobs tasks).2 := by
  have h := (fillLoop_of_dense hDense 0 (fun _ => none) (le_refl tasks.length)).1
  simpa [fillJobs] using h

theorem filled_parForTask {fn : Nat} {min size : Int} (hSize : 0 < size) :
    Filled [parForTask fn min size] 0 1 fun _ => some (parForTask fn min size) where
  le := by omega
  lt k := by obtain _ | k := k <;> simp [parForTask, hSize]
  slot k t hk _ := by
    obtain _ | k := k
    · simpa using hk
    · simp at hk

/-- `make_runnable` changes nothing but the semaphores and the place among them. -/
theorem make_runnable_snd (s : State) (j : Nat) :
    ∃ semaphores next_semaphore, (make_runnable s j).2 =
      { s with semaphores := semaphores, next_semaphore := next_semaphore } :=
  ⟨_, _, rfl⟩

theorem findJob_spec (owned : Option Nat) :
    ∀ (queue : List Nat) (s : State),
      (∃ semaphores next_semaphore, (findJob owned queue s).2 =
        { s with semaphores := semaphores, next_semaphore := next_semaphore }) ∧
      ∀ j, (findJob owned queue s).1 = some j →
        j ∈ queue ∧ ((s.jobs j).task.serial = true → (s.jobs j).active_workers = 0)
  | [], s => ⟨⟨s.semaphores, s.next_semaphore, rfl⟩, by simp [findJob]⟩
  | k :: rest, s => by
    rw [findJob]
    split
    · rename_i hEligible
      obtain ⟨sem, next_sem, hRun⟩ := make_runnable_snd s k
      generalize make_runnable s k = m at hRun ⊢
      obtain ⟨_ | _, s'⟩ := m <;> obtain rfl : s' = _ := hRun
      · obtain ⟨⟨sem', next_sem', hRest⟩, hFound⟩ := findJob_spec owned rest
          { s with semaphores := sem, next_semaphore := next_sem }
        dsimp only
        refine ⟨⟨sem', next_sem', by rw [hRest]⟩, fun j hj => ?_⟩
        obtain ⟨hMem, hIdle⟩ := hFound j hj
        exact ⟨List.mem_cons_of_mem _ hMem, hIdle⟩
      · dsimp only
        refine ⟨⟨sem, next_sem, rfl⟩, fun j hj => ?_⟩
        obtain rfl : k = j := by simpa using hj
        refine ⟨List.mem_cons_self, fun hSerial => ?_⟩
        have hAdd := (Bool.and_eq_true_iff.mp hEligible).2
        simpa [hSerial] using hAdd
    · obtain ⟨hSame, hFound⟩ := findJob_spec owned rest s
      refine ⟨hSame, fun j hj => ?_⟩
      obtain ⟨hMem, hIdle⟩ := hFound j hj
      exact ⟨List.mem_cons_of_mem _ hMem, hIdle⟩

/-! ### The accounts of a job -/

/-- The number of frames that work on a job. -/
def runs (j : Nat) (threads : List (List Frame)) : Int :=
  weight (fun f => if f.job? = some j then 1 else 0) threads

/-- The iterations of a serial job that a frame has started on and not yet booked. -/
def Frame.progress (j : Nat) : Frame → Int
  | .claim k total_iters _ => if k = j then total_iters else 0
  | .chunk k total_iters iters => if k = j then total_iters + iters else 0
  | _ => 0

def progress (j : Nat) (threads : List (List Frame)) : Int := weight (Frame.progress j) threads

theorem Frame.progress_eq_zero {f : Frame} {j : Nat} (h : f.job? ≠ some j) : f.progress j = 0 := by
  cases f with
  | claim k t n => exact if_neg fun he => h (congrArg some he)
  | chunk k t n => exact if_neg fun he => h (congrArg some he)
  | user => rfl
  | worker => rfl
  | task k i => rfl
  | call tasks jobs num i st => rfl

/-- What the rest of the pool knows of a job: its task as enqueued, whether it stands on the
stack, how many work on it, how far they are and which indices were executed. -/
structure Accounts (job : Work) (origin : Task) (queued : Prop) (runs progress : Int)
    (executed : Int → Prop) : Prop where
  initialised : job.initialised = true
  extent_nonneg : 0 ≤ job.task.extent
  pos_of_queued : queued → 0 < job.task.extent
  queued_of_parallel : job.task.serial = false → 0 < job.task.extent → queued
  queued_of_serial : job.task.serial = true → 0 < job.task.extent → runs = 0 → queued
  serial_alone : job.task.serial = true → runs ≤ 1 ∧ (queued → runs = 0)
  active : job.active_workers = runs
  min_le : origin.min ≤ job.task.min
  le_end : job.task.min + job.task.extent ≤ origin.min + origin.extent
  exact : job.exit_status = 0 → job.task.min + job.task.extent = origin.min + origin.extent
  progress_le : progress ≤ job.task.extent
  executed_iff : ∀ i, executed i ↔ origin.min ≤ i ∧ i < job.task.min + progress

/-- Nothing is left of a job and nobody works on it. -/
def Work.settled (job : Work) : Prop := job.task.extent = 0 ∧ job.active_workers = 0

/-- What holds of a job when its owner has joined it. -/
structure Joined (job : Work) (origin : Task) (exit_status : Int) : Prop where
  settled : job.settled
  done : exit_status = 0 → job.task.min = origin.min + origin.extent

/-- The jobs of a call are those of its tasks with something to do, the first `i` are joined. -/
structure CallOk (s : State) (tasks : List Task) (jobs num_jobs i : Nat) (exit_status : Int) :
    Prop where
  allocated : jobs + num_jobs ≤ s.next
  joined_le : i ≤ num_jobs
  job : ∀ k, k < num_jobs ↔ ∃ t, tasks[k]? = some t ∧ 0 < t.extent
  origin : ∀ k t, tasks[k]? = some t → 0 < t.extent → s.origin (jobs + k) = t
  joined : ∀ k < i, Joined (s.jobs (jobs + k)) (s.origin (jobs + k)) exit_status

/-- What holds of a frame on the stack of some thread. -/
def FrameOk (s : State) : Frame → Prop
  | .user | .worker => True
  | .task j _ => j < s.next ∧ (s.jobs j).task.serial = false
  | .claim j total_iters iters | .chunk j total_iters iters =>
      j < s.next ∧ (s.jobs j).task.serial = true ∧ 0 ≤ total_iters ∧ 0 ≤ iters ∧
        total_iters + iters ≤ (s.jobs j).task.extent
  | .call tasks jobs num_jobs i exit_status => CallOk s tasks jobs num_jobs i exit_status

def State.accounts (s : State) (j : Nat) : Prop :=
  Accounts (s.jobs j) (s.origin j) (j ∈ s.queue) (runs j s.threads) (progress j s.threads)
    fun i => (j, i) ∈ s.executed

structure Inv (s : State) : Prop where
  queue_nodup : s.queue.Nodup
  executed_nodup : s.executed.Nodup
  queue_lt : ∀ j ∈ s.queue, j < s.next
  executed_lt : ∀ j i, (j, i) ∈ s.executed → j < s.next
  job : ∀ j < s.next, s.accounts j
  frame : ∀ f, On f s.threads → FrameOk s f

/-! ### Frames -/

section Frames

variable {j k : Nat} {f : Frame} {fs : List Frame} {ts ts₁ ts₂ : List (List Frame)}

theorem runs_nonneg : 0 ≤ runs j ts :=
  weight_nonneg fun f => by split <;> omega

theorem one_le_runs (hOn : On f ts) (hJob : f.job? = some j) : 1 ≤ runs j ts := by
  have hLe := le_weight (w := fun f : Frame => if f.job? = some j then (1 : Int) else 0)
    (fun f => by split <;> omega) hOn
  simpa [runs, hJob] using hLe

theorem runs_eq_zero (h : ∀ f, On f ts → f.job? ≠ some j) : runs j ts = 0 :=
  weight_eq_zero fun f hf => if_neg (h f hf)

theorem progress_eq_zero (h : runs j ts = 0) : progress j ts = 0 := by
  refine weight_eq_zero fun f hf => f.progress_eq_zero fun hJob => ?_
  have hOne := one_le_runs hf hJob
  omega

theorem runs_push_self (hJob : f.job? = some j) :
    runs j (ts₁ ++ (f :: fs) :: ts₂) = runs j (ts₁ ++ fs :: ts₂) + 1 := by
  rw [runs, weight_push, if_pos hJob, add_comm]
  rfl

theorem runs_push_of_ne (hJob : f.job? ≠ some j) :
    runs j (ts₁ ++ (f :: fs) :: ts₂) = runs j (ts₁ ++ fs :: ts₂) := by
  rw [runs, weight_push, if_neg hJob, zero_add]
  rfl

theorem progress_push :
    progress j (ts₁ ++ (f :: fs) :: ts₂) = progress j (ts₁ ++ fs :: ts₂) + f.progress j := by
  rw [progress, weight_push, add_comm]
  rfl

theorem progress_push_of_ne (hJob : f.job? ≠ some j) :
    progress j (ts₁ ++ (f :: fs) :: ts₂) = progress j (ts₁ ++ fs :: ts₂) := by
  rw [progress_push, f.progress_eq_zero hJob, add_zero]

/-- Two pools that differ in frames that work on `j` only. -/
structure SameBut (j : Nat) (ts ts' : List (List Frame)) : Prop where
  runs : ∀ k ≠ j, runs k ts' = runs k ts
  progress : ∀ k ≠ j, progress k ts' = progress k ts
  on : ∀ f, f.job? ≠ some j → On f ts' → On f ts

theorem SameBut.refl : SameBut j ts ts :=
  ⟨fun _ _ => rfl, fun _ _ => rfl, fun _ _ hf => hf⟩

theorem SameBut.trans {ts' ts'' : List (List Frame)} (h : SameBut j ts ts')
    (h' : SameBut j ts' ts'') : SameBut j ts ts'' where
  runs k hk := (h'.runs k hk).trans (h.runs k hk)
  progress k hk := (h'.progress k hk).trans (h.progress k hk)
  on f hf hOn := h.on f hf (h'.on f hf hOn)

theorem SameBut.push (hJob : f.job? = some j) :
    SameBut j (ts₁ ++ fs :: ts₂) (ts₁ ++ (f :: fs) :: ts₂) where
  runs k hk := runs_push_of_ne (by simpa [hJob] using hk.symm)
  progress k hk := progress_push_of_ne (by simpa [hJob] using hk.symm)
  on g hg hOn := by
    rcases on_push.mp hOn with rfl | hOn
    · exact absurd hJob hg
    · exact hOn

theorem SameBut.pop (hJob : f.job? = some j) :
    SameBut j (ts₁ ++ (f :: fs) :: ts₂) (ts₁ ++ fs :: ts₂) where
  runs k hk := (runs_push_of_ne (by simpa [hJob] using hk.symm)).symm
  progress k hk := (progress_push_of_ne (by simpa [hJob] using hk.symm)).symm
  on g _ hOn := on_push.mpr (.inr hOn)

end Frames

/-! ### Steps that touch one job -/

/-- A job of which only the exit status may have changed, and not to success. -/
structure Keeps (job job' : Work) : Prop where
  task : job'.task = job.task
  active_workers : job'.active_workers = job.active_workers
  initialised : job'.initialised = job.initialised
  exit_status : job'.exit_status = 0 → job.exit_status = 0

theorem Keeps.refl (job : Work) : Keeps job job := ⟨rfl, rfl, rfl, id⟩

theorem Accounts.keep {job job' : Work} {origin : Task} {queued queued' : Prop}
    {runs progress : Int} {executed executed' : Int → Prop}
    (h : Accounts job origin queued runs progress executed) (hKeep : Keeps job job')
    (hQueued : queued' ↔ queued) (hExecuted : ∀ i, executed' i ↔ executed i) :
    Accounts job' origin queued' runs progress executed' where
  initialised := hKeep.initialised.trans h.initialised
  extent_nonneg := hKeep.task ▸ h.extent_nonneg
  pos_of_queued hq := hKeep.task ▸ h.pos_of_queued (hQueued.mp hq)
  queued_of_parallel hSerial hPos :=
    hQueued.mpr (h.queued_of_parallel (hKeep.task ▸ hSerial) (hKeep.task ▸ hPos))
  queued_of_serial hSerial hPos hRuns :=
    hQueued.mpr (h.queued_of_serial (hKeep.task ▸ hSerial) (hKeep.task ▸ hPos) hRuns)
  serial_alone hSerial := by
    obtain ⟨hLe, hIdle⟩ := h.serial_alone (hKeep.task ▸ hSerial)
    exact ⟨hLe, fun hq => hIdle (hQueued.mp hq)⟩
  active := hKeep.active_workers.trans h.active
  min_le := hKeep.task ▸ h.min_le
  le_end := hKeep.task ▸ h.le_end
  exact hExit := hKeep.task ▸ h.exact (hKeep.exit_status hExit)
  progress_le := hKeep.task ▸ h.progress_le
  executed_iff i := by rw [hExecuted, hKeep.task, h.executed_iff]

/-- Nothing but the accounts of job `j` may have changed. -/
structure Touches (j : Nat) (s s' : State) : Prop where
  next : s'.next = s.next
  origin : s'.origin = s.origin
  queue : ∀ k ≠ j, k ∈ s'.queue ↔ k ∈ s.queue
  executed : ∀ k ≠ j, ∀ i, (k, i) ∈ s'.executed ↔ (k, i) ∈ s.executed
  threads : SameBut j s.threads s'.threads
  job : ∀ k ≠ j, Keeps (s.jobs k) (s'.jobs k)
  settled : (s.jobs j).settled → (s'.jobs j).task = (s.jobs j).task ∧
    (s'.jobs j).active_workers = (s.jobs j).active_workers

theorem CallOk.mono {s s' : State} {tasks : List Task} {jobs num_jobs i : Nat} {exit_status : Int}
    (h : CallOk s tasks jobs num_jobs i exit_status) (hNext : s.next ≤ s'.next)
    (hOrigin : ∀ k < s.next, s'.origin k = s.origin k)
    (hSettled : ∀ k < s.next, (s.jobs k).settled → (s'.jobs k).task = (s.jobs k).task ∧
      (s'.jobs k).active_workers = (s.jobs k).active_workers) :
    CallOk s' tasks jobs num_jobs i exit_status where
  allocated := h.allocated.trans hNext
  joined_le := h.joined_le
  job := h.job
  origin k t ht hPos := by
    have hk : k < num_jobs := (h.job k).mpr ⟨t, ht, hPos⟩
    have hAllocated := h.allocated
    rw [hOrigin _ (by omega), h.origin k t ht hPos]
  joined k hk := by
    have hAllocated := h.allocated
    have hLe := h.joined_le
    obtain ⟨hDone, hMin⟩ := h.joined k hk
    obtain ⟨hTask, hActive⟩ := hSettled (jobs + k) (by omega) hDone
    refine ⟨⟨?_, ?_⟩, ?_⟩
    · rw [hTask, hDone.1]
    · rw [hActive, hDone.2]
    · rw [hTask, hOrigin _ (by omega)]
      exact hMin

theorem Touches.keeps_settled {j : Nat} {s s' : State} (ht : Touches j s s') (k : Nat)
    (hk : (s.jobs k).settled) : (s'.jobs k).task = (s.jobs k).task ∧
      (s'.jobs k).active_workers = (s.jobs k).active_workers := by
  by_cases hkj : k = j
  · subst hkj
    exact ht.settled hk
  · exact ⟨(ht.job k hkj).task, (ht.job k hkj).active_workers⟩

/-- A frame that does not work on `j` stays as it should be. -/
theorem Touches.frameOk {j : Nat} {s s' : State} {f : Frame} (ht : Touches j s s')
    (h : FrameOk s f) (hJob : f.job? ≠ some j) : FrameOk s' f := by
  cases f with
  | user => trivial
  | worker => trivial
  | task k i =>
    have hk : k ≠ j := fun he => hJob (congrArg some he)
    simp only [FrameOk, ht.next, (ht.job k hk).task]
    exact h
  | claim k t n =>
    have hk : k ≠ j := fun he => hJob (congrArg some he)
    simp only [FrameOk, ht.next, (ht.job k hk).task]
    exact h
  | chunk k t n =>
    have hk : k ≠ j := fun he => hJob (congrArg some he)
    simp only [FrameOk, ht.next, (ht.job k hk).task]
    exact h
  | call tasks jobs num_jobs i exit_status =>
    refine CallOk.mono h ht.next.ge (fun k _ => congrFun ht.origin k) fun k _ hk => ?_
    exact ht.keeps_settled k hk

/-- The rule for a step that touches one job: it is enough to settle the accounts of that job
and to look at the frames that work on it. -/
theorem Inv.of_touches {j : Nat} {s s' : State} (h : Inv s) (ht : Touches j s s')
    (hj : j < s.next) (hQueue : s'.queue.Nodup) (hExecuted : s'.executed.Nodup)
    (hJob : s'.accounts j) (hFrame : ∀ f, On f s'.threads → f.job? = some j → FrameOk s' f) :
    Inv s' where
  queue_nodup := hQueue
  executed_nodup := hExecuted
  queue_lt k hk := by
    rw [ht.next]
    by_cases hkj : k = j
    · exact hkj ▸ hj
    · exact h.queue_lt k ((ht.queue k hkj).mp hk)
  executed_lt k i hk := by
    rw [ht.next]
    by_cases hkj : k = j
    · exact hkj ▸ hj
    · exact h.executed_lt k i ((ht.executed k hkj i).mp hk)
  job k hk := by
    by_cases hkj : k = j
    · exact hkj ▸ hJob
    · have hOld := h.job k (ht.next ▸ hk)
      rw [State.accounts] at hOld ⊢
      rw [ht.origin, ht.threads.runs k hkj, ht.threads.progress k hkj]
      exact hOld.keep (ht.job k hkj) (ht.queue k hkj) (ht.executed k hkj)
  frame f hf := by
    by_cases hfj : f.job? = some j
    · exact hFrame f hf hfj
    · exact ht.frameOk (h.frame f (ht.threads.on f hfj hf)) hfj

end Vyasa.ThreadPool
