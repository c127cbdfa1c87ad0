import Mathlib.Data.List.Nodup
import Vyasa.ThreadPool.Accounting

/-! Every step of the pool keeps the accounts. -/
namespace Vyasa.ThreadPool

open Pool

/-! ### Steps that touch no job -/

/-- Two states that differ in the stacks of the threads and in the counts of semaphores and
threads at most. -/
structure Agrees (s s' : State) : Prop where
  jobs : s'.jobs = s.jobs
  queue : s'.queue = s.queue
  next : s'.next = s.next
  origin : s'.origin = s.origin
  executed : s'.executed = s.executed

theorem Agrees.refl (s : State) : Agrees s s := ⟨rfl, rfl, rfl, rfl, rfl⟩

theorem FrameOk.agrees {s s' : State} {f : Frame} (h : FrameOk s f) (hs : Agrees s s') :
    FrameOk s' f := by
  cases f with
  | user => trivial
  | worker => trivial
  | task k i => simpa only [FrameOk, hs.next, hs.jobs] using h
  | claim k t n => simpa only [FrameOk, hs.next, hs.jobs] using h
  | chunk k t n => simpa only [FrameOk, hs.next, hs.jobs] using h
  | call tasks jobs num_jobs i exit_status =>
    refine CallOk.mono h hs.next.ge (fun k _ => congrFun hs.origin k) fun k _ _ => ?_
    rw [hs.jobs]
    exact ⟨rfl, rfl⟩

theorem Inv.of_agrees {s s' : State} (h : Inv s) (hs : Agrees s s')
    (hRuns : ∀ k, runs k s'.threads = runs k s.threads)
    (hProgress : ∀ k, progress k s'.threads = progress k s.threads)
    (hFrame : ∀ f, On f s'.threads → FrameOk s f) : Inv s' where
  queue_nodup := hs.queue ▸ h.queue_nodup
  executed_nodup := hs.executed ▸ h.executed_nodup
  queue_lt := by
    rw [hs.queue, hs.next]
    exact h.queue_lt
  executed_lt := by
    rw [hs.executed, hs.next]
    exact h.executed_lt
  job k hk := by
    have hOld := h.job k (hs.next ▸ hk)
    rw [State.accounts] at hOld ⊢
    rw [hs.jobs, hs.origin, hs.queue, hs.executed, hRuns, hProgress]
    exact hOld
  frame f hf := (hFrame f hf).agrees hs

/-- A thread that joins the pool works on nothing yet. -/
theorem Inv.newThread {s s' : State} {f : Frame} (h : Inv s) (hs : Agrees s s')
    (hThreads : s'.threads = s.threads ++ [[f]]) (hf : f = .user ∨ f = .worker) : Inv s' := by
  have hJob : f.job? = none := by rcases hf with rfl | rfl <;> rfl
  have hOk : FrameOk s f := by rcases hf with rfl | rfl <;> trivial
  refine h.of_agrees hs (fun k => ?_) (fun k => ?_) fun g hg => ?_
  · rw [hThreads, runs, weight_append]
    simp [runs, hJob]
  · rw [hThreads, progress, weight_append]
    simp [progress, f.progress_eq_zero (j := k) (by simp [hJob])]
  · rw [hThreads, on_append_singleton] at hg
    rcases hg with hg | rfl
    · exact h.frame g hg
    · exact hOk

/-- The semaphores are not part of the accounts. -/
theorem Inv.sameThreads {s s' : State} (h : Inv s) (hs : Agrees s s')
    (hThreads : s'.threads = s.threads) : Inv s' :=
  h.of_agrees hs (fun _ => by rw [hThreads]) (fun _ => by rw [hThreads])
    fun f hf => h.frame f (hThreads ▸ hf)

section Call

variable {s : State} {ts₁ ts₂ : List (List Frame)} {fs : List Frame} {tasks : List Task}
  {jobs num_jobs i : Nat} {exit_status : Int}

theorem Joined.of_status {job : Work} {origin : Task} {status status' : Int}
    (h : Joined job origin status) (hStatus : status' = 0 → status = 0) :
    Joined job origin status' :=
  ⟨h.settled, fun h0 => h.done (hStatus h0)⟩

/-- Nobody works on a job that is not running, and nothing is left of it. -/
theorem settled_of_not_running {job : Work} (h : job.running = false) : job.settled := by
  simpa [Work.running, Work.settled] using h

theorem Inv.join (h : Inv s)
    (hThreads : s.threads = ts₁ ++ (.call tasks jobs num_jobs i exit_status :: fs) :: ts₂)
    (hi : i < num_jobs) (hRunning : (s.jobs (jobs + i)).running = false) :
    Inv (s.withThreads (ts₁ ++ (.call tasks jobs num_jobs (i + 1)
      (if (s.jobs (jobs + i)).exit_status ≠ 0 then (s.jobs (jobs + i)).exit_status
        else exit_status) :: fs) :: ts₂)) := by
  have hCall : CallOk s tasks jobs num_jobs i exit_status := by
    refine h.frame (.call tasks jobs num_jobs i exit_status) ?_
    rw [hThreads, on_push]
    exact .inl rfl
  have hSettled := settled_of_not_running hRunning
  have hAccounts := h.job (jobs + i) (by have := hCall.allocated; omega)
  refine h.of_agrees ⟨rfl, rfl, rfl, rfl, rfl⟩ (fun k => ?_) (fun k => ?_) fun f hf => ?_
  · rw [hThreads, State.withThreads, runs_push_of_ne (by simp [Frame.job?]),
      runs_push_of_ne (by simp [Frame.job?])]
  · rw [hThreads, State.withThreads, progress_push_of_ne (by simp [Frame.job?]),
      progress_push_of_ne (by simp [Frame.job?])]
  · rw [State.withThreads, on_push] at hf
    rcases hf with rfl | hf
    · refine ⟨hCall.allocated, hi, hCall.job, hCall.origin, fun k hk => ?_⟩
      by_cases hki : k = i
      · subst hki
        refine ⟨hSettled, fun hStatus => ?_⟩
        have hExit : (s.jobs (jobs + k)).exit_status = 0 := by
          by_contra hne
          rw [if_pos hne] at hStatus
          exact hne hStatus
        have hEnd := hAccounts.exact hExit
        rw [hSettled.1, add_zero] at hEnd
        exact hEnd
      · refine (hCall.joined k (by omega)).of_status fun hStatus => ?_
        by_contra hne
        split at hStatus
        · rename_i hExit
          exact hExit hStatus
        · exact hne hStatus
    · refine h.frame f ?_
      rw [hThreads, on_push]
      exact .inr hf

theorem Inv.return (h : Inv s)
    (hThreads : s.threads = ts₁ ++ (.call tasks jobs num_jobs i exit_status :: fs) :: ts₂) :
    Inv (s.withThreads (ts₁ ++ fs :: ts₂)) := by
  refine h.of_agrees ⟨rfl, rfl, rfl, rfl, rfl⟩ (fun k => ?_) (fun k => ?_) fun f hf => ?_
  · rw [hThreads, runs_push_of_ne (by simp [Frame.job?])]
    rfl
  · rw [hThreads, progress_push_of_ne (by simp [Frame.job?])]
    rfl
  · refine h.frame f ?_
    rw [hThreads, on_push]
    exact .inr hf

end Call

/-! ### New jobs -/

/-- Nobody works on a job that is not there yet. -/
theorem Inv.runs_of_ge {s : State} (h : Inv s) {k : Nat} (hk : s.next ≤ k) :
    runs k s.threads = 0 := by
  refine runs_eq_zero fun f hf hJob => ?_
  have hOk := h.frame f hf
  cases f with
  | task j i =>
    obtain rfl : j = k := Option.some.inj hJob
    exact absurd hOk.1 (by omega)
  | claim j t n =>
    obtain rfl : j = k := Option.some.inj hJob
    exact absurd hOk.1 (by omega)
  | chunk j t n =>
    obtain rfl : j = k := Option.some.inj hJob
    exact absurd hOk.1 (by omega)
  | user => cases hJob
  | worker => cases hJob
  | call tasks jobs num_jobs i exit_status => cases hJob

/-- A job that was just filled in. -/
theorem accounts_newJob {parent : Option Nat} {jobs num_jobs : Nat} {garbage : Work} {t : Task}
    {queued : Prop} {executed : Int → Prop} (hPos : 0 < t.extent) (hQueued : queued)
    (hExecuted : ∀ i, ¬ executed i) :
    Accounts (newJob parent jobs num_jobs garbage (some t)) t queued 0 0 executed where
  initialised := rfl
  extent_nonneg := hPos.le
  pos_of_queued _ := hPos
  queued_of_parallel _ _ := hQueued
  queued_of_serial _ _ _ := hQueued
  serial_alone _ := ⟨by omega, fun _ => rfl⟩
  active := rfl
  min_le := le_rfl
  le_end := le_rfl
  exact _ := rfl
  progress_le := hPos.le
  executed_iff i := by
    refine ⟨fun hi => absurd hi (hExecuted i), fun hi => ?_⟩
    have hMin : t.min ≤ i ∧ i < t.min + 0 := hi
    omega

theorem Inv.enqueue {s : State} {ts₁ ts₂ : List (List Frame)} {fs : List Frame}
    {tasks : List Task} {num : Nat} {slots : Nat → Option Task} (h : Inv s)
    (hThreads : s.threads = ts₁ ++ fs :: ts₂) (hFilled : Filled tasks 0 num slots)
    (garbage : Nat → Work) (parent : Option Nat) :
    Inv ((enqueue_work_already_locked s num slots garbage parent).withThreads
      (ts₁ ++ (.call tasks s.next num 0 0 :: fs) :: ts₂)) := by
  have hSlot : ∀ k, s.next ≤ k → k < s.next + num → ∃ t, tasks[k - s.next]? = some t ∧
      0 < t.extent ∧ slots (k - s.next) = some t := by
    intro k hLe hLt
    obtain ⟨t, ht, hPos⟩ := (hFilled.lt (k - s.next)).mp (by omega)
    have hFill := hFilled.slot _ t ht hPos
    rw [zero_add] at hFill
    exact ⟨t, ht, hPos, hFill⟩
  have hOld : ∀ k < s.next, ¬ (s.next ≤ k ∧ k < s.next + num) := fun k hk hNew => by omega
  have hRuns : ∀ k, runs k (ts₁ ++ (.call tasks s.next num 0 0 :: fs) :: ts₂) =
      runs k s.threads := by
    intro k
    rw [hThreads, runs_push_of_ne (by simp [Frame.job?])]
  have hProgress : ∀ k, progress k (ts₁ ++ (.call tasks s.next num 0 0 :: fs) :: ts₂) =
      progress k s.threads := by
    intro k
    rw [hThreads, progress_push_of_ne (by simp [Frame.job?])]
  have hMem : ∀ k < s.next, k ∈ List.range' s.next num ++ s.queue ↔ k ∈ s.queue := by
    intro k hk
    simp only [List.mem_append, List.mem_range'_1, hOld k hk, false_or]
  refine ⟨?_, h.executed_nodup, fun k hk => ?_, fun k i hk => ?_, fun k hk => ?_, fun f hf => ?_⟩
  · refine List.nodup_append.mpr ⟨List.nodup_range', h.queue_nodup, fun a ha b hb hab => ?_⟩
    have hLe := (List.mem_range'_1.mp ha).1
    have hLt := h.queue_lt b hb
    omega
  · change k ∈ List.range' s.next num ++ s.queue at hk
    change k < s.next + num
    rcases List.mem_append.mp hk with hk | hk
    · exact (List.mem_range'_1.mp hk).2
    · have hLt := h.queue_lt k hk
      omega
  · have hLt := h.executed_lt k i hk
    change k < s.next + num
    omega
  · change k < s.next + num at hk
    rw [State.accounts, State.withThreads, hRuns, hProgress]
    dsimp only [enqueue_work_already_locked]
    by_cases hNew : s.next ≤ k
    · obtain ⟨t, -, hPos, hFill⟩ := hSlot k hNew hk
      have hIdle := h.runs_of_ge hNew
      rw [if_pos ⟨hNew, hk⟩, if_pos ⟨hNew, hk⟩, hFill, hIdle, progress_eq_zero hIdle]
      refine accounts_newJob hPos ?_ fun i hi => ?_
      · exact List.mem_append_left _ (List.mem_range'_1.mpr ⟨hNew, hk⟩)
      · have hLt := h.executed_lt k i hi
        omega
    · have hLt : k < s.next := by omega
      rw [if_neg (hOld k hLt), if_neg (hOld k hLt)]
      exact (h.job k hLt).keep (Keeps.refl _) (hMem k hLt) fun _ => Iff.rfl
  · rw [State.withThreads, on_push] at hf
    rcases hf with rfl | hf
    · refine ⟨le_rfl, Nat.zero_le _, fun k => ?_, fun k t ht hPos => ?_, fun k hk => ?_⟩
      · simpa using hFilled.lt k
      · have hk := (hFilled.lt k).mpr ⟨t, ht, hPos⟩
        have hFill := hFilled.slot k t ht hPos
        rw [zero_add] at hk hFill
        dsimp only [State.withThreads, enqueue_work_already_locked]
        rw [if_pos ⟨by omega, by omega⟩, Nat.add_sub_cancel_left, hFill]
        rfl
      · omega
    · have hOk := h.frame f (by rw [hThreads]; exact hf)
      have hJobs : ∀ k < s.next,
          ((enqueue_work_already_locked s num slots garbage parent).withThreads
            (ts₁ ++ (.call tasks s.next num 0 0 :: fs) :: ts₂)).jobs k = s.jobs k :=
        fun k hk => if_neg (hOld k hk)
      cases f with
      | user => trivial
      | worker => trivial
      | task k i =>
        refine ⟨hOk.1.trans_le (Nat.le_add_right _ _), ?_⟩
        rw [hJobs k hOk.1]
        exact hOk.2
      | claim k t n =>
        refine ⟨hOk.1.trans_le (Nat.le_add_right _ _), ?_⟩
        rw [hJobs k hOk.1]
        exact hOk.2
      | chunk k t n =>
        refine ⟨hOk.1.trans_le (Nat.le_add_right _ _), ?_⟩
        rw [hJobs k hOk.1]
        exact hOk.2
      | call tasks jobs num_jobs i exit_status =>
        refine CallOk.mono hOk (Nat.le_add_right _ _) (fun k hk => if_neg (hOld k hk))
          fun k hk _ => ?_
        rw [hJobs k hk]
        exact ⟨rfl, rfl⟩

/-! ### Work on a job -/

section Accounts

variable {job : Work} {origin : Task} {queued queued' : Prop} {runs progress : Int}
  {executed executed' : Int → Prop}

theorem Accounts.startSerial (h : Accounts job origin queued runs progress executed)
    (hIdle : runs = 0) (hSerial : job.task.serial = true) (hGone : ¬ queued') :
    Accounts { job with active_workers := job.active_workers + 1 } origin queued' 1 progress
      executed where
  initialised := h.initialised
  extent_nonneg := h.extent_nonneg
  pos_of_queued hq := absurd hq hGone
  queued_of_parallel hPar := absurd hPar (by simp [hSerial])
  queued_of_serial _ _ hOne := absurd hOne (by omega)
  serial_alone _ := ⟨le_rfl, fun hq => absurd hq hGone⟩
  active := by
    have hActive := h.active
    dsimp only
    omega
  min_le := h.min_le
  le_end := h.le_end
  exact := h.exact
  progress_le := h.progress_le
  executed_iff := h.executed_iff

theorem Accounts.startParallel (h : Accounts job origin queued runs progress executed)
    (hNone : progress = 0) (hSerial : job.task.serial = false) (hPos : 0 < job.task.extent)
    (hQueued : queued' ↔ 0 < job.task.extent - 1)
    (hExecuted : ∀ i, executed' i ↔ i = job.task.min ∨ executed i) :
    Accounts
      { job with
        task := { job.task with min := job.task.min + 1, extent := job.task.extent - 1 }
        active_workers := job.active_workers + 1 }
      origin queued' (runs + 1) 0 executed' where
  initialised := h.initialised
  extent_nonneg := by
    dsimp only
    omega
  pos_of_queued := hQueued.mp
  queued_of_parallel _ := hQueued.mpr
  queued_of_serial hSer := absurd hSer (by simp [hSerial])
  serial_alone hSer := absurd hSer (by simp [hSerial])
  active := by
    have hActive := h.active
    dsimp only
    omega
  min_le := by
    have hMin := h.min_le
    dsimp only
    omega
  le_end := by
    have hEnd := h.le_end
    dsimp only
    omega
  exact hExit := by
    have hExact := h.exact hExit
    dsimp only
    omega
  progress_le := by
    dsimp only
    omega
  executed_iff i := by
    have hMin := h.min_le
    rw [hExecuted, h.executed_iff]
    dsimp only
    omega

/-- A task has returned, with or without an error. -/
theorem Accounts.finish {status : Int} (h : Accounts job origin queued runs progress executed)
    (hSerial : job.task.serial = false) (hStatus : status = 0 → job.exit_status = 0) :
    Accounts { job with exit_status := status, active_workers := job.active_workers - 1 } origin
      queued (runs - 1) progress executed where
  initialised := h.initialised
  extent_nonneg := h.extent_nonneg
  pos_of_queued := h.pos_of_queued
  queued_of_parallel := h.queued_of_parallel
  queued_of_serial hSer := absurd hSer (by simp [hSerial])
  serial_alone hSer := absurd hSer (by simp [hSerial])
  active := by
    have hActive := h.active
    dsimp only
    omega
  min_le := h.min_le
  le_end := h.le_end
  exact hExit := h.exact (hStatus hExit)
  progress_le := h.progress_le
  executed_iff := h.executed_iff

/-- The worker of a serial job books what it has done and leaves. -/
theorem Accounts.leave {status extent : Int} (h : Accounts job origin queued runs progress executed)
    (hRuns : runs = 1) (hSerial : job.task.serial = true)
    (hStatus : status = 0 → job.exit_status = 0 ∧ extent = job.task.extent - progress)
    (hNonneg : 0 ≤ progress) (hLe : 0 ≤ extent ∧ extent ≤ job.task.extent - progress)
    (hQueued : queued' ↔ 0 < extent) :
    Accounts
      { job with
        task := { job.task with min := job.task.min + progress, extent := extent }
        exit_status := status, active_workers := job.active_workers - 1 }
      origin queued' 0 0 executed where
  initialised := h.initialised
  extent_nonneg := hLe.1
  pos_of_queued := hQueued.mp
  queued_of_parallel hPar := absurd hPar (by simp [hSerial])
  queued_of_serial _ hPos _ := hQueued.mpr hPos
  serial_alone _ := ⟨by omega, fun _ => rfl⟩
  active := by
    have hActive := h.active
    dsimp only
    omega
  min_le := by
    have hMin := h.min_le
    dsimp only
    omega
  le_end := by
    have hEnd := h.le_end
    dsimp only
    omega
  exact hExit := by
    obtain ⟨hExit, hExtent⟩ := hStatus hExit
    have hExact := h.exact hExit
    dsimp only
    omega
  progress_le := hLe.1
  executed_iff i := by
    rw [h.executed_iff]
    dsimp only
    omega

/-- The owner gives up a failed job that nobody works on. -/
theorem Accounts.unlink (h : Accounts job origin queued runs progress executed)
    (hNone : progress = 0) (hFailed : job.exit_status ≠ 0) (hGone : ¬ queued') :
    Accounts { job with task := { job.task with extent := 0 } } origin queued' runs progress
      executed where
  initialised := h.initialised
  extent_nonneg := le_rfl
  pos_of_queued hq := absurd hq hGone
  queued_of_parallel _ hPos := absurd hPos (lt_irrefl _)
  queued_of_serial _ hPos := absurd hPos (lt_irrefl _)
  serial_alone hSer := ⟨(h.serial_alone hSer).1, fun hq => absurd hq hGone⟩
  active := h.active
  min_le := h.min_le
  le_end := by
    have hEnd := h.le_end
    have hNonneg := h.extent_nonneg
    dsimp only
    omega
  exact hExit := absurd hExit hFailed
  progress_le := hNone.le
  executed_iff := h.executed_iff

end Accounts

section Work

variable {s : State} {ts₁ ts₂ : List (List Frame)} {fs : List Frame} {f : Frame} {j : Nat}

/-- A job that is not serial has no iterations in flight. -/
theorem Inv.progress_of_parallel (h : Inv s) (hSerial : (s.jobs j).task.serial = false) :
    progress j s.threads = 0 := by
  refine weight_eq_zero fun f hf => ?_
  have hOk := h.frame f hf
  cases f with
  | claim k t n =>
    refine if_neg fun hk => ?_
    subst hk
    exact absurd hOk.2.1 (by simp [hSerial])
  | chunk k t n =>
    refine if_neg fun hk => ?_
    subst hk
    exact absurd hOk.2.1 (by simp [hSerial])
  | user => rfl
  | worker => rfl
  | task k i => rfl
  | call tasks jobs num_jobs i exit_status => rfl

/-- The frames on a job that is not serial ask for nothing else. -/
theorem frameOk_of_parallel {s' : State} (hOk : FrameOk s f) (hJob : f.job? = some j)
    (hSerial : (s.jobs j).task.serial = false) (hNext : s.next ≤ s'.next)
    (hSerial' : (s'.jobs j).task.serial = false) : FrameOk s' f := by
  cases f with
  | task k i =>
    obtain rfl : k = j := Option.some.inj hJob
    exact ⟨hOk.1.trans_le hNext, hSerial'⟩
  | claim k t n =>
    obtain rfl : k = j := Option.some.inj hJob
    exact absurd hOk.2.1 (by simp [hSerial])
  | chunk k t n =>
    obtain rfl : k = j := Option.some.inj hJob
    exact absurd hOk.2.1 (by simp [hSerial])
  | user => cases hJob
  | worker => cases hJob
  | call tasks jobs num_jobs i exit_status => cases hJob

theorem not_on_of_runs (hRuns : runs j s.threads = 0) (hJob : f.job? = some j) :
    ¬ On f s.threads := by
  intro hOn
  have hOne := one_le_runs hOn hJob
  omega

/-- Nobody else works on a serial job. -/
theorem Inv.runs_rest (h : Inv s) (hThreads : s.threads = ts₁ ++ (f :: fs) :: ts₂)
    (hJob : f.job? = some j) (hj : j < s.next) (hSerial : (s.jobs j).task.serial = true) :
    runs j (ts₁ ++ fs :: ts₂) = 0 := by
  have hLe := ((h.job j hj).serial_alone hSerial).1
  rw [hThreads, runs_push_self hJob] at hLe
  have hNonneg : 0 ≤ runs j (ts₁ ++ fs :: ts₂) := runs_nonneg
  omega

theorem Inv.startSerial (h : Inv s) (hThreads : s.threads = ts₁ ++ fs :: ts₂) (hj : j ∈ s.queue)
    (hSerial : (s.jobs j).task.serial = true) :
    Inv ((startSerial s j).withThreads (ts₁ ++ (.claim j 0 1 :: fs) :: ts₂)) := by
  have hLt := h.queue_lt j hj
  have hOld := h.job j hLt
  have hPos := hOld.pos_of_queued hj
  have hIdle : runs j s.threads = 0 := (hOld.serial_alone hSerial).2 hj
  have hRuns : runs j (ts₁ ++ (.claim j 0 1 :: fs) :: ts₂) = 1 := by
    rw [runs_push_self rfl, ← hThreads, hIdle, zero_add]
  have hProgress : progress j (ts₁ ++ (.claim j 0 1 :: fs) :: ts₂) = progress j s.threads := by
    rw [progress_push, ← hThreads]
    simp [Frame.progress]
  have hActive := hOld.active
  have hJobs : ((Vyasa.ThreadPool.startSerial s j).withThreads
      (ts₁ ++ (.claim j 0 1 :: fs) :: ts₂)).jobs j =
      { s.jobs j with active_workers := (s.jobs j).active_workers + 1 } :=
    Function.update_self ..
  have hGone : ¬ j ∈ s.queue.erase j := h.queue_nodup.not_mem_erase
  refine h.of_touches (j := j) ⟨rfl, rfl, fun k hk => ?_, fun k hk i => Iff.rfl, ?_, fun k hk => ?_,
    fun hSettled => ?_⟩ hLt (h.queue_nodup.erase j) h.executed_nodup ?_ fun g hg hgJob => ?_
  · exact List.mem_erase_of_ne hk
  · rw [hThreads]
    exact SameBut.push rfl
  · rw [show ((Vyasa.ThreadPool.startSerial s j).withThreads
      (ts₁ ++ (.claim j 0 1 :: fs) :: ts₂)).jobs k = s.jobs k from Function.update_of_ne hk _ _]
    exact Keeps.refl _
  · exact absurd hSettled.1 hPos.ne'
  · rw [State.accounts, hJobs]
    dsimp only [State.withThreads]
    rw [hRuns, hProgress]
    exact hOld.startSerial hIdle hSerial hGone
  · rcases on_push.mp hg with rfl | hg
    · refine ⟨hLt, ?_⟩
      rw [hJobs]
      exact ⟨hSerial, le_rfl, by omega, by dsimp only; omega⟩
    · rw [← hThreads] at hg
      exact absurd hg (not_on_of_runs hIdle hgJob)

theorem Inv.startParallel (h : Inv s) (hThreads : s.threads = ts₁ ++ fs :: ts₂)
    (hj : j ∈ s.queue) (hSerial : (s.jobs j).task.serial = false) (index : Int) :
    Inv ((startParallel s j).withThreads (ts₁ ++ (.task j index :: fs) :: ts₂)) := by
  have hLt := h.queue_lt j hj
  have hOld := h.job j hLt
  have hPos := hOld.pos_of_queued hj
  have hNone := h.progress_of_parallel hSerial
  have hRuns : runs j (ts₁ ++ (.task j index :: fs) :: ts₂) = runs j s.threads + 1 := by
    rw [runs_push_self rfl, ← hThreads]
  have hProgress : progress j (ts₁ ++ (.task j index :: fs) :: ts₂) = 0 := by
    rw [progress_push, ← hThreads, hNone]
    rfl
  have hJobs : ((Vyasa.ThreadPool.startParallel s j).withThreads
      (ts₁ ++ (.task j index :: fs) :: ts₂)).jobs j =
      { s.jobs j with
        task := { (s.jobs j).task with
          min := (s.jobs j).task.min + 1, extent := (s.jobs j).task.extent - 1 }
        active_workers := (s.jobs j).active_workers + 1 } :=
    Function.update_self ..
  have hExecuted : ∀ i, (j, i) ∈ s.executed ↔
      (s.origin j).min ≤ i ∧ i < (s.jobs j).task.min := by
    intro i
    rw [hOld.executed_iff i, hNone, add_zero]
  have hMem : j ∈ (if (s.jobs j).task.extent - 1 = 0 then s.queue.erase j else s.queue) ↔
      0 < (s.jobs j).task.extent - 1 := by
    split
    · rename_i hLast
      refine ⟨fun hq => absurd hq h.queue_nodup.not_mem_erase, fun hq => ?_⟩
      omega
    · rename_i hMore
      refine ⟨fun _ => by omega, fun _ => hj⟩
  refine h.of_touches (j := j) ⟨rfl, rfl, fun k hk => ?_, fun k hk i => ?_, ?_, fun k hk => ?_,
    fun hSettled => ?_⟩ hLt ?_ ?_ ?_ fun g hg hgJob => ?_
  · change k ∈ (if (s.jobs j).task.extent - 1 = 0 then s.queue.erase j else s.queue) ↔ _
    split
    · exact List.mem_erase_of_ne hk
    · exact Iff.rfl
  · change (k, i) ∈ (j, (s.jobs j).task.min) :: s.executed ↔ _
    simp [hk]
  · rw [hThreads]
    exact SameBut.push rfl
  · rw [show ((Vyasa.ThreadPool.startParallel s j).withThreads
      (ts₁ ++ (.task j index :: fs) :: ts₂)).jobs k = s.jobs k from Function.update_of_ne hk _ _]
    exact Keeps.refl _
  · exact absurd hSettled.1 hPos.ne'
  · change (if (s.jobs j).task.extent - 1 = 0 then s.queue.erase j else s.queue).Nodup
    split
    · exact h.queue_nodup.erase j
    · exact h.queue_nodup
  · refine List.nodup_cons.mpr ⟨fun hMin => ?_, h.executed_nodup⟩
    have hOut := ((hExecuted _).mp hMin).2
    omega
  · rw [State.accounts, hJobs]
    dsimp only [State.withThreads]
    rw [hRuns, hProgress]
    refine hOld.startParallel hNone hSerial hPos hMem fun i => ?_
    change (j, i) ∈ (j, (s.jobs j).task.min) :: s.executed ↔ _
    rw [List.mem_cons, Prod.mk.injEq]
    simp
  · have hSerial' : (((Vyasa.ThreadPool.startParallel s j).withThreads
        (ts₁ ++ (.task j index :: fs) :: ts₂)).jobs j).task.serial = false := by
      rw [hJobs]
      exact hSerial
    rcases on_push.mp hg with rfl | hg
    · exact ⟨hLt, hSerial'⟩
    · rw [← hThreads] at hg
      exact frameOk_of_parallel (h.frame g hg) hgJob hSerial le_rfl hSerial'

/-! ### The end of an iteration of the worker loop -/

/-- The exit status of a job after one of its tasks has returned. -/
def failStatus (job : Work) (result : Int) : Int :=
  if result ≠ 0 then result else job.exit_status

theorem failStatus_eq_zero {job : Work} {result : Int} (h : failStatus job result = 0) :
    result = 0 ∧ job.exit_status = 0 := by
  rw [failStatus] at h
  split at h
  · rename_i hne
    exact absurd h hne
  · rename_i heq
    exact ⟨not_not.mp heq, h⟩

theorem endWork_self (s : State) (j : Nat) (result : Int) :
    (endWork s j result).jobs j =
      { s.jobs j with
        exit_status := failStatus (s.jobs j) result
        active_workers := (s.jobs j).active_workers - 1 } := by
  rw [endWork]
  by_cases hResult : result ≠ 0
  · simp [hResult, reserve, setJob, markFailed, failStatus]
  · simp [hResult, reserve, setJob, failStatus]

theorem endWork_keeps (s : State) {j k : Nat} (result : Int) (hk : k ≠ j) :
    Keeps (s.jobs k) ((endWork s j result).jobs k) := by
  rw [endWork]
  by_cases hResult : result ≠ 0
  · simp only [if_pos hResult, reserve, setJob, Function.update_of_ne hk, markFailed, if_neg hk]
    split
    · rename_i hSibling
      exact ⟨rfl, rfl, rfl, fun _ => hSibling.2.2⟩
    · exact Keeps.refl _
  · simp only [if_neg hResult, reserve, setJob, Function.update_of_ne hk]
    exact Keeps.refl _

theorem endWork_queue (s : State) (j : Nat) (result : Int) :
    (endWork s j result).queue = s.queue := by
  rw [endWork]
  split <;> rfl

theorem endWork_next (s : State) (j : Nat) (result : Int) :
    (endWork s j result).next = s.next := by
  rw [endWork]
  split <;> rfl

theorem endWork_origin (s : State) (j : Nat) (result : Int) :
    (endWork s j result).origin = s.origin := by
  rw [endWork]
  split <;> rfl

theorem endWork_executed (s : State) (j : Nat) (result : Int) :
    (endWork s j result).executed = s.executed := by
  rw [endWork]
  split <;> rfl

theorem Inv.finish {index : Int} (h : Inv s)
    (hThreads : s.threads = ts₁ ++ (.task j index :: fs) :: ts₂) (result : Int) :
    Inv ((endWork s j result).withThreads (ts₁ ++ fs :: ts₂)) := by
  obtain ⟨hLt, hSerial⟩ : FrameOk s (.task j index) := by
    refine h.frame _ ?_
    rw [hThreads]
    exact on_push.mpr (.inl rfl)
  have hOld := h.job j hLt
  have hRuns : runs j (ts₁ ++ fs :: ts₂) = runs j s.threads - 1 := by
    rw [hThreads, runs_push_self rfl]
    omega
  have hProgress : progress j (ts₁ ++ fs :: ts₂) = progress j s.threads := by
    rw [hThreads, progress_push]
    simp [Frame.progress]
  have hOne : 1 ≤ runs j s.threads :=
    one_le_runs (f := .task j index) (by rw [hThreads]; exact on_push.mpr (.inl rfl)) rfl
  refine h.of_touches (j := j) ⟨endWork_next .., endWork_origin .., fun k hk => ?_, fun k hk i => ?_,
    ?_, fun k hk => endWork_keeps s result hk, fun hSettled => ?_⟩ hLt ?_ ?_ ?_ fun g hg hgJob => ?_
  · rw [State.withThreads, endWork_queue]
  · rw [State.withThreads, endWork_executed]
  · rw [hThreads]
    exact SameBut.pop rfl
  · have hActive := hOld.active
    have hZero := hSettled.2
    omega
  · rw [State.withThreads, endWork_queue]
    exact h.queue_nodup
  · rw [State.withThreads, endWork_executed]
    exact h.executed_nodup
  · rw [State.accounts, State.withThreads]
    dsimp only
    rw [endWork_self, endWork_queue, endWork_origin, endWork_executed, hRuns, hProgress]
    exact hOld.finish hSerial fun hStatus => (failStatus_eq_zero hStatus).2
  · have hOk := h.frame g (by rw [hThreads]; exact on_push.mpr (.inr hg))
    refine frameOk_of_parallel hOk hgJob hSerial (endWork_next s j result).ge ?_
    rw [State.withThreads]
    dsimp only
    rw [endWork_self]
    exact hSerial

/-- The worker of a serial job leaves it, with or without an error. -/
theorem Inv.leaveSerial {total_iters result : Int} (h : Inv s) (iters : Int)
    (hThreads : s.threads = ts₁ ++ (f :: fs) :: ts₂) (hJob : f.job? = some j)
    (hProgress : f.progress j = total_iters) (hOk : j < s.next ∧ (s.jobs j).task.serial = true ∧
      0 ≤ total_iters ∧ 0 ≤ iters ∧ total_iters + iters ≤ (s.jobs j).task.extent) :
    Inv ((endWork (returnSerial s j total_iters result) j result).withThreads
      (ts₁ ++ fs :: ts₂)) := by
  obtain ⟨hLt, hSerial, hNonneg, hIters, hLe⟩ := hOk
  have hOld := h.job j hLt
  have hRest := h.runs_rest hThreads hJob hLt hSerial
  have hRuns : runs j s.threads = 1 := by
    rw [hThreads, runs_push_self hJob, hRest, zero_add]
  have hTotal : progress j s.threads = total_iters := by
    rw [hThreads, progress_push, progress_eq_zero hRest, hProgress, zero_add]
  have hNone : ¬ j ∈ s.queue := by
    intro hq
    have hIdle := (hOld.serial_alone hSerial).2 hq
    omega
  have hQueue : ((returnSerial s j total_iters result).queue = s.queue ∧
      ¬ (result = 0 ∧ (s.jobs j).task.extent - total_iters > 0)) ∨
      ((returnSerial s j total_iters result).queue = j :: s.queue ∧
        result = 0 ∧ (s.jobs j).task.extent - total_iters > 0) := by
    rw [returnSerial]
    by_cases hResult : result = 0
    · by_cases hMore : (s.jobs j).task.extent - total_iters > 0
      · exact .inr ⟨by simpa [hResult] using hMore, hResult, hMore⟩
      · exact .inl ⟨by simpa [hResult] using hMore, fun hBoth => hMore hBoth.2⟩
    · exact .inl ⟨by simp [hResult], fun hBoth => hResult hBoth.1⟩
  have hJobs : (returnSerial s j total_iters result).jobs j =
      { s.jobs j with
        task := { (s.jobs j).task with
          min := (s.jobs j).task.min + total_iters
          extent := if result ≠ 0 then 0 else (s.jobs j).task.extent - total_iters } } :=
    Function.update_self ..
  refine h.of_touches (j := j) ⟨endWork_next .., endWork_origin .., fun k hk => ?_, fun k hk i => ?_,
    ?_, fun k hk => ?_, fun hSettled => ?_⟩ hLt ?_ ?_ ?_ fun g hg hgJob => ?_
  · rw [State.withThreads, endWork_queue]
    rcases hQueue with ⟨hQueue, -⟩ | ⟨hQueue, -⟩
    · rw [hQueue]
    · rw [hQueue]
      simp [hk]
  · rw [State.withThreads, endWork_executed]
    rfl
  · rw [hThreads]
    exact SameBut.pop hJob
  · have hKeep := endWork_keeps (returnSerial s j total_iters result) result hk
    rw [show (returnSerial s j total_iters result).jobs k = s.jobs k from
      Function.update_of_ne hk _ _] at hKeep
    exact hKeep
  · have hActive := hOld.active
    have hZero := hSettled.2
    omega
  · rw [State.withThreads, endWork_queue]
    rcases hQueue with ⟨hQueue, -⟩ | ⟨hQueue, -⟩
    · rw [hQueue]
      exact h.queue_nodup
    · rw [hQueue]
      exact List.nodup_cons.mpr ⟨hNone, h.queue_nodup⟩
  · rw [State.withThreads, endWork_executed]
    exact h.executed_nodup
  · rw [State.accounts, State.withThreads]
    dsimp only
    rw [endWork_self, endWork_queue, endWork_origin, endWork_executed, hRest,
      progress_eq_zero hRest, hJobs]
    rw [State.accounts, hTotal] at hOld
    refine hOld.leave hRuns hSerial (fun hStatus => ?_) hNonneg ?_ ?_
    · obtain ⟨hResult, hExit⟩ := failStatus_eq_zero hStatus
      exact ⟨hExit, if_neg (not_not.mpr hResult)⟩
    · split <;> omega
    · rcases hQueue with ⟨hQueue, hStop⟩ | ⟨hQueue, hResult, hMore⟩
      · rw [hQueue]
        refine ⟨fun hq => absurd hq hNone, fun hPos => ?_⟩
        split at hPos
        · omega
        · rename_i hResult
          exact absurd ⟨not_not.mp hResult, hPos⟩ hStop
      · rw [hQueue, if_neg (not_not.mpr hResult)]
        exact ⟨fun _ => hMore, fun _ => List.mem_cons_self⟩
  · have hOne := one_le_runs hg hgJob
    dsimp only [State.withThreads] at hOne
    omega

/-! ### The claims of a serial job -/

theorem Accounts.advance {job : Work} {origin : Task} {queued : Prop} {runs progress n : Int}
    {executed executed' : Int → Prop} (h : Accounts job origin queued runs progress executed)
    (hn : 0 ≤ n) (hProgress : 0 ≤ progress) (hLe : progress + n ≤ job.task.extent)
    (hExecuted : ∀ i, executed' i ↔
      (job.task.min + progress ≤ i ∧ i < job.task.min + progress + n) ∨ executed i) :
    Accounts job origin queued runs (progress + n) executed' where
  initialised := h.initialised
  extent_nonneg := h.extent_nonneg
  pos_of_queued := h.pos_of_queued
  queued_of_parallel := h.queued_of_parallel
  queued_of_serial := h.queued_of_serial
  serial_alone := h.serial_alone
  active := h.active
  min_le := h.min_le
  le_end := h.le_end
  exact := h.exact
  progress_le := hLe
  executed_iff i := by
    have hMin := h.min_le
    rw [hExecuted, h.executed_iff]
    omega

/-- The worker of a serial job goes on to another state of its loop. -/
theorem Inv.advance {s' : State} (h : Inv s) (g : Frame) (n : Int) (new : List (Nat × Int))
    (hThreads : s.threads = ts₁ ++ (f :: fs) :: ts₂)
    (hThreads' : s'.threads = ts₁ ++ (g :: fs) :: ts₂) (hf : f.job? = some j)
    (hg : g.job? = some j) (hLt : j < s.next) (hSerial : (s.jobs j).task.serial = true)
    (hJobs : s'.jobs = s.jobs) (hQueue : s'.queue = s.queue) (hNext : s'.next = s.next)
    (hOrigin : s'.origin = s.origin) (hExecuted : s'.executed = new ++ s.executed)
    (hn : 0 ≤ n) (hNonneg : 0 ≤ f.progress j) (hProgress : g.progress j = f.progress j + n)
    (hLe : f.progress j + n ≤ (s.jobs j).task.extent)
    (hNew : ∀ p, p ∈ new ↔ p.1 = j ∧ (s.jobs j).task.min + f.progress j ≤ p.2 ∧
      p.2 < (s.jobs j).task.min + f.progress j + n)
    (hNodup : new.Nodup) (hOk : FrameOk s g) : Inv s' := by
  have hOld := h.job j hLt
  have hRest := h.runs_rest hThreads hf hLt hSerial
  have hTotal : progress j s.threads = f.progress j := by
    rw [hThreads, progress_push, progress_eq_zero hRest, zero_add]
  have hTotal' : progress j s'.threads = f.progress j + n := by
    rw [hThreads', progress_push, progress_eq_zero hRest, zero_add, hProgress]
  have hRuns : runs j s'.threads = runs j s.threads := by
    rw [hThreads, hThreads', runs_push_self hf, runs_push_self hg]
  have hOk' : FrameOk s' g := by
    cases g with
    | claim k t m => simpa only [FrameOk, hNext, hJobs] using hOk
    | chunk k t m => simpa only [FrameOk, hNext, hJobs] using hOk
    | task k i => simpa only [FrameOk, hNext, hJobs] using hOk
    | user => cases hg
    | worker => cases hg
    | call tasks jobs num_jobs i exit_status => cases hg
  refine h.of_touches (j := j) ⟨hNext, hOrigin, fun k _ => by rw [hQueue], fun k hk i => ?_, ?_,
    fun k _ => ?_, fun _ => ?_⟩ hLt ?_ ?_ ?_ fun x hx hxJob => ?_
  · rw [hExecuted, List.mem_append, hNew]
    simp [hk]
  · rw [hThreads, hThreads']
    exact (SameBut.pop hf).trans (SameBut.push hg)
  · rw [hJobs]
    exact Keeps.refl _
  · rw [hJobs]
    exact ⟨rfl, rfl⟩
  · rw [hQueue]
    exact h.queue_nodup
  · rw [hExecuted]
    refine List.nodup_append.mpr ⟨hNodup, h.executed_nodup, fun p hp q hq hpq => ?_⟩
    subst hpq
    obtain ⟨k, i⟩ := p
    obtain ⟨hkj, hLow, -⟩ := (hNew _).mp hp
    obtain rfl : k = j := hkj
    have hHigh := ((hOld.executed_iff i).mp hq).2
    rw [hTotal] at hHigh
    dsimp only at hLow
    omega
  · rw [State.accounts, hTotal] at hOld
    rw [State.accounts, hJobs, hOrigin, hQueue, hRuns, hTotal', hExecuted]
    refine hOld.advance hn hNonneg hLe fun i => ?_
    rw [List.mem_append, hNew]
    simp
  · rw [hThreads'] at hx
    rcases on_push.mp hx with rfl | hx
    · exact hOk'
    · have hOne := one_le_runs hx hxJob
      omega

theorem mem_range_map {j : Nat} {low n : Int} {p : Nat × Int} :
    p ∈ (List.range n.toNat).map (fun (k : Nat) => (j, low + k)) ↔
      p.1 = j ∧ low ≤ p.2 ∧ p.2 < low + n := by
  obtain ⟨k, i⟩ := p
  simp only [List.mem_map, List.mem_range, Prod.mk.injEq]
  constructor
  · rintro ⟨m, hm, rfl, rfl⟩
    refine ⟨rfl, by omega, by omega⟩
  · rintro ⟨rfl, hLow, hHigh⟩
    exact ⟨(i - low).toNat, by omega, rfl, by omega⟩

theorem nodup_range_map {j : Nat} {low n : Int} :
    ((List.range n.toNat).map (fun (k : Nat) => (j, low + k))).Nodup := by
  refine List.Nodup.map (fun a b hab => ?_) List.nodup_range
  have hEq := congrArg Prod.snd hab
  dsimp only at hEq
  omega

/-! ### Failed jobs -/

theorem Inv.unlink (h : Inv s) (hj : j < s.next) (hRunning : (s.jobs j).running = true)
    (hFailed : (s.jobs j).exit_status ≠ 0) (hIdle : (s.jobs j).active_workers = 0) :
    Inv (unlink s j) := by
  have hOld := h.job j hj
  have hRuns : runs j s.threads = 0 := hOld.active.symm.trans hIdle
  have hJobs : (Vyasa.ThreadPool.unlink s j).jobs j =
      { s.jobs j with task := { (s.jobs j).task with extent := 0 } } :=
    Function.update_self ..
  refine h.of_touches (j := j) ⟨rfl, rfl, fun k hk => List.mem_erase_of_ne hk, fun k _ i => Iff.rfl,
    SameBut.refl, fun k hk => ?_, fun hSettled => ?_⟩ hj (h.queue_nodup.erase j) h.executed_nodup ?_
    fun g hg hgJob => absurd hg (not_on_of_runs hRuns hgJob)
  · rw [show (Vyasa.ThreadPool.unlink s j).jobs k = s.jobs k from Function.update_of_ne hk _ _]
    exact Keeps.refl _
  · simp [Work.running, hSettled.1, hSettled.2] at hRunning
  · rw [State.accounts, hJobs]
    exact hOld.unlink (progress_eq_zero hRuns) hFailed h.queue_nodup.not_mem_erase

theorem Inv.inherit {status : Int} (h : Inv s) (hj : j < s.next) (hStatus : status ≠ 0) :
    Inv (setJob s j { s.jobs j with exit_status := status }) := by
  have hOld := h.job j hj
  have hJobs : (setJob s j { s.jobs j with exit_status := status }).jobs j =
      { s.jobs j with exit_status := status } :=
    Function.update_self ..
  have hKeep : Keeps (s.jobs j) { s.jobs j with exit_status := status } :=
    ⟨rfl, rfl, rfl, fun hZero => absurd hZero hStatus⟩
  refine h.of_touches (j := j) ⟨rfl, rfl, fun k _ => Iff.rfl, fun k _ i => Iff.rfl, SameBut.refl,
    fun k hk => ?_, fun _ => ?_⟩ hj h.queue_nodup h.executed_nodup ?_ fun g hg hgJob => ?_
  · rw [show (setJob s j { s.jobs j with exit_status := status }).jobs k = s.jobs k from
      Function.update_of_ne hk _ _]
    exact Keeps.refl _
  · rw [hJobs]
    exact ⟨rfl, rfl⟩
  · rw [State.accounts, hJobs]
    exact hOld.keep hKeep Iff.rfl fun _ => Iff.rfl
  · have hOk := h.frame g hg
    cases g with
    | task k i =>
      obtain rfl : k = j := Option.some.inj hgJob
      rw [FrameOk, hJobs]
      exact hOk
    | claim k t n =>
      obtain rfl : k = j := Option.some.inj hgJob
      rw [FrameOk, hJobs]
      exact hOk
    | chunk k t n =>
      obtain rfl : k = j := Option.some.inj hgJob
      rw [FrameOk, hJobs]
      exact hOk
    | user => cases hgJob
    | worker => cases hgJob
    | call tasks jobs num_jobs i exit_status => cases hgJob

/-- An owner waits for a job that is there. -/
theorem Inv.owned_lt {o : Nat} (h : Inv s) (hThreads : s.threads = ts₁ ++ (f :: fs) :: ts₂)
    (hOwned : f.owned? = some (some o)) : o < s.next := by
  have hOk : FrameOk s f := by
    refine h.frame f ?_
    rw [hThreads]
    exact on_push.mpr (.inl rfl)
  cases f with
  | call tasks jobs num_jobs i exit_status =>
    rw [Frame.owned?] at hOwned
    split at hOwned
    · rename_i hi
      have hAllocated := hOk.allocated
      simp only [Option.some.injEq] at hOwned
      omega
    · cases hOwned
  | worker => cases hOwned
  | user => cases hOwned
  | task k i => cases hOwned
  | claim k t n => cases hOwned
  | chunk k t n => cases hOwned

end Work

/-! ### All steps -/

/-- The tasks of a call, where the event is one. -/
def Event.Dense : Event → Prop
  | .enqueued tasks | .returned tasks _ _ _ => ThreadPool.Dense tasks
  | .other => True

theorem Inv.initial (semaphores : Nat → Int) : Inv (State.initial semaphores) where
  queue_nodup := List.nodup_nil
  executed_nodup := List.nodup_nil
  queue_lt j hj := absurd hj List.not_mem_nil
  executed_lt j i hj := absurd hj List.not_mem_nil
  job j hj := absurd hj (Nat.not_lt_zero j)
  frame f hf := by
    obtain ⟨stack, hStack, -⟩ := hf
    exact absurd hStack List.not_mem_nil

theorem Inv.top {s : State} {ts₁ ts₂ : List (List Frame)} {f : Frame} {fs : List Frame}
    (h : Inv s) (hThreads : s.threads = ts₁ ++ (f :: fs) :: ts₂) : FrameOk s f := by
  refine h.frame f ?_
  rw [hThreads]
  exact on_push.mpr (.inl rfl)

theorem Inv.search {s : State} (h : Inv s) (owned : Option Nat) :
    Inv (findJob owned s.queue s).2 ∧ (findJob owned s.queue s).2.threads = s.threads ∧
      (findJob owned s.queue s).2.queue = s.queue ∧ (findJob owned s.queue s).2.jobs = s.jobs := by
  obtain ⟨⟨sem, next_sem, hSame⟩, -⟩ := findJob_spec owned s.queue s
  rw [hSame]
  exact ⟨h.sameThreads ⟨rfl, rfl, rfl, rfl, rfl⟩ rfl, rfl, rfl, rfl⟩

theorem agrees_make_runnable {s s' : State} {j : Nat} {ok : Bool}
    (h : make_runnable s j = (ok, s')) : Agrees s s' ∧ s'.threads = s.threads := by
  obtain ⟨sem, next_sem, hSame⟩ := make_runnable_snd s j
  rw [h] at hSame
  obtain rfl : s' = _ := hSame
  exact ⟨⟨rfl, rfl, rfl, rfl, rfl⟩, rfl⟩

/-- A worker that stops claiming iterations has changed the semaphores at most. -/
theorem agrees_of_stopped {s s' : State} {j : Nat} {p : Prop}
    (h : (¬ p ∧ s' = s) ∨ (p ∧ make_runnable s j = (false, s'))) :
    Agrees s s' ∧ s'.threads = s.threads := by
  rcases h with ⟨-, rfl⟩ | ⟨-, hRun⟩
  · exact ⟨Agrees.refl _, rfl⟩
  · exact agrees_make_runnable hRun

theorem Inv.step {s s' : State} {e : Event} (h : Inv s) (hStep : Step s e s')
    (hDense : e.Dense) : Inv s' := by
  cases hStep with
  | spawn => exact h.newThread ⟨rfl, rfl, rfl, rfl, rfl⟩ rfl (.inr rfl)
  | caller => exact h.newThread ⟨rfl, rfl, rfl, rfl, rfl⟩ rfl (.inl rfl)
  | release sem n hThreads hUser => exact h.sameThreads ⟨rfl, rfl, rfl, rfl, rfl⟩ rfl
  | do_parallel_tasks tasks garbage parent hThreads hUser hSome =>
    exact h.enqueue hThreads (fillJobs_of_dense hDense) garbage parent
  | do_no_tasks => exact h
  | do_par_for fn min size garbage hThreads hUser hSize =>
    exact h.enqueue hThreads (filled_parForTask hSize) garbage none
  | do_empty_par_for => exact h
  | join hThreads hi hRunning => exact h.join hThreads hi hRunning
  | «return» hThreads => exact h.return hThreads
  | unlink hThreads hOwned hRunning hFailed hIdle =>
    exact h.unlink (h.owned_lt hThreads hOwned) hRunning hFailed hIdle
  | inherit hThreads hOwned hRunning hExit hParent hFailed =>
    exact h.inherit (h.owned_lt hThreads hOwned) hFailed
  | sleep hThreads hOwned hSearch hNone => exact (h.search _).1
  | serial hThreads hOwned hSearch hFound hSerial =>
    rename_i owned j
    obtain ⟨hInv, hSame, hQueue, hJobs⟩ := h.search owned
    have hMem := ((findJob_spec owned s.queue s).2 j hFound).1
    exact hInv.startSerial (hSame.trans hThreads) (by rw [hQueue]; exact hMem) (by rw [hJobs]; exact hSerial)
  | parallel hThreads hOwned hSearch hFound hSerial =>
    rename_i owned j
    obtain ⟨hInv, hSame, hQueue, hJobs⟩ := h.search owned
    have hMem := ((findJob_spec owned s.queue s).2 j hFound).1
    exact hInv.startParallel (hSame.trans hThreads) (by rw [hQueue]; exact hMem) (by rw [hJobs]; exact hSerial) _
  | finish result hThreads => exact h.finish hThreads result
  | claimed hThreads hMore hRun =>
    rename_i j total iters
    obtain ⟨hLt, hSerial, hTotal, hIters, hLe⟩ := h.top hThreads
    obtain ⟨hSame, -⟩ := agrees_make_runnable (Prod.ext hRun rfl : make_runnable s j = (true, _))
    refine h.advance (.claim j total (iters + 1)) 0 [] hThreads rfl rfl rfl hLt hSerial hSame.jobs
      hSame.queue hSame.next hSame.origin hSame.executed le_rfl ?_ ?_ ?_ ?_ ?_ ?_
    · simpa [Frame.progress] using hTotal
    · simp [Frame.progress]
    · simp only [Frame.progress, if_pos]
      omega
    · intro p
      simp only [List.not_mem_nil, false_iff]
      omega
    · exact List.nodup_nil
    · exact ⟨hLt, hSerial, hTotal, by omega, by omega⟩
  | chunk hThreads hSome hStop =>
    rename_i s₁ j total iters
    obtain ⟨hLt, hSerial, hTotal, hIters, hLe⟩ := h.top hThreads
    obtain ⟨hSame, -⟩ := agrees_of_stopped hStop
    refine h.advance (.chunk j total iters) iters _ hThreads rfl rfl rfl hLt hSerial hSame.jobs
      hSame.queue hSame.next hSame.origin rfl hIters ?_ ?_ ?_ ?_ nodup_range_map ?_
    · simpa [Frame.progress] using hTotal
    · simp [Frame.progress]
    · simpa [Frame.progress] using hLe
    · intro p
      simpa [Frame.progress] using mem_range_map
    · exact ⟨hLt, hSerial, hTotal, hIters, hLe⟩
  | drained hThreads hStop =>
    rename_i s₁ j total
    obtain ⟨hSame, hSame'⟩ := agrees_of_stopped hStop
    have hInv := h.sameThreads hSame hSame'
    have hThreads' := hSame'.trans hThreads
    exact hInv.leaveSerial 0 hThreads' rfl (if_pos rfl) (hInv.top hThreads')
  | chunkDone hThreads =>
    rename_i j total iters
    obtain ⟨hLt, hSerial, hTotal, hIters, hLe⟩ := h.top hThreads
    refine h.advance (.claim j (total + iters) 0) 0 [] hThreads rfl rfl rfl hLt hSerial rfl rfl rfl
      rfl rfl le_rfl ?_ ?_ ?_ ?_ ?_ ?_
    · simpa [Frame.progress] using Int.add_nonneg hTotal hIters
    · simp [Frame.progress]
    · simpa [Frame.progress] using hLe
    · intro p
      simp only [List.not_mem_nil, false_iff]
      omega
    · exact List.nodup_nil
    · exact ⟨hLt, hSerial, by omega, le_rfl, by omega⟩
  | chunkFailed result hThreads hResult =>
    rename_i j total iters
    obtain ⟨hLt, hSerial, hTotal, hIters, hLe⟩ := h.top hThreads
    exact h.leaveSerial 0 hThreads rfl (if_pos rfl)
      ⟨hLt, hSerial, by omega, le_rfl, by omega⟩

end Vyasa.ThreadPool
