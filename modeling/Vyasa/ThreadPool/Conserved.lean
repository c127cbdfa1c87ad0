import Vyasa.ThreadPool.Steps

/-! The thread pool loses and repeats no work as long as the list of tasks of every call has no
empty task before its last. Otherwise jobs nobody has filled in are enqueued. -/
namespace Vyasa.ThreadPool

open Pool

/-- No index is executed twice or outside of its task, and the jobs on the stack are
initialised. -/
structure Conserved (s : State) : Prop where
  once : s.executed.Nodup
  inside : ∀ j i, (j, i) ∈ s.executed →
    j < s.next ∧ (s.origin j).min ≤ i ∧ i < (s.origin j).min + (s.origin j).extent
  initialised : ∀ j ∈ s.queue, (s.jobs j).initialised = true

/-- What a call leaves behind: none of its jobs is on the stack or worked on, and on success
every index of its tasks was executed once. -/
structure Completed (s : State) (tasks : List Task) (jobs num_jobs : Nat) (exit_status : Int) :
    Prop where
  unqueued : ∀ k < num_jobs, jobs + k ∉ s.queue
  inactive : ∀ k < num_jobs, (s.jobs (jobs + k)).active_workers = 0 ∧
    ∀ f, On f s.threads → f.job? ≠ some (jobs + k)
  executed : exit_status = 0 → ∀ k t, tasks[k]? = some t → 0 < t.extent →
    k < num_jobs ∧ s.origin (jobs + k) = t ∧
      ∀ i, t.min ≤ i → i < t.min + t.extent → s.executed.count (jobs + k, i) = 1

theorem Reachable.inv {s : State} (h : Reachable Event.Dense s) : Inv s := by
  induction h with
  | initial semaphores => exact Inv.initial semaphores
  | step _ hStep hDense ih => exact ih.step hStep hDense

theorem Inv.conserved {s : State} (h : Inv s) : Conserved s where
  once := h.executed_nodup
  inside j i hi := by
    have hLt := h.executed_lt j i hi
    have hAccounts := h.job j hLt
    obtain ⟨hLow, hHigh⟩ := (hAccounts.executed_iff i).mp hi
    have hEnd := hAccounts.le_end
    have hProgress := hAccounts.progress_le
    exact ⟨hLt, hLow, by omega⟩
  initialised j hj := (h.job j (h.queue_lt j hj)).initialised

/-- A call whose jobs are all joined has nothing left to do. -/
theorem Inv.completed {s : State} {tasks : List Task} {jobs num_jobs : Nat} {exit_status : Int}
    (h : Inv s) (hCall : CallOk s tasks jobs num_jobs num_jobs exit_status) :
    Completed s tasks jobs num_jobs exit_status := by
  have hLt : ∀ k < num_jobs, jobs + k < s.next := by
    intro k hk
    have hAllocated := hCall.allocated
    omega
  have hRuns : ∀ k < num_jobs, runs (jobs + k) s.threads = 0 := fun k hk =>
    (h.job _ (hLt k hk)).active.symm.trans (hCall.joined k hk).settled.2
  refine ⟨fun k hk hq => ?_, fun k hk => ⟨(hCall.joined k hk).settled.2, fun f hf hJob => ?_⟩,
    fun hStatus k t ht hPos => ?_⟩
  · have hSome := (h.job _ (hLt k hk)).pos_of_queued hq
    have hNone := (hCall.joined k hk).settled.1
    omega
  · exact not_on_of_runs (hRuns k hk) hJob hf
  · have hk : k < num_jobs := (hCall.job k).mpr ⟨t, ht, hPos⟩
    have hOrigin := hCall.origin k t ht hPos
    refine ⟨hk, hOrigin, fun i hLow hHigh => ?_⟩
    have hDone := (hCall.joined k hk).done hStatus
    refine List.count_eq_one_of_mem h.executed_nodup ?_
    rw [(h.job _ (hLt k hk)).executed_iff i, progress_eq_zero (hRuns k hk), hDone, hOrigin, add_zero]
    exact ⟨hLow, hHigh⟩

/-- A call that enqueues nothing has no task with something to do. -/
theorem completed_of_empty {s : State} {tasks : List Task}
    (hEmpty : ∀ (k : Nat) (t : Task), tasks[k]? = some t → t.extent ≤ 0) : Completed s tasks s.next 0 0 := by
  refine ⟨fun k hk => absurd hk (Nat.not_lt_zero k), fun k hk => absurd hk (Nat.not_lt_zero k),
    fun _ k t ht hPos => ?_⟩
  exact absurd hPos (not_lt.mpr (hEmpty k t ht))

/-- In every run whose calls are all dense, for any number of threads, callers and errors: no
index is executed twice, only initialised jobs are on the stack, and a call that returns has no
job on the stack or worked on and, on success, has executed every index once. -/
theorem work_conserved {s : State} (h : Reachable Event.Dense s) :
    Conserved s ∧ ∀ tasks jobs num_jobs exit_status s',
      Step s (.returned tasks jobs num_jobs exit_status) s' → Dense tasks →
        Completed s' tasks jobs num_jobs exit_status := by
  have hInv := h.inv
  refine ⟨hInv.conserved, fun tasks jobs num_jobs exit_status s' hStep hDense => ?_⟩
  have hInv' := hInv.step hStep hDense
  cases hStep with
  | do_no_tasks _ hThreads hUser hNone =>
    refine completed_of_empty fun k t ht => not_lt.mp fun hPos => ?_
    have hk := ((fillJobs_of_dense hDense).lt k).mpr ⟨t, ht, hPos⟩
    omega
  | do_empty_par_for fn min size hThreads hUser hSize =>
    refine completed_of_empty fun k t ht => ?_
    obtain _ | k := k
    · obtain rfl : parForTask fn min size = t := by simpa using ht
      exact hSize
    · simp at ht
  | «return» hThreads =>
    have hCall := hInv.top hThreads
    refine hInv'.completed (CallOk.mono hCall le_rfl (fun _ _ => rfl) fun _ _ _ => ⟨rfl, rfl⟩)

theorem dense_singleton (t : Task) : Dense [t] := by
  intro k u hu _
  obtain _ | k := k
  · rfl
  · simp at hu

/-- One caller runs a loop with one index by itself. -/
theorem work_conserved_parFor : ∃ s s', Reachable Event.Dense s ∧ Conserved s ∧
    Step s (.returned [parForTask 0 3 1] 0 1 0) s' ∧ Completed s' [parForTask 0 3 1] 0 1 0 := by
  have h₀ : Reachable Event.Dense (State.initial fun _ => 0) := .initial _
  have h₁ := h₀.step .caller trivial
  have h₂ := h₁.step (.do_par_for 0 3 1 (fun _ => (State.initial fun _ => 0).jobs 0)
    (show _ = [] ++ [_] :: [] from rfl) rfl (by decide)) (dense_singleton _)
  have h₃ := h₂.step (.parallel (show _ = [] ++ (_ :: _) :: [] from rfl)
    (rfl : _ = some (some 0)) ⟨rfl, by decide, by decide⟩ (rfl : _ = some 0) rfl) trivial
  have h₄ := h₃.step (.finish 0 (show _ = [] ++ (_ :: _) :: [] from rfl)) trivial
  have h₅ := h₄.step (.join (show _ = [] ++ (_ :: _) :: [] from rfl) (by decide) rfl) trivial
  refine ⟨_, _, h₅, (work_conserved h₅).1, .return (show _ = [] ++ (_ :: _) :: [] from rfl), ?_⟩
  exact (work_conserved h₅).2 _ _ _ _ _ (.return (show _ = [] ++ (_ :: _) :: [] from rfl))
    (dense_singleton _)

/-! ### Lists with an empty task before the last -/

theorem le_fillLoop (tasks : List Task) : ∀ (fuel i num : Nat) (jobs : Nat → Option Task),
    i ≤ num → i ≤ (fillLoop fuel i num tasks jobs).1 := by
  intro fuel
  induction fuel generalizing tasks with
  | zero => exact fun i num jobs h => h
  | succ fuel ih =>
    intro i num jobs h
    rw [fillLoop.eq_def]
    dsimp only
    split
    · obtain _ | ⟨t, rest⟩ := tasks
      · exact h
      · dsimp only
        split
        · by_cases hLast : i + 1 ≤ num - 1
          · exact (Nat.le_succ i).trans (ih _ (i + 1) (num - 1) jobs hLast)
          · -- the index has passed the count, the loop ends
            have hStop : fillLoop fuel (i + 1) (num - 1) (t :: rest) jobs = (num - 1, jobs) := by
              obtain _ | fuel := fuel
              · rfl
              · rw [fillLoop, if_neg (by omega)]
            rw [hStop]
            exact Nat.le_sub_one_of_lt (by omega)
        · exact (Nat.le_succ i).trans (ih _ (i + 1) num _ (by omega))
    · exact h

/-- The loop never gets past an empty task. -/
theorem fillLoop_stuck {t : Task} {rest : List Task} (h : t.extent ≤ 0) :
    ∀ (fuel i num : Nat) (jobs : Nat → Option Task),
      (fillLoop fuel i num (t :: rest) jobs).2 = jobs
  | 0, _, _, _ => rfl
  | fuel + 1, i, num, jobs => by
    rw [fillLoop]
    split
    · exact fillLoop_stuck h fuel (i + 1) (num - 1) jobs
    · rfl

theorem fillLoop_of_not_dense {tasks : List Task} (hDense : ¬ Dense tasks) :
    ∀ {fuel : Nat} (i : Nat) (jobs : Nat → Option Task), tasks.length ≤ fuel →
      ∃ k, i ≤ k ∧ k < (fillLoop fuel i (i + tasks.length) tasks jobs).1 ∧
        (fillLoop fuel i (i + tasks.length) tasks jobs).2 k = jobs k := by
  induction tasks with
  | nil => exact absurd (fun k t ht => absurd ht (by simp)) hDense
  | cons t rest ih =>
    intro fuel i jobs hFuel
    obtain _ | fuel := fuel
    · simp at hFuel
    have hFuel : rest.length ≤ fuel := by simpa using hFuel
    rw [fillLoop, if_pos (by simp)]
    split
    · rename_i hNone
      have hMore : 0 < rest.length := by
        by_contra hLast
        obtain rfl : rest = [] := List.length_eq_zero_iff.mp (by omega)
        refine hDense fun k u hu _ => ?_
        obtain _ | k := k
        · rfl
        · simp at hu
      have hLe := le_fillLoop (t :: rest) fuel (i + 1) (i + (t :: rest).length - 1) jobs
        (by rw [List.length_cons]; omega)
      exact ⟨i, le_rfl, hLe, by rw [fillLoop_stuck hNone]⟩
    · rename_i hSome
      have hRest : ¬ Dense rest := by
        intro hRest
        refine hDense fun k u hu hExtent => ?_
        obtain _ | k := k
        · obtain rfl : t = u := by simpa using hu
          exact absurd hExtent hSome
        · rw [List.length_cons, hRest k u (by simpa using hu) hExtent]
      obtain ⟨k, hLe, hLt, hKeep⟩ := ih hRest (i + 1) (Function.update jobs i (some t)) hFuel
      rw [show i + (t :: rest).length = i + 1 + rest.length by rw [List.length_cons]; omega]
      refine ⟨k, by omega, hLt, ?_⟩
      rw [hKeep, Function.update_of_ne (by omega)]

/-- A call that is not dense puts a job on the stack that nobody has filled in, whatever the
state and whatever stood on the C stack. -/
theorem not_conserved_of_not_dense {tasks : List Task} (hDense : ¬ Dense tasks) (s : State)
    (garbage : Nat → Work) (parent : Option Nat) (threads : List (List Frame)) :
    ¬ Conserved ((enqueue_work_already_locked s (fillJobs tasks).1 (fillJobs tasks).2 garbage
      parent).withThreads threads) := by
  intro h
  obtain ⟨k, -, hLt, hNone⟩ := fillLoop_of_not_dense hDense 0 (fun _ => none) (le_refl tasks.length)
  rw [zero_add] at hLt hNone
  have hInit := h.initialised (s.next + k) (List.mem_append_left _
    (List.mem_range'_1.mpr ⟨by omega, Nat.add_lt_add_left hLt s.next⟩))
  have hNew : s.next ≤ s.next + k ∧ s.next + k < s.next + (fillJobs tasks).1 :=
    ⟨by omega, Nat.add_lt_add_left hLt s.next⟩
  dsimp only [State.withThreads, enqueue_work_already_locked] at hInit
  rw [if_pos hNew, Nat.add_sub_cancel_left] at hInit
  rw [show (fillJobs tasks).2 k = none from hNone] at hInit
  cases hInit

theorem not_conserved_emptyFirst :
    ¬ Conserved ((enqueue_work_already_locked (State.initial fun _ => 0)
      (fillJobs [parForTask 0 0 0, parForTask 0 3 1]).1 (fillJobs [parForTask 0 0 0, parForTask 0 3 1]).2
      (State.initial fun _ => 0).jobs none).withThreads []) :=
  not_conserved_of_not_dense (fun h => absurd (h 0 _ rfl (by decide)) (by decide)) _ _ _ _

/-- An empty task before one with an index: the call joins a job that nobody has filled in and
reports success, and the task is never run. -/
theorem empty_task_first : ∃ s s', Reachable (fun _ => True) s ∧
    Step s (.returned [parForTask 0 0 0, parForTask 0 3 1] 0 1 0) s' ∧
    ¬ Conserved s ∧ ¬ Completed s' [parForTask 0 0 0, parForTask 0 3 1] 0 1 0 ∧
    s'.executed = [] := by
  have h₀ : Reachable (fun _ => True) (State.initial fun _ => 0) := .initial _
  have h₁ := h₀.step .caller trivial
  have h₂ := h₁.step (.do_parallel_tasks [parForTask 0 0 0, parForTask 0 3 1]
    (fun _ => (State.initial fun _ => 0).jobs 0) none (show _ = [] ++ [_] :: [] from rfl) rfl
    (by decide)) trivial
  have h₃ := h₂.step (.join (show _ = [] ++ (_ :: _) :: [] from rfl) (by decide) rfl) trivial
  refine ⟨_, _, h₃, .return (show _ = [] ++ (_ :: _) :: [] from rfl), fun h => ?_, fun h => ?_, rfl⟩
  · exact absurd (h.initialised 0 (by decide)) (by decide)
  · exact absurd (h.unqueued 0 (by decide)) (by decide)

end Vyasa.ThreadPool
