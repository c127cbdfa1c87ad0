import Vyasa.Pool.Stacks

/-! The work queue of the thread pool and the critical sections of the threads that use it.
Sleeping and waking have no part here: a thread may look for work at any time. -/
namespace Vyasa.ThreadPool

open Pool

/-- `halide_parallel_task_t`; a semaphore comes with the count to acquire. -/
structure Task where
  fn : Nat
  semaphores : List (Nat × Int)
  min : Int
  extent : Int
  min_threads : Int
  serial : Bool
  deriving DecidableEq

/-- `struct work`, at an address. `siblings` is the address of the first job of the call.
`initialised` says whether the call has filled it in. -/
structure Work where
  task : Task
  parent_job : Option Nat
  siblings : Nat
  sibling_count : Nat
  active_workers : Int
  exit_status : Int
  initialised : Bool
  deriving DecidableEq

def Work.running (job : Work) : Bool := job.task.extent ≠ 0 || job.active_workers ≠ 0

/-- What a thread is in the middle of. Above `user`, `task` or `chunk` stands a call it makes,
above `worker` or `call` a task it works on. -/
inductive Frame
  | user
  | worker
  /-- one index of a job that is not serial -/
  | task (job : Nat) (index : Int)
  /-- a serial job, claiming iterations -/
  | claim (job : Nat) (total_iters iters : Int)
  /-- a serial job, doing the iterations claimed -/
  | chunk (job : Nat) (total_iters iters : Int)
  /-- a call that joins its jobs in order -/
  | call (tasks : List Task) (jobs num_jobs i : Nat) (exit_status : Int)
  deriving DecidableEq

/-- The job a frame is an active worker of. -/
def Frame.job? : Frame → Option Nat
  | .task j _ | .claim j _ _ | .chunk j _ _ => some j
  | _ => none

/-- Code of the user runs in this frame. -/
def Frame.inUserCode : Frame → Bool
  | .user | .task _ _ | .chunk _ _ _ => true
  | _ => false

/-- `threads_reserved` of a job, or of the work queue where there is none. `origin` is the
task of a job as it was enqueued, and `executed` the indices given to its function. -/
structure State where
  jobs : Nat → Work
  queue : List Nat
  next : Nat
  next_semaphore : Nat → Nat
  semaphores : Nat → Int
  threads_created : Int
  threads_reserved : Option Nat → Int
  threads : List (List Frame)
  origin : Nat → Task
  executed : List (Nat × Int)

/-! ### Filling in the jobs -/

/-- The loop of `halide_default_do_parallel_tasks`. The task pointer only moves on when a job
is filled in, the index always does. -/
def fillLoop : Nat → Nat → Nat → List Task → (Nat → Option Task) → Nat × (Nat → Option Task)
  | 0, _, num_tasks, _, jobs => (num_tasks, jobs)
  | fuel + 1, i, num_tasks, tasks, jobs =>
      if i < num_tasks then
        match tasks with
        | [] => (num_tasks, jobs)
        | t :: rest =>
            if t.extent ≤ 0 then fillLoop fuel (i + 1) (num_tasks - 1) (t :: rest) jobs
            else fillLoop fuel (i + 1) num_tasks rest (Function.update jobs i (some t))
      else (num_tasks, jobs)

/-- The number of jobs to enqueue, and the tasks of those that are filled in. -/
def fillJobs (tasks : List Task) : Nat × (Nat → Option Task) :=
  fillLoop tasks.length 0 tasks.length tasks fun _ => none

/-- A job as the call fills it in and `enqueue_work_already_locked` completes it; one that is
not filled in has whatever was on the stack. -/
def newJob (parent : Option Nat) (jobs num_jobs : Nat) (garbage : Work) : Option Task → Work
  | some task =>
      { task, parent_job := parent, siblings := jobs, sibling_count := num_jobs,
        active_workers := 0, exit_status := 0, initialised := true }
  | none => { garbage with siblings := jobs, sibling_count := num_jobs, initialised := false }

/-- `enqueue_work_already_locked`, less the threads it spawns and wakes: the first job ends up
on top of the stack. -/
def enqueue_work_already_locked (s : State) (num_jobs : Nat) (tasks : Nat → Option Task)
    (garbage : Nat → Work) (parent : Option Nat) : State :=
  let new := fun k => newJob parent s.next num_jobs (garbage (k - s.next)) (tasks (k - s.next))
  { s with
    jobs := fun k => if s.next ≤ k ∧ k < s.next + num_jobs then new k else s.jobs k
    queue := List.range' s.next num_jobs ++ s.queue
    next := s.next + num_jobs
    next_semaphore := fun k =>
      if s.next ≤ k ∧ k < s.next + num_jobs then 0 else s.next_semaphore k
    threads_reserved := fun o => match o with
      | some k => if s.next ≤ k ∧ k < s.next + num_jobs then 0 else s.threads_reserved o
      | none => s.threads_reserved o
    origin := fun k => if s.next ≤ k ∧ k < s.next + num_jobs then (new k).task else s.origin k }

/-! ### Looking for a job -/

/-- `halide_default_semaphore_try_acquire` -/
def try_acquire (semaphores : Nat → Int) (s : Nat) (n : Int) : Option (Nat → Int) :=
  if n = 0 then some semaphores
  else if semaphores s - n ≥ 0 then some (Function.update semaphores s (semaphores s - n))
  else none

/-- The loop of `make_runnable`: what was acquired is kept on a failure. -/
def acquireAll : List (Nat × Int) → (Nat → Int) → Nat → Bool × (Nat → Int) × Nat
  | [], semaphores, _ => (true, semaphores, 0)
  | (s, n) :: rest, semaphores, next_semaphore =>
      match try_acquire semaphores s n with
      | none => (false, semaphores, next_semaphore)
      | some semaphores => acquireAll rest semaphores (next_semaphore + 1)

def make_runnable (s : State) (j : Nat) : Bool × State :=
  let (ok, semaphores, next_semaphore) :=
    acquireAll ((s.jobs j).task.semaphores.drop (s.next_semaphore j)) s.semaphores
      (s.next_semaphore j)
  (ok, { s with
    semaphores := semaphores
    next_semaphore := Function.update s.next_semaphore j next_semaphore })

def threads_available (s : State) (j : Nat) : Int :=
  match (s.jobs j).parent_job with
  | none => s.threads_created + 1 - s.threads_reserved none
  | some p =>
      if (s.jobs p).active_workers = 0 then
        (s.jobs p).task.min_threads - s.threads_reserved (some p)
      else (s.jobs p).active_workers * (s.jobs p).task.min_threads - s.threads_reserved (some p)

/-- The tests a job has to pass before its semaphores are tried. -/
def eligible (s : State) (owned_job : Option Nat) (j : Nat) : Bool :=
  let job := s.jobs j
  let enough_threads := threads_available s j ≥ job.task.min_threads
  let can_use_this_thread_stack := match owned_job with
    | none => true
    | some o => job.siblings = (s.jobs o).siblings || job.task.min_threads = 0
  let can_add_worker := !job.task.serial || job.active_workers = 0
  enough_threads && can_use_this_thread_stack && can_add_worker

/-- Find a job to run, preferring things near the top of the stack. -/
def findJob (owned_job : Option Nat) : List Nat → State → Option Nat × State
  | [], s => (none, s)
  | j :: rest, s =>
      if eligible s owned_job j then
        match make_runnable s j with
        | (true, s) => (some j, s)
        | (false, s) => findJob owned_job rest s
      else findJob owned_job rest s

/-! ### Working on a job -/

def setJob (s : State) (j : Nat) (job : Work) : State :=
  { s with jobs := Function.update s.jobs j job }

def reserve (s : State) (j : Nat) (n : Int) : State :=
  { s with
    threads_reserved := Function.update s.threads_reserved (s.jobs j).parent_job
      (s.threads_reserved (s.jobs j).parent_job + n) }

/-- Take up a serial job: it leaves the stack. -/
def startSerial (s : State) (j : Nat) : State :=
  let job := s.jobs j
  { reserve (setJob s j { job with active_workers := job.active_workers + 1 }) j
      job.task.min_threads with
    queue := s.queue.erase j }

/-- Take up one index of another job, which leaves the stack with its last index. -/
def startParallel (s : State) (j : Nat) : State :=
  let job := s.jobs j
  let task := { job.task with min := job.task.min + 1, extent := job.task.extent - 1 }
  { reserve (setJob s j { job with task := task, active_workers := job.active_workers + 1 }) j
      job.task.min_threads with
    queue := if task.extent = 0 then s.queue.erase j else s.queue
    executed := (j, job.task.min) :: s.executed }

/-- Mark a job and its siblings as failed. -/
def markFailed (s : State) (j : Nat) (result : Int) : State :=
  let job := s.jobs j
  { s with
    jobs := fun k =>
      if k = j then { job with exit_status := result }
      else if job.siblings ≤ k ∧ k < job.siblings + job.sibling_count ∧
          (s.jobs k).exit_status = 0 then { s.jobs k with exit_status := result }
      else s.jobs k }

/-- The end of an iteration of the worker loop, after a task has returned. -/
def endWork (s : State) (j : Nat) (result : Int) : State :=
  let s := if result ≠ 0 then markFailed s j result else s
  let job := s.jobs j
  reserve (setJob s j { job with active_workers := job.active_workers - 1 }) j
    (-job.task.min_threads)

/-- Put a serial job back on the stack, if it has not failed and something is left of it. -/
def returnSerial (s : State) (j : Nat) (total_iters result : Int) : State :=
  let job := s.jobs j
  let task := { job.task with
    min := job.task.min + total_iters
    extent := if result ≠ 0 then 0 else job.task.extent - total_iters }
  { setJob s j { job with task := task } with
    queue := if result = 0 ∧ task.extent > 0 then j :: s.queue else s.queue }

/-- The owner of a failed job that nobody works on takes it off the stack. -/
def unlink (s : State) (j : Nat) : State :=
  let job := s.jobs j
  { setJob s j { job with task := { job.task with extent := 0 } } with queue := s.queue.erase j }

def State.withThreads (s : State) (threads : List (List Frame)) : State := { s with threads }

/-! ### Steps -/

inductive Event
  | enqueued (tasks : List Task)
  | returned (tasks : List Task) (jobs num_jobs : Nat) (exit_status : Int)
  | other

/-- The task of `halide_default_do_par_for`. -/
def parForTask (f : Nat) (min size : Int) : Task where
  fn := f
  semaphores := []
  min := min
  extent := size
  min_threads := 0
  serial := false

/-- The owned job of the frame a thread loops in. -/
def Frame.owned? : Frame → Option (Option Nat)
  | .worker => some none
  | .call _ jobs num_jobs i _ => if i < num_jobs then some (some (jobs + i)) else none
  | _ => none

/-- An owner may go on to look for work. -/
def maySearch (s : State) : Option Nat → Prop
  | none => True
  | some o => (s.jobs o).running = true ∧
      ((s.jobs o).exit_status ≠ 0 → (s.jobs o).active_workers ≠ 0) ∧
      ((s.jobs o).exit_status = 0 → ∀ p, (s.jobs o).parent_job = some p → (s.jobs p).exit_status = 0)

/-- One step of one thread, under the lock or in the claims of a serial job. Any thread that
runs code of the user may release any semaphore in between. -/
inductive Step : State → Event → State → Prop
  | spawn {s : State} :
      Step s .other { s with
        threads := s.threads ++ [[.worker]], threads_created := s.threads_created + 1 }
  | caller {s : State} : Step s .other { s with threads := s.threads ++ [[.user]] }
  | release {s : State} {ts₁ ts₂ : List (List Frame)} {f : Frame} {fs : List Frame} (sem : Nat)
      (n : Int) : s.threads = ts₁ ++ (f :: fs) :: ts₂ → f.inUserCode = true →
      Step s .other { s with
        semaphores := Function.update s.semaphores sem (s.semaphores sem + n) }
  | do_parallel_tasks {s : State} {ts₁ ts₂ : List (List Frame)} {f : Frame} {fs : List Frame}
      (tasks : List Task) (garbage : Nat → Work) (task_parent : Option Nat) :
      s.threads = ts₁ ++ (f :: fs) :: ts₂ → f.inUserCode = true → (fillJobs tasks).1 ≠ 0 →
      Step s (.enqueued tasks)
        ((enqueue_work_already_locked s (fillJobs tasks).1 (fillJobs tasks).2 garbage
          task_parent).withThreads
          (ts₁ ++ (.call tasks s.next (fillJobs tasks).1 0 0 :: f :: fs) :: ts₂))
  | do_no_tasks {s : State} {ts₁ ts₂ : List (List Frame)} {f : Frame} {fs : List Frame}
      (tasks : List Task) : s.threads = ts₁ ++ (f :: fs) :: ts₂ → f.inUserCode = true →
      (fillJobs tasks).1 = 0 → Step s (.returned tasks s.next 0 0) s
  | do_par_for {s : State} {ts₁ ts₂ : List (List Frame)} {f : Frame} {fs : List Frame}
      (fn : Nat) (min size : Int) (garbage : Nat → Work) :
      s.threads = ts₁ ++ (f :: fs) :: ts₂ → f.inUserCode = true → 0 < size →
      Step s (.enqueued [parForTask fn min size])
        ((enqueue_work_already_locked s 1 (fun _ => some (parForTask fn min size)) garbage
          none).withThreads
          (ts₁ ++ (.call [parForTask fn min size] s.next 1 0 0 :: f :: fs) :: ts₂))
  | do_empty_par_for {s : State} {ts₁ ts₂ : List (List Frame)} {f : Frame} {fs : List Frame}
      (fn : Nat) (min size : Int) : s.threads = ts₁ ++ (f :: fs) :: ts₂ → f.inUserCode = true →
      size ≤ 0 → Step s (.returned [parForTask fn min size] s.next 0 0) s
  | join {s : State} {ts₁ ts₂ : List (List Frame)} {fs : List Frame} {tasks : List Task}
      {jobs num_jobs i : Nat} {exit_status : Int} :
      s.threads = ts₁ ++ (.call tasks jobs num_jobs i exit_status :: fs) :: ts₂ → i < num_jobs →
      (s.jobs (jobs + i)).running = false →
      Step s .other (s.withThreads (ts₁ ++ (.call tasks jobs num_jobs (i + 1)
        (if (s.jobs (jobs + i)).exit_status ≠ 0 then (s.jobs (jobs + i)).exit_status
          else exit_status) :: fs) :: ts₂))
  | return {s : State} {ts₁ ts₂ : List (List Frame)} {fs : List Frame} {tasks : List Task}
      {jobs num_jobs : Nat} {exit_status : Int} :
      s.threads = ts₁ ++ (.call tasks jobs num_jobs num_jobs exit_status :: fs) :: ts₂ →
      Step s (.returned tasks jobs num_jobs exit_status) (s.withThreads (ts₁ ++ fs :: ts₂))
  | unlink {s : State} {ts₁ ts₂ : List (List Frame)} {f : Frame} {fs : List Frame} {o : Nat} :
      s.threads = ts₁ ++ (f :: fs) :: ts₂ → f.owned? = some (some o) →
      (s.jobs o).running = true → (s.jobs o).exit_status ≠ 0 → (s.jobs o).active_workers = 0 →
      Step s .other (unlink s o)
  | inherit {s : State} {ts₁ ts₂ : List (List Frame)} {f : Frame} {fs : List Frame} {o p : Nat} :
      s.threads = ts₁ ++ (f :: fs) :: ts₂ → f.owned? = some (some o) →
      (s.jobs o).running = true → (s.jobs o).exit_status = 0 → (s.jobs o).parent_job = some p →
      (s.jobs p).exit_status ≠ 0 →
      Step s .other (setJob s o { s.jobs o with exit_status := (s.jobs p).exit_status })
  | sleep {s : State} {ts₁ ts₂ : List (List Frame)} {f : Frame} {fs : List Frame}
      {owned : Option Nat} : s.threads = ts₁ ++ (f :: fs) :: ts₂ → f.owned? = some owned →
      maySearch s owned → (findJob owned s.queue s).1 = none →
      Step s .other (findJob owned s.queue s).2
  | serial {s : State} {ts₁ ts₂ : List (List Frame)} {f : Frame} {fs : List Frame}
      {owned : Option Nat} {j : Nat} : s.threads = ts₁ ++ (f :: fs) :: ts₂ →
      f.owned? = some owned → maySearch s owned → (findJob owned s.queue s).1 = some j →
      (s.jobs j).task.serial = true →
      Step s .other ((startSerial (findJob owned s.queue s).2 j).withThreads
        (ts₁ ++ (.claim j 0 1 :: f :: fs) :: ts₂))
  | parallel {s : State} {ts₁ ts₂ : List (List Frame)} {f : Frame} {fs : List Frame}
      {owned : Option Nat} {j : Nat} : s.threads = ts₁ ++ (f :: fs) :: ts₂ →
      f.owned? = some owned → maySearch s owned → (findJob owned s.queue s).1 = some j →
      (s.jobs j).task.serial = false →
      Step s .other ((startParallel (findJob owned s.queue s).2 j).withThreads
        (ts₁ ++ (.task j (s.jobs j).task.min :: f :: fs) :: ts₂))
  | finish {s : State} {ts₁ ts₂ : List (List Frame)} {fs : List Frame} {j : Nat} {index : Int}
      (result : Int) : s.threads = ts₁ ++ (.task j index :: fs) :: ts₂ →
      Step s .other ((endWork s j result).withThreads (ts₁ ++ fs :: ts₂))
  | claimed {s : State} {ts₁ ts₂ : List (List Frame)} {fs : List Frame} {j : Nat}
      {total_iters iters : Int} : s.threads = ts₁ ++ (.claim j total_iters iters :: fs) :: ts₂ →
      (s.jobs j).task.extent - total_iters > iters → (make_runnable s j).1 = true →
      Step s .other ((make_runnable s j).2.withThreads
        (ts₁ ++ (.claim j total_iters (iters + 1) :: fs) :: ts₂))
  | chunk {s s' : State} {ts₁ ts₂ : List (List Frame)} {fs : List Frame} {j : Nat}
      {total_iters iters : Int} : s.threads = ts₁ ++ (.claim j total_iters iters :: fs) :: ts₂ →
      iters ≠ 0 →
      ((¬ (s.jobs j).task.extent - total_iters > iters ∧ s' = s) ∨
        ((s.jobs j).task.extent - total_iters > iters ∧ make_runnable s j = (false, s'))) →
      Step s .other { s' with
        threads := ts₁ ++ (.chunk j total_iters iters :: fs) :: ts₂
        executed := (List.range iters.toNat).map
          (fun (k : Nat) => (j, (s.jobs j).task.min + total_iters + k)) ++ s.executed }
  | drained {s s' : State} {ts₁ ts₂ : List (List Frame)} {fs : List Frame} {j : Nat}
      {total_iters : Int} : s.threads = ts₁ ++ (.claim j total_iters 0 :: fs) :: ts₂ →
      ((¬ (s.jobs j).task.extent - total_iters > 0 ∧ s' = s) ∨
        ((s.jobs j).task.extent - total_iters > 0 ∧ make_runnable s j = (false, s'))) →
      Step s .other ((endWork (returnSerial s' j total_iters 0) j 0).withThreads
        (ts₁ ++ fs :: ts₂))
  | chunkDone {s : State} {ts₁ ts₂ : List (List Frame)} {fs : List Frame} {j : Nat}
      {total_iters iters : Int} : s.threads = ts₁ ++ (.chunk j total_iters iters :: fs) :: ts₂ →
      Step s .other (s.withThreads (ts₁ ++ (.claim j (total_iters + iters) 0 :: fs) :: ts₂))
  | chunkFailed {s : State} {ts₁ ts₂ : List (List Frame)} {fs : List Frame} {j : Nat}
      {total_iters iters : Int} (result : Int) :
      s.threads = ts₁ ++ (.chunk j total_iters iters :: fs) :: ts₂ → result ≠ 0 →
      Step s .other ((endWork (returnSerial s j (total_iters + iters) result) j result).withThreads
        (ts₁ ++ fs :: ts₂))

/-- The work queue before its first use; any number of threads may show up later. -/
def State.initial (semaphores : Nat → Int) : State where
  jobs := fun _ =>
    { task := { fn := 0, semaphores := [], min := 0, extent := 0, min_threads := 0, serial := false }
      parent_job := none, siblings := 0, sibling_count := 0, active_workers := 0, exit_status := 0,
      initialised := false }
  queue := []
  next := 0
  next_semaphore := fun _ => 0
  semaphores := semaphores
  threads_created := 0
  threads_reserved := fun _ => 0
  threads := []
  origin := fun _ =>
    { fn := 0, semaphores := [], min := 0, extent := 0, min_threads := 0, serial := false }
  executed := []

/-- Runs in which every event satisfies `ok`. -/
inductive Reachable (ok : Event → Prop) : State → Prop
  | initial (semaphores : Nat → Int) : Reachable ok (State.initial semaphores)
  | step {s s' : State} {e : Event} : Reachable ok s → Step s e s' → ok e → Reachable ok s'

end Vyasa.ThreadPool
