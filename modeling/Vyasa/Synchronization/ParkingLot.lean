import Mathlib

/-! Mutexes and condition variables over a table of queues of sleeping threads. A step is one access
to memory that threads share; what a thread does to the list of a bucket inside the lock of the bucket is
one step too. -/
namespace Vyasa.Synchronization

open Function

abbrev Thread : Type := ℕ

abbrev Mutex : Type := ℕ

abbrev Cond : Type := ℕ

abbrev Bucket : Type := ℕ

/-- The state of a `fast_mutex`. -/
structure Word where
  lock_bit : Bool
  parked_bit : Bool
deriving DecidableEq

/-- An address that threads sleep at. -/
inductive Addr
  | mutex (m : Mutex)
  | cond (c : Cond)
deriving DecidableEq

/-- `sleep_address` of a thread -/
abbrev Node : Type := Thread × Addr

/-- `mutex_parking_control` and `wait_parking_control` -/
inductive ParkControl
  | mutex (m : Mutex)
  | wait (c : Cond) (m : Mutex)
deriving DecidableEq

/-- `mutex_parking_control` and `signal_parking_control`. The mutex may be one that a thread unlocks
`before_sleep` at a condition. -/
inductive UnparkControl
  | mutex (m : Mutex) (sleep : Option Cond)
  | signal (c : Cond) (m : Mutex)
deriving DecidableEq

def ParkControl.addr : ParkControl → Addr
  | mutex m => .mutex m
  | wait c _ => .cond c

/-- The mutex that is to be locked in the end. -/
def ParkControl.lock : ParkControl → Mutex
  | mutex m | wait _ m => m

/-- `action.invalid_unpark_info` of a failed `validate` -/
def ParkControl.invalid_unpark_info : ParkControl → Option Mutex
  | mutex _ => none
  | wait _ m => some m

def UnparkControl.addr : UnparkControl → Addr
  | mutex m _ => .mutex m
  | signal c _ => .cond c

section Controls

variable (m : Mutex) (c : Cond) (sleep : Option Cond)

@[simp] theorem ParkControl.addr_mutex : (ParkControl.mutex m).addr = .mutex m := rfl

@[simp] theorem ParkControl.addr_wait : (ParkControl.wait c m).addr = .cond c := rfl

@[simp] theorem ParkControl.lock_mutex : (ParkControl.mutex m).lock = m := rfl

@[simp] theorem ParkControl.lock_wait : (ParkControl.wait c m).lock = m := rfl

@[simp] theorem ParkControl.info_mutex : (ParkControl.mutex m).invalid_unpark_info = none := rfl

@[simp] theorem ParkControl.info_wait : (ParkControl.wait c m).invalid_unpark_info = some m := rfl

@[simp] theorem UnparkControl.addr_mutex : (UnparkControl.mutex m sleep).addr = .mutex m := rfl

@[simp] theorem UnparkControl.addr_signal : (UnparkControl.signal c m).addr = .cond c := rfl

end Controls

/-- Where a thread stands. `sleep` and `after` are the condition to sleep at once a mutex is unlocked. -/
inductive Pc
  | user
  /-- `fast_mutex::lock` -/
  | lock (m : Mutex)
  /-- `lock_full`, before `expected` is loaded and at the top of the loop -/
  | lock_load (m : Mutex) (spin_count : ℕ)
  | lock_loop (m : Mutex) (expected : Word) (spin_count : ℕ)
  /-- `park` -/
  | park (k : ParkControl)
  | validate (k : ParkControl)
  | validate_store (c : Cond) (m : Mutex)
  | enqueue (k : ParkControl)
  | park_unlock (k : ParkControl) (valid : Bool)
  | parked (k : ParkControl)
  /-- `fast_mutex::unlock` -/
  | unlock (m : Mutex) (sleep : Option Cond)
  | unlock_full (m : Mutex) (sleep : Option Cond)
  /-- `unpark_one` -/
  | unpark_one (u : UnparkControl)
  | find (u : UnparkControl)
  | unpark (u : UnparkControl) (data : Option Thread) (more_waiters : Bool)
  | unpark_unlock (u : UnparkControl) (data : Option Thread)
  | wake (data : Thread) (after : Option (Cond × Mutex))
  /-- `fast_cond::signal` and `fast_cond::broadcast` -/
  | signal (c : Cond)
  | broadcast (c : Cond)
  /-- `unpark_requeue` -/
  | lock_first (c : Cond) (m : Mutex)
  | lock_second (c : Cond) (m : Mutex)
  | requeue_validate (c : Cond) (m : Mutex)
  | requeue_clear (c : Cond) (m : Mutex)
  | parked_load (c : Cond) (m : Mutex)
  | parked_loop (c : Cond) (m : Mutex) (val : Word)
  | requeue (c : Cond) (m : Mutex) (unpark_one : Bool)
  | requeue_callback (c : Cond) (m : Mutex) (unpark_one : Bool) (wakeup : Option Thread)
      (some_requeued : Bool)
  | unlock_first (c : Cond) (m : Mutex) (wakeup : Option Thread)
  | unlock_second (c : Cond) (m : Mutex) (wakeup : Option Thread)

/-- After `unlock`: back to the caller, or on with `parker.park` of a wait. -/
def Pc.afterUnlock : Option (Cond × Mutex) → Pc
  | none => user
  | some (c, m) => parked (.wait c m)

def UnparkControl.after : UnparkControl → Option (Cond × Mutex)
  | mutex m sleep => sleep.map fun c => (c, m)
  | signal _ _ => none

/-- `parker.unpark` of the thread that was found, if there is one. -/
def Pc.wakeAny (after : Option (Cond × Mutex)) : Option Thread → Pc
  | none => afterUnlock after
  | some w => wake w after

/-- `bucket` is the thread inside the lock of a bucket, `held` the mutexes a thread has locked, and
`should_park` and `unpark_info` are those of the one node a thread has. -/
structure State where
  mutex : Mutex → Word
  cond : Cond → Option Mutex
  bucket : Bucket → Option Thread
  queue : Bucket → List Node
  should_park : Thread → Bool
  unpark_info : Thread → Option Mutex
  held : Thread → Mutex → Bool
  pc : Thread → Pc

def State.init : State where
  mutex _ := ⟨false, false⟩
  cond _ := none
  bucket _ := none
  queue _ := []
  should_park _ := false
  unpark_info _ := none
  held _ _ := false
  pc _ := .user

/-! ### What is done in one step -/

/-- `spin_control::should_spin`, with the count it leaves -/
def should_spin (spin_count : ℕ) : Bool × ℕ := (decide (spin_count - 1 > 0), spin_count - 1)

/-- The walk of `unpark_one`: the first thread that sleeps at the address, whether there are more, and
the others. -/
def dequeue (addr : Addr) : List Node → Option Thread × Bool × List Node
  | [] => (none, false, [])
  | node :: rest =>
      if node.2 = addr then (some node.1, rest.any (·.2 = addr), rest)
      else
        let (data, more_waiters, rest) := dequeue addr rest
        (data, more_waiters, node :: rest)

/-- The walk of `unpark_requeue`: the thread to wake up, those to requeue, and the others. -/
def collect (addr_from addr_to : Addr) (unpark_one : Bool) :
    Option Thread → List Node → Option Thread × List Node × List Node
  | wakeup, [] => (wakeup, [], [])
  | wakeup, node :: rest =>
      if node.2 = addr_from then
        if unpark_one && wakeup.isNone then collect addr_from addr_to unpark_one (some node.1) rest
        else
          let (wakeup, requeue, rest) := collect addr_from addr_to unpark_one wakeup rest
          (wakeup, (node.1, addr_to) :: requeue, rest)
      else
        let (wakeup, requeue, rest) := collect addr_from addr_to unpark_one wakeup rest
        (wakeup, requeue, node :: rest)

namespace State

variable (s : State) (t : Thread)

def goto (pc : Pc) : State := { s with pc := update s.pc t pc }

def setMutex (m : Mutex) (w : Word) : State := { s with mutex := update s.mutex m w }

def setCond (c : Cond) (m : Option Mutex) : State := { s with cond := update s.cond c m }

def setBucket (b : Bucket) (holder : Option Thread) : State := { s with bucket := update s.bucket b holder }

def setQueue (b : Bucket) (q : List Node) : State := { s with queue := update s.queue b q }

def setHeld (m : Mutex) (h : Bool) : State :=
  { s with held := update s.held t (update (s.held t) m h) }

def setParked (parked : Bool) : State := { s with should_park := update s.should_park t parked }

/-- The node of the thread that was found, if there is one. -/
def setInfo (data : Option Thread) (info : Option Mutex) : State :=
  { s with unpark_info := fun w => if data = some w then info else s.unpark_info w }

/-- What `lock_full` and `wait` do with the result of `park`. -/
def resume (k : ParkControl) (result : Option Mutex) : State :=
  match k with
  | .mutex m => if result = some m then (s.setHeld t m true).goto t .user else s.goto t (.lock_load m 40)
  | .wait _ m => if result = some m then s.goto t .user else s.goto t (.lock m)

/-- The list of one bucket and that of the other, which may be the same bucket. -/
def moved (source target : Bucket) (rest requeue : List Node) : State :=
  let s := s.setQueue source rest
  s.setQueue target (s.queue target ++ requeue)

end State

/-- The two buckets of `lock_bucket_pair`, the one to lock first and the one to unlock first. -/
def firstBucket (hash : Addr → Bucket) (c : Cond) (m : Mutex) : Bucket :=
  min (hash (.cond c)) (hash (.mutex m))

def lastBucket (hash : Addr → Bucket) (c : Cond) (m : Mutex) : Bucket :=
  max (hash (.cond c)) (hash (.mutex m))

/-- One step of the thread `t`. A compare and swap that is weak may fail for no reason. A caller locks
a mutex that it has not locked, and unlocks or waits with one that it has. -/
inductive Step (hash : Addr → Bucket) (t : Thread) (s : State) : State → Prop
  | call_lock (m) : s.pc t = .user → s.held t m = false → Step hash t s (s.goto t (.lock m))
  | call_unlock (m) : s.pc t = .user → s.held t m = true → Step hash t s (s.goto t (.unlock m none))
  | call_wait (c m) : s.pc t = .user → s.held t m = true →
      Step hash t s (s.goto t (.park (.wait c m)))
  | call_signal (c) : s.pc t = .user → Step hash t s (s.goto t (.signal c))
  | call_broadcast (c) : s.pc t = .user → Step hash t s (s.goto t (.broadcast c))
  -- `lock` and `lock_full`
  | lock_take (m) : s.pc t = .lock m → s.mutex m = ⟨false, false⟩ →
      Step hash t s (((s.setMutex m ⟨true, false⟩).setHeld t m true).goto t .user)
  | lock_fail (m) : s.pc t = .lock m → Step hash t s (s.goto t (.lock_load m 40))
  | lock_load (m n) : s.pc t = .lock_load m n → Step hash t s (s.goto t (.lock_loop m (s.mutex m) n))
  | loop_take (m e n) : s.pc t = .lock_loop m e n → e.lock_bit = false → s.mutex m = e →
      Step hash t s (((s.setMutex m ⟨true, e.parked_bit⟩).setHeld t m true).goto t .user)
  | loop_fail (m e n) : s.pc t = .lock_loop m e n → e.lock_bit = false →
      Step hash t s (s.goto t (.lock_loop m (s.mutex m) n))
  | loop_spin (m e n) : s.pc t = .lock_loop m e n → e.lock_bit = true → e.parked_bit = false →
      (should_spin n).1 = true → Step hash t s (s.goto t (.lock_load m (should_spin n).2))
  | loop_mark (m e n) : s.pc t = .lock_loop m e n → e.lock_bit = true → e.parked_bit = false →
      (should_spin n).1 = false → s.mutex m = e →
      Step hash t s ((s.setMutex m ⟨e.lock_bit, true⟩).goto t (.park (.mutex m)))
  | loop_mark_fail (m e n) : s.pc t = .lock_loop m e n → e.lock_bit = true → e.parked_bit = false →
      (should_spin n).1 = false →
      Step hash t s (s.goto t (.lock_loop m (s.mutex m) (should_spin n).2))
  | loop_park (m e n) : s.pc t = .lock_loop m e n → e.lock_bit = true → e.parked_bit = true →
      Step hash t s (s.goto t (.park (.mutex m)))
  -- `park`
  | park (k) : s.pc t = .park k → s.bucket (hash k.addr) = none →
      Step hash t s ((s.setBucket (hash k.addr) (some t)).goto t (.validate k))
  | validate_mutex (m) : s.pc t = .validate (.mutex m) → s.mutex m = ⟨true, true⟩ →
      Step hash t s (s.goto t (.enqueue (.mutex m)))
  | validate_mutex_fail (m) : s.pc t = .validate (.mutex m) → s.mutex m ≠ ⟨true, true⟩ →
      Step hash t s (s.goto t (.park_unlock (.mutex m) false))
  | validate_wait_first (c m) : s.pc t = .validate (.wait c m) → s.cond c = none →
      Step hash t s (s.goto t (.validate_store c m))
  | validate_wait (c m) : s.pc t = .validate (.wait c m) → s.cond c = some m →
      Step hash t s (s.goto t (.enqueue (.wait c m)))
  | validate_wait_fail (c m m') : s.pc t = .validate (.wait c m) → s.cond c = some m' → m' ≠ m →
      Step hash t s (s.goto t (.park_unlock (.wait c m) false))
  | validate_store (c m) : s.pc t = .validate_store c m →
      Step hash t s ((s.setCond c (some m)).goto t (.enqueue (.wait c m)))
  | enqueue (k) : s.pc t = .enqueue k →
      Step hash t s
        ((((s.setQueue (hash k.addr) (s.queue (hash k.addr) ++ [(t, k.addr)])).setParked t true).setInfo
          (some t) none).goto t (.park_unlock k true))
  | park_unlock_invalid (k) : s.pc t = .park_unlock k false →
      Step hash t s ((s.setBucket (hash k.addr) none).resume t k k.invalid_unpark_info)
  | park_unlock_mutex (m) : s.pc t = .park_unlock (.mutex m) true →
      Step hash t s ((s.setBucket (hash (.mutex m)) none).goto t (.parked (.mutex m)))
  | park_unlock_wait (c m) : s.pc t = .park_unlock (.wait c m) true →
      Step hash t s ((s.setBucket (hash (.cond c)) none).goto t (.unlock m (some c)))
  | parked (k) : s.pc t = .parked k → s.should_park t = false →
      Step hash t s (s.resume t k (s.unpark_info t))
  -- `unlock` and `unlock_full`
  | unlock_give (m sleep) : s.pc t = .unlock m sleep → s.mutex m = ⟨true, false⟩ →
      Step hash t s (((s.setMutex m ⟨false, false⟩).setHeld t m false).goto t
        (.afterUnlock (UnparkControl.mutex m sleep).after))
  | unlock_fail (m sleep) : s.pc t = .unlock m sleep → Step hash t s (s.goto t (.unlock_full m sleep))
  | full_give (m sleep) : s.pc t = .unlock_full m sleep → s.mutex m = ⟨true, false⟩ →
      Step hash t s (((s.setMutex m ⟨false, false⟩).setHeld t m false).goto t
        (.afterUnlock (UnparkControl.mutex m sleep).after))
  | full_unpark (m sleep) : s.pc t = .unlock_full m sleep → s.mutex m ≠ ⟨true, false⟩ →
      Step hash t s (s.goto t (.unpark_one (.mutex m sleep)))
  -- `unpark_one`
  | unpark_one (u) : s.pc t = .unpark_one u → s.bucket (hash u.addr) = none →
      Step hash t s ((s.setBucket (hash u.addr) (some t)).goto t (.find u))
  | find (u data more rest) : s.pc t = .find u →
      dequeue u.addr (s.queue (hash u.addr)) = (data, more, rest) →
      Step hash t s ((s.setQueue (hash u.addr) rest).goto t (.unpark u data more))
  | unpark_mutex (m sleep data more) : s.pc t = .unpark (.mutex m sleep) data more →
      Step hash t s ((((s.setMutex m ⟨false, more⟩).setHeld t m false).setInfo data none).goto t
        (.unpark_unlock (.mutex m sleep) data))
  | unpark_signal (c m data more) : s.pc t = .unpark (.signal c m) data more →
      Step hash t s (((s.setCond c (if more then s.cond c else none)).setInfo data none).goto t
        (.unpark_unlock (.signal c m) data))
  | unpark_unlock (u data) : s.pc t = .unpark_unlock u data →
      Step hash t s ((s.setBucket (hash u.addr) none).goto t (.wakeAny u.after data))
  | wake (data after) : s.pc t = .wake data after →
      Step hash t s ((s.setParked data false).goto t (.afterUnlock after))
  -- `signal` and `broadcast`
  | signal_none (c) : s.pc t = .signal c → s.cond c = none → Step hash t s (s.goto t .user)
  | signal (c m) : s.pc t = .signal c → s.cond c = some m →
      Step hash t s (s.goto t (.unpark_one (.signal c m)))
  | broadcast_none (c) : s.pc t = .broadcast c → s.cond c = none → Step hash t s (s.goto t .user)
  | broadcast (c m) : s.pc t = .broadcast c → s.cond c = some m →
      Step hash t s (s.goto t (.lock_first c m))
  -- `unpark_requeue`
  | lock_only (c m) : s.pc t = .lock_first c m → hash (.cond c) = hash (.mutex m) →
      s.bucket (firstBucket hash c m) = none →
      Step hash t s ((s.setBucket (firstBucket hash c m) (some t)).goto t (.requeue_validate c m))
  | lock_first (c m) : s.pc t = .lock_first c m → hash (.cond c) ≠ hash (.mutex m) →
      s.bucket (firstBucket hash c m) = none →
      Step hash t s ((s.setBucket (firstBucket hash c m) (some t)).goto t (.lock_second c m))
  | lock_second (c m) : s.pc t = .lock_second c m → s.bucket (lastBucket hash c m) = none →
      Step hash t s ((s.setBucket (lastBucket hash c m) (some t)).goto t (.requeue_validate c m))
  | requeue_validate_fail (c m) : s.pc t = .requeue_validate c m → s.cond c ≠ some m →
      Step hash t s (s.goto t (.unlock_first c m none))
  | requeue_validate (c m) : s.pc t = .requeue_validate c m → s.cond c = some m →
      Step hash t s (s.goto t (.requeue_clear c m))
  | requeue_clear (c m) : s.pc t = .requeue_clear c m →
      Step hash t s ((s.setCond c none).goto t (.parked_load c m))
  | parked_load (c m) : s.pc t = .parked_load c m →
      Step hash t s (s.goto t (.parked_loop c m (s.mutex m)))
  | parked_loop_free (c m val) : s.pc t = .parked_loop c m val → val.lock_bit = false →
      Step hash t s (s.goto t (.requeue c m true))
  | parked_loop_mark (c m val) : s.pc t = .parked_loop c m val → val.lock_bit = true →
      s.mutex m = val → Step hash t s ((s.setMutex m ⟨val.lock_bit, true⟩).goto t (.requeue c m false))
  | parked_loop_fail (c m val) : s.pc t = .parked_loop c m val → val.lock_bit = true →
      Step hash t s (s.goto t (.parked_loop c m (s.mutex m)))
  | requeue (c m one wakeup requeue rest) : s.pc t = .requeue c m one →
      collect (.cond c) (.mutex m) one none (s.queue (hash (.cond c))) = (wakeup, requeue, rest) →
      Step hash t s ((s.moved (hash (.cond c)) (hash (.mutex m)) rest requeue).goto t
        (.requeue_callback c m one wakeup (!requeue.isEmpty)))
  | callback_mark (c m one wakeup some_requeued) :
      s.pc t = .requeue_callback c m one wakeup some_requeued → (one && some_requeued) = true →
      Step hash t s (((s.setMutex m ⟨(s.mutex m).lock_bit, true⟩).setInfo wakeup none).goto t
        (.unlock_first c m wakeup))
  | callback_skip (c m one wakeup some_requeued) :
      s.pc t = .requeue_callback c m one wakeup some_requeued → (one && some_requeued) = false →
      Step hash t s ((s.setInfo wakeup none).goto t (.unlock_first c m wakeup))
  | unlock_only (c m wakeup) : s.pc t = .unlock_first c m wakeup → hash (.cond c) = hash (.mutex m) →
      Step hash t s ((s.setBucket (lastBucket hash c m) none).goto t (.wakeAny none wakeup))
  | unlock_first (c m wakeup) : s.pc t = .unlock_first c m wakeup → hash (.cond c) ≠ hash (.mutex m) →
      Step hash t s ((s.setBucket (lastBucket hash c m) none).goto t (.unlock_second c m wakeup))
  | unlock_second (c m wakeup) : s.pc t = .unlock_second c m wakeup →
      Step hash t s ((s.setBucket (firstBucket hash c m) none).goto t (.wakeAny none wakeup))

/-- The states that threads get to, in whatever order they take their steps. -/
inductive Reachable (hash : Addr → Bucket) : State → Prop
  | init : Reachable hash .init
  | step {s s' : State} (t : Thread) : Reachable hash s → Step hash t s s' → Reachable hash s'

end Vyasa.Synchronization
