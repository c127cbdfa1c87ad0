import Mathlib.Data.String.Basic
import Vyasa.Circular.Window

/-! The code that storage folding and the forking of async producers leave of one loop over a
folded dimension: a producer and a consumer that share the folded storage, the folding
semaphore and the counters. -/
namespace Vyasa.AsyncFolding

structure Interval where
  min : Int
  max : Int
  deriving DecidableEq

/-- One folded dimension and the loop over it, which is entered `passes` times. The footprints
of an iteration are `provided` and `required`; the indices before the first and after the last
are those the static analysis substitutes. `steady` is the extent it finds for later iterations,
taken at the first. `writes` and `reads` are the coordinates the bodies access, in order, and
`value` is what the producer computes. -/
structure Loop (β : Type) where
  fold_forward : Bool
  factor : Int
  bounds : Interval
  dynamic : Bool
  constant_fudge : Bool
  passes : Nat
  iters : Nat
  provided : Nat → Int → Interval
  required : Nat → Int → Interval
  steady : Int
  writes : Nat → Nat → List Int
  reads : Nat → Nat → List Int
  value : Nat → Int → β

variable {β : Type}

/-! ### Amounts found by static analysis -/

namespace Loop

variable (l : Loop β)

def to_acquire (pass : Nat) (i : Int) : Int :=
  if l.fold_forward then (l.provided pass i).max - (l.provided pass (i - 1)).max
  else (l.provided pass (i - 1)).min - (l.provided pass i).min

def to_release (pass : Nat) (i : Int) : Int :=
  if l.fold_forward then (l.required pass (i + 1)).min - (l.required pass i).min
  else (l.required pass i).max - (l.required pass (i + 1)).max

/-- The extent of the box of everything the first iteration accesses. -/
def extent_initial (pass : Nat) : Int :=
  max (l.provided pass 0).max (l.required pass 0).max -
    min (l.provided pass 0).min (l.required pass 0).min + 1

def extent (pass : Nat) : Int := max (l.extent_initial pass) l.steady

def fudge (pass : Nat) : Int := l.extent pass - l.to_acquire pass 0

/-- The amount the producer acquires: the whole extent in the first iteration, unless the
semaphore starts with the difference taken off. -/
def acquired (pass i : Nat) : Int :=
  if l.constant_fudge then l.to_acquire pass i
  else if 0 < i then l.to_acquire pass i else l.extent pass

/-- The initial value of the semaphore. -/
def init : Int :=
  if l.dynamic then 0 else if l.constant_fudge then l.factor - l.fudge 0 else l.factor

/-! ### Amounts tracked by counters -/

def new_leading_edge (b : Interval) (old_leading_edge : Int) : Int :=
  if l.fold_forward then max b.max old_leading_edge else min b.min old_leading_edge

def in_valid_range (b : Interval) (new_leading_edge : Int) : Prop :=
  if l.fold_forward then b.min > new_leading_edge - l.factor
  else b.max < new_leading_edge + l.factor

/-- The leading edge the consumer grants. -/
def granted_edge (b : Interval) : Int :=
  if l.fold_forward then b.min - 1 + l.factor else b.max + 1 - l.factor

/-- How far the second edge is ahead of the first. -/
def ahead (edge new_edge : Int) : Int :=
  if l.fold_forward then new_edge - edge else edge - new_edge

end Loop

inductive Counter
  | head | head_next | tail | tail_next
  deriving DecidableEq

def Counter.suffix : Counter → String
  | .head => ".head"
  | .head_next => ".head_next"
  | .tail => ".tail"
  | .tail_next => ".tail_next"

def ends_with (str suffix : String) : Bool := suffix.toList.isSuffixOf str.toList

/-- `GenerateProducerBody::visit(const Store *)`: does the producer keep a store to this counter
that is outside of its produce node? -/
def Counter.keptByProducer (c : Counter) : Bool := ends_with c.suffix ".head"

/-- `GenerateConsumerBody::visit(const Store *)` -/
def Counter.keptByConsumer (c : Counter) : Bool := !ends_with c.suffix ".head"

/-- The stores after the loop: the first counter becomes the second less a step. -/
def resets : List (Counter × Counter) := [(.head_next, .head), (.tail_next, .tail)]

def Loop.step (l : Loop β) : Int := (l.bounds.max - l.bounds.min + 1) + l.factor

def Loop.reset (l : Loop β) (keep : Counter → Bool) (counter : Counter → Int) : Counter → Int :=
  if l.dynamic then
    (resets.filter fun r => keep r.1).foldl
      (fun counter r => Function.update counter r.1 (counter r.2 - l.step)) counter
  else counter

/-! ### Runs -/

/-- `halide_default_semaphore_try_acquire` -/
def try_acquire (value n : Int) : Option Int :=
  if n = 0 then some value else if value - n ≥ 0 then some (value - n) else none

/-- Where the producer is: at the top of an iteration, at the acquire or at the checks of a
dynamic footprint with the new leading edge, or with coordinates left to write. -/
inductive Producer
  | iteration (pass i : Nat)
  | acquire (pass i : Nat) (new_leading_edge : Int)
  | checks (pass i : Nat) (new_leading_edge : Int)
  | writes (pass i : Nat) (todo : List Int)

/-- Where the consumer is: at the top of an iteration, after the release of a dynamic footprint,
about to wait for the producer, or with coordinates left to read. -/
inductive Consumer
  | iteration (pass i : Nat)
  | stores (pass i : Nat) (new_leading_edge : Int)
  | wait (pass i : Nat)
  | reads (pass i : Nat) (todo : List Int)

/-- `produced` is the semaphore of the consume node. -/
structure State (β : Type) where
  memory : Int → β
  semaphore : Int
  produced : Int
  counter : Counter → Int
  producer : Producer
  consumer : Consumer

inductive Event (β : Type)
  | read (pass : Nat) (c : Int) (v : β)
  | other

open Function (update)

/-- A step of either side. A side whose assertion fails does not go on. -/
inductive Step (l : Loop β) : State β → Event β → State β → Prop
  | lead {s : State β} {pass i : Nat} : l.dynamic = true → s.producer = .iteration pass i →
      pass < l.passes → i < l.iters →
      Step l s .other { s with
        producer := .acquire pass i (l.new_leading_edge (l.provided pass i) (s.counter .head_next)) }
  | acquire {s : State β} {pass i : Nat} {t semaphore : Int} :
      s.producer = .acquire pass i t →
      try_acquire s.semaphore (l.ahead (s.counter .head_next) t) = some semaphore →
      Step l s .other { s with semaphore, producer := .checks pass i t }
  | checks {s : State β} {pass i : Nat} {t : Int} : s.producer = .checks pass i t →
      (l.provided pass i).max - (l.provided pass i).min + 1 ≤ l.factor →
      l.in_valid_range (l.provided pass i) t →
      Step l s .other { s with
        counter := update (update s.counter .head t) .head_next t
        producer := .writes pass i (l.writes pass i) }
  | acquireStatic {s : State β} {pass i : Nat} {semaphore : Int} : l.dynamic = false →
      s.producer = .iteration pass i → pass < l.passes → i < l.iters →
      try_acquire s.semaphore (l.acquired pass i) = some semaphore →
      Step l s .other { s with semaphore, producer := .writes pass i (l.writes pass i) }
  | write {s : State β} {pass i : Nat} {c : Int} {todo : List Int} :
      s.producer = .writes pass i (c :: todo) →
      Step l s .other { s with
        memory := update s.memory (c % l.factor) (l.value pass c)
        producer := .writes pass i todo }
  | finish {s : State β} {pass i : Nat} : s.producer = .writes pass i [] →
      Step l s .other { s with produced := s.produced + 1, producer := .iteration pass (i + 1) }
  | producerEnd {s : State β} {pass : Nat} : s.producer = .iteration pass l.iters →
      pass < l.passes →
      Step l s .other { s with
        counter := l.reset Counter.keptByProducer s.counter
        producer := .iteration (pass + 1) 0 }
  | release {s : State β} {pass i : Nat} : l.dynamic = true → s.consumer = .iteration pass i →
      pass < l.passes → i < l.iters →
      Step l s .other { s with
        semaphore := s.semaphore +
          l.ahead (s.counter .tail_next) (l.granted_edge (l.required pass i))
        consumer := .stores pass i (l.granted_edge (l.required pass i)) }
  | stores {s : State β} {pass i : Nat} {t : Int} : s.consumer = .stores pass i t →
      Step l s .other { s with
        counter := update (update s.counter .tail_next t) .tail t
        consumer := .wait pass i }
  | enterStatic {s : State β} {pass i : Nat} : l.dynamic = false →
      s.consumer = .iteration pass i → pass < l.passes → i < l.iters →
      0 ≤ l.acquired pass i ∧ l.acquired pass i ≤ l.factor →
      Step l s .other { s with consumer := .wait pass i }
  | take {s : State β} {pass i : Nat} {produced : Int} : s.consumer = .wait pass i →
      try_acquire s.produced 1 = some produced →
      Step l s .other { s with produced, consumer := .reads pass i (l.reads pass i) }
  | read {s : State β} {pass i : Nat} {c : Int} {todo : List Int} :
      s.consumer = .reads pass i (c :: todo) →
      Step l s (.read pass c (s.memory (c % l.factor)))
        { s with consumer := .reads pass i todo }
  | consumed {s : State β} {pass i : Nat} : l.dynamic = true → s.consumer = .reads pass i [] →
      Step l s .other { s with consumer := .iteration pass (i + 1) }
  | releaseStatic {s : State β} {pass i : Nat} : l.dynamic = false →
      s.consumer = .reads pass i [] →
      0 ≤ l.to_release pass i ∧ l.to_release pass i ≤ l.factor →
      Step l s .other { s with
        semaphore := s.semaphore + l.to_release pass i
        consumer := .iteration pass (i + 1) }
  | consumerEnd {s : State β} {pass : Nat} : s.consumer = .iteration pass l.iters →
      pass < l.passes →
      Step l s .other { s with
        counter := l.reset Counter.keptByConsumer s.counter
        consumer := .iteration (pass + 1) 0 }

/-- The state before the fork; the counters start at the edge of the realization. -/
def State.initial (l : Loop β) (memory : Int → β) : State β where
  memory := memory
  semaphore := l.init
  produced := 0
  counter := fun _ => if l.fold_forward then l.bounds.min else l.bounds.max
  producer := .iteration 0 0
  consumer := .iteration 0 0

inductive Reachable (l : Loop β) : State β → Prop
  | initial (memory : Int → β) : Reachable l (State.initial l memory)
  | step {s s' : State β} {e : Event β} : Reachable l s → Step l s e s' → Reachable l s'

end Vyasa.AsyncFolding
