import Vyasa.AsyncFolding.Window

/-! In a loop that is entered once, the consumer reads what the producer wrote, however the two
sides interleave. -/
namespace Vyasa.AsyncFolding

open Circular

variable {β : Type} {l : Loop β}

/-! ### Progress of the two sides in the first pass -/

/-- The iterations the producer has acquired for. -/
def Producer.started (l : Loop β) : Producer → Nat
  | .iteration 0 i | .acquire _ i _ => i
  | .checks _ i _ | .writes _ i _ => i + 1
  | .iteration (_ + 1) _ => l.iters

/-- The iterations whose leading edge is in the counters. -/
def Producer.stored (l : Loop β) : Producer → Nat
  | .iteration 0 i | .acquire _ i _ | .checks _ i _ => i
  | .writes _ i _ => i + 1
  | .iteration (_ + 1) _ => l.iters

/-- The iterations the producer has told the consumer about. -/
def Producer.finished (l : Loop β) : Producer → Nat
  | .iteration 0 i | .acquire _ i _ | .checks _ i _ | .writes _ i _ => i
  | .iteration (_ + 1) _ => l.iters

/-- The coordinates written so far. -/
def Producer.written (l : Loop β) (p : Producer) (c : Int) : Prop :=
  (∃ j < p.finished l, c ∈ l.writes 0 j) ∨
    ∃ i done todo, p = .writes 0 i todo ∧ l.writes 0 i = done ++ todo ∧ c ∈ done

/-- The iterations the consumer has released for. -/
def Consumer.entered (l : Loop β) : Consumer → Nat
  | .iteration 0 i => i
  | .stores _ i _ | .wait _ i | .reads _ i _ => if l.dynamic then i + 1 else i
  | .iteration (_ + 1) _ => l.iters

/-- The iterations whose granted edge is in the counters. -/
def Consumer.stored (l : Loop β) : Consumer → Nat
  | .iteration 0 i | .stores _ i _ => i
  | .wait _ i | .reads _ i _ => i + 1
  | .iteration (_ + 1) _ => l.iters

/-- The iterations the consumer has waited for. -/
def Consumer.taken (l : Loop β) : Consumer → Nat
  | .iteration 0 i | .stores _ i _ | .wait _ i => i
  | .reads _ i _ => i + 1
  | .iteration (_ + 1) _ => l.iters

/-- What holds where the producer is. -/
def Producer.Ok (l : Loop β) : Producer → Prop
  | .iteration pass i => (pass = 0 ∧ i ≤ l.iters) ∨ pass = 1
  | .acquire pass i t | .checks pass i t =>
      pass = 0 ∧ i < l.iters ∧ l.dynamic = true ∧ l.pos t = l.lead (i + 1)
  | .writes pass i todo => pass = 0 ∧ i < l.iters ∧ (∃ done, l.writes 0 i = done ++ todo) ∧
      l.lead (i + 1) - l.factor < l.back (l.provided 0 i)

/-- What holds where the consumer is. -/
def Consumer.Ok (l : Loop β) : Consumer → Prop
  | .iteration pass i => (pass = 0 ∧ i ≤ l.iters) ∨ pass = 1
  | .stores pass i t => pass = 0 ∧ i < l.iters ∧ l.dynamic = true ∧ l.pos t = l.granted (i + 1)
  | .wait pass i => pass = 0 ∧ i < l.iters
  | .reads pass i todo => pass = 0 ∧ i < l.iters ∧ ∀ c ∈ todo, c ∈ l.reads 0 i

/-- The consumer is done with the loop. -/
def Consumer.gone : Consumer → Prop
  | .iteration (_ + 1) _ => True
  | _ => False

structure Inv (l : Loop β) (s : State β) : Prop where
  producer : s.producer.Ok l
  consumer : s.consumer.Ok l
  produced : s.produced = (s.producer.finished l : Int) - s.consumer.taken l
  produced_nonneg : 0 ≤ s.produced
  semaphore : s.semaphore = l.balance (s.producer.started l) (s.consumer.entered l)
  semaphore_nonneg : 0 ≤ s.semaphore
  head : l.dynamic = true → ¬ s.consumer.gone →
    l.pos (s.counter .head_next) = l.lead (s.producer.stored l)
  tail : l.dynamic = true → ¬ s.consumer.gone →
    l.pos (s.counter .tail_next) = l.granted (s.consumer.stored l)
  memory : Holds l.factor l.pos (l.value 0) s.memory (s.producer.written l)
    (l.lead (s.producer.started l))

theorem Inv.initial (hWf : l.Wf) (memory : Int → β) : Inv l (State.initial l memory) where
  producer := .inl ⟨rfl, Nat.zero_le _⟩
  consumer := .inl ⟨rfl, Nat.zero_le _⟩
  produced := rfl
  produced_nonneg := le_rfl
  semaphore := by
    change l.init = l.balance 0 0
    rw [Loop.balance, Loop.init, Loop.granted, Loop.lead]
    split
    · omega
    · push_cast
      omega
  semaphore_nonneg := by
    have hPos := hWf.factor_pos
    change 0 ≤ l.init
    rw [Loop.init]
    split
    · exact le_rfl
    · rename_i hStatic
      split
      · rename_i hFudge
        have hLe := hWf.fudge_le (by simpa using hStatic) hFudge
        omega
      · exact hPos.le
  head hDyn _ := by
    change l.pos l.start = l.lead 0
    rw [Loop.lead, if_pos hDyn]
  tail _ _ := rfl
  memory := by
    refine ⟨fun c hc => ?_, fun c hc => ?_⟩ <;>
      obtain ⟨j, hj, -⟩ | ⟨i, done, todo, hp, -⟩ := hc
    · exact absurd hj (Nat.not_lt_zero j)
    · cases hp
    · exact absurd hj (Nat.not_lt_zero j)
    · cases hp

theorem try_acquire_spec {value n value' : Int} (h : try_acquire value n = some value')
    (hValue : 0 ≤ value) : value' = value - n ∧ 0 ≤ value' := by
  rw [try_acquire] at h
  split at h
  · obtain rfl : value = value' := by simpa using h
    omega
  · split at h
    · obtain rfl : value - n = value' := by simpa using h
      omega
    · cases h

/-- In one pass there is no pass but the first. -/
theorem Loop.Once.pass_eq (hOnce : l.Once) {pass : Nat} (h : pass < l.passes) : pass = 0 := by
  have hLe := hOnce.passes_le
  omega

/-- A consumer that has left has waited for every iteration, so the producer has left, too. -/
theorem Inv.finished_of_gone {s : State β} (h : Inv l s) (hGone : s.consumer.gone) :
    l.iters ≤ s.producer.finished l := by
  have hProduced := h.produced
  have hNonneg := h.produced_nonneg
  have hTaken : s.consumer.taken l = l.iters := by
    generalize s.consumer = consumer at hGone
    cases consumer with
    | iteration pass i =>
      obtain _ | pass := pass
      · exact hGone.elim
      · rfl
    | stores => exact hGone.elim
    | wait => exact hGone.elim
    | reads => exact hGone.elim
  omega

/-! ### Steps of the producer -/

section Steps

variable {memory : Int → β} {semaphore produced : Int} {counter : Counter → Int}
  {producer : Producer} {consumer : Consumer} {i : Nat} {t : Int} {todo : List Int}

theorem Inv.not_gone (h : Inv l ⟨memory, semaphore, produced, counter, producer, consumer⟩)
    (hi : producer.finished l < l.iters) : ¬ consumer.gone := by
  intro hGone
  have hLe := h.finished_of_gone hGone
  dsimp only at hLe
  omega

theorem Inv.lead (h : Inv l ⟨memory, semaphore, produced, counter, .iteration 0 i, consumer⟩)
    (hDyn : l.dynamic = true) (hi : i < l.iters) :
    Inv l ⟨memory, semaphore, produced, counter, .acquire 0 i
      (l.new_leading_edge (l.provided 0 i) (counter .head_next)), consumer⟩ := by
  refine ⟨⟨rfl, hi, hDyn, ?_⟩, h.consumer, h.produced, h.produced_nonneg, h.semaphore,
    h.semaphore_nonneg, h.head, h.tail, ?_⟩
  · have hHead := h.head hDyn (h.not_gone hi)
    rw [Loop.pos_new_leading_edge, Loop.lead_succ_dynamic hDyn]
    exact congrArg (max _) hHead
  · refine ⟨fun c hc => h.memory.behind c ?_, fun c hc => h.memory.kept c ?_⟩ <;>
      obtain hc | ⟨k, done, todo, hp, -⟩ := hc
    · exact .inl hc
    · cases hp
    · exact .inl hc
    · cases hp

theorem Inv.acquire {semaphore' : Int} (hWf : l.Wf)
    (h : Inv l ⟨memory, semaphore, produced, counter, .acquire 0 i t, consumer⟩)
    (hAcquire : try_acquire semaphore (l.ahead (counter .head_next) t) = some semaphore') :
    Inv l ⟨memory, semaphore', produced, counter, .checks 0 i t, consumer⟩ := by
  obtain ⟨-, hi, hDyn, ht⟩ := h.producer
  obtain ⟨hSem, hNonneg⟩ := try_acquire_spec hAcquire h.semaphore_nonneg
  refine ⟨⟨rfl, hi, hDyn, ht⟩, h.consumer, h.produced, h.produced_nonneg, ?_, hNonneg, h.head,
    h.tail, ?_⟩
  · have hHead := h.head hDyn (h.not_gone hi)
    have hOld := h.semaphore
    dsimp only [Producer.started, Producer.stored] at hHead hOld ⊢
    rw [hSem, hOld, Loop.ahead_eq, Loop.balance_dynamic hDyn, Loop.balance_dynamic hDyn, ht, hHead]
    omega
  · have hMemory := h.memory.advance (Loop.lead_mono hWf i)
    refine ⟨fun c hc => hMemory.behind c ?_, fun c hc => hMemory.kept c ?_⟩ <;>
      obtain hc | ⟨k, done, todo, hp, -⟩ := hc
    · exact .inl hc
    · cases hp
    · exact .inl hc
    · cases hp

/-- Nothing of an iteration is written when its writes begin. -/
theorem written_begin {producer : Producer} {c : Int} (hFinished : producer.finished l = i)
    (hc : (Producer.writes 0 i (l.writes 0 i)).written l c) : producer.written l c := by
  obtain hc | ⟨k, done, todo, hp, hDone, hMem⟩ := hc
  · exact .inl (hFinished ▸ hc)
  · injection hp with _ hk hTodo
    subst hk hTodo
    obtain rfl : done = [] := by simpa using hDone
    exact absurd hMem List.not_mem_nil

theorem Inv.checks (h : Inv l ⟨memory, semaphore, produced, counter, .checks 0 i t, consumer⟩)
    (hRange : l.in_valid_range (l.provided 0 i) t) :
    Inv l ⟨memory, semaphore, produced,
      Function.update (Function.update counter .head t) .head_next t,
      .writes 0 i (l.writes 0 i), consumer⟩ := by
  obtain ⟨-, hi, hDyn, ht⟩ := h.producer
  refine ⟨⟨rfl, hi, ⟨[], rfl⟩, ?_⟩, h.consumer, h.produced, h.produced_nonneg, h.semaphore,
    h.semaphore_nonneg, fun _ _ => ?_, fun _ hGone => ?_, ?_⟩
  · rw [← ht]
    exact (l.in_valid_range_iff _ t).mp hRange
  · dsimp only
    rw [Function.update_self]
    exact ht
  · dsimp only
    rw [Function.update_of_ne (by decide), Function.update_of_ne (by decide)]
    exact h.tail hDyn hGone
  · exact ⟨fun c hc => h.memory.behind c (written_begin rfl hc),
      fun c hc => h.memory.kept c (written_begin rfl hc)⟩

theorem Inv.acquireStatic {semaphore' : Int} (hWf : l.Wf) (hOnce : l.Once)
    (h : Inv l ⟨memory, semaphore, produced, counter, .iteration 0 i, consumer⟩)
    (hStatic : l.dynamic = false) (hi : i < l.iters)
    (hAcquire : try_acquire semaphore (l.acquired 0 i) = some semaphore') :
    Inv l ⟨memory, semaphore', produced, counter, .writes 0 i (l.writes 0 i), consumer⟩ := by
  obtain ⟨hSem, hNonneg⟩ := try_acquire_spec hAcquire h.semaphore_nonneg
  refine ⟨⟨rfl, hi, ⟨[], rfl⟩, ?_⟩, h.consumer, h.produced, h.produced_nonneg, ?_, hNonneg,
    fun hDyn => ?_, fun hDyn => ?_, ?_⟩
  · have hFits := hOnce.provided_fits hStatic i hi
    rw [Loop.lead, hStatic, Loop.front, Loop.back]
    simp only [Bool.false_eq_true, if_false]
    split <;> omega
  · have hOld := h.semaphore
    dsimp only [Producer.started] at hOld ⊢
    rw [hSem, hOld, Loop.balance_succ_static hStatic]
  · simp [hStatic] at hDyn
  · simp [hStatic] at hDyn
  · have hMemory := h.memory.advance (Loop.lead_mono hWf i)
    exact ⟨fun c hc => hMemory.behind c (written_begin rfl hc),
      fun c hc => hMemory.kept c (written_begin rfl hc)⟩

theorem Inv.write {c : Int} (hWf : l.Wf)
    (h : Inv l ⟨memory, semaphore, produced, counter, .writes 0 i (c :: todo), consumer⟩) :
    Inv l ⟨Function.update memory (c % l.factor) (l.value 0 c), semaphore, produced, counter,
      .writes 0 i todo, consumer⟩ := by
  obtain ⟨-, hi, ⟨done, hDone⟩, hWindow⟩ := h.producer
  have hMem : c ∈ l.writes 0 i := by
    rw [hDone]
    simp
  obtain ⟨hBack, hFront⟩ := l.pos_mem (hWf.writes_mem 0 i c hMem)
  have hLead := Loop.front_le_lead (l := l) i
  have hNew := h.memory.write l.direction_pos hWf.factor_pos (c := c) (by
    change l.pos c ≤ l.lead (i + 1)
    omega) (by
    change l.lead (i + 1) - l.factor < l.pos c
    omega)
  refine ⟨⟨rfl, hi, ⟨done ++ [c], by simpa using hDone⟩, hWindow⟩, h.consumer, h.produced,
    h.produced_nonneg, h.semaphore, h.semaphore_nonneg, h.head, h.tail, ?_⟩
  have hWritten : ∀ c', (Producer.writes 0 i todo).written l c' →
      (Producer.writes 0 i (c :: todo)).written l c' ∨ c' = c := by
    rintro c' (hc' | ⟨k, done', todo', hp, hDone', hMem'⟩)
    · exact .inl (.inl hc')
    · injection hp with _ hk hTodo
      subst hk hTodo
      have hSame : done' ++ todo = (done ++ [c]) ++ todo := by
        rw [← hDone', hDone]
        simp
      have hSplit : done' = done ++ [c] := List.append_cancel_right hSame
      rw [hSplit, List.mem_append, List.mem_singleton] at hMem'
      exact hMem'.imp (fun hd => .inr ⟨i, done, c :: todo, rfl, hDone, hd⟩) id
  exact ⟨fun c' hc' => hNew.behind c' (hWritten c' hc'),
    fun c' hc' => hNew.kept c' (hWritten c' hc')⟩

theorem Inv.finish (h : Inv l ⟨memory, semaphore, produced, counter, .writes 0 i [], consumer⟩) :
    Inv l ⟨memory, semaphore, produced + 1, counter, .iteration 0 (i + 1), consumer⟩ := by
  obtain ⟨-, hi, ⟨done, hDone⟩, -⟩ := h.producer
  refine ⟨.inl ⟨rfl, hi⟩, h.consumer, ?_, ?_, h.semaphore, h.semaphore_nonneg, h.head, h.tail, ?_⟩
  · have hOld := h.produced
    dsimp only [Producer.finished] at hOld ⊢
    omega
  · have hNonneg := h.produced_nonneg
    dsimp only at hNonneg ⊢
    omega
  · have hWritten : ∀ c, (Producer.iteration 0 (i + 1)).written l c →
        (Producer.writes 0 i []).written l c := by
      rintro c (⟨j, hj, hc⟩ | ⟨k, done', todo', hp, -⟩)
      · by_cases hji : j = i
        · subst hji
          refine .inr ⟨j, done, [], rfl, hDone, ?_⟩
          rw [hDone, List.append_nil] at hc
          exact hc
        · refine .inl ⟨j, ?_, hc⟩
          change j < i
          have hj : j < i + 1 := hj
          omega
      · cases hp
    exact ⟨fun c hc => h.memory.behind c (hWritten c hc),
      fun c hc => h.memory.kept c (hWritten c hc)⟩

/-- The producer has no reset of its own. -/
theorem reset_producer (counter : Counter → Int) :
    l.reset Counter.keptByProducer counter = counter := by
  rw [Loop.reset]
  split
  · rw [show resets.filter (fun r => Counter.keptByProducer r.1) = [] by decide]
    rfl
  · rfl

theorem Inv.producerEnd
    (h : Inv l ⟨memory, semaphore, produced, counter, .iteration 0 l.iters, consumer⟩) :
    Inv l ⟨memory, semaphore, produced, l.reset Counter.keptByProducer counter, .iteration 1 0,
      consumer⟩ := by
  rw [reset_producer]
  refine ⟨.inr rfl, h.consumer, h.produced, h.produced_nonneg, h.semaphore, h.semaphore_nonneg,
    h.head, h.tail, ?_⟩
  refine ⟨fun c hc => h.memory.behind c ?_, fun c hc => h.memory.kept c ?_⟩ <;>
    obtain hc | ⟨k, done, todo, hp, -⟩ := hc
  · exact .inl hc
  · cases hp
  · exact .inl hc
  · cases hp

/-! ### Steps of the consumer -/

theorem Inv.release (hWf : l.Wf) (hOnce : l.Once)
    (h : Inv l ⟨memory, semaphore, produced, counter, producer, .iteration 0 i⟩)
    (hDyn : l.dynamic = true) (hi : i < l.iters) :
    Inv l ⟨memory,
      semaphore + l.ahead (counter .tail_next) (l.granted_edge (l.required 0 i)), produced, counter,
      producer, .stores 0 i (l.granted_edge (l.required 0 i))⟩ := by
  have hTail := h.tail hDyn id
  have hOld := h.semaphore
  have hEdge := l.pos_granted_edge (l.required 0 i)
  have hMono := Loop.granted_mono hWf hOnce hDyn hi
  have hNonneg := h.semaphore_nonneg
  rw [Loop.balance_dynamic hDyn] at hOld
  dsimp only [Consumer.entered, Consumer.stored] at hTail hOld hNonneg
  refine ⟨h.producer, ⟨rfl, hi, hDyn, hEdge⟩, h.produced, h.produced_nonneg, ?_, ?_, h.head, h.tail,
    h.memory⟩
  · dsimp only [Consumer.entered]
    rw [if_pos hDyn, Loop.balance_dynamic hDyn, Loop.ahead_eq, hTail, hOld, hEdge, Loop.granted]
    omega
  · dsimp only
    rw [Loop.ahead_eq, hTail, hEdge]
    rw [Loop.granted] at hMono
    omega

theorem Inv.stores (h : Inv l ⟨memory, semaphore, produced, counter, producer, .stores 0 i t⟩) :
    Inv l ⟨memory, semaphore, produced,
      Function.update (Function.update counter .tail_next t) .tail t, producer, .wait 0 i⟩ := by
  obtain ⟨-, hi, hDyn, ht⟩ := h.consumer
  refine ⟨h.producer, ⟨rfl, hi⟩, h.produced, h.produced_nonneg, h.semaphore, h.semaphore_nonneg,
    fun _ _ => ?_, fun _ _ => ?_, h.memory⟩
  · dsimp only
    rw [Function.update_of_ne (by decide), Function.update_of_ne (by decide)]
    exact h.head hDyn id
  · dsimp only
    rw [Function.update_of_ne (by decide), Function.update_self]
    exact ht

theorem Inv.enterStatic
    (h : Inv l ⟨memory, semaphore, produced, counter, producer, .iteration 0 i⟩)
    (hStatic : l.dynamic = false) (hi : i < l.iters) :
    Inv l ⟨memory, semaphore, produced, counter, producer, .wait 0 i⟩ := by
  refine ⟨h.producer, ⟨rfl, hi⟩, h.produced, h.produced_nonneg, ?_, h.semaphore_nonneg,
    fun hDyn => ?_, fun hDyn => ?_, h.memory⟩
  · dsimp only [Consumer.entered]
    rw [hStatic]
    exact h.semaphore
  · simp [hStatic] at hDyn
  · simp [hStatic] at hDyn

theorem Inv.take {produced' : Int}
    (h : Inv l ⟨memory, semaphore, produced, counter, producer, .wait 0 i⟩)
    (hTake : try_acquire produced 1 = some produced') :
    Inv l ⟨memory, semaphore, produced', counter, producer, .reads 0 i (l.reads 0 i)⟩ := by
  obtain ⟨-, hi⟩ := h.consumer
  obtain ⟨hProduced, hNonneg⟩ := try_acquire_spec hTake h.produced_nonneg
  refine ⟨h.producer, ⟨rfl, hi, fun _ hc => hc⟩, ?_, hNonneg, h.semaphore, h.semaphore_nonneg,
    h.head, h.tail, h.memory⟩
  have hOld := h.produced
  dsimp only [Consumer.taken] at hOld ⊢
  omega

theorem Inv.read {c : Int}
    (h : Inv l ⟨memory, semaphore, produced, counter, producer, .reads 0 i (c :: todo)⟩) :
    Inv l ⟨memory, semaphore, produced, counter, producer, .reads 0 i todo⟩ := by
  obtain ⟨-, hi, hReads⟩ := h.consumer
  exact ⟨h.producer, ⟨rfl, hi, fun c' hc' => hReads c' (List.mem_cons_of_mem _ hc')⟩, h.produced,
    h.produced_nonneg, h.semaphore, h.semaphore_nonneg, h.head, h.tail, h.memory⟩

theorem Inv.consumed (h : Inv l ⟨memory, semaphore, produced, counter, producer, .reads 0 i []⟩)
    (hDyn : l.dynamic = true) :
    Inv l ⟨memory, semaphore, produced, counter, producer, .iteration 0 (i + 1)⟩ := by
  obtain ⟨-, hi, -⟩ := h.consumer
  refine ⟨h.producer, .inl ⟨rfl, hi⟩, h.produced, h.produced_nonneg, ?_, h.semaphore_nonneg, h.head,
    h.tail, h.memory⟩
  have hOld := h.semaphore
  dsimp only [Consumer.entered] at hOld ⊢
  rw [if_pos hDyn] at hOld
  exact hOld

theorem Inv.releaseStatic
    (h : Inv l ⟨memory, semaphore, produced, counter, producer, .reads 0 i []⟩)
    (hStatic : l.dynamic = false) (hRelease : 0 ≤ l.to_release 0 i) :
    Inv l ⟨memory, semaphore + l.to_release 0 i, produced, counter, producer,
      .iteration 0 (i + 1)⟩ := by
  obtain ⟨-, hi, -⟩ := h.consumer
  refine ⟨h.producer, .inl ⟨rfl, hi⟩, h.produced, h.produced_nonneg, ?_, ?_, fun hDyn => ?_,
    fun hDyn => ?_, h.memory⟩
  · have hOld := h.semaphore
    dsimp only [Consumer.entered] at hOld ⊢
    rw [hStatic] at hOld
    simp only [Bool.false_eq_true, if_false] at hOld
    rw [hOld, Loop.balance_release_static hStatic]
  · have hNonneg := h.semaphore_nonneg
    dsimp only at hNonneg ⊢
    omega
  · simp [hStatic] at hDyn
  · simp [hStatic] at hDyn

theorem Inv.consumerEnd
    (h : Inv l ⟨memory, semaphore, produced, counter, producer, .iteration 0 l.iters⟩)
    (counter' : Counter → Int) :
    Inv l ⟨memory, semaphore, produced, counter', producer, .iteration 1 0⟩ :=
  ⟨h.producer, .inr rfl, h.produced, h.produced_nonneg, h.semaphore, h.semaphore_nonneg,
    fun _ hGone => absurd trivial hGone, fun _ hGone => absurd trivial hGone, h.memory⟩

end Steps

/-! ### Runs -/

theorem Inv.step (hWf : l.Wf) (hOnce : l.Once) {s s' : State β} {e : Event β} (h : Inv l s)
    (hStep : Step l s e s') : Inv l s' := by
  obtain ⟨memory, semaphore, produced, counter, producer, consumer⟩ := s
  cases hStep with
  | lead hDyn hp hPass hi =>
    obtain rfl : producer = _ := hp
    obtain rfl := hOnce.pass_eq hPass
    exact h.lead hDyn hi
  | acquire hp hAcquire =>
    obtain rfl : producer = _ := hp
    obtain rfl := h.producer.1
    exact h.acquire hWf hAcquire
  | checks hp hExtent hRange =>
    obtain rfl : producer = _ := hp
    obtain rfl := h.producer.1
    exact h.checks hRange
  | acquireStatic hStatic hp hPass hi hAcquire =>
    obtain rfl : producer = _ := hp
    obtain rfl := hOnce.pass_eq hPass
    exact h.acquireStatic hWf hOnce hStatic hi hAcquire
  | write hp =>
    obtain rfl : producer = _ := hp
    obtain rfl := h.producer.1
    exact h.write hWf
  | finish hp =>
    obtain rfl : producer = _ := hp
    obtain rfl := h.producer.1
    exact h.finish
  | producerEnd hp hPass =>
    obtain rfl : producer = _ := hp
    obtain rfl := hOnce.pass_eq hPass
    exact h.producerEnd
  | release hDyn hc hPass hi =>
    obtain rfl : consumer = _ := hc
    obtain rfl := hOnce.pass_eq hPass
    exact h.release hWf hOnce hDyn hi
  | stores hc =>
    obtain rfl : consumer = _ := hc
    obtain rfl := h.consumer.1
    exact h.stores
  | enterStatic hStatic hc hPass hi hAssert =>
    obtain rfl : consumer = _ := hc
    obtain rfl := hOnce.pass_eq hPass
    exact h.enterStatic hStatic hi
  | take hc hTake =>
    obtain rfl : consumer = _ := hc
    obtain rfl := h.consumer.1
    exact h.take hTake
  | read hc =>
    obtain rfl : consumer = _ := hc
    obtain rfl := h.consumer.1
    exact h.read
  | consumed hDyn hc =>
    obtain rfl : consumer = _ := hc
    obtain rfl := h.consumer.1
    exact h.consumed hDyn
  | releaseStatic hStatic hc hAssert =>
    obtain rfl : consumer = _ := hc
    obtain rfl := h.consumer.1
    exact h.releaseStatic hStatic hAssert.1
  | consumerEnd hc hPass =>
    obtain rfl : consumer = _ := hc
    obtain rfl := hOnce.pass_eq hPass
    exact h.consumerEnd _

theorem Reachable.inv (hWf : l.Wf) (hOnce : l.Once) {s : State β} (h : Reachable l s) :
    Inv l s := by
  induction h with
  | initial memory => exact Inv.initial hWf memory
  | step _ hStep ih => exact ih.step hWf hOnce hStep

/-- What the consumer is about to read is in its slot. -/
theorem Inv.memory_of_read (hWf : l.Wf) {s : State β} (h : Inv l s) {pass i : Nat} {c : Int}
    {todo : List Int} (hc : s.consumer = .reads pass i (c :: todo)) :
    s.memory (c % l.factor) = l.value pass c := by
  have hConsumer := h.consumer
  have hProduced := h.produced
  have hNonneg := h.produced_nonneg
  have hSemaphore := h.semaphore ▸ h.semaphore_nonneg
  rw [hc] at hConsumer hProduced hSemaphore
  obtain ⟨rfl, hi, hReads⟩ := hConsumer
  have hFinished : i + 1 ≤ s.producer.finished l := by
    dsimp only [Consumer.taken] at hProduced
    omega
  have hStarted : s.producer.finished l ≤ s.producer.started l := by
    generalize s.producer = producer
    cases producer with
    | iteration pass k => cases pass <;> exact le_rfl
    | acquire pass k t => exact le_rfl
    | checks pass k t => exact Nat.le_succ k
    | writes pass k todo => exact Nat.le_succ k
  have hMem : c ∈ l.reads 0 i := hReads c List.mem_cons_self
  obtain ⟨j, hj, hWrites⟩ := hWf.covered 0 i c hi hMem
  refine h.memory.kept c (.inl ⟨j, by omega, hWrites⟩) ?_
  have hBack := (l.pos_mem (hWf.reads_mem 0 i c hMem)).1
  have hWindow := Loop.lead_lt_of_balance (by omega) hSemaphore
  omega

/-- A loop over a folded dimension that is entered once, whose required footprint does not move
backwards where it is tracked dynamically, and whose provided regions fit: whenever the consumer
reads a coordinate, its slot holds the value produced for it. -/
theorem reads_produced (hWf : l.Wf) (hOnce : l.Once) {s s' : State β} (h : Reachable l s)
    {pass : Nat} {c : Int} {v : β} (hRead : Step l s (.read pass c v) s') :
    v = l.value pass c := by
  cases hRead with
  | read hc => exact (h.inv hWf hOnce).memory_of_read hWf hc

/-- A loop of one iteration that computes the pass it is in at coordinate 0. -/
def loopOf (passes : Nat) : Loop Nat where
  fold_forward := true
  factor := 4
  bounds := ⟨0, 0⟩
  dynamic := true
  constant_fudge := false
  passes := passes
  iters := 1
  provided := fun _ _ => ⟨0, 0⟩
  required := fun _ _ => ⟨0, 0⟩
  steady := 1
  writes := fun _ _ => [0]
  reads := fun _ _ => [0]
  value := fun pass _ => pass

theorem loopOf_wf (passes : Nat) : (loopOf passes).Wf where
  factor_pos := (by decide : (0 : Int) < 4)
  writes_mem pass i c hc := by
    obtain rfl := List.mem_singleton.mp hc
    exact ⟨le_rfl, le_rfl⟩
  reads_mem pass i c hc := by
    obtain rfl := List.mem_singleton.mp hc
    exact ⟨le_rfl, le_rfl⟩
  in_bounds pass i _ := ⟨le_rfl, le_rfl⟩
  covered pass i c _ hc := ⟨i, le_rfl, hc⟩
  monotonic hStatic := nomatch hStatic
  fudge_le hStatic := nomatch hStatic

/-- The producer has done its first pass, the consumer waits for it. -/
theorem loopOf_reachable (passes : Nat) (hPasses : 0 < passes) : Reachable (loopOf passes)
    ⟨Function.update (fun _ => 7) 0 0, 3, 1,
      Function.update (Function.update (Function.update (Function.update (fun _ => 0) .head 0)
        .head_next 0) .tail_next 3) .tail 3, .iteration 0 1, .wait 0 0⟩ := by
  have h₀ : Reachable (loopOf passes) _ := .initial fun _ => 7
  have h₁ := h₀.step (.lead rfl rfl hPasses Nat.one_pos)
  have h₂ := h₁.step (@Step.acquire Nat (loopOf passes) _ _ _ _ 0 rfl rfl)
  have h₃ := h₂.step (.checks rfl (by decide : (0 : Int) - 0 + 1 ≤ 4) (by decide : (0 : Int) > 0 - 4))
  have h₄ := h₃.step (.write rfl)
  have h₅ := h₄.step (.finish rfl)
  have h₆ := h₅.step (.release rfl rfl hPasses Nat.one_pos)
  exact h₆.step (.stores rfl)

theorem reads_produced_once : ∃ s s' v, Reachable (loopOf 1) s ∧
    Step (loopOf 1) s (.read 0 0 v) s' ∧ v = (loopOf 1).value 0 0 := by
  have h₁ := (loopOf_reachable 1 Nat.one_pos).step (@Step.take Nat (loopOf 1) _ _ _ 0 rfl rfl)
  have hOnce : (loopOf 1).Once := ⟨le_rfl, fun _ _ _ => le_rfl, fun hStatic => nomatch hStatic⟩
  refine ⟨_, _, _, h₁, .read rfl, ?_⟩
  exact reads_produced (loopOf_wf 1) hOnce h₁ (.read rfl)

/-- The loop is entered again. Nobody has stepped the producer's counter back, so it acquires
nothing and overwrites what the consumer of the first pass has yet to read. -/
theorem reads_overwritten : (loopOf 2).Wf ∧ ∃ s s' v, Reachable (loopOf 2) s ∧
    Step (loopOf 2) s (.read 0 0 v) s' ∧ v ≠ (loopOf 2).value 0 0 := by
  have h₀ := loopOf_reachable 2 Nat.two_pos
  have h₁ := h₀.step (.producerEnd rfl Nat.two_pos)
  have h₂ := h₁.step (.lead rfl rfl Nat.one_lt_two Nat.one_pos)
  have h₃ := h₂.step (@Step.acquire Nat (loopOf 2) _ _ _ _ 3 rfl rfl)
  have h₄ := h₃.step (.checks rfl (by decide : (0 : Int) - 0 + 1 ≤ 4) (by decide : (0 : Int) > 0 - 4))
  have h₅ := h₄.step (.write rfl)
  have h₆ := h₅.step (@Step.take Nat (loopOf 2) _ _ _ 0 rfl rfl)
  exact ⟨loopOf_wf 2, _, _, _, h₆, .read rfl, by decide⟩

/-- Two iterations; the second requires a coordinate behind the first. -/
def loopBack : Loop Int where
  fold_forward := true
  factor := 2
  bounds := ⟨1, 3⟩
  dynamic := true
  constant_fudge := false
  passes := 1
  iters := 2
  provided := fun _ i => if i = 0 then ⟨1, 2⟩ else ⟨3, 3⟩
  required := fun _ i => if i = 0 then ⟨2, 2⟩ else ⟨1, 1⟩
  steady := 1
  writes := fun _ i => if i = 0 then [1, 2] else [3]
  reads := fun _ i => if i = 0 then [2] else [1]
  value := fun _ c => c

-- The first release lets the producer overwrite coordinate 1, the second takes it back too late.
example : ∃ s s', Reachable loopBack s ∧ Step loopBack s (.read 0 1 3) s' := by
  have h₀ : Reachable loopBack _ := .initial fun _ => 0
  have h₁ := h₀.step (.release rfl rfl Nat.one_pos Nat.two_pos)
  have h₂ := h₁.step (.stores rfl)
  have h₃ := h₂.step (.lead rfl rfl Nat.one_pos Nat.two_pos)
  have h₄ := h₃.step (@Step.acquire Int loopBack _ _ _ _ 1 rfl rfl)
  have h₅ := h₄.step (.checks rfl (by decide) (by decide : (1 : Int) > 2 - 2))
  have h₆ := (h₅.step (.write rfl)).step (.write rfl)
  have h₇ := h₆.step (.finish rfl)
  have h₈ := h₇.step (.lead rfl rfl Nat.one_pos Nat.one_lt_two)
  have h₉ := h₈.step (@Step.acquire Int loopBack _ _ _ _ 0 rfl rfl)
  have h₁₀ := h₉.step (.checks rfl (by decide) (by decide : (3 : Int) > 3 - 2))
  have h₁₁ := (h₁₀.step (.write rfl)).step (.finish rfl)
  have h₁₂ := h₁₁.step (@Step.take Int loopBack _ _ _ 1 rfl rfl)
  have h₁₃ := (h₁₂.step (.read rfl)).step (.consumed rfl rfl)
  have h₁₄ := h₁₃.step (.release rfl rfl Nat.one_pos Nat.one_lt_two)
  have h₁₅ := h₁₄.step (.stores rfl)
  have h₁₆ := h₁₅.step (@Step.take Int loopBack _ _ _ 0 rfl rfl)
  exact ⟨_, _, h₁₆, .read rfl⟩

end Vyasa.AsyncFolding
