import Vyasa.IR.Eval

/-! Lets that a visitor looks up by name: which of them an expression depends on,
and when the values of the variables agree with them. -/
namespace Vyasa.Solve

open Word IRMatch Vyasa.Expr

variable {lets lets' : Name → Option Expr} {ρ : Env} {e e' value body : Expr} {name n : Name}
  {x : Int}

/-- The name is no number from here on. -/
def Old (k : Nat) (n : Name) : Prop := ∀ j, n = .unique j → j < k

theorem Old.mono {k k' : Nat} {n : Name} (h : Old k n) (hk : k ≤ k') : Old k' n :=
  fun j hj => (h j hj).trans_le hk

/-- What is found is the first entry or found behind it. -/
theorem lookup_cons_cases {α β : Type} [BEq α] [LawfulBEq α] {k k' : α} {v v' : β} {l : List (α × β)}
    (h : List.lookup k' ((k, v) :: l) = some v') :
    (k' = k ∧ v' = v) ∨ (k' ≠ k ∧ List.lookup k' l = some v') := by
  rw [List.lookup_cons] at h
  split at h
  case h_1 hEq => exact Or.inl ⟨by simpa using hEq, (Option.some.inj h).symm⟩
  case h_2 hEq => exact Or.inr ⟨by simpa using hEq, h⟩

/-- The expression mentions the name, directly or through the values of lets. -/
inductive Reaches (lets : Name → Option Expr) (e : Expr) : Name → Prop where
  | here {n : Name} (h : e.mentions n = true) : Reaches lets e n
  | through {m n : Name} {value : Expr} (h : Reaches lets e m) (hLet : lets m = some value)
      (hn : value.mentions n = true) : Reaches lets e n

/-- The lets that an expression depends on hold. -/
def LetsHold (lets : Name → Option Expr) (ρ : Env) (e : Expr) : Prop :=
  ∀ n value, Reaches lets e n → lets n = some value → exact ρ value = some (ρ.vars n)

theorem Reaches.mono (h : Reaches lets e n) (hLets : ∀ n v, lets n = some v → lets' n = some v)
    (he : ∀ n, e.mentions n = true → e'.mentions n = true) : Reaches lets' e' n := by
  induction h with
  | here hn => exact .here (he _ hn)
  | through _ hLet hn ih => exact .through ih (hLets _ _ hLet) hn

theorem LetsHold.mono (h : LetsHold lets ρ e) (he : ∀ n, e'.mentions n = true → e.mentions n = true) :
    LetsHold lets ρ e' :=
  fun n value hn => h n value (hn.mono (fun _ _ h => h) he)

/-- Fewer lets ask for less. -/
theorem LetsHold.of_subset (h : LetsHold lets ρ e)
    (hLets : ∀ n v, lets' n = some v → lets n = some v) : LetsHold lets' ρ e :=
  fun n value hn hValue => h n value (hn.mono hLets fun _ h => h) (hLets n value hValue)

/-- No let is asked for by an expression that mentions none of them. -/
theorem letsHold_of_disjoint (h : ∀ n, e.mentions n = true → lets n = none) : LetsHold lets ρ e := by
  have hReaches : ∀ n, Reaches lets e n → e.mentions n = true := by
    intro n hn
    induction hn with
    | here hn => exact hn
    | through _ hLet _ ih =>
      rw [h _ ih] at hLet
      cases hLet
  intro n value hn hValue
  rw [h n (hReaches n hn)] at hValue
  cases hValue

/-- The value of a let that an expression mentions is the variable's, and depends on
lets that hold too. -/
theorem LetsHold.of_var {T : IntType} (h : LetsHold lets ρ (var T n)) (hLet : lets n = some value) :
    exact ρ value = some (ρ.vars n) ∧ LetsHold lets ρ value := by
  have hHere : Reaches lets (var T n) n := .here (by simp)
  refine ⟨h n value hHere hLet, fun k w hk => h k w ?_⟩
  induction hk with
  | here hk => exact .through hHere hLet hk
  | through _ hm hk ih => exact .through ih hm hk

section Scoped

/-- Names that are closed under the lets among them. -/
def Closed (lets : Name → Option Expr) (outer : List Name) : Prop :=
  ∀ n ∈ outer, ∀ value, lets n = some value →
    ∀ m, value.mentions m = true → lets m ≠ none → m ∈ outer

/-- The lets that the expression mentions are around it. -/
def FreeIn (lets : Name → Option Expr) (outer : List Name) (e : Expr) : Prop :=
  ∀ n, e.mentions n = true → lets n ≠ none → n ∈ outer

variable {outer : List Name}

theorem FreeIn.mono (h : FreeIn lets outer e)
    (he : ∀ n, e'.mentions n = true → e.mentions n = true) : FreeIn lets outer e' :=
  fun n hn => h n (he n hn)

theorem FreeIn.of_letIn_body (h : FreeIn lets outer (letIn name value body)) :
    FreeIn lets (name :: outer) body := by
  intro n hn hLet
  by_cases hEq : n = name
  · exact hEq ▸ List.mem_cons_self
  · exact List.mem_cons_of_mem _ (h n (by simp [hn, Ne.symm hEq]) hLet)

theorem FreeIn.of_letIn_value (h : FreeIn lets outer (letIn name value body)) : FreeIn lets outer value :=
  h.mono fun n hn => by simp [hn]

theorem Closed.cons (hClosed : Closed lets outer) (hLet : lets name = some value)
    (hFree : FreeIn lets outer value) : Closed lets (name :: outer) := by
  intro n hn w hw m hm hSome
  refine List.mem_cons_of_mem _ ?_
  rcases List.mem_cons.mp hn with rfl | hn
  · rw [hLet] at hw
    cases hw
    exact hFree m hm hSome
  · exact hClosed n hn w hw m hm hSome

theorem Reaches.mem_outer (h : Reaches lets e n) (hClosed : Closed lets outer)
    (hFree : FreeIn lets outer e) (hn : lets n ≠ none) : n ∈ outer := by
  induction h with
  | here h => exact hFree _ h hn
  | through _ hLet hMentions ih =>
    exact hClosed _ (ih (by rw [hLet]; simp)) _ hLet _ hMentions hn

/-- What the body of a let reaches, the let itself reaches. -/
theorem Reaches.of_body (hLet : ∀ w, lets name = some w → w = value) (h : Reaches lets body n) :
    n = name ∨ Reaches lets (letIn name value body) n := by
  induction h with
  | @here n hn =>
    by_cases hEq : n = name
    · exact Or.inl hEq
    · exact Or.inr (.here (by simp [hn, Ne.symm hEq]))
  | @through m n w _ hm hn ih =>
    rcases ih with rfl | ih
    · rw [hLet w hm] at hn
      exact Or.inr (.here (by simp [hn]))
    · exact Or.inr (.through ih hm hn)

/-- The lets still hold inside a let of a name that none of those around it uses. -/
theorem LetsHold.of_letIn_body (h : LetsHold lets ρ (letIn name value body))
    (hValue : exact ρ value = some x) (hLet : ∀ w, lets name = some w → w = value)
    (hUnused : ∀ n w, Reaches lets body n → lets n = some w → w.mentions name = false) :
    LetsHold lets (ρ.set name x) body := by
  intro n w hn hw
  have hFresh := hUnused n w hn hw
  rw [exact, eval_set hFresh]
  by_cases hEq : n = name
  · subst hEq
    rw [hLet w hw, Env.set_vars_self]
    exact hValue
  · rw [Env.set_vars_of_ne hEq]
    exact h n w ((hn.of_body hLet).resolve_left hEq) hw

end Scoped

end Vyasa.Solve
