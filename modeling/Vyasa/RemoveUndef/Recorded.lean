import Vyasa.RemoveUndef.Names
import Vyasa.RemoveUndef.Picked

/-! What the mutator makes of an expression: the reading of it, and a predicate that holds
exactly where every select with one undef branch takes the other. -/
namespace Vyasa.RemoveUndef

variable {F : Type}

/-! ### The new expression -/

/-- The variables that are not in `dead` have the values read. -/
def Reads (dead : List String) (ρ' : Env) (ρ : String → Int) : Prop :=
  ∀ x, x ∉ dead → ρ' x = some (ρ x)

theorem Reads.bind {dead : List String} {ρ' : Env} {ρ : String → Int} (h : Reads dead ρ' ρ)
    (x : String) (v : Int) :
    Reads dead (Function.update ρ' x (some v)) (Function.update ρ x v) := by
  intro y hy
  by_cases hEq : y = x
  · subst hEq
    simp
  · rw [Function.update_of_ne hEq, Function.update_of_ne hEq]
    exact h y hy

theorem Reads.kill {dead : List String} {ρ' : Env} {ρ : String → Int} (h : Reads dead ρ' ρ)
    (x : String) : Reads (x :: dead) ρ' ρ :=
  fun y hy => h y fun hMem => hy (List.mem_cons_of_mem _ hMem)

/-- A new expression uses names of the old one that have a value, and evaluates to its
reading. There is none exactly where the old one is always undef. -/
structure Result (dead : List String) (e : Expr F) (r : Option (Expr F)) : Prop where
  undef : r.isNone = alwaysUndef dead e
  free : ∀ e', r = some e' → ∀ y, FreeIn y e' → FreeIn y e ∧ y ∉ dead
  bound : ∀ e', r = some e' → ∀ y, BoundIn y e' → BoundIn y e
  value : FreshDead dead e → ∀ (sem : F → Memory → List Int → Int) (mem : Memory)
    (ρ' : Env) (ρ : String → Int), Reads dead ρ' ρ →
    ∀ e', r = some e' → eval sem mem ρ' e' = some (pick sem mem dead ρ e)

structure ResultArgs (dead : List String) (args : Exprs F) (r : Option (Exprs F)) : Prop where
  undef : r.isNone = someUndef dead args
  free : ∀ args', r = some args' → ∀ y, FreeInArgs y args' → FreeInArgs y args ∧ y ∉ dead
  bound : ∀ args', r = some args' → ∀ y, BoundInArgs y args' → BoundInArgs y args
  value : FreshDeadArgs dead args → ∀ (sem : F → Memory → List Int → Int) (mem : Memory)
    (ρ' : Env) (ρ : String → Int), Reads dead ρ' ρ →
    ∀ args', r = some args' → evalArgs sem mem ρ' args' = some (pickArgs sem mem dead ρ args)

theorem Result.none {dead : List String} {e : Expr F} (h : alwaysUndef dead e = true) :
    Result dead e none :=
  ⟨h.symm, by simp, by simp, by simp⟩

theorem Result.live {dead : List String} {e e' : Expr F} (h : Result dead e (some e')) :
    alwaysUndef dead e = false := h.undef.symm

theorem Result.dead {dead : List String} {e : Expr F} (h : Result dead e Option.none) :
    alwaysUndef dead e = true := h.undef.symm

mutual

theorem mutate_result (dead : List String) :
    (e : Expr F) → (p : Predicate F) → Result dead e (mutate dead e p).1
  | .imm v, p => by
      refine ⟨rfl, ?_, ?_, ?_⟩
      · rintro _ ⟨⟩ y hy
        cases hy
      · rintro _ ⟨⟩ y hy
        cases hy
      · rintro - sem mem ρ' ρ - _ ⟨⟩
        rfl
  | .var x, p => by
      simp only [mutate]
      split
      · rename_i hDead
        exact .none (by simpa [alwaysUndef] using hDead)
      · rename_i hLive
        refine ⟨by simp [alwaysUndef, hLive], ?_, ?_, ?_⟩
        · rintro _ ⟨⟩ y (rfl : x = y)
          exact ⟨rfl, hLive⟩
        · rintro _ ⟨⟩ y hy
          cases hy
        · rintro - sem mem ρ' ρ hReads _ ⟨⟩
          exact hReads x hLive
  | .op f args, p => by
      have hArgs := mutateArgs_result dead args p
      simp only [mutate]
      generalize mutateArgs dead args p = m at hArgs ⊢
      obtain ⟨_ | args', p'⟩ := m
      · exact .none hArgs.undef.symm
      · refine ⟨hArgs.undef, ?_, ?_, ?_⟩
        · rintro _ ⟨⟩
          exact hArgs.free args' rfl
        · rintro _ ⟨⟩
          exact hArgs.bound args' rfl
        · rintro hFresh sem mem ρ' ρ hReads _ ⟨⟩
          simp only [eval, pick, hArgs.value hFresh sem mem ρ' ρ hReads args' rfl]
          rfl
  | .not a, p => by
      have ha := mutate_result dead a p
      simp only [mutate]
      generalize mutate dead a p = m at ha ⊢
      obtain ⟨_ | a', p'⟩ := m
      · exact .none ha.dead
      · refine ⟨ha.undef, ?_, ?_, ?_⟩
        · rintro _ ⟨⟩
          exact ha.free a' rfl
        · rintro _ ⟨⟩
          exact ha.bound a' rfl
        · rintro hFresh sem mem ρ' ρ hReads _ ⟨⟩
          simp only [eval, pick, ha.value hFresh sem mem ρ' ρ hReads a' rfl]
          rfl
  | .and a b, p => by
      have ha := mutate_result dead a p
      simp only [mutate]
      generalize mutate dead a p = m at ha ⊢
      obtain ⟨_ | a', p₁⟩ := m
      · exact .none (by simp [alwaysUndef, ha.dead])
      · have hb := mutate_result dead b p₁
        dsimp only
        generalize mutate dead b p₁ = m at hb ⊢
        obtain ⟨_ | b', p₂⟩ := m
        · exact .none (by simp [alwaysUndef, hb.dead])
        · refine ⟨by simp [alwaysUndef, ha.live, hb.live], ?_, ?_, ?_⟩
          · rintro _ ⟨⟩ y (hy | hy)
            · exact (ha.free a' rfl y hy).imp_left .inl
            · exact (hb.free b' rfl y hy).imp_left .inr
          · rintro _ ⟨⟩ y (hy | hy)
            · exact .inl (ha.bound a' rfl y hy)
            · exact .inr (hb.bound b' rfl y hy)
          · rintro hFresh sem mem ρ' ρ hReads _ ⟨⟩
            simp only [eval, pick, ha.value hFresh.1 sem mem ρ' ρ hReads a' rfl,
              hb.value hFresh.2 sem mem ρ' ρ hReads b' rfl]
            rfl
  | .select c t f, p => by
      have hc := mutate_result dead c p
      simp only [mutate]
      generalize mutate dead c p = m at hc ⊢
      obtain ⟨c', p₁⟩ := m
      have ht := mutate_result dead t p₁
      dsimp only
      generalize mutate dead t p₁ = m at ht ⊢
      obtain ⟨t', p₂⟩ := m
      have hf := mutate_result dead f p₂
      dsimp only
      generalize mutate dead f p₂ = m at hf ⊢
      obtain ⟨f', p₃⟩ := m
      match c', t', f' with
      | none, _, _ => exact .none (by simp [alwaysUndef, hc.dead])
      | some c', none, none => exact .none (by simp [alwaysUndef, ht.dead, hf.dead])
      | some c', none, some f' =>
        refine ⟨by simp [alwaysUndef, hc.live, hf.live], ?_, ?_, ?_⟩
        · rintro _ ⟨⟩ y hy
          exact (hf.free f' rfl y hy).imp_left fun h => .inr (.inr h)
        · rintro _ ⟨⟩ y hy
          exact .inr (.inr (hf.bound f' rfl y hy))
        · rintro hFresh sem mem ρ' ρ hReads _ ⟨⟩
          simp only [pick, ht.dead, if_true]
          exact hf.value hFresh.2.2 sem mem ρ' ρ hReads f' rfl
      | some c', some t', none =>
        refine ⟨by simp [alwaysUndef, hc.live, ht.live], ?_, ?_, ?_⟩
        · rintro _ ⟨⟩ y hy
          exact (ht.free t' rfl y hy).imp_left fun h => .inr (.inl h)
        · rintro _ ⟨⟩ y hy
          exact .inr (.inl (ht.bound t' rfl y hy))
        · rintro hFresh sem mem ρ' ρ hReads _ ⟨⟩
          simp only [pick, ht.live, hf.dead, Bool.false_eq_true, if_false, if_true]
          exact ht.value hFresh.2.1 sem mem ρ' ρ hReads t' rfl
      | some c', some t', some f' =>
        refine ⟨by simp [alwaysUndef, hc.live, ht.live], ?_, ?_, ?_⟩
        · rintro _ ⟨⟩ y (hy | hy | hy)
          · exact (hc.free c' rfl y hy).imp_left .inl
          · exact (ht.free t' rfl y hy).imp_left fun h => .inr (.inl h)
          · exact (hf.free f' rfl y hy).imp_left fun h => .inr (.inr h)
        · rintro _ ⟨⟩ y (hy | hy | hy)
          · exact .inl (hc.bound c' rfl y hy)
          · exact .inr (.inl (ht.bound t' rfl y hy))
          · exact .inr (.inr (hf.bound f' rfl y hy))
        · rintro hFresh sem mem ρ' ρ hReads _ ⟨⟩
          simp only [eval, pick, ht.live, hf.live, Bool.false_eq_true, if_false,
            hc.value hFresh.1 sem mem ρ' ρ hReads c' rfl,
            ht.value hFresh.2.1 sem mem ρ' ρ hReads t' rfl,
            hf.value hFresh.2.2 sem mem ρ' ρ hReads f' rfl]
          by_cases hZero : pick sem mem dead ρ c = 0 <;> simp [hZero]
  | .letIn x v b, p => by
      have hv := mutate_result dead v p
      simp only [mutate]
      generalize mutate dead v p = m at hv ⊢
      obtain ⟨_ | v', p₁⟩ := m
      · have hb := mutate_result (x :: dead) b p₁
        dsimp only
        refine ⟨by simp [alwaysUndef, hv.dead, hb.undef], ?_, ?_, ?_⟩
        · intro b' hb' y hy
          obtain ⟨hFree, hLive⟩ := hb.free b' hb' y hy
          simp only [List.mem_cons, not_or] at hLive
          exact ⟨.inr ⟨hLive.1, hFree⟩, hLive.2⟩
        · intro b' hb' y hy
          exact .inr (.inr (hb.bound b' hb' y hy))
        · intro hFresh sem mem ρ' ρ hReads b' hb'
          simp only [FreshDead, hv.dead, if_true] at hFresh
          simp only [pick, hv.dead, if_true]
          exact hb.value hFresh.2 sem mem ρ' ρ (hReads.kill x) b' hb'
      · have hb := mutate_result dead b p₁
        dsimp only
        generalize mutate dead b p₁ = m at hb ⊢
        obtain ⟨_ | b', p₂⟩ := m
        · exact .none (by simp [alwaysUndef, hv.live, hb.dead])
        · refine ⟨by simp [alwaysUndef, hv.live, hb.live], ?_, ?_, ?_⟩
          · rintro _ ⟨⟩ y (hy | ⟨hNe, hy⟩)
            · exact (hv.free v' rfl y hy).imp_left .inl
            · exact (hb.free b' rfl y hy).imp_left fun h => .inr ⟨hNe, h⟩
          · rintro _ ⟨⟩ y (hy | hy | hy)
            · exact .inl hy
            · exact .inr (.inl (hv.bound v' rfl y hy))
            · exact .inr (.inr (hb.bound b' rfl y hy))
          · rintro hFresh sem mem ρ' ρ hReads _ ⟨⟩
            simp only [FreshDead, hv.live, Bool.false_eq_true, if_false] at hFresh
            simp only [eval, pick, hv.live, Bool.false_eq_true, if_false,
              hv.value hFresh.1 sem mem ρ' ρ hReads v' rfl]
            exact hb.value hFresh.2.2 sem mem _ _ (hReads.bind x _) b' rfl
  | .undef, p => .none rfl

theorem mutateArgs_result (dead : List String) :
    (args : Exprs F) → (p : Predicate F) → ResultArgs dead args (mutateArgs dead args p).1
  | .nil, p => by
      refine ⟨rfl, ?_, ?_, ?_⟩
      · rintro _ ⟨⟩ y hy
        cases hy
      · rintro _ ⟨⟩ y hy
        cases hy
      · rintro - sem mem ρ' ρ - _ ⟨⟩
        rfl
  | .cons e rest, p => by
      have he := mutate_result dead e p
      simp only [mutateArgs]
      generalize mutate dead e p = m at he ⊢
      obtain ⟨_ | e', p₁⟩ := m
      · refine ⟨by simp [someUndef, he.dead], ?_, ?_, ?_⟩ <;> simp
      · have hRest := mutateArgs_result dead rest p₁
        dsimp only
        generalize mutateArgs dead rest p₁ = m at hRest ⊢
        obtain ⟨_ | rest', p₂⟩ := m
        · refine ⟨by simp [someUndef, ← hRest.undef], ?_, ?_, ?_⟩ <;> simp
        · refine ⟨by simp [someUndef, he.live, ← hRest.undef], ?_, ?_, ?_⟩
          · rintro _ ⟨⟩ y (hy | hy)
            · exact (he.free e' rfl y hy).imp_left .inl
            · exact (hRest.free rest' rfl y hy).imp_left .inr
          · rintro _ ⟨⟩ y (hy | hy)
            · exact .inl (he.bound e' rfl y hy)
            · exact .inr (hRest.bound rest' rfl y hy)
          · rintro hFresh sem mem ρ' ρ hReads _ ⟨⟩
            simp only [evalArgs, pickArgs, he.value hFresh.1 sem mem ρ' ρ hReads e' rfl,
              hRest.value hFresh.2 sem mem ρ' ρ hReads rest' rfl]
            rfl

end

/-! ### The predicate -/

mutual

/-- The mutator meets no select with exactly one branch that is always undef. -/
def Quiet (dead : List String) : Expr F → Prop
  | .imm _ | .var _ | .undef => True
  | .op _ args => QuietArgs dead args
  | .not a => Quiet dead a
  | .and a b => Quiet dead a ∧ (alwaysUndef dead a = false → Quiet dead b)
  | .select c t f => Quiet dead c ∧ Quiet dead t ∧ Quiet dead f ∧
      (alwaysUndef dead c = false → alwaysUndef dead t = alwaysUndef dead f)
  | .letIn x v b => Quiet dead v ∧
      if alwaysUndef dead v then Quiet (x :: dead) b else Quiet dead b

def QuietArgs (dead : List String) : Exprs F → Prop
  | .nil => True
  | .cons e rest => Quiet dead e ∧ (alwaysUndef dead e = false → QuietArgs dead rest)

end

mutual

/-- A let whose body is always undef records nothing there: the name would be left in the
predicate, outside its scope. -/
def LeakFree (dead : List String) : Expr F → Prop
  | .imm _ | .var _ | .undef => True
  | .op _ args => LeakFreeArgs dead args
  | .not a => LeakFree dead a
  | .and a b => LeakFree dead a ∧ (alwaysUndef dead a = false → LeakFree dead b)
  | .select c t f => LeakFree dead c ∧ LeakFree dead t ∧ LeakFree dead f
  | .letIn x v b => LeakFree dead v ∧
      if alwaysUndef dead v then LeakFree (x :: dead) b
      else LeakFree dead b ∧ (alwaysUndef dead b = true → Quiet dead b)

def LeakFreeArgs (dead : List String) : Exprs F → Prop
  | .nil => True
  | .cons e rest => LeakFree dead e ∧ (alwaysUndef dead e = false → LeakFreeArgs dead rest)

end

/-- A condition that has a value other than zero. -/
def Holds (sem : F → Memory → List Int → Int) (mem : Memory) (ρ : Env) (c : Expr F) : Prop :=
  ∃ v, eval sem mem ρ c = some v ∧ v ≠ 0

/-- The conditions recorded for one expression. The names in them are free in it, or bound. -/
structure Recorded (dead : List String) (free bound : String → Prop) (quiet : Prop)
    (records : (F → Memory → List Int → Int) → Memory → (String → Int) → Prop)
    (q : Predicate F) : Prop where
  quiet : quiet → q = []
  free : ∀ c ∈ q, ∀ y, FreeIn y c → free y ∧ y ∉ dead
  bound : ∀ c ∈ q, ∀ y, BoundIn y c → bound y
  holds : ∀ (sem : F → Memory → List Int → Int) (mem : Memory) (ρ' : Env) (ρ : String → Int),
    Reads dead ρ' ρ → ((∀ c ∈ q, Holds sem mem ρ' c) ↔ records sem mem ρ)

/-- The conditions recorded for `e`. -/
def RecordedFor (dead : List String) (e : Expr F) : Predicate F → Prop :=
  Recorded dead (FreeIn · e) (BoundIn · e) (Quiet dead e) fun sem mem ρ => Records sem mem dead ρ e

def RecordedForArgs (dead : List String) (args : Exprs F) : Predicate F → Prop :=
  Recorded dead (FreeInArgs · args) (BoundInArgs · args) (QuietArgs dead args)
    fun sem mem ρ => RecordsArgs sem mem dead ρ args

section

variable {dead : List String} {free free' bound bound' : String → Prop} {quiet quiet' : Prop}
    {records records' : (F → Memory → List Int → Int) → Memory → (String → Int) → Prop}
    {q q' : Predicate F}

theorem Recorded.nil (h : ∀ sem mem ρ, records sem mem ρ) :
    Recorded dead free bound quiet records [] where
  quiet _ := rfl
  free := by simp
  bound := by simp
  holds sem mem ρ' ρ _ := by simp [h sem mem ρ]

theorem Recorded.mono (h : Recorded dead free bound quiet records q) (hFree : ∀ y, free y → free' y)
    (hBound : ∀ y, bound y → bound' y) (hQuiet : quiet' → quiet)
    (hRecords : ∀ sem mem ρ, records sem mem ρ ↔ records' sem mem ρ) :
    Recorded dead free' bound' quiet' records' q where
  quiet hq := h.quiet (hQuiet hq)
  free c hc y hy := (h.free c hc y hy).imp_left (hFree y)
  bound c hc y hy := hBound y (h.bound c hc y hy)
  holds sem mem ρ' ρ hReads := (h.holds sem mem ρ' ρ hReads).trans (hRecords sem mem ρ)

theorem Recorded.append (h : Recorded dead free bound quiet records q)
    (h' : Recorded dead free' bound' quiet' records' q') :
    Recorded dead (fun y => free y ∨ free' y) (fun y => bound y ∨ bound' y) (quiet ∧ quiet')
      (fun sem mem ρ => records sem mem ρ ∧ records' sem mem ρ) (q ++ q') where
  quiet hq := by rw [h.quiet hq.1, h'.quiet hq.2, List.append_nil]
  free c hc y hy := by
    rcases List.mem_append.mp hc with hc | hc
    · exact (h.free c hc y hy).imp_left .inl
    · exact (h'.free c hc y hy).imp_left .inr
  bound c hc y hy := by
    rcases List.mem_append.mp hc with hc | hc
    · exact .inl (h.bound c hc y hy)
    · exact .inr (h'.bound c hc y hy)
  holds sem mem ρ' ρ hReads := by
    rw [← h.holds sem mem ρ' ρ hReads, ← h'.holds sem mem ρ' ρ hReads]
    exact List.forall_mem_append

/-- One more condition, of a select that is met. -/
theorem Recorded.single {e c' cond : Expr F} (truth : Int → Prop)
    (hc : Result dead e (some c')) (hFresh : FreshDead dead e)
    (hNames : ∀ y, (FreeIn y cond → FreeIn y c') ∧ (BoundIn y cond → BoundIn y c'))
    (hCond : ∀ sem mem ρ' v, eval sem mem ρ' c' = some v → (Holds sem mem ρ' cond ↔ truth v)) :
    Recorded dead (FreeIn · e) (BoundIn · e) False
      (fun sem mem ρ => truth (pick sem mem dead ρ e)) [cond] where
  quiet hq := hq.elim
  free c hMem y hy := by
    obtain rfl := List.mem_singleton.mp hMem
    exact hc.free c' rfl y ((hNames y).1 hy)
  bound c hMem y hy := by
    obtain rfl := List.mem_singleton.mp hMem
    exact hc.bound c' rfl y ((hNames y).2 hy)
  holds sem mem ρ' ρ hReads := by
    rw [List.forall_mem_singleton]
    exact hCond sem mem ρ' _ (hc.value hFresh sem mem ρ' ρ hReads c' rfl)

end

/-- The conditions recorded in the scope of a name without a value do not use it. -/
theorem Recorded.kill {dead : List String} {x : String} {b : Expr F} {q : Predicate F}
    (h : RecordedFor (x :: dead) b q) :
    Recorded dead (fun y => y ≠ x ∧ FreeIn y b) (BoundIn · b) (Quiet (x :: dead) b)
      (fun sem mem ρ => Records sem mem (x :: dead) ρ b) q where
  quiet := h.quiet
  free c hc y hy := by
    obtain ⟨hFree, hLive⟩ := h.free c hc y hy
    simp only [List.mem_cons, not_or] at hLive
    exact ⟨⟨hLive.1, hFree⟩, hLive.2⟩
  bound := h.bound
  holds sem mem ρ' ρ hReads := h.holds sem mem ρ' ρ (hReads.kill x)

mutual

theorem records_of_quiet {sem : F → Memory → List Int → Int} {mem : Memory} {dead : List String}
    {ρ : String → Int} : (e : Expr F) → Quiet dead e → Records sem mem dead ρ e
  | .imm _, _ | .var _, _ | .undef, _ => trivial
  | .op _ args, h => recordsArgs_of_quiet args h
  | .not a, h => records_of_quiet a h
  | .and a b, h => ⟨records_of_quiet a h.1, fun hLive => records_of_quiet b (h.2 hLive)⟩
  | .select c t f, h => by
      obtain ⟨hc, ht, hf, hSame⟩ := h
      refine ⟨records_of_quiet c hc, records_of_quiet t ht, records_of_quiet f hf, fun hLive => ?_⟩
      rw [hSame hLive]
      constructor <;> intro h h' <;> simp [h] at h'
  | .letIn x v b, h => by
      simp only [Quiet] at h
      refine ⟨records_of_quiet v h.1, ?_⟩
      split
      · rename_i hv
        rw [if_pos hv] at h
        exact records_of_quiet b h.2
      · rename_i hv
        rw [if_neg hv] at h
        exact records_of_quiet b h.2

theorem recordsArgs_of_quiet {sem : F → Memory → List Int → Int} {mem : Memory}
    {dead : List String} {ρ : String → Int} :
    (args : Exprs F) → QuietArgs dead args → RecordsArgs sem mem dead ρ args
  | .nil, _ => trivial
  | .cons e rest, h => ⟨records_of_quiet e h.1, fun hLive => recordsArgs_of_quiet rest (h.2 hLive)⟩

end

/-- The names free in the conditions so far are in scope. -/
def InScope (scope : List String) (p : Predicate F) : Prop := ∀ c ∈ p, ∀ y, FreeIn y c → y ∈ scope

theorem InScope.append {scope : List String} {p q : Predicate F} (hp : InScope scope p)
    (hq : InScope scope q) : InScope scope (p ++ q) := by
  intro c hc
  rcases List.mem_append.mp hc with hc | hc
  · exact hp c hc
  · exact hq c hc

theorem RecordedFor.inScope {scope dead : List String} {e : Expr F} {q : Predicate F}
    (h : RecordedFor dead e q) (he : NoRebind scope e) : InScope scope q :=
  fun c hc y hy => he.free e (h.free c hc y hy).1

theorem substitute_inScope {scope : List String} {p : Predicate F} {x : String} {r : Expr F}
    (hp : InScope scope p) (hx : x ∉ scope) : p.map (substitute x r) = p := by
  conv_rhs => rw [← List.map_id p]
  refine List.map_congr_left fun c hc => ?_
  exact substitute_of_not_free c fun hFree => hx (hp c hc x hFree)

/-- Substituting the value of a let in what its body recorded. -/
theorem RecordedFor.substitute {scope dead : List String} {x : String} {v v' b : Expr F}
    {q : Predicate F} (h : RecordedFor dead b q) (hv : Result dead v (some v'))
    (hFresh : FreshDead dead v) (hScope : NoRebind scope v) (hBody : NoRebind (x :: scope) b) :
    Recorded dead (fun y => FreeIn y v ∨ (y ≠ x ∧ FreeIn y b)) (fun y => BoundIn y v ∨ BoundIn y b)
      (Quiet dead b)
      (fun sem mem ρ =>
        Records sem mem dead (Function.update ρ x (pick sem mem dead ρ v)) b)
      (q.map (Vyasa.RemoveUndef.substitute x v')) where
  quiet hq := by rw [h.quiet hq, List.map_nil]
  free c hc y hy := by
    obtain ⟨c, hMem, rfl⟩ := List.mem_map.mp hc
    rcases free_of_substitute c hy with ⟨hy, hNe⟩ | hy
    · exact (h.free c hMem y hy).imp_left fun hFree => .inr ⟨hNe, hFree⟩
    · exact (hv.free v' rfl y hy).imp_left .inl
  bound c hc y hy := by
    obtain ⟨c, hMem, rfl⟩ := List.mem_map.mp hc
    rcases bound_of_substitute c hy with hy | hy
    · exact .inr (h.bound c hMem y hy)
    · exact .inl (hv.bound v' rfl y hy)
  holds sem mem ρ' ρ hReads := by
    have hValue := hv.value hFresh sem mem ρ' ρ hReads v' rfl
    rw [← h.holds sem mem _ _ (hReads.bind x (pick sem mem dead ρ v)), List.forall_mem_map]
    refine forall₂_congr fun c hc => ?_
    -- what is bound in the condition is not in scope, so it captures nothing of the value
    have hApart : ∀ y, BoundIn y c → ¬ FreeIn y v' := by
      intro y hBound hFree
      have hMem : y ∈ scope := hScope.free v (hv.free v' rfl y hFree).1
      exact hBody.bound b (h.bound c hc y hBound) (List.mem_cons_of_mem _ hMem)
    simp only [Holds, eval_substitute c hApart, hValue]

mutual

/-- The mutator appends to the predicate the conditions recorded for the expression. -/
theorem mutate_recorded {scope dead : List String} : (e : Expr F) → NoRebind scope e →
    FreshDead dead e → LeakFree dead e → ∀ p : Predicate F, InScope scope p →
    ∃ q, (mutate dead e p).2 = p ++ q ∧ RecordedFor dead e q
  | .imm _, _, _, _, p, _ | .var _, _, _, _, p, _ | .undef, _, _, _, p, _ =>
      ⟨[], (List.append_nil p).symm, .nil fun _ _ _ => trivial⟩
  | .op f args, hScope, hFresh, hLeak, p, hp => by
      obtain ⟨q, hq, hRec⟩ := mutateArgs_recorded args hScope hFresh hLeak p hp
      refine ⟨q, ?_, hRec⟩
      rw [← hq]
      simp only [mutate]
      generalize mutateArgs dead args p = m
      obtain ⟨_ | args', p'⟩ := m <;> rfl
  | .not a, hScope, hFresh, hLeak, p, hp => by
      obtain ⟨q, hq, hRec⟩ := mutate_recorded a hScope hFresh hLeak p hp
      refine ⟨q, ?_, hRec⟩
      rw [← hq]
      simp only [mutate]
      generalize mutate dead a p = m
      obtain ⟨_ | a', p'⟩ := m <;> rfl
  | .and a b, hScope, hFresh, hLeak, p, hp => by
      obtain ⟨q, hq, hRec⟩ := mutate_recorded a hScope.1 hFresh.1 hLeak.1 p hp
      have ha := mutate_result dead a p
      simp only [mutate]
      generalize mutate dead a p = m at hq ha ⊢
      obtain ⟨_ | a', p₁⟩ := m
      · refine ⟨q, hq, hRec.mono (fun _ => .inl) (fun _ => .inl) And.left fun sem mem ρ => ?_⟩
        simp [Records, ha.dead]
      · obtain rfl : p₁ = p ++ q := hq
        obtain ⟨q', hq', hRec'⟩ := mutate_recorded b hScope.2 hFresh.2 (hLeak.2 ha.live) (p ++ q)
          (hp.append (hRec.inScope hScope.1))
        refine ⟨q ++ q', ?_, (hRec.append hRec').mono (fun _ => id) (fun _ => id) ?_ ?_⟩
        · rw [← List.append_assoc, ← hq']
          dsimp only
          generalize mutate dead b (p ++ q) = m
          obtain ⟨_ | b', p'⟩ := m <;> rfl
        · exact fun hQuiet => ⟨hQuiet.1, hQuiet.2 ha.live⟩
        · intro sem mem ρ
          simp [Records, ha.live]
  | .select c t f, hScope, hFresh, hLeak, p, hp => by
      obtain ⟨qc, hqc, hRecC⟩ := mutate_recorded c hScope.1 hFresh.1 hLeak.1 p hp
      have hc := mutate_result dead c p
      simp only [mutate]
      generalize mutate dead c p = m at hqc hc ⊢
      obtain ⟨c', p₁⟩ := m
      obtain rfl : p₁ = p ++ qc := hqc
      have hp₁ := hp.append (hRecC.inScope hScope.1)
      obtain ⟨qt, hqt, hRecT⟩ := mutate_recorded t hScope.2.1 hFresh.2.1 hLeak.2.1 (p ++ qc) hp₁
      have ht := mutate_result dead t (p ++ qc)
      dsimp only
      generalize mutate dead t (p ++ qc) = m at hqt ht ⊢
      obtain ⟨t', p₂⟩ := m
      obtain rfl : p₂ = p ++ qc ++ qt := hqt
      obtain ⟨qf, hqf, hRecF⟩ := mutate_recorded f hScope.2.2 hFresh.2.2 hLeak.2.2 (p ++ qc ++ qt)
        (hp₁.append (hRecT.inScope hScope.2.1))
      have hf := mutate_result dead f (p ++ qc ++ qt)
      dsimp only
      generalize mutate dead f (p ++ qc ++ qt) = m at hqf hf ⊢
      obtain ⟨f', p₃⟩ := m
      obtain rfl : p₃ = p ++ qc ++ qt ++ qf := hqf
      have hAll := hRecC.append (hRecT.append hRecF)
      match c', t', f' with
      | none, _, _ =>
        refine ⟨qc ++ (qt ++ qf), by simp, hAll.mono (fun _ => id) (fun _ => id) ?_ ?_⟩
        · exact fun hQuiet => ⟨hQuiet.1, hQuiet.2.1, hQuiet.2.2.1⟩
        · intro sem mem ρ
          simp [Records, hc.dead]
      | some c', none, none =>
        refine ⟨qc ++ (qt ++ qf), by simp, hAll.mono (fun _ => id) (fun _ => id) ?_ ?_⟩
        · exact fun hQuiet => ⟨hQuiet.1, hQuiet.2.1, hQuiet.2.2.1⟩
        · intro sem mem ρ
          simp [Records, ht.dead, hf.dead]
      | some c', some t', some f' =>
        refine ⟨qc ++ (qt ++ qf), by simp, hAll.mono (fun _ => id) (fun _ => id) ?_ ?_⟩
        · exact fun hQuiet => ⟨hQuiet.1, hQuiet.2.1, hQuiet.2.2.1⟩
        · intro sem mem ρ
          simp [Records, ht.live, hf.live]
      | some c', none, some f' =>
        have hCond : Recorded dead (FreeIn · c) (BoundIn · c) False
            (fun sem mem ρ => pick sem mem dead ρ c = 0) [Expr.not c'] :=
          Recorded.single (fun v => v = 0) hc hFresh.1 (fun y => ⟨id, id⟩) fun sem mem ρ' v hv => by
            by_cases hZero : v = 0 <;> simp [Holds, eval, hv, hZero]
        refine ⟨qc ++ (qt ++ qf) ++ [Expr.not c'], by simp,
          (hAll.append hCond).mono ?_ ?_ ?_ ?_⟩
        · rintro y (hy | hy)
          · exact hy
          · exact .inl hy
        · rintro y (hy | hy)
          · exact hy
          · exact .inl hy
        · intro hQuiet
          have := hQuiet.2.2.2 hc.live
          simp [ht.dead, hf.live] at this
        · intro sem mem ρ
          simp [Records, hc.live, ht.dead, hf.live, and_assoc]
      | some c', some t', none =>
        have hCond : Recorded dead (FreeIn · c) (BoundIn · c) False
            (fun sem mem ρ => pick sem mem dead ρ c ≠ 0) [c'] :=
          Recorded.single (fun v => v ≠ 0) hc hFresh.1 (fun y => ⟨id, id⟩) fun sem mem ρ' v hv => by
            simp [Holds, hv]
        refine ⟨qc ++ (qt ++ qf) ++ [c'], by simp,
          (hAll.append hCond).mono ?_ ?_ ?_ ?_⟩
        · rintro y (hy | hy)
          · exact hy
          · exact .inl hy
        · rintro y (hy | hy)
          · exact hy
          · exact .inl hy
        · intro hQuiet
          have := hQuiet.2.2.2 hc.live
          simp [ht.live, hf.dead] at this
        · intro sem mem ρ
          simp [Records, hc.live, ht.live, hf.dead, and_assoc]
  | .letIn x v b, hScope, hFresh, hLeak, p, hp => by
      obtain ⟨hx, hScopeV, hScopeB⟩ := hScope
      simp only [FreshDead] at hFresh
      simp only [LeakFree] at hLeak
      obtain ⟨q, hq, hRec⟩ := mutate_recorded v hScopeV hFresh.1 hLeak.1 p hp
      have hv := mutate_result dead v p
      simp only [mutate]
      generalize mutate dead v p = m at hq hv ⊢
      obtain ⟨_ | v', p₁⟩ := m
      · obtain rfl : p₁ = p ++ q := hq
        simp only [hv.dead, if_true] at hFresh hLeak
        have hp₁ : InScope (x :: scope) (p ++ q) := fun c hc y hy =>
          List.mem_cons_of_mem _ (hp.append (hRec.inScope hScopeV) c hc y hy)
        obtain ⟨q', hq', hRec'⟩ := mutate_recorded b hScopeB hFresh.2 hLeak.2 (p ++ q) hp₁
        refine ⟨q ++ q', by rw [← List.append_assoc, ← hq'], ?_⟩
        refine (hRec.append (Recorded.kill hRec')).mono ?_ ?_ ?_ ?_
        · exact fun y => id
        · exact fun y hy => .inr hy
        · intro hQuiet
          simpa [Quiet, hv.dead] using hQuiet
        · intro sem mem ρ
          simp [Records, hv.dead]
      · obtain rfl : p₁ = p ++ q := hq
        simp only [hv.live, Bool.false_eq_true, if_false] at hFresh hLeak
        have hIn := hp.append (hRec.inScope hScopeV)
        obtain ⟨q', hq', hRec'⟩ := mutate_recorded b hScopeB hFresh.2.2 hLeak.2.1 (p ++ q)
          fun c hc y hy => List.mem_cons_of_mem _ (hIn c hc y hy)
        have hb := mutate_result dead b (p ++ q)
        dsimp only
        generalize mutate dead b (p ++ q) = m at hq' hb ⊢
        obtain ⟨_ | b', p₂⟩ := m
        · -- nothing was recorded in the body
          have hQuiet := hLeak.2.2 hb.dead
          obtain rfl := hRec'.quiet hQuiet
          refine ⟨q, by simpa using hq', hRec.mono (fun _ => .inl) (fun _ hy => .inr (.inl hy)) And.left ?_⟩
          intro sem mem ρ
          have hTrue : Records sem mem dead (Function.update ρ x (pick sem mem dead ρ v)) b :=
            records_of_quiet b hQuiet
          simp [Records, hv.live, hTrue]
        · obtain rfl : p₂ = p ++ q ++ q' := hq'
          have hSub := hRec'.substitute hv hFresh.1 hScopeV hScopeB
          refine ⟨q ++ q'.map (substitute x v'), ?_, (hRec.append hSub).mono ?_ ?_ ?_ ?_⟩
          · simp only [List.map_append, substitute_inScope hp hx,
              substitute_inScope (hRec.inScope hScopeV) hx, List.append_assoc]
          · rintro y (hy | hy)
            · exact .inl hy
            · exact hy
          · rintro y (hy | hy)
            · exact .inr (.inl hy)
            · exact .inr hy
          · intro hQuiet
            simpa [Quiet, hv.live] using hQuiet
          · intro sem mem ρ
            simp [Records, hv.live]

theorem mutateArgs_recorded {scope dead : List String} : (args : Exprs F) →
    NoRebindArgs scope args → FreshDeadArgs dead args → LeakFreeArgs dead args →
    ∀ p : Predicate F, InScope scope p →
    ∃ q, (mutateArgs dead args p).2 = p ++ q ∧ RecordedForArgs dead args q
  | .nil, _, _, _, p, _ => ⟨[], (List.append_nil p).symm, .nil fun _ _ _ => trivial⟩
  | .cons e rest, hScope, hFresh, hLeak, p, hp => by
      obtain ⟨q, hq, hRec⟩ := mutate_recorded e hScope.1 hFresh.1 hLeak.1 p hp
      have he := mutate_result dead e p
      simp only [mutateArgs]
      generalize mutate dead e p = m at hq he ⊢
      obtain ⟨_ | e', p₁⟩ := m
      · refine ⟨q, hq, hRec.mono (fun _ => .inl) (fun _ => .inl) And.left fun sem mem ρ => ?_⟩
        simp [RecordsArgs, he.dead]
      · obtain rfl : p₁ = p ++ q := hq
        obtain ⟨q', hq', hRec'⟩ := mutateArgs_recorded rest hScope.2 hFresh.2 (hLeak.2 he.live)
          (p ++ q) (hp.append (hRec.inScope hScope.1))
        refine ⟨q ++ q', ?_, (hRec.append hRec').mono (fun _ => id) (fun _ => id) ?_ ?_⟩
        · rw [← List.append_assoc, ← hq']
          dsimp only
          generalize mutateArgs dead rest (p ++ q) = m
          obtain ⟨_ | rest', p'⟩ := m <;> rfl
        · exact fun hQuiet => ⟨hQuiet.1, hQuiet.2 he.live⟩
        · intro sem mem ρ
          simp [RecordsArgs, he.live]

end

mutual

/-- With nothing to record, names may be bound again. -/
theorem mutate_quiet {dead : List String} : (e : Expr F) → Quiet dead e → (mutate dead e []).2 = []
  | .imm _, _ | .var _, _ | .undef, _ => rfl
  | .op f args, h => by
      have hArgs := mutateArgs_quiet args h
      simp only [mutate]
      generalize mutateArgs dead args [] = m at hArgs ⊢
      obtain ⟨_ | args', p⟩ := m <;> exact hArgs
  | .not a, h => by
      have ha := mutate_quiet a h
      simp only [mutate]
      generalize mutate dead a [] = m at ha ⊢
      obtain ⟨_ | a', p⟩ := m <;> exact ha
  | .and a b, h => by
      have ha := mutate_quiet a h.1
      have hr := mutate_result dead a []
      simp only [mutate]
      generalize mutate dead a [] = m at ha hr ⊢
      obtain ⟨_ | a', p⟩ := m
      · exact ha
      · obtain rfl : p = [] := ha
        have hb := mutate_quiet b (h.2 hr.live)
        dsimp only
        generalize mutate dead b [] = m at hb ⊢
        obtain ⟨_ | b', p⟩ := m <;> exact hb
  | .select c t f, h => by
      obtain ⟨hc, ht, hf, hSame⟩ := h
      have hqc := mutate_quiet c hc
      have hrc := mutate_result dead c []
      simp only [mutate]
      generalize mutate dead c [] = m at hqc hrc ⊢
      obtain ⟨c', p₁⟩ := m
      obtain rfl : p₁ = [] := hqc
      have hqt := mutate_quiet t ht
      have hrt := mutate_result dead t []
      dsimp only
      generalize mutate dead t [] = m at hqt hrt ⊢
      obtain ⟨t', p₂⟩ := m
      obtain rfl : p₂ = [] := hqt
      have hqf := mutate_quiet f hf
      have hrf := mutate_result dead f []
      dsimp only
      generalize mutate dead f [] = m at hqf hrf ⊢
      obtain ⟨f', p₃⟩ := m
      obtain rfl : p₃ = [] := hqf
      match c', t', f' with
      | none, _, _ => rfl
      | some c', none, none => rfl
      | some c', some t', some f' => rfl
      | some c', none, some f' =>
        have := hSame hrc.live
        simp [hrt.dead, hrf.live] at this
      | some c', some t', none =>
        have := hSame hrc.live
        simp [hrt.live, hrf.dead] at this
  | .letIn x v b, h => by
      simp only [Quiet] at h
      have hqv := mutate_quiet v h.1
      have hrv := mutate_result dead v []
      simp only [mutate]
      generalize mutate dead v [] = m at hqv hrv ⊢
      obtain ⟨_ | v', p₁⟩ := m
      · obtain rfl : p₁ = [] := hqv
        exact mutate_quiet b (by simpa [hrv.dead] using h.2)
      · obtain rfl : p₁ = [] := hqv
        have hqb := mutate_quiet b (by simpa [hrv.live] using h.2)
        dsimp only
        generalize mutate dead b [] = m at hqb ⊢
        obtain ⟨_ | b', p₂⟩ := m
        · exact hqb
        · obtain rfl : p₂ = [] := hqb
          rfl

theorem mutateArgs_quiet {dead : List String} :
    (args : Exprs F) → QuietArgs dead args → (mutateArgs dead args []).2 = []
  | .nil, _ => rfl
  | .cons e rest, h => by
      have hqe := mutate_quiet e h.1
      have hre := mutate_result dead e []
      simp only [mutateArgs]
      generalize mutate dead e [] = m at hqe hre ⊢
      obtain ⟨_ | e', p⟩ := m
      · exact hqe
      · obtain rfl : p = [] := hqe
        have hRest := mutateArgs_quiet rest (h.2 hre.live)
        dsimp only
        generalize mutateArgs dead rest [] = m at hRest ⊢
        obtain ⟨_ | rest', p⟩ := m <;> exact hRest

end

/-- The expressions of one store record nothing, or bind no name that is in scope or leave one
behind. -/
def Apart (dead : List String) (es : List (Expr F)) : Prop :=
  (∀ e ∈ es, Quiet dead e) ∨ ∃ scope, ∀ e ∈ es, NoRebind scope e ∧ LeakFree dead e

/-- The conditions recorded by the expressions of a store, one after the other. -/
theorem apart_recorded {dead : List String} {a b c : Expr F} (hFreshA : FreshDead dead a)
    (hFreshB : FreshDead dead b) (hFreshC : FreshDead dead c) (h : Apart dead [a, b, c]) :
    ∃ qa qb qc, (mutate dead a []).2 = qa ∧ (mutate dead b qa).2 = qa ++ qb ∧
      (mutate dead c (qa ++ qb)).2 = qa ++ qb ++ qc ∧
      RecordedFor dead a qa ∧ RecordedFor dead b qb ∧ RecordedFor dead c qc := by
  rcases h with hQuiet | ⟨scope, hScope⟩
  · have hNil : ∀ e ∈ [a, b, c], RecordedFor dead e [] := fun e he =>
      .nil fun _ _ _ => records_of_quiet e (hQuiet e he)
    refine ⟨[], [], [], ?_, ?_, ?_, hNil a (by simp), hNil b (by simp), hNil c (by simp)⟩
    · exact mutate_quiet a (hQuiet a (by simp))
    · exact mutate_quiet b (hQuiet b (by simp))
    · exact mutate_quiet c (hQuiet c (by simp))
  · obtain ⟨hScopeA, hLeakA⟩ := hScope a (by simp)
    obtain ⟨hScopeB, hLeakB⟩ := hScope b (by simp)
    obtain ⟨hScopeC, hLeakC⟩ := hScope c (by simp)
    obtain ⟨qa, hqa, hRecA⟩ := mutate_recorded a hScopeA hFreshA hLeakA [] (by simp [InScope])
    obtain ⟨qb, hqb, hRecB⟩ := mutate_recorded b hScopeB hFreshB hLeakB qa (hRecA.inScope hScopeA)
    obtain ⟨qc, hqc, hRecC⟩ := mutate_recorded c hScopeC hFreshC hLeakC (qa ++ qb)
      ((hRecA.inScope hScopeA).append (hRecB.inScope hScopeB))
    exact ⟨qa, qb, qc, by simpa using hqa, hqb, hqc, hRecA, hRecB, hRecC⟩

theorem apart_recorded_one {dead : List String} {e : Expr F} (hFresh : FreshDead dead e)
    (h : Apart dead [e]) : RecordedFor dead e (mutate dead e []).2 := by
  rcases h with hQuiet | ⟨scope, hScope⟩
  · rw [mutate_quiet e (hQuiet e (by simp))]
    exact .nil fun _ _ _ => records_of_quiet e (hQuiet e (by simp))
  · obtain ⟨hScope, hLeak⟩ := hScope e (by simp)
    obtain ⟨q, hq, hRec⟩ := mutate_recorded e hScope hFresh hLeak [] (by simp [InScope])
    rw [hq]
    exact hRec

end Vyasa.RemoveUndef
