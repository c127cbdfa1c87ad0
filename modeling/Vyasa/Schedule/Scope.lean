import Vyasa.Schedule.Nest

/-! Which names the nest under construction reads and binds, and what it visits
after the results of one directive are applied to it. -/
namespace Vyasa.Schedule

open Word IRMatch Vyasa.Expr

variable {pre : String} {all used used' dims dims' : List String} {ρ : Env} {nest : Nest}
  {n : Name} {d old outer inner : String} {factor a b : Expr} {x y : Int}
  {buffers types : Name → IntType}

section Values

@[simp] theorem exact_intVar (ρ : Env) (n : Name) : exact ρ (intVar n) = some (ρ.vars n) := rfl

@[simp] theorem exact_int (ρ : Env) (v : Int) : exact ρ (int v) = some v := rfl

theorem exact_bin_int32 (op : BinOp) (hType : a.type = .int32) (ha : exact ρ a = some x)
    (hb : exact ρ b = some y) : exact ρ (bin op a b) = evalBin .exact .int32 op x y := by
  rw [exact, eval_bin ha hb op, hType]
  rfl

theorem exact_add (hType : a.type = .int32) (ha : exact ρ a = some x) (hb : exact ρ b = some y) :
    exact ρ (add a b) = some (x + y) :=
  exact_bin_int32 .add hType ha hb

theorem exact_sub (hType : a.type = .int32) (ha : exact ρ a = some x) (hb : exact ρ b = some y) :
    exact ρ (sub a b) = some (x - y) :=
  exact_bin_int32 .sub hType ha hb

theorem exact_mul (hType : a.type = .int32) (ha : exact ρ a = some x) (hb : exact ρ b = some y) :
    exact ρ (mul a b) = some (x * y) :=
  exact_bin_int32 .mul hType ha hb

theorem exact_min (hType : a.type = .int32) (ha : exact ρ a = some x) (hb : exact ρ b = some y) :
    exact ρ (min a b) = some (Min.min x y) :=
  exact_bin_int32 .min hType ha hb

theorem exact_max (hType : a.type = .int32) (ha : exact ρ a = some x) (hb : exact ρ b = some y) :
    exact ρ (max a b) = some (Max.max x y) :=
  exact_bin_int32 .max hType ha hb

theorem exact_div (hType : a.type = .int32) (ha : exact ρ a = some x) (hb : exact ρ b = some y)
    (hy : y ≠ 0) : exact ρ (div a b) = some (x / y) := by
  rw [div, exact_bin_int32 .div hType ha hb]
  exact if_neg hy

theorem exact_mod (hType : a.type = .int32) (ha : exact ρ a = some x) (hb : exact ρ b = some y)
    (hy : y ≠ 0) : exact ρ (mod a b) = some (x % y) := by
  rw [mod, exact_bin_int32 .mod hType ha hb]
  exact if_neg hy

end Values

section Names

/-- The names that are made for a dimension. -/
def loopNames (pre d : String) : List Name :=
  [loopVar pre d, loopMin pre d, loopMax pre d, loopExtent pre d, baseName pre d, rebasedName pre d]

/-- A name that is made for none of the dimensions. -/
def Foreign (pre : String) (all : List String) (n : Name) : Prop := ∀ d ∈ all, n ∉ loopNames pre d

/-- The names that a nest may read: loop variables, bounds, and those of others. -/
def InScope (pre : String) (all used dims : List String) (n : Name) : Prop :=
  (∃ d ∈ dims, n = loopVar pre d) ∨
    (∃ d ∈ used, n = loopMin pre d ∨ n = loopMax pre d ∨ n = loopExtent pre d) ∨
    Foreign pre all n

/-- The names that a nest may bind: variables that are no longer loops, and what
is defined for their sake. -/
def Hidden (pre : String) (all used dims : List String) (n : Name) : Prop :=
  (∃ d ∈ used, d ∉ dims ∧ (n = loopVar pre d ∨ n = rebasedName pre d)) ∨
    (∃ d ∈ used, n = baseName pre d) ∨ Foreign pre all n

theorem InScope.mono (h : InScope pre all used dims n) (hUsed : used ⊆ used')
    (hDims : ∀ d ∈ dims, n = loopVar pre d → d ∈ dims') : InScope pre all used' dims' n := by
  rcases h with ⟨d, hd, hn⟩ | ⟨d, hd, hn⟩ | hForeign
  · exact Or.inl ⟨d, hDims d hd hn, hn⟩
  · exact Or.inr (Or.inl ⟨d, hUsed hd, hn⟩)
  · exact Or.inr (Or.inr hForeign)

theorem Hidden.mono (h : Hidden pre all used dims n) (hUsed : used ⊆ used')
    (hDims : ∀ d ∈ used, d ∉ dims → d ∉ dims') : Hidden pre all used' dims' n := by
  rcases h with ⟨d, hd, hNot, hn⟩ | ⟨d, hd, hn⟩ | hForeign
  · exact Or.inl ⟨d, hUsed hd, hDims d hd hNot, hn⟩
  · exact Or.inr (Or.inl ⟨d, hUsed hd, hn⟩)
  · exact Or.inr (Or.inr hForeign)

theorem Foreign.ne (h : Foreign pre all n) (hd : d ∈ all) {m : Name} (hm : m ∈ loopNames pre d) :
    n ≠ m := by
  rintro rfl
  exact h d hd hm

/-- An expression over what is there before the loops: a factor of a split. -/
structure Outside (pre : String) (all : List String) (buffers types : Name → IntType) (e : Expr) :
    Prop where
  type : e.type = .int32
  typed : e.WellTyped buffers types
  mentions : ∀ n, e.mentions n = true → Foreign pre all n
  binds : ∀ n ∈ e.binds, Foreign pre all n

/-- An expression inside a nest, where `extra` is bound around it. -/
structure Inside (pre : String) (all used dims : List String) (extra : List Name)
    (buffers types : Name → IntType) (e : Expr) : Prop where
  typed : e.WellTyped buffers types
  mentions : ∀ n, e.mentions n = true → n ∈ extra ∨ InScope pre all used dims n
  binds : ∀ n ∈ e.binds, Foreign pre all n

/-- A nest under construction, where `extra` is yet to be bound around it. -/
structure Nest.Scoped (pre : String) (all used dims : List String) (extra : List Name)
    (buffers types : Name → IntType) (nest : Nest) : Prop where
  typed : nest.WellTyped buffers types
  mentions : ∀ n, nest.mentions n = true → n ∈ extra ∨ InScope pre all used dims n
  binds : ∀ n ∈ nest.binds, Hidden pre all used dims n

end Names

section Building

variable {extra extra' : List Name} {e : Expr}

theorem Outside.inside (h : Outside pre all buffers types e) :
    Inside pre all used dims extra buffers types e :=
  ⟨h.typed, fun n hn => Or.inr (Or.inr (Or.inr (h.mentions n hn))), h.binds⟩

theorem Inside.intVar (hType : types n = .int32) (hn : n ∈ extra ∨ InScope pre all used dims n) :
    Inside pre all used dims extra buffers types (intVar n) := by
  refine ⟨hType, fun m hm => ?_, fun m hm => by simp at hm⟩
  rw [Expr.mentions, decide_eq_true_eq] at hm
  rwa [← hm]

theorem Inside.int (v : Int) (h : IntType.int32.Has v) :
    Inside pre all used dims extra buffers types (int v) :=
  ⟨h, fun _ hm => by simp at hm, fun _ hm => by simp at hm⟩

theorem Inside.bin (op : BinOp) (ha : Inside pre all used dims extra buffers types a)
    (hb : Inside pre all used dims extra buffers types b) (hType : a.type = b.type)
    (hOp : ¬ (op = .and ∨ op = .or)) :
    Inside pre all used dims extra buffers types (.bin op a b) := by
  refine ⟨⟨ha.typed, hb.typed, hType, fun h => absurd h hOp⟩, fun n hn => ?_, fun n hn => ?_⟩
  · rw [Expr.mentions, Bool.or_eq_true] at hn
    exact hn.elim (ha.mentions n) (hb.mentions n)
  · rw [Expr.binds, List.mem_append] at hn
    exact hn.elim (ha.binds n) (hb.binds n)

theorem Inside.cmp (op : CmpOp) (ha : Inside pre all used dims extra buffers types a)
    (hb : Inside pre all used dims extra buffers types b) (hType : a.type = b.type) :
    Inside pre all used dims extra buffers types (.cmp op a b) := by
  refine ⟨⟨ha.typed, hb.typed, hType⟩, fun n hn => ?_, fun n hn => ?_⟩
  · rw [Expr.mentions, Bool.or_eq_true] at hn
    exact hn.elim (ha.mentions n) (hb.mentions n)
  · rw [Expr.binds, List.mem_append] at hn
    exact hn.elim (ha.binds n) (hb.binds n)

theorem Inside.intrin (op : Intrinsic) (ha : Inside pre all used dims extra buffers types a) :
    Inside pre all used dims extra buffers types (.intrin op a) :=
  ⟨ha.typed, ha.mentions, ha.binds⟩

/-- The dimensions change, and with them the names that may be read and bound. -/
structure Changes (used dims used' dims' : List String) (old : String) : Prop where
  grows : used ⊆ used'
  kept : ∀ d ∈ dims, d ≠ old → d ∈ dims'
  gone : ∀ d ∈ used, d ∉ dims → d ∉ dims'

theorem Nest.Scoped.substitute (hNest : nest.Scoped pre all used dims extra buffers types)
    (hChange : Changes used dims used' dims' old) (hExtra : extra ⊆ extra')
    (hr : Inside pre all used' dims' extra' buffers types e) (hBinds : e.binds = [])
    (hType : types (loopVar pre old) = e.type)
    (hFree : ∀ n, Hidden pre all used dims n → e.mentions n = false) :
    (nest.substitute (loopVar pre old) e).Scoped pre all used' dims' extra' buffers types := by
  refine ⟨Nest.wellTyped_substitute hNest.typed hr.typed hType
    fun n hn => hFree n (hNest.binds n hn), fun n hn => ?_, fun n hn => ?_⟩
  · rcases Nest.mentions_substitute hn with ⟨hIn, hNe⟩ | hIn
    · refine (hNest.mentions n hIn).imp (fun h => hExtra h) fun h => h.mono hChange.grows ?_
      rintro d hd rfl
      exact hChange.kept d hd fun h => hNe (congrArg _ h)
    · exact hr.mentions n hIn
  · exact (hNest.binds n (Nest.binds_substitute hBinds hn)).mono hChange.grows hChange.gone

theorem Nest.Scoped.letStmt {name : Name}
    (hNest : nest.Scoped pre all used dims (name :: extra) buffers types)
    (hValue : Inside pre all used dims extra buffers types e) (hType : types name = e.type)
    (hName : Hidden pre all used dims name) :
    (Nest.letStmt name e nest).Scoped pre all used dims extra buffers types := by
  refine ⟨⟨hValue.typed, hType, hNest.typed⟩, fun n hn => ?_, fun n hn => ?_⟩
  · simp only [Nest.mentions, Bool.or_eq_true, Bool.and_eq_true, decide_eq_true_eq] at hn
    rcases hn with hn | ⟨hNe, hn⟩
    · exact hValue.mentions n hn
    · refine (hNest.mentions n hn).imp_left fun h => ?_
      exact (List.mem_cons.mp h).resolve_left (Ne.symm hNe)
  · simp only [Nest.binds, List.mem_cons, List.mem_append] at hn
    rcases hn with rfl | hn | hn
    · exact hName
    · exact Or.inr (Or.inr (hValue.binds n hn))
    · exact hNest.binds n hn

theorem Nest.Scoped.ifThen (hNest : nest.Scoped pre all used dims extra buffers types)
    (hCond : Inside pre all used dims extra buffers types e) :
    (Nest.ifThen e nest).Scoped pre all used dims extra buffers types := by
  refine ⟨⟨hCond.typed, hNest.typed⟩, fun n hn => ?_, fun n hn => ?_⟩
  · simp only [Nest.mentions, Bool.or_eq_true] at hn
    exact hn.elim (hCond.mentions n) (hNest.mentions n)
  · simp only [Nest.binds, List.mem_append] at hn
    exact hn.elim (fun h => Or.inr (Or.inr (hCond.binds n h))) (hNest.binds n)

theorem Nest.Scoped.weaken (hNest : nest.Scoped pre all used dims extra buffers types)
    (hExtra : extra ⊆ extra') : nest.Scoped pre all used dims extra' buffers types :=
  ⟨hNest.typed, fun n hn => (hNest.mentions n hn).imp_left fun h => hExtra h, hNest.binds⟩

/-- A variable that is substituted and defined by a let around: the nest is
visited with its value. -/
theorem visit_define {name : Name} (hNest : nest.WellTyped buffers types)
    (hr : exact ρ e = some x) (hType : types name = e.type) (hSelf : e.mentions name = false)
    (hFree : ∀ n ∈ nest.binds, e.mentions n = false) :
    Nest.visit ρ (.letStmt name e (nest.substitute name e)) = Nest.visit (ρ.set name x) nest := by
  have hAgain : exact (ρ.set name x) e = some x := (eval_set hSelf x).trans hr
  rw [Nest.visit_letStmt hr, Nest.visit_substitute hAgain hNest hType hFree, Env.set_set]

end Building

end Vyasa.Schedule
