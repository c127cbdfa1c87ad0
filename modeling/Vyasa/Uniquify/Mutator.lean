import Vyasa.IREquality.Tree
import Mathlib.Data.List.Count
import Mathlib.Data.List.Nodup

/-! The pass that gives nested binders of one name different names. It keeps, for each name
seen so far, how many binders of it are open. -/
namespace Vyasa.Uniquify

open IREquality

/-- The binders of variables: the two kinds of let, and a loop. -/
inductive Binder where
  | Let
  | LetStmt
  | For (for_type : ForType) (device_api : DeviceAPI)
deriving DecidableEq

/-- What a node has beside its children; the pass copies it. -/
structure Label where
  node_type : IRNodeType
  type : Option Ty
  fields : List Scalar
deriving DecidableEq

mutual

/-- Expressions and statements. A binder has the expressions outside its scope (the value of
a let, the min and the extent of a loop) and its body; every other node has its children in
the order in which a mutator visits them. -/
inductive Term where
  | undefined
  | Variable (type : Ty) (name : String)
  | binder (b : Binder) (name : String) (outside : Terms) (body : Term)
  | node (label : Label) (children : Terms)

inductive Terms where
  | nil
  | cons (t : Term) (rest : Terms)

end

namespace Term

def Let (name : String) (value body : Term) : Term := .binder .Let name (.cons value .nil) body

def LetStmt (name : String) (value body : Term) : Term :=
  .binder .LetStmt name (.cons value .nil) body

def For (name : String) (min extent : Term) (for_type : ForType) (device_api : DeviceAPI)
    (body : Term) : Term :=
  .binder (.For for_type device_api) name (.cons min (.cons extent .nil)) body

end Term

/-- The counters of the pass. -/
abbrev Vars := String → Option Int

def push_name (vars : Vars) (s : String) : Vars :=
  match vars s with
  | none => Function.update vars s (some 0)
  | some n => Function.update vars s (some (n + 1))

def get_name (vars : Vars) (s : String) : String :=
  match vars s with
  | none => s
  | some n => if n = 0 then s else s ++ "_" ++ toString n

def pop_name (vars : Vars) (s : String) : Vars :=
  match vars s with
  | none => Function.update vars s (some (-1))
  | some n => Function.update vars s (some (n - 1))

mutual

/-- The mutator. A let and a loop are renamed alike: what is outside the scope is visited
first, then the name is pushed for the body and popped. -/
def Term.mutate : Term → Vars → Term × Vars
  | .undefined, vars => (.undefined, vars)
  | .Variable type name, vars => (.Variable type (get_name vars name), vars)
  | .binder b name outside body, vars =>
      let (outside', vars) := outside.mutate vars
      let vars := push_name vars name
      let new_name := get_name vars name
      let (body', vars) := body.mutate vars
      (.binder b new_name outside' body', pop_name vars name)
  | .node label children, vars =>
      let (children', vars) := children.mutate vars
      (.node label children', vars)

def Terms.mutate : Terms → Vars → Terms × Vars
  | .nil, vars => (.nil, vars)
  | .cons t rest, vars =>
      let (t', vars) := t.mutate vars
      let (rest', vars) := rest.mutate vars
      (.cons t' rest', vars)

end

def uniquify_variable_names (s : Term) : Term := (s.mutate fun _ => none).1

/-! ### What the pass is for -/

mutual

/-- No binder is in the scope of one of its name. -/
def Term.NoShadow (scope : List String) : Term → Prop
  | .undefined => True
  | .Variable _ _ => True
  | .binder _ name outside body =>
      outside.NoShadow scope ∧ name ∉ scope ∧ body.NoShadow (name :: scope)
  | .node _ children => children.NoShadow scope

def Terms.NoShadow (scope : List String) : Terms → Prop
  | .nil => True
  | .cons t rest => t.NoShadow scope ∧ rest.NoShadow scope

end

/-- Two occurrences refer to the binders at one place, or are free and have one name. -/
def SameBinder (scope scope' : List String) (name name' : String) : Prop :=
  match scope.idxOf? name with
  | some i => scope'.idxOf? name' = some i
  | none => scope'.idxOf? name' = none ∧ name' = name

mutual

/-- The terms differ only in the names of bound variables. -/
def Term.SameBinding (scope scope' : List String) : Term → Term → Prop
  | .undefined, .undefined => True
  | .Variable type name, .Variable type' name' => type' = type ∧ SameBinder scope scope' name name'
  | .binder b name outside body, .binder b' name' outside' body' =>
      b' = b ∧ outside.SameBinding scope scope' outside' ∧
        body.SameBinding (name :: scope) (name' :: scope') body'
  | .node label children, .node label' children' =>
      label' = label ∧ children.SameBinding scope scope' children'
  | _, _ => False

def Terms.SameBinding (scope scope' : List String) : Terms → Terms → Prop
  | .nil, .nil => True
  | .cons t rest, .cons t' rest' =>
      t.SameBinding scope scope' t' ∧ rest.SameBinding scope scope' rest'
  | _, _ => False

end

end Vyasa.Uniquify

/-! The names that the pass generates, and when two of them are the same. -/
namespace Vyasa.Uniquify

/-- The name of the binder that is in the scope of `n` others of the name. -/
def rebound (s : String) (n : Nat) : String := if n = 0 then s else s ++ "_" ++ toString n

/-- Nothing but the last underscore separates the number from the name. -/
theorem underscore_unique {l l' d d' : List Char} (hd : '_' ∉ d) (hd' : '_' ∉ d')
    (h : l ++ '_' :: d = l' ++ '_' :: d') : l = l' ∧ d = d' := by
  rcases List.append_eq_append_iff.mp h with ⟨m, rfl, hm⟩ | ⟨m, rfl, hm⟩
  · cases m with
    | nil =>
      simp only [List.nil_append, List.cons.injEq, true_and] at hm
      exact ⟨by simp, hm⟩
    | cons c m =>
      simp only [List.cons_append, List.cons.injEq] at hm
      exact absurd (hm.2 ▸ by simp) hd
  · cases m with
    | nil =>
      simp only [List.nil_append, List.cons.injEq, true_and] at hm
      exact ⟨by simp, hm.symm⟩
    | cons c m =>
      simp only [List.cons_append, List.cons.injEq] at hm
      exact absurd (hm.2 ▸ by simp) hd'

theorem toList_numbered (s : String) (n : Nat) :
    (s ++ "_" ++ toString n).toList = s.toList ++ '_' :: Nat.toDigits 10 n := by
  have hDigits : (toString n).toList = Nat.toDigits 10 n := Nat.toList_repr
  rw [String.toList_append, String.toList_append, hDigits]
  simp

theorem numbered_inj {s t : String} {n m : Nat} (h : s ++ "_" ++ toString n = t ++ "_" ++ toString m) :
    s = t ∧ n = m := by
  have hList := congrArg String.toList h
  rw [toList_numbered, toList_numbered] at hList
  obtain ⟨hName, hDigits⟩ := underscore_unique Nat.underscore_not_in_toDigits
    Nat.underscore_not_in_toDigits hList
  have hNumber := congrArg (Nat.ofDigitChars 10 · 0) hDigits
  simp only [Nat.ofDigitChars_ten_toDigits] at hNumber
  exact ⟨String.toList_injective hName, hNumber⟩

/-- Generated names are the same only if they are for the same place. -/
theorem rebound_inj {s t : String} {n m : Nat} (hn : n ≠ 0) (hm : m ≠ 0)
    (h : rebound s n = rebound t m) : s = t ∧ n = m := by
  rw [rebound, rebound, if_neg hn, if_neg hm] at h
  exact numbered_inj h

/-- The names of the open binders after the pass. -/
def renamed : List String → List String
  | [] => []
  | s :: scope => rebound s (scope.count s) :: renamed scope

/-- A name that the pass generates for a binder in the scope. -/
def Generated (scope : List String) (t : String) : Prop :=
  ∃ s n, n ≠ 0 ∧ n < scope.count s ∧ rebound s n = t

theorem mem_renamed {scope : List String} {t : String} :
    t ∈ renamed scope ↔ t ∈ scope ∨ Generated scope t := by
  induction scope with
  | nil => simp [renamed, Generated]
  | cons s scope ih =>
    rw [renamed, List.mem_cons, ih]
    constructor
    · rintro (rfl | hMem | ⟨u, n, hn, hLt, rfl⟩)
      · by_cases hCount : scope.count s = 0
        · exact Or.inl (by simp [rebound, hCount])
        · exact Or.inr ⟨s, _, hCount, by simp, rfl⟩
      · exact Or.inl (List.mem_cons_of_mem s hMem)
      · exact Or.inr ⟨u, n, hn, Nat.lt_of_lt_of_le hLt (List.count_le_count_cons ..), rfl⟩
    · rintro (hMem | ⟨u, n, hn, hLt, rfl⟩)
      · rcases List.mem_cons.mp hMem with rfl | hMem
        · by_cases hCount : scope.count t = 0
          · exact Or.inl (by simp [rebound, hCount])
          · exact Or.inr (Or.inl (List.count_pos_iff.mp (Nat.pos_of_ne_zero hCount)))
        · exact Or.inr (Or.inl hMem)
      · by_cases hu : u = s
        · subst hu
          rw [List.count_cons_self] at hLt
          by_cases hLast : n = scope.count u
          · exact Or.inl (by rw [hLast])
          · exact Or.inr (Or.inr ⟨u, n, hn, by omega, rfl⟩)
        · rw [List.count_cons_of_ne (Ne.symm hu)] at hLt
          exact Or.inr (Or.inr ⟨u, n, hn, hLt, rfl⟩)

/-- A binder gets a name that no open binder has. -/
def NewName (scope : List String) (s : String) : Prop :=
  if s ∈ scope then rebound s (scope.count s) ∉ scope else ¬ Generated scope s

theorem newName_iff {scope : List String} {s : String} :
    NewName scope s ↔ rebound s (scope.count s) ∉ renamed scope := by
  rw [mem_renamed, NewName]
  by_cases hs : s ∈ scope
  · rw [if_pos hs]
    have hCount : scope.count s ≠ 0 := Nat.pos_iff_ne_zero.mp (List.count_pos_iff.mpr hs)
    constructor
    · rintro hNot (hMem | ⟨t, n, hn, hLt, hEq⟩)
      · exact hNot hMem
      · obtain ⟨rfl, rfl⟩ := rebound_inj hn hCount hEq
        exact absurd hLt (Nat.lt_irrefl _)
    · exact fun hNot hMem => hNot (Or.inl hMem)
  · rw [if_neg hs, List.count_eq_zero_of_not_mem hs, rebound, if_pos rfl]
    constructor
    · rintro hNot (hMem | hGenerated)
      · exact hs hMem
      · exact hNot hGenerated
    · exact fun hNot hGenerated => hNot (Or.inr hGenerated)

/-- Where the binders have different names after the pass, an occurrence that is bound
refers to the same one. -/
theorem idxOf?_renamed {scope : List String} {s : String} (hs : s ∈ scope)
    (hNodup : (renamed scope).Nodup) :
    (renamed scope).idxOf? (rebound s (scope.count s - 1)) = scope.idxOf? s := by
  induction scope with
  | nil => simp at hs
  | cons t scope ih =>
    rw [renamed, List.nodup_cons] at hNodup
    by_cases ht : t = s
    · subst ht
      simp [renamed, List.idxOf?_cons]
    · have hMem : s ∈ scope := (List.mem_cons.mp hs).resolve_left fun hEq => ht hEq.symm
      have hTail := ih hMem hNodup.2
      have hNe : rebound t (scope.count t) ≠ rebound s (scope.count s - 1) := by
        intro hEq
        have hSome : (renamed scope).idxOf? (rebound t (scope.count t)) ≠ none := by
          rw [hEq, hTail]
          simpa using hMem
        exact hNodup.1 (by simpa using hSome)
      rw [List.count_cons_of_ne ht, renamed, List.idxOf?_cons, List.idxOf?_cons, hTail]
      simp [ht, hNe]

end Vyasa.Uniquify
