import Vyasa.Uniquify.Mutator

/-! The counters of the pass say how many binders of a name are open, or that all of them
are closed. From this follows when the pass does what it is for. -/
namespace Vyasa.Uniquify

open IREquality

/-- The counters when the binders of `scope` are open and those of `seen` have been met. -/
def counters (scope seen : List String) : Vars := fun s =>
  if s ∈ seen then some ((scope.count s : Int) - 1) else none

variable {scope seen : List String} {s : String}

theorem counters_push (hSub : ∀ x ∈ scope, x ∈ seen) (s : String) :
    push_name (counters scope seen) s = counters (s :: scope) (s :: seen) := by
  funext x
  by_cases hs : s ∈ seen
  · have hOld : counters scope seen s = some ((scope.count s : Int) - 1) := if_pos hs
    rw [push_name, hOld]
    by_cases hx : x = s
    · subst hx
      simp [counters]
    · simp [counters, hx, List.count_cons_of_ne (Ne.symm hx)]
  · have hOld : counters scope seen s = none := if_neg hs
    rw [push_name, hOld]
    by_cases hx : x = s
    · subst hx
      have hNotMem : x ∉ scope := fun h => hs (hSub x h)
      simp [counters, List.count_eq_zero_of_not_mem hNotMem]
    · simp [counters, hx, List.count_cons_of_ne (Ne.symm hx)]

theorem counters_pop (hs : s ∈ seen) :
    pop_name (counters (s :: scope) seen) s = counters scope seen := by
  funext x
  have hOld : counters (s :: scope) seen s = some (((s :: scope).count s : Int) - 1) := if_pos hs
  rw [pop_name, hOld]
  by_cases hx : x = s
  · subst hx
    simp [counters, hs]
  · simp [counters, Function.update_of_ne hx, List.count_cons_of_ne (Ne.symm hx)]

/-- A bound name gets that of its innermost binder. -/
theorem get_name_of_mem (hSub : ∀ x ∈ scope, x ∈ seen) (hs : s ∈ scope) :
    get_name (counters scope seen) s = rebound s (scope.count s - 1) := by
  have hPos : 0 < scope.count s := List.count_pos_iff.mpr hs
  have hCounter : counters scope seen s = some ((scope.count s - 1 : Nat) : Int) := by
    rw [counters, if_pos (hSub s hs)]
    congr 1
    omega
  rw [get_name, hCounter, rebound]
  by_cases hZero : scope.count s - 1 = 0
  · simp [hZero]
  · have hNe : ((scope.count s - 1 : Nat) : Int) ≠ 0 := by omega
    simp only [hNe, hZero, if_false]
    rfl

theorem get_name_of_not_seen (hs : s ∉ seen) : get_name (counters scope seen) s = s := by
  simp [get_name, counters, hs]

/-- A free name changes once a binder of it has been closed. -/
theorem get_name_of_closed (hs : s ∉ scope) (hSeen : s ∈ seen) :
    get_name (counters scope seen) s ≠ s := by
  have hCounter : counters scope seen s = some (-1) := by
    simp [counters, hSeen, List.count_eq_zero_of_not_mem hs]
  rw [get_name, hCounter]
  intro hEq
  have hLength : (s ++ "_" ++ toString (-1 : Int)).length = s.length := congrArg String.length hEq
  have hUnderscore : "_".length = 1 := rfl
  rw [String.length_append, String.length_append] at hLength
  omega

mutual

/-- The names of the binders in a term. -/
def Term.binders : Term → List String
  | .undefined => []
  | .Variable _ _ => []
  | .binder _ name outside body => body.binders ++ name :: outside.binders
  | .node _ children => children.binders

def Terms.binders : Terms → List String
  | .nil => []
  | .cons t rest => rest.binders ++ t.binders

end

theorem scope_subset {l : List String} (hSub : ∀ x ∈ scope, x ∈ seen) :
    ∀ x ∈ scope, x ∈ l ++ seen := fun x hx => List.mem_append_right l (hSub x hx)

theorem scope_subset_cons {l : List String} (hSub : ∀ x ∈ scope, x ∈ seen) (s : String) :
    ∀ x ∈ s :: scope, x ∈ s :: (l ++ seen) := by
  intro x hx
  rcases List.mem_cons.mp hx with rfl | hx
  · exact List.mem_cons_self
  · exact List.mem_cons_of_mem s (scope_subset hSub x hx)

mutual

/-- A term leaves the open binders as they were and adds its own to those met. -/
theorem Term.mutate_counters : ∀ (t : Term) {scope seen : List String},
    (∀ x ∈ scope, x ∈ seen) → (t.mutate (counters scope seen)).2 = counters scope (t.binders ++ seen)
  | .undefined, _, _, _ => rfl
  | .Variable _ _, _, _, _ => rfl
  | .binder _ name outside body, scope, seen, hSub => by
    have hOutside := outside.mutate_counters hSub
    have hBody := body.mutate_counters (scope_subset_cons (l := outside.binders) hSub name)
    have hMem : name ∈ body.binders ++ (name :: (outside.binders ++ seen)) := by simp
    simp only [Term.mutate, hOutside, counters_push (scope_subset hSub), hBody, counters_pop hMem,
      Term.binders, List.append_assoc, List.cons_append]
  | .node _ children, _, _, hSub => by
    simp only [Term.mutate, Term.binders, children.mutate_counters hSub]

theorem Terms.mutate_counters : ∀ (ts : Terms) {scope seen : List String},
    (∀ x ∈ scope, x ∈ seen) → (ts.mutate (counters scope seen)).2 = counters scope (ts.binders ++ seen)
  | .nil, _, _, _ => rfl
  | .cons t rest, scope, seen, hSub => by
    simp only [Terms.mutate, Terms.binders, t.mutate_counters hSub,
      rest.mutate_counters (scope_subset hSub), List.append_assoc]

end

mutual

/-- No variable is free where a binder of its name has been closed or a name is generated
like it, and every binder gets a name that no binder around it has. -/
def Term.Clear (scope seen : List String) : Term → Prop
  | .undefined => True
  | .Variable _ name => name ∈ scope ∨ (name ∉ seen ∧ ¬ Generated scope name)
  | .binder _ name outside body =>
      outside.Clear scope seen ∧ NewName scope name ∧
        body.Clear (name :: scope) (name :: (outside.binders ++ seen))
  | .node _ children => children.Clear scope seen

def Terms.Clear (scope seen : List String) : Terms → Prop
  | .nil => True
  | .cons t rest => t.Clear scope seen ∧ rest.Clear scope (t.binders ++ seen)

end

/-- An occurrence keeps its binder, or its name if it is free. -/
theorem sameBinder_iff (hSub : ∀ x ∈ scope, x ∈ seen) (hNodup : (renamed scope).Nodup) :
    SameBinder scope (renamed scope) s (get_name (counters scope seen) s) ↔
      s ∈ scope ∨ (s ∉ seen ∧ ¬ Generated scope s) := by
  by_cases hs : s ∈ scope
  · obtain ⟨i, hi⟩ := Option.ne_none_iff_exists'.mp (show scope.idxOf? s ≠ none by simpa using hs)
    simp only [SameBinder, hi, get_name_of_mem hSub hs, idxOf?_renamed hs hNodup, hs, true_or]
  · have hNone : scope.idxOf? s = none := by simpa using hs
    simp only [SameBinder, hNone, hs, false_or]
    by_cases hSeen : s ∈ seen
    · simp [hSeen, get_name_of_closed hs hSeen]
    · rw [get_name_of_not_seen hSeen]
      simp [hSeen, mem_renamed, hs]

mutual

/-- The pass does what it is for exactly on clear terms. -/
theorem Term.unique_iff : ∀ (t : Term) {scope seen : List String}, (∀ x ∈ scope, x ∈ seen) →
    (renamed scope).Nodup →
    (((t.mutate (counters scope seen)).1.NoShadow (renamed scope) ∧
      t.SameBinding scope (renamed scope) (t.mutate (counters scope seen)).1) ↔ t.Clear scope seen)
  | .undefined, _, _, _, _ => by simp [Term.mutate, Term.NoShadow, Term.SameBinding, Term.Clear]
  | .Variable _ name, _, _, hSub, hNodup => by
    simp only [Term.mutate, Term.NoShadow, Term.SameBinding, Term.Clear, true_and]
    exact sameBinder_iff hSub hNodup
  | .binder _ name outside body, scope, seen, hSub, hNodup => by
    have hName : get_name (counters (name :: scope) (name :: (outside.binders ++ seen))) name =
        rebound name (scope.count name) := by
      rw [get_name_of_mem (scope_subset_cons hSub name) List.mem_cons_self, List.count_cons_self,
        Nat.add_sub_cancel]
    have hOutside := outside.unique_iff hSub hNodup
    simp only [Term.mutate, outside.mutate_counters hSub, counters_push (scope_subset hSub), hName,
      Term.NoShadow, Term.SameBinding, Term.Clear, true_and, ← hOutside, newName_iff]
    by_cases hNew : rebound name (scope.count name) ∈ renamed scope
    · simp [hNew]
    · have hBody := body.unique_iff (scope_subset_cons (l := outside.binders) hSub name)
        (show (renamed (name :: scope)).Nodup from List.nodup_cons.mpr ⟨hNew, hNodup⟩)
      rw [← hBody]
      simp only [hNew, renamed, not_false_eq_true, true_and]
      tauto
  | .node _ children, _, _, hSub, hNodup => by
    simp only [Term.mutate, Term.NoShadow, Term.SameBinding, Term.Clear, true_and,
      ← children.unique_iff hSub hNodup]

theorem Terms.unique_iff : ∀ (ts : Terms) {scope seen : List String}, (∀ x ∈ scope, x ∈ seen) →
    (renamed scope).Nodup →
    (((ts.mutate (counters scope seen)).1.NoShadow (renamed scope) ∧
      ts.SameBinding scope (renamed scope) (ts.mutate (counters scope seen)).1) ↔ ts.Clear scope seen)
  | .nil, _, _, _, _ => by simp [Terms.mutate, Terms.NoShadow, Terms.SameBinding, Terms.Clear]
  | .cons t rest, scope, seen, hSub, hNodup => by
    have hFirst := t.unique_iff hSub hNodup
    have hRest := rest.unique_iff (scope_subset (l := t.binders) hSub) hNodup
    simp only [Terms.mutate, t.mutate_counters hSub, Terms.NoShadow, Terms.SameBinding, Terms.Clear,
      ← hFirst, ← hRest]
    tauto

end

/-- For every statement, the pass leaves no binder in the scope of another one of its name
and every occurrence with its binder or its free name, exactly if no variable is free after
a binder of its name has been closed and no name in the statement is one that the pass
generates for the binders around it. -/
theorem uniquify_iff (t : Term) :
    ((uniquify_variable_names t).NoShadow [] ∧ t.SameBinding [] [] (uniquify_variable_names t)) ↔
      t.Clear [] [] := by
  have hInitial : (fun _ => none : Vars) = counters [] [] := by
    funext s
    simp [counters]
  rw [uniquify_variable_names, hInitial]
  exact @Term.unique_iff t [] [] (fun _ hx => hx) List.nodup_nil

/-- A variable of 32 bits. -/
def int32 (name : String) : Term := .Variable ⟨.int, 32, 1, none⟩ name

/-- Statements in sequence, or the operands of an operator. -/
def inOrder (node_type : IRNodeType) (first second : Term) : Term :=
  .node ⟨node_type, none, []⟩ (.cons first (.cons second .nil))

/-- A free variable after a let of its name gets a name of its own, and one that is named
like a generated name is captured. -/
theorem uniquify_captures :
    ¬ (inOrder .Block (.LetStmt "x" .undefined .undefined) (int32 "x")).SameBinding [] []
      (uniquify_variable_names (inOrder .Block (.LetStmt "x" .undefined .undefined) (int32 "x"))) ∧
    ¬ (Term.LetStmt "x" .undefined (.LetStmt "x" .undefined (int32 "x_1"))).SameBinding [] []
      (uniquify_variable_names (.LetStmt "x" .undefined (.LetStmt "x" .undefined (int32 "x_1")))) := by
  constructor
  · simp [inOrder, int32, Term.LetStmt, uniquify_variable_names, Term.mutate, Terms.mutate, push_name,
      pop_name, get_name, Term.SameBinding, Terms.SameBinding, SameBinder]
    decide
  · have hGenerated : "x_" ++ Int.repr 1 = "x_1" := by decide
    have hFree : List.idxOf? "x_1" ["x", "x"] = none := by decide
    simp [int32, Term.LetStmt, uniquify_variable_names, Term.mutate, Terms.mutate, push_name,
      get_name, Term.SameBinding, Terms.SameBinding, SameBinder, hGenerated, hFree]

end Vyasa.Uniquify
