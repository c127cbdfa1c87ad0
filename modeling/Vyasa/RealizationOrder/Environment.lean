import Mathlib.Data.List.Sort
import Mathlib.Order.Defs.LinearOrder
import Vyasa.Graph.DepthFirst
import Vyasa.Graph.PostOrder

/-! The order that the functions of a pipeline are realized in, from their calls and from the stages
that are computed with stages of other functions. A result of `none` is an assertion that fires. -/
namespace Vyasa.RealizationOrder

/-- The loop level that a stage is fused at. -/
structure LoopLevel (ν : Type) where
  func : ν
  stageIndex : Nat
  var : ν

/-- `FusedPair`: the second stage is computed with the first. -/
structure FusedPair (ν : Type) where
  func1 : ν
  stage1 : Nat
  func2 : ν
  stage2 : Nat
  varName : ν
deriving DecidableEq

/-- `Definition`: the fuse level of a stage, none where it is inlined or root, and the pairs that the
stage is the first of. -/
structure Definition (ν : Type) where
  fuseLevel : Option (LoopLevel ν) := none
  fusedPairs : List (FusedPair ν) := []

/-- `Function`: the functions that it calls, and its definition followed by its updates. -/
structure Func (ν : Type) where
  directCalls : List ν
  hasExternDefinition : Bool := false
  definitions : List (Definition ν)

/-- The map `env`, in the order of its keys. -/
abbrev Environment (ν : Type) := List (ν × Func ν)

variable {ν : Type} [LinearOrder ν]

section Populate

/-- The stages that may be fused: a function, one of its definitions and the number of the stage. -/
def stages (env : Environment ν) : List (ν × Definition ν × Nat) :=
  env.flatMap fun entry =>
    if entry.2.hasExternDefinition then []
    else entry.2.definitions.zipIdx.map fun stage => (entry.1, stage.1, stage.2)

/-- `fused_pairs().push_back(pair)` in the stage that is the first of the pair. -/
def Func.push (f : Func ν) (p : FusedPair ν) : Func ν :=
  { f with definitions := f.definitions.modify p.stage1 fun d => { d with fusedPairs := d.fusedPairs ++ [p] } }

def pushPair (env : Environment ν) (p : FusedPair ν) : Environment ν :=
  env.map fun entry => if entry.1 = p.func1 then (entry.1, entry.2.push p) else entry

/-- `populate_fused_pairs_list` -/
def populateFusedPairsList (env : Environment ν) (stage : ν × Definition ν × Nat) :
    Option (Environment ν) :=
  match stage.2.1.fuseLevel with
  | none => some env
  | some level => do
      let parent ← env.lookup level.func
      if parent.hasExternDefinition = false ∧ level.stageIndex < parent.definitions.length then
        some (pushPair env ⟨level.func, level.stageIndex, stage.1, stage.2.2, level.var⟩)
      else none

/-- The first loop of `realization_order`. -/
def populateFusedPairs (env : Environment ν) : Option (Environment ν) :=
  (stages env).foldlM populateFusedPairsList env

end Populate

section Collect

/-- `find_direct_calls` -/
def findDirectCalls (env : Environment ν) (name : ν) : List ν :=
  match env.lookup name with
  | some f => f.directCalls
  | none => []

/-- `find_transitive_calls` -/
def findTransitiveCalls (env : Environment ν) (name : ν) : Option (List ν) := do
  let s ← Graph.explore (findDirectCalls env) env.length ⟨[], []⟩ name
  return s.group

/-- `validate_fused_pair` -/
def validateFusedPair (fn : ν) (stageIndex : Nat) (env : Environment ν) (p : FusedPair ν)
    (funcFusedPairs : List (FusedPair ν)) : Option Unit := do
  guard (p.func1 = fn ∧ p.stage1 = stageIndex)
  guard ((env.lookup p.func2).isSome)
  guard (p.func1 ≠ p.func2)
  guard (p ∉ funcFusedPairs)
  let callees1 ← findTransitiveCalls env p.func1
  guard (p.func2 ∉ callees1)
  let callees2 ← findTransitiveCalls env p.func2
  guard (p.func1 ∉ callees2)

/-- `m[k]`, which makes a slot for the key. -/
def allocate {α : Type} (m : ν → Option (List α)) (k : ν) : ν → Option (List α) :=
  Function.update m k (some ((m k).getD []))

/-- `m[k].push_back(v)` -/
def pushBack {α : Type} (m : ν → Option (List α)) (k : ν) (v : α) : ν → Option (List α) :=
  Function.update m k (some ((m k).getD [] ++ [v]))

/-- `m[k].insert(v)` into a set. -/
def insertAt (m : ν → Option (List ν)) (k v : ν) : ν → Option (List ν) :=
  Function.update m k (some (if v ∈ (m k).getD [] then (m k).getD [] else ((m k).getD []).orderedInsert (· ≤ ·) v))

/-- What the second loop of `realization_order` fills in. -/
structure Collected (ν : Type) where
  fusedPairsGraph : ν → Option (List (FusedPair ν)) := fun _ => none
  fuseAdjacencyList : ν → Option (List ν) := fun _ => none
  graph : ν → Option (List ν) := fun _ => none

/-- `collect_fused_pairs`, where the pairs belong to the caller. -/
def collectFusedPairs (caller : ν) (p : FusedPair ν) (c : Collected ν) : Collected ν where
  fusedPairsGraph := pushBack c.fusedPairsGraph caller p
  fuseAdjacencyList := insertAt (insertAt c.fuseAdjacencyList p.func1 p.func2) p.func2 p.func1
  graph := pushBack c.graph p.func1 p.func2

/-- The pairs of a function, each with the number of its stage. -/
def pairsOf (f : Func ν) : List (FusedPair ν × Nat) :=
  f.definitions.zipIdx.flatMap fun stage => stage.1.fusedPairs.map fun p => (p, stage.2)

def collectPair (env : Environment ν) (caller : ν) (c : Collected ν) (p : FusedPair ν × Nat) :
    Option (Collected ν) := do
  validateFusedPair caller p.2 env p.1 ((c.fusedPairsGraph caller).getD [])
  return collectFusedPairs caller p.1 c

def collectCaller (env : Environment ν) (c : Collected ν) (caller : ν × Func ν) : Option (Collected ν) :=
  let slots : Collected ν :=
    { c with fusedPairsGraph := allocate c.fusedPairsGraph caller.1
             fuseAdjacencyList := allocate c.fuseAdjacencyList caller.1 }
  if caller.2.hasExternDefinition then some slots
  else (pairsOf caller.2).foldlM (collectPair env caller.1) slots

/-- `check_no_cyclic_compute_with` -/
def checkNoCyclicComputeWith (env : Environment ν) (pairs : ν → Option (List (FusedPair ν))) : Bool :=
  env.all fun entry => ((pairs entry.1).getD []).all fun p =>
    p.func1 ≠ p.func2 && !(((pairs p.func2).getD []).any fun other =>
      p.func1 = other.func2 && p.func2 = other.func1)

end Collect

section Order

variable (unique : Nat → ν)

/-- `find_fused_groups`: each group under a name of its own. -/
def findFusedGroups (env : Environment ν) (fuseAdjacencyList : ν → Option (List ν)) :
    Option (List (ν × List ν)) := do
  let groups ← Graph.components (fun v => (fuseAdjacencyList v).getD []) env.length (env.map Prod.fst) []
  return groups.zipIdx.map fun group => (unique group.2, group.1)

omit [LinearOrder ν] in
/-- `group_name` -/
def groupName [DecidableEq ν] (fusedGroups : List (ν × List ν)) (name : ν) : Option ν :=
  (fusedGroups.find? fun group => name ∈ group.2).map Prod.fst

/-- The body of the loop that redirects the calls of a function to the node of its group. -/
def addCaller (fusedGroups : List (ν × List ν)) (graph : ν → Option (List ν)) (caller : ν × Func ν) :
    Option (ν → Option (List ν)) := do
  let callerRename ← groupName fusedGroups caller.1
  return caller.2.directCalls.foldl (fun graph callee =>
      if callee ≠ caller.1 ∧ callee ∉ (graph callerRename).getD [] then pushBack graph callerRename callee
      else graph)
    (allocate (pushBack graph caller.1 callerRename) callerRename)

/-- The sort of a group by the places of its functions. -/
def sortGroup (temp group : List ν) : List ν := group.insertionSort fun lhs rhs => temp.idxOf lhs ≤ temp.idxOf rhs

/-- `realization_order` of the functions with these names: the order and the order of the groups. -/
def realizationOrder (outputs : List ν) (env : Environment ν) : Option (List ν × List (List ν)) := do
  let env ← populateFusedPairs env
  let collected ← env.foldlM (collectCaller env) {}
  guard (checkNoCyclicComputeWith env collected.fusedPairsGraph)
  let fusedGroups ← findFusedGroups unique env collected.fuseAdjacencyList
  let graph ← env.foldlM (addCaller fusedGroups) collected.graph
  let t ← Graph.finishAll graph (env.length + fusedGroups.length) outputs ⟨[], [], []⟩
  let groupOrder := (t.order.filterMap fun name => fusedGroups.lookup name).map (sortGroup t.order)
  return (groupOrder.flatten, groupOrder)

end Order

end Vyasa.RealizationOrder
