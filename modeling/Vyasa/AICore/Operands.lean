import Vyasa.AICore.Parsed

/-! The pairs of loads that the parser makes of the products of a stored sum, and the sums
whose products all get their own two loads. -/
namespace Vyasa.AICore

namespace Node

/-- A factor is a constant, a load or a load that is broadcast. -/
inductive IsFactor : Node → Prop where
  | constant (ptr : Nat) : IsFactor (.other ptr .nil)
  | load (p : LoadPtr) : IsFactor (.load p)
  | broadcast (ptr : Nat) (p : LoadPtr) : IsFactor (.other ptr (.cons (.load p) .nil))

/-- The load that is broadcast. -/
def broadcastLoad : Node → Option LoadPtr
  | other _ (.cons (load p) .nil) => some p
  | _ => none

/-- The load in a factor. -/
def factorLoad : Node → Option LoadPtr
  | load p => some p
  | n => n.broadcastLoad

/-- The products of a sum, in order. -/
def products : Node → List (Node × Node)
  | mul _ a b => [(a, b)]
  | add _ a b => a.products ++ b.products
  | _ => []

/-- The load of the factor is broadcast, and so it is by one of the factors before. -/
def Skipped (before : List Node) (n : Node) : Prop :=
  ∃ p, n.broadcastLoad = some p ∧ ∃ m ∈ before, m.broadcastLoad = some p

instance (before : List Node) (n : Node) : Decidable (Skipped before n) :=
  decidable_of_iff (∃ p ∈ n.broadcastLoad, ∃ m ∈ before, m.broadcastLoad = some p) Iff.rfl

/-- The load that a visit of the factor reaches. -/
def reached (before : List Node) (n : Node) : Option LoadPtr :=
  if Skipped before n then none else n.factorLoad

/-- The second product of a sum of two finds its own two loads. Where a factor is skipped, the
loads that are left over from before have to be the right ones. -/
def KeepsOrder (a b c d : Node) : Prop :=
  c.factorLoad ≠ none ∧ d.factorLoad ≠ none ∧
    ((¬ Skipped [a, b] c ∧ (Skipped [a, b, c] d → d.factorLoad = b.factorLoad)) ∨
      (Skipped [a, b] c ∧ Skipped [a, b, c] d ∧ c.factorLoad = a.factorLoad ∧ d.factorLoad = b.factorLoad) ∨
      (Skipped [a, b] c ∧ ¬ Skipped [a, b, c] d ∧ c.factorLoad = d.factorLoad ∧ d.factorLoad = b.factorLoad))

/-- The stored values whose products all get their own two loads. -/
def InOrder : Node → Prop
  | add _ (mul _ a b) (mul _ c d) => KeepsOrder a b c d
  | other _ children => children.hasMul = false
  | _ => True

theorem isMul_iff {n : Node} : n.isMul = true ↔ ∃ ptr a b, n = mul ptr a b := by
  cases n with
  | mul ptr a b => exact iff_of_true rfl ⟨ptr, a, b, rfl⟩
  | _ => exact iff_of_false Bool.false_ne_true nofun

end Node

/-- One pair for every product of the sum, with the loads in its factors. -/
def Paired (pairs : List (LoadPtr × LoadPtr)) (products : List (Node × Node)) : Prop :=
  List.Forall₂ (fun pair product => product.1.factorLoad = some pair.1 ∧ product.2.factorLoad = some pair.2)
    pairs products

variable {heap : Heap} {bits : LoadPtr → Nat} {graph : Nat → Node} {s s' s'' : TripletIRParser}
  {n a b c d : Node} {p q : LoadPtr} {ptr : Nat}

namespace TripletIRParser

/-- The two pointers and the flag. -/
abbrev Slots : Type := Option LoadPtr × Option LoadPtr × Bool

def slots (s : TripletIRParser) : Slots := (s.tmpMacOperand1, s.tmpMacOperand2, s.tmpWhichOperand)

/-- What a factor does to them: the load that is reached, if any, takes the place of one. -/
def Slots.take (slots : Slots) : Option LoadPtr → Slots
  | none => slots
  | some p => if slots.2.2 = false then (some p, slots.2.1, true) else (slots.1, some p, false)

theorem slots_of_visitLoad (h : visitLoad heap bits p s = some s') : s'.slots = s.slots.take (some p) := by
  obtain ⟨t, ht, h⟩ := Option.bind_eq_some_iff.mp h
  cases h
  have hSame : t.tmpMacOperand1 = (s.setOperand p).tmpMacOperand1 ∧
      t.tmpMacOperand2 = (s.setOperand p).tmpMacOperand2 ∧
      t.tmpWhichOperand = (s.setOperand p).tmpWhichOperand := by
    unfold checkVector at ht
    split_ifs at ht
    · obtain ⟨u, hLanes, hStride⟩ := Option.bind_eq_some_iff.mp ht
      unfold checkLanes at hLanes
      unfold checkStride at hStride
      split_ifs at hLanes hStride <;> cases hLanes <;> cases hStride <;> exact ⟨rfl, rfl, rfl⟩
    · cases ht
      exact ⟨rfl, rfl, rfl⟩
  rw [slots, hSame.1, hSame.2.1, hSame.2.2, setOperand, Slots.take, slots]
  cases hFlag : s.tmpWhichOperand <;> simp

/-- The broadcast loads that have been seen are those of these factors. -/
def HasSeen (before : List Node) (s : TripletIRParser) : Prop :=
  ∀ id, id ∈ s.visited ↔ ∃ m ∈ before, m.broadcastLoad = some id

variable {before : List Node}

/-- A factor leaves the pairs as they are. Its load is reached unless it was broadcast before. -/
theorem visit_factor (hFactor : n.IsFactor) (hSeen : HasSeen before s) (h : visit heap bits n s = some s') :
    s'.node = s.node ∧ HasSeen (before ++ [n]) s' ∧ s'.slots = s.slots.take (n.reached before) := by
  suffices hStep : s'.node = s.node ∧ (∀ id, id ∈ s'.visited ↔ id ∈ s.visited ∨ n.broadcastLoad = some id) ∧
      s'.slots = s.slots.take (n.reached before) by
    refine ⟨hStep.1, fun id => ?_, hStep.2.2⟩
    rw [hStep.2.1 id, hSeen id]
    simp [or_and_right, exists_or]
  cases hFactor with
  | constant ptr =>
    cases h
    have hNone : (Node.other ptr .nil).factorLoad = none := rfl
    refine ⟨rfl, fun id => by simp [Node.broadcastLoad], ?_⟩
    rw [Node.reached, hNone, ite_self]
    rfl
  | load p =>
    rw [visit] at h
    obtain ⟨hNode, hVisited, -⟩ := visitLoad_spec h
    refine ⟨hNode, fun id => by simp [hVisited, Node.broadcastLoad], ?_⟩
    rw [slots_of_visitLoad h, Node.reached, if_neg (by simp [Node.Skipped, Node.broadcastLoad])]
    rfl
  | broadcast ptr p =>
    rw [visit, includeAll] at h
    obtain ⟨t, hp, hRest⟩ := Option.bind_eq_some_iff.mp h
    cases hRest
    have hBroadcast : (Node.other ptr (.cons (.load p) .nil)).broadcastLoad = some p := rfl
    have hSkipped : Node.Skipped before (.other ptr (.cons (.load p) .nil)) ↔ p ∈ s.visited := by
      rw [hSeen p]
      constructor
      · rintro ⟨q, hq, hMem⟩
        exact Option.some.inj hq ▸ hMem
      · exact fun hMem => ⟨p, rfl, hMem⟩
    rw [hBroadcast, Node.reached]
    split_ifs at hp with hMem
    · cases hp
      refine ⟨rfl, fun id => ?_, by rw [if_pos (hSkipped.mpr hMem)]; rfl⟩
      rw [Option.some_inj]
      exact ⟨Or.inl, fun hId => hId.elim (fun hBefore => hBefore) (fun hEq => hEq ▸ hMem)⟩
    · rw [visit] at hp
      obtain ⟨hNode, hVisited, -⟩ := visitLoad_spec hp
      refine ⟨hNode, fun id => ?_, ?_⟩
      · rw [hVisited, List.mem_cons, Option.some_inj, or_comm, eq_comm]
        rfl
      · rw [slots_of_visitLoad hp, if_neg (fun h => hMem (hSkipped.mp h))]
        rfl

/-- A product takes the pair that is in the slots after its two factors. -/
theorem visit_product (hA : a.IsFactor) (hB : b.IsFactor) (hSeen : HasSeen before s)
    (h : visit heap bits (.mul ptr a b) s = some s') : ∃ operand1 operand2,
    s'.node.pairWiseLoads = s.node.pairWiseLoads ++ [(operand1, operand2)] ∧
      HasSeen (before ++ [a] ++ [b]) s' ∧
      s'.slots = (s.slots.take (a.reached before)).take (b.reached (before ++ [a])) ∧
      s'.slots.1 = some operand1 ∧ s'.slots.2.1 = some operand2 := by
  rw [visit] at h
  obtain ⟨u, h, hMul⟩ := Option.bind_eq_some_iff.mp h
  obtain ⟨t, ha, hb⟩ := Option.bind_eq_some_iff.mp h
  obtain ⟨hNodeA, hSeenA, hSlotsA⟩ := visit_factor hA hSeen ha
  obtain ⟨hNodeB, hSeenB, hSlotsB⟩ := visit_factor hB hSeenA hb
  obtain ⟨operand1, operand2, h1, h2, hPairs, -, hVisited, h1', h2', hFlag⟩ := visitMul_spec hMul
  have hSlots : s'.slots = u.slots := by rw [slots, slots, h1, h2, h1', h2', hFlag]
  refine ⟨operand1, operand2, ?_, fun id => ?_, ?_, h1', h2'⟩
  · rw [hPairs, hNodeB, hNodeA]
  · rw [hVisited]
    exact hSeenB id
  · rw [hSlots, hSlotsB, hSlotsA]

theorem reached_eq_some (h : n.reached before = some p) : n.factorLoad = some p := by
  unfold Node.reached at h
  split_ifs at h
  exact h

/-- The first product that is accepted gets its own loads. -/
theorem visit_first_product (hA : a.IsFactor) (hB : b.IsFactor) (hSeen : HasSeen [] s)
    (hSlots : s.slots = (none, none, false)) (hPairs : s.node.pairWiseLoads = [])
    (h : visit heap bits (.mul ptr a b) s = some s') : ∃ p q,
    a.factorLoad = some p ∧ b.factorLoad = some q ∧ s'.node.pairWiseLoads = [(p, q)] ∧
      HasSeen [a, b] s' ∧ s'.slots = (some p, some q, false) := by
  obtain ⟨operand1, operand2, hPair, hSeen', hAfter, h1, h2⟩ := visit_product hA hB hSeen h
  rw [hSlots] at hAfter
  rw [hPairs] at hPair
  cases hFirst : a.reached [] with
  | none =>
    -- Only one load is reached, so that there is none for the second slot.
    rw [hFirst] at hAfter
    cases hSecond : b.reached ([] ++ [a]) with
    | none =>
      rw [hAfter, hSecond] at h2
      cases h2
    | some q =>
      rw [hAfter, hSecond] at h2
      cases h2
  | some p =>
    rw [hFirst] at hAfter
    cases hSecond : b.reached ([] ++ [a]) with
    | none =>
      rw [hAfter, hSecond] at h2
      cases h2
    | some q =>
      rw [hSecond] at hAfter
      rw [hAfter] at h1 h2
      cases h1
      cases h2
      exact ⟨operand1, operand2, reached_eq_some hFirst, reached_eq_some hSecond, hPair, hSeen', hAfter⟩

/-- When the second product gets its own loads. -/
theorem visit_second_product (hC : c.IsFactor) (hD : d.IsFactor) (hSeen : HasSeen [a, b] s)
    (ha : a.factorLoad = some p) (hb : b.factorLoad = some q) (hSlots : s.slots = (some p, some q, false))
    (h : visit heap bits (.mul ptr c d) s = some s') : ∃ operand1 operand2,
    s'.node.pairWiseLoads = s.node.pairWiseLoads ++ [(operand1, operand2)] ∧
      (c.factorLoad = some operand1 ∧ d.factorLoad = some operand2 ↔ Node.KeepsOrder a b c d) := by
  obtain ⟨operand1, operand2, hPair, -, hAfter, h1, h2⟩ := visit_product hC hD hSeen h
  refine ⟨operand1, operand2, hPair, ?_⟩
  rw [hSlots, Node.reached, Node.reached] at hAfter
  rw [Node.KeepsOrder, ha, hb]
  change s'.slots = Slots.take _ (if Node.Skipped [a, b, c] d then none else d.factorLoad) at hAfter
  by_cases hSkipC : Node.Skipped [a, b] c
  · rw [if_pos hSkipC] at hAfter
    by_cases hSkipD : Node.Skipped [a, b, c] d
    · rw [if_pos hSkipD] at hAfter
      obtain ⟨rfl, rfl⟩ : p = operand1 ∧ q = operand2 := by
        rw [hAfter] at h1 h2
        exact ⟨Option.some.inj h1, Option.some.inj h2⟩
      grind
    · rw [if_neg hSkipD] at hAfter
      cases hd : d.factorLoad with
      | none => simp
      | some v =>
        obtain ⟨rfl, rfl⟩ : v = operand1 ∧ q = operand2 := by
          rw [hAfter, hd] at h1 h2
          exact ⟨Option.some.inj h1, Option.some.inj h2⟩
        grind
  · rw [if_neg hSkipC] at hAfter
    cases hc : c.factorLoad with
    | none => simp
    | some u =>
      rw [hc] at hAfter
      by_cases hSkipD : Node.Skipped [a, b, c] d
      · rw [if_pos hSkipD] at hAfter
        obtain ⟨rfl, rfl⟩ : u = operand1 ∧ q = operand2 := by
          rw [hAfter] at h1 h2
          exact ⟨Option.some.inj h1, Option.some.inj h2⟩
        grind
      · rw [if_neg hSkipD] at hAfter
        cases hd : d.factorLoad with
        | none => simp
        | some v =>
          obtain ⟨rfl, rfl⟩ : u = operand1 ∧ v = operand2 := by
            rw [hAfter, hd] at h1 h2
            exact ⟨Option.some.inj h1, Option.some.inj h2⟩
          grind

end TripletIRParser

/-- Every product of a stored sum gets its own two loads exactly if the sum is in order. -/
theorem paired_iff {store : Store} (hLives : store.value.Lives graph)
    (hFactors : ∀ product ∈ store.value.products, product.1.IsFactor ∧ product.2.IsFactor)
    (hParse : TripletIRParser.parse heap bits store = some s) :
    Paired s.node.pairWiseLoads store.value.products ↔ store.value.InOrder := by
  have hCovers := TripletIRParser.covers_of_parse hLives hParse
  obtain ⟨t, hPairs, hVisited, -, h1, h2, hFlag, hVisit⟩ := TripletIRParser.visit_of_parse hParse
  have hSeen : TripletIRParser.HasSeen [] t := fun id => by simp [hVisited]
  have hSlots : t.slots = (none, none, false) := by rw [TripletIRParser.slots, h1, h2, hFlag]
  cases hValue : store.value with
  | load p =>
    rw [hValue] at hVisit
    have hIdle := (TripletIRParser.visit_idle _ hVisit).2 rfl
    rw [hIdle, hPairs]
    exact iff_of_true .nil trivial
  | other ptr children =>
    rw [hValue] at hVisit hCovers
    rw [Node.InOrder]
    constructor
    · intro hPaired
      have hNil : s.node.pairWiseLoads = [] := List.forall₂_nil_right_iff.mp hPaired
      by_contra hMul
      exact hCovers.pairs (by simpa [Node.hasMul] using hMul) hNil
    · intro hMul
      have hIdle := (TripletIRParser.visit_idle _ hVisit).2 hMul
      rw [hIdle, hPairs]
      exact .nil
  | mul ptr a b =>
    rw [hValue] at hVisit hFactors
    obtain ⟨hA, hB⟩ := hFactors _ (List.mem_singleton_self _)
    obtain ⟨p, q, ha, hb, hPair, -⟩ := TripletIRParser.visit_first_product hA hB hSeen hSlots hPairs hVisit
    rw [hPair]
    exact iff_of_true (.cons ⟨ha, hb⟩ .nil) trivial
  | add ptr a b =>
    rw [hValue] at hVisit hFactors
    rw [TripletIRParser.visit] at hVisit
    split_ifs at hVisit with hBoth hMulA hMulB
    · obtain ⟨hMulA, hMulB⟩ := Bool.and_eq_true_iff.mp hBoth
      obtain ⟨ptrA, a, c, rfl⟩ := Node.isMul_iff.mp hMulA
      obtain ⟨ptrB, b, d, rfl⟩ := Node.isMul_iff.mp hMulB
      obtain ⟨hA, hC⟩ := hFactors (a, c) (by simp [Node.products])
      obtain ⟨hB, hD⟩ := hFactors (b, d) (by simp [Node.products])
      obtain ⟨u, hFirst, hSecond⟩ := Option.bind_eq_some_iff.mp hVisit
      obtain ⟨p, q, ha, hc, hPair, hSeen', hSlots'⟩ :=
        TripletIRParser.visit_first_product hA hC hSeen hSlots hPairs hFirst
      obtain ⟨operand1, operand2, hPair', hIff⟩ :=
        TripletIRParser.visit_second_product hB hD hSeen' ha hc hSlots' hSecond
      rw [hPair', hPair]
      change Paired [(p, q), (operand1, operand2)] [(a, c), (b, d)] ↔ Node.KeepsOrder a c b d
      rw [← hIff]
      constructor
      · rintro (_ | ⟨-, _ | ⟨h, -⟩⟩)
        exact h
      · exact fun h => .cons ⟨ha, hc⟩ (.cons h .nil)
    · obtain ⟨ptrA, a, c, rfl⟩ := Node.isMul_iff.mp hMulA
      obtain ⟨r, hLoad, hVisit⟩ := Option.bind_eq_some_iff.mp hVisit
      obtain ⟨u, hFirst, hInitial⟩ := Option.bind_eq_some_iff.mp hVisit
      cases b with
      | load r' =>
        obtain ⟨hA, hC⟩ := hFactors (a, c) (by simp [Node.products])
        obtain ⟨p, q, ha, hc, hPair, -⟩ := TripletIRParser.visit_first_product hA hC hSeen hSlots hPairs hFirst
        rw [(TripletIRParser.initialLoad_spec hInitial).2.1, hPair]
        exact iff_of_true (.cons ⟨ha, hc⟩ .nil) trivial
      | _ => cases hLoad
    · obtain ⟨ptrB, b, d, rfl⟩ := Node.isMul_iff.mp hMulB
      obtain ⟨r, hLoad, hVisit⟩ := Option.bind_eq_some_iff.mp hVisit
      obtain ⟨u, hFirst, hInitial⟩ := Option.bind_eq_some_iff.mp hVisit
      cases a with
      | load r' =>
        obtain ⟨hB, hD⟩ := hFactors (b, d) (by simp [Node.products])
        obtain ⟨p, q, hb, hd, hPair, -⟩ := TripletIRParser.visit_first_product hB hD hSeen hSlots hPairs hFirst
        rw [(TripletIRParser.initialLoad_spec hInitial).2.1, hPair]
        exact iff_of_true (.cons ⟨hb, hd⟩ .nil) trivial
      | _ => cases hLoad

/-- Two scalar weights, then vectors of eight lanes. -/
def weighted : Heap
  | 0 | 1 => { name := "w", index := .scalar (constant 0) }
  | _ => { name := "x", index := .ramp (constant 0) (constant 1) 8 }

/-- The sum of a vector times the first weight and one times this weight. -/
def weightedSum (weight : LoadPtr) : Store where
  name := "g"
  index := .ramp (constant 0) (constant 1) 8
  value := .add 10 (.mul 11 (.other 12 (.cons (.load 0) .nil)) (.load 2))
    (.mul 13 (.other 14 (.cons (.load weight) .nil)) (.load 3))

/-- The nodes of such a sum. -/
def weightedNodes (weight : LoadPtr) : Nat → Node
  | 10 => (weightedSum weight).value
  | 11 => .mul 11 (.other 12 (.cons (.load 0) .nil)) (.load 2)
  | 12 => .other 12 (.cons (.load 0) .nil)
  | 13 => .mul 13 (.other 14 (.cons (.load weight) .nil)) (.load 3)
  | 14 => .other 14 (.cons (.load weight) .nil)
  | p => .load p

theorem paired_iff_weights : ∃ s, TripletIRParser.parse weighted (fun _ => 16) (weightedSum 1) = some s ∧
    Paired s.node.pairWiseLoads (weightedSum 1).value.products := by
  have hLives : (weightedSum 1).value.Lives (weightedNodes 1) := by
    simp [weightedSum, weightedNodes, Node.Lives, Nodes.Lives]
  have hFactors : ∀ product ∈ (weightedSum 1).value.products, product.1.IsFactor ∧ product.2.IsFactor := by
    intro product hProduct
    simp only [weightedSum, Node.products, List.cons_append, List.nil_append, List.mem_cons, List.not_mem_nil,
      or_false] at hProduct
    rcases hProduct with rfl | rfl <;> exact ⟨.broadcast _ _, .load _⟩
  have hParse : ∃ s, TripletIRParser.parse weighted (fun _ => 16) (weightedSum 1) = some s := ⟨_, rfl⟩
  obtain ⟨s, hParse⟩ := hParse
  refine ⟨s, hParse, (paired_iff hLives hFactors hParse).mpr ?_⟩
  change Node.KeepsOrder _ _ _ _
  refine ⟨by decide, by decide, Or.inl ⟨by decide, ?_⟩⟩
  intro hSkipped
  exact absurd hSkipped (by decide)

/-- The broadcast of the first weight is not visited again, so that the second product gets the
second vector and the first one. -/
theorem parse_shared_weight : ∃ s, TripletIRParser.parse weighted (fun _ => 16) (weightedSum 0) = some s ∧
    s.node.pairWiseLoads = [(0, 2), (3, 2)] ∧
    ¬ Paired s.node.pairWiseLoads (weightedSum 0).value.products := by
  refine ⟨_, rfl, rfl, ?_⟩
  rintro (_ | ⟨-, _ | ⟨h, -⟩⟩)
  cases h.1

end Vyasa.AICore
