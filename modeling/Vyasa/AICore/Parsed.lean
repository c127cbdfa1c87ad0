import Mathlib.Data.List.Forall2
import Vyasa.AICore.Parser

/-! What the parser of statements leaves behind: the shape of the vectors of a whole block,
and the operands of each product. -/
namespace Vyasa.AICore

mutual

/-- The number of nodes, each occurrence counted. -/
def Node.size : Node → Nat
  | .load _ => 1
  | .mul _ a b | .add _ a b => a.size + b.size + 1
  | .other _ children => children.size + 1

def Nodes.size : Nodes → Nat
  | .nil => 0
  | .cons n rest => n.size + rest.size

end

mutual

/-- All nodes are in the graph at their addresses. -/
def Node.Lives (graph : Nat → Node) : Node → Prop
  | .load p => graph p = .load p
  | .mul ptr a b => graph ptr = .mul ptr a b ∧ a.Lives graph ∧ b.Lives graph
  | .add ptr a b => graph ptr = .add ptr a b ∧ a.Lives graph ∧ b.Lives graph
  | .other ptr children => graph ptr = .other ptr children ∧ children.Lives graph

def Nodes.Lives (graph : Nat → Node) : Nodes → Prop
  | .nil => True
  | .cons n rest => n.Lives graph ∧ rest.Lives graph

end

mutual

/-- The loads that are operands. The load that a sum starts from is none. -/
def Node.operandLoads : Node → List LoadPtr
  | .load p => [p]
  | .mul _ a b => a.operandLoads ++ b.operandLoads
  | .add _ a b =>
      (if a.isMul then a.operandLoads else []) ++ if b.isMul then b.operandLoads else []
  | .other _ children => children.operandLoads

def Nodes.operandLoads : Nodes → List LoadPtr
  | .nil => []
  | .cons n rest => n.operandLoads ++ rest.operandLoads

end

mutual

/-- There is a product. -/
def Node.hasMul : Node → Bool
  | .load _ => false
  | .mul _ _ _ => true
  | .add _ a b => a.hasMul || b.hasMul
  | .other _ children => children.hasMul

def Nodes.hasMul : Nodes → Bool
  | .nil => false
  | .cons n rest => n.hasMul || rest.hasMul

end

/-- The lanes, the size of an element and the stride. -/
abbrev Shape : Type := Option Nat × Option Nat × Int

/-- All three are known. -/
def Shape.Settled (shape : Shape) : Prop := shape.1 ≠ none ∧ shape.2.1 ≠ none ∧ shape.2.2 ≠ -1

def TripletIRParser.shape (s : TripletIRParser) : Shape :=
  (s.numSimdLanes, s.dataTypeSizeInBits, s.memoryOperationsStrideLength)

def loadShape (heap : Heap) (bits : LoadPtr → Nat) (p : LoadPtr) : Shape :=
  (some (heap p).lanes, some (bits p), (heap p).stride)

def Compiler.vectorShape (c : Compiler) : Shape :=
  (some c.numSimdLanes, some c.dataTypeSizeInBits, c.memoryOperationsStrideLength)

variable {heap : Heap} {bits : LoadPtr → Nat} {graph : Nat → Node} {s s' s'' : TripletIRParser}
  {n : Node} {ns : Nodes} {p : LoadPtr} {k k' : Nat}

theorem Node.Lives.ptr (h : n.Lives graph) : graph n.ptr = n := by
  cases n with
  | load p => exact h
  | mul _ a b | add _ a b | other _ children => exact h.1

namespace TripletIRParser

/-! ### One load -/

theorem shape_of_checkLanes {lanes size : Nat} (h : checkLanes lanes size s = some s') :
    s'.shape = (some lanes, some size, s.shape.2.2) ∧ (s.shape.Settled → s'.shape = s.shape) ∧
      s'.node = s.node ∧ s'.visited = s.visited := by
  unfold checkLanes at h
  split_ifs at h with hUnset hSame
  · cases h
    refine ⟨rfl, fun hSettled => ?_, rfl, rfl⟩
    rcases hUnset with hLanes | hSize
    · exact absurd hLanes hSettled.1
    · exact absurd hSize hSettled.2.1
  · cases h
    exact ⟨by rw [shape, hSame.1, hSame.2], fun _ => rfl, rfl, rfl⟩

theorem shape_of_checkStride {stride : Int} (h : checkStride stride s = some s') :
    s'.shape = (s.shape.1, s.shape.2.1, stride) ∧ stride ≠ -1 ∧ (s.shape.Settled → s'.shape = s.shape) ∧
      s'.node = s.node ∧ s'.visited = s.visited := by
  unfold checkStride at h
  split_ifs at h with hNone hUnset hOther
  · cases h
    exact ⟨rfl, hNone, fun hSettled => absurd hUnset hSettled.2.2, rfl, rfl⟩
  · cases h
    refine ⟨?_, hNone, fun _ => rfl, rfl, rfl⟩
    rw [shape, not_not.mp hOther]

theorem setOperand_spec (p : LoadPtr) (s : TripletIRParser) :
    (s.setOperand p).node = s.node ∧ (s.setOperand p).visited = s.visited ∧
      (s.setOperand p).shape = s.shape := by
  unfold setOperand
  split_ifs <;> exact ⟨rfl, rfl, rfl⟩

theorem visitLoad_spec (h : visitLoad heap bits p s = some s') :
    s'.node = s.node ∧ s'.visited = s.visited ∧ (s.shape.Settled → s'.shape = s.shape) ∧
      ((heap p).isVector → s'.shape = loadShape heap bits p ∧ s'.shape.Settled) := by
  obtain ⟨t, ht, h⟩ := Option.bind_eq_some_iff.mp h
  cases h
  obtain ⟨hNode, hVisited, hShape⟩ := setOperand_spec p s
  unfold checkVector at ht
  split_ifs at ht with hVector
  · obtain ⟨v, hLanes, hStride⟩ := Option.bind_eq_some_iff.mp ht
    obtain ⟨hLanesShape, hLanesKeep, hLanesNode, hLanesVisited⟩ := shape_of_checkLanes hLanes
    obtain ⟨hStrideShape, hStrideSet, hStrideKeep, hStrideNode, hStrideVisited⟩ := shape_of_checkStride hStride
    rw [hLanesShape] at hStrideShape
    refine ⟨hStrideNode.trans (hLanesNode.trans hNode), hStrideVisited.trans (hLanesVisited.trans hVisited),
      fun hSettled => ?_, fun _ => ?_⟩
    · have hFirst : v.shape = s.shape := (hLanesKeep (hShape ▸ hSettled)).trans hShape
      exact (hStrideKeep (hFirst ▸ hSettled)).trans hFirst
    · have hFinal : t.shape = loadShape heap bits p := hStrideShape
      refine ⟨hFinal, ?_⟩
      change t.shape.Settled
      rw [hFinal]
      exact ⟨Option.some_ne_none _, Option.some_ne_none _, hStrideSet⟩
  · cases ht
    exact ⟨hNode, hVisited, fun _ => hShape, fun h => absurd h hVector⟩

/-! ### All operands -/

/-- The vectors of the node are of the parser's shape, and a product has left a pair. -/
structure Covered (heap : Heap) (bits : LoadPtr → Nat) (s : TripletIRParser) (loads : List LoadPtr)
    (hasMul : Bool) : Prop where
  shape : ∀ p ∈ loads, (heap p).isVector → s.shape = loadShape heap bits p ∧ s.shape.Settled
  pairs : hasMul → s.node.pairWiseLoads ≠ []

abbrev CoversNode (heap : Heap) (bits : LoadPtr → Nat) (s : TripletIRParser) (n : Node) : Prop :=
  Covered heap bits s n.operandLoads n.hasMul

abbrev CoversNodes (heap : Heap) (bits : LoadPtr → Nat) (s : TripletIRParser) (ns : Nodes) : Prop :=
  Covered heap bits s ns.operandLoads ns.hasMul

/-- What is known does not change, and all nodes seen in between are covered. -/
structure Advances (heap : Heap) (bits : LoadPtr → Nat) (graph : Nat → Node) (s s' : TripletIRParser) :
    Prop where
  shape : s.shape.Settled → s'.shape = s.shape
  pairs : s.node.pairWiseLoads ≠ [] → s'.node.pairWiseLoads ≠ []
  seen : ∀ id ∈ s'.visited, id ∈ s.visited ∨ CoversNode heap bits s' (graph id)

/-- The nodes that are seen are covered, or they are at least this large, as the nodes are in
which the parser is. -/
def Seen (heap : Heap) (bits : LoadPtr → Nat) (graph : Nat → Node) (k : Nat) (s : TripletIRParser) : Prop :=
  ∀ id ∈ s.visited, CoversNode heap bits s (graph id) ∨ k ≤ (graph id).size

variable {loads loads' : List LoadPtr} {hasMul hasMul' : Bool}

theorem Covered.append (h : Covered heap bits s loads hasMul) (h' : Covered heap bits s loads' hasMul') :
    Covered heap bits s (loads ++ loads') (hasMul || hasMul') where
  shape p hp := by
    rcases List.mem_append.mp hp with hp | hp
    · exact h.shape p hp
    · exact h'.shape p hp
  pairs hOr := by
    rcases Bool.or_eq_true_iff.mp hOr with hMul | hMul
    · exact h.pairs hMul
    · exact h'.pairs hMul

theorem Advances.covered (h : Advances heap bits graph s s') (hs : Covered heap bits s loads hasMul) :
    Covered heap bits s' loads hasMul where
  shape p hp hVector := by
    obtain ⟨hShape, hSettled⟩ := hs.shape p hp hVector
    rw [h.shape hSettled]
    exact ⟨hShape, hSettled⟩
  pairs hMul := h.pairs (hs.pairs hMul)

theorem Advances.trans (h : Advances heap bits graph s s') (h' : Advances heap bits graph s' s'') :
    Advances heap bits graph s s'' where
  shape hSettled := by
    have hShape := h.shape hSettled
    exact (h'.shape (hShape ▸ hSettled)).trans hShape
  pairs hPairs := h'.pairs (h.pairs hPairs)
  seen id hId := by
    rcases h'.seen id hId with hId | hCovered
    · rcases h.seen id hId with hId | hCovered
      · exact Or.inl hId
      · exact Or.inr (h'.covered hCovered)
    · exact Or.inr hCovered

theorem Advances.of_eq (hShape : s.shape.Settled → s'.shape = s.shape)
    (hPairs : s.node.pairWiseLoads ≠ [] → s'.node.pairWiseLoads ≠ []) (hVisited : s'.visited = s.visited) :
    Advances heap bits graph s s' :=
  ⟨hShape, hPairs, fun _ hId => Or.inl (hVisited ▸ hId)⟩

theorem Seen.advance (h : Seen heap bits graph k s) (hNext : Advances heap bits graph s s') (hk : k' ≤ k) :
    Seen heap bits graph k' s' := by
  intro id hId
  rcases hNext.seen id hId with hId | hCovered
  · rcases h id hId with hCovered | hSize
    · exact Or.inl (hNext.covered hCovered)
    · exact Or.inr (hk.trans hSize)
  · exact Or.inl hCovered

theorem Seen.mono (h : Seen heap bits graph k s) (hk : k' ≤ k) : Seen heap bits graph k' s :=
  fun id hId => (h id hId).imp_right hk.trans

theorem visitMul_spec (h : visitMul s = some s') : ∃ operand1 operand2,
    s.tmpMacOperand1 = some operand1 ∧ s.tmpMacOperand2 = some operand2 ∧
      s'.node.pairWiseLoads = s.node.pairWiseLoads ++ [(operand1, operand2)] ∧
      s'.shape = s.shape ∧ s'.visited = s.visited ∧ s'.tmpMacOperand1 = some operand1 ∧
      s'.tmpMacOperand2 = some operand2 ∧ s'.tmpWhichOperand = s.tmpWhichOperand := by
  obtain ⟨operand1, hFirst, h⟩ := Option.bind_eq_some_iff.mp h
  obtain ⟨operand2, hSecond, h⟩ := Option.bind_eq_some_iff.mp h
  cases h
  exact ⟨operand1, operand2, hFirst, hSecond, rfl, rfl, rfl, hFirst, hSecond, rfl⟩

theorem advances_of_visitMul (h : visitMul s = some s') :
    Advances heap bits graph s s' ∧ s'.node.pairWiseLoads ≠ [] := by
  obtain ⟨operand1, operand2, -, -, hPairs, hShape, hVisited, -⟩ := visitMul_spec h
  have hNe : s'.node.pairWiseLoads ≠ [] := by
    rw [hPairs]
    exact List.append_ne_nil_of_right_ne_nil _ (List.cons_ne_nil _ _)
  exact ⟨.of_eq (fun _ => hShape) (fun _ => hNe) hVisited, hNe⟩

theorem initialLoad_spec (h : initialLoad heap p s = some s') :
    s'.shape = s.shape ∧ s'.node.pairWiseLoads = s.node.pairWiseLoads ∧ s'.visited = s.visited := by
  obtain ⟨-, -, h⟩ := Option.bind_eq_some_iff.mp h
  obtain ⟨-, -, h⟩ := Option.bind_eq_some_iff.mp h
  cases h
  exact ⟨rfl, rfl, rfl⟩

theorem advances_of_initialLoad (h : initialLoad heap p s = some s') : Advances heap bits graph s s' := by
  obtain ⟨hShape, hPairs, hVisited⟩ := initialLoad_spec h
  exact .of_eq (fun _ => hShape) (fun hNe => hPairs ▸ hNe) hVisited

theorem covered_of_not_mul (hMul : n.isMul = false) :
    Covered heap bits s (if n.isMul then n.operandLoads else []) false := by
  rw [hMul]
  exact ⟨by simp, by simp⟩

theorem hasMul_of_asLoad (h : n.asLoad = some p) : n.hasMul = false := by
  cases n with
  | load q => rfl
  | _ => cases h

/-- The parser enters a node. -/
theorem Seen.insert (h : Seen heap bits graph k s) (hLives : n.Lives graph) (hk : n.size ≤ k) :
    Seen heap bits graph n.size { s with visited := n.ptr :: s.visited } := by
  intro id hId
  rcases List.mem_cons.mp hId with rfl | hId
  · exact Or.inr (hLives.ptr.symm ▸ le_rfl)
  · rcases h id hId with hCovered | hSize
    · exact Or.inl ⟨hCovered.shape, hCovered.pairs⟩
    · exact Or.inr (hk.trans hSize)

mutual

/-- Where no assertion fails, all vectors below a node have the parser's shape. The nodes that
are skipped are covered already, since no node is above itself. -/
theorem visit_covers : ∀ (n : Node) {s s' : TripletIRParser}, n.Lives graph → Seen heap bits graph n.size s →
    visit heap bits n s = some s' → Advances heap bits graph s s' ∧ CoversNode heap bits s' n
  | .load p, s, s', _, _, h => by
    rw [visit] at h
    obtain ⟨hNode, hVisited, hKeep, hVector⟩ := visitLoad_spec h
    refine ⟨.of_eq hKeep (fun hNe => hNode ▸ hNe) hVisited, ?_, nofun⟩
    intro q hq
    cases List.mem_singleton.mp hq
    exact hVector
  | .mul _ a b, s, s', hLives, hSeen, h => by
    rw [visit] at h
    obtain ⟨u, h, hMul⟩ := Option.bind_eq_some_iff.mp h
    obtain ⟨t, ha, hb⟩ := Option.bind_eq_some_iff.mp h
    rw [Node.size] at hSeen
    obtain ⟨hFirst, hCoverA⟩ := visit_covers a hLives.2.1 (hSeen.mono (by omega)) ha
    obtain ⟨hSecond, hCoverB⟩ := visit_covers b hLives.2.2 (hSeen.advance hFirst (by omega)) hb
    obtain ⟨hLast, hPairs⟩ : Advances heap bits graph u s' ∧ _ := advances_of_visitMul hMul
    have hCovered := (hLast.covered (hSecond.covered hCoverA)).append (hLast.covered hCoverB)
    exact ⟨(hFirst.trans hSecond).trans hLast, hCovered.shape, fun _ => hPairs⟩
  | .add _ a b, s, s', hLives, hSeen, h => by
    rw [visit] at h
    rw [Node.size] at hSeen
    split_ifs at h with hBoth hA hB
    · obtain ⟨t, ha, hb⟩ := Option.bind_eq_some_iff.mp h
      obtain ⟨hFirst, hCoverA⟩ := visit_covers a hLives.2.1 (hSeen.mono (by omega)) ha
      obtain ⟨hSecond, hCoverB⟩ := visit_covers b hLives.2.2 (hSeen.advance hFirst (by omega)) hb
      obtain ⟨hMulA, hMulB⟩ := Bool.and_eq_true_iff.mp hBoth
      have hCovered := (hSecond.covered hCoverA).append hCoverB
      refine ⟨hFirst.trans hSecond, ?_⟩
      rwa [CoversNode, Node.operandLoads, if_pos hMulA, if_pos hMulB]
    · obtain ⟨q, hq, h⟩ := Option.bind_eq_some_iff.mp h
      obtain ⟨t, ha, hInitial⟩ := Option.bind_eq_some_iff.mp h
      obtain ⟨hFirst, hCoverA⟩ := visit_covers a hLives.2.1 (hSeen.mono (by omega)) ha
      have hLast : Advances heap bits graph t s' := advances_of_initialLoad hInitial
      have hMulB : b.isMul = false := by simpa [hA] using hBoth
      have hCovered := (hLast.covered hCoverA).append (covered_of_not_mul hMulB)
      refine ⟨hFirst.trans hLast, ?_⟩
      rwa [CoversNode, Node.operandLoads, if_pos hA, Node.hasMul, hasMul_of_asLoad hq]
    · obtain ⟨q, hq, h⟩ := Option.bind_eq_some_iff.mp h
      obtain ⟨t, hb, hInitial⟩ := Option.bind_eq_some_iff.mp h
      obtain ⟨hFirst, hCoverB⟩ := visit_covers b hLives.2.2 (hSeen.mono (by omega)) hb
      have hLast : Advances heap bits graph t s' := advances_of_initialLoad hInitial
      have hMulA : a.isMul = false := by simpa using hA
      have hCovered := (covered_of_not_mul hMulA).append (hLast.covered hCoverB)
      refine ⟨hFirst.trans hLast, ?_⟩
      rwa [CoversNode, Node.operandLoads, if_pos hB, Node.hasMul, hasMul_of_asLoad hq]
  | .other ptr children, s, s', hLives, hSeen, h => by
    rw [visit] at h
    rw [Node.size] at hSeen
    exact includeAll_covers children hLives.2 hSeen h

theorem includeAll_covers : ∀ (ns : Nodes) {s s' : TripletIRParser}, ns.Lives graph →
    Seen heap bits graph (ns.size + 1) s → includeAll heap bits ns s = some s' →
      Advances heap bits graph s s' ∧ CoversNodes heap bits s' ns
  | .nil, s, s', _, _, h => by
    rw [includeAll] at h
    cases h
    exact ⟨.of_eq (fun _ => rfl) id rfl, by simp [Nodes.operandLoads], nofun⟩
  | .cons n rest, s, s', hLives, hSeen, h => by
    rw [includeAll] at h
    rw [Nodes.size] at hSeen
    obtain ⟨t, hn, hRest⟩ := Option.bind_eq_some_iff.mp h
    have hFirst : Advances heap bits graph s t ∧ CoversNode heap bits t n := by
      have hPtr := hLives.1.ptr
      split_ifs at hn with hMem
      · cases hn
        refine ⟨.of_eq (fun _ => rfl) id rfl, ?_⟩
        rcases hSeen _ hMem with hCovered | hSize
        · rwa [hPtr] at hCovered
        · rw [hPtr] at hSize
          omega
      · obtain ⟨hNext, hCovered⟩ := visit_covers n hLives.1 (hSeen.insert hLives.1 (by omega)) hn
        refine ⟨⟨hNext.shape, hNext.pairs, fun id hId => ?_⟩, hCovered⟩
        rcases hNext.seen id hId with hId | hCoveredId
        · rcases List.mem_cons.mp hId with rfl | hId
          · right
            rwa [hPtr]
          · exact Or.inl hId
        · exact Or.inr hCoveredId
    obtain ⟨hSecond, hCoverRest⟩ := includeAll_covers rest hLives.2 (hSeen.advance hFirst.1 (by omega)) hRest
    exact ⟨hFirst.1.trans hSecond, (hSecond.covered hFirst.2).append hCoverRest⟩

end

mutual

/-- Without vectors the shape stays unknown, and without products there are no pairs. -/
theorem visit_idle : ∀ (n : Node) {s s' : TripletIRParser}, visit heap bits n s = some s' →
    ((∀ p ∈ n.operandLoads, (heap p).isVector = false) → s'.shape = s.shape) ∧
      (n.hasMul = false → s'.node.pairWiseLoads = s.node.pairWiseLoads)
  | .load p, s, s', h => by
    rw [visit] at h
    obtain ⟨t, ht, h⟩ := Option.bind_eq_some_iff.mp h
    cases h
    obtain ⟨hNode, -, -⟩ := visitLoad_spec (Option.bind_eq_some_iff.mpr ⟨t, ht, rfl⟩)
    refine ⟨fun hScalar => ?_, fun _ => congrArg TripletIRNode.pairWiseLoads hNode⟩
    rw [checkVector, hScalar p (List.mem_singleton_self p)] at ht
    cases ht
    exact (setOperand_spec p s).2.2
  | .mul _ a b, s, s', h => by
    rw [visit] at h
    obtain ⟨u, h, hMul⟩ := Option.bind_eq_some_iff.mp h
    obtain ⟨t, ha, hb⟩ := Option.bind_eq_some_iff.mp h
    obtain ⟨-, -, -, -, -, hShape, -⟩ := visitMul_spec hMul
    refine ⟨fun hScalar => ?_, nofun⟩
    rw [Node.operandLoads, List.forall_mem_append] at hScalar
    rw [hShape, (visit_idle b hb).1 hScalar.2, (visit_idle a ha).1 hScalar.1]
  | .add _ a b, s, s', h => by
    rw [visit] at h
    rw [Node.operandLoads, List.forall_mem_append, Node.hasMul, Bool.or_eq_false_iff]
    split_ifs at h with hBoth hA hB
    · obtain ⟨t, ha, hb⟩ := Option.bind_eq_some_iff.mp h
      obtain ⟨hMulA, hMulB⟩ := Bool.and_eq_true_iff.mp hBoth
      obtain ⟨hShapeA, hPairsA⟩ := visit_idle a ha
      obtain ⟨hShapeB, hPairsB⟩ := visit_idle b hb
      rw [if_pos hMulA, if_pos hMulB]
      exact ⟨fun hScalar => (hShapeB hScalar.2).trans (hShapeA hScalar.1),
        fun hNone => (hPairsB hNone.2).trans (hPairsA hNone.1)⟩
    · obtain ⟨q, hq, h⟩ := Option.bind_eq_some_iff.mp h
      obtain ⟨t, ha, hInitial⟩ := Option.bind_eq_some_iff.mp h
      obtain ⟨hShapeA, hPairsA⟩ := visit_idle a ha
      obtain ⟨hShape, hPairs, -⟩ := initialLoad_spec hInitial
      rw [if_pos hA]
      exact ⟨fun hScalar => hShape.trans (hShapeA hScalar.1), fun hNone => hPairs.trans (hPairsA hNone.1)⟩
    · obtain ⟨q, hq, h⟩ := Option.bind_eq_some_iff.mp h
      obtain ⟨t, hb, hInitial⟩ := Option.bind_eq_some_iff.mp h
      obtain ⟨hShapeB, hPairsB⟩ := visit_idle b hb
      obtain ⟨hShape, hPairs, -⟩ := initialLoad_spec hInitial
      rw [if_pos hB]
      exact ⟨fun hScalar => hShape.trans (hShapeB hScalar.2), fun hNone => hPairs.trans (hPairsB hNone.2)⟩
  | .other ptr children, s, s', h => by
    rw [visit] at h
    exact includeAll_idle children h

theorem includeAll_idle : ∀ (ns : Nodes) {s s' : TripletIRParser}, includeAll heap bits ns s = some s' →
    ((∀ p ∈ ns.operandLoads, (heap p).isVector = false) → s'.shape = s.shape) ∧
      (ns.hasMul = false → s'.node.pairWiseLoads = s.node.pairWiseLoads)
  | .nil, s, s', h => by
    rw [includeAll] at h
    cases h
    exact ⟨fun _ => rfl, fun _ => rfl⟩
  | .cons n rest, s, s', h => by
    rw [includeAll] at h
    obtain ⟨t, hn, hRest⟩ := Option.bind_eq_some_iff.mp h
    obtain ⟨hShape, hPairs⟩ := includeAll_idle rest hRest
    have hFirst : ((∀ p ∈ n.operandLoads, (heap p).isVector = false) → t.shape = s.shape) ∧
        (n.hasMul = false → t.node.pairWiseLoads = s.node.pairWiseLoads) := by
      split_ifs at hn
      · cases hn
        exact ⟨fun _ => rfl, fun _ => rfl⟩
      · obtain ⟨hShapeN, hPairsN⟩ := visit_idle n hn
        exact ⟨hShapeN, hPairsN⟩
    constructor
    · intro hScalar
      rw [Nodes.operandLoads, List.forall_mem_append] at hScalar
      rw [hShape hScalar.2, hFirst.1 hScalar.1]
    · intro hNone
      obtain ⟨hNoneN, hNoneRest⟩ := Bool.or_eq_false_iff.mp hNone
      rw [hPairs hNoneRest, hFirst.2 hNoneN]

end

theorem visit_of_parse {store : Store} (h : parse heap bits store = some s) :
    ∃ t : TripletIRParser, t.node.pairWiseLoads = [] ∧ t.visited = [] ∧ t.shape = (none, none, -1) ∧
      t.tmpMacOperand1 = none ∧ t.tmpMacOperand2 = none ∧ t.tmpWhichOperand = false ∧
      visit heap bits store.value t = some s := by
  obtain ⟨-, -, h⟩ := Option.bind_eq_some_iff.mp h
  obtain ⟨-, -, h⟩ := Option.bind_eq_some_iff.mp h
  exact ⟨_, rfl, rfl, rfl, rfl, rfl, rfl, h⟩

theorem covers_of_parse {store : Store} (hLives : store.value.Lives graph)
    (h : parse heap bits store = some s) : CoversNode heap bits s store.value := by
  obtain ⟨t, -, hVisited, -, -, -, -, hVisit⟩ := visit_of_parse h
  refine (visit_covers store.value hLives ?_ hVisit).2
  intro id hId
  rw [hVisited] at hId
  cases hId

theorem shape_of_compiler {c : Compiler} (h : s.compiler = some c) : c.vectorShape = s.shape := by
  obtain ⟨lanes, hLanes, h⟩ := Option.bind_eq_some_iff.mp h
  obtain ⟨size, hSize, h⟩ := Option.bind_eq_some_iff.mp h
  split at h
  · cases h
    rw [Compiler.vectorShape, shape, hLanes, hSize]
  · cases h

end TripletIRParser

/-! ### The block -/

/-- The operands of a statement that are vectors. -/
def Store.vectorOperands (heap : Heap) (store : Store) : List LoadPtr :=
  store.value.operandLoads.filter fun p => (heap p).isVector

theorem Store.mem_vectorOperands {store : Store} :
    p ∈ store.vectorOperands heap ↔ p ∈ store.value.operandLoads ∧ (heap p).isVector := by
  rw [vectorOperands, List.mem_filter]

/-- A statement that is accepted has a vector operand, and the vectors among its operands have
the shape that the compiler takes over. -/
theorem shape_of_statement {store : Store} {c : Compiler} (hLives : store.value.Lives graph)
    (hParse : TripletIRParser.parse heap bits store = some s) (hCompiler : s.compiler = some c) :
    (∃ p, p ∈ store.vectorOperands heap) ∧
      ∀ p ∈ store.vectorOperands heap, c.vectorShape = loadShape heap bits p := by
  have hShape := TripletIRParser.shape_of_compiler hCompiler
  constructor
  · by_contra hNone
    obtain ⟨t, -, -, hEmpty, -, -, -, hVisit⟩ := TripletIRParser.visit_of_parse hParse
    have hIdle := (TripletIRParser.visit_idle store.value hVisit).1 fun p hp => by
      by_contra hVector
      exact hNone ⟨p, Store.mem_vectorOperands.mpr ⟨hp, by simpa using hVector⟩⟩
    rw [hIdle, hEmpty] at hShape
    cases hShape
  · intro p hp
    obtain ⟨hMem, hVector⟩ := Store.mem_vectorOperands.mp hp
    rw [hShape]
    exact ((TripletIRParser.covers_of_parse hLives hParse).shape p hMem hVector).1

theorem parseStatement_spec {simplify : Store → Store} {statement : Store}
    {r r' : Option Compiler × List TripletIRNode}
    (h : parseStatement heap bits simplify r statement = some r') :
    ∃ s c, TripletIRParser.parse heap bits (simplify statement) = some s ∧ s.compiler = some c ∧
      r' = (some c, r.2 ++ [s.node]) := by
  obtain ⟨s, hParse, h⟩ := Option.bind_eq_some_iff.mp h
  obtain ⟨c, hCompiler, h⟩ := Option.bind_eq_some_iff.mp h
  cases h
  exact ⟨s, c, hParse, hCompiler, rfl⟩

/-- Every statement of a block that is accepted is accepted. -/
theorem accepted_of_parseStatements {simplify : Store → Store} {statements : List Store}
    {r r' : Option Compiler × List TripletIRNode}
    (h : statements.foldlM (parseStatement heap bits simplify) r = some r') :
    ∀ statement ∈ statements, ∃ s c,
      TripletIRParser.parse heap bits (simplify statement) = some s ∧ s.compiler = some c := by
  induction statements generalizing r with
  | nil => exact nofun
  | cons statement statements ih =>
    obtain ⟨r'', hStep, hRest⟩ := Option.bind_eq_some_iff.mp h
    obtain ⟨s, c, hParse, hCompiler, -⟩ := parseStatement_spec hStep
    intro other hOther
    rcases List.mem_cons.mp hOther with rfl | hOther
    · exact ⟨s, c, hParse, hCompiler⟩
    · exact ih hRest other hOther

/-- Vectors of eight lanes, with a stride of one at even addresses and of two at odd ones. -/
def strided : Heap := fun p =>
  { name := "f", index := .ramp (constant 0) (constant (p % 2 + 1)) 8 }

/-- A statement that stores one product of two loads. -/
def squareOf (p : LoadPtr) : Store where
  name := "g"
  index := .ramp (constant 0) (constant 1) 8
  value := .mul 8 (.load p) (.load p)

/-- What the parser makes of the words of such a block. -/
theorem parse_squares (p : LoadPtr) (hp : p < 2) :
    ∃ c' nodes, parseStatements strided (fun _ => 32) id none [squareOf 0, squareOf p] = some (some c', nodes) ∧
      c'.vectorShape = (some 8, some 32, (p : Int) + 1) := by
  interval_cases p <;> exact ⟨_, _, rfl, rfl⟩

end Vyasa.AICore
