import Vyasa.ModulusRemainder.Basic
import Vyasa.ModulusRemainder.Arithmetic
import Vyasa.ModulusRemainder.Soundness
import Vyasa.Simplify.ExprInfo
import Vyasa.Euclid.Division
import Vyasa.IR.Expr
import Vyasa.IRMatch.Equations
import Vyasa.IRMatch.Wrapping
import Vyasa.Simplify.Bounds
import Vyasa.Simplify.BoundsSound
import Vyasa.Simplify.Rules.Arithmetic
import Vyasa.Simplify.Rules.DivMod
import Vyasa.Simplify.Rules.LT
import Vyasa.Simplify.Rules.MinMax
import Vyasa.Simplify.Sound.Arithmetic
import Vyasa.Simplify.Sound.DivMod
import Vyasa.Simplify.Sound.LT
import Vyasa.Simplify.Sound.MinMax
import Vyasa.IR.Eval
import Vyasa.Euclid.Tiling
import Vyasa.Schedule.ApplySplit
import Vyasa.Schedule.Nest
import Vyasa.Schedule.Scope
import Vyasa.Schedule.LoopBounds
import Vyasa.Schedule.State
import Vyasa.Schedule.Coverage
import Vyasa.Graph.Redirect
import Vyasa.Simplify.Facts
import Vyasa.Simplify.Acyclic
import Vyasa.Interval.Basic
import Vyasa.Solve.ForInterval
import Vyasa.Solve.Enclosure
import Vyasa.Solve.SolvedVisit
import Vyasa.Solve.ForIntervalSound
import Vyasa.Solve.AndCondition
import Vyasa.Bytes.Writes
import Vyasa.Memoization.KeyInfo
import Vyasa.Memoization.KeyInjective
import Vyasa.Tracing.TraceBuffer
import Vyasa.Tracing.Invariant
import Vyasa.Tracing.Integrity
import Vyasa.Tracing.Overflow
import Vyasa.Linked.Segments
import Vyasa.MemoizationCache.Clients
import Vyasa.Compare.Coherent
import Vyasa.IREquality.Distinguished
import Vyasa.Uniquify.Scopes
import Vyasa.Binding.Term
import Vyasa.CSE.Preserved
import Vyasa.IRMatch.Equal
import Vyasa.Associative.Lawful
import Vyasa.BufferCopies.Coherent
import Vyasa.RemoveUndef.Stores
import Vyasa.ThreadPool.Conserved
import Vyasa.AsyncFolding.Safe
import Vyasa.SkipStages.Skip
import Vyasa.AICore.Spatial
import Vyasa.AICore.Residency
import Vyasa.AICore.Buffers
import Vyasa.AICore.Overlap
import Vyasa.AICore.Operands
import Vyasa.UnifyDuplicateLets.Preserved
import Vyasa.SplitTuples.Simultaneous
import Vyasa.Bounds.MergeBoxes
import Vyasa.DeviceCopy.Correct
import Vyasa.IntegerDivision.FastDivide
import Vyasa.IntegerDivision.LowerExact
import Vyasa.Monotonic.Sound
import Vyasa.Deinterleave.Exact
import Vyasa.DeviceInterface.BufferCopy
import Vyasa.DeviceInterface.Honest
import Vyasa.EarlyFree.Once
import Vyasa.HalideBuffer.Nesting
import Vyasa.HalideBuffer.ForEachExact
import Vyasa.StorageFlattening.Flattens
import Vyasa.RealizationOrder.Order
import Vyasa.Associative.Subgraphs
import Vyasa.Target.RoundTrip
import Vyasa.HalideBuffer.ViewExact
import Vyasa.ToString.Truncates
import Vyasa.ToString.Double
import Vyasa.Hashmap.Refines
import Vyasa.VectorizeLoops.LaneBoundsExact
import Vyasa.Synchronization.Wakeups
