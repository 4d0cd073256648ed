import RuntimeTrace.CallTree
import RuntimeTrace.Census.Ranking
import RuntimeTrace.Time

/-!
# Sampled allocations

The runtime reports every so many allocated bytes the type it just allocated and
the bytes since its last report.  Per type the census adds up the bytes, counts
the samples and merges the stacks.

Sums of bytes stop at the largest word instead of wrapping, both per type and in
total.  The total is kept apart from the types.
-/

namespace RuntimeTrace

/-- The samples of one type. -/
structure TypeTally where
  /-- Bytes, held at the largest word. -/
  size : UInt64
  /-- Samples. -/
  count : Nat
  /-- Samples of large objects. -/
  largeCount : Nat
  /-- The stacks that allocated, where they were captured. -/
  callTree : CallTree

/-- No samples. -/
def TypeTally.none : TypeTally := ⟨0, 0, 0, CallTree.empty⟩

/-- Takes in a sample; a stack has its outermost frame first. -/
def TypeTally.add (t : TypeTally) (amount : UInt64) (isLarge : Bool)
    (stack : Option (List Frame)) : TypeTally where
  size := saturatingAdd t.size amount
  count := t.count + 1
  largeCount := if isLarge then t.largeCount + 1 else t.largeCount
  callTree := match stack with
    | some frames => t.callTree.insert frames
    | .none => t.callTree

/-- The allocations of a process. -/
structure Allocations where
  types : Table String TypeTally
  /-- Bytes of all samples, held at the largest word. -/
  totalSize : UInt64
  /-- All samples. -/
  totalCount : Nat

namespace Allocations

/-- No samples. -/
def empty : Allocations := ⟨Table.empty, 0, 0⟩

/-- Takes in a sample of a type. -/
def record (a : Allocations) (typeName : String) (amount : UInt64) (isLarge : Bool)
    (stack : Option (List Frame)) : Allocations where
  types := a.types.update typeName TypeTally.none fun t => t.add amount isLarge stack
  totalSize := saturatingAdd a.totalSize amount
  totalCount := a.totalCount + 1

/-- The samples of a type, if there are any. -/
def get? (a : Allocations) (typeName : String) : Option TypeTally := a.types.get? typeName

/-- The types by falling size, then by name. -/
def largestFirst (a : Allocations) : List (String × TypeTally) :=
  ranking (fun t => t.size.toNat) a.types.entries

/-- No type was sampled. -/
def isEmpty (a : Allocations) : Bool := a.types.entries.isEmpty

end Allocations
end RuntimeTrace
