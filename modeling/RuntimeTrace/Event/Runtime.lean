import RuntimeTrace.Binary64

/-!
# Events of the runtime itself

Collections, lock waits, method loads, samples and the events that are merely
counted.  Numbers that stand for a reason or a kind are kept as the runtime sends
them; giving them names is the business of whoever builds a result from them.
-/

namespace RuntimeTrace

/-- Sizes of one generation before and after a collection, summed over heaps. -/
structure GenerationChange where
  sizeBefore : UInt64
  sizeAfter : UInt64
  deriving DecidableEq, Repr

/-- One number for each generation and the large object heap. -/
structure GenerationSizes where
  gen0 : UInt64
  gen1 : UInt64
  gen2 : UInt64
  largeObjects : UInt64
  deriving DecidableEq, Repr

namespace GenerationSizes

/-- All sizes zero. -/
def zero : GenerationSizes := ⟨0, 0, 0, 0⟩

/-- The sizes in order. -/
def toList (s : GenerationSizes) : List UInt64 := [s.gen0, s.gen1, s.gen2, s.largeObjects]

/-- Adds up to four numbers to the sizes, in order. -/
def addList (s : GenerationSizes) : List UInt64 → GenerationSizes
  | [] => s
  | [a] => { s with gen0 := s.gen0 + a }
  | [a, b] => { s with gen0 := s.gen0 + a, gen1 := s.gen1 + b }
  | [a, b, c] => { s with gen0 := s.gen0 + a, gen1 := s.gen1 + b, gen2 := s.gen2 + c }
  | a :: b :: c :: d :: _ =>
    ⟨s.gen0 + a, s.gen1 + b, s.gen2 + c, s.largeObjects + d⟩

end GenerationSizes

/-- An event in the life of a collection. -/
inductive CollectionEvent where
  | triggered (reason : UInt32)
  | start (count depth reason mode : UInt32)
  /-- Sizes of the generations after the collection. -/
  | heapStats (sizes : GenerationSizes)
  /-- One entry a generation, already summed over heaps. -/
  | perHeapHistory (generations : List GenerationChange)
  | globalHeapHistory (condemnedGeneration globalMechanisms : UInt32)
  | suspendBegin (reason : UInt32)
  | restartEnd
  deriving DecidableEq

/-- An event of a thread that waits. -/
inductive WaitEvent where
  /-- A lock was contended. -/
  | start (flags : UInt8)
  /-- The lock was taken; newer runtimes add their own measurement. -/
  | stop (flags : UInt8) (durationNs : Binary64)
  /-- A blocking wait on a handle began. -/
  | handleStart (source : UInt8)
  | handleStop
  deriving DecidableEq

/-- A method body became known. -/
structure MethodLoad where
  start : UInt64
  size : UInt32
  typeName : String
  name : String
  signature : String
  deriving DecidableEq

/-- A sample; its stack is in the context of the event. -/
inductive Sample where
  | processor
  | allocation (typeName : String) (amount : UInt64) (isLarge : Bool)
  deriving DecidableEq

/-- An event that is counted as it arrives. -/
inductive IncidentEvent where
  | exception (exceptionType exceptionMessage : String)
  /-- Names a type that later events refer to by number. -/
  | typeNamed (typeId : UInt64) (typeName : String)
  | finalized (typeId : UInt64)
  /-- The thread pool added workers because queued work did not progress. -/
  | starvation (workerCount : UInt32)
  deriving DecidableEq

end RuntimeTrace
