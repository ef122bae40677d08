/-!
# Engines

How reconstruction is run: whether a prediction checks what it reads, and who works on batches of
blocks and on the lines of a plane. The units of a batch or a pass do not see each other, so the
workers never change a result; an engine only records them.
-/

namespace BlockVideo

/-- How many threads to run, and whether to run any beside the caller's. -/
structure Threading where
  threads : Nat
  parallel : Bool
  deriving DecidableEq, Repr

namespace Threading

def single : Threading := ⟨1, false⟩

def ofThreads (threads : Nat) : Threading := ⟨threads, true⟩

/-- The number of threads that run. With 0 asked for it is left to the machine. -/
def effective? (t : Threading) : Option Nat :=
  if !t.parallel then some 1 else if t.threads = 0 then none else some t.threads

end Threading

inductive Workers where
  /-- The calling thread alone. -/
  | caller
  /-- Threads that others use too. -/
  | shared
  /-- Threads of its own. -/
  | pool
  deriving DecidableEq, Repr

namespace Workers

def ofThreading (t : Threading) : Workers := if t.parallel then pool else caller

def isPooled (w : Workers) : Bool := w == pool

def isParallel (w : Workers) : Bool := w != caller

end Workers

structure Engine where
  /-- Predictions check that what they read is addressable. -/
  checked : Bool
  prediction : Workers
  deblocking : Workers
  deriving DecidableEq, Repr

namespace Engine

/-- Deblocks on the calling thread. -/
def plain (checked : Bool) : Engine := ⟨checked, .shared, .caller⟩

def shared (checked : Bool) : Engine := ⟨checked, .shared, .shared⟩

def ofThreading (checked : Bool) (t : Threading) : Engine :=
  ⟨checked, .ofThreading t, .ofThreading t⟩

def predictorText (e : Engine) : String :=
  s!"InterPredictor \x7b config: InterpolationConfig \x7b bounds_check: {e.checked} \x7d, " ++
    s!"pooled: {e.prediction.isPooled}, parallel: {e.prediction.isParallel} \x7d"

def deblockerText (e : Engine) : String :=
  s!"Deblocker \x7b pooled: {e.deblocking.isPooled}, parallel: {e.deblocking.isParallel} \x7d"

end Engine

end BlockVideo
