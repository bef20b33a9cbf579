import Cohort.Grouping.Inspect
/-
  Worker pools: a fixed number of named threads.
-/

namespace Cohort

/-- A pool of worker threads. -/
structure Pool where
  threads : Nat
deriving DecidableEq

namespace Pool

/-- The most workers of a pool. -/
def maxThreads : Nat := 65535

/-- A pool of `threads` workers, on a machine with `cpus` processors.  No number asked for means one
    worker per processor, and a number that is too large means as many as a pool can have. -/
def create (cpus threads : Nat) : Pool :=
  ⟨min maxThreads (if threads = 0 then cpus else threads)⟩

/-- The name of a worker by number. -/
def workerName (number : Nat) : String := "pgql-group-" ++ toString number

/-- The names of all workers. -/
def workerNames (p : Pool) : List String := (List.range p.threads).map workerName

/-- Run a piece of work in a pool. -/
def install {α : Type} (_ : Pool) (work : Unit → α) : α := work ()

/-- The description of a pool. -/
def inspect (p : Pool) : String :=
  Inspect.record "WorkerPool" false [("num_threads", toString p.threads)]

end Pool
end Cohort
