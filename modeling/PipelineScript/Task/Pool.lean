import PipelineScript.Table

/-! # Thread pools

The tasks of a block run on the threads of a pool. A script may be told to use a named pool; the
default pool stands in for every name that there is no pool for. -/

namespace PipelineScript

structure Pool where
  name : String
  threads : Nat
deriving DecidableEq, Repr

/-- The name of a thread of the pool, counted from 0. -/
def Pool.threadName (p : Pool) (thread : Nat) : String := s!"nf-{p.name}-{thread}"

structure Pools where
  defaultThreads : Nat
  /-- The number of threads of each pool. -/
  named : Table Nat
deriving Repr

namespace Pools

/-- The first pool without a thread: the default one, or else the first by name. -/
def idle? (p : Pools) : Option String :=
  if p.defaultThreads = 0 then some "default"
  else (p.named.find? fun (_, threads) => threads = 0).map Prod.fst

def resolve (p : Pools) (name : Option String) : Pool :=
  match name.bind fun n => (Table.get? p.named n).map fun threads => (⟨n, threads⟩ : Pool) with
  | some pool => pool
  | none => ⟨"default", p.defaultThreads⟩

end Pools

/-! ## Sharing out work -/

/-- The thread that is free first, by the time at which each of them is. -/
def freest : List Nat → Nat
  | [] => 0
  | [_] => 0
  | t :: rest =>
    let other := freest rest
    if t ≤ rest.getD other 0 then 0 else other + 1

end PipelineScript
