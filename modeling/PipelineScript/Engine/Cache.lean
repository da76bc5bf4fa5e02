import PipelineScript.Script
import PipelineScript.Table

/-! # The script cache

Compiled scripts by the digest of their text, each with the time when it was last asked for. Times
are nanoseconds of the engine's clock. -/

namespace PipelineScript

structure CachedScript where
  script : Script
  lastUse : Nat

structure Cache where
  entries : Table CachedScript
  hits : Nat
  misses : Nat
  /-- An entry that is not used for longer than this is swept out. -/
  sweepInterval : Nat
  /-- Are entries swept out in the background? -/
  sweeping : Bool

namespace Cache

def empty (sweepInterval : Nat) : Cache := ⟨[], 0, 0, sweepInterval, true⟩

def size (c : Cache) : Nat := c.entries.length

/-- The script of a text, compiled unless it is there. A text that does not compile is not kept. -/
def getOrCompile (c : Cache) (now : Nat) (source : String) : Except Diagnostic Script × Cache :=
  let hash := Digest.ofText source
  match Table.get? c.entries hash with
  | some entry =>
    (.ok entry.script,
      { c with hits := c.hits + 1, entries := Table.insert c.entries hash ⟨entry.script, now⟩ })
  | none =>
    match Script.compile source with
    | .ok script =>
      (.ok script,
        { c with misses := c.misses + 1, entries := Table.insert c.entries hash ⟨script, now⟩ })
    | .error d => (.error d, { c with misses := c.misses + 1 })

/-- Drops what was last used more than `maxIdle` before `now`, and says how many that were. -/
def evictIdle (c : Cache) (now maxIdle : Nat) : Nat × Cache :=
  let kept := c.entries.filter fun (_, entry) => now - entry.lastUse ≤ maxIdle
  (c.entries.length - kept.length, { c with entries := kept })

/-- What the sweeps in the background have left at a time. They happen at the multiples of the
interval, and the last one drops whatever an earlier one would have dropped. -/
def sweptBy (c : Cache) (now : Nat) : Cache :=
  if c.sweeping then (c.evictIdle (now - now % c.sweepInterval) c.sweepInterval).2 else c

def contains (c : Cache) (source : String) : Bool := Table.has c.entries (Digest.ofText source)

def shutdown (c : Cache) : Cache := { c with entries := [], sweeping := false }

def text (c : Cache) (intervalText : String) : String :=
  s!"ScriptCache \x7b entries: {c.size}, sweep_interval: {intervalText}, " ++
    s!"running: {c.sweeping} \x7d"

end Cache

end PipelineScript
