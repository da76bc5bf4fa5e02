import PipelineScript.Json
import PipelineScript.Text.Slice

/-! # Timings

How often statements of each kind ran and how long they took, in nanoseconds. Counters are 64-bit
words: a sum that outgrows them starts again from zero. -/

namespace PipelineScript

/-- What is kept of the samples of a kind. -/
structure Timing where
  count : UInt64
  total : UInt64
  least : UInt64
  most : UInt64
deriving DecidableEq, Repr

namespace Timing

def longest : UInt64 := 18446744073709551615

def none : Timing := ⟨0, 0, longest, 0⟩

def add (t : Timing) (nanos : UInt64) : Timing :=
  ⟨t.count + 1, t.total + nanos, min t.least nanos, max t.most nanos⟩

end Timing

/-- A line of the report. -/
structure TimingReport where
  kind : String
  count : UInt64
  total : UInt64
  average : UInt64
  least : UInt64
  most : UInt64
deriving DecidableEq, Repr

namespace TimingReport

/-- The shortest sample counts as zero if even that one took the longest time there is. -/
def ofTiming (kind : String) (t : Timing) : TimingReport :=
  ⟨kind, t.count, t.total, if t.count = 0 then 0 else t.total / t.count,
    if t.least = Timing.longest then 0 else t.least, t.most⟩

/-- The kinds that took longest come first; those that took equally long are in the order of their
names. -/
def order (a b : TimingReport) : Ordering :=
  (compare b.total a.total).then (compare a.kind b.kind)

def toJson (r : TimingReport) : Json :=
  .obj [("avg_ns", .int r.average.toNat), ("count", .int r.count.toNat), ("kind", .str r.kind),
    ("max_ns", .int r.most.toNat), ("min_ns", .int r.least.toNat), ("total_ns", .int r.total.toNat)]

/-- A time in the unit of that many nanoseconds, with three places. -/
def inUnit (unit : Float) (nanos : UInt64) : String := Numeral.fixed 3 (nanos.toFloat / unit)

def columns (kind count total average least most : String) : String :=
  Text.padRight 12 kind ++ " " ++ Text.padLeft 10 count ++ " " ++ Text.padLeft 14 total ++ " " ++
    Text.padLeft 12 average ++ " " ++ Text.padLeft 12 least ++ " " ++ Text.padLeft 12 most ++ "\n"

def text (r : TimingReport) : String :=
  columns r.kind (toString r.count.toNat) (inUnit 1000000 r.total) (inUnit 1000 r.average)
    (inUnit 1000 r.least) (inUnit 1000 r.most)

end TimingReport

abbrev Monitor := Table Timing

namespace Monitor

def record (m : Monitor) (kind : String) (nanos : Nat) : Monitor :=
  Table.insert m kind
    (((Table.get? m kind).getD .none).add (UInt64.ofNat (min nanos Timing.longest.toNat)))

def report? (m : Monitor) (kind : String) : Option TimingReport :=
  (Table.get? m kind).map (TimingReport.ofTiming kind)

/-- The lines of the entries, in whatever order these are listed. -/
def lines (entries : List (String × Timing)) : List TimingReport :=
  (entries.map fun (kind, t) => TimingReport.ofTiming kind t).mergeSort fun a b => (a.order b).isLE

def report (m : Monitor) : List TimingReport := lines m

def toJson (m : Monitor) : Json := .obj [("kinds", .arr (m.report.map TimingReport.toJson))]

/-- The report as a table with a line of headings. -/
def text (m : Monitor) : String :=
  TimingReport.columns "kind" "count" "total_ms" "avg_us" "min_us" "max_us" ++
    String.join (m.report.map TimingReport.text)

end Monitor

end PipelineScript
