import ByteTurn.Types
import ByteTurn.Lib.Buckets
import ByteTurn.Lib.Double
import ByteTurn.Lib.Table

/-!
# ByteTurn.MetricsRegistry

Counters and histograms (`MetricsRegistry` in `observability.cpp`).

A finite double is the rational it stands for, and a sum is exact.  The layout of
a histogram is fixed by the first call that brings bounds.  The text of
`prometheus_text` is the list of its lines, with the numbers that are printed: of a
double only twelve significant digits are (`printed`).
-/

namespace ByteTurn

open Buckets (sortUnique lowerBound)

/-- `metric_name` -/
def metricName (name : Bytes) : Bytes :=
  name.map fun c =>
    if (0x61 ≤ c ∧ c ≤ 0x7a) ∨ (0x41 ≤ c ∧ c ≤ 0x5a) ∨ (0x30 ≤ c ∧ c ≤ 0x39) ∨ c = 0x5f ∨ c = 0x3a
    then c else 0x5f

/-- `MetricsRegistry::Histogram`, and `HistogramSnapshot` -/
structure Histogram where
  count : Nat := 0
  sum : ℚ := 0
  bounds : List ℚ := []
  bucketCounts : List Nat := []
  deriving DecidableEq

/-- `MetricsRegistry` -/
structure MetricsRegistry where
  counters : Table Bytes Nat := ∅
  histograms : Table Bytes Histogram := ∅

/-- The default bounds of `observe`. -/
def defaultBounds : List ℚ := [5, 10, 25, 50, 100, 250, 500, 1000, 2500, 5000]

/-- `std::vector::resize` -/
def resize (l : List Nat) (size : Nat) : List Nat :=
  l.take size ++ List.replicate (size - l.length) 0

namespace Histogram

/-- The layout, when there is none yet. -/
def layout (h : Histogram) (bounds : List ℚ) : Histogram :=
  if h.bounds = [] then
    { h with
      bounds := sortUnique bounds
      bucketCounts := resize h.bucketCounts ((sortUnique bounds).length + 1) }
  else h

/-- The section of `MetricsRegistry::observe`, on its histogram. -/
def observe (h : Histogram) (value : ℚ) (bounds : List ℚ) : Histogram :=
  let h := h.layout bounds
  { h with
    count := h.count + 1
    sum := h.sum + value
    bucketCounts := h.bucketCounts.modify (lowerBound h.bounds value) (· + 1) }

end Histogram

/-- What is printed of a double, after `std::setprecision(12)`. -/
def printed (q : ℚ) : ℚ := Double.roundToDigits 12 q

/-- A line of `prometheus_text`, with the numbers it shows; a bucket without a bound
is that of `+Inf`. -/
inductive PrometheusLine where
  | counter (name : Bytes) (value : Nat)
  | bucket (name : Bytes) (le : Option ℚ) (cumulative : Nat)
  | sum (name : Bytes) (value : ℚ)
  | count (name : Bytes) (value : Nat)
  deriving DecidableEq

/-- The loop over the buckets, from the `i`-th one. -/
def bucketLines (name : Bytes) (bounds : List ℚ) : Nat → Nat → List Nat → List PrometheusLine
  | _, _, [] => []
  | i, cumulative, n :: rest =>
      let cumulative := cumulative + n
      .bucket name (if i = bounds.length then none else (bounds[i]?).map printed) cumulative ::
        bucketLines name bounds (i + 1) cumulative rest

/-- The lines of a histogram. -/
def Histogram.lines (name : Bytes) (h : Histogram) : List PrometheusLine :=
  bucketLines name h.bounds 0 0 h.bucketCounts ++ [.sum name (printed h.sum), .count name h.count]

namespace MetricsRegistry

/-- `MetricsRegistry::increment` -/
def increment (m : MetricsRegistry) (name : Bytes) (value : Nat) : MetricsRegistry :=
  let name := metricName name
  { m with counters := m.counters.insert name ((m.counters.lookup name).getD 0 + value) }

/-- `MetricsRegistry::observe`; a value that is not finite is `none`. -/
def observe (m : MetricsRegistry) (name : Bytes) (value : Option ℚ) (bounds : List ℚ) :
    MetricsRegistry :=
  match value with
  | none => m
  | some value =>
      let name := metricName name
      let histogram := ((m.histograms.lookup name).getD {}).observe value bounds
      { m with histograms := m.histograms.insert name histogram }

/-- `MetricsRegistry::counter` -/
def counter (m : MetricsRegistry) (name : Bytes) : Nat :=
  (m.counters.lookup (metricName name)).getD 0

/-- `MetricsRegistry::histogram` -/
def histogram (m : MetricsRegistry) (name : Bytes) : Histogram :=
  (m.histograms.lookup (metricName name)).getD {}

/-- The entries of a map, in the order of their keys. -/
def sortedEntries {ν : Type} (t : Table Bytes ν) : List (Sigma fun _ : Bytes => ν) :=
  t.entries.insertionSort fun a b => a.1 ≤ b.1

/-- `MetricsRegistry::prometheus_text`, line by line. -/
def prometheusText (m : MetricsRegistry) : List PrometheusLine :=
  (sortedEntries m.counters).map (fun e => .counter e.1 e.2) ++
    (sortedEntries m.histograms).flatMap fun e => e.2.lines e.1

end MetricsRegistry

end ByteTurn
