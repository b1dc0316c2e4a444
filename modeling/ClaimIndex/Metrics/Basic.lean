import ClaimIndex.Number.Shortest
import Std.Data.ExtTreeMap

namespace ClaimIndex

structure Histogram where
  count : UInt64 := 0
  sum : Binary64 := .zero
  least : Binary64 := .greatest
  most : Binary64 := -.greatest

namespace Histogram

/-- Record a value; `nan` moves neither end, and of two zeros the later one stands. -/
def observe (h : Histogram) (x : Binary64) : Histogram where
  count := h.count + 1
  sum := h.sum + x
  least := if x ≤ h.least then x else h.least
  most := if h.most ≤ x then x else h.most

def mean (h : Histogram) : Binary64 :=
  if h.count = 0 then .zero else h.sum / .ofNat h.count.toNat

end Histogram

structure Metrics where
  counters : Std.ExtTreeMap String UInt64 := ∅
  gauges : Std.ExtTreeMap String UInt64 := ∅
  histograms : Std.ExtTreeMap String Histogram := ∅

namespace Metrics

variable (m : Metrics)

def count (name : String) : UInt64 := m.counters[name]?.getD 0

def gauge (name : String) : UInt64 := m.gauges[name]?.getD 0

def raise (name : String) (by' : UInt64) : Metrics :=
  { m with counters := m.counters.insert name (m.count name + by') }

def set (name : String) (value : UInt64) : Metrics :=
  { m with gauges := m.gauges.insert name value }

def observe (name : String) (x : Binary64) : Metrics :=
  { m with histograms := m.histograms.insert name ((m.histograms[name]?.getD {}).observe x) }

def exportName (name : String) : String := name.map fun c => if c = '.' then '_' else c

private def line (words : List String) : String := " ".intercalate words ++ "\n"

def text : String :=
  let values (kind : String) (entries : Std.ExtTreeMap String UInt64) : List String :=
    entries.toList.flatMap fun (name, value) =>
      let name := exportName name
      [line ["# TYPE", name, kind], line [name, toString value.toNat]]
  let summaries := m.histograms.toList.flatMap fun (name, h) =>
    let name := exportName name
    [line ["# TYPE", name, "summary"], line [name ++ "_count", toString h.count.toNat],
      line [name ++ "_sum", Shortest.plain h.sum]]
  String.join (values "counter" m.counters ++ values "gauge" m.gauges ++ summaries)

end Metrics

end ClaimIndex
