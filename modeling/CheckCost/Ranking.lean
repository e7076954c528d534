import CheckCost.Metric

/-!
Ranking metrics by cost. Metrics are grouped by file, the costliest file first, or into third-party
code and the rest. Sorting is stable: equal totals are ordered by path, equal items as they came.
-/
namespace CheckCost

inductive Strategy where
  | files
  | symbols
  deriving DecidableEq, Repr

namespace Strategy

def name : Strategy → String
  | files => "files"
  | symbols => "symbols"

def ofName? (text : String) : Option Strategy :=
  if text = "files" then some files else if text = "symbols" then some symbols else none

theorem ofName?_name (strategy : Strategy) : ofName? strategy.name = some strategy := by
  cases strategy <;> decide

end Strategy

structure RankedItem (D : Type) where
  duration : D
  name : String
  path : String
  line : Int
  column : Int

structure RankedGroup (D : Type) where
  rank : Nat
  key : String
  total : D
  percentage : Int
  count : Nat
  items : List (RankedItem D)

/-- Durations in a report are in milliseconds. -/
structure Report (D : Type) where
  strategy : Strategy
  traceCount : Nat
  catalogCount : Nat
  metricCount : Nat
  filteredCount : Nat
  grandTotal : D
  groups : List (RankedGroup D)
  warnings : List String

namespace Ranking

variable {D : Type}

/-- The first `limit` items; a negative limit leaves out so many at the end. -/
def upTo (limit : Int) (items : List α) : List α :=
  if limit < 0 then items.take (items.length - limit.natAbs) else items.take limit.toNat

variable [Duration D]

def byDuration (duration : α → D) (items : List α) : List α :=
  items.mergeSort fun a b => !Duration.below (duration a) (duration b)

def item (metric : Metric D) : RankedItem D :=
  { duration := Duration.toMillis metric.duration
    name := metric.name
    path := metric.path
    line := metric.declaration.start.line
    column := metric.declaration.start.character }

def items (limit : Int) (metrics : List (Metric D)) : List (RankedItem D) :=
  (upTo limit (byDuration Metric.duration metrics)).map item

def total (metrics : List (Metric D)) : D := Duration.sum (metrics.map Metric.duration)

omit [Duration D] in
/-- Adds a metric to the group of its key, at the end if there is none yet. -/
def insert (key : String) (metric : Metric D) :
    List (String × List (Metric D)) → List (String × List (Metric D))
  | [] => [(key, [metric])]
  | (known, members) :: rest =>
    if known = key then (known, members ++ [metric]) :: rest
    else (known, members) :: insert key metric rest

omit [Duration D] in
/-- The metrics of each file, in the order in which the files first came. -/
def byFile (metrics : List (Metric D)) : List (String × List (Metric D)) :=
  metrics.foldl (fun groups metric => insert metric.path metric groups) []

omit [Duration D] in
def byOrigin (metrics : List (Metric D)) : List (String × List (Metric D)) :=
  [("source", metrics.filter (!·.isDependency)), ("dependencies", metrics.filter (·.isDependency))]

/-- Orders groups by falling total, equal ones by key. -/
def byTotal (groups : List (String × List (Metric D))) : List (String × List (Metric D)) :=
  byDuration (fun group => total group.2) (groups.mergeSort fun a b => !decide (b.1 < a.1))

def groups (strategy : Strategy) (limit : Int) (metrics : List (Metric D)) :
    List (String × List (Metric D)) :=
  match strategy with
  | .files => upTo limit (byTotal (byFile metrics))
  | .symbols => byOrigin metrics

/-- Numbers the groups from `rank` on and adds each one's share of the grand total. -/
def ranked (grand : D) (itemLimit : Int) (rank : Nat) :
    List (String × List (Metric D)) → Except NumberFault (List (RankedGroup D))
  | [] => .ok []
  | (key, members) :: rest => do
    let percentage ← Duration.share (total members) grand
    let group : RankedGroup D :=
      { rank
        key
        total := Duration.toMillis (total members)
        percentage
        count := members.length
        items := items itemLimit members }
    return group :: (← ranked grand itemLimit (rank + 1) rest)

end Ranking

/-- What a report says beside the ranking itself. -/
structure Counts where
  trace : Nat
  catalog : Nat
  /-- All metrics, also those that were filtered out. -/
  metrics : Nat

structure Limits where
  groups : Int
  items : Int

/-- The report on some metrics. The grand total covers all of them, also those of groups beyond the
limit. -/
def Report.ofMetrics [Duration D] (strategy : Strategy) (limits : Limits) (counts : Counts)
    (warnings : List String) (metrics : List (Metric D)) : Except NumberFault (Report D) := do
  let grand := Ranking.total metrics
  let groups ←
    Ranking.ranked grand limits.items 1 (Ranking.groups strategy limits.groups metrics)
  return {
    strategy
    traceCount := counts.trace
    catalogCount := counts.catalog
    metricCount := counts.metrics
    filteredCount := metrics.length
    grandTotal := Duration.toMillis grand
    groups
    warnings }

end CheckCost
