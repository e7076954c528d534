import CheckCost.Catalog
import CheckCost.CheckIndex
import CheckCost.Text.Occurrence

/-!
What a check of a declared type cost: a type of the catalog joined with the last check of it in the
trace.
-/
namespace CheckCost

structure Metric (D : Type) where
  type : NamedType
  declaration : Declaration
  check : Event D
  isDependency : Bool

namespace Metric

def path (metric : Metric D) : String := metric.declaration.path

def name (metric : Metric D) : String := metric.type.name

def duration (metric : Metric D) : D := metric.check.duration

end Metric

/-- The metric of an entry: none for an entry without a declared name, or whose type was not checked. -/
def Entry.metric? (index : CheckIndex D) (marker : String) : Entry → Option (Metric D)
  | .named type => do
    let declaration ← type.declaration
    let check ← index.get? type.id
    return ⟨type, declaration, check, Text.occursIn marker declaration.path⟩
  | .intrinsic .. => none

/-- The metrics of a catalog, in its order. Declarations whose path holds the marker are third-party. -/
def Catalog.metrics (catalog : Catalog) (index : CheckIndex D) (marker : String) : List (Metric D) :=
  catalog.filterMap (Entry.metric? index marker)

end CheckCost
