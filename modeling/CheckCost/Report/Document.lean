import CheckCost.Json.Printer
import CheckCost.Ranking

/-!
A report as a JSON document.
-/
namespace CheckCost

namespace RankedItem

def document (item : RankedItem Float) : Json :=
  .obj [("duration_ms", .float item.duration), ("name", .str item.name), ("path", .str item.path),
    ("line", .int item.line), ("column", .int item.column)]

end RankedItem

namespace RankedGroup

def document (group : RankedGroup Float) : Json :=
  .obj [("rank", .int group.rank), ("key", .str group.key), ("total_ms", .float group.total),
    ("percentage", .int group.percentage), ("count", .int group.count),
    ("items", .arr (group.items.map RankedItem.document))]

end RankedGroup

namespace Report

def document (report : Report Float) : Json :=
  .obj [("strategy", .str report.strategy.name), ("trace_count", .int report.traceCount),
    ("catalog_count", .int report.catalogCount), ("metric_count", .int report.metricCount),
    ("filtered_count", .int report.filteredCount), ("grand_total_ms", .float report.grandTotal),
    ("groups", .arr (report.groups.map RankedGroup.document)),
    ("warnings", .arr (report.warnings.map Json.str))]

def printed (report : Report Float) : String := report.document.print

end Report

end CheckCost
