import CheckCost.Number.Notation
import CheckCost.Ranking
import CheckCost.Settings
import CheckCost.Json.Display
import CheckCost.Text.Style

/-!
A report as text for a terminal: the settings, then each group with its items, then the totals. Files
are shown relative to the base directory of the settings.
-/
namespace CheckCost.Report

open CheckCost.Text

/-- The path of a file as seen from a directory, its last part marked. An empty path stays empty. -/
def file (working base : Path) (path : String) : String :=
  let parts :=
    if path.isEmpty then []
    else
      match (Path.relative working base (Path.ofString path)).parts with
      | [] => [Path.here]
      | parts => parts
  let directory := parts.dropLast.flatMap fun part => part ++ ['/']
  String.ofList directory ++
    styled none [.bold, .underline] (String.ofList (parts.getLast?.getD []))

/-- The text in a column of so many characters: cut off or filled up with spaces at the end. -/
def column (width : Nat) (text : String) : String :=
  let shown := text.toList.take width
  String.ofList (shown ++ List.replicate (width - shown.length) ' ')

def alignedRight (width : Nat) (text : String) : String :=
  String.ofList (List.replicate (width - text.length) ' ') ++ text

def item (working : Path) (settings : Settings) (item : RankedItem Float) : String :=
  let duration := styled (some .yellow) [.bold] (alignedRight 10 (Number.fixed 2 item.duration))
  let name := styled (some .brightBlue) [.bold] (column settings.nameWidth.toNat item.name)
  let place := styled none [.dim] s!":{item.line}:{item.column}"
  s!"    {duration} ms  {name} {file working settings.base item.path}{place}"

/-- The titles of the groups that are no files. -/
def originTitles : List (String × String) :=
  [("source", "source"), ("dependencies", "node_modules")]

def caption (working : Path) (settings : Settings) (strategy : Strategy) (group : RankedGroup Float) :
    String :=
  match strategy with
  | .files =>
    let rank := styled (some .cyan) [.bold] (toString group.rank)
    s!"# {rank} {file working settings.base group.key}"
  | .symbols =>
    let kinds := styled (some .cyan) [.bold] (",".intercalate settings.kinds.names)
    let title := (originTitles.lookup group.key).getD group.key
    s!"{kinds} {title}"

def header (working : Path) (settings : Settings) (strategy : Strategy) (group : RankedGroup Float) :
    String :=
  let total := styled (some .red) [.bold] (Number.fixed 2 group.total)
  let share := styled (some .green) [.bold] s!"{group.percentage} %"
  let count := styled (some .brightGreen) [] (toString group.count)
  let caption := caption working settings strategy group
  s!"  {caption}  {total} ms ({share} of total metrics) ({count} metrics)"

/-- The lines of a group: its header and its items, each followed by an empty line. -/
def groupLines (working : Path) (settings : Settings) (strategy : Strategy)
    (group : RankedGroup Float) : List String :=
  header working settings strategy group :: "" :: group.items.map (item working settings) ++ [""]

def heading : Strategy → String
  | .files => "Files ranked by type check duration:"
  | .symbols => "Symbols ranked by type check duration:"

def descriptionLine : String × Json → String
  | (name, value) => s!"  {name}: {value.text}"

def warningLine (warning : String) : String := styled (some .yellow) [] s!":: warning: {warning}"

def elapsedLine (seconds : Float) : String := s!":: Parse time: {Number.fixed 3 seconds}s"

/-- The text of a report; `elapsed` tells how many seconds it took. -/
def text (working : Path) (settings : Settings) (elapsed : Option Float) (report : Report Float) :
    String :=
  let kinds := ",".intercalate (settings.kinds.names.map (styled (some .cyan) []))
  let grandTotal := Number.fixed 0 report.grandTotal
  "\n".intercalate
    (["", "ts-rank", "", "Ranking output from tsconfig.compilerOptions.generateTrace"] ++
      (settings.description working).map descriptionLine ++
      ["", s!":: {heading report.strategy}", ""] ++
      report.groups.flatMap (groupLines working settings report.strategy) ++
      (elapsed.map elapsedLine).toList ++
      [s!":: {report.traceCount} total traces, {report.catalogCount} total types",
        s!":: Measured {report.metricCount} check metrics of kind: [{kinds}]",
        s!":: {grandTotal} ms total measured duration"] ++
      report.warnings.map warningLine ++ [""])

end CheckCost.Report
