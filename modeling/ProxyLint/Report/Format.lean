import ProxyLint.JsonValue
import ProxyLint.Report

/-!
# Written reports

A report is written as text for a terminal, as a JSON document, or with one line
for each violation.

## Main definitions

* `ProxyLint.Report.Format` — the forms of a report.
* `ProxyLint.Report.summary` — how many violations there are of each severity.
* `ProxyLint.Report.render` — the written report.
-/

set_option relaxedAutoImplicit false
set_option autoImplicit false

namespace ProxyLint.Report

/-- The forms of a report. -/
inductive Format where
  /-- Text for a terminal. -/
  | text
  /-- A JSON document. -/
  | json
  /-- One line for each violation. -/
  | compact
  deriving DecidableEq, Repr, Inhabited

namespace Format

/-- The formats in order. -/
def all : List Format :=
  [.text, .json, .compact]

/-- The written form. -/
def name : Format → String
  | .text => "text"
  | .json => "json"
  | .compact => "compact"

/-- Reads a format, which is written in lower case. -/
def ofText? (s : String) : Option Format :=
  all.find? fun f => s == f.name

end Format

/-- The severities that occur, from the lowest to the highest, and how many
violations of each the report stands for. -/
def summary (vs : List Violation) : List (Severity × Nat) :=
  (Severity.all.filter fun s => vs.any fun v => v.rule.severity == s).map fun s =>
    (s, countAt vs s)

/-! ### Text for a terminal -/

/-- The colors of a terminal that a report uses. -/
inductive Color where
  | boldRed
  | red
  | yellow
  | cyan
  | blue
  | green
  deriving DecidableEq, Repr, Inhabited

/-- The number of a color. -/
def Color.code : Color → String
  | .boldRed => "1;31"
  | .red => "31"
  | .yellow => "33"
  | .cyan => "36"
  | .blue => "34"
  | .green => "32"

/-- A text in a color. -/
def Color.paint (c : Color) (s : String) : String :=
  "\x1b[" ++ c.code ++ "m" ++ s ++ "\x1b[0m"

/-- The color of a severity. -/
def severityColor : Severity → Color
  | .blocker => .boldRed
  | .critical => .red
  | .major => .yellow
  | .minor => .cyan
  | .info => .blue

/-- The lines about a violation, with an empty one at the end. -/
def violationLines (v : Violation) : List String :=
  let place := (v.source?.map Source.text).getD "<unknown>"
  let severity := (severityColor v.rule.severity).paint (Text.lower v.rule.severity.text)
  let count :=
    if v.isCounted then ["  = occurrences: " ++ Text.ofNat v.occurrences] else []
  let link := v.rule.documentationUrl.toList.map ("  = see: " ++ ·)
  [v.rule.id ++ " at " ++ place, "  " ++ severity ++ ": " ++ v.context] ++ count ++ link ++ [""]

/-- The line about the whole report, with the highest severity first. -/
def summaryLine (vs : List Violation) : String :=
  let counts := summary vs
  let color : Color :=
    if hasAtLeast vs .critical then .red else if 0 < total vs then .yellow else .green
  if counts.isEmpty then color.paint "No violations found"
  else
    let each := counts.reverse.map fun (s, n) => Text.ofNat n ++ " " ++ Text.lower s.text
    color.paint
      ("Found " ++ Text.ofNat (total vs) ++ " violation(s): " ++ Text.joinWith ", " each)

/-! ### JSON documents -/

/-- A number of a document. -/
def jsonNat (n : Nat) : JsonValue :=
  .number (.integer n)

/-- A violation as an object; what is not known is left out. -/
def violationJson (v : Violation) : JsonValue :=
  let known (name : String) (value? : Option JsonValue) : List (String × JsonValue) :=
    value?.toList.map fun value => (name, value)
  .object <|
    [("rule", .text v.rule.id), ("severity", .text v.rule.severity.text),
      ("description", .text v.rule.description), ("context", .text v.context)] ++
    known "file" (v.file?.map .text) ++ known "line" (v.line?.map jsonNat) ++
    known "included_from" (v.includedFrom?.map .text) ++
    [("occurrences", jsonNat v.occurrences)]

/-- The report as a document. -/
def json (verbosity : Verbosity) (vs : List Violation) : JsonValue :=
  .object [("verbosity", .text verbosity.text),
    ("summary", .object ((summary vs).map fun (s, n) => (s.text, jsonNat n))),
    ("violations", .array (vs.map violationJson))]

/-! ### Reports -/

/-- The lines of a text, each with its end. -/
def lines (ls : List String) : String :=
  String.join (ls.map (· ++ "\n"))

/-- The written report. -/
def render (format : Format) (verbosity : Verbosity) (vs : List Violation) : String :=
  match format with
  | .text => lines (vs.flatMap violationLines ++ [summaryLine vs])
  | .json => lines [(json verbosity vs).pretty]
  | .compact => lines (vs.map Violation.text)

end ProxyLint.Report
