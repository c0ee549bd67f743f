import BuildEngine.Expr.Eval
import BuildEngine.Graph.Pool
import BuildEngine.Log
import BuildEngine.Project.Basic

/-!
# Reports

What the program shows: the log of a build, its summary, a graph as JSON, and the targets of a
project.
-/

namespace BuildEngine.Report

/-- The text of a log entry, with the number of its logger in front if that is wanted. -/
def entryText (showsLogger : Bool) (e : LogEntry) : String :=
  (if showsLogger then toString e.logger ++ ">" else "") ++
    (match e.level with
      | .error => "error: "
      | .warning => "warning: "
      | .message _ => "") ++ e.text ++ "\n"

/-- Whether an entry is shown among the messages, and not among warnings and errors. -/
def isMessage (e : LogEntry) : Bool :=
  match e.level with
  | .message _ => true
  | _ => false

/-- A number with at least two digits. -/
def twoDigits (n : Nat) : String :=
  if n < 10 then "0" ++ toString n else toString n

/-- A time of some milliseconds as hours, minutes, seconds and hundredths. -/
def elapsed (milliseconds : Nat) : String :=
  let seconds := milliseconds / 1000
  twoDigits (seconds / 3600) ++ ":" ++ twoDigits (seconds % 3600 / 60) ++ ":" ++
    twoDigits (seconds % 60) ++ "." ++ twoDigits (milliseconds % 1000 / 10)

/-- Whether a build with some errors in its log succeeded. -/
def isSuccess (summary : BuildSummary) (log : Log) : Bool :=
  summary.isSuccess && log.total .error = 0

/-- The lines that tell how a build ended. -/
def summaryLines (summary : BuildSummary) (log : Log) (milliseconds : Nat) : List String :=
  ["", if isSuccess summary log then "Build succeeded." else "Build FAILED.",
    "    " ++ toString (log.total .warning) ++ " Warning(s)",
    "    " ++ toString (log.total .error) ++ " Error(s)",
    "    " ++ toString summary.succeeded.length ++ " project(s) succeeded, " ++
      toString summary.failed.length ++ " failed, " ++ toString summary.skipped.length ++
      " skipped"] ++
  (if summary.cancelled then
    ["    Cancelled; " ++ toString summary.notStarted.length ++ " project(s) not started"]
  else []) ++
  ["Time Elapsed " ++ elapsed milliseconds]

/-- A character as it is written between the quotes of JSON. -/
def jsonChar (c : Char) : String :=
  if c = '"' then "\\\"" else if c = '\\' then "\\\\"
  else if c = '\n' then "\\n" else if c = '\r' then "\\r" else if c = '\t' then "\\t"
  else if c = '\x08' then "\\b" else if c = '\x0C' then "\\f"
  else if c.toNat < 0x20 then
    "\\u00" ++ String.ofList [Nat.digitChar (c.toNat / 16), Nat.digitChar (c.toNat % 16)]
  else String.singleton c

/-- A text in JSON. -/
def jsonText (s : String) : String :=
  "\"" ++ String.join (s.toList.map jsonChar) ++ "\""

/-- Elements in JSON, each on its own line between brackets. -/
def jsonArray (indent : String) (elements : List String) : String :=
  if elements = [] then "[]"
  else
    "[\n" ++ String.intercalate ",\n" (elements.map fun e => indent ++ "  " ++ e) ++ "\n" ++
      indent ++ "]"

/-- A project with its dependencies in JSON. -/
def jsonProject (edge : Path × List Path) : String :=
  "\x7B\n    \"project\": " ++ jsonText edge.1.text ++ ",\n    \"dependencies\": " ++
    jsonArray "    " (edge.2.map fun p => jsonText p.text) ++ "\n  \x7D"

/-- A graph in JSON. -/
def jsonGraph (edges : List (Path × List Path)) : String :=
  jsonArray "" (edges.map jsonProject)

/-- The lines that tell of a target. -/
def targetLines (ctx : Context) (defaults : List String) (t : Target) :
    Except EvalError (List String) := do
  let isDefault := defaults.any fun name => Text.sameFolded name t.name
  let needed ← match t.dependsOn with
    | none => pure []
    | some e => e.evaluateEntries ctx
  return ["  " ++ t.name ++ if isDefault then " (default)" else ""] ++
    (if needed = [] then [] else ["      depends on: " ++ String.intercalate ", " needed]) ++
    (t.condition.toList.map fun c => "      condition: " ++ c.render) ++
    (if t.inputs.isSome && t.outputs.isSome then ["      incremental"] else [])

/-- The lines that tell of all targets. -/
def targetList (p : Project) (ctx : Context) : Except EvalError (List String) :=
  if p.targets = [] then .ok ["  (no targets)"]
  else do
    let named ← match p.defaultTargets with
      | none => pure []
      | some e => e.evaluateEntries ctx
    let defaults := if named = [] then (p.targets.head?.map Target.name).toList else named
    return (← p.targets.mapM (targetLines ctx defaults)).flatten

end BuildEngine.Report
