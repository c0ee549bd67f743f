import BuildEngine.Project.Basic
import BuildEngine.Text.Lines

/-!
# Build log

Everything that a build has to tell, in the order it was said. All projects share one log, and
every entry carries the number of the logger that wrote it. How much of a log is seen, and how
many warnings and errors there are, is read off its entries.
-/

namespace BuildEngine

/-- What an entry of a log is. -/
inductive LogLevel where
  | message (importance : Importance)
  | warning
  | error
deriving DecidableEq, Repr

/-- How much of a log is shown. -/
inductive Verbosity where
  /-- Warnings and errors. -/
  | quiet
  /-- Messages of high importance as well. -/
  | minimal
  /-- Messages of normal importance as well. -/
  | normal
  /-- Everything. -/
  | detailed
deriving DecidableEq, Repr

/-- Whether entries of a level are shown. -/
def Verbosity.allows : Verbosity → LogLevel → Bool
  | _, .warning | _, .error | .detailed, _ => true
  | .normal, .message importance => importance = .normal || importance = .high
  | .minimal, .message importance => importance = .high
  | .quiet, .message _ => false

/-- An entry of a log. -/
structure LogEntry where
  /-- The number of the logger that wrote it. -/
  logger : Nat
  /-- What it is. -/
  level : LogLevel
  /-- What it says. -/
  text : String
deriving DecidableEq, Repr

/-- A log. -/
structure Log where
  /-- How many loggers have been made; they are numbered from 1. -/
  loggers : Nat
  /-- The entries, in the order they were written. -/
  entries : List LogEntry
deriving DecidableEq, Repr

namespace Log

/-- A log without loggers and entries. -/
def empty : Log :=
  ⟨0, []⟩

/-- Makes a logger, whose number is that of the loggers there are then. -/
def addLogger (l : Log) : Log :=
  { l with loggers := l.loggers + 1 }

/-- Writes an entry. -/
def write (l : Log) (logger : Nat) (level : LogLevel) (text : String) : Log :=
  { l with entries := l.entries ++ [⟨logger, level, text⟩] }

/-- Writes every line of a text as an entry, with the same text in front of each. -/
def writeLines (l : Log) (logger : Nat) (level : LogLevel) (indent text : String) : Log :=
  { l with
    entries := l.entries ++ (Text.lines text).map fun line => ⟨logger, level, indent ++ line⟩ }

/-- How many entries have a level. -/
def total (l : Log) (level : LogLevel) : Nat :=
  (l.entries.filter fun e => e.level = level).length

/-- How many entries of a logger have a level. -/
def count (l : Log) (logger : Nat) (level : LogLevel) : Nat :=
  (l.entries.filter fun e => e.logger = logger && e.level = level).length

/-- The entries that are shown. -/
def shown (l : Log) (verbosity : Verbosity) : List LogEntry :=
  l.entries.filter fun e => verbosity.allows e.level

/-- Writing an entry counts for its logger and its level only. -/
@[simp]
theorem count_write (l : Log) (logger other : Nat) (level counted : LogLevel) (text : String) :
    (l.write logger level text).count other counted =
      l.count other counted + if logger = other ∧ level = counted then 1 else 0 := by
  by_cases h : logger = other ∧ level = counted <;> simp [write, count, h]

end Log

end BuildEngine
