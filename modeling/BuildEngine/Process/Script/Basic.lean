import BuildEngine.Process.Script.Token

/-!
# Scripts

The part of the shell language that commands of a build are written in: commands with quotation,
parameters and redirections, pipelines, lists joined by `&&`, `||`, `;` and line feeds, brackets,
and the compound commands `if`, `while`, `until` and `for`.
-/

namespace BuildEngine

namespace Script

/-- Where a stream is redirected to. -/
inductive Destination where
  /-- What another stream goes to. -/
  | stream (number : Nat)
  /-- A file. -/
  | file (w : Word)
deriving DecidableEq, Repr

/-- A stream that is sent elsewhere. -/
structure Redirection where
  /-- The number of the stream: 0 is the input, 1 the output, 2 the error output. -/
  stream : Nat
  /-- Where it goes. -/
  destination : Destination
deriving DecidableEq, Repr

/-- Where a redirection goes: behind `&`, a digit names a stream. -/
def Destination.of (text : List Char) (w : Word) : Destination :=
  match text, w.parts with
  | [_, '&'], [.text [d]] =>
    if '0' ≤ d ∧ d ≤ '9' then .stream (d.toNat - '0'.toNat) else .file w
  | _, _ => .file w

end Script

/-- A script, or a command of one. -/
inductive Script where
  /-- Does nothing and succeeds. -/
  | nothing
  /-- A command: settings of variables, its name and its arguments. -/
  | command (words : List Script.Word) (redirections : List Script.Redirection)
  /-- The second reads what the first writes. -/
  | pipe (first second : Script)
  /-- One behind the other. -/
  | sequence (first second : Script)
  /-- The second only if the first succeeds. -/
  | onSuccess (first second : Script)
  /-- The second only if the first fails. -/
  | onFailure (first second : Script)
  /-- Succeeds if the body fails. -/
  | negation (body : Script)
  /-- The second if the first succeeds, and otherwise the third. -/
  | branch (condition yes no : Script)
  /-- The body again and again, while the condition succeeds or until it does. -/
  | loop (untilSuccess : Bool) (condition body : Script)
  /-- The body for each of the words. -/
  | forEach (name : String) (words : List Script.Word) (body : Script)
  /-- In a shell of its own. -/
  | subshell (body : Script)
  /-- With streams sent elsewhere. -/
  | redirected (body : Script) (redirections : List Script.Redirection)
deriving DecidableEq, Repr

end BuildEngine
