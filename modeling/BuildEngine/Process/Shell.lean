import BuildEngine.Path.Basic
import BuildEngine.Process.Arithmetic
import BuildEngine.Process.Program
import BuildEngine.Process.Script.Parser

/-!
# Shells

What a shell knows while it runs a script, what the words of the script stand for then, and the
commands that only change what the shell itself knows.
-/

namespace BuildEngine

/-- How a shell goes on behind a command. -/
inductive Flow where
  /-- With the next command. -/
  | next
  /-- Behind the loop that it is in. -/
  | leave
  /-- With the next round of the loop that it is in. -/
  | again
  /-- Not at all. -/
  | ended (code : Int)
deriving DecidableEq, Repr

/-- What a stream of a command goes to: the two streams of the shell, or nowhere. -/
inductive Sink where
  | standard
  | diagnostics
  | nowhere
deriving DecidableEq, Repr

/-- What a shell knows while it runs a script. -/
structure Shell where
  /-- The name that the shell goes by. -/
  name : String
  /-- The arguments of the script. -/
  arguments : List String
  /-- The variables that were set. -/
  assigned : List (String × String)
  /-- The directory it is in. -/
  directory : Path
  /-- The status of the last command. -/
  status : Nat
  /-- Whether a command that fails ends the shell. -/
  strict : Bool
  /-- How the shell goes on. -/
  flow : Flow
  /-- The bytes of the standard input that nobody has read. -/
  input : Text.Bytes
  /-- Where the standard output of commands goes. -/
  out : Sink
  /-- Where the standard error of commands goes. -/
  err : Sink
  /-- The pieces written to the standard output, the last one in front. -/
  standard : List Text.Bytes
  /-- The pieces written to the standard error, the last one in front. -/
  diagnostics : List Text.Bytes
deriving Repr

namespace Shell

/-- A shell that has run nothing. -/
def start (name : String) (arguments : List String) (directory : Path) (input : Text.Bytes) :
    Shell :=
  { name, arguments, assigned := [], directory, status := 0, strict := false, flow := .next, input
    out := .standard, err := .diagnostics, standard := [], diagnostics := [] }

/-- The shell, with nothing written, that runs a part of a script of this one. -/
def child (s : Shell) (input : Text.Bytes) : Shell :=
  { s with input, out := .standard, err := .diagnostics, standard := [], diagnostics := [] }

/-! ## What a shell writes -/

/-- Adds bytes to what a sink has got. -/
def write (s : Shell) (sink : Sink) (bytes : Text.Bytes) : Shell :=
  match sink with
  | .standard => { s with standard := bytes :: s.standard }
  | .diagnostics => { s with diagnostics := bytes :: s.diagnostics }
  | .nowhere => s

/-- The status that a shell sees of a program; that of one ended by a signal is above 128. -/
def statusOf (code : Int) : Nat :=
  if code < 0 then 128 + code.natAbs else code.toNat

/-- Takes over what a program left. -/
def finish (s : Shell) (f : Finished) : Shell :=
  { (s.write s.out f.standard).write s.err f.diagnostics with status := statusOf f.code }

/-- An error that the shell itself reports. -/
def complain (s : Shell) (status : Int) (message : String) : Shell :=
  s.finish (.failure status (s.name ++ ": 1: " ++ message))

/-- Ends the shell. -/
def stop (s : Shell) (code : Int) : Shell :=
  { s with flow := .ended code }

/-- Goes on behind a round of a loop. -/
def endRound (s : Shell) : Shell :=
  if s.flow = .again then { s with flow := .next } else s

/-- Goes on behind a loop. -/
def endLoop (s : Shell) : Shell :=
  if s.flow = .leave then { s with flow := .next } else s

/-- What the shell leaves when it has run its script. -/
def finished (s : Shell) : Finished :=
  { code := match s.flow with
      | .ended code => code
      | _ => s.status
    standard := s.standard.reverse.flatten
    diagnostics := s.diagnostics.reverse.flatten }

/-- Goes on behind a part that ran in a shell of its own, of which only the status and what it
wrote is known. -/
def takeChild (s child : Shell) : Shell :=
  { s with
    status := statusOf child.finished.code
    standard := child.standard
    diagnostics := child.diagnostics }

/-- The text that a script wrote, as a part of a word. -/
def outputText (f : Finished) : String :=
  String.ofList
    ((Text.decodeLossy f.standard).toList.reverse.dropWhile fun c => c = '\n').reverse

/-! ## Parameters -/

/-- The process number that a shell finds for itself. -/
def ownNumber : String := "$$"

/-- The value of a variable or of a special parameter, if it has one. -/
def get? (s : Shell) (name : List Char) : Option String :=
  match name with
  | ['?'] => some (toString s.status)
  | ['$'] => some ownNumber
  | ['#'] => some (toString s.arguments.length)
  | ['@'] | ['*'] => some (String.intercalate " " s.arguments)
  | ['0'] => some s.name
  | name =>
    if name ≠ [] ∧ name.all Char.isDigit then
      s.arguments[Text.ofDigits 10 (Text.spanDigits name).1 - 1]?
    else s.assigned.lookup (String.ofList name)

/-- Sets a variable. -/
def set (s : Shell) (name value : String) : Shell :=
  { s with assigned := (name, value) :: s.assigned.filter fun entry => entry.1 ≠ name }

/-- The name in front of what stands between the braces of a parameter, and what follows it. -/
def splitName (text : List Char) : List Char × List Char :=
  match text.span Script.Reading.isNameChar with
  | ([], rest) => (rest.take 1, rest.drop 1)
  | split => split

/-- The value of a parameter. Behind its name, `-` and `+` bring a text that replaces a value
that is missing or one that is there; with `:` in front of them an empty value is missing too. A
`#` in front asks for the length. -/
def value (s : Shell) (text : List Char) : String :=
  match text with
  | '#' :: c :: cs => toString ((s.get? (c :: cs)).getD "").length
  | text =>
    let (name, rest) := splitName text
    let found := s.get? name
    match rest with
    | '-' :: other => found.getD (String.ofList other)
    | ':' :: '-' :: other => (found.filter (· ≠ "")).getD (String.ofList other)
    | '+' :: other => if found.isSome then String.ofList other else ""
    | ':' :: '+' :: other =>
      if (found.filter (· ≠ "")).isSome then String.ofList other else ""
    | _ => found.getD ""

/-- The value of a sum; one that cannot be worked out is empty. -/
def sumText (s : Shell) (terms : List Char) : String :=
  match Arithmetic.eval (fun name => Program.integer ((s.get? name).getD "")) terms with
  | some n => toString n
  | none => ""

/-! ## Words -/

/-- The text of a part of a word, given what scripts write. -/
def partText (s : Shell) (output : List Char → String) : Script.Part → String
  | .text cs => String.ofList cs
  | .parameter name _ => s.value name
  | .output script _ => output script
  | .sum terms _ => s.sumText terms

/-- Whether the text of a part is cut into fields. -/
def isCut : Script.Part → Bool
  | .text _ => false
  | .parameter _ quoted | .output _ quoted | .sum _ quoted => !quoted

/-- The fields that blanks cut a text into. -/
def fields (cs : List Char) : List (List Char) :=
  (cs.splitBy fun a b => !Words.isSeparator a && !Words.isSeparator b).filter fun f =>
    !f.all Words.isSeparator

/-- Adds a text that is cut into fields to the words so far, the last of which is in front and
open to more characters if `isOpen` says so. -/
def addFields (words : List (List Char)) (isOpen : Bool) (cs : List Char) :
    List (List Char) × Bool :=
  match fields cs with
  | [] => (words, isOpen && cs = [])
  | f :: more =>
    let joins := isOpen && !(cs.head?.map Words.isSeparator).getD false
    let words := match words, joins with
      | w :: rest, true => (w ++ f) :: rest
      | words, _ => f :: words
    (more.reverse ++ words, !(cs.getLast?.map Words.isSeparator).getD false)

/-- Adds characters that are not cut to the words so far. -/
def addText (words : List (List Char)) (isOpen : Bool) (cs : List Char) :
    List (List Char) × Bool :=
  match words, isOpen with
  | w :: rest, true => ((w ++ cs) :: rest, true)
  | words, _ => (cs :: words, true)

/-- The words that a word of a script stands for. -/
def expand (s : Shell) (output : List Char → String) (w : Script.Word) : List String :=
  let (words, _) := w.parts.foldl
    (fun (words, isOpen) part =>
      let add := if isCut part then addFields else addText
      add words isOpen (s.partText output part).toList)
    (if w.quoted then [[]] else [], w.quoted)
  words.reverse.map String.ofList

/-- The text that a word stands for where it is not cut. -/
def expandWhole (s : Shell) (output : List Char → String) (w : Script.Word) : String :=
  String.join (w.parts.map (s.partText output))

/-- The variable that a word in front of a command sets, and the word of its value. -/
def assignment? (w : Script.Word) : Option (String × Script.Word) :=
  match w.parts with
  | .text cs :: rest =>
    match cs.span (· ≠ '=') with
    | (name, '=' :: value) =>
      if name ≠ [] ∧ name.all Script.Reading.isNameChar ∧
          !(name.head?.map Char.isDigit).getD true then
        some (String.ofList name, { w with parts := .text value :: rest })
      else none
    | _ => none
  | _ => none

/-- Sets variables, and tells the words behind the settings. -/
def assign (s : Shell) (output : List Char → String) :
    List Script.Word → Shell × List Script.Word
  | [] => (s, [])
  | w :: rest =>
    match assignment? w with
    | some (name, value) => assign (s.set name (s.expandWhole output value)) output rest
    | none => (s, w :: rest)

/-! ## Redirections -/

/-- Sends streams elsewhere, or tells the error. A host has no files that scripts may read or
write, except for the null device. -/
def redirect (s : Shell) (output : List Char → String) :
    List Script.Redirection → Except String Shell
  | [] => .ok s
  | r :: rest =>
    let send (sink : Sink) : Except String Shell :=
      if r.stream = 1 then redirect { s with out := sink } output rest
      else if r.stream = 2 then redirect { s with err := sink } output rest
      else redirect s output rest
    match r.destination with
    | .stream n => send (if n = 1 then s.out else s.err)
    | .file w =>
      let file := s.expandWhole output w
      if file = "/dev/null" then
        if r.stream = 0 then redirect { s with input := [] } output rest else send .nowhere
      else if r.stream = 0 then .error ("cannot open " ++ file ++ ": No such file")
      else .error ("cannot create " ++ file ++ ": Permission denied")

/-- Goes on with the streams of `outer` behind a command that ran with redirected streams. -/
def restore (s outer : Shell) (redirections : List Script.Redirection) : Shell :=
  { s with
    out := outer.out
    err := outer.err
    input := if redirections.any fun r => r.stream = 0 then outer.input else s.input }

/-! ## Commands of the shell itself -/

/-- Ends a script. -/
def exit (s : Shell) (arguments : List String) : Shell :=
  match arguments with
  | [] => s.stop s.status
  | a :: _ =>
    match a.toNat? with
    | some n => s.stop (n % 256 : Nat)
    | none => (s.complain 2 ("exit: Illegal number: " ++ a)).stop 2

/-- The numbers of signals by their names. -/
def signals : List (String × Nat) :=
  [("HUP", 1), ("INT", 2), ("QUIT", 3), ("ABRT", 6), ("KILL", 9), ("SEGV", 11), ("PIPE", 13),
    ("ALRM", 14), ("TERM", 15)]

/-- The number of the signal that `kill` is told to send. -/
def signalOf : List String → Nat
  | "-s" :: name :: _ => (signals.lookup name).getD 15
  | option :: _ :: _ =>
    match option.toList with
    | '-' :: name =>
      ((String.ofList name).toNat?.or (signals.lookup (String.ofList name))).getD 15
    | _ => 15
  | _ => 15

/-- Sends a signal; the only process that can be named is the shell itself. -/
def kill (s : Shell) (arguments : List String) : Shell :=
  if arguments.getLast? = some ownNumber then s.stop (-(signalOf arguments : Nat))
  else s.complain 1 "kill: No such process"

/-- Changes the settings of the shell or the arguments of the script. -/
def setOptions (s : Shell) : List String → Shell
  | "--" :: arguments => { s with arguments, status := 0 }
  | "-e" :: rest => setOptions { s with strict := true } rest
  | "+e" :: rest => setOptions { s with strict := false } rest
  | _ :: rest => setOptions s rest
  | [] => { s with status := 0 }

/-- Gives variables the fields of a line; the last one gets all that are left. -/
def setFields (s : Shell) : List String → List (List Char) → Shell
  | [], _ => s
  | [name], fields =>
    s.set name (String.intercalate " " (fields.map String.ofList))
  | name :: names, fields =>
    setFields (s.set name (String.ofList (fields.head?.getD []))) names (fields.drop 1)

/-- Reads a line of the standard input into variables. -/
def readLine (s : Shell) (names : List String) : Shell :=
  let line := s.input.takeWhile fun b => b ≠ 10
  let rest := s.input.drop line.length
  let s := s.setFields (names.filter (· ≠ "-r")) (fields (Text.decodeLossy line).toList)
  { s with input := rest.drop 1, status := if rest = [] then 1 else 0 }

/-- Sets the variables of `export`. -/
def exportAll (s : Shell) (settings : List String) : Shell :=
  settings.foldl
    (fun s setting =>
      match setting.toList.span (· ≠ '=') with
      | (name, _ :: value) => s.set (String.ofList name) (String.ofList value)
      | _ => s)
    { s with status := 0 }

/-- Runs a command that is the shell's own and asks nobody else. -/
def builtin? (s : Shell) (name : String) (arguments : List String) : Option Shell :=
  if name = "exit" then some (s.exit arguments)
  else if name = "kill" then some (s.kill arguments)
  else if name = "set" then some (s.setOptions arguments)
  else if name = "read" then some (s.readLine arguments)
  else if name = "export" ∨ name = "readonly" then some (s.exportAll arguments)
  else if name = "shift" then some { s with arguments := s.arguments.drop 1, status := 0 }
  else if name = "break" then some { s with flow := .leave, status := 0 }
  else if name = "continue" then some { s with flow := .again, status := 0 }
  else if name = "unset" then
    some { s with assigned := s.assigned.filter fun entry => entry.1 ∉ arguments, status := 0 }
  else if name ∈ [":", "true", "wait"] then some { s with status := 0 }
  else if name = "false" then some { s with status := 1 }
  else if name = "echo" then some (s.finish (Program.shellEcho arguments))
  else if name = "pwd" then
    some (s.finish (.success (Text.encode (s.directory.text ++ "\n"))))
  else none

end Shell

end BuildEngine
