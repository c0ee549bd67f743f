import BuildEngine.Process.Script.Basic

/-!
# Parsing of scripts

The tokens of a script are read from the front. A keyword is only one where a command may begin;
elsewhere it is a word like others.
-/

namespace BuildEngine.Script

/-- Why a script cannot be run. -/
inductive SyntaxError where
  | openQuotation
  /-- A token that cannot stand where it is, and the keyword that would have to stand there. -/
  | unexpected (token : String) (expected : Option String)
deriving DecidableEq, Repr

/-- The message of a syntax error. -/
def SyntaxError.message : SyntaxError → String
  | openQuotation => "Syntax error: Unterminated quoted string"
  | unexpected token none => "Syntax error: " ++ token ++ " unexpected"
  | unexpected token (some keyword) =>
    "Syntax error: " ++ token ++ " unexpected (expecting \"" ++ keyword ++ "\")"

/-- The words that are keywords where a command may begin. -/
def keywords : List String :=
  ["!", "\x7B", "\x7D", "do", "done", "elif", "else", "fi", "for", "if", "then", "until", "while"]

/-- The keywords that end a list of commands. -/
def closers : List String :=
  ["\x7D", "do", "done", "elif", "else", "fi", "then"]

/-- The text of a word that is nothing but text. -/
def Word.literal? (w : Word) : Option String :=
  match w.parts, w.quoted with
  | [.text cs], false => some (String.ofList cs)
  | _, _ => none

/-- The keyword that a word is where a command may begin. -/
def Word.keyword? (w : Word) : Option String :=
  w.literal?.filter keywords.contains

/-- What an error calls a token. -/
def Token.name : Token → String
  | .word w =>
    match w.keyword? with
    | some keyword => "\"" ++ keyword ++ "\""
    | none => "word"
  | .operator ['\n'] => "newline"
  | .operator text => "\"" ++ String.ofList text ++ "\""
  | .redirect .. => "redirection"

/-- The error about the token in front. -/
def errorAt (tokens : List Token) (expected : Option String) : SyntaxError :=
  .unexpected ((tokens.head?.map Token.name).getD "end of file") expected

/-- The tokens behind line feeds. -/
def skipLines (tokens : List Token) : List Token :=
  tokens.dropWhile fun t => t = .operator ['\n']

/-- Whether a list of commands ends in front of the tokens. -/
def endsList : List Token → Bool
  | [] | .operator [')'] :: _ => true
  | .word w :: _ => (w.keyword?.map closers.contains).getD false
  | _ => false

/-- The tokens behind a keyword. -/
def expect (keyword : String) : List Token → Except SyntaxError (List Token)
  | .word w :: rest =>
    if w.keyword? = some keyword then .ok rest
    else .error (errorAt (.word w :: rest) (some keyword))
  | tokens => .error (errorAt tokens (some keyword))

/-- The words and the redirections in front, and the tokens behind them. -/
def takeWords : List Token → Except SyntaxError (List Word × List Redirection × List Token)
  | .word w :: rest => do
    let (words, redirections, rest) ← takeWords rest
    return (w :: words, redirections, rest)
  | .redirect stream text :: .word w :: rest => do
    let (words, redirections, rest) ← takeWords rest
    return (words, ⟨stream, .of text w⟩ :: redirections, rest)
  | .redirect .. :: rest => .error (errorAt rest none)
  | rest => .ok ([], [], rest)

/-- The redirections in front, and the tokens behind them. -/
def takeRedirections : List Token → Except SyntaxError (List Redirection × List Token)
  | .redirect stream text :: .word w :: rest => do
    let (redirections, rest) ← takeRedirections rest
    return (⟨stream, .of text w⟩ :: redirections, rest)
  | .redirect .. :: rest => .error (errorAt rest none)
  | rest => .ok ([], rest)

/-- The words that a `for` goes through, up to the end of its line. -/
def takeValues : List Token → List Word × List Token
  | .word w :: rest =>
    let (words, rest) := takeValues rest
    (w :: words, rest)
  | .operator [';'] :: rest => ([], skipLines rest)
  | rest => ([], skipLines rest)

/-- A compound command with the redirections behind it. -/
def withRedirections (body : Script) (tokens : List Token) :
    Except SyntaxError (Script × List Token) := do
  let (redirections, rest) ← takeRedirections tokens
  return (if redirections = [] then body else .redirected body redirections, rest)

mutual

/-- The commands in front up to what cannot begin a command, and the tokens behind them. Every
function here spends one unit of `fuel` for each call inside it. -/
def takeList : (fuel : Nat) → List Token → Except SyntaxError (Script × List Token)
  | 0, tokens => .error (errorAt tokens none)
  | fuel + 1, tokens => do
    let (first, rest) ← takePipeline fuel (skipLines tokens)
    takeChain fuel first rest

/-- Goes on behind a pipeline or a chain of them. -/
def takeChain : (fuel : Nat) → Script → List Token → Except SyntaxError (Script × List Token)
  | 0, _, tokens => .error (errorAt tokens none)
  | fuel + 1, first, .operator text :: rest =>
    if text = ['&', '&'] then do
      let (second, rest) ← takePipeline fuel (skipLines rest)
      takeChain fuel (.onSuccess first second) rest
    else if text = ['|', '|'] then do
      let (second, rest) ← takePipeline fuel (skipLines rest)
      takeChain fuel (.onFailure first second) rest
    else if text = [';'] ∨ text = ['&'] ∨ text = ['\n'] then
      if endsList (skipLines rest) then .ok (first, skipLines rest)
      else do
        let (second, rest) ← takeList fuel rest
        return (.sequence first second, rest)
    else .ok (first, .operator text :: rest)
  | _ + 1, first, rest => .ok (first, rest)

/-- The commands in front that are joined by `|`. -/
def takePipeline : (fuel : Nat) → List Token → Except SyntaxError (Script × List Token)
  | 0, tokens => .error (errorAt tokens none)
  | fuel + 1, tokens =>
    match expect "!" tokens with
    | .ok rest => do
      let (body, rest) ← takePipeline fuel rest
      return (.negation body, rest)
    | .error _ => do
      let (first, rest) ← takeCommand fuel tokens
      match rest with
      | .operator ['|'] :: rest =>
        let (second, rest) ← takePipeline fuel (skipLines rest)
        return (.pipe first second, rest)
      | rest => return (first, rest)

/-- The command in front. -/
def takeCommand : (fuel : Nat) → List Token → Except SyntaxError (Script × List Token)
  | 0, tokens => .error (errorAt tokens none)
  | fuel + 1, .operator ['('] :: rest => do
    let (body, rest) ← takeList fuel rest
    match rest with
    | .operator [')'] :: rest => withRedirections (.subshell body) rest
    | rest => .error (errorAt rest (some ")"))
  | fuel + 1, .word w :: rest =>
    match w.keyword? with
    | none => do
      let (words, redirections, rest) ← takeWords (.word w :: rest)
      return (.command words redirections, rest)
    | some keyword =>
      if keyword = "\x7B" then do
        let (body, rest) ← takeList fuel rest
        withRedirections body (← expect "\x7D" rest)
      else if keyword = "if" then do
        let (body, rest) ← takeBranch fuel rest
        withRedirections body rest
      else if keyword = "while" ∨ keyword = "until" then do
        let (condition, rest) ← takeList fuel rest
        let (body, rest) ← takeList fuel (← expect "do" rest)
        withRedirections (.loop (keyword = "until") condition body) (← expect "done" rest)
      else if keyword = "for" then
        match rest with
        | .word name :: .word i :: rest =>
          if i.literal? = some "in" then do
            let (values, rest) := takeValues rest
            let (body, rest) ← takeList fuel (← expect "do" rest)
            withRedirections (.forEach (name.literal?.getD "") values body) (← expect "done" rest)
          else .error (errorAt (.word i :: rest) none)
        | rest => .error (errorAt (rest.drop 1) none)
      else .error (errorAt (.word w :: rest) none)
  | _ + 1, .redirect stream text :: rest => do
    let (words, redirections, rest) ← takeWords (.redirect stream text :: rest)
    return (.command words redirections, rest)
  | _ + 1, tokens => .error (errorAt tokens none)

/-- What stands behind `if` and `elif`, up to `fi`. -/
def takeBranch : (fuel : Nat) → List Token → Except SyntaxError (Script × List Token)
  | 0, tokens => .error (errorAt tokens none)
  | fuel + 1, tokens => do
    let (condition, rest) ← takeList fuel tokens
    let (yes, rest) ← takeList fuel (← expect "then" rest)
    match expect "elif" rest, expect "else" rest with
    | .ok rest, _ =>
      let (no, rest) ← takeBranch fuel rest
      return (.branch condition yes no, rest)
    | _, .ok rest =>
      let (no, rest) ← takeList fuel rest
      return (.branch condition yes no, ← expect "fi" rest)
    | _, _ => return (.branch condition yes .nothing, ← expect "fi" rest)

end

/-- The script that a text spells. A token needs fewer than four calls of the functions above. -/
def parse (text : String) : Except SyntaxError Script :=
  match (tokens? text).map skipLines with
  | none => .error .openQuotation
  | some [] => .ok .nothing
  | some tokens => do
    let (script, rest) ← takeList (4 * tokens.length + 4) tokens
    if rest = [] then return script else throw (errorAt rest none)

end BuildEngine.Script
