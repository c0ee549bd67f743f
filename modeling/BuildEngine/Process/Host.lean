import BuildEngine.Process.Runner
import BuildEngine.Process.Shell

/-!
# Hosts

A host is a small machine that can run commands (`Runner.ofHost`). It has directories with programs
in them. The programs neither read nor change files of a build, though they may ask which files are
there, so what a command does depends on its words, on the directory it runs in and on the names of
files. A program is found the way the system finds it: by its place if its name has a `/`, and
otherwise in the directories of the search path.

A shell runs the commands of a script one after the other. A script may go on without end, so every
call spends fuel, and a command that has used up its fuel is killed.
-/

namespace BuildEngine

/-- A machine that runs programs. -/
structure Host where
  /-- Its directories and files. -/
  disk : Disk
  /-- The directories that programs are looked for in. -/
  searchPath : List Path
deriving Repr

namespace Host

/-- The names of the programs that hosts have. -/
def programs : List String :=
  ["sh", "echo", "printf", "pwd", "true", "false", "cat", "head", "tail", "tr", "wc", "seq", "test",
    "[", "sleep"]

/-- The directories of programs. -/
def programFolders : List (List String) :=
  [["bin"], ["usr", "bin"]]

/-- The disk of a host with the usual directories. -/
def standardDisk : Disk :=
  let folders := [["bin"], ["dev"], ["etc"], ["home"], ["root"], ["sbin"], ["tmp"], ["usr"],
    ["usr", "bin"], ["usr", "lib"], ["usr", "local"], ["usr", "local", "bin"], ["usr", "sbin"],
    ["var"], ["var", "tmp"]]
  let files := [["dev", "null"], ["dev", "zero"], ["etc", "hostname"], ["etc", "passwd"]] ++
    programFolders.flatMap fun folder => programs.map fun name => folder ++ [name]
  let disk := folders.foldl (fun d place => d.put place .folder) (Disk.empty ⟨"/"⟩)
  { files.foldl (fun d place => d.put place (.file [])) disk with clock := 0 }

/-- A host with the usual directories and programs. -/
def standard : Host :=
  ⟨standardDisk, [⟨"/usr/local/sbin"⟩, ⟨"/usr/local/bin"⟩, ⟨"/usr/sbin"⟩, ⟨"/usr/bin"⟩,
    ⟨"/sbin"⟩, ⟨"/bin"⟩]⟩

/-- The host that a build with these files runs its commands on: a build on a disk sees that
disk. -/
def beneath (h : Host) : FileSystem → Host
  | .disk files => { h with disk := files }
  | .memory _ => h

/-- Whether a program with this name is in one of the directories, or at its own place if the name
is an absolute path. -/
def hasExecutable (disk : Disk) (folders : List Path) (name : String) : Bool :=
  if (Path.mk name).isAbsolute then disk.isFile ⟨name⟩
  else folders.any fun folder => disk.isFile (folder.join ⟨name⟩)

/-- The program that is at a place of the disk. -/
def programAt (h : Host) (p : Path) : Except SystemError String := do
  let place ← h.disk.place p
  match h.disk.node? place with
  | none => .error .notFound
  | some (.folder _) => .error .permissionDenied
  | some (.file ..) =>
    match place.getLast? with
    | some name =>
      if place.dropLast ∈ programFolders ∧ name ∈ programs then .ok name
      else .error .permissionDenied
    | none => .error .permissionDenied

/-- The program of a name, as seen from a directory. -/
def findProgram (h : Host) (directory : Path) (name : String) : Except SystemError String :=
  if name.toList.contains '/' then h.programAt (directory.join ⟨name⟩)
  else
    match h.searchPath.findSome? fun folder => (h.programAt (folder.join ⟨name⟩)).toOption with
    | some program => if name = "" then .error .notFound else .ok program
    | none => .error .notFound

/-- The full path of a directory, if it is one. -/
def folderAt (h : Host) (p : Path) : Except SystemError Path := do
  let place ← h.disk.place p
  match h.disk.node? place with
  | some (.folder _) => .ok ⟨"/" ++ String.intercalate "/" place⟩
  | some (.file ..) => .error .notADirectory
  | none => .error .notFound

/-- Whether a file is a directory, as seen from a directory, if it is there. -/
def kindAt (h : Host) (directory : Path) (name : String) : Option Bool := do
  let place ← (h.disk.place (directory.join ⟨name⟩)).toOption
  match ← h.disk.node? place with
  | .folder _ => some true
  | .file .. => some false

/-- The programs that read their standard input to its end. -/
def readers : List String :=
  ["cat", "head", "sh", "tail", "tr", "wc"]

/-- Moves a shell to another directory. -/
def changeDirectory (h : Host) (s : Shell) (name : String) : Shell :=
  match h.folderAt (s.directory.join ⟨name⟩) with
  | .ok directory => { s with directory, status := 0 }
  | .error _ => s.complain 2 ("cd: can't cd to " ++ name)

/-- Runs a program other than a shell. -/
def runTool (h : Host) (directory : Path) (program : String) (arguments : List String)
    (input : Text.Bytes) : Finished :=
  if program = "echo" then Program.echo arguments
  else if program = "printf" then Program.printf arguments
  else if program = "pwd" then .success (Text.encode (directory.text ++ "\n"))
  else if program = "true" ∨ program = "sleep" then .silent 0
  else if program = "false" then .silent 1
  else if program = "cat" then Program.cat arguments input
  else if program = "head" then Program.ends "head" true arguments input
  else if program = "tail" then Program.ends "tail" false arguments input
  else if program = "tr" then Program.tr arguments input
  else if program = "wc" then Program.wc arguments input
  else if program = "seq" then Program.seq arguments
  else
    Program.test (h.kindAt directory)
      (if program = "[" then arguments.dropLast else arguments)

/-- What the arguments of a shell ask for: whether failures end it, the script, unless the script
is read from the standard input, and the arguments of the script. -/
def shellArguments (strict : Bool) :
    List String → Except String (Bool × Option String × List String)
  | "-e" :: rest => shellArguments true rest
  | "-c" :: script :: rest => .ok (strict, some script, rest)
  | "-ec" :: script :: rest => .ok (true, some script, rest)
  | "-c" :: [] | "-ec" :: [] => .error "sh: 0: -c requires an argument"
  | [] => .ok (strict, none, [])
  | file :: _ => .error ("sh: 0: cannot open " ++ file ++ ": No such file")

mutual

/-- Runs a program that was found. A call in here spends one unit of `fuel`, and a program that
has no more is killed. -/
def runProgram (h : Host) (fuel : Nat) (directory : Path) (program : String)
    (arguments : List String) (input : Text.Bytes) : Finished :=
  match fuel with
  | 0 => .silent (-9)
  | fuel + 1 =>
    if program = "sh" then
      match shellArguments false arguments with
      | .error message => .failure 2 message
      | .ok (strict, script, rest) =>
        let s := Shell.start (rest.head?.getD "sh") rest.tail directory input
        h.runText fuel { s with strict, input := if script.isSome then input else [] }
          (script.getD (Text.decodeLossy input))
    else h.runTool directory program arguments input

/-- Runs a text in a shell. -/
def runText (h : Host) (fuel : Nat) (s : Shell) (text : String) : Finished :=
  match fuel with
  | 0 => .silent (-9)
  | fuel + 1 =>
    match Script.parse text with
    | .error e => (s.complain 2 e.message).finished
    | .ok script => (h.runScript fuel false s script).finished

/-- Runs a script in a shell. The status of a command that is `tested` is asked for, so that its
failure does not end the shell. -/
def runScript (h : Host) (fuel : Nat) (tested : Bool) (s : Shell) (script : Script) : Shell :=
  match fuel with
  | 0 => s.stop (-9)
  | fuel + 1 =>
    if s.flow ≠ .next then s
    else
      match script with
      | .nothing => { s with status := 0 }
      | .command words redirections =>
        let s := h.runCommand fuel s words redirections
        if s.strict && !tested && s.status ≠ 0 && s.flow = .next then s.stop s.status else s
      | .pipe first second =>
        -- What the first one complains of is not piped, and is written before the second one runs.
        let left := (h.runScript fuel true (s.child s.input) first).finished
        let s := s.write s.err left.diagnostics
        let right := h.runScript fuel tested { s with input := left.standard } second
        { s.takeChild right with input := [] }
      | .sequence first second =>
        h.runScript fuel tested (h.runScript fuel tested s first) second
      | .onSuccess first second =>
        let s := h.runScript fuel true s first
        if s.status = 0 then h.runScript fuel tested s second else s
      | .onFailure first second =>
        let s := h.runScript fuel true s first
        if s.status = 0 then s else h.runScript fuel tested s second
      | .negation body =>
        let s := h.runScript fuel true s body
        { s with status := if s.status = 0 then 1 else 0 }
      | .branch condition yes no =>
        let s := h.runScript fuel true s condition
        h.runScript fuel tested s (if s.status = 0 then yes else no)
      | .loop untilSuccess condition body =>
        h.runLoop fuel tested untilSuccess condition body { s with status := 0 }
      | .forEach name words body =>
        let output := h.outputOf fuel s
        let s := (words.flatMap (s.expand output)).foldl
          (fun s value =>
            if s.flow = .next then (h.runScript fuel tested (s.set name value) body).endRound
            else s)
          { s with status := 0 }
        s.endLoop
      | .subshell body =>
        let child := h.runScript fuel tested s body
        { s.takeChild child with input := child.input }
      | .redirected body redirections =>
        match s.redirect (h.outputOf fuel s) redirections with
        | .error message => s.complain 2 message
        | .ok inner => (h.runScript fuel tested inner body).restore s redirections

/-- Runs the rounds of a loop. -/
def runLoop (h : Host) (fuel : Nat) (tested untilSuccess : Bool) (condition body : Script)
    (s : Shell) : Shell :=
  match fuel with
  | 0 => s.stop (-9)
  | fuel + 1 =>
    let checked := h.runScript fuel true s condition
    if checked.flow ≠ .next then checked.endLoop
    -- The status of a loop is that of its last round, not that of its condition.
    else if (checked.status = 0) = untilSuccess then { checked with status := s.status }
    else
      let s := (h.runScript fuel tested checked body).endRound
      if s.flow ≠ .next then s.endLoop
      else h.runLoop fuel tested untilSuccess condition body s

/-- What a script in a word writes. -/
def outputOf (h : Host) (fuel : Nat) (s : Shell) (script : List Char) : String :=
  match fuel with
  | 0 => ""
  | fuel + 1 => Shell.outputText (h.runText fuel (s.child s.input) (String.ofList script))

/-- Runs a command of a script. -/
def runCommand (h : Host) (fuel : Nat) (s : Shell) (words : List Script.Word)
    (redirections : List Script.Redirection) : Shell :=
  match fuel with
  | 0 => s.stop (-9)
  | fuel + 1 =>
    let output := h.outputOf fuel s
    let (assigned, words) := s.assign output words
    match s.redirect output redirections with
    | .error message => s.complain 2 message
    | .ok inner =>
      match words.flatMap (s.expand output) with
      -- Settings in front of a command would be for that command only; alone they stay.
      | [] => { assigned with status := 0 }
      | "exec" :: name :: arguments =>
        let s := h.runNamed fuel inner name arguments
        (s.restore inner redirections).stop s.status
      | name :: arguments => (h.runNamed fuel inner name arguments).restore s redirections

/-- Runs a command with a name. -/
def runNamed (h : Host) (fuel : Nat) (s : Shell) (name : String) (arguments : List String) :
    Shell :=
  match fuel with
  | 0 => s.stop (-9)
  | fuel + 1 =>
    match s.builtin? name arguments with
    | some s => s
    | none =>
      if name = "cd" then h.changeDirectory s (arguments.head?.getD "")
      else
        match h.findProgram s.directory name with
        | .ok program =>
          let f := h.runProgram fuel s.directory program arguments s.input
          (if program ∈ readers then { s with input := [] } else s).finish f
        | .error .permissionDenied => s.complain 126 (name ++ ": Permission denied")
        | .error _ => s.complain 127 (name ++ ": not found")

end

/-- How many calls a command may use before it is killed. -/
def patience : Nat := 1000000

/-- Starts a command and waits for its end. -/
def spawn (h : Host) (c : Command) : Except SpawnError Finished :=
  if (c.directory.text :: c.words).any fun word => word.toList.contains '\x00' then
    .error .interiorNul
  else
    match h.folderAt c.directory with
    | .error e => .error (.system e)
    | .ok directory =>
      match h.findProgram directory c.program with
      | .error e => .error (.system e)
      | .ok program => .ok (h.runProgram patience directory program c.arguments [])

end Host

/-- The runner that a host is. Its programs have ended when they are looked at for the first time,
and leave the workspace as it was. -/
def Runner.ofHost (h : Host) : Runner where
  start c w :=
    match (h.beneath w.files).spawn c with
    | .error e => .refused e w
    | .ok f => .ended (if f.code < 0 then none else some f.code) f.standard f.diagnostics w

/-- The runner that the usual host is. -/
def Runner.standard : Runner :=
  .ofHost .standard

/-- Runs what a command line spells on a host, apart from a build. -/
def Host.runLine (h : Host) (cancelled : Bool) (line : String) (directory : Path) :
    Except ProcessError ProcessOutput :=
  ((Runner.ofHost h).runLine line directory ⟨.memory (.empty directory []), cancelled, []⟩).1

end BuildEngine
