import BuildEngine.Bindings
import BuildEngine.Environment
import BuildEngine.FileSystem.Basic
import BuildEngine.Path.Template
import BuildEngine.Toml.Fields

/-!
# Settings

What a user has settled for all builds, in a file that is written with the defaults the first
time it is looked for. Fields that the file leaves out have their defaults, and fields it has
beyond the known ones count for nothing.
-/

namespace BuildEngine

/-- The settings of a user. -/
structure Settings where
  /-- How many projects are built at once; zero stands for one for every processor. -/
  maxParallelism : Nat
  /-- How long a worker without work waits, in milliseconds. -/
  pollInterval : Nat
  /-- Properties that every project sees. -/
  properties : Bindings
  /-- The program that compiles. -/
  compiler : String
  /-- Its flags in front of all others. -/
  compilerFlags : List String
  /-- Whether projects are cached. -/
  isCacheEnabled : Bool
  /-- The template of the cache directory, if it is not the usual one. -/
  cacheFolder : Option String
deriving DecidableEq, Repr

/-- Why there are no settings. -/
inductive SettingsError where
  /-- The directory of the settings cannot be made. -/
  | folder (path : Path) (reason : SystemError)
  /-- The file cannot be read or written. -/
  | file (path : Path) (reason : FileError)
  /-- The file is no TOML, or not of the right shape. -/
  | malformed (path : Path) (reason : Toml.Error)
deriving DecidableEq, Repr

namespace SettingsError

/-- The message of a settings error. -/
def message : SettingsError → String
  | folder path reason =>
    "Could not create directory at '" ++ path.text ++ "': " ++ (FileError.system reason).message
  | file path reason => "I/O error on settings file '" ++ path.text ++ "': " ++ reason.message
  | malformed path reason => "Invalid settings file '" ++ path.text ++ "': " ++ reason.message

/-- The messages of the errors behind a settings error. -/
def causes : SettingsError → List String
  | folder _ reason => [(FileError.system reason).message]
  | file _ reason => [reason.message]
  | malformed _ reason => [reason.message]

end SettingsError

namespace Settings

/-- The settings of a user who has settled nothing. -/
def defaults : Settings :=
  { maxParallelism := 0
    pollInterval := 250
    properties := [("Configuration", "Debug"), ("Platform", "AnyCPU")]
    compiler := "csc"
    compilerFlags := ["/nologo"]
    isCacheEnabled := true
    cacheFolder := none }

/-- The file that is written the first time. -/
def initialText : String :=
  "max_parallelism = 0\npoll_interval_ms = 250\n\n[default_properties]\n" ++
  "Configuration = \"Debug\"\nPlatform = \"AnyCPU\"\n\n" ++
  "[compiler]\nexecutable = \"csc\"\ndefault_flags = [\"/nologo\"]\n\n" ++
  "[cache]\nenabled = true\n"

/-- Reads the fields of a settings file. -/
def ofEntries (entries : Toml.Entries) : Except Toml.Error Settings := do
  let maxParallelism ← Toml.Fields.count entries "max_parallelism" defaults.maxParallelism
  let pollInterval ← Toml.Fields.count entries "poll_interval_ms" defaults.pollInterval
  let properties ← match ← Toml.Fields.table? entries "default_properties" with
    | none => pure defaults.properties
    | some table => (Bindings.setAll []) <$> Toml.Fields.textPairs table
  let compiler ← Toml.Fields.record entries "compiler" ["executable", "default_flags"]
  let program := (← Toml.Fields.text? compiler "executable").getD defaults.compiler
  let flags := (← Toml.Fields.texts? compiler "default_flags").getD defaults.compilerFlags
  let cache ← Toml.Fields.record entries "cache" ["enabled", "directory"]
  let enabled ← Toml.Fields.flag cache "enabled" defaults.isCacheEnabled
  let folder ← Toml.Fields.text? cache "directory"
  return { maxParallelism, pollInterval, properties, compiler := program, compilerFlags := flags,
           isCacheEnabled := enabled, cacheFolder := folder }

/-- Reads a settings file. -/
def ofText (text : String) : Except Toml.Error Settings := do
  ofEntries (← Toml.parse text)

/-- How many projects are built at once on a machine with some processors. -/
def parallelism (s : Settings) (processors : Nat) : Nat :=
  if s.maxParallelism > 0 then s.maxParallelism else processors

/-- How long a worker without work waits, in milliseconds, which is never zero. -/
def waitingTime (s : Settings) : Nat :=
  max s.pollInterval 1

/-- The environment around all projects: the properties of the settings, and on top of them those
of a command line. -/
def globals (s : Settings) (overrides : List (String × String)) : Environment :=
  (s.properties ++ overrides).foldl (fun env p => env.setProperty p.1 p.2) .empty

/-- Reads the contents of a settings file at a path. -/
def ofBytes (path : Path) (bytes : Text.Bytes) : Except SettingsError Settings :=
  match Text.decode bytes with
  | .error _ => .error (.file path .noText)
  | .ok text => (ofText text).mapError (.malformed path)

/-- Loads the settings of a file, writing it if it is missing. -/
def load (disk : Disk) (path : Path) : Except SettingsError (Settings × Disk) :=
  if disk.isThere path then
    match disk.read path with
    | .error e => .error (.file path e)
    | .ok bytes => (ofBytes path bytes).map fun s => (s, disk)
  else
    match disk.write path (Text.encode initialText) with
    | .error e => .error (.file path e)
    | .ok disk => .ok (defaults, disk)

end Settings

namespace UserFolder

/-- The name of the program's directories. -/
def programName : String := "keel"

/-- A directory that a variable tells if it is absolute, and else one below the home directory. -/
def root (vars : Variables) (variableName below : String) : Path :=
  match vars.lookup variableName with
  | some text => if (Path.mk text).isAbsolute then ⟨text⟩ else (Path.mk (homeOf vars)).join ⟨below⟩
  | none => (Path.mk (homeOf vars)).join ⟨below⟩

/-- The directory of the settings. -/
def configuration (vars : Variables) : Path :=
  (root vars "XDG_CONFIG_HOME" ".config").join ⟨programName⟩

/-- The settings file. -/
def settingsFile (vars : Variables) : Path :=
  (configuration vars).join ⟨"settings.toml"⟩

/-- The directory of cached projects, in the directory of a template if there is one. -/
def projectCache (vars : Variables) (template : Option String) : Except TemplateError Path :=
  match template with
  | some t => (Template.expand vars t).map fun p => p.join ⟨"projects"⟩
  | none =>
    .ok (((root vars "XDG_CACHE_HOME" ".cache").join ⟨programName⟩).join ⟨"projects"⟩)

/-- Loads the settings of a user, making their directory if it is missing. -/
def loadSettings (vars : Variables) (disk : Disk) : Except SettingsError (Settings × Disk) :=
  let folder := configuration vars
  if disk.isThere folder then Settings.load disk (settingsFile vars)
  else
    match disk.makeFolders folder (folder.components.length + 1) with
    | .error e => .error (.folder folder e)
    | .ok disk => Settings.load disk (settingsFile vars)

end UserFolder

namespace Settings

/-- The directory of the project cache, unless projects are not cached or it cannot be found. -/
def cacheDirectory? (s : Settings) (vars : Variables) (noCache : Bool) : Option Path :=
  if noCache || !s.isCacheEnabled then none
  else (UserFolder.projectCache vars s.cacheFolder).toOption

end Settings

end BuildEngine
