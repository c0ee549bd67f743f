import BuildEngine.Process.Runner

/-!
# Compilers

A compiler is asked for one compilation at a time and may change the files of a build, or cancel
it, while it works. Usually it is a program that gets the request as arguments.
-/

namespace BuildEngine

/-- Why a compilation failed. -/
inductive CompileError where
  /-- The compiler did not run. -/
  | process (reason : ProcessError)
  /-- The compiler refused. -/
  | failed (exitCode : Int) (output : String)
deriving DecidableEq, Repr

/-- The message of a failed compilation. -/
def CompileError.message : CompileError → String
  | process reason => reason.message
  | failed exitCode _ => "Compiler exited with code " ++ toString exitCode ++ "."

/-- What compiles; it yields what the compiler wrote. -/
structure Compiler where
  /-- Answers a request. -/
  compile : CompileRequest → Workspace → Except CompileError String × Workspace

namespace CompileRequest

/-- The command for a compiler program with flags that come before all others. -/
def command (r : CompileRequest) (program : String) (firstFlags : List String) : Command :=
  { program
    directory := r.directory
    arguments :=
      firstFlags ++
      (r.targetType.toList.map fun t => "/target:" ++ t) ++
      ["/out:" ++ r.output.text] ++
      (if r.constants = [] then [] else ["/define:" ++ String.intercalate ";" r.constants]) ++
      (r.references.map fun p => "/reference:" ++ p.text) ++
      (r.resources.map fun p => "/resource:" ++ p.text) ++
      r.flags ++
      r.sources.map Path.text }

end CompileRequest

/-- How a compiler of a rehearsal answers. -/
structure Rehearsal where
  /-- Whether it finds the build cancelled. -/
  findsCancelled : Bool
  /-- Whether there is no compiler. -/
  isMissing : Bool
  /-- Whether it cancels the build. -/
  cancels : Bool
  /-- The exit code. -/
  exitCode : Int
  /-- Whether it writes the file it is asked for. -/
  writesOutput : Bool
  /-- What it writes to its output. -/
  output : String
deriving DecidableEq, Repr

namespace Compiler

/-- A compiler that is a program. -/
def ofProgram (runner : Runner) (program : String) (firstFlags : List String) : Compiler where
  compile r w :=
    match runner.run (r.command program firstFlags) w with
    | (.error e, w) => (.error (.process e), w)
    | (.ok o, w) =>
      let output := o.standard ++ o.diagnostics
      if o.isSuccess then (.ok output, w) else (.error (.failed o.exitCode output), w)

/-- The contents of the files that a rehearsing compiler writes. -/
def placeholder : Text.Bytes :=
  Text.encode "assembly"

/-- A compiler that only notes what it is asked for and answers as it was told. -/
def rehearsing (r : Rehearsal) : Compiler where
  compile request w :=
    let w := { w with requests := w.requests ++ [request] }
    if r.findsCancelled then (.error (.process .cancelled), w)
    else if r.isMissing then (.error (.process .noCommand), w)
    else
      let w := { w with cancelled := w.cancelled || r.cancels }
      if r.exitCode ≠ 0 then (.error (.failed r.exitCode r.output), w)
      else if r.writesOutput then
        match w.files.write request.output placeholder with
        | .ok files => (.ok r.output, { w with files })
        | .error _ => (.ok r.output, w)
      else (.ok r.output, w)

end Compiler

end BuildEngine
