import BuildEngine.Build.Agenda

/-!
# Building targets

What is asked for is a list of target names, written as expressions. Without any, the default
targets of the project are built, and without those its first target.
-/

namespace BuildEngine.Site

/-- The names that texts ask for. -/
def requestedNames (site : Site) (s : Session) : List String → Built (List String)
  | [] => (s, .ok [])
  | text :: rest =>
    match Expr.ofValueText text with
    | .error e =>
      let e := BuildError.targetList text e
      (site.complain s e.message, .error e)
    | .ok list =>
      site.require s ("Target list '" ++ text ++ "'") (list.evaluateEntries (site.context s))
        fun names =>
          match requestedNames site s rest with
          | (s, .ok more) => (s, .ok (names ++ more))
          | (s, .error e) => (s, .error e)

/-- The name of the first target, if there is one. -/
def firstName (p : Project) : List String :=
  (p.targets.head?.map Target.name).toList

/-- The names of the targets that are built when none is asked for. -/
def defaultNames (site : Site) (s : Session) : Built (List String) :=
  match site.project.defaultTargets with
  | none => (s, .ok (firstName site.project))
  | some list =>
    site.require s "default_targets" (list.evaluateEntries (site.context s)) fun names =>
      (s, .ok (if names = [] then firstName site.project else names))

/-- The names of the targets to build. -/
def targetNames (site : Site) (s : Session) (requested : List String) : Built (List String) :=
  if requested = [] then site.defaultNames s else site.requestedNames s requested

/-- Puts the targets of the names, the last of which is in front, before those that wait; names of
no target are warned of. -/
def enlist (site : Site) (s : Session) (pending : List site.project.TargetIndex) :
    List String → Session × List site.project.TargetIndex
  | [] => (s, pending)
  | name :: rest =>
    match site.project.findTarget? name with
    | some i => enlist site s (i :: pending) rest
    | none =>
      enlist site
        (site.warn s ("Target '" ++ name ++ "' does not exist in project '" ++
          site.project.name ++ "'.")) pending rest

/-- Builds what is asked for, going on from what has been built. -/
def build (site : Site) (s : Session) (pr : Progress site.project) (requested : List String) :
    Session × Progress site.project × Except BuildError Unit :=
  match site.targetNames s requested with
  | (s, .error e) => (s, pr, .error e)
  | (s, .ok names) =>
    let (s, pending) := site.enlist s [] names.reverse
    site.work s pr ⟨pending, []⟩

end BuildEngine.Site
