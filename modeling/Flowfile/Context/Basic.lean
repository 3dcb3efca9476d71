import Flowfile.Expr.Template
import Flowfile.Path
import Flowfile.Text.Glob

/-!
Contexts: what an expression at some place of a workflow can refer to, and which further values the
schema accepts there.
-/

namespace Flowfile

structure Context where
  resolve : Resolver
  suggest : Text → Option (List Text)

abbrev ContextSource := (workflow : Value) → Path → Context

/-- The segments of a dotted path; an empty path has none. -/
def pathSegments (path : Text) : List Text := if path.isEmpty then [] else Text.splitOn '.' path

/-- A context with fixed values. Suggestions belong to a path or to a wildcard pattern of paths;
the path itself goes first. -/
def Context.fixed (values : Value) (suggestions : List (Text × List Text)) : Context where
  resolve path := .ok (values.located.lookup (pathSegments path))
  suggest path :=
    match suggestions.lookup path with
    | some names => some names
    | none => (suggestions.find? (fun entry => Glob.accepts entry.1 path)).map (·.2)

def ContextSource.fixed (values : Value) (suggestions : List (Text × List Text)) : ContextSource :=
  fun _ _ => .fixed values suggestions

end Flowfile
