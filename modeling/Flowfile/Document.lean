import Flowfile.Location
import Flowfile.Recovery
import Flowfile.Tree.Projection
import Flowfile.Validation

/-!
Documents: a text that has been loaded and validated.
-/

namespace Flowfile

structure Document where
  text : Text
  workflow : Value
  root : Option Node
  schema : Schema
  entries : NodeIndex
  /-- Problems with the syntax first, then with the schema, then with expressions. -/
  diagnostics : List Diagnostic

namespace Document

def workflowOf (root : Option Node) : Value :=
  match root with
  | some (.map info anchor flow pairs) => (Node.map info anchor flow pairs).toValue
  | _ => .record []

/-- What is found in a tree. Where loading gave up there is nothing to check. -/
def check (r : Resolution) (schema : Schema) (root : Option Node) (syntaxErrors : List Diagnostic) :
    Except Endless Findings :=
  if root.isNone && !syntaxErrors.isEmpty then .ok {} else validate r schema.root root

def ofTree (schema : Schema) (contexts : ContextSource) (text : Text) (root : Option Node)
    (syntaxErrors : List Diagnostic) : Except Endless Document := do
  let workflow := workflowOf root
  let findings ← check ⟨schema.definitions, workflow, contexts⟩ schema root syntaxErrors
  return {
    text, workflow, root, schema
    entries := findings.entries
    diagnostics := syntaxErrors ++ findings.diagnostics }

inductive Unread
  | composing (limitation : Yaml.Limitation)
  | validating (endless : Endless)

def read (settings : Settings) (schema : Schema) (contexts : ContextSource) (text : Text) :
    Except Unread Document := do
  let (root, syntaxErrors) ← (Recovery.load settings text).mapError Unread.composing
  (ofTree schema contexts text root syntaxErrors).mapError Unread.validating

def resolution (document : Document) (contexts : ContextSource) : Resolution :=
  ⟨document.schema.definitions, document.workflow, contexts⟩

def holds (document : Document) (offset : Int) : Bool :=
  0 ≤ offset && offset ≤ document.text.length

/-- The terminal description of a node: that of the index, or else the one that fits by the path. -/
def terminalAt (document : Document) (r : Resolution) (node : Option Node) (path : Path) :
    Except Endless (Option Terminal) :=
  match node.bind document.entries.get? with
  | some terminal => .ok (some terminal)
  | none => r.selectAt document.root document.schema.root path node

def fieldsAt (document : Document) (r : Resolution) (node : Option Node) (path : Path) :
    Except Endless (Option (Fields Desc)) :=
  match (node.bind document.entries.get?).bind Terminal.fields? with
  | some fields => .ok (some fields)
  | none =>
    (r.selectAt document.root document.schema.root path node).map fun terminal =>
      terminal.bind Terminal.fields?

end Document

end Flowfile
