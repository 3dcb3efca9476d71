import Flowfile.Diagnostic
import Flowfile.Settings
import Flowfile.Text.Integer
import Flowfile.Text.Line
import Flowfile.Tree.Build

/-!
Loading documents, also malformed ones.

Each syntax error is reported and the text is repaired: the line of the error is blanked, or the
text is cut off before it, until the rest can be composed. Repairs keep every offset.
-/

namespace Flowfile.Recovery

/-- How texts are composed. What is learned from a text is handed on to the next attempt. -/
abbrev Composer (σ : Type) := σ → Text → Except Yaml.Failure (Option Yaml.Graph) × σ

structure Attempt where
  source : Text
  /-- Starts of the lines that have been blanked. -/
  blanked : List Nat := []
  /-- Starts of the lines that have been reported. -/
  reported : List Nat := []
  diagnostics : List Diagnostic := []

/-- Where an error is put: at its position, or at the start of its construct if the line of its
position is blank. -/
def errorIndex (source : Text) (e : Yaml.Error) : Nat :=
  let index := min e.index source.length
  let line := source.slice (Text.lineStart source index) (Text.lineStop source index)
  match Text.allBlank line, e.contextAt with
  | true, some context => min context source.length
  | _, _ => index

def blankLine (source : Text) (start stop : Nat) : Text :=
  source.take start ++ List.replicate (stop - start) ' ' ++ source.drop stop

/-- The text without its last line that is not blank. -/
def dropLastLine (source : Text) : Text :=
  let kept := Text.stripRight source
  source.take (Text.lineStart kept kept.length)

def repair (r : Attempt) (e : Yaml.Error) (start stop : Nat) : Text :=
  let repaired :=
    if e.isAnotherDocument || r.blanked.contains start then r.source.take start
    else blankLine r.source start stop
  if repaired = r.source then dropLastLine r.source else repaired

def syntaxError (e : Yaml.Error) (index stop : Nat) : Diagnostic where
  code := "SYNTAX_ERROR"
  message := Text.of "Syntax error: " ++ e.problem.message
  start := index
  stop := max index stop

def Attempt.next (r : Attempt) (e : Yaml.Error) : Attempt :=
  let index := errorIndex r.source e
  let start := Text.lineStart r.source index
  let stop := Text.lineStop r.source index
  let isNew := !r.reported.contains start
  { source := repair r e start stop
    blanked :=
      if e.isAnotherDocument || r.blanked.contains start then r.blanked else start :: r.blanked
    reported := if isNew then start :: r.reported else r.reported
    diagnostics :=
      if isNew then r.diagnostics ++ [syntaxError e index stop] else r.diagnostics }

/-- Composes a text, with so many attempts after the first. What is more than can be handled is not
repaired. -/
def recover {σ : Type} (compose : Composer σ) :
    (attempts : Nat) → σ → Attempt →
      Except Yaml.Limitation (Option Yaml.Graph × List Diagnostic)
  | attempts, known, r =>
    match compose known r.source with
    | (.ok graph, _) => .ok (graph, r.diagnostics)
    | (.error (.beyond limitation), _) => .error limitation
    | (.error (.malformed e), known) =>
      match attempts with
      | 0 => .ok (none, (r.next e).diagnostics)
      | left + 1 => recover compose left known (r.next e)

def tooLarge (settings : Settings) (size : Nat) : Diagnostic where
  code := "DOCUMENT_TOO_LARGE"
  message := Text.of "Document exceeds maximum size (" ++ Text.grouped size ++ Text.of " chars > " ++
    Text.grouped settings.maxDocumentSize ++ Text.of " limit)"
  start := 0
  stop := size

def tooManyNodes (settings : Settings) (size : Nat) : Diagnostic where
  code := "MAX_NODES_EXCEEDED"
  message := Text.of "Document exceeds maximum node count (" ++ Text.grouped settings.maxNodeCount ++ [')']
  start := 0
  stop := size

def tooDeep (settings : Settings) (content : Text) (offset : Nat) : Diagnostic where
  code := "MAX_DEPTH_EXCEEDED"
  message := Text.of "Document nesting exceeds maximum depth (" ++
    Text.ofInt settings.maxDepth ++ [')']
  start := offset
  stop := Text.lineStop content offset

def build (settings : Settings) (content : Text) (graph : Option Yaml.Graph)
    (diagnostics : List Diagnostic) : Option Node × List Diagnostic :=
  match graph with
  | none => (none, diagnostics)
  | some graph =>
    let limits : Build.Limits := ⟨settings.maxDepth.toNat, settings.maxNodeCount.toNat⟩
    match Build.tree limits content graph with
    | none => (none, diagnostics ++ [tooManyNodes settings content.length])
    | some (root, s) =>
      match s.depthExceededAt with
      | some offset => (some root, diagnostics ++ [tooDeep settings content offset])
      | none => (some root, diagnostics)

def loadWith {σ : Type} (compose : Composer σ) (start : σ) (settings : Settings) (content : Text) :
    Except Yaml.Limitation (Option Node × List Diagnostic) :=
  if settings.maxDocumentSize < content.length then
    .ok (none, [tooLarge settings content.length])
  else if settings.maxRecoveryAttempts < 0 then .ok (none, [])
  else do
    let (graph, diagnostics) ←
      recover compose settings.maxRecoveryAttempts.toNat start { source := content }
    return build settings content graph diagnostics

def load (settings : Settings) (content : Text) :
    Except Yaml.Limitation (Option Node × List Diagnostic) :=
  loadWith Yaml.compose .current settings content

end Flowfile.Recovery
