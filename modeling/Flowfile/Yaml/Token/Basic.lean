import Flowfile.Yaml.Error
import Flowfile.Yaml.Version

/-!
Tokens of YAML, and the state in which they are read.
-/

namespace Flowfile.Yaml

inductive Style
  | singleQuoted | doubleQuoted | literal | folded
  deriving DecidableEq

inductive Directive
  | version (version : Version)
  | tagHandle (handle : Text)
  | other
  deriving DecidableEq

inductive Token.Kind
  | streamStart | streamEnd
  | directive (directive : Directive)
  | documentStart | documentEnd
  | blockSequenceStart | blockMappingStart | blockEnd
  | flowSequenceStart | flowSequenceEnd | flowMappingStart | flowMappingEnd
  | key | value | blockEntry | flowEntry
  | alias (name : Text)
  | anchor (name : Text)
  /-- The bare tag `!` leaves the value to be found from the text. -/
  | tag (handle : Option Text) (bare : Bool)
  | scalar (value : Text) (style : Option Style)
  | comment (comment : Comment)
  deriving DecidableEq

structure Token where
  kind : Token.Kind
  start : Mark
  stop : Mark
  comments : Option Comments := none
  deriving DecidableEq

namespace Token

def name : Token.Kind → String
  | .streamStart => "<stream start>"
  | .streamEnd => "<stream end>"
  | .directive _ => "<directive>"
  | .documentStart => "<document start>"
  | .documentEnd => "<document end>"
  | .blockSequenceStart => "<block sequence start>"
  | .blockMappingStart => "<block mapping start>"
  | .blockEnd => "<block end>"
  | .flowSequenceStart => "["
  | .flowSequenceEnd => "]"
  | .flowMappingStart => "\x7b"
  | .flowMappingEnd => "\x7d"
  | .key => "?"
  | .value => ":"
  | .blockEntry => "-"
  | .flowEntry => ","
  | .alias _ => "<alias>"
  | .anchor _ => "<anchor>"
  | .tag _ _ => "<tag>"
  | .scalar _ _ => "<scalar>"
  | .comment _ => "<comment>"

def comment? (token : Token) : Option Comment :=
  match token.kind with
  | .comment comment => some comment
  | _ => none

def isScalar (token : Token) : Bool :=
  match token.kind with
  | .scalar _ _ => true
  | _ => false

/-- Whether a comment on its last line can belong to a token. -/
def takesComment (token : Token) : Bool :=
  token.isScalar || token.kind = .value || token.kind = .flowSequenceEnd ||
    token.kind = .flowMappingEnd

/-- Puts a comment after a token, in the place of the one it may have there. -/
def commentAfter (token : Token) (comment : Comment) : Token :=
  { token with comments := some { token.comments.getD {} with after := some comment } }

end Token

inductive Bracket
  | square | curly
  deriving DecidableEq

/-- A token that becomes a key if a colon follows it on its line. -/
structure SimpleKey where
  /-- Number of the token, counted from the first of the stream. -/
  token : Nat
  /-- Whether the block structure allows nothing but a key here. -/
  required : Bool
  mark : Mark

structure Scanner where
  cursor : Cursor
  done : Bool := false
  brackets : List Bracket := []
  tokens : List Token
  taken : Nat := 0
  indent : Int := -1
  indents : List Int := []
  keysAllowed : Bool := true
  /-- Possible keys, each with the number of brackets around it. -/
  simpleKeys : List (Nat × SimpleKey) := []
  base : Version
  named : Option Version := none

namespace Scanner

def ofText (base : Version) (text : Text) : Scanner :=
  let cursor := Cursor.ofText text
  { cursor := cursor, tokens := [⟨.streamStart, cursor.mark, cursor.mark, none⟩], base := base }

def version (s : Scanner) : Version := s.named.getD s.base

def inFlow (s : Scanner) : Bool := !s.brackets.isEmpty

def flowLevel (s : Scanner) : Nat := s.brackets.length

def push (s : Scanner) (token : Token) : Scanner := { s with tokens := s.tokens ++ [token] }

def pushSized (s : Scanner) (kind : Token.Kind) (size : Nat) : Scanner :=
  let after := s.cursor.forward size
  { s with cursor := after, tokens := s.tokens ++ [⟨kind, s.cursor.mark, after.mark, none⟩] }

def pushHere (s : Scanner) (kind : Token.Kind) : Scanner :=
  s.push ⟨kind, s.cursor.mark, s.cursor.mark, none⟩

end Scanner

end Flowfile.Yaml
