import Flowfile.Text.Printable

/-!
Comments of a YAML text, and how they are kept at tokens.

A comment stands before a token or after it. Tokens that only mark structure hand their comments on
to the token that follows, which works as long as that has none of its own in the same place.
-/

namespace Flowfile.Yaml

/-- A comment, or a run of empty lines, with the place where it starts. -/
structure Comment where
  text : Text
  line : Nat
  column : Nat
  deriving DecidableEq

def Comment.indented (comment : Comment) : Text :=
  List.replicate comment.column ' ' ++ comment.text

def Comment.followedBy (comment : Comment) (others : List Comment) : Comment :=
  { comment with text := comment.text ++ others.flatMap Comment.indented }

inductive Lead
  | comments (list : List Comment)
  | header (text : Text)
  deriving DecidableEq

structure Comments where
  after : Option Comment := none
  before : Option Lead := none
  /-- The comment that followed a colon whose value starts on a later line; none unless the comments
  were handed on from such a colon. -/
  colon : Option (Option Comment) := none
  deriving DecidableEq

namespace Comments

def overlap (moved present : Comments) : Bool :=
  (moved.after.isSome && present.after.isSome) || (moved.before.isSome && present.before.isSome)

def merge (moved present : Comments) : Comments :=
  { present with
    after := moved.after.or present.after
    before := moved.before.or present.before }

def ofColon (comments : Comments) : Comments := { comments with colon := some comments.after }

end Comments

/-! ### How comments are shown -/

def Comment.shown (comment : Comment) : Text :=
  Text.of "CommentToken(" ++ comment.text.quotedText ++ Text.of ", line: " ++
    Text.ofNat comment.line ++ Text.of ", col: " ++ Text.ofNat comment.column ++ [')']

def inBrackets (parts : List Text) : Text := '[' :: Text.joinWith [',', ' '] parts ++ [']']

def Lead.shown : Lead → Text
  | .comments list => inBrackets (list.map Comment.shown)
  | .header text => inBrackets [text.quotedText]

def Comments.shown (comments : Comments) : Text :=
  let part (comment : Option Comment) : Text := (comment.map Comment.shown).getD (Text.of "None")
  let none := Text.of "None"
  let two := [part comments.after, (comments.before.map Lead.shown).getD none]
  match comments.colon with
  | some colon => inBrackets (two ++ [none, none, part colon])
  | _ => inBrackets two

end Flowfile.Yaml
