import Flowfile.Number.Basic
import Flowfile.Text.Utf8
import Flowfile.Yaml.Comment
import Flowfile.Yaml.Cursor

/-!
What can be wrong with a YAML text, and what in a text is more than can be handled.
-/

namespace Flowfile.Yaml

inductive Problem
  | unacceptableCharacter (c : Char)
  | expectedColon
  | entriesNotAllowed
  | keysNotAllowed
  | valuesNotAllowed
  | cannotStartToken (c : Char)
  | expectedName (found : Char)
  | expectedDigit (found : Char)
  | expectedDigitOrPoint (found : Char)
  | expectedAngle (found : Char)
  | expectedSpace (found : Char)
  | expectedBang (found : Char)
  | expectedClosingBang (found : Char)
  | expectedUri (found : Char)
  | expectedUriEscape (found : Char)
  | invalidUriEscape (fault : Text.Utf8.Fault)
  | unknownEscape (found : Char)
  | expectedEscape (digits : Nat) (found : Char)
  | unexpectedEnd
  | unexpectedSeparator
  | zeroIndentation
  | expectedBlockIndicator (found : Char)
  | expectedCommentOrBreak (found : Char)
  | deeperBlankLine
  | expectedDocumentStart (found : Text)
  | contentAfterDocument (found : Text)
  | expectedContent (found : Text)
  | expectedBlockEnd (found : Text)
  | expectedCommaOrBracket (found : Text)
  | expectedCommaOrBrace (found : Text)
  | undefinedHandle (handle : Text)
  | duplicateHandle (handle : Text)
  | duplicateVersion
  | incompatibleVersion
  | undefinedAlias (name : Text)
  | anotherDocument
  deriving DecidableEq

def Problem.message : Problem → Text
  | .unacceptableCharacter c =>
    Text.of "unacceptable character #x" ++ Text.hexPadded 4 c.toNat ++
      Text.of ": special characters are not allowed"
  | .expectedColon => Text.of "could not find expected ':'"
  | .entriesNotAllowed => Text.of "sequence entries are not allowed here"
  | .keysNotAllowed => Text.of "mapping keys are not allowed here"
  | .valuesNotAllowed => Text.of "mapping values are not allowed here"
  | .cannotStartToken c =>
    Text.of "found character " ++ Text.quoted c ++ Text.of " that cannot start any token"
  | .expectedName c =>
    Text.of "expected alphabetic or numeric character, but found " ++ Text.quoted c
  | .expectedDigit c => Text.of "expected a digit, but found " ++ Text.quoted c
  | .expectedDigitOrPoint c => Text.of "expected a digit or '.', but found " ++ Text.quoted c
  | .expectedAngle c => Text.of "expected '>' but found " ++ Text.quoted c
  | .expectedSpace c => Text.of "expected ' ', but found " ++ Text.quoted c
  | .expectedBang c => Text.of "expected '!', but found " ++ Text.quoted c
  | .expectedClosingBang c => Text.of "expected '!' but found " ++ Text.quoted c
  | .expectedUri c => Text.of "expected URI, but found " ++ Text.quoted c
  | .expectedUriEscape c =>
    Text.of "expected URI escape sequence of 2 hexdecimal numbers, but found " ++ Text.quoted c
  | .invalidUriEscape fault => fault.message
  | .unknownEscape c => Text.of "found unknown escape character " ++ Text.quoted c
  | .expectedEscape digits c =>
    Text.of "expected escape sequence of " ++ Text.ofNat digits ++
      Text.of " hexdecimal numbers, but found " ++ Text.quoted c
  | .unexpectedEnd => Text.of "found unexpected end of stream"
  | .unexpectedSeparator => Text.of "found unexpected document separator"
  | .zeroIndentation =>
    Text.of "expected indentation indicator in the range 1-9, but found 0"
  | .expectedBlockIndicator c =>
    Text.of "expected chomping or indentation indicators, but found " ++ Text.quoted c
  | .expectedCommentOrBreak c =>
    Text.of "expected a comment or a line break, but found " ++ Text.quoted c
  | .deeperBlankLine =>
    Text.of "more indented follow up line than first in a block scalar"
  | .expectedDocumentStart found =>
    Text.of "expected '<document start>', but found ('" ++ found ++ Text.of "',)"
  | .contentAfterDocument found =>
    Text.of "found non-comment content after document end marker, ('" ++ found ++ Text.of "',)"
  | .expectedContent found =>
    Text.of "expected the node content, but found '" ++ found ++ ['\'']
  | .expectedBlockEnd found => Text.of "expected <block end>, but found '" ++ found ++ ['\'']
  | .expectedCommaOrBracket found =>
    Text.of "expected ',' or ']', but got '" ++ found ++ ['\'']
  | .expectedCommaOrBrace found =>
    Text.of "expected ',' or '\x7d', but got '" ++ found ++ ['\'']
  | .undefinedHandle handle => Text.of "found undefined tag handle " ++ handle.quotedText
  | .duplicateHandle handle => Text.of "duplicate tag handle " ++ handle.quotedText
  | .duplicateVersion => Text.of "found duplicate YAML directive"
  | .incompatibleVersion =>
    Text.of "found incompatible YAML document (version 1.* is required)"
  | .undefinedAlias name => Text.of "found undefined alias " ++ name.quotedText
  | .anotherDocument => Text.of "but found another document"

structure Error where
  problem : Problem
  problemAt : Option Nat
  contextAt : Option Nat
  /-- Whether it was found while reading tokens, and not while putting them together. -/
  lexical : Bool
  deriving DecidableEq

namespace Error

/-- The position to report: errors of reading tokens belong to the construct that was begun. -/
def index (e : Error) : Nat :=
  let mark := if e.lexical then e.contextAt.or e.problemAt else e.problemAt.or e.contextAt
  mark.getD 0

def isAnotherDocument (e : Error) : Bool := e.problem = .anotherDocument

end Error

/-- What makes a text more than can be handled, although nothing need be wrong with it. -/
inductive Limitation
  | overlappingComments (moved present : Comments)
  | repeatedLead
  | unsupportedVersion
  /-- A plain scalar is met while such a version is in force. -/
  | unresolvedScalar
  /-- An escape stands for a number beyond the last character. -/
  | noSuchCharacter
  /-- An escape stands for a number of more than 31 bits. -/
  | characterOverflow
  | tooManyDigits (count : Nat)
  deriving DecidableEq

def Limitation.message? : Limitation → Option Text
  | .overlappingComments moved present =>
    some (Text.of "overlap in comment " ++ moved.shown ++ ' ' :: present.shown)
  | .noSuchCharacter => some (Text.of "chr() arg not in range(0x110000)")
  | .tooManyDigits count => some (tooManyDigitsMessage count)
  | .repeatedLead | .unsupportedVersion | .unresolvedScalar | .characterOverflow => none

inductive Failure
  | malformed (error : Error)
  | beyond (limitation : Limitation)
  deriving DecidableEq

namespace Failure

def scanning (problem : Problem) (context : Option Mark) (here : Cursor) : Failure :=
  .malformed ⟨problem, some here.index, context.map Mark.index, true⟩

def grammar (problem : Problem) (context : Option Mark) (here : Mark) : Failure :=
  .malformed ⟨problem, some here.index, context.map Mark.index, false⟩

end Failure

end Flowfile.Yaml
