import Flowfile.Text.Basic

/-!
Problems found in a document.
-/

namespace Flowfile

inductive Severity
  | error | warning | info
  deriving DecidableEq

def Severity.name : Severity → String
  | .error => "error"
  | .warning => "warning"
  | .info => "info"

structure Diagnostic where
  severity : Severity := .error
  code : String
  message : Text
  start : Int
  stop : Int
  suggestions : List Text := []
  deriving DecidableEq

def Diagnostic.covers (d : Diagnostic) (start stop : Int) : Bool := d.start ≤ start && stop ≤ d.stop

end Flowfile
