/-!
Versions of the YAML format. A text may name the version it is written in.
-/

namespace Flowfile.Yaml

structure Version where
  major : Nat
  minor : Nat
  deriving DecidableEq

namespace Version

def current : Version := ⟨1, 2⟩

def old : Version := ⟨1, 1⟩

def isModern (version : Version) : Bool :=
  1 < version.major || (version.major = 1 && 1 < version.minor)

def isKnown (version : Version) : Bool := version = old || version = current

end Version

end Flowfile.Yaml
