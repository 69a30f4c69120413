import HueSaturation.Control.Basic

/-!
# Versions

A saved edit records the version it was made with. A version pins which controls exist and how they
are ordered, so that an old edit stays what it was when later versions add controls.

* `Version`             the versions, oldest first in `Version.all`;
* `Version.controls`    the controls of a version, in the order in which they are shown;
* `Version.typeName`, `shortName`, `key`   its names, with `ofName?` and `ofKey?`.
-/

namespace HueSaturation

/-- A frozen version of the hue/saturation operator. -/
inductive Version where
  | v1
  | v2
  | v3
deriving DecidableEq, Repr

namespace Version

def all : List Version :=
  [v1, v2, v3]

def latest : Version := v3

def controls : Version → List Control
  | v1 => [.saturation, .luminosity, .contrast]
  | v2 => [.saturation, .hue, .contrast]
  | v3 => [.hue, .saturation, .vibrance, .luminosity, .contrast]

def isActive (v : Version) (k : Control) : Bool :=
  k ∈ v.controls

/-- The name that a saved edit records. -/
def typeName : Version → String
  | v1 => "Hue/Saturation"
  | v2 => "Hue/Saturation V2"
  | v3 => "Hue/Saturation V3"

/-- The name on a command line. -/
def shortName : Version → String
  | v1 => "v1"
  | v2 => "v2"
  | v3 => "v3"

def key : Version → String
  | v1 => "V1"
  | v2 => "V2"
  | v3 => "V3"

def ofKey? (s : String) : Option Version :=
  all.find? fun v => v.key = s

/-- The version with a type name, or with a short name in upper or lower case. White space around
the name does not count. -/
def ofName? (s : String) : Option Version :=
  let s := trimBlanks s
  all.find? fun v => v.typeName = s || equalIgnoringCase v.shortName s

end Version

/-- Why a name was not understood. -/
inductive NameError where
  | unknownVersion (name : String)
  | unknownControl (name : String)
  | unknownMode (name : String)
deriving DecidableEq, Repr

def NameError.message : NameError → String
  | unknownVersion s => "unknown operation version '" ++ s ++ "'"
  | unknownControl s => "unknown parameter '" ++ s ++ "'"
  | unknownMode s => "unknown blend mode '" ++ s ++ "'"

end HueSaturation
