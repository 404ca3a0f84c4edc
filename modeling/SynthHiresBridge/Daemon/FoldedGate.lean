import SynthHiresBridge.Data.Cut
import SynthHiresBridge.Daemon.Capability

namespace Daemon

open Posix

/-- Only on Windows are names compared without their case. -/
inductive Target where
  | windows
  | other
  deriving DecidableEq

/-- A path of valid Unicode is the texts of its components. -/
abbrev Components := List String

namespace Components

def eqIgnoreAsciiCase (a b : String) : Bool := Text.lower a.toList == Text.lower b.toList

/-- The loop ends where the base runs out, where two components differ, or where the path ends. -/
def pathStartsWithIgnoringCase : Components → Components → Bool
  | [], base => base.isEmpty
  | _ :: _, [] => true
  | component :: path, expected :: base =>
      if !eqIgnoreAsciiCase component expected then false else pathStartsWithIgnoringCase path base

def pathStartsWith (target : Target) (path base : Components) : Bool :=
  match target with
  | .windows => pathStartsWithIgnoringCase path base
  | .other => base.isPrefixOf path

def pathsEqual (target : Target) (path other : Components) : Bool :=
  match target with
  | .windows => pathStartsWithIgnoringCase path other && pathStartsWithIgnoringCase other path
  | .other => path == other

def hasParentDir (path : Components) : Bool := path.any (· == "..")

end Components

/-- The snapshot of a gate whose paths are given by their components. -/
structure ComponentScopes where
  capabilities : List String
  alwaysAllowPaths : List Components
  oneShotPaths : List Components
  deriving DecidableEq

namespace ComponentScopes

def allows (scopes : ComponentScopes) (capability : String) : Bool :=
  scopes.capabilities.any (· == capability)

def pathMatchesAny (target : Target) (scopes : ComponentScopes) (path : Components) : Bool :=
  if path.hasParentDir then false
  else scopes.alwaysAllowPaths.any fun base => path.pathStartsWith target base

def checkPath (target : Target) (scopes : ComponentScopes) (capability : String)
    (path : Components) : GateDecision :=
  if !scopes.allows capability then .deny
  else if path.hasParentDir then .deny
  else if scopes.oneShotPaths.any fun approved => approved.pathsEqual target path then .allow
  else if scopes.pathMatchesAny target path then .allow
  else .requireConsent

end ComponentScopes

namespace Components

/-- `Component::as_os_str` on a system whose separator is a slash. -/
def asOsStr : Component → String
  | .rootDir => "/"
  | .curDir => "."
  | .parentDir => ".."
  | .normal name => name

def ofPath (path : PathBuf) : Components := path.components.map asOsStr

end Components

/-- The scopes of a gate by the components of its paths. -/
def CapabilityGate.components (gate : CapabilityGate) : ComponentScopes where
  capabilities := gate.snapshot.capabilities
  alwaysAllowPaths := gate.snapshot.alwaysAllowPaths.map Components.ofPath
  oneShotPaths := gate.snapshot.oneShotPaths.map Components.ofPath

end Daemon
