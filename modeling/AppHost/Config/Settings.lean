import AppHost.File.System
import AppHost.Symbol.Table
/-! The settings of a host. -/
namespace AppHost

inductive Isolation where
  | direct
  | trampoline
  deriving DecidableEq, Repr

def Isolation.name : Isolation → String
  | .direct => "Direct"
  | .trampoline => "Trampoline"

structure Settings where
  isolation : Isolation
  /-- Names of libraries that the capability catalog serves instead of a file. -/
  builtinLibraries : List String
  symbolCollisions : CollisionPolicy
  /-- The one argument that every program gets. -/
  argv0 : String
  envp : List String
  taskStackBytes : Nat
  /-- Directories searched for libraries that are not registered. -/
  searchDirs : List String
  deriving DecidableEq, Repr

namespace Settings

def standard : Settings where
  isolation := .direct
  builtinLibraries := ["libc.so", "libbadge.so", "libm.so", "libimplicitops.so", "libdisplay.so"]
  symbolCollisions := .lastWins
  argv0 := "a.out"
  envp := []
  taskStackBytes := 32768
  searchDirs := []

def isBuiltin (s : Settings) (name : String) : Bool := s.builtinLibraries.contains name

end Settings

/-- The least stack of a task on a host thread. -/
def minHostStack : Nat := 262144

inductive ConfigError where
  | unreadable (path : String) (cause : FileError)
  | malformed
  | missingCodeGenerator
  deriving DecidableEq, Repr

def ConfigError.message : ConfigError → String
  | .unreadable path cause => "failed to read config " ++ path ++ ": " ++ cause.message
  | .malformed => "failed to parse config"
  | .missingCodeGenerator => "trampoline isolation requires a code generator"

end AppHost
