import AppHost.Capability.CodeGenerator
import AppHost.Object.Error
/-! Why a program cannot be launched. -/
namespace AppHost

inductive LaunchError where
  | cannotOpen (path : String) (cause : FileError)
  | cannotOpenLibrary (name : String) (cause : FileError)
  | cannotLoad (name : String) (cause : LoadError)
  | missingLibrary (name : String)
  | dependencyCycle (name : String)
  | cannotLink (cause : LoadError)
  | notReady
  | noCatalog (cause : ExportError)
  | taskRefused (reason : String)
  deriving DecidableEq, Repr

def LaunchError.message : LaunchError → String
  | .cannotOpen path cause => "failed to open " ++ path ++ ": " ++ cause.message
  | .cannotOpenLibrary name cause => "failed to open library " ++ name ++ ": " ++ cause.message
  | .cannotLoad name cause => "failed to load " ++ name ++ ": " ++ cause.message
  | .missingLibrary name => "library not found: " ++ name
  | .dependencyCycle name => "dependency cycle through " ++ name
  | .cannotLink cause => "link failed: " ++ cause.message
  | .notReady => "linkage is not ready to run as a program"
  | .noCatalog cause => cause.message
  | .taskRefused reason => "failed to create task: " ++ reason

end AppHost
