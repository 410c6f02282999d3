import AppHost.Library.Registry
/-! The calls that change a registry, and what they answer. -/
namespace AppHost

inductive RegistryCall where
  | register (name : String) (source : LibrarySource)
  | unregister (name : String)
  | addDir (dir : String)
  | removeDir (dir : String)
  deriving DecidableEq, Repr

namespace LibraryRegistry

/-- A call with its answer, whether it took effect. A registration always does. -/
def perform (r : LibraryRegistry) : RegistryCall → Bool × LibraryRegistry
  | .register name source => (true, r.register name source)
  | .unregister name => (r.isRegistered name, r.unregister name)
  | .addDir dir => (!r.hasDir dir, r.addDir dir)
  | .removeDir dir =>
    let fewer := r.removeDir dir
    (fewer.searchDirs.length != r.searchDirs.length, fewer)

def after (r : LibraryRegistry) (calls : List RegistryCall) : LibraryRegistry :=
  calls.foldl (fun r call => (r.perform call).2) r

def transcript (r : LibraryRegistry) : List RegistryCall → List (RegistryCall × Bool)
  | [] => []
  | call :: later => (call, (r.perform call).1) :: (r.perform call).2.transcript later

theorem after_append (r : LibraryRegistry) (first later : List RegistryCall) :
    r.after (first ++ later) = (r.after first).after later :=
  List.foldl_append

theorem transcript_append (r : LibraryRegistry) (first later : List RegistryCall) :
    r.transcript (first ++ later) = r.transcript first ++ (r.after first).transcript later := by
  induction first generalizing r with
  | nil => rfl
  | cons call first ih => exact congrArg ((call, (r.perform call).1) :: ·) (ih _)

end LibraryRegistry

end AppHost
