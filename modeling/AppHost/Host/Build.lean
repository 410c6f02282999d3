import AppHost.Host.State
/-! Putting a host together from its settings and the parts its embedder chose. -/
namespace AppHost

open Memory

namespace Host

variable {σ γ : Type} [Allocator σ]

structure Parts (σ γ : Type) [Allocator σ] where
  parser : ObjectParser (Audited σ)
  generator : Option γ
  /-- Where the host's own code lies, with the entry points of the built-in providers. -/
  code : Word
  providers : List Provider
  files : FileSystem
  allocator : σ
  spawner : Spawner
  resumePoint : ResumePoint
  programs : Pid → Program
  others : ExecUnit → ExecUnit

def build (settings : Settings) (parts : Parts σ γ) : Except ConfigError (Host σ γ) := do
  let sites ← settings.callSites parts.generator
  return {
    settings
    parser := parts.parser
    capabilities := parts.providers.foldl Capabilities.withProvider (.withBuiltins parts.code sites)
    libraries := settings.searchDirs.foldl LibraryRegistry.addDir .empty
    files := parts.files
    processes := .empty
    allocator := parts.allocator
    spawner := parts.spawner
    resumePoint := parts.resumePoint
    programs := parts.programs
    others := parts.others
    unit := .idle
    spaces := []
    pending := []
    granted := []
    journal := [] }

end Host

end AppHost
