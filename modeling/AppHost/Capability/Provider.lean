import AppHost.Capability.EntryPoint
import AppHost.Symbol.Table
/-! Providers: named groups of capabilities, each capability a symbol with the raw address of
its entry point on the host. -/
namespace AppHost

structure Provider where
  name : String
  entries : List (String × Word)
  deriving DecidableEq, Repr

def systemNames : List String :=
  ["yield", "sched_yield", "delay_ms", "delay_us", "usleep", "uptime_ms", "uptime_us",
    "__mem_map", "__mem_unmap", "abort", "_exit"]

namespace Provider

def placed (start : Word) (names : List String) : List (String × Word) :=
  names.mapIdx fun i name => (name, start + 16 * UInt64.ofNat i)

def system (code : Word) : Provider := ⟨"system", placed code systemNames⟩

def math (code : Word) : Provider := ⟨"math", placed (code + 0x1000) (mathEntries.map (·.name))⟩

def implicitOps (code : Word) : Provider :=
  ⟨"implicitops", placed (code + 0x2000) (integerEntries.map (·.name))⟩

def softFloat (code : Word) : Provider :=
  ⟨"softfloat", placed (code + 0x3000) (softFloatEntries.map (·.name))⟩

def builtins (code : Word) : List Provider :=
  [system code, math code, implicitOps code, softFloat code]

def builtin? (code : Word) (name : String) : Option Provider :=
  (builtins code).find? (·.name == name)

/-- Binds every raw address of a list of providers; a later binding of a name wins. -/
def bindAll (providers : List Provider) (t : SymbolTable) : SymbolTable :=
  providers.foldl (fun t p => t.insertAll p.entries) t

end Provider

end AppHost
