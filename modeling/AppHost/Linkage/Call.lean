import AppHost.Linkage.State
/-! What the holder of a linkage can do to it: load and link, change the table of symbols, and
use the arena it shares. -/
namespace AppHost

open Memory (Allocator Operation)

inductive LinkageCall where
  | loadLibrary (name : String) (source : Except FileError Bytes)
  | loadExecutable (name : String) (source : Except FileError Bytes)
  | link
  | collect
  | setSymbols (symbols : SymbolTable)
  | memory (operation : Operation)
  deriving Repr

namespace Linkage

variable {σ : Type} [Allocator σ]

def act (l : Linkage σ) : LinkageCall → Linkage σ
  | .loadLibrary name source => (l.loadLibrary name source).2
  | .loadExecutable name source => (l.loadExecutable name source).2
  | .link => l.link.2
  | .collect => l.collect
  | .setSymbols symbols => { l with symbols }
  | .memory operation => { l with arena := l.arena.perform operation }

def after (l : Linkage σ) (calls : List LinkageCall) : Linkage σ := calls.foldl act l

end Linkage

end AppHost
