import AppHost.Host.Error
import AppHost.Library.Cycle
import AppHost.Library.Registry
import AppHost.Linkage.State
/-! Loading everything that a program needs. The modules are scanned in load order for a needed
name that nothing provides yet; that library is loaded, and the scan starts again. -/
namespace AppHost

open Memory (Allocator)

inductive LibraryCall where
  | opened (name : String)
  | loaded (name : String)
  deriving DecidableEq, Repr

structure Resolution (σ : Type) [Allocator σ] where
  outcome : Except LaunchError Unit
  linkage : Linkage σ
  /-- The calls made on the way, latest last. -/
  calls : List LibraryCall

namespace Linkage

variable {σ : Type} [Allocator σ]

/-- The dependencies among the loaded modules. Of two of one name the later counts. -/
def graph (l : Linkage σ) : DependencyGraph := (l.modules.map fun m => (m.name, m.needed)).reverse

def nextNeeded? (l : Linkage σ) (satisfied : List String) : Option String :=
  (l.modules.flatMap (·.needed)).find? (!satisfied.contains ·)

def neededBy (parser : ObjectParser σ) (bytes : Bytes) : List String :=
  match parser bytes with
  | .ok object => object.needed
  | .error _ => []

def contents (libraries : LibraryRegistry) (files : FileSystem) : List Bytes :=
  libraries.sources.filterMap (fun s => match s.2 with
    | .buffer bytes => some bytes
    | .file _ => none) ++
  files.files.filterMap fun f => match f.2 with
    | .ok (.ok bytes) => some bytes
    | _ => none

def everNeeded (l : Linkage σ) (libraries : LibraryRegistry) (files : FileSystem) : List String :=
  l.modules.flatMap (·.needed) ++ (contents libraries files).flatMap (neededBy l.parser)

/-- More than the number of names that can ever be needed. -/
def neededBound (l : Linkage σ) (libraries : LibraryRegistry) (files : FileSystem) : Nat :=
  (l.everNeeded libraries files).length + 1

/-- Opens and loads one library, and refuses it if it closes a dependency cycle. -/
def provide (libraries : LibraryRegistry) (files : FileSystem) (l : Linkage σ) (name : String) :
    Resolution σ :=
  match libraries.openLibrary files name with
  | .error e => ⟨.error (.cannotOpenLibrary name e), l, [.opened name]⟩
  | .ok none => ⟨.error (.missingLibrary name), l, [.opened name]⟩
  | .ok (some handle) =>
    match l.loadLibrary name handle with
    | (.error e, l) => ⟨.error (.cannotLoad name e), l, [.opened name, .loaded name]⟩
    | (.ok (), l) =>
      ⟨if l.graph.reachesCycle name then .error (.dependencyCycle name) else .ok (), l,
        [.opened name, .loaded name]⟩

def provideAll (libraries : LibraryRegistry) (files : FileSystem) :
    Nat → List String → Linkage σ → Resolution σ
  | 0, _, l => ⟨.ok (), l, []⟩
  | fuel + 1, satisfied, l =>
    match l.nextNeeded? satisfied with
    | none => ⟨.ok (), l, []⟩
    | some name =>
      match provide libraries files l name with
      | ⟨.error e, l, calls⟩ => ⟨.error e, l, calls⟩
      | ⟨.ok (), l, calls⟩ =>
        let rest := provideAll libraries files fuel (name :: satisfied) l
        { rest with calls := calls ++ rest.calls }

/-- Loads every library that the loaded modules need, built-in ones apart. -/
def resolution (builtins : List String) (libraries : LibraryRegistry) (files : FileSystem)
    (l : Linkage σ) : Resolution σ :=
  provideAll libraries files (l.neededBound libraries files) (l.filenames ++ builtins) l

def resolve (builtins : List String) (libraries : LibraryRegistry) (files : FileSystem)
    (l : Linkage σ) : Except LaunchError Unit × Linkage σ :=
  let r := l.resolution builtins libraries files
  (r.outcome, r.linkage)

end Linkage

end AppHost
