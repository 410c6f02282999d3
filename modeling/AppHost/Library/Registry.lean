import AppHost.File.System
/-! Where libraries come from: registrations by name first, then the search directories in
order. A registered file is opened when it is needed. -/
namespace AppHost

inductive LibrarySource where
  | buffer (bytes : Bytes)
  | file (path : String)
  deriving DecidableEq, Repr

structure LibraryRegistry where
  /-- Registrations; a name occurs once. -/
  sources : List (String × LibrarySource)
  searchDirs : List String
  deriving DecidableEq, Repr

namespace LibraryRegistry

def empty : LibraryRegistry := ⟨[], []⟩

def register (r : LibraryRegistry) (name : String) (source : LibrarySource) : LibraryRegistry :=
  { r with sources := (name, source) :: r.sources.filter (·.1 != name) }

def isRegistered (r : LibraryRegistry) (name : String) : Bool := r.sources.any (·.1 == name)

def unregister (r : LibraryRegistry) (name : String) : LibraryRegistry :=
  { r with sources := r.sources.filter (·.1 != name) }

def hasDir (r : LibraryRegistry) (dir : String) : Bool := r.searchDirs.any (Path.same · dir)

def addDir (r : LibraryRegistry) (dir : String) : LibraryRegistry :=
  if r.hasDir dir then r else { r with searchDirs := r.searchDirs ++ [dir] }

def removeDir (r : LibraryRegistry) (dir : String) : LibraryRegistry :=
  { r with searchDirs := r.searchDirs.filter (!Path.same · dir) }

def candidate? (r : LibraryRegistry) (fs : FileSystem) (name : String) : Option String :=
  (r.searchDirs.map (Path.join · name)).find? fs.isFile

/-- Opens a library; none when nothing provides the name. A file that cannot be opened, be it
registered or the first in the directories, is an error with no second try. -/
def openLibrary (r : LibraryRegistry) (fs : FileSystem) (name : String) :
    Except FileError (Option Handle) :=
  match r.sources.lookup name with
  | some (.buffer bytes) => .ok (some (.ok bytes))
  | some (.file path) => (fs.openPath path).map some
  | none =>
    match r.candidate? fs name with
    | some path => (fs.openPath path).map some
    | none => .ok none

end LibraryRegistry

end AppHost
