import AppHost.File.Error
import AppHost.File.Path
import AppHost.Word
/-! An unchanging file system: directories and files by their names from the root on. Names
that do not start at the root are looked up from an empty working directory. -/
namespace AppHost

abbrev Location := List String

/-- What an open file yields when it is read to its end. -/
abbrev Handle := Except FileError Bytes

structure FileSystem where
  directories : List Location
  /-- What opening each regular file gives. One that is there may still refuse to be opened. -/
  files : List (Location × Except FileError Handle)
  /-- Where names that are not absolute start; an existing directory. -/
  working : Location
  deriving Repr

inductive FileNode where
  | directory (at_ : Location)
  | file (opened : Except FileError Handle)
  deriving Repr

namespace FileSystem

def upward (at_ : Location) : List Location := (List.range (at_.length + 1)).map at_.take

def empty (working : Location) : FileSystem := ⟨upward working, [], working⟩

def addDirectory (fs : FileSystem) (at_ : Location) : FileSystem :=
  { fs with directories := upward at_ ++ fs.directories }

/-- Adds a file with its parent directories. A file already there is replaced. -/
def addFile (fs : FileSystem) (at_ : Location) (opened : Except FileError Handle) : FileSystem :=
  { fs.addDirectory at_.dropLast with files := (at_, opened) :: fs.files.filter (·.1 != at_) }

def child? (fs : FileSystem) (dir : Location) (name : String) : Option FileNode :=
  match fs.files.lookup (dir ++ [name]) with
  | some opened => some (.file opened)
  | none =>
    if fs.directories.contains (dir ++ [name]) then some (.directory (dir ++ [name])) else none

def nameLimit : Nat := 255

/-- One more than the most bytes of a path. -/
def pathLimit : Nat := 4096

/-- Follows the pieces of a path from a node on. Every piece but the first needs a directory
before it, an empty one too; only a directory that is there refuses a name for its length. -/
def follow (fs : FileSystem) : List String → FileNode → Except FileError FileNode
  | [], node => .ok node
  | _ :: _, .file _ => .error .notDirectory
  | piece :: rest, .directory dir =>
    if piece == "" || piece == "." then follow fs rest (.directory dir)
    else if piece == ".." then follow fs rest (.directory dir.dropLast)
    else if nameLimit < piece.utf8ByteSize then .error .nameTooLong
    else match fs.child? dir piece with
      | some node => follow fs rest node
      | none => .error .notFound

def find (fs : FileSystem) (path : String) : Except FileError FileNode :=
  if path.toList.contains '\x00' then .error .nulInName
  else if path == "" then .error .notFound
  else if pathLimit ≤ path.utf8ByteSize then .error .nameTooLong
  else fs.follow (Path.pieces path) (.directory (if Path.isAbsolute path then [] else fs.working))

def isFile (fs : FileSystem) (path : String) : Bool :=
  match fs.find path with
  | .ok (.file _) => true
  | _ => false

/-- Opens a path. A directory opens, but cannot be read. -/
def openPath (fs : FileSystem) (path : String) : Except FileError Handle :=
  match fs.find path with
  | .error e => .error e
  | .ok (.file opened) => opened
  | .ok (.directory _) => .ok (.error .isDirectory)

end FileSystem

end AppHost
