/-! POSIX paths as texts, and the components they are compared by: repeated and trailing
separators and inner `.` components do not count; a leading `.` and every `..` do. -/
namespace AppHost

inductive PathComponent where
  | root
  | here
  | parent
  | name (text : String)
  deriving DecidableEq, Repr

namespace Path

def pieces (path : String) : List String :=
  (path.toList.splitOn '/').map String.ofList

def isAbsolute (path : String) : Bool := path.toList.head? == some '/'

def inner (pieces : List String) : List PathComponent :=
  (pieces.filter fun p => p != "" && p != ".").map fun p => if p == ".." then .parent else .name p

def components (path : String) : List PathComponent :=
  if isAbsolute path then .root :: inner (pieces path)
  else if (pieces path).head? == some "." then .here :: inner (pieces path)
  else inner (pieces path)

def same (p q : String) : Bool := components p == components q

/-- A name inside a directory. An absolute name stands for itself. -/
def join (dir name : String) : String :=
  if isAbsolute name then name
  else if dir == "" || dir.toList.getLast? == some '/' then dir ++ name
  else dir ++ "/" ++ name

/-- The text after the last separator of either style. -/
def lastPiece (path : String) : String :=
  String.ofList (path.toList.reverse.takeWhile fun c => c != '/' && c != '\\').reverse

theorem same_iff (p q : String) : same p q = true ↔ components p = components q := by
  simp [same]

end Path

end AppHost
