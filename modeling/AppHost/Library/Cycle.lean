/-! Cycles among modules that name each other as needed. A depth-first search marks the modules
on its path as in progress and those it is finished with as done; meeting a module on the path
again closes a cycle. -/
namespace AppHost

/-- Modules with the names they need. Of two modules of one name the first entry counts. -/
abbrev DependencyGraph := List (String × List String)

namespace DependencyGraph

structure Marks where
  inProgress : List String
  done : List String
  deriving DecidableEq, Repr

/-- The first of several searches that finds a cycle ends them all. -/
def firstFound (search : String → Marks → Bool × Marks) : List String → Marks → Bool × Marks
  | [], m => (false, m)
  | name :: rest, m =>
    match search name m with
    | (true, m) => (true, m)
    | (false, m) => firstFound search rest m

def successors (g : DependencyGraph) (name : String) : List String :=
  ((g.lookup name).getD []).filter fun n => (g.lookup n).isSome

/-- Whether a cycle is met from a module on; `depth` bounds the length of the path. -/
def visit (g : DependencyGraph) : Nat → String → Marks → Bool × Marks
  | 0, _, m => (false, m)
  | depth + 1, name, m =>
    if m.done.contains name then (false, m)
    else if m.inProgress.contains name then (true, m)
    else
      match firstFound (visit g depth) (g.successors name)
          { m with inProgress := name :: m.inProgress } with
      | (true, m) => (true, m)
      | (false, m) =>
        (false, { inProgress := m.inProgress.erase name, done := name :: m.done })

/-- Searches from one module on. A path holds each module at most once and ends at the latest
where one repeats. -/
def search (g : DependencyGraph) (start : String) : Bool × Marks :=
  visit g (g.length + 2) start ⟨[], []⟩

def reachesCycle (g : DependencyGraph) (start : String) : Bool := (g.search start).1

end DependencyGraph

end AppHost
