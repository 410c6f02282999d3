import AppHost.Config.Settings
import AppHost.Toml.Document
/-! Settings from a TOML document. Every key is optional and none other is allowed. A choice is a
string, or a table that holds the choice as its only key, with nothing in it. -/
namespace AppHost

open Toml

namespace Settings

def text? : Value → Option String
  | .string s => some s
  | _ => none

def texts? : Value → Option (List String)
  | .array items => items.mapM text?
  | _ => none

def size? : Value → Option Nat
  | .integer n => if n < 0 then none else some n.toNat
  | _ => none

def isEmpty : Value → Bool
  | .array items => items.isEmpty
  | .table _ entries => entries.isEmpty
  | .tables all => all.isEmpty
  | _ => false

/-- The name chosen. A table with a second key chooses nothing, whichever way it was written. -/
def choice? : Value → Option String
  | .string s => some s
  | .table _ [(name, v)] => if isEmpty v then some name else none
  | _ => none

def isolation? (v : Value) : Option Isolation :=
  match choice? v with
  | some "direct" => some .direct
  | some "trampoline" => some .trampoline
  | _ => none

def collisions? (v : Value) : Option CollisionPolicy :=
  match choice? v with
  | some "last-wins" => some .lastWins
  | some "first-wins" => some .firstWins
  | _ => none

def set? (s : Settings) (entry : String × Value) : Option Settings :=
  let (key, v) := entry
  match key with
  | "isolation" => (isolation? v).map fun isolation => { s with isolation }
  | "builtin_libraries" => (texts? v).map fun builtinLibraries => { s with builtinLibraries }
  | "symbol_collisions" => (collisions? v).map fun symbolCollisions => { s with symbolCollisions }
  | "argv0" => (text? v).map fun argv0 => { s with argv0 }
  | "envp" => (texts? v).map fun envp => { s with envp }
  | "task_stack_bytes" => (size? v).map fun taskStackBytes => { s with taskStackBytes }
  | "search_dirs" => (texts? v).map fun searchDirs => { s with searchDirs }
  | _ => none

def parse (text : String) : Except ConfigError Settings :=
  match (document? text).bind fun entries => entries.foldlM set? standard with
  | some s => .ok s
  | none => .error .malformed

def load (fs : FileSystem) (path : String) : Except ConfigError Settings :=
  match fs.openPath path with
  | .error e | .ok (.error e) => .error (.unreadable path e)
  | .ok (.ok bytes) =>
    match String.fromUTF8? ⟨bytes.toArray⟩ with
    | some text => parse text
    | none => .error (.unreadable path .notUtf8)

end Settings

end AppHost
