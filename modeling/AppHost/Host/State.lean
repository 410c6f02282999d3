import AppHost.Config.Settings
import AppHost.Host.Event
import AppHost.Library.Closure
import AppHost.Memory.Audit
import AppHost.Process.Table
/-! The state of a host: its catalog, its libraries, the process table, and one memory space per
process identifier handed out. A space is held by its linkage, its process record and its task's
context; when the last of them lets go, every raw allocation goes back. Spaces that are gone stay
on the books, so that allocations can be accounted for. -/
namespace AppHost

open Memory

inductive Holder where
  | linkage
  | record
  | context
  deriving DecidableEq, Repr

/-- The memory of one process with the modules in it, and who still holds it. -/
structure Space (σ : Type) [Allocator σ] where
  linkage : Linkage (Audited σ)
  holders : List Holder

namespace Space

variable {σ : Type} [Allocator σ]

/-- Takes one holder away. Without any left the arena is closed. -/
def release (s : Space σ) (who : Holder) : Space σ :=
  let holders := s.holders.erase who
  { holders
    linkage := if holders.isEmpty then { s.linkage with arena := s.linkage.arena.close }
      else s.linkage }

end Space

inductive TaskStart where
  | immediately
  | later
  /-- Never: the task is dropped, for a stated reason. -/
  | refused (reason : String)
  deriving DecidableEq, Repr

structure Spawner where
  start : TaskStart
  /-- Whether all tasks run on one execution unit, rather than each on its own. -/
  shared : Bool
  /-- The most bytes of stack the host can set up for a task, where each gets a stack of its
  own. -/
  stackLimit : Option Nat
  deriving DecidableEq, Repr

namespace Spawner

def noRoom : String := "Resource temporarily unavailable (os error 11)"

/-- The start of a task that asks for a stack. A stack below the least one is set up as that. -/
def startWith (s : Spawner) (stackBytes : Nat) : TaskStart :=
  if s.stackLimit.any (· < max stackBytes minHostStack) then .refused noRoom else s.start

end Spawner

structure Task where
  space : Nat
  pid : Pid
  entry : Word
  argv : List String
  envp : List String
  hook : Bool
  deriving DecidableEq, Repr

structure Host (σ γ : Type) [Allocator σ] where
  settings : Settings
  parser : ObjectParser (Audited σ)
  capabilities : Capabilities (CallSites γ)
  libraries : LibraryRegistry
  files : FileSystem
  processes : ProcessTable Nat
  /-- The allocator that every new arena starts from. -/
  allocator : σ
  spawner : Spawner
  /-- Where programs continue after an exit. -/
  resumePoint : ResumePoint
  /-- What the program of each process does. -/
  programs : Pid → Program
  /-- What other tasks do to a unit while a program is suspended. -/
  others : ExecUnit → ExecUnit
  /-- The unit of all tasks, where they share one. -/
  unit : ExecUnit
  spaces : List (Space σ)
  pending : List Task
  /-- The bases of the regions granted to programs so far. -/
  granted : List Word
  journal : List HostEvent

def Settings.callSites {γ : Type} (s : Settings) (generator : Option γ) :
    Except ConfigError (CallSites γ) :=
  match s.isolation, generator with
  | .direct, _ => .ok .direct
  | .trampoline, some g => .ok (.generated g)
  | .trampoline, none => .error .missingCodeGenerator

namespace Host

variable {σ γ : Type} [Allocator σ]

def note (h : Host σ γ) (e : HostEvent) : Host σ γ := { h with journal := h.journal ++ [e] }

def noteAll (h : Host σ γ) (es : List HostEvent) : Host σ γ :=
  { h with journal := h.journal ++ es }

def live (h : Host σ γ) : Nat :=
  (h.spaces.map (·.linkage.arena.allocator.outstanding)).foldr (· + ·) 0

def linkage? (h : Host σ γ) (id : Nat) : Option (Linkage (Audited σ)) :=
  (h.spaces[id]?).map (·.linkage)

def modifySpace (h : Host σ γ) (id : Nat) (f : Space σ → Space σ) : Host σ γ :=
  { h with spaces := h.spaces.modify id f }

def onLinkage {α : Type} (h : Host σ γ) (id : Nat)
    (f : Linkage (Audited σ) → α × Linkage (Audited σ)) : Option (α × Host σ γ) := do
  let old ← h.linkage? id
  let (a, new) := f old
  let h := h.modifySpace id ({ · with linkage := new })
  return (a, h.noteAll ((new.journal.drop old.journal.length).map .link))

def onCapabilities {α : Type} (h : Host σ γ)
    (f : Capabilities (CallSites γ) → α × Capabilities (CallSites γ)) : α × Host σ γ :=
  let (a, capabilities) := f h.capabilities
  let new := capabilities.journal.drop h.capabilities.journal.length
  (a, { h with capabilities }.noteAll (new.map .catalog))

def hold (h : Host σ γ) (id : Nat) (who : Holder) : Host σ γ :=
  h.modifySpace id fun s => { s with holders := who :: s.holders }

/-- A fresh linkage in a new space with its own process identifier. -/
def newLinkage (h : Host σ γ) : Nat × Host σ γ :=
  let (pid, processes) := h.processes.allocate
  let arena := Arena.empty pid (Audited.ofAllocator h.allocator)
  let linkage := Linkage.empty arena h.parser h.settings.symbolCollisions
  (h.spaces.length, { h with processes, spaces := h.spaces ++ [⟨linkage, [.linkage]⟩] })

def release (h : Host σ γ) (id : Nat) (who : Holder) : Host σ γ :=
  h.modifySpace id (·.release who)

def removeRecord (h : Host σ γ) (pid : Pid) : Host σ γ :=
  match h.processes.get? pid with
  | some r => { h with processes := h.processes.remove pid }.release r.arena .record
  | none => h

/-- Records a process in the table; a record of the same identifier is dropped. -/
def addRecord (h : Host σ γ) (pid : Pid) (name : String) (id : Nat) : Host σ γ :=
  let h := (h.removeRecord pid).hold id .record
  { h with processes := h.processes.insert pid ⟨name, id⟩ }

def buffers (h : Host σ γ) : List Nat :=
  h.spaces.flatMap (·.linkage.arena.allocator.buffers) ++ h.journal.flatMap (·.buffers)

def close (h : Host σ γ) : Host σ γ :=
  { h with spaces := h.spaces.map fun s =>
      { s with linkage := { s.linkage with arena := s.linkage.arena.close } } }

end Host

end AppHost
