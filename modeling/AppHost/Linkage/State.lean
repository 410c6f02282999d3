import AppHost.Linkage.Event
import AppHost.Linkage.Placement
/-! A linkage gathers the modules of one program in its arena, binds their names in one table,
and relocates them once. Loads are refused from the first attempt to link on. -/
namespace AppHost

open Memory (Arena Allocator)

structure LoadedModule (σ : Type) [Allocator σ] where
  name : String
  image : Image
  needed : List String
  /-- The parsed object, until it is collected. -/
  object : Option (Object σ)

structure Linkage (σ : Type) [Allocator σ] where
  arena : Arena σ
  parser : ObjectParser σ
  policy : CollisionPolicy
  symbols : SymbolTable
  modules : List (LoadedModule σ)
  entry : Option Word
  hasExecutable : Bool
  attempted : Bool
  succeeded : Bool
  /-- What has happened so far, latest last. -/
  journal : List LinkEvent

structure StagedModule where
  entry : Option Word
  exports : List (String × Word)
  deriving DecidableEq, Repr

namespace StagedModule

/-- The address of an export: its value when absolute, else the place of that object address. -/
def address (image : Image) (e : Export) : Except LoadError (String × Word) :=
  if e.absolute then .ok (e.name, e.value)
  else match image.translate? e.value with
    | some address => .ok (e.name, address)
    | none => .error (.invalid .exportOutside)

def entryPoint (image : Image) (entry : Option Word) : Except LoadError Word :=
  match entry.bind image.translate? with
  | some address => .ok address
  | none => .error .missingEntry

def of (image : Image) (entry : Option Word) (exports : List Export) (executable : Bool) :
    Except LoadError StagedModule := do
  let entry ← if executable then some <$> entryPoint image entry else pure none
  return ⟨entry, ← exports.mapM (address image)⟩

end StagedModule

namespace Linkage

variable {σ : Type} [Allocator σ]

def empty (arena : Arena σ) (parser : ObjectParser σ) (policy : CollisionPolicy) : Linkage σ :=
  { arena, parser, policy, symbols := .empty, modules := [], entry := none
    hasExecutable := false, attempted := false, succeeded := false, journal := [] }

def isProgram (l : Linkage σ) : Bool := l.hasExecutable && l.succeeded

def isLibrary (l : Linkage σ) : Bool := !l.hasExecutable && l.succeeded

def filenames (l : Linkage σ) : List String := l.modules.map (·.name)

def note (l : Linkage σ) (e : LinkEvent) : Linkage σ := { l with journal := l.journal ++ [e] }

/-- Binds one export, reporting a definition that differs from an earlier one. -/
def publish (module : String) (l : Linkage σ) (name : String) (address : Word) : Linkage σ :=
  let bound := { l with symbols := l.symbols.insertWith l.policy name address }
  match l.symbols.get? name with
  | some previous =>
    if previous == address then bound else bound.note (.redefined module name previous l.policy)
  | none => bound

def add (l : Linkage σ) (name : String) (object : Object σ) (image : Image)
    (staged : StagedModule) : Linkage σ :=
  let image := { image with entry := staged.entry }
  let l := staged.exports.foldl (fun l (symbol, address) => publish name l symbol address) l
  let l := l.note (.loaded name (image.base.getD 0) image.offset)
  { l with modules := l.modules ++ [⟨name, image, object.needed, some object⟩] }

/-- Places and stages a parsed object; a failure leaves no mapping behind. -/
def accept (l : Linkage σ) (name : String) (object : Object σ) (executable : Bool) :
    Except LoadError Unit × Linkage σ :=
  match Image.place object.segments l.arena with
  | (.error e, arena) => (.error e, { l with arena })
  | (.ok image, arena) =>
    match StagedModule.of image object.entry object.exports executable with
    | .error e => (.error e, { l with arena := image.discard arena })
    | .ok staged => (.ok (), add { l with arena } name object image staged)

def load (l : Linkage σ) (name : String) (source : Except FileError Bytes) (executable : Bool) :
    Except LoadError Unit × Linkage σ :=
  if l.attempted then (.error .linkAttempted, l)
  else match source with
    | .error e => (.error (.unreadable e), l)
    | .ok bytes =>
      match l.parser bytes with
      | .error e => (.error e, l)
      | .ok object => accept (l.note (.parsed name)) name object executable

def loadLibrary (l : Linkage σ) (name : String) (source : Except FileError Bytes) :
    Except LoadError Unit × Linkage σ :=
  l.load name source false

/-- Loads the executable and takes over its entry point. There is at most one. -/
def loadExecutable (l : Linkage σ) (name : String) (source : Except FileError Bytes) :
    Except LoadError Unit × Linkage σ :=
  if l.attempted then (.error .linkAttempted, l)
  else if l.hasExecutable then (.error .executableLoaded, l)
  else match l.load name source true with
    | (.error e, l) => (.error e, l)
    | (.ok (), l) =>
      (.ok (), { l with hasExecutable := true
                        entry := l.modules.getLast?.bind (·.image.entry) })

def relocateAll (l : Linkage σ) : List (LoadedModule σ) → Except LoadError Unit × Linkage σ
  | [] => (.ok (), l)
  | m :: rest =>
    match m.object with
    | none => (.error .linkFailed, l)
    | some object =>
      let l := l.note (.relocating m.name object.format)
      match object.relocate m.image l.symbols l.arena with
      | (.ok (), arena) => relocateAll { l with arena } rest
      | (.error e, arena) => (.error e, { l with arena }.note (.failed m.name e))

/-- Relocates every module, the first time; afterwards only the outcome is repeated. -/
def link (l : Linkage σ) : Except LoadError Unit × Linkage σ :=
  if l.attempted then (if l.succeeded then .ok () else .error .linkFailed, l)
  else match relocateAll { l with attempted := true } l.modules with
    | (.error e, l) => (.error e, l)
    | (.ok (), l) => (.ok (), { l with succeeded := true })

def collect (l : Linkage σ) : Linkage σ :=
  if l.attempted then { l with modules := l.modules.map ({ · with object := none }) } else l

end Linkage

end AppHost
