import AppHost.Object.Format
/-! Objects declared by the host. Their relocation writes nothing: it succeeds when every
required name is bound and no relocation is declared to be unsupported. -/
namespace AppHost

open Memory (Arena)

structure DeclaredObject where
  segments : List Segment
  needed : List String
  exports : List Export
  entry : Option Word
  /-- Names that must be bound when the object is linked. -/
  requires : List String
  /-- A relocation type that the linker is to refuse. -/
  refuses : Option UInt32
  deriving DecidableEq, Repr

namespace DeclaredObject

def link (d : DeclaredObject) (symbols : SymbolTable) : Except LoadError Unit :=
  match d.requires.find? (!symbols.contains ·), d.refuses with
  | some name, _ => .error (.unresolvedSymbol name)
  | none, some code => .error (.unsupportedRelocation code)
  | none, none => .ok ()

def toObject {σ : Type} [Memory.Allocator σ] (d : DeclaredObject) : Object σ where
  format := .declared
  segments := d.segments
  needed := d.needed
  exports := d.exports
  entry := d.entry
  relocate _ symbols arena := (d.link symbols, arena)
  confined _ _ arena := Arena.Reaches.refl arena

end DeclaredObject

end AppHost
