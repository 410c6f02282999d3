import AppHost.Memory.Operation
import AppHost.Object.Error
import AppHost.Object.Image
import AppHost.Symbol.Table
/-! Objects as the linker sees them, whatever format they were read from. -/
namespace AppHost

open Memory (Allocator Arena)

inductive ObjectFormat where
  | elf
  /-- Declared by the host, with no file format behind it. -/
  | declared
  deriving DecidableEq, Repr

structure Object (σ : Type) [Allocator σ] where
  format : ObjectFormat
  segments : List Segment
  needed : List String
  exports : List Export
  entry : Option Word
  /-- Applies the object's relocations to its placed image; an error keeps what was written. -/
  relocate : Image → SymbolTable → Arena σ → Except LoadError Unit × Arena σ
  /-- Relocating uses the arena through its operations only. -/
  confined : ∀ image symbols arena, Arena.Reaches arena (relocate image symbols arena).2

abbrev ObjectParser (σ : Type) [Allocator σ] := Bytes → Except LoadError (Object σ)

end AppHost
