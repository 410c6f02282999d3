import AppHost.Elf.File
/-! The loadable object in an ELF file: little-endian RISC-V executables and shared objects. -/
namespace AppHost.Elf

open Memory (Protection Allocator)

structure ElfObject where
  cls : Class
  segments : List Segment
  needed : List String
  exports : List Export
  entry : Option Word
  relocations : List Relocation
  deriving DecidableEq, Repr

/-- Bit 0 of the flags executes, bit 1 writes, bit 2 reads. -/
def Program.protection (p : Program) : Protection :=
  ⟨p.flags.testBit 2, p.flags.testBit 1, p.flags.testBit 0⟩

def Program.segment (p : Program) (file : Bytes) : Except LoadError Segment :=
  if p.memSize < p.fileSize then .error (.invalid .fileSizeAboveMemorySize)
  else match file.slice? p.offset p.fileSize with
    | none => .error .truncated
    | some data =>
      .ok ⟨UInt64.ofNat p.vaddr, UInt64.ofNat p.memSize, UInt64.ofNat p.align, data, p.protection⟩

namespace DynamicFacts

def symbolName (d : DynamicFacts) (s : Symbol) : Except LoadError String :=
  match d.strings.name? s.name with
  | some name => .ok name
  | none => .error (.invalid .symbolName)

def isExported (s : Symbol) : Bool :=
  s.isDefined && s.name != 0 && (s.isGlobal || s.isWeak)

def exports (d : DynamicFacts) : Except LoadError (List Export) :=
  (d.symbols.filter isExported).mapM fun s => do
    return ⟨← d.symbolName s, UInt64.ofNat s.value, s.isAbsolute⟩

/-- The symbol at an index of a relocation; index zero is no symbol. -/
def relocationSymbol (d : DynamicFacts) (index : Nat) :
    Except LoadError (Option RelocationSymbol) :=
  if index = 0 then .ok none
  else match d.symbols[index]? with
    | none => .error (.invalid .relocationSymbol)
    | some s => do
      let own := if s.isDefined then some (UInt64.ofNat s.value) else none
      return some ⟨← d.symbolName s, own, s.isWeak⟩

def resolved (d : DynamicFacts) (r : RelocationEntry) : Except LoadError Relocation := do
  return ⟨UInt64.ofNat r.offset, .ofCode r.code, r.addend, ← d.relocationSymbol r.symbol⟩

end DynamicFacts

namespace ElfObject

def ofFile (f : File) (file : Bytes) : Except LoadError ElfObject := do
  let h := f.header
  if h.encoding.order ≠ .little then .error (.unsupported .bigEndian)
  if h.machine ≠ Machine.riscv then .error (.unsupported .machine)
  if h.fileType ≠ 3 ∧ h.fileType ≠ 2 then .error (.unsupported .fileType)
  let segments ← (f.programs.filter (·.kind == Program.loadKind)).mapM (·.segment file)
  if segments.isEmpty then .error (.unsupported .noSegments)
  let exports ← f.dynamic.exports
  let relocations ← f.dynamic.relocations.mapM f.dynamic.resolved
  return {
    cls := h.encoding.cls
    segments
    needed := f.dynamic.needed
    exports
    entry := if h.entry = 0 then none else some (UInt64.ofNat h.entry)
    relocations }

/-- Reads an object. The magic is checked first, then the length of the shorter header, then
the structure of the whole file. -/
def parse (read : Reader) (file : Bytes) : Except LoadError ElfObject :=
  if file.take 4 ≠ magic then .error (.invalid .magic)
  else if file.length < 52 then .error .truncated
  else match read file with
    | none => .error (.invalid .unparsable)
    | some f => ofFile f file

def toObject {σ : Type} [Allocator σ] (o : ElfObject) : Object σ where
  format := .elf
  segments := o.segments
  needed := o.needed
  exports := o.exports
  entry := o.entry
  relocate image symbols arena := Relocation.applyAll o.cls image symbols o.relocations arena
  confined image symbols arena :=
    Relocation.applyAll_confined o.cls image symbols o.relocations arena

end ElfObject

def parser {σ : Type} [Allocator σ] (read : Reader) : ObjectParser σ :=
  fun file => (ElfObject.parse read file).map ElfObject.toObject

end AppHost.Elf
