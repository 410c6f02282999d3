import AppHost.Elf.Dynamic
import AppHost.Elf.Relocation
import AppHost.Elf.Strings
import AppHost.Elf.Symbol
/-! The structure of a whole ELF file: header tables, the sections that are always checked, and
what the dynamic table leads to. -/
namespace AppHost.Elf

structure DynamicFacts where
  needed : List String
  strings : Strings
  symbols : List Symbol
  /-- Relocations with addends, then without, then those of the procedure linkage table. -/
  relocations : List RelocationEntry

structure File where
  header : Header
  programs : List Program
  dynamic : DynamicFacts

/-- What takes a whole file apart, unless it finds no such structure in it. -/
abbrev Reader := Bytes → Option File

/-- The facts behind a dynamic table. The symbols are as many as the hash tables and the
relocations account for. -/
def DynamicFacts.read? (e : Encoding) (machine : Nat) (file : Bytes) (d : Dynamic) :
    Option DynamicFacts := do
  let strings ← Strings.read? file (d.offset Tag.strings) (d.sizeOf Tag.stringsSize)
  let withAddend ← RelocationEntry.table? e file true (d.offset Tag.relocationsWithAddend)
    (d.sizeOf Tag.relocationsWithAddendSize)
  let without ← RelocationEntry.table? e file false (d.offset Tag.relocations)
    (d.sizeOf Tag.relocationsSize)
  let linkage ← RelocationEntry.table? e file
    (d.sizeOf Tag.linkageKind == Tag.relocationsWithAddend) (d.offset Tag.linkageRelocations)
    (d.sizeOf Tag.linkageRelocationsSize)
  let relocations := withAddend ++ without ++ linkage
  let hashed ← match d.offset? Tag.gnuHash, d.offset? Tag.hash with
    | some start, _ => gnuHashCount? e file start
    | none, some start => hashCount? e machine file start
    | none, none => some 0
  let greatest := relocations.foldl (fun n r => max n r.symbol) 0
  let count := if greatest = 0 then hashed else max hashed (greatest + 1)
  let symbols ← Symbol.table? e file (d.offset Tag.symbols) count
  return ⟨d.needed.filterMap strings.name?, strings, symbols, relocations⟩

/-- Sections are read for validity only: names, the last symbol table, relocation tables and the
first section of each version kind. -/
def sectionsSound (e : Encoding) (file : Bytes) (header : Header) (sections : List Section) :
    Bool :=
  (sectionStrings? file sections header.nameSection).isSome &&
  (match sections.reverse.find? (·.kind == Section.symbolKind) with
    | none => true
    | some s =>
      (Symbol.table? e file s.offset (s.size / s.entrySize)).isSome &&
        (sectionStrings? file sections s.link).isSome) &&
  (sections.filter fun s => s.isRelocations).all (fun s =>
    s.fits file && (s.size == 0 || (file.slice? s.offset s.size).isSome)) &&
  Section.versionKinds.all fun kind =>
    match sections.find? (·.kind == kind) with
    | none => true
    | some s => (file.slice? s.offset s.size).isSome

def File.read? : Reader := fun file => do
  let header ← Header.read? file
  let e := header.encoding
  let programs ← header.programs? file
  let sections ← header.sections? file
  if !sectionsSound e file header sections then none
  let dynamic ← match ← Dynamic.read? e file programs with
    | none => some ⟨[], [], [], []⟩
    | some d => DynamicFacts.read? e header.machine file d
  return ⟨header, programs, dynamic⟩

end AppHost.Elf
