import AppHost.Elf.Header
/-! The dynamic table: tagged values up to the first null tag. Later entries of a tag override
earlier ones, and addresses are turned into file offsets. -/
namespace AppHost.Elf

structure DynamicEntry where
  tag : Nat
  value : Nat
  deriving DecidableEq, Repr

namespace DynamicEntry

def size (c : Class) : Nat := c.select 8 16

def read? (e : Encoding) (raw : Bytes) : Option DynamicEntry := do
  return ⟨← e.address? raw 0 0, ← e.address? raw 4 8⟩

end DynamicEntry

/-! The tags this library reads. -/

namespace Tag

def null : Nat := 0
def needed : Nat := 1
def linkageRelocationsSize : Nat := 2
def hash : Nat := 4
def strings : Nat := 5
def symbols : Nat := 6
def relocationsWithAddend : Nat := 7
def relocationsWithAddendSize : Nat := 8
def stringsSize : Nat := 10
def relocations : Nat := 17
def relocationsSize : Nat := 18
/-- Holds the tag of the kind of relocation that the linkage table uses. -/
def linkageKind : Nat := 20
def linkageRelocations : Nat := 23
def gnuHash : Nat := 0x6ffffef5

end Tag

def untilNull : List DynamicEntry → List DynamicEntry
  | [] => []
  | d :: rest => if d.tag = Tag.null then [d] else d :: untilNull rest

structure Dynamic where
  entries : List DynamicEntry
  programs : List Program

namespace Dynamic

def read? (e : Encoding) (file : Bytes) (programs : List Program) : Option (Option Dynamic) :=
  match programs.find? (·.kind == Program.dynamicKind) with
  | none => some none
  | some p => do
    let size := DynamicEntry.size e.cls
    let raw ← if p.fileSize = 0 then some [] else file.slice? p.offset p.fileSize
    let all ← records? raw (DynamicEntry.read? e) size 0 (raw.length / size)
    return some ⟨untilNull all, programs⟩

def value? (d : Dynamic) (tag : Nat) : Option Nat :=
  (d.entries.reverse.find? (·.tag == tag)).map (·.value)

def sizeOf (d : Dynamic) (tag : Nat) : Nat := (d.value? tag).getD 0

def offset? (d : Dynamic) (tag : Nat) : Option Nat :=
  (d.value? tag).bind (Program.fileOffset? d.programs)

/-- The file offset of a table, the start of the file when its address is in no segment. -/
def offset (d : Dynamic) (tag : Nat) : Nat := (d.offset? tag).getD 0

def needed (d : Dynamic) : List Nat :=
  (d.entries.filter (·.tag == Tag.needed)).map (·.value)

end Dynamic

end AppHost.Elf
