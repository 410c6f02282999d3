import AppHost.Elf.Header
/-! String tables: pieces that end at a NUL or at the end of the table, each valid UTF-8.
A name is the rest of the piece that its offset falls in. -/
namespace AppHost.Elf

abbrev Strings := List Bytes

namespace Strings

/-- The pieces of a table. A final NUL starts no further piece. -/
def pieces : Bytes → Strings
  | [] => []
  | b :: rest =>
    if b = 0 then [] :: pieces rest
    else match pieces rest with
      | [] => [[b]]
      | piece :: others => (b :: piece) :: others

def decode? (bytes : Bytes) : Option String := String.fromUTF8? ⟨bytes.toArray⟩

def read? (file : Bytes) (offset size : Nat) : Option Strings := do
  let all := pieces (← file.slice? offset size)
  if all.all fun piece => (decode? piece).isSome then return all else none

def rest? : Strings → Nat → Option Bytes
  | [], _ => none
  | piece :: others, offset =>
    if offset ≤ piece.length then some (piece.drop offset)
    else rest? others (offset - (piece.length + 1))

/-- The name at an offset; none past the table or inside a character. -/
def name? (s : Strings) (offset : Nat) : Option String := (s.rest? offset).bind decode?

end Strings

/-- The string table in a section given by index. No such section is an empty table; the index
of all ones stands for the one linked from the first section. -/
def sectionStrings? (file : Bytes) (sections : List Section) (index : Nat) : Option Strings :=
  let index := if index = 0xffff then (sections.head?.map (·.link)).getD index else index
  match sections[index]? with
  | none => some []
  | some s => if s.fits file then Strings.read? file s.offset s.size else none

end AppHost.Elf
