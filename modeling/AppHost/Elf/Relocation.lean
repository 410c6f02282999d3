import AppHost.Elf.Header
import AppHost.Object.Format
/-! Relocations: how their entries lie in the file, and how they are applied to a placed image
in file order. -/
namespace AppHost.Elf

open Memory (Arena Allocator)

/-- A relocation entry of a file. Entries without an addend have addend zero. -/
structure RelocationEntry where
  offset : Nat
  symbol : Nat
  code : Nat
  /-- The addend as a 64-bit word, sign-extended from narrower ones. -/
  addend : Word
  deriving DecidableEq, Repr

namespace RelocationEntry

def size (c : Class) (withAddend : Bool) : Nat :=
  if withAddend then c.select 12 24 else c.select 8 16

def signed (c : Class) (n : Nat) : Word :=
  match c with
  | .bits32 => if n < 2 ^ 31 then UInt64.ofNat n else UInt64.ofNat n - UInt64.ofNat (2 ^ 32)
  | .bits64 => UInt64.ofNat n

def read? (e : Encoding) (withAddend : Bool) (raw : Bytes) : Option RelocationEntry := do
  let info ← e.address? raw 4 8
  let split := match e.cls with
    | .bits32 => 2 ^ 8
    | .bits64 => 2 ^ 32
  let addend ← if withAddend then e.address? raw 8 16 else some 0
  return ⟨← e.address? raw 0 0, info / split, info % split, signed e.cls addend⟩

/-- The entries of a table of `length` bytes at `offset`; a length of zero is no table. -/
def table? (e : Encoding) (file : Bytes) (withAddend : Bool) (offset length : Nat) :
    Option (List RelocationEntry) :=
  if length = 0 then some []
  else do
    let raw ← file.slice? offset length
    let size := size e.cls withAddend
    records? raw (read? e withAddend) size 0 (raw.length / size)

end RelocationEntry

inductive RelocationKind where
  | none
  /-- Symbol plus addend, four bytes. -/
  | absolute32
  /-- Symbol plus addend, eight bytes. -/
  | absolute64
  /-- The translated addend, as wide as the class. -/
  | relative
  /-- The symbol, as wide as the class. -/
  | jumpSlot
  | other (code : UInt32)
  deriving DecidableEq, Repr

def RelocationKind.ofCode (code : Nat) : RelocationKind :=
  match code with
  | 0 => .none
  | 1 => .absolute32
  | 2 => .absolute64
  | 3 => .relative
  | 5 => .jumpSlot
  | _ => .other (UInt32.ofNat code)

structure RelocationSymbol where
  name : String
  /-- The object's own definition. -/
  own : Option Word
  weak : Bool
  deriving DecidableEq, Repr

structure Relocation where
  offset : Word
  kind : RelocationKind
  addend : Word
  symbol : Option RelocationSymbol
  deriving DecidableEq, Repr

namespace Relocation

/-- The value of a symbol: the shared table first, then the object's own definition, then zero
for a weak symbol. No symbol is zero. -/
def symbolValue (symbol : Option RelocationSymbol) (image : Image) (symbols : SymbolTable) :
    Except LoadError Word :=
  match symbol with
  | none => .ok 0
  | some s =>
    match symbols.get? s.name, s.own with
    | some address, _ => .ok address
    | none, some vaddr =>
      match image.translate? vaddr with
      | some address => .ok address
      | none => .error (.invalid .localSymbol)
    | none, none => if s.weak then .ok 0 else .error (.unresolvedSymbol s.name)

def stored (cls : Class) (image : Image) (symbols : SymbolTable) (r : Relocation) :
    Except LoadError (Option Bytes) :=
  match r.kind with
  | .none => .ok none
  | .absolute32 =>
    (symbolValue r.symbol image symbols).map fun s => some (Word.toBytes 4 (s + r.addend))
  | .absolute64 =>
    (symbolValue r.symbol image symbols).map fun s => some (Word.toBytes 8 (s + r.addend))
  | .relative =>
    match image.translate? r.addend with
    | some target => .ok (some (Word.toBytes cls.wordSize target))
    | none => .error (.invalid .relativeAddend)
  | .jumpSlot =>
    (symbolValue r.symbol image symbols).map fun s => some (Word.toBytes cls.wordSize s)
  | .other code => .error (.unsupportedRelocation code)

def patch (cls : Class) (image : Image) (symbols : SymbolTable) (r : Relocation) :
    Except LoadError (Option (Word × Bytes)) :=
  match r.stored cls image symbols with
  | .error e => .error e
  | .ok none => .ok none
  | .ok (some bytes) =>
    match image.translate? r.offset with
    | some place => .ok (some (place, bytes))
    | none => .error (.invalid .relocationTarget)

variable {σ : Type} [Allocator σ]

def apply (cls : Class) (image : Image) (symbols : SymbolTable) (r : Relocation)
    (arena : Arena σ) : Except LoadError (Arena σ) :=
  match r.patch cls image symbols with
  | .error e => .error e
  | .ok none => .ok arena
  | .ok (some (place, bytes)) =>
    match arena.write place bytes with
    | .ok arena => .ok arena
    | .error e => .error (.access e)

def applyAll (cls : Class) (image : Image) (symbols : SymbolTable) :
    List Relocation → Arena σ → Except LoadError Unit × Arena σ
  | [], arena => (.ok (), arena)
  | r :: rest, arena =>
    match r.apply cls image symbols arena with
    | .ok arena => applyAll cls image symbols rest arena
    | .error e => (.error e, arena)

theorem apply_confined {cls : Class} {image : Image} {symbols : SymbolTable} {r : Relocation}
    {arena after : Arena σ} (h : r.apply cls image symbols arena = .ok after) :
    arena.Reaches after := by
  unfold apply at h
  split at h
  · cases h
  · cases h
    exact .refl arena
  · rename_i place bytes _
    split at h
    · rename_i written hw
      cases h
      exact ⟨[.write place bytes], (Arena.perform_write hw).symm⟩
    · cases h

theorem applyAll_confined (cls : Class) (image : Image) (symbols : SymbolTable)
    (relocations : List Relocation) (arena : Arena σ) :
    arena.Reaches (applyAll cls image symbols relocations arena).2 := by
  induction relocations generalizing arena with
  | nil => exact .refl arena
  | cons r rest ih =>
    unfold applyAll
    split
    · rename_i after h
      exact (apply_confined h).trans (ih after)
    · exact .refl arena

end Relocation

end AppHost.Elf
