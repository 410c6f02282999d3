import AppHost.Word
/-! How numbers lie in an ELF file: the class gives the width of addresses, the data encoding
the order of bytes. -/
namespace AppHost.Elf

inductive Class where
  | bits32
  | bits64
  deriving DecidableEq, Repr

def Class.wordSize : Class → Nat
  | .bits32 => 4
  | .bits64 => 8

structure Encoding where
  cls : Class
  order : ByteOrder
  deriving DecidableEq, Repr

def Encoding.number? (e : Encoding) (file : Bytes) (offset width : Nat) : Option Nat :=
  (file.slice? offset width).map e.order.value

/-- The number at one of two places: the narrow class has it at `at32`, the wide one at `at64`,
each as wide as an address of its class. -/
def Encoding.address? (e : Encoding) (file : Bytes) (at32 at64 : Nat) : Option Nat :=
  match e.cls with
  | .bits32 => e.number? file at32 4
  | .bits64 => e.number? file at64 8

def Encoding.field? (e : Encoding) (file : Bytes) (at32 at64 width : Nat) : Option Nat :=
  match e.cls with
  | .bits32 => e.number? file at32 width
  | .bits64 => e.number? file at64 width

def Class.select (c : Class) (size32 size64 : Nat) : Nat :=
  match c with
  | .bits32 => size32
  | .bits64 => size64

/-- The records of a table of `count` entries at `offset`. No entries need no room. -/
def records? (file : Bytes) (read : Bytes → Option α) (size offset count : Nat) :
    Option (List α) :=
  if count = 0 then some []
  else if offset + count * size ≤ file.length then
    (List.range count).mapM fun i => (file.slice? (offset + i * size) size).bind read
  else none

end AppHost.Elf
