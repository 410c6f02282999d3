import AppHost.Elf.Header
/-! Symbols of an ELF file, and how many of them the hash tables account for. -/
namespace AppHost.Elf

structure Symbol where
  name : Nat
  info : Nat
  sectionIndex : Nat
  value : Nat
  deriving DecidableEq, Repr

namespace Symbol

def size (c : Class) : Nat := c.select 16 24

def read? (e : Encoding) (raw : Bytes) : Option Symbol := do
  return {
    name := ← e.number? raw 0 4
    info := ← e.field? raw 12 4 1
    sectionIndex := ← e.field? raw 14 6 2
    value := ← e.address? raw 4 8 }

def binding (s : Symbol) : Nat := s.info / 16

def isGlobal (s : Symbol) : Bool := s.binding == 1

def isWeak (s : Symbol) : Bool := s.binding == 2

def isDefined (s : Symbol) : Bool := s.sectionIndex != 0

def isAbsolute (s : Symbol) : Bool := s.sectionIndex == 0xfff1

/-- The `count` symbols at `offset`. Even an empty table starts inside the file. -/
def table? (e : Encoding) (file : Bytes) (offset count : Nat) : Option (List Symbol) :=
  if offset ≤ file.length then records? file (read? e) (size e.cls) offset count else none

end Symbol

def chainEnd? (order : ByteOrder) : Bytes → Nat → Option Nat
  | a :: b :: c :: d :: rest, index =>
    if order.value [a, b, c, d] % 2 = 1 then some (index + 1) else chainEnd? order rest (index + 1)
  | _, _ => none

/-- The number of symbols that the GNU hash table at `offset` accounts for: up to the end of the
chain that the greatest bucket starts. -/
def gnuHashCount? (e : Encoding) (file : Bytes) (offset : Nat) : Option Nat := do
  let bucketCount ← e.number? file offset 4
  let first ← e.number? file (offset + 4) 4
  let bloom ← e.number? file (offset + 8) 4
  if bucketCount = 0 || first = 0 || bloom = 0 then none
  let start := offset + 16 + bloom * e.cls.wordSize
  let buckets ← records? file (e.number? · 0 4) 4 start bucketCount
  let greatest := buckets.foldl max 0
  if greatest < first then return 0
  chainEnd? e.order (file.drop (start + 4 * bucketCount + 4 * (greatest - first))) greatest

/-- The width of the chain count of a hash table. Two 64-bit machines have wide hash tables. -/
def chainCountSize (cls : Class) (machine : Nat) : Nat :=
  cls.select 4 (if machine = Machine.s390 || machine = Machine.draftAlpha then 8 else 4)

def hashCount? (e : Encoding) (machine : Nat) (file : Bytes) (offset : Nat) : Option Nat :=
  e.number? file (offset + 4) (chainCountSize e.cls machine)

end AppHost.Elf
