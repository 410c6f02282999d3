import AppHost.Elf.Encoding
/-! The ELF file header and the two header tables it points to. -/
namespace AppHost.Elf

def magic : Bytes := [0x7f, 0x45, 0x4c, 0x46]

structure Header where
  encoding : Encoding
  fileType : Nat
  machine : Nat
  entry : Nat
  /-- Offset and count of the program headers. -/
  segmentTable : Nat
  segmentCount : Nat
  /-- Offset and count of the section headers. -/
  sectionTable : Nat
  sectionCount : Nat
  /-- The section that holds the names of sections. -/
  nameSection : Nat
  deriving DecidableEq, Repr

/-! The machines that this library tells apart. -/

namespace Machine

def s390 : Nat := 22
/-- The number that the Alpha had before its own was assigned. -/
def draftAlpha : Nat := 41
def riscv : Nat := 243

end Machine

def Class.ofByte? (b : UInt8) : Option Class :=
  if b = 1 then some .bits32 else if b = 2 then some .bits64 else none

def orderOfByte? (b : UInt8) : Option ByteOrder :=
  if b = 1 then some .little else if b = 2 then some .big else none

def Encoding.identify? (file : Bytes) : Option Encoding := do
  return ⟨← Class.ofByte? (← file[4]?), ← orderOfByte? (← file[5]?)⟩

def Header.read? (file : Bytes) : Option Header := do
  let e ← Encoding.identify? file
  let raw ← file.slice? 0 (e.cls.select 52 64)
  return {
    encoding := e
    fileType := ← e.number? raw 16 2
    machine := ← e.number? raw 18 2
    entry := ← e.address? raw 24 24
    segmentTable := ← e.address? raw 28 32
    sectionTable := ← e.address? raw 32 40
    segmentCount := ← e.field? raw 44 56 2
    sectionCount := ← e.field? raw 48 60 2
    nameSection := ← e.field? raw 50 62 2 }

structure Program where
  kind : Nat
  flags : Nat
  offset : Nat
  vaddr : Nat
  fileSize : Nat
  memSize : Nat
  align : Nat
  deriving DecidableEq, Repr

namespace Program

def loadKind : Nat := 1

def dynamicKind : Nat := 2

def size (c : Class) : Nat := c.select 32 56

def read? (e : Encoding) (raw : Bytes) : Option Program := do
  return {
    kind := ← e.number? raw 0 4
    flags := ← e.field? raw 24 4 4
    offset := ← e.address? raw 4 8
    vaddr := ← e.address? raw 8 16
    fileSize := ← e.address? raw 16 32
    memSize := ← e.address? raw 20 40
    align := ← e.address? raw 28 48 }

/-- The file offset behind an address, through the first loaded segment that holds it. -/
def fileOffset? (programs : List Program) (address : Nat) : Option Nat := do
  let p ← programs.find? fun p =>
    p.kind == loadKind && p.vaddr ≤ address && address - p.vaddr < p.memSize
  let offset := p.offset + (address - p.vaddr)
  if offset < 2 ^ 64 then some offset else none

end Program

structure Section where
  kind : Nat
  address : Nat
  offset : Nat
  size : Nat
  link : Nat
  entrySize : Nat
  deriving DecidableEq, Repr

namespace Section

def symbolKind : Nat := 2

def emptyKind : Nat := 8

def versionKinds : List Nat := [0x6fffffff, 0x6ffffffd, 0x6ffffffe]

def isRelocations (s : Section) : Bool := s.kind == 4 || s.kind == 9

def headerSize (c : Class) : Nat := c.select 40 64

def read? (e : Encoding) (raw : Bytes) : Option Section := do
  return {
    kind := ← e.number? raw 4 4
    address := ← e.address? raw 12 16
    offset := ← e.address? raw 16 24
    size := ← e.address? raw 20 32
    link := ← e.field? raw 24 40 4
    entrySize := ← e.address? raw 36 56 }

def fits (s : Section) (file : Bytes) : Bool :=
  s.kind == emptyKind || s.size == 0 ||
    (s.offset + s.size ≤ file.length && s.address + s.size < 2 ^ 64)

end Section

def Header.programs? (h : Header) (file : Bytes) : Option (List Program) :=
  records? file (Program.read? h.encoding) (Program.size h.encoding.cls) h.segmentTable
    h.segmentCount

/-- The number of section headers. A count of zero stands for the size in the first header, which
is there in any case. -/
def Header.sectionTotal? (h : Header) (file : Bytes) : Option Nat :=
  if h.sectionCount ≠ 0 then some h.sectionCount
  else
    ((file.slice? h.sectionTable (Section.headerSize h.encoding.cls)).bind
      (Section.read? h.encoding)).map fun first => max 1 first.size

/-- The section headers; none at all when the table's offset is zero. -/
def Header.sections? (h : Header) (file : Bytes) : Option (List Section) :=
  if h.sectionTable = 0 then some []
  else (h.sectionTotal? file).bind fun count =>
    records? file (Section.read? h.encoding) (Section.headerSize h.encoding.cls)
      h.sectionTable count

end AppHost.Elf
