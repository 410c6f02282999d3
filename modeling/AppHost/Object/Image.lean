import AppHost.Memory.Region
/-! Segments as an object declares them, and the image they form once placed: every segment at
the same distance between object address and arena address. -/
namespace AppHost

open Memory (Protection)

structure Segment where
  vaddr : Word
  /-- The size in memory: file bytes, then zeros. -/
  memSize : Word
  /-- The required alignment; zero is none. -/
  align : Word
  data : Bytes
  protection : Protection
  deriving DecidableEq, Repr

/-- A symbol offered to other modules. An absolute one is not moved with the image. -/
structure Export where
  name : String
  value : Word
  absolute : Bool
  deriving DecidableEq, Repr

structure PlacedSegment where
  vaddr : Word
  length : Word
  base : Word
  deriving DecidableEq, Repr

structure Image where
  /-- The base of the one mapping behind the image, if anything was placed. -/
  base : Option Word
  /-- The object address at `base`. -/
  start : Word
  segments : List PlacedSegment
  /-- The translated entry point, of executables only. -/
  entry : Option Word
  deriving DecidableEq, Repr

def PlacedSegment.translate? (s : PlacedSegment) (vaddr : Word) : Option Word :=
  if s.vaddr ≤ vaddr && vaddr - s.vaddr < s.length then Word.add? s.base (vaddr - s.vaddr)
  else none

namespace Image

def empty : Image := ⟨none, 0, [], none⟩

/-- Arena address less object address, the same for every segment. -/
def offset (i : Image) : Word := (i.base.map (· - i.start)).getD 0

/-- The arena address of an object address, through the first segment that holds it. -/
def translate? (i : Image) (vaddr : Word) : Option Word :=
  i.segments.findSome? (·.translate? vaddr)

end Image

end AppHost
