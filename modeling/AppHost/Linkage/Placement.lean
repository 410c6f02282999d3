import AppHost.Object.Format
/-! Placing an object's segments in an arena: one mapping that spans all non-empty segments, at
the greatest of their alignments, with each segment at its distance from the lowest. -/
namespace AppHost

open Memory (Arena Allocator Protection)

structure Layout where
  /-- The object address of the first byte. -/
  start : Word
  span : Word
  align : Word
  protection : Protection
  deriving DecidableEq, Repr

namespace Layout

def stop (s : Segment) : Except LoadError Word :=
  if s.memSize.toNat < s.data.length then .error (.invalid .dataAboveSegment)
  else match Word.add? s.vaddr s.memSize with
    | some stop => .ok stop
    | none => .error (.invalid .segmentWraps)

def occupied (segments : List Segment) : List Segment := segments.filter (0 < ·.memSize)

/-- The layout of a list of segments; none when all of them are empty. -/
def of (segments : List Segment) : Except LoadError (Option Layout) := do
  let used := occupied segments
  let stops ← used.mapM stop
  if used.isEmpty then return none
  let low := (used.map (·.vaddr)).foldl min (0 - 1)
  let high := stops.foldl max 0
  let align := (used.map (·.align)).foldl max 1
  if !Word.isPowerOfTwo align then .error (.invalid .segmentAlignment)
  let start := Word.alignDown low align
  let protection := segments.foldl (fun p s => p.union s.protection) .readWrite
  return some ⟨start, high - start, align, protection⟩

end Layout

namespace Image

/-- The places of the non-empty segments around a base that stands for `start`. -/
def around (base start : Word) (segments : List Segment) : Image :=
  { base := some base
    start
    segments := (Layout.occupied segments).map fun s =>
      ⟨s.vaddr, s.memSize, base + (s.vaddr - start)⟩
    entry := none }

variable {σ : Type} [Allocator σ]

def fill (base start : Word) : List Segment → Arena σ → Except LoadError Unit × Arena σ
  | [], arena => (.ok (), arena)
  | s :: rest, arena =>
    match arena.write (base + (s.vaddr - start)) s.data with
    | .ok arena => fill base start rest arena
    | .error e => (.error (.access e), arena)

/-- Maps and fills the image of a list of segments. A failure gives the mapping back. -/
def place (segments : List Segment) (arena : Arena σ) : Except LoadError Image × Arena σ :=
  match Layout.of segments with
  | .error e => (.error e, arena)
  | .ok none => (.ok .empty, arena)
  | .ok (some layout) =>
    match arena.map layout.span layout.protection layout.align with
    | (.error e, arena) => (.error (.placement e), arena)
    | (.ok base, arena) =>
      match fill base layout.start (Layout.occupied segments) arena with
      | (.ok (), arena) => (.ok (.around base layout.start segments), arena)
      | (.error e, arena) => (.error e, arena.release base)

def discard (image : Image) (arena : Arena σ) : Arena σ :=
  match image.base with
  | some base => arena.release base
  | none => arena

end Image

end AppHost
