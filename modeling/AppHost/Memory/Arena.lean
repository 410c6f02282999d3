import AppHost.Memory.Allocator
import AppHost.Memory.Error
/-! The private memory of one process. Every successful `map` adds one raw allocation and one
mapping, every successful `unmap` takes away one of each; nothing is split or merged. -/
namespace AppHost

abbrev Pid := UInt32

namespace Memory

/-- A promised region and the place of the raw allocation that backs it. -/
structure Mapping where
  promise : Region
  actual : Nat
  deriving DecidableEq, Repr

structure MapPlan where
  /-- The promised length, a multiple of `align`. -/
  length : Word
  align : Word
  /-- The raw size. Past word alignment there is room to align inside. -/
  size : Word
  deriving DecidableEq, Repr

structure Arena (σ : Type) where
  pid : Pid
  allocator : σ
  actual : List Region
  mapped : List Mapping
  resume : Option ResumePoint

def MapPlan.of (minLength minAlign : Word) : Except MapError MapPlan :=
  if minLength == 0 then .error .zeroLength
  else if !Word.isPowerOfTwo minAlign then .error (.badAlignment minAlign)
  else
    let align := max minAlign Word.size
    match Word.alignUp? minLength align with
    | none => .error .overflow
    | some length =>
      if align ≤ Word.size then .ok ⟨length, align, length⟩
      else match Word.add? length align with
        | none => .error .overflow
        | some size => .ok ⟨length, align, size⟩

/-- The base promised inside a raw region. -/
def MapPlan.baseIn (plan : MapPlan) (raw : Region) : Word :=
  if plan.align ≤ Word.size then raw.base else Word.alignUp raw.base plan.align

namespace Arena

variable {σ : Type}

def empty (pid : Pid) (allocator : σ) : Arena σ := ⟨pid, allocator, [], [], none⟩

def setResume (a : Arena σ) (p : ResumePoint) : Arena σ := { a with resume := some p }

def regionOf? (a : Arena σ) (address : Word) : Option Region :=
  (a.mapped.map (·.promise)).find? (·.covers address 1)

/-- A span is accessible when it lies in the promised region of its first byte. -/
def checkSpan (a : Arena σ) (address length : Word) : Except AccessError Unit :=
  match a.regionOf? address with
  | some r => if r.covers address length then .ok () else .error (.outOfBounds address length)
  | none => .error (.unmapped address)

/-- The size of the byte buffer that a read asks of the host, before any check. -/
def readBuffer (length : Word) : Nat := length.toNat

variable [Allocator σ]

/-- Maps a new region; a refusal leaves both lists as they were. -/
def map (a : Arena σ) (minLength : Word) (prot : Protection) (minAlign : Word) :
    Except MapError Word × Arena σ :=
  match MapPlan.of minLength minAlign with
  | .error e => (.error e, a)
  | .ok plan =>
    match Allocator.allocate a.allocator plan.size prot with
    | (none, allocator) => (.error (.exhausted plan.size), { a with allocator })
    | (some raw, allocator) =>
      let base := plan.baseIn raw
      (.ok base,
        { a with
          allocator
          actual := a.actual ++ [raw]
          mapped := a.mapped ++ [⟨⟨base, plan.length⟩, a.actual.length⟩] })

def buffersSince (b a : Arena σ) : List Nat :=
  (b.actual.drop a.actual.length).map (Allocator.backing b.allocator)

def mapping (a : Arena σ) (minLength : Word) (prot : Protection) (minAlign : Word) :
    Fate (Except MapError Word × Arena σ) :=
  let result := a.map minLength prot minAlign
  .taking (result.2.buffersSince a) result

theorem mapping_of_map {a b : Arena σ} {minLength minAlign : Word} {prot : Protection}
    {answer : Except MapError Word} (h : a.map minLength prot minAlign = (answer, b)) :
    a.mapping minLength prot minAlign = .taking (b.buffersSince a) (answer, b) := by
  rw [mapping, h]

/-- Takes one mapping out, renumbering those backed by later raw allocations. -/
def remove (a : Arena σ) (index : Nat) (m : Mapping) : Arena σ :=
  { a with
    mapped := (a.mapped.eraseIdx index).map fun other =>
      if m.actual < other.actual then { other with actual := other.actual - 1 } else other
    actual := a.actual.eraseIdx m.actual
    allocator := match a.actual[m.actual]? with
      | some raw => Allocator.free a.allocator raw
      | none => a.allocator }

/-- Unmaps the region whose base is exactly `base`; none when there is no such region. -/
def unmap? (a : Arena σ) (base : Word) : Option (Arena σ) := do
  let index ← a.mapped.findIdx? (·.promise.base == base)
  let m ← a.mapped[index]?
  return a.remove index m

def release (a : Arena σ) (base : Word) : Arena σ := (a.unmap? base).getD a

def write (a : Arena σ) (address : Word) (bytes : Bytes) : Except AccessError (Arena σ) :=
  if bytes.isEmpty then .ok a
  else match a.checkSpan address (UInt64.ofNat bytes.length) with
    | .error e => .error e
    | .ok () =>
      match Allocator.write a.allocator address bytes with
      | some allocator => .ok { a with allocator }
      | none => .error (.unmapped address)

def read (a : Arena σ) (address length : Word) : Except AccessError Bytes :=
  if readBuffer length == 0 then .ok []
  else match a.checkSpan address length with
    | .error e => .error e
    | .ok () =>
      match Allocator.read a.allocator address length with
      | some bytes => .ok bytes
      | none => .error (.unmapped address)

/-- Reading as a call of the process: the buffer is taken before the address is looked at. -/
def reading (a : Arena σ) (address length : Word) : Fate (Except AccessError Bytes) :=
  .taking [readBuffer length] (a.read address length)

/-- Gives every raw allocation back, in allocation order. -/
def close (a : Arena σ) : Arena σ :=
  { a with mapped := [], actual := [], allocator := a.actual.foldl Allocator.free a.allocator }

end Arena

end Memory

end AppHost
