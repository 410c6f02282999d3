import AppHost.Memory.Allocator
/-! A heap of zero-filled blocks, keyed by the word-aligned address handed out, with an optional
budget of live bytes. The host decides where each block's storage lies; a block starts at the
first aligned address inside its storage, which is therefore requested seven bytes longer. -/
namespace AppHost.Memory

/-- A live block. `cells` gives the byte at each offset below `length`. -/
structure Block where
  base : Word
  length : Word
  cells : Nat → UInt8

namespace Block

def zeroed (base length : Word) : Block := ⟨base, length, fun _ => 0⟩

def offset? (b : Block) (address : Word) (length : Nat) : Option Nat :=
  let offset := (address - b.base).toNat
  if offset + length ≤ b.length.toNat then some offset else none

def store (b : Block) (offset : Nat) (bytes : Bytes) : Block :=
  let written := bytes.toArray
  { b with cells := fun i =>
      if offset ≤ i then written.getD (i - offset) (b.cells i) else b.cells i }

theorem cells_store (b : Block) (offset : Nat) (bytes : Bytes) (i : Nat) :
    (b.store offset bytes).cells i =
      if offset ≤ i then bytes.getD (i - offset) (b.cells i) else b.cells i := by
  simp [store, List.getD]

def load (b : Block) (offset length : Nat) : Bytes :=
  (List.range length).map fun i => b.cells (offset + i)

end Block

/-- Adds a block to blocks in descending order of base; a block of the same base is replaced. -/
def insertBlock (new : Block) : List Block → List Block
  | [] => [new]
  | b :: rest =>
    if b.base < new.base then new :: b :: rest
    else if b.base == new.base then new :: rest
    else b :: insertBlock new rest

structure Heap where
  /-- Live blocks, in descending order of base. -/
  blocks : List Block
  budget : Option Word
  inUse : Word

namespace Heap

def empty (budget : Option Word) : Heap := ⟨[], budget, 0⟩

def nearest? (h : Heap) (address : Word) : Option Block :=
  h.blocks.find? (·.base ≤ address)

def charge? (h : Heap) (length : Word) : Option Word :=
  (Word.add? h.inUse length).filter fun inUse => h.budget.all (inUse ≤ ·)

def storageSize? (h : Heap) (length : Word) : Option Word :=
  (h.charge? length).bind fun _ => Word.add? length (Word.size - 1)

def storageBytes (r : Region) : Nat := r.length.toNat + (Word.size - 1).toNat

def place (h : Heap) (base length : Word) : Heap :=
  { h with blocks := insertBlock (.zeroed base length) h.blocks, inUse := h.inUse + length }

def allocateAt (h : Heap) (storage length : Word) : Option (Region × Heap) :=
  (h.storageSize? length).map fun _ =>
    let base := Word.alignUp storage Word.size
    (⟨base, length⟩, h.place base length)

/-- Releases the block whose base is that of the region; any other region changes nothing. -/
def free (h : Heap) (r : Region) : Heap :=
  match h.blocks.find? (·.base == r.base) with
  | some b =>
    { h with blocks := h.blocks.filter (·.base != r.base), inUse := h.inUse - b.length }
  | none => h

def write (h : Heap) (address : Word) (bytes : Bytes) : Option Heap := do
  let b ← h.nearest? address
  let offset ← b.offset? address bytes.length
  return { h with blocks := insertBlock (b.store offset bytes) h.blocks }

def read (h : Heap) (address length : Word) : Option Bytes := do
  let b ← h.nearest? address
  let offset ← b.offset? address length.toNat
  return b.load offset length.toNat

end Heap

/-- A heap together with a host: the address of the n-th storage, given its size. -/
structure HostHeap where
  heap : Heap
  host : Nat → Word → Word
  requests : Nat

namespace HostHeap

def empty (budget : Option Word) (host : Nat → Word → Word) : HostHeap := ⟨.empty budget, host, 0⟩

def allocate (h : HostHeap) (length : Word) : Option Region × HostHeap :=
  match h.heap.storageSize? length with
  | none => (none, h)
  | some size =>
    match h.heap.allocateAt (h.host h.requests size) length with
    | none => (none, h)
    | some (region, heap) => (some region, { h with heap, requests := h.requests + 1 })

instance : Allocator HostHeap where
  allocate h length _ := h.allocate length
  free h r := { h with heap := h.heap.free r }
  write h address bytes := (h.heap.write address bytes).map fun heap => { h with heap }
  read h address length := h.heap.read address length
  backing _ r := Heap.storageBytes r

end HostHeap

end AppHost.Memory
