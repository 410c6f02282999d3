import AppHost.Memory.Heap
/-! An allocator with predictable addresses: each block follows the one before it, whatever has
been freed. Chosen requests, and all byte access, can be made to fail. -/
namespace AppHost.Memory

structure Bump where
  heap : Heap
  next : Word
  /-- Unused bytes between one block and the next. -/
  gap : Word
  requests : Nat
  /-- The requests to refuse, counted from one. -/
  refused : List Nat
  denyWrite : Bool
  denyRead : Bool

namespace Bump

def allocate (b : Bump) (length : Word) : Option Region × Bump :=
  let b := { b with requests := b.requests + 1 }
  if b.refused.contains b.requests then (none, b)
  else match b.heap.storageSize? length with
    | none => (none, b)
    | some _ =>
      (some ⟨b.next, length⟩,
        { b with heap := b.heap.place b.next length
                 next := b.next + Word.alignUp length Word.size + b.gap })

instance : Allocator Bump where
  allocate b length _ := b.allocate length
  free b r := { b with heap := b.heap.free r }
  write b address bytes :=
    if b.denyWrite then none else (b.heap.write address bytes).map fun heap => { b with heap }
  read b address length := if b.denyRead then none else b.heap.read address length
  backing _ r := Heap.storageBytes r

end Bump

end AppHost.Memory
