import AppHost.Memory.Allocator
/-! An allocator that keeps a record of every region it gives out and takes back. The regions
live at a moment are those given out and not yet taken back. -/
namespace AppHost.Memory

inductive AllocatorEvent where
  /-- A region was given out, in answer to a request for so many bytes. -/
  | granted (size : Word) (region : Region)
  | released (region : Region)
  deriving DecidableEq, Repr

namespace AllocatorEvent

def granted? : AllocatorEvent → Option Region
  | .granted _ r => some r
  | .released _ => none

def released? : AllocatorEvent → Option Region
  | .granted .. => none
  | .released r => some r

def account (live : List Region) : AllocatorEvent → List Region
  | .granted _ r => live ++ [r]
  | .released r => live.erase r

end AllocatorEvent

structure Audited (σ : Type) where
  inner : σ
  /-- What has happened so far, latest last. -/
  history : List AllocatorEvent

namespace Audited

variable {σ : Type}

def ofAllocator (inner : σ) : Audited σ := ⟨inner, []⟩

def note (a : Audited σ) (e : AllocatorEvent) : Audited σ := { a with history := a.history ++ [e] }

def granted (a : Audited σ) : List Region := a.history.filterMap (·.granted?)

def released (a : Audited σ) : List Region := a.history.filterMap (·.released?)

def live (a : Audited σ) : List Region := a.history.foldl AllocatorEvent.account []

def outstanding (a : Audited σ) : Nat := a.granted.length - a.released.length

instance [Allocator σ] : Allocator (Audited σ) where
  allocate a length prot :=
    match Allocator.allocate a.inner length prot with
    | (some r, inner) => (some r, { a with inner }.note (.granted length r))
    | (none, inner) => (none, { a with inner })
  free a r := { a with inner := Allocator.free a.inner r }.note (.released r)
  write a address bytes := (Allocator.write a.inner address bytes).map fun inner => { a with inner }
  read a address length := Allocator.read a.inner address length
  backing a r := Allocator.backing a.inner r

def buffers [Allocator σ] (a : Audited σ) : List Nat := a.granted.map (Allocator.backing a)

end Audited

end AppHost.Memory
