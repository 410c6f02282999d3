import AppHost.Memory.Buffer
import AppHost.Memory.Region
/-! The source of raw memory behind an arena: whole word-aligned regions, given out and taken
back whole, with byte access through the allocator because it owns the backing store. -/
namespace AppHost.Memory

class Allocator (σ : Type) where
  /-- A word-aligned region of at least the given length, or none when exhausted. -/
  allocate : σ → Word → Protection → Option Region × σ
  /-- Takes back a region it gave out. -/
  free : σ → Region → σ
  /-- Stores bytes at an address; none when the span is not backed. -/
  write : σ → Word → Bytes → Option σ
  /-- The bytes at an address; none when the span is not backed. -/
  read : σ → Word → Word → Option Bytes
  /-- The size of the buffer that the host makes to back a region given out. -/
  backing : σ → Region → Nat

def Allocator.request {σ : Type} [Allocator σ] (s : σ) (length : Word) (prot : Protection) :
    Fate (Option Region × σ) :=
  let result := allocate s length prot
  .taking (result.1.toList.map (backing result.2)) result

end AppHost.Memory
