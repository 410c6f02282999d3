import AppHost.Proofs.Memory.Contents
import AppHost.Proofs.Memory.Heap
/-! Each byte of a heap is a cell of one block: zero when the block is placed, and replaced only by
a write that names it. -/
namespace AppHost.Memory

namespace Heap

variable {h i : Heap} {live : List Region}

theorem Backs.cell (hb : h.Backs live) {b : Block} (mem : b ∈ h.blocks) {x : ℕ}
    (small : x < 2 ^ 64) (covers : b.region.covers (UInt64.ofNat x) 1 = true) :
    ((h.read (UInt64.ofNat x) 1).bind List.head?).getD 0 = b.cells (x - b.base.toNat) := by
  obtain ⟨-, offset, -⟩ := Block.offset_of_covers covers
  rw [hb.read_eq mem (by decide) covers, offset, UInt64.toNat_ofNat_of_lt' small]
  rfl

theorem Backs.cells_written (hb : h.Backs live) {b : Block} (mem : b ∈ h.blocks) {address : Word}
    {bytes : Bytes} (some_bytes : bytes ≠ []) (short : bytes.length < 2 ^ 64)
    (covers : b.region.covers address (UInt64.ofNat bytes.length) = true)
    (hw : h.write address bytes = some i) :
    b.store (address - b.base).toNat bytes ∈ i.blocks := by
  rw [hb.write_eq mem some_bytes short covers, Option.some.injEq] at hw
  subst hw
  exact List.mem_map.mpr ⟨b, mem, if_pos rfl⟩

end Heap

namespace HostHeap

theorem byteAt_eq {s : HostHeap} {live : List Region} (hb : s.heap.Backs live) {b : Block}
    (mem : b ∈ s.heap.blocks) (representable : b.region.Representable) {x : ℕ}
    (holds : b.region.Holds x) : byteAt s x = b.cells (x - b.base.toNat) := by
  have small : x < 2 ^ 64 := by
    unfold Region.Representable at representable
    unfold Region.Holds at holds
    omega
  exact hb.cell mem small (Region.covers_byte representable holds)

theorem storing : Storing fun (s : HostHeap) live => s.heap.Backs live where
  toBacking := backing
  whole {s live r address length} hb hr pos covers := by
    obtain ⟨b, mem, rfl⟩ := hb.block hr
    obtain ⟨low, offset, -⟩ := Block.offset_of_covers covers
    refine (hb.read_eq mem pos covers).trans (congrArg some (List.map_congr_left fun i hi => ?_))
    obtain ⟨small, byte⟩ := Region.covers_byte_of_covers covers (List.mem_range.mp hi)
    have cell := hb.cell mem small byte
    rw [offset, ← Nat.sub_add_comm low]
    exact cell.symm
  zeroed {s t live size prot r x} hb ha pos fits holds := by
    obtain ⟨storage, -, rfl, rfl⟩ := allocate_some ha
    exact byteAt_eq (b := .zeroed _ size) (hb.place pos fits).1 (mem_insertBlock _ _)
      fits.representable holds
  stored {s t live r address bytes x} hb hr representable some_bytes short covers hw holds := by
    obtain ⟨heap, hh, rfl⟩ := Option.map_eq_some_iff.mp hw
    obtain ⟨b, mem, rfl⟩ := hb.block hr
    obtain ⟨low, offset, -⟩ := Block.offset_of_covers covers
    have above : b.base.toNat ≤ x := holds.1
    have kept : heap.Backs live := (hb.write hr some_bytes covers hh).1
    have written := hb.cells_written mem some_bytes short covers hh
    have now : byteAt { s with heap } x = _ :=
      byteAt_eq (b := b.store (address - b.base).toNat bytes) kept written representable holds
    rw [now, byteAt_eq hb mem representable holds, Block.cells_store, offset]
    have after : address.toNat - b.base.toNat ≤ x - b.base.toNat ↔ address.toNat ≤ x := by omega
    have distance : x - b.base.toNat - (address.toNat - b.base.toNat) = x - address.toNat := by
      omega
    simp only [Block.store, after, distance]
    by_cases reached : address.toNat ≤ x
    · by_cases inside : x < address.toNat + bytes.length
      · have within : x - address.toNat < bytes.length := by omega
        simp [reached, inside, List.getElem?_eq_getElem within]
      · have past : bytes.length ≤ x - address.toNat := by omega
        simp [reached, inside, List.getElem?_eq_none past]
    · simp [reached]

theorem accepting : Accepting fun (s : HostHeap) live => s.heap.Backs live := by
  intro s live r address bytes hb hr some_bytes short covers
  obtain ⟨b, mem, rfl⟩ := hb.block hr
  have written := hb.write_eq mem some_bytes short covers
  exact ⟨_, Option.map_eq_some_iff.mpr ⟨_, written, rfl⟩⟩

end HostHeap

end AppHost.Memory
