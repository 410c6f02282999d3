import AppHost.Proofs.Memory.Heap
import Mathlib.Algebra.BigOperators.Group.List.Basic
import Mathlib.Algebra.GroupWithZero.Nat
/-! A heap counts the bytes it has given out. What it has room for, and so which storages it asks of
its host, is decided by that sum and the budget. -/
namespace AppHost.Memory

namespace Heap

variable {h i : Heap} {live : List Region} {budget : Option Word}

theorem charge?_eq_some_iff {length inUse : Word} :
    h.charge? length = some inUse ↔
      Word.add? h.inUse length = some inUse ∧ ∀ limit ∈ h.budget, inUse.toNat ≤ limit.toNat := by
  rw [charge?, Option.filter_eq_some_iff]
  cases h.budget <;> simp [UInt64.le_iff_toNat_le]

theorem storageSize?_eq_some_iff {length n : Word} :
    h.storageSize? length = some n ↔ h.inUse.toNat + length.toNat < 2 ^ 64 ∧
      (∀ limit ∈ h.budget, h.inUse.toNat + length.toNat ≤ limit.toNat) ∧
      length.toNat + 7 < 2 ^ 64 ∧ n.toNat = length.toNat + 7 := by
  have seven : (Word.size - 1).toNat = 7 := rfl
  simp only [storageSize?, Option.bind_eq_some_iff, charge?_eq_some_iff]
  constructor
  · rintro ⟨inUse, ⟨sum, room⟩, long⟩
    rw [Word.toNat_of_add? sum] at room
    refine ⟨(Word.add?_eq_some_iff.mp sum).1, room, ?_, Word.toNat_of_add? long⟩
    exact (Word.add?_eq_some_iff.mp long).1
  · rintro ⟨small, room, fits, long⟩
    have sum : Word.add? h.inUse length = some (h.inUse + length) :=
      Word.add?_eq_some_iff.mpr ⟨small, rfl⟩
    refine ⟨_, ⟨sum, by rwa [Word.toNat_of_add? sum]⟩, Word.add?_eq_some_iff.mpr ⟨fits, ?_⟩⟩
    refine UInt64.toNat_inj.mp ?_
    rw [UInt64.toNat_add, seven, Nat.mod_eq_of_lt fits, long]

structure Charged (budget : Option Word) (h : Heap) (live : List Region) : Prop where
  budget : h.budget = budget
  sum : h.inUse.toNat = (live.map (·.length.toNat)).sum

theorem Charged.place (hc : h.Charged budget live) {base length : Word}
    (small : h.inUse.toNat + length.toNat < 2 ^ 64) :
    (h.place base length).Charged budget (live ++ [⟨base, length⟩]) := by
  refine ⟨hc.budget, ?_⟩
  change (h.inUse + length).toNat = _
  rw [UInt64.toNat_add, Nat.mod_eq_of_lt small, hc.sum, List.map_append, List.sum_append]
  simp

theorem Charged.free (hc : h.Charged budget live) (hb : h.Backs live) {r : Region}
    (hr : r ∈ live) : (h.free r).Charged budget (live.erase r) := by
  obtain ⟨b, mem, rfl⟩ := hb.block hr
  have split : b.length.toNat + ((live.erase b.region).map (·.length.toNat)).sum =
      (live.map (·.length.toNat)).sum := List.sum_map_erase (·.length.toNat) hr
  have sum := hc.sum
  have low : b.length ≤ h.inUse := UInt64.le_iff_toNat_le.mpr (by omega)
  rw [hb.free_eq mem]
  refine ⟨hc.budget, ?_⟩
  change (h.inUse - b.length).toNat = _
  rw [UInt64.toNat_sub_of_le _ _ low]
  omega

theorem Charged.write (hc : h.Charged budget live) {address : Word} {bytes : Bytes}
    (hw : h.write address bytes = some i) : i.Charged budget live := by
  simp only [Heap.write, Option.bind_eq_bind, Option.bind_eq_some_iff] at hw
  obtain ⟨b, -, offset, -, stored⟩ := hw
  cases stored
  exact ⟨hc.budget, hc.sum⟩

end Heap

namespace HostHeap

theorem charging (budget : Option Word) :
    Backing fun (s : HostHeap) live => s.heap.Backs live ∧ s.heap.Charged budget live where
  granted {s t live size prot r} hb ha pos fits := by
    have stored := backing.granted hb.1 ha pos fits
    refine ⟨⟨stored.1, ?_⟩, stored.2⟩
    change s.allocate size = (some r, t) at ha
    rw [allocate_eq] at ha
    split at ha
    · cases ha
    · rename_i n asked
      cases ha
      exact hb.2.place (Heap.storageSize?_eq_some_iff.mp asked).1
  refused {s t live size prot} hb ha := by
    cases allocate_none ha
    exact ⟨hb, fun r _ => SameBytes.refl r s⟩
  released hb hr := by
    obtain ⟨backed, same⟩ := backing.released hb.1 hr
    exact ⟨⟨backed, hb.2.free hb.1 hr⟩, same⟩
  written hb hr some_bytes covers hw := by
    obtain ⟨backed, same⟩ := backing.written hb.1 hr some_bytes covers hw
    obtain ⟨heap, wrote, rfl⟩ := Option.map_eq_some_iff.mp hw
    exact ⟨⟨backed, hb.2.write wrote⟩, same⟩

end HostHeap

end AppHost.Memory
