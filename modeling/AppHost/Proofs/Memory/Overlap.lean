import AppHost.Proofs.Memory.Contract
/-! Overlap of regions and the addresses they share. Two regions overlap when they share an
address, and also when one of them is empty and begins inside the other; such a pair shares none.
A span lies in a region when each of its addresses does, up to the top of the address space. -/
namespace AppHost.Memory

namespace Region

variable {r s : Region}

def Meets (r s : Region) : Prop := ∃ x, r.covers x 1 = true ∧ s.covers x 1 = true

/-- The region has no bytes and begins inside the other one, behind its first byte. -/
def EmptyInside (r s : Region) : Prop :=
  r.length.toNat = 0 ∧ s.base.toNat < r.base.toNat ∧ r.base.toNat < s.limit.toNat

instance (r s : Region) : Decidable (r.EmptyInside s) := inferInstanceAs (Decidable (_ ∧ _ ∧ _))

theorem base_le_limit (r : Region) : r.base.toNat ≤ r.limit.toNat := by
  have limit := r.toNat_limit
  have top := r.base.toNat_lt
  omega

/-- A region without addresses is empty, or begins at the last address, which no region reaches. -/
theorem limit_le_base_iff (r : Region) :
    r.limit.toNat ≤ r.base.toNat ↔ r.length.toNat = 0 ∨ r.base.toNat = 2 ^ 64 - 1 := by
  have limit := r.toNat_limit
  have top := r.base.toNat_lt
  omega

theorem Meets.symm (h : r.Meets s) : s.Meets r := by
  obtain ⟨x, hr, hs⟩ := h
  exact ⟨x, hs, hr⟩

theorem meets_iff (r s : Region) : r.Meets s ↔
    max r.base.toNat s.base.toNat < min r.limit.toNat s.limit.toNat := by
  constructor
  · rintro ⟨x, hr, hs⟩
    rw [covers_byte_iff] at hr hs
    omega
  · intro below
    refine ⟨max r.base s.base, ?_, ?_⟩
    · rw [covers_byte_iff, Word.toNat_max]
      omega
    · rw [covers_byte_iff, Word.toNat_max]
      omega

theorem EmptyInside.not_meets (h : r.EmptyInside s) : ¬ r.Meets s := by
  obtain ⟨empty, -, -⟩ := h
  have void := r.limit_le_base_iff.mpr (Or.inl empty)
  rw [meets_iff]
  omega

theorem EmptyInside.overlaps (h : r.EmptyInside s) : r.overlaps s = true := by
  obtain ⟨-, behind, below⟩ := h
  have first := r.base_le_limit
  rw [overlaps_iff]
  omega

theorem overlaps_comm (r s : Region) : r.overlaps s = s.overlaps r :=
  Bool.and_comm _ _

theorem Meets.overlaps (h : r.Meets s) : r.overlaps s = true := by
  rw [meets_iff] at h
  rw [overlaps_iff]
  omega

theorem emptyInside_of_overlaps (h : r.overlaps s = true) (void : r.limit.toNat ≤ r.base.toNat) :
    r.EmptyInside s := by
  have limit := s.toNat_limit
  obtain ⟨below, behind⟩ := (overlaps_iff r s).mp h
  refine ⟨?_, by omega, below⟩
  -- the last address lies below no limit, so that the region cannot begin there
  rcases r.limit_le_base_iff.mp void with empty | last
  · exact empty
  · omega

theorem overlaps_iff_meets (r s : Region) : r.overlaps s = true ↔
    r.Meets s ∨ r.EmptyInside s ∨ s.EmptyInside r := by
  constructor
  · intro h
    by_cases first : r.limit.toNat ≤ r.base.toNat
    · exact Or.inr (Or.inl (emptyInside_of_overlaps h first))
    by_cases second : s.limit.toNat ≤ s.base.toNat
    · exact Or.inr (Or.inr (emptyInside_of_overlaps (overlaps_comm r s ▸ h) second))
    rw [overlaps_iff] at h
    refine Or.inl ((meets_iff r s).mpr ?_)
    omega
  · rintro (meets | inside | inside)
    · exact meets.overlaps
    · exact inside.overlaps
    · rw [overlaps_comm]
      exact inside.overlaps

theorem covers_iff_each (r : Region) {address length : Word} (pos : 0 < length.toNat) :
    r.covers address length = true ↔ ∀ i < length.toNat, address.toNat + i < 2 ^ 64 ∧
      r.covers (UInt64.ofNat (address.toNat + i)) 1 = true := by
  constructor
  · intro covers i hi
    exact covers_byte_of_covers covers hi
  · intro each
    obtain ⟨low, first⟩ := each 0 pos
    obtain ⟨high, last⟩ := each (length.toNat - 1) (by omega)
    rw [covers_byte_iff, UInt64.toNat_ofNat_of_lt' low] at first
    rw [covers_byte_iff, UInt64.toNat_ofNat_of_lt' high] at last
    rw [covers_iff]
    omega

/-- Wherever two regions lie and whatever their lengths, they overlap if they share an address, and
otherwise only if one is empty and inside the other; overlap is mutual; and a span lies in a region
exactly if each of its addresses does, none of them past the last. -/
theorem overlap_is_sharing_unless_empty (r s : Region) :
    (r.overlaps s = true ↔ r.Meets s ∨ r.EmptyInside s ∨ s.EmptyInside r) ∧
      (r.EmptyInside s ∨ s.EmptyInside r → ¬ r.Meets s) ∧
      r.overlaps s = s.overlaps r ∧
      ∀ address length : Word, 0 < length.toNat →
        (r.covers address length = true ↔ ∀ i < length.toNat, address.toNat + i < 2 ^ 64 ∧
          r.covers (UInt64.ofNat (address.toNat + i)) 1 = true) := by
  refine ⟨overlaps_iff_meets r s, ?_, overlaps_comm r s, fun _ _ => r.covers_iff_each⟩
  rintro (inside | inside) meets
  · exact inside.not_meets meets
  · exact inside.not_meets meets.symm

/-- A region that reaches past the top, another one that shares its first byte, and an empty one
inside. -/
theorem regions_at_the_top :
    let r : Region := ⟨0xfffffffffffffff8, 100⟩
    let s : Region := ⟨0xfffffffffffffff0, 9⟩
    let empty : Region := ⟨0xfffffffffffffffa, 0⟩
    r.Meets s ∧ empty.EmptyInside r ∧ empty.overlaps r = true ∧ ¬ empty.Meets r ∧
      0 < (7 : Word).toNat ∧ ∀ i < (7 : Word).toNat, r.base.toNat + i < 2 ^ 64 ∧
        r.covers (UInt64.ofNat (r.base.toNat + i)) 1 = true := by
  intro r s empty
  obtain ⟨overlap, -, -, each⟩ := overlap_is_sharing_unless_empty r s
  obtain ⟨-, apart, -, -⟩ := overlap_is_sharing_unless_empty empty r
  have pos : 0 < (7 : Word).toNat := by decide
  have inside : empty.EmptyInside r := by decide
  have full : ¬ (r.EmptyInside s ∨ s.EmptyInside r) := by decide
  refine ⟨?_, inside, by decide, apart (Or.inl inside), pos, (each r.base 7 pos).mp (by decide)⟩
  exact (overlap.mp (by decide)).resolve_right full

/-- An empty region overlaps one that it shares no address with. -/
theorem empty_region_overlaps :
    let empty : Region := ⟨5, 0⟩
    let s : Region := ⟨0, 10⟩
    empty.overlaps s = true ∧ ¬ ∃ x, empty.covers x 1 = true ∧ s.covers x 1 = true := by
  intro empty s
  have inside : empty.EmptyInside s := by decide
  exact ⟨by decide, inside.not_meets⟩

end Region

end AppHost.Memory
