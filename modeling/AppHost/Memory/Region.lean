import AppHost.Word
/-! Contiguous regions of the address space and the access intents attached to them.
A region owns nothing; its limit is held at the top of the address space. -/
namespace AppHost.Memory

/-- What an owner means to do with a region. Enforcement is up to the allocator. -/
structure Protection where
  read : Bool
  write : Bool
  execute : Bool
  deriving DecidableEq, Repr

namespace Protection

def readWrite : Protection := ⟨true, true, false⟩

/-- Bit 0 reads, bit 1 writes, bit 2 executes; other bits are dropped. -/
def ofBits (bits : Nat) : Protection :=
  ⟨bits.testBit 0, bits.testBit 1, bits.testBit 2⟩

def bits (p : Protection) : Nat :=
  p.read.toNat + 2 * p.write.toNat + 4 * p.execute.toNat

def union (p q : Protection) : Protection :=
  ⟨p.read || q.read, p.write || q.write, p.execute || q.execute⟩

end Protection

structure Region where
  base : Word
  length : Word
  deriving DecidableEq, Repr

namespace Region

/-- One past the last byte, held at the top of the address space. -/
def limit (r : Region) : Word := Word.addClamped r.base r.length

/-- Whether `[address, address + length)` lies inside the region. A span that wraps never does. -/
def covers (r : Region) (address length : Word) : Bool :=
  match Word.add? address length with
  | some stop => r.base ≤ address && stop ≤ r.limit
  | none => false

/-- Whether each of two regions starts below the limit of the other. -/
def overlaps (r s : Region) : Bool :=
  r.base < s.limit && s.base < r.limit

theorem toNat_limit (r : Region) :
    r.limit.toNat = min (r.base.toNat + r.length.toNat) (2 ^ 64 - 1) :=
  Word.toNat_addClamped r.base r.length

theorem covers_iff (r : Region) (address length : Word) :
    r.covers address length = true ↔
      r.base.toNat ≤ address.toNat ∧ address.toNat + length.toNat ≤ r.limit.toNat := by
  unfold covers
  split
  · rename_i stop h
    rw [Bool.and_eq_true, decide_eq_true_iff, decide_eq_true_iff, UInt64.le_iff_toNat_le,
      UInt64.le_iff_toNat_le, Word.toNat_of_add? h]
  · rename_i h
    have limit := r.toNat_limit
    have large : ¬ address.toNat + length.toNat < 2 ^ 64 := fun small =>
      absurd (Word.add?_eq_some_iff.2 ⟨small, rfl⟩) (by simp [h])
    simp only [Bool.false_eq_true, false_iff]
    omega

theorem overlaps_iff (r s : Region) :
    r.overlaps s = true ↔ r.base.toNat < s.limit.toNat ∧ s.base.toNat < r.limit.toNat := by
  unfold overlaps
  rw [Bool.and_eq_true, decide_eq_true_iff, decide_eq_true_iff, UInt64.lt_iff_toNat_lt,
    UInt64.lt_iff_toNat_lt]

end Region

structure ResumePoint where
  pc : Word
  sp : Word
  deriving DecidableEq, Repr

end AppHost.Memory
