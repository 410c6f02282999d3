import AppHost.Number.Power
/-! Machine words of the hosted platform: 64 bits, with the sums and roundings that refuse,
clamp or wrap at the top of the address space, and their byte order. -/
namespace AppHost

abbrev Word := UInt64
abbrev Bytes := List UInt8

namespace Word

/-- The pointer width in bytes, the least alignment of any mapping. -/
def size : Word := 8

def add? (a b : Word) : Option Word :=
  if a.toNat + b.toNat < 2 ^ 64 then some (a + b) else none

def addClamped (a b : Word) : Word :=
  (add? a b).getD (0 - 1)

def isPowerOfTwo (a : Word) : Bool :=
  a != 0 && a &&& (a - 1) == 0

/-- The least multiple of `align` that is at least `a`, wrapping past the greatest word. -/
def alignUp (a align : Word) : Word :=
  if a % align == 0 then a else a + (align - a % align)

/-- The least multiple of `align` that is at least `a`, unless it leaves 64 bits. -/
def alignUp? (a align : Word) : Option Word :=
  if a % align == 0 then some a else add? a (align - a % align)

/-- The greatest multiple of `align` that is at most `a`, for `align` a power of two. -/
def alignDown (a align : Word) : Word :=
  a &&& (0 - align)

/-- The `width` low bytes of a word, least significant first. -/
def toBytes : Nat → Word → Bytes
  | 0, _ => []
  | width + 1, a => a.toUInt8 :: toBytes width (a >>> 8)

theorem add?_eq_some_iff {a b c : Word} :
    add? a b = some c ↔ a.toNat + b.toNat < 2 ^ 64 ∧ a + b = c := by
  simp [add?]

theorem toNat_of_add? {a b c : Word} (h : add? a b = some c) : c.toNat = a.toNat + b.toNat := by
  obtain ⟨small, rfl⟩ := add?_eq_some_iff.1 h
  rw [UInt64.toNat_add, Nat.mod_eq_of_lt small]

theorem toNat_addClamped (a b : Word) :
    (addClamped a b).toNat = min (a.toNat + b.toNat) (2 ^ 64 - 1) := by
  unfold addClamped add?
  split
  · rename_i small
    rw [Option.getD_some, UInt64.toNat_add, Nat.mod_eq_of_lt small]
    omega
  · rename_i large
    have top : (0 - 1 : Word).toNat = 2 ^ 64 - 1 := by decide
    rw [Option.getD_none, top]
    omega

theorem min_choice (a b : Word) : min a b = a ∨ min a b = b := by
  change (if a ≤ b then a else b) = _ ∨ (if a ≤ b then a else b) = _
  split
  · exact Or.inl rfl
  · exact Or.inr rfl

theorem max_choice (a b : Word) : max a b = a ∨ max a b = b := by
  change (if a ≤ b then b else a) = _ ∨ (if a ≤ b then b else a) = _
  split
  · exact Or.inr rfl
  · exact Or.inl rfl

theorem toNat_min (a b : Word) : (min a b).toNat = min a.toNat b.toNat := by
  change (if a ≤ b then a else b).toNat = _
  split <;> rename_i h <;> rw [UInt64.le_iff_toNat_le] at h <;> omega

theorem toNat_max (a b : Word) : (max a b).toNat = max a.toNat b.toNat := by
  change (if a ≤ b then b else a).toNat = _
  split <;> rename_i h <;> rw [UInt64.le_iff_toNat_le] at h <;> omega

theorem dvd_add_sub_mod {n : Nat} (a : Nat) (pos : 0 < n) : n ∣ a + (n - a % n) := by
  have below := Nat.mod_lt a pos
  refine ⟨a / n + 1, ?_⟩
  rw [Nat.mul_add, Nat.mul_one]
  have split := Nat.div_add_mod a n
  omega

theorem toNat_sub_mod {align : Word} (a : Word) (pos : 0 < align.toNat) :
    (align - a % align).toNat = align.toNat - a.toNat % align.toNat := by
  have below := Nat.mod_lt a.toNat pos
  rw [UInt64.toNat_sub_of_le _ _ (UInt64.le_iff_toNat_le.2 (by rw [UInt64.toNat_mod]; omega)),
    UInt64.toNat_mod]

theorem alignUp?_spec {a align b : Word} (pos : 0 < align.toNat) (h : alignUp? a align = some b) :
    align.toNat ∣ b.toNat ∧ a.toNat ≤ b.toNat ∧ b.toNat < a.toNat + align.toNat := by
  have below := Nat.mod_lt a.toNat pos
  unfold alignUp? at h
  split at h
  · rename_i even
    cases h
    have even : a.toNat % align.toNat = 0 := by
      simpa [UInt64.toNat_mod] using congrArg (·.toNat) (eq_of_beq even)
    exact ⟨Nat.dvd_of_mod_eq_zero even, Nat.le_refl _, by omega⟩
  · rename_i odd
    have odd : a.toNat % align.toNat ≠ 0 := fun even =>
      odd (beq_iff_eq.2 (UInt64.toNat_inj.1 (by simpa [UInt64.toNat_mod] using even)))
    rw [toNat_of_add? h, toNat_sub_mod a pos]
    exact ⟨dvd_add_sub_mod a.toNat pos, by omega, by omega⟩

theorem alignUp?_of_room {a align : Word} (pos : 0 < align.toNat)
    (room : a.toNat + align.toNat ≤ 2 ^ 64) : alignUp? a align = some (alignUp a align) := by
  unfold alignUp? alignUp
  split
  · rfl
  · rename_i odd
    have odd : a.toNat % align.toNat ≠ 0 := fun even =>
      odd (beq_iff_eq.2 (UInt64.toNat_inj.1 (by simpa [UInt64.toNat_mod] using even)))
    refine add?_eq_some_iff.2 ⟨?_, rfl⟩
    rw [toNat_sub_mod a pos]
    omega

@[simp] theorem length_toBytes (width : Nat) (a : Word) : (toBytes width a).length = width := by
  induction width generalizing a with
  | zero => rfl
  | succ width ih => simp [toBytes, ih]

end Word

inductive ByteOrder where
  | little
  | big
  deriving DecidableEq, Repr

namespace ByteOrder

def littleValue : Bytes → Nat
  | [] => 0
  | b :: rest => b.toNat + 256 * littleValue rest

def value : ByteOrder → Bytes → Nat
  | .little, bytes => littleValue bytes
  | .big, bytes => littleValue bytes.reverse

theorem littleValue_toBytes (width : Nat) (a : Word) :
    littleValue (Word.toBytes width a) = a.toNat % 256 ^ width := by
  induction width generalizing a with
  | zero => simp [Word.toBytes, littleValue, Nat.mod_one]
  | succ width ih =>
    have shifted : (a >>> 8).toNat = a.toNat / 256 := by
      rw [UInt64.toNat_shiftRight]
      exact Nat.shiftRight_eq_div_pow a.toNat 8
    have low : a.toUInt8.toNat = a.toNat % 256 := UInt64.toNat_toUInt8 a
    rw [Word.toBytes, littleValue, ih, shifted, low, Nat.pow_succ', Nat.mod_mul]

end ByteOrder

namespace Bytes

/-- The `length` bytes from `offset` on, if all of them, and the offset itself, lie inside. -/
def slice? (bytes : Bytes) (offset length : Nat) : Option Bytes :=
  if offset + length ≤ bytes.length then some ((bytes.drop offset).take length) else none

theorem slice?_eq_some_iff {bytes piece : Bytes} {offset length : Nat} :
    slice? bytes offset length = some piece ↔
      offset + length ≤ bytes.length ∧ (bytes.drop offset).take length = piece := by
  simp [slice?]

end Bytes

end AppHost
