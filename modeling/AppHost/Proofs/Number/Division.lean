import AppHost.Capability.EntryPoint
import Mathlib.Algebra.Order.Group.Unbundled.Int
import Mathlib.Data.Int.ModEq
/-! Division as compiled code calls for it. For each integer type three helpers, found by their
names, share every dividend out into a multiple of the divisor and a remainder. They truncate toward
zero, wrap to the width, and give zero for a divisor that is zero. -/
namespace AppHost

namespace Number

variable {w : ℕ} {value : BitVec w → ℤ} {div mod : BitVec w → BitVec w → BitVec w} {a b : BitVec w}

/-- Division of the integers that patterns stand for, rounded toward zero and then wrapped. -/
structure Truncates (value : BitVec w → ℤ) (div mod : BitVec w → BitVec w → BitVec w) : Prop where
  reads : ∀ x, BitVec.ofInt w (value x) = x
  zero : value 0 = 0
  quotient : ∀ a b, b ≠ 0 → div a b = BitVec.ofInt w ((value a).tdiv (value b))
  remainder : ∀ a b, b ≠ 0 → value (mod a b) = (value a).tmod (value b)
  byZero : ∀ a, div a 0 = 0 ∧ mod a 0 = 0

theorem truncates_signed : Truncates (w := w) BitVec.toInt signedQuotient signedRemainder where
  reads _ := BitVec.ofInt_toInt
  zero := BitVec.toInt_zero
  quotient a b nonzero := by
    apply BitVec.eq_of_toInt_eq
    rw [signedQuotient, if_neg nonzero, BitVec.toInt_sdiv, BitVec.toInt_ofInt]
  remainder a b nonzero := by
    rw [signedRemainder, if_neg nonzero, BitVec.toInt_srem]
  byZero _ := ⟨if_pos rfl, if_pos rfl⟩

theorem truncates_unsigned : Truncates (w := w) (fun x => x.toNat) quotient remainder where
  reads x := by rw [BitVec.ofInt_natCast, BitVec.ofNat_toNat, BitVec.setWidth_eq]
  zero := by simp
  quotient a b nonzero := by
    rw [quotient, if_neg nonzero, ← Int.ofNat_tdiv, BitVec.ofInt_natCast]
    apply BitVec.eq_of_toNat_eq
    have small : a.toNat / b.toNat < 2 ^ w := Nat.lt_of_le_of_lt (Nat.div_le_self _ _) a.isLt
    rw [BitVec.toNat_ofNat, Nat.mod_eq_of_lt small]
    rfl
  remainder a b nonzero := by
    rw [remainder, if_neg nonzero]
    exact Int.ofNat_tmod a.toNat b.toNat
  byZero _ := ⟨if_pos rfl, if_pos rfl⟩

theorem Truncates.ne_zero (h : Truncates value div mod) (nonzero : value b ≠ 0) : b ≠ 0 := by
  rintro rfl
  exact nonzero h.zero

theorem Truncates.eq_zero (h : Truncates value div mod) (zero : value b = 0) : b = 0 := by
  rw [← h.reads b, zero]
  rfl

/-- The wrapped parts make up the dividend, as wrapping commutes with sums and products. -/
theorem Truncates.identity (h : Truncates value div mod) (nonzero : b ≠ 0) :
    product (div a b) b + mod a b = a := by
  have parts := Int.tdiv_mul_add_tmod (value a) (value b)
  calc product (div a b) b + mod a b
      = BitVec.ofInt w ((value a).tdiv (value b)) * BitVec.ofInt w (value b) +
          BitVec.ofInt w (value (mod a b)) := by
        rw [product, h.quotient a b nonzero, h.reads, h.reads]
    _ = BitVec.ofInt w ((value a).tdiv (value b) * value b + (value a).tmod (value b)) := by
        rw [h.remainder a b nonzero, BitVec.ofInt_add, BitVec.ofInt_mul]
    _ = a := by rw [parts, h.reads]

theorem Truncates.below (h : Truncates value div mod) (nonzero : value b ≠ 0) :
    |value (mod a b)| < |value b| := by
  rw [h.remainder a b (h.ne_zero nonzero), Int.abs_eq_natAbs, Int.abs_eq_natAbs, Int.natAbs_tmod]
  have pos : 0 < (value b).natAbs := Int.natAbs_pos.mpr nonzero
  exact_mod_cast Nat.mod_lt _ pos

theorem Truncates.sign (h : Truncates value div mod) (nonzero : b ≠ 0) :
    value (mod a b) = 0 ∨ (value (mod a b)).sign = (value a).sign := by
  rw [h.remainder a b nonzero]
  by_cases divides : value b ∣ value a
  · exact Or.inl (Int.tmod_eq_zero_of_dvd divides)
  · exact Or.inr ((Int.sign_tmod _ _).trans (if_neg divides))

theorem modEq_of_ofInt_eq {m n : ℤ} (h : BitVec.ofInt w m = BitVec.ofInt w n) :
    m ≡ n [ZMOD 2 ^ w] := by
  have same : m % ((2 ^ w : ℕ) : ℤ) = n % ((2 ^ w : ℕ) : ℤ) := by
    have low := congrArg (fun x => (x.toNat : ℤ)) h
    have pos : ((2 ^ w : ℕ) : ℤ) ≠ 0 := by exact_mod_cast (Nat.two_pow_pos w).ne'
    simpa only [BitVec.toNat_ofInt, Int.toNat_of_nonneg (Int.emod_nonneg _ pos)] using low
  rw [Int.ModEq]
  exact_mod_cast same

end Number

open Number

namespace NumberType

def bits (t : NumberType) (a : Word) : BitVec t.width := BitVec.ofNat t.width a.toNat

theorem width_le (t : NumberType) : t.width ≤ 64 := by
  cases t <;> decide

theorem bits_integer (name : String) (t : NumberType)
    (f : BitVec t.width → BitVec t.width → BitVec t.width) (a b : Word) :
    t.bits ((EntryPoint.integer name t f).call [a, b]) = f (t.bits a) (t.bits b) := by
  have small : (f (t.bits a) (t.bits b)).toNat < 2 ^ 64 :=
    Nat.lt_of_lt_of_le (BitVec.isLt _) (Nat.pow_le_pow_right (by decide) t.width_le)
  change BitVec.ofNat t.width (UInt64.ofNat (f (t.bits a) (t.bits b)).toNat).toNat = _
  rw [UInt64.toNat_ofNat_of_lt' small, BitVec.ofNat_toNat, BitVec.setWidth_eq]

theorem integer_eq_zero {name : String} {t : NumberType}
    {f : BitVec t.width → BitVec t.width → BitVec t.width} {a b : Word}
    (zero : f (t.bits a) (t.bits b) = 0) : (EntryPoint.integer name t f).call [a, b] = 0 := by
  change UInt64.ofNat (f (t.bits a) (t.bits b)).toNat = 0
  rw [zero]
  rfl

end NumberType

/-- How a product, a quotient and a remainder of an integer type belong together. Words are read by
their low bits, as the type has them. -/
structure SharesOut (t : NumberType) (mul div mod : EntryPoint) : Prop where
  typed : ∀ e ∈ [div, mod], e.parameters = [t, t] ∧ e.result = t
  widths : mul.parameters.map (·.width) = [t.width, t.width] ∧ mul.result.width = t.width
  identity : ∀ a b, t.toInt b ≠ 0 →
    t.toInt (mul.call [div.call [a, b], b]) + t.toInt (mod.call [a, b]) ≡
      t.toInt a [ZMOD 2 ^ t.width]
  below : ∀ a b, t.toInt b ≠ 0 → |t.toInt (mod.call [a, b])| < |t.toInt b|
  sign : ∀ a b, t.toInt b ≠ 0 →
    t.toInt (mod.call [a, b]) = 0 ∨ (t.toInt (mod.call [a, b])).sign = (t.toInt a).sign
  /-- The quotient is rounded toward zero before it is wrapped. -/
  quotient : ∀ a b, t.toInt b ≠ 0 →
    t.bits (div.call [a, b]) = BitVec.ofInt t.width ((t.toInt a).tdiv (t.toInt b))
  /-- The one quotient that wraps. -/
  overflow : ∀ a b, t.toInt a = t.least → t.toInt b = -1 →
    t.toInt (div.call [a, b]) = t.least ∧ t.toInt (mod.call [a, b]) = 0
  byZero : ∀ a b, t.toInt b = 0 → div.call [a, b] = 0 ∧ mod.call [a, b] = 0

open NumberType in
theorem Number.Truncates.sharesOut {t : NumberType} {value : BitVec t.width → ℤ}
    {f g : BitVec t.width → BitVec t.width → BitVec t.width} (h : Truncates value f g)
    (reading : ∀ a, t.toInt a = value (t.bits a))
    (wraps : value (BitVec.ofInt t.width (-t.least)) = t.least) (name other : String)
    {mul : EntryPoint}
    (widths : mul.parameters.map (·.width) = [t.width, t.width] ∧ mul.result.width = t.width)
    (multiplies : ∀ a b, t.bits (mul.call [a, b]) = product (t.bits a) (t.bits b)) :
    SharesOut t mul (.integer name t f) (.integer other t g) where
  typed e met := by
    rcases List.mem_cons.mp met with rfl | met
    · exact ⟨rfl, rfl⟩
    · cases List.mem_singleton.mp met
      exact ⟨rfl, rfl⟩
  widths := widths
  identity a b nonzero := by
    rw [reading] at nonzero
    simp only [reading, multiplies, bits_integer]
    apply modEq_of_ofInt_eq
    rw [BitVec.ofInt_add, h.reads, h.reads, h.reads]
    exact h.identity (h.ne_zero nonzero)
  below a b nonzero := by
    rw [reading] at nonzero
    simp only [reading, bits_integer]
    exact h.below nonzero
  sign a b nonzero := by
    rw [reading] at nonzero
    simp only [reading, bits_integer]
    exact h.sign (h.ne_zero nonzero)
  quotient a b nonzero := by
    rw [reading] at nonzero
    rw [bits_integer, h.quotient _ _ (h.ne_zero nonzero), reading, reading]
  overflow a b least minus := by
    have nonzero : value (t.bits b) ≠ 0 := by
      rw [← reading, minus]
      decide
    rw [reading, bits_integer, reading, bits_integer, h.quotient _ _ (h.ne_zero nonzero),
      h.remainder _ _ (h.ne_zero nonzero), ← reading, ← reading, least, minus]
    refine ⟨?_, Int.tmod_eq_zero_of_dvd ⟨-t.least, by omega⟩⟩
    -- the negated least integer is one past the greatest, and wraps to the least again
    rw [Int.tdiv_neg, Int.tdiv_one, wraps]
  byZero a b zero := by
    rw [reading] at zero
    have none : t.bits b = 0 := h.eq_zero zero
    refine ⟨integer_eq_zero ?_, integer_eq_zero ?_⟩
    · rw [none]
      exact (h.byZero _).1
    · rw [none]
      exact (h.byZero _).2

def HelpersShareOut (t : NumberType) (mul div mod : String) : Prop :=
  ∃ m q r, entryPoint? mul = some m ∧ entryPoint? div = some q ∧ entryPoint? mod = some r ∧
    SharesOut t m q r

/-- Every integer type has its division helpers. Signed and unsigned integers of one width share the
product, whose low bits are the same for both. -/
theorem division_helpers_share_out :
    HelpersShareOut .signed32 "__mulsi3" "__divsi3" "__modsi3" ∧
    HelpersShareOut .unsigned32 "__mulsi3" "__udivsi3" "__umodsi3" ∧
    HelpersShareOut .signed64 "__muldi3" "__divdi3" "__moddi3" ∧
    HelpersShareOut .unsigned64 "__muldi3" "__udivdi3" "__umoddi3" := by
  refine ⟨?signed32, ?unsigned32, ?signed64, ?unsigned64⟩
  case signed32 =>
    exact ⟨_, _, _, rfl, rfl, rfl, truncates_signed.sharesOut (fun _ => rfl) (by decide) _ _
      ⟨rfl, rfl⟩ (NumberType.bits_integer _ .signed32 _)⟩
  case unsigned32 =>
    exact ⟨_, _, _, rfl, rfl, rfl, truncates_unsigned.sharesOut (fun _ => rfl) (by decide) _ _
      ⟨rfl, rfl⟩ (NumberType.bits_integer _ .signed32 _)⟩
  case signed64 =>
    exact ⟨_, _, _, rfl, rfl, rfl, truncates_signed.sharesOut (fun _ => rfl) (by decide) _ _
      ⟨rfl, rfl⟩ (NumberType.bits_integer _ .signed64 _)⟩
  case unsigned64 =>
    exact ⟨_, _, _, rfl, rfl, rfl, truncates_unsigned.sharesOut (fun _ => rfl) (by decide) _ _
      ⟨rfl, rfl⟩ (NumberType.bits_integer _ .signed64 _)⟩

end AppHost
