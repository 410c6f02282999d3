import AppHost.Word
import Mathlib.Data.Nat.Bitwise
/-! Words that are powers of two, and rounding down to a multiple of one by a mask. -/
namespace AppHost

namespace Word

theorem isPowerOfTwo_iff {a : Word} : isPowerOfTwo a = true ↔ ∃ k, a.toNat = 2 ^ k := by
  rw [isPowerOfTwo, Bool.and_eq_true, bne_iff_ne, beq_iff_eq]
  by_cases zero : a = 0
  · subst zero
    refine iff_of_false (fun both => both.1 rfl) ?_
    rintro ⟨k, power⟩
    exact (Nat.two_pow_pos k).ne power
  have pos : a.toNat ≠ 0 := fun none => zero (UInt64.toNat_inj.mp none)
  have low : (a - 1).toNat = a.toNat - 1 :=
    UInt64.toNat_sub_of_le _ _ (UInt64.le_iff_toNat_le.mpr (Nat.one_le_iff_ne_zero.mpr pos))
  rw [and_iff_right zero, ← UInt64.toNat_inj, UInt64.toNat_and, low]
  exact Nat.and_sub_one_eq_zero_iff_isPowerOfTwo pos

theorem mod_beq_zero_iff {a n : Word} : (a % n == 0) = true ↔ a.toNat % n.toNat = 0 := by
  rw [beq_iff_eq, ← UInt64.toNat_inj, UInt64.toNat_mod, UInt64.toNat_zero]

theorem two_pow_dvd_of_le {j k : ℕ} (h : 2 ^ j ≤ 2 ^ k) : 2 ^ j ∣ 2 ^ k :=
  Nat.pow_dvd_pow 2 ((Nat.pow_le_pow_iff_right (by decide)).mp h)

theorem toNat_zero_sub {align : Word} {k : ℕ} (power : align.toNat = 2 ^ k) :
    (0 - align).toNat = (2 ^ (64 - k) - 1) * 2 ^ k := by
  have below := align.toNat_lt
  have small : k < 64 := by
    rw [power] at below
    exact (Nat.pow_lt_pow_iff_right (by decide)).mp below
  have pos := Nat.two_pow_pos k
  rw [Nat.sub_mul, ← Nat.pow_add, Nat.sub_add_cancel (Nat.le_of_lt small), Nat.one_mul, ← power,
    UInt64.toNat_sub]
  simp only [UInt64.toNat_zero, Nat.add_zero]
  exact Nat.mod_eq_of_lt (by omega)

theorem toNat_alignDown {a align : Word} (h : isPowerOfTwo align = true) :
    (alignDown a align).toNat = a.toNat / align.toNat * align.toNat := by
  obtain ⟨k, power⟩ := isPowerOfTwo_iff.mp h
  rw [alignDown, UInt64.toNat_and, toNat_zero_sub power, power]
  apply Nat.eq_of_testBit_eq
  intro i
  rw [Nat.testBit_and, Nat.testBit_mul_two_pow, Nat.testBit_mul_two_pow,
    Nat.testBit_two_pow_sub_one, Nat.testBit_div_two_pow]
  by_cases kept : k ≤ i
  · rw [Nat.sub_add_cancel kept]
    by_cases word : i < 64
    · have bits : i - k < 64 - k := by omega
      simp [kept, bits]
    · have high : a.toNat.testBit i = false :=
        Nat.testBit_lt_two_pow (Nat.lt_of_lt_of_le a.toNat_lt
          (Nat.pow_le_pow_right (by decide) (Nat.not_lt.mp word)))
      simp [high]
  · simp [kept]

end Word

end AppHost
