import AppHost.Word
import Mathlib.Data.String.Basic
import Mathlib.Tactic.SplitIfs
/-! Names in the order of their code points are in the order of their bytes. Two different code
points already differ in the first byte in which their encodings do, and there as they do. -/
namespace AppHost.Text

def utf8 (s : String) : Bytes := s.toUTF8.data.toList

theorem utf8_eq_flatMap (s : String) : utf8 s = s.toList.flatMap String.utf8EncodeChar := by
  unfold utf8
  rw [String.toUTF8, ← String.utf8Encode_toList]
  simp [List.utf8Encode]

theorem toNat_val_lt (c : Char) : c.val.toNat < 0x110000 := by
  have valid := c.valid
  simp only [UInt32.isValidChar, Nat.isValidChar] at valid
  omega

theorem encode_append_lt {a b : Char} (h : a < b) (x y : Bytes) :
    String.utf8EncodeChar a ++ x < String.utf8EncodeChar b ++ y := by
  rw [Char.lt_def, UInt32.lt_iff_toNat_lt] at h
  have below := toNat_val_lt b
  -- the bytes hold digits to base 64
  have digits (k : ℕ) : k / 4096 = k / 64 / 64 ∧ k / 262144 = k / 64 / 64 / 64 := by omega
  unfold String.utf8EncodeChar
  simp only [digits]
  generalize a.val.toNat = m at *
  generalize b.val.toNat = n at *
  split_ifs <;>
    simp only [List.cons_append, List.nil_append, List.cons_lt_cons_iff, UInt8.lt_iff_toNat_lt,
      ← UInt8.toNat_inj, UInt8.toNat_ofNat'] <;>
    simp (disch := omega) only [Nat.mod_eq_of_lt] <;> omega

theorem utf8EncodeChar_ne_nil (c : Char) : String.utf8EncodeChar c ≠ [] := by
  unfold String.utf8EncodeChar
  simp only
  split_ifs <;> exact List.cons_ne_nil _ _

theorem flatMap_encode_lt {s t : List Char} (h : s < t) :
    s.flatMap String.utf8EncodeChar < t.flatMap String.utf8EncodeChar := by
  induction s generalizing t with
  | nil =>
    cases t with
    | nil => exact absurd h (List.lt_irrefl [])
    | cons b t =>
      obtain ⟨first, rest, eq⟩ := List.exists_cons_of_ne_nil (utf8EncodeChar_ne_nil b)
      rw [List.flatMap_cons, eq]
      exact List.nil_lt_cons _ _
  | cons a s ih =>
    cases t with
    | nil => exact absurd h (List.not_lt_nil _)
    | cons b t =>
      rw [List.flatMap_cons, List.flatMap_cons]
      rcases List.cons_lt_cons_iff.mp h with lt | ⟨rfl, rest⟩
      · exact encode_append_lt lt _ _
      · exact List.append_left_lt (ih rest)

theorem utf8_lt {s t : String} (h : s < t) : utf8 s < utf8 t := by
  rw [utf8_eq_flatMap, utf8_eq_flatMap]
  exact flatMap_encode_lt (String.lt_iff_toList_lt.mp h)

end AppHost.Text
