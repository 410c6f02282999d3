import AppHost.Proofs.Memory.Refinement
/-! Several stores in a row. Where each of them goes is known before any is made, so what they
leave at an address depends on those that touch it only, and stores that touch different mappings
may be made in any order. -/
namespace AppHost.Memory

abbrev Store := Word × Bytes

namespace Store

def Touches (s : Store) (x : ℕ) : Prop := s.1.toNat ≤ x ∧ x < s.1.toNat + s.2.length

instance (s : Store) (x : ℕ) : Decidable (s.Touches x) := inferInstanceAs (Decidable (_ ∧ _))

def put (x : ℕ) (byte : UInt8) (s : Store) : UInt8 :=
  if s.Touches x then s.2.getD (x - s.1.toNat) 0 else byte

theorem foldl_put_untouched {stores : List Store} {x : ℕ} (untouched : ∀ s ∈ stores, ¬ s.Touches x)
    (byte : UInt8) : stores.foldl (put x) byte = byte := by
  induction stores with
  | nil => rfl
  | cons s rest ih =>
    obtain ⟨first, later⟩ := List.forall_mem_cons.mp untouched
    rw [List.foldl_cons, put, if_neg first]
    exact ih later

/-- Series of stores may change places if no two of them touch the address. -/
theorem foldl_put_perm {α : Type} {stores : α → List Store} {list other : List α}
    (perm : list.Perm other) {x : ℕ}
    (apart : ∀ m ∈ list, ∀ n ∈ list, m ≠ n →
      (∀ s ∈ stores m, ¬ s.Touches x) ∨ ∀ s ∈ stores n, ¬ s.Touches x) (byte : UInt8) :
    list.foldl (fun byte m => (stores m).foldl (put x) byte) byte =
      other.foldl (fun byte m => (stores m).foldl (put x) byte) byte := by
  refine perm.foldl_eq' ?_ byte
  intro m hm n hn z
  by_cases same : m = n
  · rw [same]
  · rcases apart m hm n hn same with untouched | untouched
    · rw [foldl_put_untouched untouched, foldl_put_untouched untouched]
    · rw [foldl_put_untouched untouched, foldl_put_untouched untouched]

end Store

namespace Arena

variable {σ : Type} {a b c : Arena (Audited σ)}

def Takes (a : Arena (Audited σ)) (s : Store) : Prop :=
  s.2 = [] ∨ a.checkSpan s.1 (UInt64.ofNat s.2.length) = .ok ()

theorem checkSpan_of_mapped (mapped : b.mapped = a.mapped) (address length : Word) :
    b.checkSpan address length = a.checkSpan address length := by
  unfold checkSpan regionOf?
  rw [mapped]

theorem takes_of_mapped (mapped : b.mapped = a.mapped) (s : Store) : b.Takes s ↔ a.Takes s := by
  unfold Takes
  rw [checkSpan_of_mapped mapped]

variable [Allocator σ] {backs : σ → List Region → Prop} {stores more : List Store}

/-- An arena after stores: they went through, and nothing else changed. -/
structure Stored (backs : σ → List Region → Prop) (stores : List Store)
    (a b : Arena (Audited σ)) : Prop where
  held : b.Held backs
  mapped : b.mapped = a.mapped
  actual : b.actual = a.actual
  taken : ∀ s ∈ stores, a.Takes s
  bytes : ∀ m ∈ a.mapped, ∀ x, m.promise.Holds x →
    byteAt b.allocator x = stores.foldl (Store.put x) (byteAt a.allocator x)

theorem Held.stored_none (h : a.Held backs) : Stored backs [] a a :=
  ⟨h, rfl, rfl, nofun, fun _ _ _ _ => rfl⟩

theorem Stored.trans (first : Stored backs stores a b) (second : Stored backs more b c) :
    Stored backs (stores ++ more) a c where
  held := second.held
  mapped := second.mapped.trans first.mapped
  actual := second.actual.trans first.actual
  taken s hs := by
    rcases List.mem_append.mp hs with hs | hs
    · exact first.taken s hs
    · exact (takes_of_mapped first.mapped s).mp (second.taken s hs)
  bytes m hm x holds := by
    rw [second.bytes m (first.mapped ▸ hm) x holds, first.bytes m hm x holds, List.foldl_append]

theorem Held.stored_one (laws : Storing backs) (h : a.Held backs) {s : Store}
    (short : s.2.length < 2 ^ 64) (wrote : a.write s.1 s.2 = .ok b) : Stored backs [s] a b := by
  have bytes {m : Mapping} (hm : m ∈ a.mapped) {x : ℕ} (holds : m.promise.Holds x) :=
    h.byte_written laws short wrote hm holds
  rcases write_cases wrote with ⟨nothing, rfl⟩ | ⟨t, some_bytes, checked, written, rfl⟩
  · refine ⟨h, rfl, rfl, ?_, fun m hm x holds => bytes hm holds⟩
    intro _ hs
    exact Or.inl (List.mem_singleton.mp hs ▸ nothing)
  · obtain ⟨m, hm, -, covers⟩ := checkSpan_cases checked
    obtain ⟨held, -⟩ := h.write laws.toBacking hm some_bytes covers written
    refine ⟨held, rfl, rfl, ?_, fun m hm x holds => bytes hm holds⟩
    intro _ hs
    exact Or.inr (List.mem_singleton.mp hs ▸ checked)

theorem Held.takes_iff (accepts : Accepting backs) (h : a.Held backs) {s : Store}
    (short : s.2.length < 2 ^ 64) : (∃ b, a.write s.1 s.2 = .ok b) ↔ a.Takes s := by
  constructor
  · rintro ⟨b, wrote⟩
    rcases write_cases wrote with ⟨nothing, -⟩ | ⟨-, -, checked, -⟩
    · exact Or.inl nothing
    · exact Or.inr checked
  · rintro (nothing | checked)
    · exact ⟨a, by simp [Arena.write, nothing]⟩
    · by_cases nothing : s.2 = []
      · exact ⟨a, by simp [Arena.write, nothing]⟩
      · obtain ⟨m, hm, -, covers⟩ := checkSpan_cases checked
        have pos : 0 < (UInt64.ofNat s.2.length).toNat := by
          rw [UInt64.toNat_ofNat_of_lt' short]
          exact List.length_pos_iff.mpr nothing
        obtain ⟨t, wrote⟩ := h.write_ok accepts nothing short hm pos covers
        exact ⟨_, wrote⟩

theorem Held.write_error_iff (accepts : Accepting backs) (h : a.Held backs) {address : Word}
    {bytes : Bytes} (short : bytes.length < 2 ^ 64) {e : AccessError} :
    a.write address bytes = .error e ↔
      bytes ≠ [] ∧ a.checkSpan address (UInt64.ofNat bytes.length) = .error e := by
  by_cases nothing : bytes = []
  · simp [Arena.write, nothing]
  cases checked : a.checkSpan address (UInt64.ofNat bytes.length) with
  | error e' => simp [Arena.write, nothing, checked]
  | ok =>
    obtain ⟨b, wrote⟩ := (h.takes_iff accepts (s := (address, bytes)) short).mpr (Or.inr checked)
    rw [wrote]
    simp

theorem write_error_of_mapped (accepts : Accepting backs) (h : a.Held backs) (i : b.Held backs)
    (mapped : b.mapped = a.mapped) {address : Word} {bytes : Bytes}
    (short : bytes.length < 2 ^ 64) {e : AccessError} :
    a.write address bytes = .error e ↔ b.write address bytes = .error e := by
  rw [h.write_error_iff accepts short, i.write_error_iff accepts short, checkSpan_of_mapped mapped]

/-- Reads cannot tell two arenas apart whose mappings are the same, with the same bytes in the one
that a read starts in. -/
theorem Held.read_same (laws : Storing backs) (h : a.Held backs) (i : b.Held backs)
    (mapped : b.mapped = a.mapped) {address : Word}
    (bytes : ∀ m ∈ a.mapped, m.promise.Holds address.toNat → ∀ x, m.promise.Holds x →
      byteAt b.allocator x = byteAt a.allocator x) (length : Word) :
    b.read address length = a.read address length := by
  have span := checkSpan_of_mapped mapped address length
  by_cases zero : length.toNat = 0
  · simp [read, readBuffer, zero]
  cases checked : a.checkSpan address length with
  | error e => simp [read, span, checked]
  | ok =>
    obtain ⟨m, hm, holds, covers⟩ := checkSpan_cases checked
    have pos : 0 < length.toNat := Nat.pos_of_ne_zero zero
    rw [h.read_eq laws hm pos covers, i.read_eq laws (mapped ▸ hm) pos covers]
    have inside := (h.covers_iff hm).mp covers
    refine congrArg Except.ok (List.map_congr_left ?_)
    intro k hk
    have below := List.mem_range.mp hk
    exact bytes m hm holds _ ⟨by omega, by omega⟩

end Arena

end AppHost.Memory
