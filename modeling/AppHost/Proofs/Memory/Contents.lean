import AppHost.Proofs.Memory.Rollback
/-! The bytes behind an arena, one address at a time. An allocator that stores bytes gives out
zeroes, and a write changes the bytes it addresses and no others; so an arena's promises have
contents of their own. -/
namespace AppHost.Memory

variable {σ : Type}

namespace Region

theorem holds_add {r : Region} {i : ℕ} (h : i < r.length.toNat) : r.Holds (r.base.toNat + i) :=
  ⟨Nat.le_add_right _ _, Nat.add_lt_add_left h _⟩

theorem lt_of_holds {r : Region} (representable : r.Representable) {x : ℕ} (holds : r.Holds x) :
    x < 2 ^ 64 :=
  Nat.lt_trans holds.2 representable

theorem covers_byte {r : Region} (representable : r.Representable) {x : ℕ} (holds : r.Holds x) :
    r.covers (UInt64.ofNat x) 1 = true := by
  have limit := r.toNat_limit
  rw [covers_byte_iff, UInt64.toNat_ofNat_of_lt' (lt_of_holds representable holds)]
  unfold Representable at representable
  unfold Holds at holds
  omega

theorem covers_iff_of_representable {r : Region} (representable : r.Representable)
    {address length : Word} : r.covers address length = true ↔ r.base.toNat ≤ address.toNat ∧
      address.toNat + length.toNat ≤ r.base.toNat + r.length.toNat := by
  have limit := r.toNat_limit
  unfold Representable at representable
  rw [covers_iff]
  omega

end Region

section Laws

variable [Allocator σ]

/-- The byte at an address, zero where nothing is stored. -/
def byteAt (s : σ) (x : ℕ) : UInt8 :=
  ((Allocator.read s (UInt64.ofNat x) 1).bind List.head?).getD 0

def bytesFrom (s : σ) (address length : ℕ) : Bytes :=
  (List.range length).map fun i => byteAt s (address + i)

@[simp] theorem length_bytesFrom (s : σ) (address length : ℕ) :
    (bytesFrom s address length).length = length := by
  simp [bytesFrom]

theorem getElem?_bytesFrom (s : σ) (address length i : ℕ) :
    (bytesFrom s address length)[i]? =
      if i < length then some (byteAt s (address + i)) else none := by
  by_cases h : i < length <;> simp [bytesFrom, h]

theorem SameBytes.byteAt {r : Region} {s t : σ} (same : SameBytes r s t)
    (representable : r.Representable) {x : ℕ} (holds : r.Holds x) :
    byteAt s x = byteAt t x := by
  have covers := Region.covers_byte representable holds
  unfold Memory.byteAt
  rw [same _ 1 (by decide) covers]

theorem SameBytes.bytesFrom {r p : Region} {s t : σ} (same : SameBytes r s t)
    (representable : r.Representable) (within : p.Within r) :
    bytesFrom s p.base.toNat p.length.toNat = bytesFrom t p.base.toNat p.length.toNat := by
  refine List.map_congr_left fun i hi => ?_
  exact same.byteAt representable (within.holds (Region.holds_add (List.mem_range.mp hi)))

/-- The laws of an allocator that fills what it gives out with zeroes and stores what is written. A
span of a live region reads as its bytes one by one. -/
structure Storing (backs : σ → List Region → Prop) : Prop extends Backing backs where
  whole : ∀ {s : σ} {live : List Region} {r : Region} {address length : Word},
    backs s live → r ∈ live → 0 < length.toNat → r.covers address length = true →
    Allocator.read s address length = some (bytesFrom s address.toNat length.toNat)
  zeroed : ∀ {s t : σ} {live : List Region} {size : Word} {prot : Protection} {r : Region} {x : ℕ},
    backs s live → Allocator.allocate s size prot = (some r, t) → 0 < size.toNat →
    Fits size r live → r.Holds x → byteAt t x = 0
  stored : ∀ {s t : σ} {live : List Region} {r : Region} {address : Word} {bytes : Bytes} {x : ℕ},
    backs s live → r ∈ live → r.Representable → bytes ≠ [] → bytes.length < 2 ^ 64 →
    r.covers address (UInt64.ofNat bytes.length) = true →
    Allocator.write s address bytes = some t → r.Holds x →
    byteAt t x = if address.toNat ≤ x ∧ x < address.toNat + bytes.length
      then bytes.getD (x - address.toNat) 0 else byteAt s x

/-- Whether every write into a live region is carried out. -/
def Accepting (backs : σ → List Region → Prop) : Prop :=
  ∀ {s : σ} {live : List Region} {r : Region} {address : Word} {bytes : Bytes},
    backs s live → r ∈ live → bytes ≠ [] → bytes.length < 2 ^ 64 →
    r.covers address (UInt64.ofNat bytes.length) = true →
    ∃ t, Allocator.write s address bytes = some t

end Laws

namespace Audited

variable [Allocator σ] {backs : σ → List Region → Prop}

theorem storing (laws : Storing backs) : Storing (Backs backs) where
  toBacking := backing laws.toBacking
  whole h hr pos covers := laws.whole (h.1 ▸ h.2) hr pos covers
  zeroed {a b live size prot r x} h ha pos fits holds := by
    simp only [Allocator.allocate] at ha
    split at ha
    · rename_i inner hi
      cases ha
      exact laws.zeroed h.2 hi pos fits holds
    · cases ha
  stored {a b live r address bytes x} h hr representable some_bytes short covers hw holds := by
    simp only [Allocator.write, Option.map_eq_some_iff] at hw
    obtain ⟨inner, hi, rfl⟩ := hw
    exact laws.stored h.2 hr representable some_bytes short covers hi holds

theorem accepting (accepts : Accepting backs) : Accepting (Backs backs) := by
  intro a live r address bytes h hr some_bytes short covers
  obtain ⟨inner, hi⟩ := accepts h.2 hr some_bytes short covers
  exact ⟨{ a with inner }, by simp [Allocator.write, hi]⟩

end Audited

namespace Arena

variable {backs : σ → List Region → Prop} {a b : Arena (Audited σ)}

theorem Sound.promise_representable (h : a.Sound) {m : Mapping} (hm : m ∈ a.mapped) :
    m.promise.Representable := by
  obtain ⟨raw, -, mem, within, -⟩ := h.raw_of_promise hm
  have representable := h.representable raw mem
  unfold Region.Representable at *
  unfold Region.Within at within
  omega

theorem Sound.covers_iff (h : a.Sound) {m : Mapping} (hm : m ∈ a.mapped) {address length : Word} :
    m.promise.covers address length = true ↔ m.promise.base.toNat ≤ address.toNat ∧
      address.toNat + length.toNat ≤ m.promise.base.toNat + m.promise.length.toNat :=
  Region.covers_iff_of_representable (h.promise_representable hm)

theorem Sound.regionOf?_eq_some (h : a.Sound) {m : Mapping} (hm : m ∈ a.mapped) {address : Word}
    (holds : m.promise.Holds address.toNat) : a.regionOf? address = some m.promise := by
  have first : m.promise.covers address 1 = true := by
    simpa using Region.covers_byte (h.promise_representable hm) holds
  unfold regionOf?
  cases hr : (a.mapped.map (·.promise)).find? (·.covers address 1) with
  | none => exact absurd first (List.find?_eq_none.mp hr m.promise (List.mem_map_of_mem hm))
  | some r =>
    obtain ⟨n, hn, rfl⟩ := List.mem_map.mp (List.mem_of_find?_eq_some hr)
    have found := List.find?_some hr
    have also := Region.holds_of_covers found (by decide)
    rw [h.mapping_unique hm hn holds also]

theorem regionOf?_eq_none {address : Word}
    (free : ∀ m ∈ a.mapped, ¬ m.promise.Holds address.toNat) : a.regionOf? address = none := by
  refine List.find?_eq_none.mpr fun r hr covers => ?_
  obtain ⟨m, hm, rfl⟩ := List.mem_map.mp hr
  exact free m hm (Region.holds_of_covers covers (by decide))

theorem Sound.checkSpan_ok (h : a.Sound) {m : Mapping} (hm : m ∈ a.mapped) {address length : Word}
    (pos : 0 < length.toNat) (covers : m.promise.covers address length = true) :
    a.checkSpan address length = .ok () := by
  have found := h.regionOf?_eq_some hm (Region.holds_of_covers covers pos)
  simp [checkSpan, found, covers]

variable [Allocator σ]

theorem Held.read_eq (laws : Storing backs) (h : a.Held backs) {m : Mapping} (hm : m ∈ a.mapped)
    {address length : Word} (pos : 0 < length.toNat)
    (covers : m.promise.covers address length = true) :
    a.read address length = .ok (bytesFrom a.allocator address.toNat length.toNat) := by
  obtain ⟨raw, -, mem, -, whole⟩ := h.raw_of_promise hm
  have bytes := (Audited.storing laws).whole ⟨rfl, h.stored⟩ (h.live.mem_iff.mpr mem) pos
    (whole covers)
  have some_bytes : ¬ readBuffer length = 0 := Nat.ne_of_gt pos
  simp [read, some_bytes, h.checkSpan_ok hm pos covers, bytes]

theorem Held.read_byte (laws : Storing backs) (h : a.Held backs) {m : Mapping} (hm : m ∈ a.mapped)
    {address : Word} (holds : m.promise.Holds address.toNat) :
    a.read address 1 = .ok [byteAt a.allocator address.toNat] := by
  have covers := Region.covers_byte (h.promise_representable hm) holds
  rw [UInt64.ofNat_toNat] at covers
  exact h.read_eq laws hm (by decide) covers

theorem Held.bytes_kept (h : a.Held backs) (keeps : a.Keeps b) {m : Mapping}
    (hm : m ∈ a.mapped) : bytesFrom a.allocator m.promise.base.toNat m.promise.length.toNat =
      bytesFrom b.allocator m.promise.base.toNat m.promise.length.toNat := by
  obtain ⟨raw, -, mem, within, -⟩ := h.raw_of_promise hm
  exact (keeps raw mem).bytesFrom (h.representable raw mem) within

/-- A mapping that was made serves its request, is new, and reads as zeroes. -/
theorem Held.map_ok (laws : Storing backs) (h : a.Held backs) {minLength base : Word}
    {prot : Protection} {minAlign : Word} (eq : a.map minLength prot minAlign = (.ok base, b))
    (kept : b.allocator.Kept) :
    ∃ size raw promise, promise.base = base ∧
      MapRequest.Served ⟨minLength, minAlign⟩ promise ∧ Extends backs a b size raw promise ∧
      ∀ x, promise.Holds x → byteAt b.allocator x = 0 := by
  rcases Arena.map_cases a minLength prot minAlign with
    ⟨e, -, no⟩ | ⟨plan, s, -, -, no⟩ | ⟨plan, raw, s, planned, asked, grown⟩
  · rw [eq] at no
    cases no
  · rw [eq] at no
    cases no
  · rw [eq, Prod.mk.injEq, Except.ok.injEq] at grown
    obtain ⟨rfl, rfl⟩ := grown
    obtain ⟨fits, within, served, long, pos⟩ :=
      served_of_kept (q := ⟨minLength, minAlign⟩) planned asked kept
    obtain ⟨held, keeps⟩ := h.grow laws.toBacking asked long fits within pos
    refine ⟨plan.size, raw, ⟨plan.baseIn raw, plan.length⟩, rfl, served,
      ⟨held, rfl, rfl, Audited.history_of_granted asked, keeps⟩, fun x holds => ?_⟩
    exact (Audited.storing laws).zeroed ⟨rfl, h.stored⟩ asked long fits (within.holds holds)

/-- A write shows at the addresses it names, whichever promise they lie in, and nowhere else. -/
theorem Held.byte_written (laws : Storing backs) (h : a.Held backs) {address : Word} {bytes : Bytes}
    (short : bytes.length < 2 ^ 64) (wrote : a.write address bytes = .ok b) {m : Mapping}
    (hm : m ∈ a.mapped) {x : ℕ} (holds : m.promise.Holds x) :
    byteAt b.allocator x = if address.toNat ≤ x ∧ x < address.toNat + bytes.length
      then bytes.getD (x - address.toNat) 0 else byteAt a.allocator x := by
  rcases write_cases wrote with ⟨rfl, rfl⟩ | ⟨s, some_bytes, checked, hs, rfl⟩
  · rw [if_neg (by simp only [List.length_nil]; omega)]
  obtain ⟨n, hn, -, span⟩ := checkSpan_cases checked
  obtain ⟨raw, place, mem, within, -⟩ := h.raw_of_promise hm
  obtain ⟨target, place', mem', -, whole⟩ := h.raw_of_promise hn
  have representable := h.representable raw mem
  have live : ∀ r ∈ a.actual, r ∈ a.allocator.live := fun r hr => h.live.mem_iff.mpr hr
  by_cases same : m.actual = n.actual
  · rw [same, place', Option.some.injEq] at place
    subst place
    exact (Audited.storing laws).stored ⟨rfl, h.stored⟩ (live target mem') representable some_bytes
      short (whole span) hs (within.holds holds)
  · have apart := h.apart_of_ne place place' same
    obtain ⟨-, frame⟩ := (Audited.storing laws).written ⟨rfl, h.stored⟩ (live target mem')
      some_bytes (whole span) hs
    have elsewhere : ¬ (address.toNat ≤ x ∧ x < address.toNat + bytes.length) := by
      intro inside
      refine apart x (within.holds holds) ?_
      have limits := (Region.covers_iff_of_representable (h.representable target mem')).mp
        (whole span)
      rw [UInt64.toNat_ofNat_of_lt' short] at limits
      unfold Region.Holds
      omega
    rw [if_neg elsewhere]
    exact ((frame raw (live raw mem) apart).byteAt representable (within.holds holds)).symm

end Arena

end AppHost.Memory
