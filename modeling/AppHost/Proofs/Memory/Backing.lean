import AppHost.Proofs.Memory.Mappings
/-! The bytes behind an arena. An allocator that backs its live regions keeps what was stored in
one of them until the region itself is written or taken back. -/
namespace AppHost.Memory

variable {σ : Type}

section Laws

variable [Allocator σ]

def SameBytes (r : Region) (s t : σ) : Prop :=
  ∀ address length : Word, 0 < length.toNat → r.covers address length = true →
    Allocator.read s address length = Allocator.read t address length

theorem SameBytes.refl (r : Region) (s : σ) : SameBytes r s s := fun _ _ _ _ => rfl

theorem SameBytes.trans {r : Region} {s t u : σ} (h : SameBytes r s t) (i : SameBytes r t u) :
    SameBytes r s u :=
  fun address length pos covers => (h address length pos covers).trans (i address length pos covers)

/-- The laws of an allocator that stores bytes, with `backs s live` for a state `s` that has
storage for exactly the live regions. Every operation leaves alone the bytes it is not about. -/
structure Backing (backs : σ → List Region → Prop) : Prop where
  granted : ∀ {s t : σ} {live : List Region} {size : Word} {prot : Protection} {r : Region},
    backs s live → Allocator.allocate s size prot = (some r, t) → 0 < size.toNat →
    Fits size r live → backs t (live ++ [r]) ∧ ∀ other ∈ live, SameBytes other s t
  refused : ∀ {s t : σ} {live : List Region} {size : Word} {prot : Protection},
    backs s live → Allocator.allocate s size prot = (none, t) →
    backs t live ∧ ∀ other ∈ live, SameBytes other s t
  released : ∀ {s : σ} {live : List Region} {r : Region}, backs s live → r ∈ live →
    backs (Allocator.free s r) (live.erase r) ∧
      ∀ other ∈ live.erase r, SameBytes other s (Allocator.free s r)
  written : ∀ {s t : σ} {live : List Region} {r : Region} {address : Word} {bytes : Bytes},
    backs s live → r ∈ live → bytes ≠ [] →
    r.covers address (UInt64.ofNat bytes.length) = true →
    Allocator.write s address bytes = some t →
    backs t live ∧ ∀ other ∈ live, other.Apart r → SameBytes other s t

end Laws

namespace Audited

def Backs (backs : σ → List Region → Prop) (a : Audited σ) (live : List Region) : Prop :=
  a.live = live ∧ backs a.inner live

theorem backing [Allocator σ] {backs : σ → List Region → Prop} (laws : Backing backs) :
    Backing (Backs backs) where
  granted {a b live size prot r} h ha pos fits := by
    obtain ⟨rfl, h⟩ := h
    have hist := history_of_granted ha
    simp only [Allocator.allocate] at ha
    split at ha
    · rename_i inner hi
      cases ha
      obtain ⟨backed, same⟩ := laws.granted h hi pos fits
      exact ⟨⟨live_snoc hist, backed⟩, same⟩
    · cases ha
  refused {a b live size prot} h ha := by
    obtain ⟨rfl, h⟩ := h
    simp only [Allocator.allocate] at ha
    split at ha
    · cases ha
    · rename_i inner hi
      cases ha
      obtain ⟨backed, same⟩ := laws.refused h hi
      exact ⟨⟨rfl, backed⟩, same⟩
  released {a live r} h hr := by
    obtain ⟨rfl, h⟩ := h
    obtain ⟨backed, same⟩ := laws.released h hr
    exact ⟨⟨live_snoc (history_free a r), backed⟩, same⟩
  written {a b live r address bytes} h hr some_bytes covers hw := by
    obtain ⟨rfl, h⟩ := h
    simp only [Allocator.write, Option.map_eq_some_iff] at hw
    obtain ⟨inner, hi, rfl⟩ := hw
    obtain ⟨backed, same⟩ := laws.written h hr some_bytes covers hi
    exact ⟨⟨rfl, backed⟩, same⟩

end Audited

namespace Arena

/-- A sound arena whose allocator has storage for what it gave out. -/
structure Held (backs : σ → List Region → Prop) (a : Arena (Audited σ)) : Prop
    extends Sound a where
  stored : backs a.allocator.inner a.allocator.live

variable {backs : σ → List Region → Prop} {a b : Arena (Audited σ)}

theorem held_empty (pid : Pid) {s : σ} (h : backs s []) :
    (Arena.empty pid (Audited.ofAllocator s)).Held backs :=
  ⟨sound_empty pid s, h⟩

variable [Allocator σ]

def Keeps (a b : Arena σ) : Prop := ∀ r ∈ a.actual, SameBytes r a.allocator b.allocator

theorem Keeps.refl (a : Arena σ) : a.Keeps a := fun r _ => SameBytes.refl r a.allocator

theorem Sound.read_eq (h : a.Sound) (mapped : b.mapped = a.mapped) (keeps : a.Keeps b)
    (address length : Word) : b.read address length = a.read address length := by
  have span : b.checkSpan address length = a.checkSpan address length := by
    unfold checkSpan regionOf?
    rw [mapped]
  unfold read
  rw [span]
  split
  · rfl
  · rename_i some_bytes
    split
    · rfl
    · rename_i checked
      obtain ⟨m, hm, -, covers⟩ := checkSpan_cases checked
      obtain ⟨raw, -, mem, -, whole⟩ := h.raw_of_promise hm
      have pos : 0 < length.toNat := Nat.pos_of_ne_zero (by simpa [readBuffer] using some_bytes)
      rw [keeps raw mem address length pos (whole covers)]

theorem Held.refused (laws : Backing backs) (h : a.Held backs) {size : Word} {prot : Protection}
    {s : Audited σ} (ha : Allocator.allocate a.allocator size prot = (none, s)) :
    ({ a with allocator := s } : Arena _).Held backs ∧ a.Keeps { a with allocator := s } := by
  obtain ⟨stored, same⟩ := (Audited.backing laws).refused ⟨rfl, h.stored⟩ ha
  refine ⟨⟨h.toSound.of_same (Audited.history_of_refused ha), ?_⟩, fun r hr => ?_⟩
  · exact stored.1 ▸ stored.2
  · exact same r (h.live.mem_iff.mpr hr)

theorem Held.grow (laws : Backing backs) (h : a.Held backs) {size : Word} {prot : Protection}
    {s : Audited σ} {raw promise : Region}
    (ha : Allocator.allocate a.allocator size prot = (some raw, s)) (long : 0 < size.toNat)
    (fits : Fits size raw a.allocator.live) (within : promise.Within raw)
    (pos : 0 < promise.length.toNat) :
    (a.grow s raw promise).Held backs ∧ a.Keeps (a.grow s raw promise) := by
  obtain ⟨stored, same⟩ := (Audited.backing laws).granted ⟨rfl, h.stored⟩ ha long fits
  refine ⟨⟨h.toSound.grow (Audited.history_of_granted ha) fits within pos, ?_⟩, fun r hr => ?_⟩
  · exact stored.1 ▸ stored.2
  · exact same r (h.live.mem_iff.mpr hr)

theorem Held.remove (laws : Backing backs) (h : a.Held backs) {index : ℕ} {m : Mapping}
    (hm : a.mapped[index]? = some m) :
    (a.remove index m).Held backs ∧ (a.remove index m).actual = a.actual.eraseIdx m.actual ∧
      ∀ r ∈ a.actual.eraseIdx m.actual, SameBytes r a.allocator (a.remove index m).allocator := by
  obtain ⟨raw, hr⟩ := h.paired.raw (List.mem_of_getElem? hm)
  have mem : raw ∈ a.allocator.live := h.live.mem_iff.mpr (List.mem_of_getElem? hr)
  obtain ⟨stored, same⟩ := (Audited.backing laws).released ⟨rfl, h.stored⟩ mem
  rw [← allocator_remove hr index] at stored same
  refine ⟨⟨h.toSound.remove hm, stored.1 ▸ stored.2⟩, rfl, fun r hr => ?_⟩
  refine same r ?_
  rw [← stored.1, (h.toSound.remove hm).live.mem_iff]
  exact hr

/-- A write through a promise stays in the raw allocation behind it. -/
theorem Held.write (laws : Backing backs) (h : a.Held backs) {address : Word} {bytes : Bytes}
    {s : Audited σ} {m : Mapping} (hm : m ∈ a.mapped) (some_bytes : bytes ≠ [])
    (covers : m.promise.covers address (UInt64.ofNat bytes.length) = true)
    (hw : Allocator.write a.allocator address bytes = some s) :
    ({ a with allocator := s } : Arena _).Held backs ∧
      ∃ raw, a.actual[m.actual]? = some raw ∧
        ∀ r ∈ a.actual, r.Apart raw → SameBytes r a.allocator s := by
  obtain ⟨raw, hr, mem, -, whole⟩ := h.raw_of_promise hm
  obtain ⟨stored, same⟩ := (Audited.backing laws).written ⟨rfl, h.stored⟩
    (h.live.mem_iff.mpr mem) some_bytes (whole covers) hw
  refine ⟨⟨h.toSound.of_same (Audited.history_write hw), ?_⟩, raw, hr, fun r hr => ?_⟩
  · exact stored.1 ▸ stored.2
  · exact same r (h.live.mem_iff.mpr hr)

theorem Held.step (laws : Backing backs) (h : a.Held backs) (next : a.Step b)
    (kept : b.allocator.Kept) : b.Held backs := by
  cases next with
  | idle => exact h
  | pointed point => exact ⟨h.toSound.step (.pointed point) kept, h.stored⟩
  | refused asked => exact (h.refused laws asked).1
  | @grown minLength minAlign plan prot raw s planned asked =>
    obtain ⟨fits, within, -, long, pos⟩ :=
      served_of_kept (q := ⟨minLength, minAlign⟩) planned asked kept
    exact (h.grow laws asked long fits within pos).1
  | removed found => exact (h.remove laws found).1
  | stored some_bytes checked wrote =>
    obtain ⟨m, hm, -, covers⟩ := checkSpan_cases checked
    exact (h.write laws hm some_bytes covers wrote).1

theorem Held.reaches (laws : Backing backs) (h : a.Held backs) (hr : a.Reaches b)
    (kept : b.allocator.Kept) : b.Held backs :=
  hr.preserves_kept kept (fun held next => held.step laws next) h

end Arena

end AppHost.Memory
