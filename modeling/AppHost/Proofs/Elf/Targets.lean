import AppHost.Proofs.Elf.Patching
/-! Where relocated words lie. A word stays in the mapping of its own image and begins in a segment.
Only its first byte is held against the segments, so its last bytes may lie behind the end of one.
-/
namespace AppHost

open Memory

namespace Elf

namespace Relocation

variable {cls : Class} {image : Image} {symbols : SymbolTable} {r : Relocation}

theorem Yields.width_pos {width : ℕ} {value : Word} (h : r.Yields cls image symbols width value) :
    0 < width := by
  cases h with
  | absolute32 | absolute64 => decide
  | relative | jumpSlot => cases cls <;> decide

theorem mem_stores {relocations : List Relocation} {made : List Store}
    (h : stores cls image symbols relocations = .ok made) (hr : r ∈ relocations) {s : Store}
    (patched : r.patch cls image symbols = .ok (some s)) : s ∈ made := by
  induction relocations generalizing made with
  | nil => cases hr
  | cons q rest ih =>
    obtain ⟨patch, first, h⟩ := bind_eq_ok.mp h
    obtain ⟨others, later, h⟩ := bind_eq_ok.mp h
    cases h
    rcases List.mem_cons.mp hr with rfl | hr
    · rw [patched] at first
      cases first
      exact List.mem_append_left _ List.mem_cons_self
    · exact List.mem_append_right _ (ih later hr)

/-- A word that an arena takes lies in the mapping of the image, all of it. -/
theorem Patches.at_home {σ : Type} {backs : σ → List Region → Prop} {a : Arena (Audited σ)}
    (held : a.Held backs) (housed : image.Housed a) {place : Word} {width : ℕ} {value : Word}
    (h : r.Patches cls image symbols place width value)
    (taken : a.Takes (place, Word.toBytes width value)) :
    ∃ home ∈ a.mapped, image.base = some home.promise.base ∧
      ∀ i < width, home.promise.Holds (place.toNat + i) := by
  have pos := h.yields.width_pos
  have received := patch_some (patch_of_patches h)
  have checked : a.checkSpan place (UInt64.ofNat width) = .ok () := by
    rcases taken with nothing | checked
    · have none_long : ([] : Bytes).length = width := nothing ▸ Word.length_toBytes width value
      rw [List.length_nil] at none_long
      omega
    · rwa [Word.length_toBytes] at checked
  obtain ⟨home, hh, first, covers⟩ := Arena.checkSpan_cases checked
  have touched : Store.Touches (place, Word.toBytes width value) place.toNat := by
    refine ⟨Nat.le_refl _, ?_⟩
    rw [Word.length_toBytes]
    exact Nat.lt_add_of_pos_right pos
  refine ⟨home, hh, Image.home_of_touched held housed received taken hh first touched, ?_⟩
  intro i hi
  have small := h.width_le
  have span := (held.covers_iff hh).mp covers
  rw [UInt64.toNat_ofNat_of_lt' (by change width < 2 ^ 64; omega)] at span
  exact ⟨by omega, by omega⟩

end Relocation

end Elf

namespace Image

variable {σ : Type} [Allocator σ] {backs : σ → List Region → Prop} {a b : Arena (Audited σ)}
  {image : Image}

/-- A placed image translates addresses of segments only; and the addresses behind a translated one
are the image of the object addresses behind its own, as far as segments hold these. -/
theorem translated_of_place (laws : Backing backs) (held : a.Held backs) {segments : List Segment}
    (done : place segments a = (.ok image, b)) (kept : b.allocator.Kept) {v place : Word}
    (translated : image.translate? v = some place) :
    (∃ s ∈ segments, s.Holds v.toNat) ∧ ∀ i, place.toNat + i < 2 ^ 64 →
      ((∃ w, image.translate? w = some (UInt64.ofNat (place.toNat + i))) ↔
        ∃ s ∈ segments, s.Holds (v.toNat + i)) := by
  rcases place_around laws held done kept with
    ⟨rfl, -⟩ | ⟨layout, size, raw, promise, hl, long, rfl, extended⟩
  · cases translated
  have within := fun s hs => Layout.within hl long (s := s) hs
  have iff := translate?_around_iff
    (extended.held.promise_representable extended.latest_mem) within
  obtain ⟨used, distance⟩ := (iff v place).mp translated
  refine ⟨Layout.exists_occupied.mp used, ?_⟩
  intro i small
  have address : (UInt64.ofNat (place.toNat + i)).toNat = place.toNat + i :=
    UInt64.toNat_ofNat_of_lt' small
  rw [← Layout.exists_occupied]
  constructor
  · rintro ⟨w, found⟩
    obtain ⟨used, same⟩ := (iff w _).mp found
    have behind : w.toNat = v.toNat + i := by omega
    rwa [behind] at used
  · rintro ⟨s, hs, inside⟩
    have behind : (UInt64.ofNat (v.toNat + i)).toNat = v.toNat + i :=
      UInt64.toNat_ofNat_of_lt' (Layout.address_lt hl hs inside)
    refine ⟨UInt64.ofNat (v.toNat + i), (iff _ _).mpr ⟨⟨s, hs, ?_⟩, ?_⟩⟩
    · rwa [behind]
    · omega

end Image

namespace Elf.ElfObject

open Relocation

variable {σ : Type} [Allocator σ] {backs : σ → List Region → Prop}

/-- Wherever the segments of an object were placed, and whatever was done since, short of unmapping
the image: relocating changes no byte but those of its words, each word begins in a segment and lies
in the mapping of the image, and its bytes are images of object addresses as far as segments hold
these. A word that does not begin in a segment is refused. -/
theorem relocated_words_begin_in_segments (laws : Storing backs) {s : σ} (fresh : backs s [])
    (pid : Pid) (earlier later : List Operation) (o : ElfObject) (symbols : SymbolTable) :
    let a := (Arena.empty pid (Audited.ofAllocator s)).run earlier
    let placed := Image.place o.segments a
    let b := placed.2.run later
    ∀ image, placed.1 = .ok image → b.allocator.Kept →
      (∀ base, .unmap base ∈ later → image.base ≠ some base) →
      let relocated := o.toObject.relocate image symbols b
      (relocated.1 = .ok () →
        (∀ m ∈ b.mapped, ∀ x : Word, m.promise.Holds x.toNat →
          (∀ q ∈ o.relocations, ¬ q.Covers o.cls image symbols x.toNat) →
            relocated.2.read x 1 = b.read x 1) ∧
        ∀ q ∈ o.relocations, ∀ place width value, q.Patches o.cls image symbols place width value →
          (∃ s ∈ o.segments, s.Holds q.offset.toNat) ∧
          ∃ home ∈ b.mapped, image.base = some home.promise.base ∧
            ∀ i < width, home.promise.Holds (place.toNat + i) ∧
              ((∃ v, image.translate? v = some (UInt64.ofNat (place.toNat + i))) ↔
                ∃ s ∈ o.segments, s.Holds (q.offset.toNat + i))) ∧
      ∀ first q rest c width value, o.relocations = first ++ q :: rest →
        applyAll o.cls image symbols first b = (.ok (), c) →
        q.Yields o.cls image symbols width value →
        (∀ s ∈ o.segments, ¬ s.Holds q.offset.toNat) →
          relocated = (.error (.invalid .relocationTarget), c) := by
  intro a placed b image ok kept spared relocated
  have whole : Image.place o.segments a = (.ok image, placed.2) := Prod.ext ok rfl
  have since : placed.2.Reaches b := ⟨later, rfl⟩
  have kept_placed := since.kept kept
  have held : a.Held backs := (Arena.held_empty pid fresh).reaches laws.toBacking ⟨earlier, rfl⟩
    ((Image.place_reaches o.segments a).kept kept_placed)
  have held_placed : placed.2.Held backs :=
    held.reaches laws.toBacking (Image.place_reaches o.segments a) kept_placed
  have held_b : b.Held backs := held_placed.reaches laws.toBacking since kept
  have housed : image.Housed b :=
    (Image.place_housed laws.toBacking held whole kept_placed).1.run laws.toBacking held_placed kept
      spared
  have translated {v place : Word} (found : image.translate? v = some place) :=
    Image.translated_of_place laws.toBacking held whole kept_placed found
  constructor
  · intro through
    obtain ⟨made, stored, -, all⟩ : ∃ made, b.Stored backs made relocated.2 ∧
        (∀ s ∈ made, image.Receives s) ∧
        (relocated.1 = .ok () → stores o.cls image symbols o.relocations = .ok made) :=
      applyAll_stored laws held_b o.relocations
    constructor
    · intro m hm x holds uncovered
      rw [held_b.read_byte laws hm holds, stored.held.read_byte laws (stored.mapped ▸ hm) holds,
        stored.bytes m hm _ holds, (leaves_iff (all through)).mp (.unchanged uncovered)]
    · intro q hq place width value patches
      have taken := stored.taken _ (mem_stores (all through) hq (patch_of_patches patches))
      obtain ⟨home, hh, base, inside⟩ := patches.at_home held_b housed taken
      obtain ⟨used, behind⟩ := translated patches.placed
      refine ⟨used, home, hh, base, ?_⟩
      intro i hi
      have representable := held_b.promise_representable hh
      exact ⟨inside i hi, behind i (Region.lt_of_holds representable (inside i hi))⟩
  · intro first q rest c width value split through yields unused
    -- an image translates the addresses of its segments only
    have nowhere : image.translate? q.offset = none := by
      rw [Option.eq_none_iff_forall_ne_some]
      intro place found
      obtain ⟨⟨s, hs, holds⟩, -⟩ := translated found
      exact unused s hs holds
    exact applyAll_error_iff.mpr ⟨first, q, rest, split, through, .target yields nowhere⟩

/-- A word over the ends of two segments that meet, after the mapping before the image is gone. -/
theorem word_across_adjacent_segments :
    let o : ElfObject := ⟨.bits64,
      [⟨0x1000, 12, 4, [1], .readWrite⟩, ⟨0x100c, 8, 4, [2], .readWrite⟩],
      [], [], none, [⟨0x1008, .relative, 0x1000, none⟩]⟩
    let heap := HostHeap.empty none fun n _ => 0x10000 * UInt64.ofNat (n + 1)
    let a := (Arena.empty 1 (Audited.ofAllocator heap)).run [.map 8 .readWrite 1]
    let placed := Image.place o.segments a
    let b := placed.2.run [.unmap 0x10000]
    ∃ image, placed.1 = .ok image ∧ b.allocator.Kept ∧
      (o.toObject.relocate image .empty b).1 = .ok () ∧
      ∃ home ∈ b.mapped, ∀ i < 8, home.promise.Holds (0x20008 + i) ∧
        ((∃ v, image.translate? v = some (UInt64.ofNat (0x20008 + i))) ↔
          ∃ s ∈ o.segments, s.Holds (0x1008 + i)) := by
  intro o heap a placed b
  have spared : ∀ base, .unmap base ∈ [Operation.unmap 0x10000] →
      (Image.around 0x20000 0x1000 o.segments).base ≠ some base := by
    intro base only
    cases List.mem_singleton.mp only
    decide
  have through : (o.toObject.relocate (.around 0x20000 0x1000 o.segments) .empty b).1 = .ok () := by
    decide
  have fresh : heap.heap.Backs [] := Heap.backs_empty none
  obtain ⟨ok, -⟩ := relocated_words_begin_in_segments HostHeap.storing fresh 1 [.map 8 .readWrite 1]
    [.unmap 0x10000] o .empty (.around 0x20000 0x1000 o.segments) (by decide) (by decide) spared
  obtain ⟨-, words⟩ := ok through
  obtain ⟨-, home, hh, -, inside⟩ := words ⟨0x1008, .relative, 0x1000, none⟩
    (List.mem_singleton_self _) 0x20008 8 0x20000 ⟨.relative rfl (by decide), by decide⟩
  exact ⟨_, by decide, by decide, through, home, hh, inside⟩

/-- A word that begins in a segment and ends behind it is stored, padding or not. -/
theorem word_past_segment_end_stored :
    let o : ElfObject := ⟨.bits64, [⟨0x1000, 12, 8, [1], .readWrite⟩], [], [], none,
      [⟨0x1008, .absolute64, 0x0807060504030201, none⟩]⟩
    let a := Arena.empty 1 (Audited.ofAllocator (HostHeap.empty none fun _ _ => 0x10000))
    let placed := Image.place o.segments a
    ∃ image, placed.1 = .ok image ∧
      let relocated := o.toObject.relocate image .empty placed.2
      relocated.1 = .ok () ∧ (¬ ∃ s ∈ o.segments, s.Holds (0x1008 + 4)) ∧
        image.translate? 0x1008 = some 0x10008 ∧ image.translate? (0x1008 + 4) = none ∧
        placed.2.read (0x10008 + 4) 4 = .ok [0, 0, 0, 0] ∧
        relocated.2.read (0x10008 + 4) 4 = .ok [5, 6, 7, 8] := by
  intro o a placed
  exact ⟨.around 0x10000 0x1000 o.segments, by decide, by decide, by decide, by decide, by decide,
    by decide, by decide⟩

end Elf.ElfObject

end AppHost
