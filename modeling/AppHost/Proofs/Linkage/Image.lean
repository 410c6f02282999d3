import AppHost.Proofs.Linkage.Layout
import AppHost.Proofs.Memory.Cells
import Mathlib.Data.Nat.ModEq
/-! A placed image is its segments moved as one. Every object address of a segment has the same
distance to the arena address that holds it, and behind each stands the byte that the segments
declare there, zero where they declare none. -/
namespace AppHost

open Memory

namespace Segment

def Holds (s : Segment) (x : ℕ) : Prop :=
  s.vaddr.toNat ≤ x ∧ x < s.vaddr.toNat + s.memSize.toNat

def Supplies (s : Segment) (x : ℕ) : Prop :=
  s.vaddr.toNat ≤ x ∧ x < s.vaddr.toNat + s.data.length

instance (s : Segment) (x : ℕ) : Decidable (s.Holds x) := inferInstanceAs (Decidable (_ ∧ _))

instance (s : Segment) (x : ℕ) : Decidable (s.Supplies x) := inferInstanceAs (Decidable (_ ∧ _))

def fileByte (s : Segment) (x : ℕ) : UInt8 := s.data.getD (x - s.vaddr.toNat) 0

def lay (x : ℕ) (byte : UInt8) (s : Segment) : UInt8 :=
  if s.Supplies x then s.fileByte x else byte

theorem holds_iff (s : Segment) (v : Word) :
    (s.vaddr ≤ v && v - s.vaddr < s.memSize) = true ↔ s.Holds v.toNat := by
  rw [Bool.and_eq_true, decide_eq_true_iff, decide_eq_true_iff, UInt64.le_iff_toNat_le,
    UInt64.lt_iff_toNat_lt]
  constructor
  · rintro ⟨low, high⟩
    rw [UInt64.toNat_sub_of_le _ _ (UInt64.le_iff_toNat_le.mpr low)] at high
    exact ⟨low, by omega⟩
  · rintro ⟨low, high⟩
    rw [UInt64.toNat_sub_of_le _ _ (UInt64.le_iff_toNat_le.mpr low)]
    exact ⟨low, by omega⟩

/-- A segment that takes up memory, all of it among `length` object addresses from `start` on. -/
structure Within (s : Segment) (start length : ℕ) : Prop where
  short : s.data.length ≤ s.memSize.toNat
  pos : 0 < s.memSize.toNat
  above : start ≤ s.vaddr.toNat
  below : s.vaddr.toNat + s.memSize.toNat ≤ start + length

end Segment

/-- The byte that segments declare at an object address: that of the last segment with a file byte
there, or zero. -/
inductive FileByte (segments : List Segment) (x : ℕ) : UInt8 → Prop where
  | last {before s after} (split : segments = before ++ s :: after) (supplies : s.Supplies x)
      (latest : ∀ t ∈ after, ¬ t.Supplies x) : FileByte segments x (s.fileByte x)
  | zero (unsupplied : ∀ s ∈ segments, ¬ s.Supplies x) : FileByte segments x 0

theorem foldl_lay (segments : List Segment) (x : ℕ) (byte : UInt8) :
    (∃ before s after, segments = before ++ s :: after ∧ s.Supplies x ∧
      (∀ t ∈ after, ¬ t.Supplies x) ∧ segments.foldl (Segment.lay x) byte = s.fileByte x) ∨
    (∀ s ∈ segments, ¬ s.Supplies x) ∧ segments.foldl (Segment.lay x) byte = byte := by
  induction segments generalizing byte with
  | nil => exact Or.inr ⟨fun _ hs => (nomatch hs), rfl⟩
  | cons first rest ih =>
    rw [List.foldl_cons]
    rcases ih (Segment.lay x byte first) with
      ⟨before, s, after, rfl, supplies, latest, same⟩ | ⟨unsupplied, same⟩
    · exact Or.inl ⟨first :: before, s, after, rfl, supplies, latest, same⟩
    · by_cases supplies : first.Supplies x
      · exact Or.inl ⟨[], first, rest, rfl, supplies, unsupplied, same.trans (if_pos supplies)⟩
      · refine Or.inr ⟨fun s hs => ?_, same.trans (if_neg supplies)⟩
        rcases List.mem_cons.mp hs with rfl | hs
        · exact supplies
        · exact unsupplied s hs

theorem foldl_lay_of_unsupplied {segments : List Segment} {x : ℕ}
    (unsupplied : ∀ s ∈ segments, ¬ s.Supplies x) (byte : UInt8) :
    segments.foldl (Segment.lay x) byte = byte := by
  rcases foldl_lay segments x byte with ⟨before, s, after, rfl, supplies, -⟩ | ⟨-, same⟩
  · exact absurd supplies (unsupplied s (List.mem_append_right _ List.mem_cons_self))
  · exact same

theorem fileByte_iff (segments : List Segment) (x : ℕ) (byte : UInt8) :
    FileByte segments x byte ↔ segments.foldl (Segment.lay x) 0 = byte := by
  constructor
  · intro h
    cases h with
    | @last before s after split supplies latest =>
      rw [split, List.foldl_append, List.foldl_cons, foldl_lay_of_unsupplied latest]
      exact if_pos supplies
    | zero unsupplied => exact foldl_lay_of_unsupplied unsupplied 0
  · rintro rfl
    rcases foldl_lay segments x 0 with ⟨before, s, after, split, supplies, latest, same⟩ |
      ⟨unsupplied, same⟩
    · rw [same]
      exact .last split supplies latest
    · rw [same]
      exact .zero unsupplied

instance (segments : List Segment) (x : ℕ) (byte : UInt8) : Decidable (FileByte segments x byte) :=
  decidable_of_iff _ (fileByte_iff segments x byte).symm

theorem Layout.within {segments : List Segment} {layout : Layout} {length : ℕ}
    (h : Layout.of segments = .ok (some layout)) (long : layout.span.toNat ≤ length) {s : Segment}
    (hs : s ∈ occupied segments) : s.Within layout.start.toNat length := by
  obtain ⟨short, pos, above, fits⟩ := spans h hs
  rw [UInt64.toNat_sub_of_le _ _ (UInt64.le_iff_toNat_le.mpr above)] at fits
  exact ⟨short, pos, above, by omega⟩

theorem Layout.exists_occupied {segments : List Segment} {x : ℕ} :
    (∃ s ∈ occupied segments, s.Holds x) ↔ ∃ s ∈ segments, s.Holds x := by
  constructor
  · rintro ⟨s, hs, holds⟩
    exact ⟨s, List.mem_of_mem_filter hs, holds⟩
  · rintro ⟨s, hs, holds⟩
    have ⟨low, high⟩ := holds
    have pos : 0 < s.memSize.toNat := by omega
    refine ⟨s, List.mem_filter.mpr ⟨hs, ?_⟩, holds⟩
    simpa [UInt64.lt_iff_toNat_lt] using pos

theorem Layout.address_lt {segments : List Segment} {layout : Layout}
    (h : Layout.of segments = .ok (some layout)) {s : Segment} (hs : s ∈ occupied segments) {x : ℕ}
    (holds : s.Holds x) : x < 2 ^ 64 := by
  obtain ⟨stops, hm, -⟩ := of_eq_some h
  obtain ⟨stop, -, stopped⟩ := mapM_stop hm s hs
  obtain ⟨-, sum⟩ := stop_eq_ok stopped
  exact Nat.lt_trans (sum ▸ holds.2) stop.toNat_lt

theorem toNat_moved {promise : Region} (representable : promise.Representable) (start v : Word)
    (above : start.toNat ≤ v.toNat) (below : v.toNat < start.toNat + promise.length.toNat) :
    (promise.base + (v - start)).toNat = promise.base.toNat + (v.toNat - start.toNat) := by
  unfold Region.Representable at representable
  rw [UInt64.toNat_add, UInt64.toNat_sub_of_le _ _ (UInt64.le_iff_toNat_le.mpr above)]
  exact Nat.mod_eq_of_lt (by omega)

namespace Image

theorem translate?_placed {promise : Region} (representable : promise.Representable) {start : Word}
    {s : Segment} (within : s.Within start.toNat promise.length.toNat) (v : Word) :
    PlacedSegment.translate? ⟨s.vaddr, s.memSize, promise.base + (s.vaddr - start)⟩ v =
      if s.Holds v.toNat then some (promise.base + (v - start)) else none := by
  obtain ⟨-, -, above, below⟩ := within
  simp only [PlacedSegment.translate?, s.holds_iff v]
  by_cases holds : s.Holds v.toNat
  · have low := holds.1
    have high := holds.2
    have moved := toNat_moved representable start v (by omega) (by omega)
    have placed := toNat_moved representable start s.vaddr above (by omega)
    have distance := UInt64.toNat_sub_of_le _ _ (UInt64.le_iff_toNat_le.mpr low)
    unfold Region.Representable at representable
    have small : (promise.base + (s.vaddr - start)).toNat + (v - s.vaddr).toNat < 2 ^ 64 := by
      omega
    have same : promise.base + (s.vaddr - start) + (v - s.vaddr) = promise.base + (v - start) := by
      apply UInt64.toNat_inj.mp
      rw [UInt64.toNat_add, Nat.mod_eq_of_lt small]
      omega
    rw [if_pos holds, if_pos holds, Word.add?_eq_some_iff.mpr ⟨small, same⟩]
  · rw [if_neg holds, if_neg holds]

theorem translate?_around {promise : Region} (representable : promise.Representable) {start : Word}
    {segments : List Segment}
    (within : ∀ s ∈ Layout.occupied segments, s.Within start.toNat promise.length.toNat)
    (v : Word) :
    ((around promise.base start segments).translate? v =
        some (promise.base + (v - start)) ∧ ∃ s ∈ Layout.occupied segments, s.Holds v.toNat) ∨
      (around promise.base start segments).translate? v = none ∧
        ∀ s ∈ Layout.occupied segments, ¬ s.Holds v.toNat := by
  have each := fun s hs => translate?_placed representable (within s hs) v
  cases found : (around promise.base start segments).translate? v with
  | none =>
    refine Or.inr ⟨rfl, fun s hs holds => ?_⟩
    have missing := List.findSome?_eq_none_iff.mp found _ (List.mem_map_of_mem hs)
    rw [each s hs, if_pos holds] at missing
    cases missing
  | some place =>
    obtain ⟨p, hp, translated⟩ := List.exists_of_findSome?_eq_some found
    obtain ⟨s, hs, rfl⟩ := List.mem_map.mp hp
    rw [each s hs] at translated
    split at translated
    · rename_i holds
      exact Or.inl ⟨translated.symm, s, hs, holds⟩
    · cases translated

theorem translate?_around_iff {promise : Region} (representable : promise.Representable)
    {start : Word} {segments : List Segment}
    (within : ∀ s ∈ Layout.occupied segments, s.Within start.toNat promise.length.toNat)
    (v place : Word) : (around promise.base start segments).translate? v = some place ↔
      (∃ s ∈ Layout.occupied segments, s.Holds v.toNat) ∧
        place.toNat + start.toNat = promise.base.toNat + v.toNat := by
  have moved (used : ∃ s ∈ Layout.occupied segments, s.Holds v.toNat) : start.toNat ≤ v.toNat ∧
      (promise.base + (v - start)).toNat = promise.base.toNat + (v.toNat - start.toNat) := by
    obtain ⟨s, hs, low, high⟩ := used
    obtain ⟨-, -, above, below⟩ := within s hs
    exact ⟨by omega, toNat_moved representable start v (by omega) (by omega)⟩
  rcases translate?_around representable within v with ⟨found, used⟩ | ⟨missing, unused⟩
  · obtain ⟨above, distance⟩ := moved used
    rw [found, Option.some.injEq, and_iff_right used, ← UInt64.toNat_inj]
    omega
  · rw [missing]
    refine iff_of_false nofun ?_
    rintro ⟨⟨s, hs, holds⟩, -⟩
    exact unused s hs holds

variable {σ : Type} [Allocator σ]

theorem place_ok {segments : List Segment} {a b : Arena σ} {image : Image}
    (h : place segments a = (.ok image, b)) :
    (Layout.of segments = .ok none ∧ image = .empty ∧ b = a) ∨
    ∃ layout base mapped, Layout.of segments = .ok (some layout) ∧
      a.map layout.span layout.protection layout.align = (.ok base, mapped) ∧
      fill base layout.start (Layout.occupied segments) mapped = (.ok (), b) ∧
      image = .around base layout.start segments := by
  have came := place_outcome segments a
  rw [h] at came
  cases came with
  | nothing empty => exact Or.inl ⟨empty, rfl, rfl⟩
  | filled laid mapped stored => exact Or.inr ⟨_, _, _, laid, mapped, stored, rfl⟩

variable {backs : σ → List Region → Prop} {a b c : Arena (Audited σ)} {size : Word}
  {raw promise : Region}

theorem moved_segment {promise : Region} (representable : promise.Representable) {start : Word}
    {s : Segment} (within : s.Within start.toNat promise.length.toNat) :
    (promise.base + (s.vaddr - start)).toNat =
        promise.base.toNat + (s.vaddr.toNat - start.toNat) ∧
      promise.Holds (promise.base + (s.vaddr - start)).toNat ∧
      (promise.base + (s.vaddr - start)).toNat + s.memSize.toNat ≤
        promise.base.toNat + promise.length.toNat := by
  obtain ⟨-, pos, above, below⟩ := within
  have moved := toNat_moved representable start s.vaddr above (by omega)
  rw [moved]
  exact ⟨rfl, Region.holds_add (by omega), by omega⟩

theorem byte_of_segment (laws : Storing backs) (h : a.Extends backs b size raw promise)
    {start : Word} {s : Segment} (within : s.Within start.toNat promise.length.toNat)
    (hw : b.write (promise.base + (s.vaddr - start)) s.data = .ok c) :
    a.Extends backs c size raw promise ∧ ∀ k < promise.length.toNat,
      byteAt c.allocator (promise.base.toNat + k) =
        s.lay (start.toNat + k) (byteAt b.allocator (promise.base.toNat + k)) := by
  have representable : promise.Representable := h.held.promise_representable h.latest_mem
  obtain ⟨at_segment, inside, -⟩ := moved_segment representable within
  obtain ⟨short, pos, above, below⟩ := within
  refine ⟨h.write laws.toBacking inside hw, fun k hk => ?_⟩
  have holds : promise.Holds (promise.base.toNat + k) := Region.holds_add hk
  have stored := h.held.byte_written laws (Nat.lt_of_le_of_lt short s.memSize.toNat_lt) hw
    h.latest_mem holds
  rw [stored, at_segment]
  unfold Segment.lay
  by_cases supplies : s.Supplies (start.toNat + k)
  · have ⟨low, high⟩ := supplies
    rw [if_pos supplies, if_pos (by omega), Segment.fileByte]
    congr 1
    omega
  · have outside := supplies
    unfold Segment.Supplies at outside
    rw [if_neg supplies, if_neg (by omega)]

/-- Filling lays the segments over what was there, one after another. -/
theorem byte_filled (laws : Storing backs) (h : a.Extends backs b size raw promise) {start : Word}
    {segments : List Segment}
    (within : ∀ s ∈ segments, s.Within start.toNat promise.length.toNat)
    (filled : fill promise.base start segments b = (.ok (), c)) {k : ℕ}
    (hk : k < promise.length.toNat) :
    byteAt c.allocator (promise.base.toNat + k) =
      segments.foldl (Segment.lay (start.toNat + k))
        (byteAt b.allocator (promise.base.toNat + k)) := by
  induction segments generalizing b with
  | nil =>
    cases filled
    rfl
  | cons s rest ih =>
    unfold fill at filled
    split at filled
    · rename_i written hw
      obtain ⟨extended, laid⟩ := byte_of_segment laws h (within s List.mem_cons_self) hw
      rw [ih extended (fun t ht => within t (List.mem_cons_of_mem s ht)) filled, List.foldl_cons,
        laid k hk]
    · cases filled

/-- An image that is its segments moved as one into a promise, with the bytes they declare. -/
structure Mirrors (used : List Segment) (image : Image) (b : Arena (Audited σ)) (promise : Region)
    (align low : ℕ) : Prop where
  base : image.base = some promise.base
  greatest : IsGreatest (insert 1 {n | ∃ s ∈ used, s.align.toNat = n}) align
  lowest : IsLeast {n | ∃ s ∈ used, s.vaddr.toNat = n} low
  start : image.start.toNat = low / align * align
  offset : image.offset = promise.base - image.start
  inside : ∀ v : Word, (∃ s ∈ used, s.Holds v.toNat) → image.start.toNat ≤ v.toNat ∧
    image.translate? v = some (promise.base + (v - image.start)) ∧
    (promise.base + (v - image.start)).toNat =
      promise.base.toNat + (v.toNat - image.start.toNat) ∧
    promise.Holds (promise.base + (v - image.start)).toNat ∧
    (promise.base + (v - image.start)).toNat ≡ v.toNat [MOD align]
  outside : ∀ v : Word, (¬ ∃ s ∈ used, s.Holds v.toNat) → image.translate? v = none
  bytes : ∀ k < promise.length.toNat, ∃ byte, FileByte used (image.start.toNat + k) byte ∧
    b.read (promise.base + UInt64.ofNat k) 1 = .ok [byte]

theorem dvd_of_served {minLength align : Word} (power : Word.isPowerOfTwo align = true)
    (served : MapRequest.Served ⟨minLength, align⟩ promise) :
    align.toNat ∣ promise.base.toNat := by
  refine Nat.dvd_trans ?_ served.aligned
  obtain ⟨k, eq⟩ := Word.isPowerOfTwo_iff.mp power
  unfold MapRequest.align
  simp only [eq]
  rcases Nat.le_total (2 ^ k) 8 with small | large
  · rw [Nat.max_eq_right small]
    exact Word.two_pow_dvd_of_le (k := 3) small
  · rw [Nat.max_eq_left large]

theorem moved_inside {promise : Region} (representable : promise.Representable) {start : Word}
    {segments : List Segment} {align : ℕ} (base_aligned : align ∣ promise.base.toNat)
    (start_aligned : align ∣ start.toNat)
    (within : ∀ s ∈ Layout.occupied segments, s.Within start.toNat promise.length.toNat) {v : Word}
    (inside : ∃ s ∈ Layout.occupied segments, s.Holds v.toNat) :
    start.toNat ≤ v.toNat ∧
      (around promise.base start segments).translate? v = some (promise.base + (v - start)) ∧
      (promise.base + (v - start)).toNat = promise.base.toNat + (v.toNat - start.toNat) ∧
      promise.Holds (promise.base + (v - start)).toNat ∧
      (promise.base + (v - start)).toNat ≡ v.toNat [MOD align] := by
  obtain ⟨s, hs, holds⟩ := inside
  obtain ⟨-, -, above, below⟩ := within s hs
  have ⟨first, last⟩ := holds
  have start_le : start.toNat ≤ v.toNat := by omega
  have moved := toNat_moved representable start v start_le (by omega)
  have translated :=
    ((translate?_around representable within v).resolve_right fun no => no.2 s hs holds).1
  refine ⟨start_le, translated, moved, ?_, ?_⟩
  · rw [moved]
    exact Region.holds_add (by omega)
  · have even : promise.base.toNat ≡ start.toNat [MOD align] :=
      (Nat.modEq_zero_iff_dvd.mpr base_aligned).trans
        (Nat.modEq_zero_iff_dvd.mpr start_aligned).symm
    calc (promise.base + (v - start)).toNat
        = promise.base.toNat + (v.toNat - start.toNat) := moved
      _ ≡ start.toNat + (v.toNat - start.toNat) [MOD align] := even.add_right _
      _ = v.toNat := Nat.add_sub_cancel' start_le

theorem read_filled (laws : Storing backs) (h : a.Extends backs b size raw promise)
    (zero : ∀ x, promise.Holds x → byteAt b.allocator x = 0)
    {start : Word} {segments : List Segment}
    (within : ∀ s ∈ segments, s.Within start.toNat promise.length.toNat)
    (filled : fill promise.base start segments b = (.ok (), c))
    (final : a.Extends backs c size raw promise) {k : ℕ} (hk : k < promise.length.toNat) :
    c.read (promise.base + UInt64.ofNat k) 1 =
      .ok [segments.foldl (Segment.lay (start.toNat + k)) 0] := by
  have representable : promise.Representable := final.held.promise_representable final.latest_mem
  have address : (promise.base + UInt64.ofNat k).toNat = promise.base.toNat + k := by
    have top := promise.length.toNat_lt
    unfold Region.Representable at representable
    rw [UInt64.toNat_add, UInt64.toNat_ofNat_of_lt' (by change k < 2 ^ 64; omega)]
    exact Nat.mod_eq_of_lt (by omega)
  have holds : promise.Holds (promise.base + UInt64.ofNat k).toNat := by
    rw [address]
    exact Region.holds_add hk
  have byte := byte_filled laws h within filled hk
  rw [zero _ (Region.holds_add hk)] at byte
  rw [final.held.read_byte laws final.latest_mem holds, address]
  exact congrArg (fun byte => Except.ok [byte]) byte

theorem mirrors_of_filled (laws : Storing backs) (held : a.Held backs) {segments : List Segment}
    {layout : Layout} {base : Word} {mapped : Arena (Audited σ)}
    (hl : Layout.of segments = .ok (some layout))
    (hm : a.map layout.span layout.protection layout.align = (.ok base, mapped))
    (filled : fill base layout.start (Layout.occupied segments) mapped = (.ok (), b))
    (kept : b.allocator.Kept) :
    ∃ size raw promise align low, a.Extends backs b size raw promise ∧
      Mirrors (Layout.occupied segments) (.around base layout.start segments) b promise
        align low := by
  have reached := fill_reaches base layout.start (Layout.occupied segments) mapped
  rw [filled] at reached
  obtain ⟨size, raw, promise, rfl, served, extended, zero⟩ :=
    held.map_ok laws hm (reached.kept kept)
  have long : layout.span.toNat ≤ promise.length.toNat := served.least.1.2
  have within := fun s hs => Layout.within hl long (s := s) hs
  have final := fill_extends laws.toBacking extended fun s hs => holds_segment extended hl long hs
  rw [filled] at final
  have representable : promise.Representable := final.held.promise_representable final.latest_mem
  obtain ⟨stops, -, -, -, power, -⟩ := Layout.of_eq_some hl
  obtain ⟨low, least, start⟩ := Layout.start_of_least hl
  refine ⟨size, raw, promise, layout.align.toNat, low, final, rfl, Layout.align_greatest hl, least,
    start, rfl, fun v inside => ?_, fun v outside => ?_, fun k hk => ?_⟩
  · exact moved_inside representable (dvd_of_served power served) (start ▸ Nat.dvd_mul_left _ _)
      within inside
  · rcases translate?_around representable within v with ⟨-, inside⟩ | ⟨none, -⟩
    · exact absurd inside outside
    · exact none
  · exact ⟨_, (fileByte_iff _ _ _).mpr rfl, read_filled laws extended zero within filled final hk⟩

/-- Placing segments that take up memory makes one mapping that mirrors them, wherever it lies and
whatever the arena did before; placing none leaves the arena as it was. -/
theorem placed_image_mirrors_segments (laws : Storing backs) {s : σ} (fresh : backs s [])
    (pid : Pid) (earlier : List Operation) (segments : List Segment) :
    let a := (Arena.empty pid (Audited.ofAllocator s)).run earlier
    let b := (place segments a).2
    ∀ image, (place segments a).1 = .ok image → b.allocator.Kept →
      ((∃ s ∈ segments, 0 < s.memSize.toNat) → ∃ size raw promise align low,
        b.mapped = a.mapped ++ [⟨promise, a.actual.length⟩] ∧ b.actual = a.actual ++ [raw] ∧
        b.allocator.history = a.allocator.history ++ [.granted size raw] ∧
        Mirrors (Layout.occupied segments) image b promise align low) ∧
      ((∀ s ∈ segments, s.memSize.toNat = 0) → b = a ∧ ∀ v, image.translate? v = none) := by
  intro a b image placed kept
  have whole : place segments a = (.ok image, b) := Prod.ext placed rfl
  have held : a.Held backs := (Arena.held_empty pid fresh).reaches laws.toBacking ⟨earlier, rfl⟩
    ((place_reaches segments a).kept kept)
  constructor
  · rintro ⟨s, hs, pos⟩
    have used : s ∈ Layout.occupied segments := by
      simpa [Layout.occupied, UInt64.lt_iff_toNat_lt] using ⟨hs, pos⟩
    rcases place_ok whole with ⟨none_used, -, -⟩ | ⟨layout, base, mapped, hl, hm, filled, rfl⟩
    · rw [Layout.of_eq_none none_used] at used
      cases used
    · obtain ⟨size, raw, promise, align, low, extended, mirrors⟩ :=
        mirrors_of_filled laws held hl hm filled kept
      exact ⟨size, raw, promise, align, low, extended.mapped, extended.actual, extended.history,
        mirrors⟩
  · intro empty
    rcases place_ok whole with ⟨-, rfl, same⟩ | ⟨layout, base, mapped, hl, -, -, -⟩
    · exact ⟨same, fun v => rfl⟩
    · obtain ⟨stops, -, some_used, -⟩ := Layout.of_eq_some hl
      obtain ⟨s, hs⟩ := List.exists_mem_of_ne_nil _ some_used
      have pos := (Layout.spans hl hs).2.1
      have zero := empty s (List.mem_of_mem_filter hs)
      omega

/-- Segments out of order, over one another and with a gap between, the last of them empty. -/
theorem mirror_of_overlapping_segments :
    let segments : List Segment := [⟨0x2010, 0x20, 4, [1, 2, 3, 4], .readWrite⟩,
      ⟨0x1234, 0x10, 16, [5, 6], .readWrite⟩, ⟨0x2012, 4, 0, [7], .readWrite⟩,
      ⟨0x4000, 0, 0x100, [8], .readWrite⟩]
    let host : ℕ → Word → Word := fun n _ => 0x20003 + UInt64.ofNat n * 0x100
    let earlier : List Operation := [.map 20 .readWrite 1, .write 0x20010 [9]]
    let a := (Arena.empty 1 (Audited.ofAllocator (HostHeap.empty none host))).run earlier
    let b := (place segments a).2
    let image : Image := ⟨some 0x20110, 0x1230, [⟨0x2010, 0x20, 0x20ef0⟩,
      ⟨0x1234, 0x10, 0x20114⟩, ⟨0x2012, 4, 0x20ef2⟩], none⟩
    (place segments a).1 = .ok image ∧ b.allocator.Kept ∧
      ((∃ s ∈ segments, 0 < s.memSize.toNat) → ∃ size raw promise align low,
        b.mapped = a.mapped ++ [⟨promise, a.actual.length⟩] ∧ b.actual = a.actual ++ [raw] ∧
        b.allocator.history = a.allocator.history ++ [.granted size raw] ∧
        Mirrors (Layout.occupied segments) image b promise align low) ∧
      ((∀ s ∈ segments, s.memSize.toNat = 0) → b = a ∧ ∀ v, image.translate? v = none) :=
  ⟨by decide, by decide, placed_image_mirrors_segments HostHeap.storing
    (Heap.backs_empty none) 1 _ _ _ (by decide) (by decide)⟩

/-- The file bytes of a segment of no size are not part of the image. -/
theorem empty_segment_leaves_no_byte :
    let segments : List Segment :=
      [⟨0x1000, 16, 1, [1], .readWrite⟩, ⟨0x1000, 0, 1, [9], .readWrite⟩]
    let a := Arena.empty 1 (Audited.ofAllocator (HostHeap.empty none fun _ _ => 0x10000))
    let b := (place segments a).2
    let image : Image := ⟨some 0x10000, 0x1000, [⟨0x1000, 16, 0x10000⟩], none⟩
    (place segments a).1 = .ok image ∧ b.allocator.Kept ∧
      ¬ ∃ byte, FileByte segments image.start.toNat byte ∧ b.read 0x10000 1 = .ok [byte] := by
  refine ⟨by decide, by decide, ?_⟩
  rintro ⟨byte, declared, stored⟩
  have one : [byte] = [1] := Except.ok.inj (stored.symm.trans (by decide))
  cases one
  exact absurd declared (by decide)

end Image

end AppHost
