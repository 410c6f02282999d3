import AppHost.Proofs.Linkage.Image
/-! Alignments of the segments of an object. Only the greatest is checked and asked of the arena.
That serves each smaller one that is a power of two; any other is met only where the mapping happens
to lie well for it. -/
namespace AppHost

open Memory

structure Segment.Fits (s : Segment) : Prop where
  short : s.data.length ≤ s.memSize.toNat
  below : s.vaddr.toNat + s.memSize.toNat < 2 ^ 64

namespace Layout

theorem stop_ok_iff {s : Segment} : (∃ e, stop s = .ok e) ↔ s.Fits := by
  constructor
  · rintro ⟨e, stopped⟩
    obtain ⟨short, sum⟩ := stop_eq_ok stopped
    exact ⟨short, sum ▸ e.toNat_lt⟩
  · rintro ⟨short, below⟩
    refine ⟨s.vaddr + s.memSize, ?_⟩
    rw [stop, if_neg (Nat.not_lt.mpr short), Word.add?_eq_some_iff.mpr ⟨below, rfl⟩]

theorem stop_ne_misaligned (s : Segment) : stop s ≠ .error (.invalid .segmentAlignment) := by
  intro failed
  rw [stop] at failed
  split at failed
  · cases failed
  · split at failed <;> cases failed

/-- A layout is refused for its alignment exactly if all is well with its segments otherwise and
the greatest alignment is no power of two. -/
theorem of_misaligned_iff {segments : List Segment} :
    Layout.of segments = .error (.invalid .segmentAlignment) ↔
      (∀ s ∈ occupied segments, s.Fits) ∧
        ∃ n, IsGreatest (insert 1 {n | ∃ s ∈ occupied segments, s.align.toNat = n}) n ∧
          ¬ ∃ k, n = 2 ^ k := by
  have greatest := greatest_align segments
  constructor
  · intro refused
    unfold Layout.of at refused
    rcases bind_eq_error.mp refused with failed | ⟨stops, stopped, refused⟩
    · obtain ⟨s, -, failed⟩ := exists_of_mapM_error failed
      exact absurd failed (stop_ne_misaligned s)
    split at refused
    · cases refused
    simp only at refused
    split at refused
    · rename_i odd
      refine ⟨?_, _, greatest, ?_⟩
      · intro s hs
        obtain ⟨e, -, fits⟩ := mapM_stop stopped s hs
        exact stop_ok_iff.mp ⟨e, fits⟩
      · rw [← Word.isPowerOfTwo_iff]
        simpa using odd
    · cases refused
  · rintro ⟨fit, n, top, odd⟩
    obtain rfl := greatest.unique top
    rw [← Word.isPowerOfTwo_iff, Bool.not_eq_true] at odd
    have some_used : (occupied segments).isEmpty = false := by
      cases used : occupied segments with
      | nil =>
        -- the greatest alignment of no segments is one
        rw [used] at odd
        cases odd
      | cons => rfl
    cases stopped : (occupied segments).mapM stop with
    | error e =>
      obtain ⟨s, hs, failed⟩ := exists_of_mapM_error stopped
      obtain ⟨e', fits⟩ := stop_ok_iff.mpr (fit s hs)
      rw [fits] at failed
      cases failed
    | ok stops =>
      unfold Layout.of
      refine bind_eq_error.mpr (Or.inr ⟨stops, stopped, ?_⟩)
      simp [some_used, odd, bind, Except.bind]

end Layout

namespace Image

variable {σ : Type} [Allocator σ] {backs : σ → List Region → Prop}

theorem fill_ne_invalid {how : Malformation} {base start : Word} {segments : List Segment}
    {a b : Arena σ} : fill base start segments a ≠ (.error (.invalid how), b) := by
  induction segments generalizing a with
  | nil =>
    intro refused
    cases refused
  | cons s rest ih =>
    rw [fill]
    split
    · exact ih
    · intro refused
      cases refused

theorem place_invalid_iff {how : Malformation} {segments : List Segment} {a : Arena σ} :
    (place segments a).1 = .error (.invalid how) ↔
      Layout.of segments = .error (.invalid how) := by
  constructor
  · intro failed
    have came := place_outcome segments a
    generalize place segments a = r at came failed
    cases came with
    | nothing | unmapped | filled => cases failed
    | unlaid refused =>
      cases failed
      exact refused
    | undone laid mapped faulted =>
      cases failed
      exact absurd faulted fill_ne_invalid
  · intro refused
    simp only [place, refused]

theorem place_misaligned_iff {segments : List Segment} {a : Arena σ} :
    (place segments a).1 = .error (.invalid .segmentAlignment) ↔
      Layout.of segments = .error (.invalid .segmentAlignment) :=
  place_invalid_iff

theorem modEq_moved_iff {base start v n : ℕ} (above : start ≤ v) :
    base + (v - start) ≡ v [MOD n] ↔ base ≡ start [MOD n] := by
  have split : v = start + (v - start) := by omega
  conv_lhs => rw [split, Nat.add_sub_cancel_left]
  exact ⟨Nat.ModEq.add_right_cancel' _, Nat.ModEq.add_right _⟩

theorem Mirrors.congruent {used : List Segment} {image : Image} {b : Arena (Audited σ)}
    {promise : Region} {align low : ℕ} (h : Mirrors used image b promise align low)
    (power : ∃ k, align = 2 ^ k) {s : Segment} (hs : s ∈ used) (pos : 0 < s.memSize.toNat) :
    ∃ p, image.translate? s.vaddr = some p ∧ p = promise.base + (s.vaddr - image.start) ∧
      (∀ n, p.toNat ≡ s.vaddr.toNat [MOD n] ↔
        promise.base.toNat ≡ image.start.toNat [MOD n]) ∧
      ((∃ j, s.align.toNat = 2 ^ j) → p.toNat ≡ s.vaddr.toNat [MOD s.align.toNat]) := by
  have holds : s.Holds s.vaddr.toNat := ⟨Nat.le_refl _, by omega⟩
  obtain ⟨above, translated, moved, -, congruent⟩ := h.inside s.vaddr ⟨s, hs, holds⟩
  refine ⟨_, translated, rfl, ?_, ?_⟩
  · intro n
    rw [moved]
    exact modEq_moved_iff above
  · rintro ⟨j, two_power⟩
    obtain ⟨k, rfl⟩ := power
    have le : s.align.toNat ≤ 2 ^ k := h.greatest.2 (Or.inr ⟨s, hs, rfl⟩)
    rw [two_power] at le ⊢
    exact congruent.of_dvd (Word.two_pow_dvd_of_le le)

/-- Where segments are accepted, each that takes up memory lies at an address congruent to its own
for its alignment if that is a power of two; for another alignment it does so exactly if the mapping
as a whole does. Segments are refused for their alignment only if the greatest of all is no power of
two. -/
theorem segments_congruent_for_powers_of_two (laws : Storing backs) {s : σ} (fresh : backs s [])
    (pid : Pid) (earlier : List Operation) (segments : List Segment) :
    let a := (Arena.empty pid (Audited.ofAllocator s)).run earlier
    let placed := place segments a
    (∀ image, placed.1 = .ok image → placed.2.allocator.Kept →
      ∀ s ∈ Layout.occupied segments, ∃ base p, image.base = some base ∧
        ⟨s.vaddr, s.memSize, p⟩ ∈ image.segments ∧ image.translate? s.vaddr = some p ∧
        ((∃ k, s.align.toNat = 2 ^ k) → p.toNat ≡ s.vaddr.toNat [MOD s.align.toNat]) ∧
        (p.toNat ≡ s.vaddr.toNat [MOD s.align.toNat] ↔
          base.toNat ≡ image.start.toNat [MOD s.align.toNat])) ∧
    (placed.1 = .error (.invalid .segmentAlignment) ↔
      (∀ s ∈ Layout.occupied segments, s.Fits) ∧
        ∃ n, IsGreatest (insert 1 {n | ∃ s ∈ Layout.occupied segments, s.align.toNat = n}) n ∧
          ¬ ∃ k, n = 2 ^ k) := by
  intro a placed
  refine ⟨?_, place_misaligned_iff.trans Layout.of_misaligned_iff⟩
  intro image ok kept s hs
  have whole : place segments a = (.ok image, placed.2) := Prod.ext ok rfl
  have held : a.Held backs := (Arena.held_empty pid fresh).reaches laws.toBacking ⟨earlier, rfl⟩
    ((place_reaches segments a).kept kept)
  rcases place_ok whole with ⟨none_used, -, -⟩ | ⟨layout, base, mapped, hl, hm, filled, rfl⟩
  · rw [Layout.of_eq_none none_used] at hs
    cases hs
  obtain ⟨stops, -, -, -, power, -⟩ := Layout.of_eq_some hl
  obtain ⟨size, raw, promise, align, low, -, mirrors⟩ :=
    mirrors_of_filled laws held hl hm filled kept
  obtain rfl : layout.align.toNat = align :=
    (Layout.align_greatest hl).unique mirrors.greatest
  obtain rfl : base = promise.base := Option.some.inj mirrors.base
  obtain ⟨p, translated, rfl, iff, honoured⟩ :=
    mirrors.congruent (Word.isPowerOfTwo_iff.mp power) hs (Layout.spans hl hs).2.1
  exact ⟨_, _, rfl, List.mem_map_of_mem hs, translated, honoured, iff _⟩

/-- Segments with alignments of one, of four and of eight, and one that asks for none. -/
theorem congruent_at_smaller_alignments :
    let segments : List Segment := [⟨0x1001, 0x10, 1, [1], .readWrite⟩,
      ⟨0x1014, 0x10, 4, [2], .readWrite⟩, ⟨0x1028, 0x10, 8, [3], .readWrite⟩,
      ⟨0x103b, 0x10, 0, [4], .readWrite⟩]
    let heap := HostHeap.empty none fun n _ => 0x10003 * UInt64.ofNat (n + 1)
    let a := (Arena.empty 1 (Audited.ofAllocator heap)).run [.map 20 .readWrite 1]
    let placed := place segments a
    ∃ image, placed.1 = .ok image ∧ placed.2.allocator.Kept ∧
      ∀ s ∈ Layout.occupied segments, ∃ base p, image.base = some base ∧
        ⟨s.vaddr, s.memSize, p⟩ ∈ image.segments ∧ image.translate? s.vaddr = some p ∧
        ((∃ k, s.align.toNat = 2 ^ k) → p.toNat ≡ s.vaddr.toNat [MOD s.align.toNat]) ∧
        (p.toNat ≡ s.vaddr.toNat [MOD s.align.toNat] ↔
          base.toNat ≡ image.start.toNat [MOD s.align.toNat]) := by
  intro segments heap a placed
  have kept : placed.2.allocator.Kept := by decide
  have fresh : heap.heap.Backs [] := Heap.backs_empty none
  obtain ⟨congruent, -⟩ := segments_congruent_for_powers_of_two HostHeap.storing fresh 1
    [.map 20 .readWrite 1] segments
  exact ⟨.around 0x20008 0x1000 segments, by decide, kept, congruent _ (by decide) kept⟩

/-- A smaller alignment that is no power of two goes unnoticed and unmet. -/
theorem odd_alignment_unmet :
    let segments : List Segment := [⟨0x2000, 0x10, 8, [1], .readWrite⟩,
      ⟨0x2010, 0x10, 3, [2], .readWrite⟩]
    let a := Arena.empty 1 (Audited.ofAllocator (HostHeap.empty none fun _ _ => 0x10000))
    let placed := place segments a
    ∃ image, placed.1 = .ok image ∧ placed.2.allocator.Kept ∧
      ∃ s ∈ Layout.occupied segments, 0 < s.align.toNat ∧ ∃ p,
        ⟨s.vaddr, s.memSize, p⟩ ∈ image.segments ∧ image.translate? s.vaddr = some p ∧
          ¬ p.toNat ≡ s.vaddr.toNat [MOD s.align.toNat] := by
  intro segments a placed
  exact ⟨.around 0x10000 0x2000 segments, by decide, by decide, ⟨0x2010, 0x10, 3, [2], .readWrite⟩,
    by decide, by decide, 0x10010, by decide, by decide, by decide⟩

end Image

end AppHost
