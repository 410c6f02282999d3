import AppHost.Proofs.Linkage.Alignment
import AppHost.Proofs.Memory.Hosted
/-! The arithmetic of a placement. A segment that leaves the address space is refused before
anything is computed from it. Past that each quantity stays inside the one before: the file bytes in
their segment, the segments in the span, the span in the promise, the promise below the top. So no
sum or difference wraps, and no byte is refused. -/
namespace AppHost

open Memory

namespace Segment

/-- One past the segment's last address is no address. -/
def Wraps (s : Segment) : Prop := 2 ^ 64 ≤ s.vaddr.toNat + s.memSize.toNat

inductive Misfit (s : Segment) : Malformation → Prop where
  | long (above : s.memSize.toNat < s.data.length) : Misfit s .dataAboveSegment
  | wraps (short : s.data.length ≤ s.memSize.toNat) (wraps : s.Wraps) : Misfit s .segmentWraps

theorem Wraps.pos {s : Segment} (h : s.Wraps) : 0 < s.memSize.toNat := by
  have first := s.vaddr.toNat_lt
  unfold Wraps at h
  omega

theorem Misfit.not_fits {s : Segment} {how : Malformation} (h : s.Misfit how) : ¬ s.Fits := by
  rintro ⟨short, below⟩
  cases h with
  | long above => omega
  | wraps _ wraps =>
    unfold Wraps at wraps
    omega

end Segment

namespace Layout

theorem stop_error_iff {s : Segment} {e : LoadError} :
    stop s = .error e ↔ ∃ how, s.Misfit how ∧ e = .invalid how := by
  unfold stop
  split
  · rename_i above
    constructor
    · intro refused
      cases refused
      exact ⟨_, .long above, rfl⟩
    · rintro ⟨how, misfit, rfl⟩
      cases misfit with
      | long => rfl
      | wraps short _ => omega
  · rename_i short
    rw [Nat.not_lt] at short
    split
    · rename_i stop sum
      refine iff_of_false nofun ?_
      rintro ⟨how, misfit, -⟩
      exact misfit.not_fits ⟨short, (Word.add?_eq_some_iff.mp sum).1⟩
    · rename_i none_fits
      have wraps : s.Wraps := by
        by_contra below
        have sum := Word.add?_eq_some_iff.mpr ⟨Nat.not_le.mp below, rfl⟩
        rw [none_fits] at sum
        cases sum
      constructor
      · intro refused
        cases refused
        exact ⟨_, .wraps short wraps, rfl⟩
      · rintro ⟨how, misfit, rfl⟩
        cases misfit with
        | long above => omega
        | wraps => rfl

theorem of_error_cases {segments : List Segment} {e : LoadError}
    (h : Layout.of segments = .error e) :
    (occupied segments).mapM stop = .error e ∨ e = .invalid .segmentAlignment := by
  unfold Layout.of at h
  rcases bind_eq_error.mp h with failed | ⟨stops, -, h⟩
  · exact Or.inl failed
  split at h
  · cases h
  simp only at h
  split at h
  · cases h
    exact Or.inr rfl
  · cases h

theorem of_stop_error {segments : List Segment} {e : LoadError}
    (h : (occupied segments).mapM stop = .error e) : Layout.of segments = .error e := by
  unfold Layout.of
  exact bind_eq_error.mpr (Or.inl h)

theorem of_error_invalid {segments : List Segment} {e : LoadError}
    (h : Layout.of segments = .error e) : ∃ how, e = .invalid how := by
  rcases of_error_cases h with failed | rfl
  · obtain ⟨s, -, failed⟩ := exists_of_mapM_error failed
    obtain ⟨how, -, rfl⟩ := stop_error_iff.mp failed
    exact ⟨how, rfl⟩
  · exact ⟨_, rfl⟩

/-- Apart from their alignment, segments are refused for the first of them that takes up memory and
does not fit. -/
theorem of_misfit_iff {segments : List Segment} {how : Malformation}
    (single : how ≠ .segmentAlignment) :
    Layout.of segments = .error (.invalid how) ↔ ∃ before s after,
      occupied segments = before ++ s :: after ∧ (∀ t ∈ before, t.Fits) ∧ s.Misfit how := by
  calc Layout.of segments = .error (.invalid how)
      ↔ (occupied segments).mapM stop = .error (.invalid how) := by
        refine ⟨fun h => (of_error_cases h).resolve_right fun same => ?_, of_stop_error⟩
        cases same
        exact single rfl
    _ ↔ _ := by
        simp only [mapM_eq_error_iff, stop_ok_iff, stop_error_iff, LoadError.invalid.injEq,
          exists_eq_right']

theorem of_wrapping {segments : List Segment} {s : Segment} (hs : s ∈ occupied segments)
    (wraps : s.Wraps) : ∃ how, Layout.of segments = .error (.invalid how) ∧
      (how = .segmentWraps ∨ how = .dataAboveSegment) := by
  cases stopped : (occupied segments).mapM stop with
  | ok stops =>
    obtain ⟨e, -, fits⟩ := mapM_stop stopped s hs
    obtain ⟨-, below⟩ := stop_ok_iff.mp ⟨e, fits⟩
    exact absurd below (Nat.not_lt.mpr wraps)
  | error e =>
    obtain ⟨t, -, failed⟩ := exists_of_mapM_error stopped
    obtain ⟨how, misfit, rfl⟩ := stop_error_iff.mp failed
    refine ⟨how, of_stop_error stopped, ?_⟩
    cases misfit with
    | long => exact Or.inr rfl
    | wraps => exact Or.inl rfl

/-- No sum or difference that led to the layout has wrapped. -/
structure Exact (layout : Layout) (used : List Segment) : Prop where
  fits : ∀ s ∈ used, s.Fits
  align : 1 ≤ layout.align.toNat
  span : ∃ high, IsGreatest {n | ∃ s ∈ used, s.vaddr.toNat + s.memSize.toNat = n} high ∧
    layout.start.toNat ≤ high ∧ layout.span.toNat = high - layout.start.toNat
  offsets : ∀ s ∈ used, layout.start.toNat ≤ s.vaddr.toNat ∧
    (s.vaddr - layout.start).toNat = s.vaddr.toNat - layout.start.toNat

/-- Nor does one that leads to the place of a segment around a base, or past its file bytes. -/
structure ExactAt (layout : Layout) (base : Word) (s : Segment) : Prop where
  moved : (base + (s.vaddr - layout.start)).toNat =
    base.toNat + (s.vaddr.toNat - layout.start.toNat)
  past : (base + (s.vaddr - layout.start)).toNat + s.data.length < 2 ^ 64

theorem exact {segments : List Segment} {layout : Layout}
    (h : Layout.of segments = .ok (some layout)) : layout.Exact (occupied segments) := by
  obtain ⟨stops, stopped, some_used, -, -, -, span⟩ := of_eq_some h
  have fits : ∀ s ∈ occupied segments, s.Fits := by
    intro s hs
    obtain ⟨e, -, ended⟩ := mapM_stop stopped s hs
    exact stop_ok_iff.mp ⟨e, ended⟩
  have greatest : IsGreatest {n | ∃ s ∈ occupied segments, s.vaddr.toNat + s.memSize.toNat = n}
      (stops.foldl max 0).toNat := by
    have bound := (le_foldl_max stops 0).2
    constructor
    · rcases foldl_choice Word.max_choice stops 0 with zero | last
      · -- a segment that takes up memory does not end at zero
        obtain ⟨s, hs⟩ := List.exists_mem_of_ne_nil _ some_used
        obtain ⟨e, he, ended⟩ := mapM_stop stopped s hs
        have below := bound e he
        have pos := (spans h hs).2.1
        rw [zero, (stop_eq_ok ended).2] at below
        change s.vaddr.toNat + s.memSize.toNat ≤ 0 at below
        omega
      · obtain ⟨s, hs, ended⟩ := exists_of_mem_mapM stopped last
        exact ⟨s, hs, (stop_eq_ok ended).2.symm⟩
    · rintro n ⟨s, hs, rfl⟩
      obtain ⟨e, he, ended⟩ := mapM_stop stopped s hs
      rw [← (stop_eq_ok ended).2]
      exact bound e he
  have offsets : ∀ s ∈ occupied segments, layout.start.toNat ≤ s.vaddr.toNat ∧
      (s.vaddr - layout.start).toNat = s.vaddr.toNat - layout.start.toNat := by
    intro s hs
    have above := (spans h hs).2.2.1
    exact ⟨above, UInt64.toNat_sub_of_le _ _ (UInt64.le_iff_toNat_le.mpr above)⟩
  refine ⟨fits, (align_greatest h).2 (Or.inl rfl), ⟨_, greatest, ?_⟩, offsets⟩
  obtain ⟨s, hs⟩ := List.exists_mem_of_ne_nil _ some_used
  have low : layout.start.toNat ≤ (stops.foldl max 0).toNat := by
    have last := greatest.2 ⟨s, hs, rfl⟩
    have first := (offsets s hs).1
    omega
  rw [span]
  exact ⟨low, UInt64.toNat_sub_of_le _ _ (UInt64.le_iff_toNat_le.mpr low)⟩

end Layout

namespace Image

variable {σ : Type} [Allocator σ] {backs : σ → List Region → Prop} {a b : Arena (Audited σ)}
  {size : Word} {raw promise : Region}

theorem store_segment (laws : Backing backs) (accepts : Accepting backs)
    (h : a.Extends backs b size raw promise) {start : Word} {s : Segment}
    (within : s.Within start.toNat promise.length.toNat) :
    ∃ c, b.write (promise.base + (s.vaddr - start)) s.data = .ok c ∧
      a.Extends backs c size raw promise := by
  have representable : promise.Representable := h.held.promise_representable h.latest_mem
  obtain ⟨-, inside, last⟩ := moved_segment representable within
  have short := Nat.lt_of_le_of_lt within.short s.memSize.toNat_lt
  have length := UInt64.toNat_ofNat_of_lt' short
  obtain ⟨c, wrote⟩ : ∃ c, b.write (promise.base + (s.vaddr - start)) s.data = .ok c := by
    by_cases nothing : s.data = []
    · exact ⟨b, by rw [nothing]; rfl⟩
    · have pos : 0 < (UInt64.ofNat s.data.length).toNat := by
        rw [length]
        exact List.length_pos_iff.mpr nothing
      have covers : promise.covers (promise.base + (s.vaddr - start))
          (UInt64.ofNat s.data.length) = true := by
        rw [Region.covers_iff_of_representable representable, length]
        have below := within.short
        exact ⟨inside.1, by omega⟩
      obtain ⟨t, wrote⟩ := h.held.write_ok accepts nothing short h.latest_mem pos covers
      exact ⟨_, wrote⟩
  exact ⟨c, wrote, h.write laws inside wrote⟩

theorem fill_ok (laws : Backing backs) (accepts : Accepting backs)
    (h : a.Extends backs b size raw promise) {start : Word} {segments : List Segment}
    (within : ∀ s ∈ segments, s.Within start.toNat promise.length.toNat) :
    ∃ c, fill promise.base start segments b = (.ok (), c) := by
  induction segments generalizing b with
  | nil => exact ⟨b, rfl⟩
  | cons s rest ih =>
    obtain ⟨written, wrote, extended⟩ :=
      store_segment laws accepts h (within s List.mem_cons_self)
    obtain ⟨c, filled⟩ := ih extended fun t ht => within t (List.mem_cons_of_mem s ht)
    exact ⟨c, by rw [fill, wrote]; exact filled⟩

/-- Around the base of a mapping made for them, segments have exact places, and are stored there. -/
theorem filled_of_mapped (laws : Backing backs) (accepts : Accepting backs) (held : a.Held backs)
    {segments : List Segment} {layout : Layout} {base : Word}
    (hl : Layout.of segments = .ok (some layout))
    (hm : a.map layout.span layout.protection layout.align = (.ok base, b))
    (kept : b.allocator.Kept) : (∀ s ∈ Layout.occupied segments, layout.ExactAt base s) ∧
      ∃ c, fill base layout.start (Layout.occupied segments) b = (.ok (), c) := by
  rcases held.map_cases laws (by rw [hm]; exact kept) with
    ⟨e, c, eq, -⟩ | ⟨size, raw, promise, c, eq, long, extended⟩
  · rw [hm] at eq
    cases eq
  rw [hm, Prod.mk.injEq, Except.ok.injEq] at eq
  obtain ⟨rfl, rfl⟩ := eq
  have within := fun s hs => Layout.within hl long (s := s) hs
  have representable : promise.Representable :=
    extended.held.promise_representable extended.latest_mem
  refine ⟨fun s hs => ?_, fill_ok laws accepts extended within⟩
  obtain ⟨moved, -, last⟩ := moved_segment representable (within s hs)
  have short := (within s hs).short
  unfold Region.Representable at representable
  exact ⟨moved, by omega⟩

/-- Segments are placed with exact numbers, or refused before any are computed from a segment that
leaves the address space; and what was mapped for them is filled. -/
structure Secure (segments : List Segment) (a : Arena σ) : Prop where
  refused : ∀ how, how ≠ .segmentAlignment →
    ((place segments a).1 = .error (.invalid how) ↔ ∃ before s after,
      Layout.occupied segments = before ++ s :: after ∧ (∀ t ∈ before, t.Fits) ∧ s.Misfit how)
  wrapping : ∀ s ∈ segments, s.Wraps → ∃ how, place segments a = (.error (.invalid how), a) ∧
    (how = .segmentWraps ∨ how = .dataAboveSegment)
  exact : ∀ layout, Layout.of segments = .ok (some layout) →
    layout.Exact (Layout.occupied segments)
  filled : ∀ layout base b, Layout.of segments = .ok (some layout) →
    a.map layout.span layout.protection layout.align = (.ok base, b) →
    (∀ s ∈ Layout.occupied segments, layout.ExactAt base s) ∧
      ∃ c, fill base layout.start (Layout.occupied segments) b = (.ok (), c) ∧
        place segments a = (.ok (.around base layout.start segments), c)
  stored : ∀ e, (place segments a).1 ≠ .error (.access e)

theorem secure (laws : Backing backs) (accepts : Accepting backs) (held : a.Held backs)
    {segments : List Segment} (kept : (place segments a).2.allocator.Kept) :
    Secure segments a := by
  have filled : ∀ layout base b, Layout.of segments = .ok (some layout) →
      a.map layout.span layout.protection layout.align = (.ok base, b) →
      (∀ s ∈ Layout.occupied segments, layout.ExactAt base s) ∧
        ∃ c, fill base layout.start (Layout.occupied segments) b = (.ok (), c) ∧
          place segments a = (.ok (.around base layout.start segments), c) := by
    intro layout base b hl hm
    have mapped := map_reaches_place hl a
    rw [hm] at mapped
    obtain ⟨places, c, hf⟩ :=
      filled_of_mapped laws accepts held hl hm (mapped.kept kept)
    exact ⟨places, c, hf, by simp only [place, hl, hm, hf]⟩
  refine ⟨fun how single => place_invalid_iff.trans (Layout.of_misfit_iff single), ?_,
    fun layout hl => Layout.exact hl, filled, ?_⟩
  · intro s hs wraps
    have used : s ∈ Layout.occupied segments := by
      simpa [Layout.occupied, UInt64.lt_iff_toNat_lt] using ⟨hs, wraps.pos⟩
    obtain ⟨how, refused, cause⟩ := Layout.of_wrapping used wraps
    exact ⟨how, by simp only [place, refused], cause⟩
  · intro e failed
    have came := place_outcome segments a
    generalize place segments a = r at came failed
    cases came with
    | unlaid refused =>
      obtain ⟨how, rfl⟩ := Layout.of_error_invalid refused
      cases failed
    | nothing | unmapped | filled => cases failed
    | undone laid mapped faulted =>
      obtain ⟨-, c, stored, -⟩ := filled _ _ _ laid mapped
      cases faulted.symm.trans stored

/-- Whatever segments an object has, and whatever its arena did before, over any allocator that
keeps its contract and writes into its live blocks, a heap among them. -/
theorem segments_placed_without_wrapping :
    (∀ (σ : Type) [Allocator σ] (backs : σ → List Region → Prop), Backing backs →
      Accepting backs → ∀ s, backs s [] →
        ∀ (pid : Pid) (earlier : List Operation) (segments : List Segment),
          let a := (Arena.empty pid (Audited.ofAllocator s)).run earlier
          (place segments a).2.allocator.Kept → Secure segments a) ∧
    ∀ (budget : Option Word) (host : ℕ → Word → Word) (pid : Pid) (earlier : List Operation)
      (segments : List Segment),
      let a := (Arena.empty pid (Audited.ofAllocator (HostHeap.empty budget host))).run earlier
      HostHeap.Separate host 0 [] (place segments a).2.allocator.history → Secure segments a := by
  have general : ∀ (σ : Type) [Allocator σ] (backs : σ → List Region → Prop), Backing backs →
      Accepting backs → ∀ s, backs s [] →
        ∀ (pid : Pid) (earlier : List Operation) (segments : List Segment),
          let a := (Arena.empty pid (Audited.ofAllocator s)).run earlier
          (place segments a).2.allocator.Kept → Secure segments a := by
    intro σ _ backs laws accepts s fresh pid earlier segments a kept
    have held : a.Held backs := (Arena.held_empty pid fresh).reaches laws ⟨earlier, rfl⟩
      ((place_reaches segments a).kept kept)
    exact secure laws accepts held kept
  refine ⟨general, ?_⟩
  intro budget host pid earlier segments a separate
  have reached : (Arena.empty pid (Audited.ofAllocator (HostHeap.empty budget host))).Reaches a :=
    ⟨earlier, rfl⟩
  have kept := Arena.kept_of_separate (reached.trans (place_reaches segments a)) separate
  exact general HostHeap _ HostHeap.backing HostHeap.accepting _ (Heap.backs_empty budget) pid
    earlier segments kept

/-- Segments that end at the last address, moved to the last places that a host has; and the same,
one byte longer. -/
theorem segments_placed_at_the_top :
    let low : Segment := ⟨0xffffffffffffe010, 0x20, 8, [4], .readWrite⟩
    let segments : List Segment := [⟨0xfffffffffffff000, 0xfff, 0x1000, [1, 2, 3], .readWrite⟩, low]
    let longer : List Segment := [low, ⟨0xfffffffffffff000, 0x1000, 0x1000, [1, 2, 3], .readWrite⟩]
    let host : ℕ → Word → Word := fun n _ => if n = 0 then 0x20003 else 0xffffffffffffcff8
    let heap := HostHeap.empty none host
    let a := (Arena.empty 1 (Audited.ofAllocator heap)).run [.map 20 .readWrite 1]
    (place segments a).1 = .ok (.around 0xffffffffffffd000 0xffffffffffffe000 segments) ∧
      (place segments a).2.allocator.Kept ∧ Secure segments a ∧
      (place longer a).1 = .error (.invalid .segmentWraps) ∧
      HostHeap.Separate host 0 [] (place longer a).2.allocator.history ∧ Secure longer a := by
  intro low segments longer host heap a
  have kept : (place segments a).2.allocator.Kept := by decide
  have separate : HostHeap.Separate host 0 [] (place longer a).2.allocator.history := by decide
  have fresh : heap.heap.Backs [] := Heap.backs_empty none
  obtain ⟨general, hosted⟩ := segments_placed_without_wrapping
  have placed := general HostHeap _ HostHeap.backing HostHeap.accepting heap fresh 1
    [.map 20 .readWrite 1] segments kept
  exact ⟨by decide, kept, placed, by decide, separate,
    hosted none host 1 [.map 20 .readWrite 1] longer separate⟩

end Image

end AppHost
