import AppHost.Linkage.Placement
import AppHost.Proofs.Memory.Rollback
/-! Placing an object. The layout leaves room for every segment, so its bytes land in the mapping
made for it; a placement that fails has given that mapping back. -/
namespace AppHost

open Memory

theorem bind_eq_ok {ε α β : Type} {x : Except ε α} {f : α → Except ε β} {b : β} :
    x >>= f = .ok b ↔ ∃ a, x = .ok a ∧ f a = .ok b := by
  cases x <;> simp [bind, Except.bind]

theorem bind_eq_error {ε α β : Type} {x : Except ε α} {f : α → Except ε β} {e : ε} :
    x >>= f = .error e ↔ x = .error e ∨ ∃ a, x = .ok a ∧ f a = .error e := by
  cases x <;> simp [bind, Except.bind]

theorem getElem?_of_mapM {ε α β : Type} {f : α → Except ε β} {xs : List α} {ys : List β}
    (h : xs.mapM f = .ok ys) {n : ℕ} {x : α} (hx : xs[n]? = some x) :
    ∃ y, ys[n]? = some y ∧ f x = .ok y := by
  induction xs generalizing ys n with
  | nil => cases hx
  | cons first rest ih =>
    rw [List.mapM_cons] at h
    obtain ⟨y, made, h⟩ := bind_eq_ok.mp h
    obtain ⟨others, later, h⟩ := bind_eq_ok.mp h
    cases h
    cases n with
    | zero =>
      cases hx
      exact ⟨y, rfl, made⟩
    | succ n => exact ih later hx

theorem mapM_eq_ok_map {ε α β : Type} {f : α → Except ε β} {g : α → β} {xs : List α}
    (h : ∀ x ∈ xs, f x = .ok (g x)) : xs.mapM f = .ok (xs.map g) := by
  induction xs with
  | nil => rfl
  | cons first rest ih =>
    obtain ⟨made, later⟩ := List.forall_mem_cons.mp h
    rw [List.mapM_cons, made, ih later]
    rfl

theorem exists_of_mem_mapM {ε α β : Type} {f : α → Except ε β} {xs : List α} {ys : List β}
    (h : xs.mapM f = .ok ys) {y : β} (hy : y ∈ ys) : ∃ x ∈ xs, f x = .ok y := by
  induction xs generalizing ys with
  | nil =>
    cases h
    cases hy
  | cons first rest ih =>
    rw [List.mapM_cons] at h
    obtain ⟨z, made, h⟩ := bind_eq_ok.mp h
    obtain ⟨others, later, h⟩ := bind_eq_ok.mp h
    cases h
    rcases List.mem_cons.mp hy with rfl | hy
    · exact ⟨first, List.mem_cons_self, made⟩
    · obtain ⟨x, hx, made⟩ := ih later hy
      exact ⟨x, List.mem_cons_of_mem first hx, made⟩

theorem mapM_eq_error_iff {ε α β : Type} {f : α → Except ε β} {xs : List α} {e : ε} :
    xs.mapM f = .error e ↔ ∃ before x after, xs = before ++ x :: after ∧
      (∀ y ∈ before, ∃ b, f y = .ok b) ∧ f x = .error e := by
  induction xs with
  | nil =>
    refine iff_of_false nofun ?_
    rintro ⟨before, x, after, split, -⟩
    exact List.append_ne_nil_of_right_ne_nil before (List.cons_ne_nil x after) split.symm
  | cons first rest ih =>
    rw [List.mapM_cons, bind_eq_error]
    constructor
    · rintro (failed | ⟨b, made, later⟩)
      · exact ⟨[], first, rest, rfl, nofun, failed⟩
      rcases bind_eq_error.mp later with failed | ⟨others, -, done⟩
      · obtain ⟨before, x, after, rfl, fine, failed⟩ := ih.mp failed
        exact ⟨first :: before, x, after, rfl, List.forall_mem_cons.mpr ⟨⟨b, made⟩, fine⟩, failed⟩
      · cases done
    · rintro ⟨before, x, after, split, fine, failed⟩
      cases before with
      | nil =>
        cases split
        exact Or.inl failed
      | cons y before =>
        cases split
        obtain ⟨⟨b, made⟩, fine⟩ := List.forall_mem_cons.mp fine
        refine Or.inr ⟨b, made, bind_eq_error.mpr (Or.inl ?_)⟩
        exact ih.mpr ⟨before, x, after, rfl, fine, failed⟩

theorem exists_of_mapM_error {ε α β : Type} {f : α → Except ε β} {xs : List α} {e : ε}
    (h : xs.mapM f = .error e) : ∃ x ∈ xs, f x = .error e := by
  obtain ⟨before, x, after, rfl, -, failed⟩ := mapM_eq_error_iff.mp h
  exact ⟨x, List.mem_append_right before List.mem_cons_self, failed⟩

namespace Layout

theorem mapM_stop {used : List Segment} {stops : List Word} (h : used.mapM stop = .ok stops) :
    ∀ s ∈ used, ∃ e ∈ stops, stop s = .ok e := by
  intro s hs
  obtain ⟨n, hn⟩ := List.mem_iff_getElem?.mp hs
  obtain ⟨e, he, stopped⟩ := getElem?_of_mapM h hn
  exact ⟨e, List.mem_of_getElem? he, stopped⟩

theorem stop_eq_ok {s : Segment} {e : Word} (h : stop s = .ok e) :
    s.data.length ≤ s.memSize.toNat ∧ e.toNat = s.vaddr.toNat + s.memSize.toNat := by
  unfold stop at h
  split at h
  · cases h
  · rename_i short
    split at h
    · rename_i sum
      cases h
      exact ⟨Nat.not_lt.mp short, Word.toNat_of_add? sum⟩
    · cases h

/-- A fold of an operation whose result is related to both of its arguments is related to all that
it went through. -/
theorem foldl_related {r : Word → Word → Prop} {op : Word → Word → Word} (refl : ∀ a, r a a)
    (trans : ∀ a b c, r a b → r b c → r a c) (left : ∀ a b, r (op a b) a)
    (right : ∀ a b, r (op a b) b) (words : List Word) (start : Word) :
    r (words.foldl op start) start ∧ ∀ w ∈ words, r (words.foldl op start) w := by
  induction words generalizing start with
  | nil => exact ⟨refl start, fun w hw => nomatch hw⟩
  | cons first rest ih =>
    rw [List.foldl_cons]
    obtain ⟨so_far, each⟩ := ih (op start first)
    refine ⟨trans _ _ _ so_far (left start first), fun w hw => ?_⟩
    rcases List.mem_cons.mp hw with rfl | hw
    · exact trans _ _ _ so_far (right start w)
    · exact each w hw

theorem foldl_min_le (words : List Word) (top : Word) :
    (words.foldl min top).toNat ≤ top.toNat ∧
      ∀ w ∈ words, (words.foldl min top).toNat ≤ w.toNat :=
  foldl_related (r := fun a b => a.toNat ≤ b.toNat) (fun _ => Nat.le_refl _)
    (fun _ _ _ => Nat.le_trans) (fun a b => Word.toNat_min a b ▸ Nat.min_le_left _ _)
    (fun a b => Word.toNat_min a b ▸ Nat.min_le_right _ _) words top

theorem le_foldl_max (words : List Word) (low : Word) :
    low.toNat ≤ (words.foldl max low).toNat ∧
      ∀ w ∈ words, w.toNat ≤ (words.foldl max low).toNat :=
  foldl_related (r := fun a b => b.toNat ≤ a.toNat) (fun _ => Nat.le_refl _)
    (fun _ _ _ ab bc => Nat.le_trans bc ab) (fun a b => Word.toNat_max a b ▸ Nat.le_max_left _ _)
    (fun a b => Word.toNat_max a b ▸ Nat.le_max_right _ _) words low

theorem of_eq_some {segments : List Segment} {layout : Layout}
    (h : Layout.of segments = .ok (some layout)) :
    ∃ stops, (occupied segments).mapM stop = .ok stops ∧ occupied segments ≠ [] ∧
      layout.align = ((occupied segments).map (·.align)).foldl max 1 ∧
      Word.isPowerOfTwo layout.align = true ∧
      layout.start =
        Word.alignDown (((occupied segments).map (·.vaddr)).foldl min (0 - 1)) layout.align ∧
      layout.span = stops.foldl max 0 - layout.start := by
  unfold Layout.of at h
  obtain ⟨stops, hm, h⟩ := bind_eq_ok.mp h
  split at h
  · cases h
  rename_i some_used
  simp only at h
  split at h
  · obtain ⟨_, refused, _⟩ := bind_eq_ok.mp h
    cases refused
  rename_i power
  cases h
  exact ⟨stops, hm, by simpa using some_used, rfl, by simpa using power, rfl, rfl⟩

theorem of_eq_none {segments : List Segment} (h : Layout.of segments = .ok none) :
    occupied segments = [] := by
  unfold Layout.of at h
  obtain ⟨stops, -, h⟩ := bind_eq_ok.mp h
  split at h
  · rename_i empty
    simpa using empty
  simp only at h
  split at h
  · obtain ⟨_, refused, _⟩ := bind_eq_ok.mp h
    cases refused
  cases h

/-- A layout spans every segment that takes up memory, with the segment's bytes. -/
theorem spans {segments : List Segment} {layout : Layout}
    (h : Layout.of segments = .ok (some layout)) {s : Segment} (hs : s ∈ occupied segments) :
    s.data.length ≤ s.memSize.toNat ∧ 0 < s.memSize.toNat ∧
      layout.start.toNat ≤ s.vaddr.toNat ∧
      (s.vaddr - layout.start).toNat + s.memSize.toNat ≤ layout.span.toNat := by
  obtain ⟨stops, hm, -, -, -, start, span⟩ := of_eq_some h
  obtain ⟨e, he, hstop⟩ := mapM_stop hm s hs
  obtain ⟨short, stop⟩ := stop_eq_ok hstop
  have pos : 0 < s.memSize.toNat := by
    simpa [occupied, UInt64.lt_iff_toNat_lt] using (List.mem_filter.mp hs).2
  have low := (foldl_min_le ((occupied segments).map (·.vaddr)) (0 - 1)).2 s.vaddr
    (List.mem_map_of_mem hs)
  have high := (le_foldl_max stops 0).2 e he
  have below : layout.start.toNat ≤ s.vaddr.toNat := by
    refine Nat.le_trans ?_ low
    rw [start, Word.alignDown, UInt64.toNat_and]
    exact Nat.and_le_left
  refine ⟨short, pos, below, ?_⟩
  rw [span, UInt64.toNat_sub_of_le _ _ (UInt64.le_iff_toNat_le.mpr below),
    UInt64.toNat_sub_of_le _ _ (UInt64.le_iff_toNat_le.mpr (by omega))]
  omega

end Layout

namespace Image

variable {σ : Type} [Allocator σ]

theorem fill_reaches (base start : Word) (segments : List Segment) (arena : Arena σ) :
    arena.Reaches (fill base start segments arena).2 := by
  induction segments generalizing arena with
  | nil => exact .refl arena
  | cons s rest ih =>
    unfold fill
    split
    · rename_i written hw
      have first := Arena.reaches_perform arena (.write (base + (s.vaddr - start)) s.data)
      rw [Arena.perform_write hw] at first
      exact first.trans (ih written)
    · exact .refl arena

theorem discard_reaches (image : Image) (arena : Arena σ) :
    arena.Reaches (image.discard arena) := by
  unfold discard
  split
  · rename_i base _
    exact Arena.reaches_perform arena (.unmap base)
  · exact .refl arena

inductive Outcome (segments : List Segment) (a : Arena σ) :
    Except LoadError Image × Arena σ → Prop where
  | unlaid {e} (refused : Layout.of segments = .error e) : Outcome segments a (.error e, a)
  | nothing (empty : Layout.of segments = .ok none) : Outcome segments a (.ok .empty, a)
  | unmapped {layout e b} (laid : Layout.of segments = .ok (some layout))
      (refused : a.map layout.span layout.protection layout.align = (.error e, b)) :
      Outcome segments a (.error (.placement e), b)
  | undone {layout base b e c} (laid : Layout.of segments = .ok (some layout))
      (mapped : a.map layout.span layout.protection layout.align = (.ok base, b))
      (faulted : fill base layout.start (Layout.occupied segments) b = (.error e, c)) :
      Outcome segments a (.error e, c.release base)
  | filled {layout base b c} (laid : Layout.of segments = .ok (some layout))
      (mapped : a.map layout.span layout.protection layout.align = (.ok base, b))
      (stored : fill base layout.start (Layout.occupied segments) b = (.ok (), c)) :
      Outcome segments a (.ok (.around base layout.start segments), c)

theorem place_outcome (segments : List Segment) (a : Arena σ) :
    Outcome segments a (place segments a) := by
  unfold place
  split
  · rename_i refused
    exact .unlaid refused
  · rename_i empty
    exact .nothing empty
  · rename_i laid
    split
    · rename_i refused
      exact .unmapped laid refused
    · rename_i mapped
      split
      · rename_i stored
        exact .filled laid mapped stored
      · rename_i faulted
        exact .undone laid mapped faulted

theorem map_reaches_place {segments : List Segment} {layout : Layout}
    (h : Layout.of segments = .ok (some layout)) (arena : Arena σ) :
    (arena.map layout.span layout.protection layout.align).2.Reaches (place segments arena).2 := by
  have came := place_outcome segments arena
  generalize place segments arena = r at came ⊢
  cases came with
  | unlaid refused => cases h.symm.trans refused
  | nothing empty => cases h.symm.trans empty
  | unmapped laid refused =>
    cases h.symm.trans laid
    rw [refused]
    exact .refl _
  | @undone _ base b e c laid mapped faulted =>
    cases h.symm.trans laid
    have filled := fill_reaches base layout.start (Layout.occupied segments) b
    rw [faulted] at filled
    rw [mapped]
    exact filled.trans (c.reaches_perform (.unmap base))
  | @filled _ base b c laid mapped stored =>
    cases h.symm.trans laid
    have filled := fill_reaches base layout.start (Layout.occupied segments) b
    rw [stored] at filled
    rw [mapped]
    exact filled

theorem place_reaches (segments : List Segment) (arena : Arena σ) :
    arena.Reaches (place segments arena).2 := by
  cases h : Layout.of segments with
  | error e =>
    simp only [place, h]
    exact .refl arena
  | ok layout =>
    cases layout with
    | none =>
      simp only [place, h]
      exact .refl arena
    | some layout =>
      have first := Arena.reaches_perform arena
        (.map layout.span layout.protection layout.align)
      exact first.trans (map_reaches_place h arena)

variable {backs : σ → List Region → Prop} {a b : Arena (Audited σ)} {size : Word}
  {raw promise : Region}

/-- Bytes stored inside the promise of the latest mapping leave all others alone. -/
theorem fill_extends (laws : Backing backs) (h : a.Extends backs b size raw promise)
    {base start : Word} {segments : List Segment}
    (inside : ∀ s ∈ segments, promise.Holds (base + (s.vaddr - start)).toNat) :
    a.Extends backs (fill base start segments b).2 size raw promise := by
  induction segments generalizing b with
  | nil => exact h
  | cons s rest ih =>
    unfold fill
    split
    · rename_i written hw
      have extended := h.write laws (inside s List.mem_cons_self) hw
      exact ih extended fun other ho => inside other (List.mem_cons_of_mem s ho)
    · exact h

theorem holds_segment (h : a.Extends backs b size raw promise) {segments : List Segment}
    {layout : Layout} (hl : Layout.of segments = .ok (some layout))
    (long : layout.span.toNat ≤ promise.length.toNat) {s : Segment}
    (hs : s ∈ Layout.occupied segments) :
    promise.Holds (promise.base + (s.vaddr - layout.start)).toNat := by
  obtain ⟨-, pos, -, fits⟩ := Layout.spans hl hs
  obtain ⟨place, -, mem, within, -⟩ := h.held.raw_of_promise h.latest_mem
  have representable := h.held.representable place mem
  unfold Region.Within at within
  unfold Region.Representable at representable
  simp only at within
  unfold Region.Holds
  rw [UInt64.toNat_add, Nat.mod_eq_of_lt (by omega)]
  omega

/-- Everything a placement can come to while the allocator keeps its contract. -/
theorem place_cases (laws : Backing backs) (h : a.Held backs) {segments : List Segment}
    (kept : (place segments a).2.allocator.Kept) :
    (∃ e b, place segments a = (.error e, b) ∧ a.Restores b) ∨
    place segments a = (.ok .empty, a) ∨
    ∃ image size raw promise b, place segments a = (.ok image, b) ∧
      image.base = some promise.base ∧ a.Extends backs b size raw promise := by
  cases hl : Layout.of segments with
  | error e => exact Or.inl ⟨e, a, by simp only [place, hl], .refl a⟩
  | ok layout =>
    cases layout with
    | none => exact Or.inr (Or.inl (by simp only [place, hl]))
    | some layout =>
      rcases h.map_cases laws ((map_reaches_place hl a).kept kept) with
        ⟨e, b, eq, restored⟩ | ⟨size, raw, promise, b, eq, long, extended⟩
      · exact Or.inl ⟨.placement e, b, by simp only [place, hl, eq], restored⟩
      · have filled := fill_extends laws extended fun s hs => holds_segment extended hl long hs
        cases hf : fill promise.base layout.start (Layout.occupied segments) b with
        | mk outcome after =>
          rw [hf] at filled
          cases outcome with
          | ok =>
            refine Or.inr (Or.inr ⟨.around promise.base layout.start segments, size, raw, promise,
              after, ?_, rfl, filled⟩)
            simp only [place, hl, eq, hf]
          | error e =>
            refine Or.inl ⟨e, after.release promise.base, ?_, filled.release laws h.paired⟩
            simp only [place, hl, eq, hf]

end Image

end AppHost
