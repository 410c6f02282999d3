import AppHost.Proofs.Linkage.Image
import AppHost.Proofs.Linkage.Lifecycle
/-! Where images live. As long as nobody unmaps them, the modules of a linkage that was not linked
yet have a live mapping each, and no two of them share one. -/
namespace AppHost

open Memory

/-- An image that is nowhere, or translates into one live mapping, at whose base it is. -/
def Image.Housed {σ : Type} (image : Image) (a : Arena σ) : Prop :=
  (image.base = none ∧ ∀ v, image.translate? v = none) ∨
  ∃ home ∈ a.mapped, image.base = some home.promise.base ∧
    ∀ v place, image.translate? v = some place → home.promise.Holds place.toNat

namespace Image

variable {σ : Type} {image : Image}

theorem Housed.moved {a b : Arena σ} (h : image.Housed a)
    (kept : ∀ home ∈ a.mapped, image.base = some home.promise.base →
      ∃ home' ∈ b.mapped, home'.promise = home.promise) : image.Housed b := by
  rcases h with nowhere | ⟨home, hm, base, inside⟩
  · exact Or.inl nowhere
  · obtain ⟨home', hm', same⟩ := kept home hm base
    refine Or.inr ⟨home', hm', ?_⟩
    rw [same]
    exact ⟨base, inside⟩

theorem Housed.of_subset {a b : Arena σ} (h : image.Housed a)
    (kept : ∀ home ∈ a.mapped, home ∈ b.mapped) : image.Housed b :=
  h.moved fun home hm _ => ⟨home, kept home hm, rfl⟩

theorem Housed.release {a : Arena σ} [Allocator σ] (h : image.Housed a) {base : Word}
    (other : image.base ≠ some base) : image.Housed (a.release base) := by
  rcases Arena.release_cases a base with ⟨eq, -⟩ | ⟨index, m, hm, at_base, -, eq⟩ <;> rw [eq]
  · exact h
  refine h.moved ?_
  intro home hh same
  have ne : home ≠ m := by
    rintro rfl
    exact other (same.trans (congrArg some at_base))
  refine ⟨{ home with actual := Arena.shift m.actual home.actual }, ?_, rfl⟩
  rw [Arena.mapped_remove]
  refine List.mem_map_of_mem (List.mem_eraseIdx_iff_getElem?.mpr ?_)
  obtain ⟨i, hi⟩ := List.mem_iff_getElem?.mp hh
  refine ⟨i, ?_, hi⟩
  rintro rfl
  rw [hm] at hi
  exact ne (Option.some.inj hi).symm

variable [Allocator σ] {backs : σ → List Region → Prop} {a b : Arena (Audited σ)} {size : Word}
  {raw promise : Region}

theorem Housed.perform (laws : Backing backs) (held : a.Held backs) (h : image.Housed a)
    (operation : Operation) (kept : (a.perform operation).allocator.Kept)
    (spared : ∀ base, operation = .unmap base → image.base ≠ some base) :
    image.Housed (a.perform operation) := by
  cases operation with
  | map minLength prot minAlign =>
    change image.Housed (a.map minLength prot minAlign).2
    rcases held.map_cases laws kept with
      ⟨e, b, eq, restored⟩ | ⟨size, raw, promise, b, eq, -, extended⟩ <;> rw [eq]
    · exact h.of_subset fun home hh => restored.mapped ▸ hh
    · refine h.of_subset ?_
      intro home hh
      rw [extended.mapped]
      exact List.mem_append_left _ hh
  | unmap base => exact h.release (spared base rfl)
  | write address bytes =>
    rcases a.perform_write_cases address bytes with eq | ⟨s, -, -, -, eq⟩ <;> rw [eq]
    · exact h
    · exact h.of_subset fun home hh => hh
  | setResume point => exact h.of_subset fun home hh => hh

theorem Housed.run (laws : Backing backs) (held : a.Held backs) (h : image.Housed a)
    {operations : List Operation} (kept : (a.run operations).allocator.Kept)
    (spared : ∀ base, .unmap base ∈ operations → image.base ≠ some base) :
    image.Housed (a.run operations) := by
  induction operations generalizing a with
  | nil => exact h
  | cons operation rest ih =>
    have now : (a.perform operation).allocator.Kept := Arena.Reaches.kept ⟨rest, rfl⟩ kept
    have next := held.reaches laws (a.reaches_perform operation) now
    refine ih next (h.perform laws held operation now ?_) kept ?_
    · rintro base rfl
      exact spared base List.mem_cons_self
    · intro base later
      exact spared base (List.mem_cons_of_mem _ later)

theorem base_ne_of_extends (paired : a.Paired) (h : a.Extends backs b size raw promise)
    {home : Mapping} (hm : home ∈ a.mapped) : home.promise.base ≠ promise.base := by
  intro same
  obtain ⟨i, hi⟩ := List.mem_iff_getElem?.mp hm
  obtain ⟨lt, -⟩ := List.getElem?_eq_some_iff.mp hi
  have also : b.mapped[i]? = some home := by
    rw [h.mapped, List.getElem?_append_left lt]
    exact hi
  obtain ⟨-, last⟩ := h.found paired also same
  omega

theorem place_around (laws : Backing backs) (h : a.Held backs) {segments : List Segment}
    (done : place segments a = (.ok image, b)) (kept : b.allocator.Kept) :
    (image = .empty ∧ b = a) ∨ ∃ layout size raw promise,
      Layout.of segments = .ok (some layout) ∧ layout.span.toNat ≤ promise.length.toNat ∧
      image = .around promise.base layout.start segments ∧ a.Extends backs b size raw promise := by
  rcases place_ok done with ⟨-, rfl, rfl⟩ | ⟨layout, base, mapped, hl, hm, hf, rfl⟩
  · exact Or.inl ⟨rfl, rfl⟩
  have reached := map_reaches_place hl a
  rw [done] at reached
  rcases h.map_cases laws (reached.kept kept) with
    ⟨e, _, refused, -⟩ | ⟨size, raw, promise, _, eq, long, extended⟩
  · rw [hm] at refused
    cases refused
  · rw [hm] at eq
    cases eq
    have filled := fill_extends laws extended fun s hs => holds_segment extended hl long hs
    rw [hf] at filled
    exact Or.inr ⟨layout, size, raw, promise, hl, long, rfl, filled⟩

theorem place_housed (laws : Backing backs) (h : a.Held backs) {segments : List Segment}
    (done : place segments a = (.ok image, b)) (kept : b.allocator.Kept) :
    image.Housed b ∧ (∀ home ∈ a.mapped, home ∈ b.mapped) ∧
      ∀ home ∈ a.mapped, image.base ≠ some home.promise.base := by
  rcases place_around laws h done kept with
    ⟨rfl, rfl⟩ | ⟨layout, size, raw, promise, hl, long, rfl, extended⟩
  · exact ⟨Or.inl ⟨rfl, fun _ => rfl⟩, fun _ hm => hm, fun _ _ => nofun⟩
  · have representable : promise.Representable :=
      extended.held.promise_representable extended.latest_mem
    have within := fun s hs => Layout.within hl long (s := s) hs
    refine ⟨Or.inr ⟨_, extended.latest_mem, rfl, ?_⟩, ?_, ?_⟩
    · intro v place translated
      rcases translate?_around representable within v with ⟨-, used⟩ | ⟨no, -⟩
      · obtain ⟨-, found, -, holds, -⟩ :=
          moved_inside representable (one_dvd _) (one_dvd _) within used
        rw [translated] at found
        cases found
        exact holds
      · rw [translated] at no
        cases no
    · intro home hm
      rw [extended.mapped]
      exact List.mem_append_left _ hm
    · intro home hm same
      exact base_ne_of_extends h.paired extended hm (Option.some.inj same).symm

end Image

namespace Linkage

variable {σ : Type} [Allocator σ] {backs : σ → List Region → Prop}

structure Housed (l : Linkage (Audited σ)) : Prop where
  homes : ∀ m ∈ l.modules, m.image.Housed l.arena
  own : l.modules.Pairwise fun m n =>
    ∀ base, m.image.base = some base → n.image.base ≠ some base

/-- No call on the way unmaps the image of a module that is loaded by then. -/
def SparesImages (l : Linkage σ) : List LinkageCall → Prop
  | [] => True
  | call :: rest =>
    (∀ base, call = .memory (.unmap base) → ∀ m ∈ l.modules, m.image.base ≠ some base) ∧
      (l.act call).SparesImages rest

variable {l l' : Linkage (Audited σ)}

theorem Housed.unchanged (h : l.Housed) (same : l.Unchanged l') : l'.Housed := by
  obtain ⟨arena, journal, rfl, restored⟩ := same
  exact ⟨fun m hm => (h.homes m hm).of_subset fun home hh => restored.mapped ▸ hh, h.own⟩

theorem Housed.load (laws : Backing backs) (held : l.arena.Held backs) (h : l.Housed)
    (name : String) (source : Except FileError Bytes) (executable : Bool)
    (kept : (l.load name source executable).2.arena.allocator.Kept) :
    (l.load name source executable).2.Housed := by
  rcases loaded : l.load name source executable with ⟨outcome, after⟩
  rw [loaded] at kept
  cases outcome with
  | error e =>
    exact h.unchanged (load_error laws held loaded kept)
  | ok =>
    rcases l.load_cases name source executable with
      ⟨e, arena, journal, eq⟩ | ⟨bytes, object, image, arena, staged, -, -, -, placed, -, eq⟩
    · rw [loaded] at eq
      cases eq
    · obtain ⟨symbols, journal, added⟩ :=
        add_frame { l.note (.parsed name) with arena } name object image staged
      rw [loaded, added] at eq
      cases eq
      obtain ⟨housed, older, other⟩ := Image.place_housed laws held placed kept
      constructor
      · intro m hm
        rcases List.mem_append.mp hm with hm | hm
        · exact (h.homes m hm).of_subset older
        · cases List.mem_singleton.mp hm
          exact housed
      · refine List.pairwise_append.mpr ⟨h.own, List.pairwise_singleton _ _, ?_⟩
        intro m hm n hn base at_base
        cases List.mem_singleton.mp hn
        rcases h.homes m hm with ⟨nowhere, -⟩ | ⟨home, hh, base', -⟩
        · rw [nowhere] at at_base
          cases at_base
        · rw [← at_base, base']
          exact other home hh

theorem Housed.perform (laws : Backing backs) (held : l.arena.Held backs) (h : l.Housed)
    (operation : Operation) (kept : (l.arena.perform operation).allocator.Kept)
    (spared : ∀ base, operation = .unmap base → ∀ m ∈ l.modules, m.image.base ≠ some base) :
    ∀ m ∈ l.modules, m.image.Housed (l.arena.perform operation) := by
  intro m hm
  exact (h.homes m hm).perform laws held operation kept fun base eq => spared base eq m hm

theorem Housed.act (laws : Backing backs) (held : l.arena.Held backs) (h : l.Housed)
    {call : LinkageCall} (kept : (l.act call).arena.allocator.Kept) (unlinked : call ≠ .link)
    (spared : ∀ base, call = .memory (.unmap base) → ∀ m ∈ l.modules, m.image.base ≠ some base) :
    (l.act call).Housed := by
  cases call with
  | loadLibrary name source => exact h.load laws held name source false kept
  | loadExecutable name source =>
    change (l.loadExecutable name source).2.Housed
    change (l.loadExecutable name source).2.arena.allocator.Kept at kept
    rcases l.loadExecutable_cases name source with ⟨e, arena, journal, eq⟩ | ⟨after, -, loaded, eq⟩
    · rw [eq] at kept
      have failed := loadExecutable_error laws held eq kept
      rw [eq]
      exact h.unchanged failed
    · have housed := h.load laws held name source true
      rw [loaded] at housed
      rw [eq] at kept ⊢
      exact ⟨(housed kept).homes, (housed kept).own⟩
  | link => exact absurd rfl unlinked
  | collect =>
    change l.collect.Housed
    unfold collect
    split
    · constructor
      · intro m hm
        obtain ⟨n, hn, rfl⟩ := List.mem_map.mp hm
        exact h.homes n hn
      · exact List.pairwise_map.mpr h.own
    · exact h
  | setSymbols symbols => exact ⟨h.homes, h.own⟩
  | memory operation =>
    exact ⟨h.perform laws held operation kept fun base eq => spared base (congrArg _ eq), h.own⟩

theorem Housed.after (laws : Backing backs) (held : l.arena.Held backs) (h : l.Housed)
    {calls : List LinkageCall} (kept : (l.after calls).arena.allocator.Kept)
    (unlinked : .link ∉ calls) (spared : l.SparesImages calls) : (l.after calls).Housed := by
  induction calls generalizing l with
  | nil => exact h
  | cons call rest ih =>
    obtain ⟨first, later⟩ := spared
    obtain ⟨not_now, not_later⟩ := not_or.mp (List.mem_cons.not.mp unlinked)
    have now : (l.act call).arena.allocator.Kept :=
      (after_reaches (l.act call) rest).kept kept
    have next : (l.act call).arena.Held backs := held.reaches laws (l.act_reaches call) now
    exact ih next (h.act laws held now (Ne.symm not_now) first) kept not_later later

theorem housed_empty (arena : Arena (Audited σ)) (parser : ObjectParser (Audited σ))
    (policy : CollisionPolicy) : (empty arena parser policy).Housed :=
  ⟨nofun, .nil⟩

end Linkage

end AppHost
