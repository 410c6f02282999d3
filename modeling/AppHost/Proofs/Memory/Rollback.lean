import AppHost.Proofs.Memory.Backing
import Mathlib.Data.List.Pairwise
/-! Undoing the latest mapping. Writes inside its promise touch nothing of what was there before,
and unmapping it gives back the arena as it was. -/
namespace AppHost.Memory.Arena

variable {σ : Type}

theorem Sound.mapping_unique {a : Arena (Audited σ)} (h : a.Sound) {m n : Mapping}
    (hm : m ∈ a.mapped) (hn : n ∈ a.mapped) {x : ℕ} (mx : m.promise.Holds x)
    (nx : n.promise.Holds x) : m = n := by
  by_contra ne
  have symmetric : Std.Symm fun m n : Mapping => m.promise.Apart n.promise :=
    ⟨fun _ _ apart => apart.symm⟩
  have apart := h.promises_apart.forall hm hn ne
  exact apart x mx nx

variable [Allocator σ] {backs : σ → List Region → Prop} {a b c : Arena (Audited σ)}
  {size : Word} {raw promise : Region}

/-- `b` is `a` with one more mapping. -/
structure Extends (backs : σ → List Region → Prop) (a b : Arena (Audited σ)) (size : Word)
    (raw promise : Region) : Prop where
  held : b.Held backs
  mapped : b.mapped = a.mapped ++ [⟨promise, a.actual.length⟩]
  actual : b.actual = a.actual ++ [raw]
  history : b.allocator.history = a.allocator.history ++ [.granted size raw]
  keeps : a.Keeps b

/-- `b` is `a` again: whatever was given out since `a` was given back, once. -/
structure Restores (a b : Arena (Audited σ)) : Prop where
  mapped : b.mapped = a.mapped
  actual : b.actual = a.actual
  keeps : a.Keeps b
  history : b.allocator.history = a.allocator.history ∨
    ∃ size raw, b.allocator.history =
      a.allocator.history ++ [.granted size raw, .released raw]

theorem Restores.refl (a : Arena (Audited σ)) : Restores a a :=
  ⟨rfl, rfl, Keeps.refl a, Or.inl rfl⟩

theorem Held.map_cases (laws : Backing backs) (h : a.Held backs) {minLength : Word}
    {prot : Protection} {minAlign : Word}
    (kept : (a.map minLength prot minAlign).2.allocator.Kept) :
    (∃ e b, a.map minLength prot minAlign = (.error e, b) ∧ Restores a b) ∨
    ∃ size raw promise b, a.map minLength prot minAlign = (.ok promise.base, b) ∧
      minLength.toNat ≤ promise.length.toNat ∧ Extends backs a b size raw promise := by
  rcases Arena.map_cases a minLength prot minAlign with
    ⟨e, -, eq⟩ | ⟨plan, s, -, asked, eq⟩ | ⟨plan, raw, s, planned, asked, eq⟩
  · exact Or.inl ⟨e, a, eq, Restores.refl a⟩
  · obtain ⟨-, keeps⟩ := h.refused laws asked
    exact Or.inl ⟨_, _, eq, rfl, rfl, keeps, Or.inl (Audited.history_of_refused asked)⟩
  · rw [eq] at kept
    obtain ⟨fits, within, served, long, pos⟩ :=
      served_of_kept (q := ⟨minLength, minAlign⟩) planned asked kept
    obtain ⟨held, keeps⟩ := h.grow laws asked long fits within pos
    exact Or.inr ⟨plan.size, raw, ⟨plan.baseIn raw, plan.length⟩, _, eq, served.least.1.2, held,
      rfl, rfl, Audited.history_of_granted asked, keeps⟩

theorem Extends.latest_mem (h : Extends backs a b size raw promise) :
    ⟨promise, a.actual.length⟩ ∈ b.mapped := by
  rw [h.mapped]
  exact List.mem_append_right _ List.mem_cons_self

theorem Extends.apart_raw (h : Extends backs a b size raw promise) {r : Region}
    (hr : r ∈ a.actual) : r.Apart raw := by
  have apart := h.held.apart
  rw [h.actual] at apart
  exact (List.pairwise_append.mp apart).2.2 r hr raw List.mem_cons_self

theorem Extends.write (laws : Backing backs) (h : Extends backs a b size raw promise)
    {address : Word} {bytes : Bytes} (inside : promise.Holds address.toNat)
    (hw : b.write address bytes = .ok c) : Extends backs a c size raw promise := by
  rcases write_cases hw with ⟨-, rfl⟩ | ⟨s, some_bytes, hc, hs, rfl⟩
  · exact h
  obtain ⟨m, hm, holds, covers⟩ := checkSpan_cases hc
  have latest : m = ⟨promise, a.actual.length⟩ :=
    h.held.mapping_unique hm h.latest_mem holds inside
  obtain ⟨held, place, hp, same⟩ := h.held.write laws hm some_bytes covers hs
  have eq : place = raw := by
    rw [latest, h.actual, List.getElem?_concat_length] at hp
    exact (Option.some.inj hp).symm
  subst eq
  refine ⟨held, h.mapped, h.actual, (Audited.history_write hs).trans h.history, ?_⟩
  intro r hr
  have mem : r ∈ b.actual := h.actual ▸ List.mem_append_left _ hr
  exact (h.keeps r hr).trans (same r mem (h.apart_raw hr))

theorem Extends.found (h : Extends backs a b size raw promise) (paired : a.Paired) {index : ℕ}
    {m : Mapping} (hm : b.mapped[index]? = some m) (base : m.promise.base = promise.base) :
    m = ⟨promise, a.actual.length⟩ ∧ index = a.mapped.length := by
  have mem := List.mem_of_getElem? hm
  have pos := h.held.nonempty m mem
  have pos' : 0 < promise.length.toNat := h.held.nonempty _ h.latest_mem
  have latest : m = ⟨promise, a.actual.length⟩ := by
    refine h.held.mapping_unique mem h.latest_mem (x := m.promise.base.toNat) ⟨?_, ?_⟩ ⟨?_, ?_⟩
    all_goals simp only [base]
    all_goals omega
  refine ⟨latest, ?_⟩
  -- an earlier mapping would name an earlier allocation
  obtain ⟨hlt, -⟩ := List.getElem?_eq_some_iff.mp hm
  have bound : index < a.mapped.length + 1 := by simpa [h.mapped] using hlt
  by_contra ne
  have earlier : m ∈ a.mapped := by
    rw [h.mapped, List.getElem?_append_left (by omega)] at hm
    exact List.mem_of_getElem? hm
  have named := paired.lt earlier
  rw [latest] at named
  exact Nat.lt_irrefl _ named

theorem Extends.release (laws : Backing backs) (paired : a.Paired)
    (h : Extends backs a b size raw promise) : Restores a (b.release promise.base) := by
  rcases release_cases b promise.base with ⟨-, missing⟩ | ⟨index, m, hm, base, -, eq⟩
  · have absent := List.findIdx?_eq_none_iff.mp missing _ h.latest_mem
    simp at absent
  obtain ⟨rfl, rfl⟩ := h.found paired hm base
  obtain ⟨-, actual, same⟩ := h.held.remove laws hm
  have others : b.actual.eraseIdx a.actual.length = a.actual := by
    rw [h.actual, List.eraseIdx_append_of_length_le (Nat.le_refl _)]
    simp
  have raw_of : b.actual[a.actual.length]? = some raw := by
    rw [h.actual, List.getElem?_concat_length]
  rw [others] at actual same
  rw [eq]
  refine ⟨?_, actual, fun r hr => (h.keeps r hr).trans (same r hr), Or.inr ⟨size, raw, ?_⟩⟩
  · have unshifted : ∀ other ∈ a.mapped, shift a.actual.length other.actual = other.actual :=
      fun other ho => if_neg (Nat.lt_asymm (paired.lt ho))
    rw [mapped_remove, h.mapped, List.eraseIdx_append_of_length_le (Nat.le_refl _)]
    simp only [Nat.sub_self, List.eraseIdx_cons_zero, List.append_nil]
    exact (List.map_congr_left fun other ho => by rw [unshifted other ho]; rfl).trans
      (List.map_id _)
  · rw [allocator_remove raw_of, Audited.history_free, h.history, List.append_assoc]
    rfl

end AppHost.Memory.Arena
