import AppHost.Memory.Heap
import AppHost.Proofs.Memory.Refinement
import Mathlib.Algebra.Order.Group.Multiset
/-! What an arena owes its allocator. After any requests the regions given out and not yet taken
back are those of the arena's list, each region is given out and taken back by turns, and an arena
that is dropped gives back the rest. -/
namespace AppHost.Memory

namespace AllocatorEvent

/-- A region that is given out and taken back by turns, and was given out first. -/
def Alternates (r : Region) (events : List AllocatorEvent) : Prop :=
  let granted := (events.filterMap (·.granted?)).count r
  let released := (events.filterMap (·.released?)).count r
  granted = released ∨ granted = released + 1

instance (r : Region) (events : List AllocatorEvent) : Decidable (Alternates r events) :=
  inferInstanceAs (Decidable (_ ∨ _))

def Asked (events : List AllocatorEvent) : Prop :=
  ∀ size r, .granted size r ∈ events → 0 < size.toNat

theorem Throughout.of_prefix {P : List Region → AllocatorEvent → Prop} {live : List Region}
    {part whole : List AllocatorEvent} (h : Throughout P live whole) (hp : part <+: whole) :
    Throughout P live part := by
  obtain ⟨later, rfl⟩ := hp
  exact ((throughout_append live part later).mp h).1

theorem granting_released (live regions : List Region) :
    Throughout Granting live (regions.map .released) := by
  induction regions generalizing live with
  | nil => trivial
  | cons r rest ih => exact ⟨trivial, ih (live.erase r)⟩

theorem fresh_of_fits {size : Word} {r : Region} {live : List Region} (fits : Fits size r live)
    (pos : 0 < size.toNat) : r ∉ live := by
  intro mem
  have long := fits.long
  exact (fits.apart r mem).base_ne (by omega) (by omega) rfl

theorem nodup_live {live : List Region} {events : List AllocatorEvent}
    (granting : Throughout Granting live events) (asked : Asked events) (nodup : live.Nodup) :
    (events.foldl account live).Nodup := by
  induction events generalizing live with
  | nil => exact nodup
  | cons e rest ih =>
    obtain ⟨first, later⟩ := granting
    refine ih later (fun size r mem => asked size r (List.mem_cons_of_mem e mem)) ?_
    cases e with
    | granted size r =>
      have fresh := fresh_of_fits first (asked size r List.mem_cons_self)
      exact List.nodup_append.mpr ⟨nodup, List.nodup_singleton r, fun s hs t ht eq => by
        rw [List.mem_singleton.mp ht] at eq
        exact fresh (eq ▸ hs)⟩
    | released r => exact nodup.erase r

/-- Live regions differ from each other, so the outstanding grants of one region are one at most. -/
theorem alternates {events : List AllocatorEvent} (granting : Throughout Granting [] events)
    (releasing : Throughout Releasing [] events) (asked : Asked events) (r : Region) :
    Alternates r events := by
  have perm := Audited.throughout_releasing_perm releasing
  have counts := perm.count_eq r
  rw [List.nil_append, List.count_append] at counts
  have once := List.nodup_iff_count_le_one.mp (nodup_live granting asked List.nodup_nil) r
  unfold Alternates
  omega

end AllocatorEvent

namespace Arena

open AllocatorEvent

variable {σ : Type} {a b : Arena (Audited σ)}

/-- What was given out and not taken back is what the arena has on its list. -/
structure Settled (a : Arena (Audited σ)) : Prop where
  held : (a.allocator.granted : Multiset Region) - a.allocator.released = a.actual
  returned : (a.allocator.released : Multiset Region) ≤ a.allocator.granted

theorem Accounted.settled (h : a.Accounted) : a.Settled := by
  have perm : a.allocator.granted.Perm (a.allocator.released ++ a.actual) :=
    h.balanced.perm.trans (h.live.append_left _)
  have sum : (a.allocator.granted : Multiset Region) = a.allocator.released + a.actual := by
    rw [Multiset.coe_add]
    exact Multiset.coe_eq_coe.mpr perm
  constructor
  · rw [sum, add_tsub_cancel_left]
  · rw [sum]
    exact Multiset.le_add_right _ _

variable [Allocator σ]

theorem Step.asked (asked : Asked a.allocator.history) (next : a.Step b) :
    Asked b.allocator.history := by
  cases next with
  | idle => exact asked
  | pointed point => exact asked
  | refused request => exact Audited.history_of_refused request ▸ asked
  | @grown minLength minAlign plan prot raw s planned request =>
    obtain ⟨pos, -, least, size⟩ := MapPlan.of_eq_ok planned
    have long : minLength.toNat ≤ plan.length.toNat := least.1.2
    change Asked s.history
    rw [Audited.history_of_granted request]
    intro size' r mem
    rcases List.mem_append.mp mem with mem | mem
    · exact asked size' r mem
    · cases List.mem_singleton.mp mem
      omega
  | @removed index m found =>
    cases place : a.actual[m.actual]? with
    | none => simpa [remove, place] using asked
    | some raw =>
      rw [allocator_remove place, Audited.history_free]
      intro size r mem
      rcases List.mem_append.mp mem with mem | mem
      · exact asked size r mem
      · cases List.mem_singleton.mp mem
  | stored _ _ wrote => exact Audited.history_write wrote ▸ asked

theorem unmap?_eq_some {base : Word} (h : a.unmap? base = some b) :
    ∃ index m, a.mapped[index]? = some m ∧ m.promise.base = base ∧ b = a.remove index m := by
  have released : a.release base = b := by rw [release, h, Option.getD_some]
  rcases a.release_cases base with ⟨-, missing⟩ | ⟨index, m, found, here, -, eq⟩
  · simp [unmap?, missing] at h
  · exact ⟨index, m, found, here, released.symm.trans eq⟩

theorem Sound.unmap?_returns (h : a.Sound) {base : Word} (unmapped : a.unmap? base = some b) :
    ∃ before m after raw, a.mapped = before ++ m :: after ∧ m.promise.base = base ∧
      raw ∈ a.actual ∧ m.promise.Within raw ∧
      b.allocator.history = a.allocator.history ++ [.released raw] ∧
      b.mapped.map (·.promise) = (before ++ after).map (·.promise) := by
  obtain ⟨index, m, found, here, rfl⟩ := unmap?_eq_some unmapped
  obtain ⟨lt, rfl⟩ := List.getElem?_eq_some_iff.mp found
  obtain ⟨raw, place, mem, within, -⟩ := h.raw_of_promise (List.getElem_mem lt)
  have split : a.mapped = a.mapped.take index ++ a.mapped[index] :: a.mapped.drop (index + 1) := by
    rw [List.getElem_cons_drop, List.take_append_drop]
  refine ⟨_, _, _, raw, split, here, mem, within, ?_, ?_⟩
  · rw [allocator_remove place, Audited.history_free]
  · rw [mapped_remove, List.map_map, List.eraseIdx_eq_take_drop_succ]
    rfl

/-- How an arena stands with its allocator, and what it gives back when it is dropped. -/
structure Returns (a : Arena (Audited σ)) : Prop extends Settled a where
  /-- At every moment up to the end, also inside a request. -/
  turns : ∀ events, events <+: a.close.allocator.history → ∀ r, Alternates r events
  unmapped : ∀ base b, a.unmap? base = some b → ∃ before m after raw,
    a.mapped = before ++ m :: after ∧ m.promise.base = base ∧ raw ∈ a.actual ∧
    m.promise.Within raw ∧ b.allocator.history = a.allocator.history ++ [.released raw] ∧
    b.mapped.map (·.promise) = (before ++ after).map (·.promise)
  dropped : a.close.allocator.history = a.allocator.history ++ a.actual.map .released
  emptied : a.close.actual = []
  repaid : (a.close.allocator.released : Multiset Region) = a.close.allocator.granted

theorem Sound.returns (sound : a.Sound) (asked : Asked a.allocator.history)
    (kept : a.allocator.Kept) : a.Returns := by
  have dropped : a.close.allocator.history = a.allocator.history ++ a.actual.map .released :=
    history_foldl_free a.actual a.allocator
  obtain ⟨accounted, none_live⟩ := sound.toAccounted.close
  have granting : Throughout Granting [] a.close.allocator.history := by
    rw [dropped]
    exact (throughout_append _ _ _).mpr ⟨kept, granting_released _ _⟩
  refine ⟨sound.toAccounted.settled, fun events part r => ?_, fun base b => sound.unmap?_returns,
    dropped, rfl, ?_⟩
  · refine alternates (granting.of_prefix part) (accounted.balanced.of_prefix part) ?_ r
    intro size s mem
    have given := part.subset mem
    rw [dropped] at given
    rcases List.mem_append.mp given with given | back
    · exact asked size s given
    · obtain ⟨t, -, eq⟩ := List.mem_map.mp back
      cases eq
  · have perm := accounted.balanced.perm
    rw [none_live, List.append_nil] at perm
    exact (Multiset.coe_eq_coe.mpr perm).symm

/-- After any requests an arena holds just what its allocator has given out and not got back. Each
region is given out and taken back by turns; what unmapping gives back is the region of that
mapping; and dropping the arena gives back the rest, so that every allocation is given back
once. -/
theorem allocations_returned_once (pid : Pid) (allocator : σ) (requests : List Request) :
    let a := ((Arena.empty pid (Audited.ofAllocator allocator)).serveAll requests).2
    a.allocator.Kept → a.Returns := by
  intro a kept
  have reaches := (Arena.empty pid (Audited.ofAllocator allocator)).reaches_serveAll requests
  refine ((sound_empty pid allocator).reaches reaches kept).returns ?_ kept
  exact reaches.preserves (P := fun b => Asked b.allocator.history) Step.asked
    fun _ _ mem => nomatch mem

/-- A request is refused, one base is unmapped twice, and a region is given out again. -/
theorem allocations_of_reused_storage :
    let host : ℕ → Word → Word := fun n _ => if n = 1 then 0x2000 else 0x1001
    let requests : List Request := [.map 9 .readWrite 1, .map 100 .readWrite 64,
      .map 0 .readWrite 8, .unmap 0x1008, .unmap 0x1008, .write 0x1008 [1], .map 10 .readWrite 8,
      .read 0x1008 4]
    let start := Arena.empty 1 (Audited.ofAllocator (HostHeap.empty none host))
    let a := (start.serveAll requests).2
    a.allocator.Kept ∧
      a.close.allocator.history = [.granted 16 ⟨0x1008, 16⟩, .granted 192 ⟨0x2000, 192⟩,
        .released ⟨0x1008, 16⟩, .granted 16 ⟨0x1008, 16⟩, .released ⟨0x2000, 192⟩,
        .released ⟨0x1008, 16⟩] ∧ a.Returns :=
  ⟨by decide, by decide, allocations_returned_once 1 _ _ (by decide)⟩

end Arena

end AppHost.Memory
