import AppHost.Memory.Operation
import AppHost.Proofs.Memory.Contract
import Mathlib.Data.List.Nodup
/-! The two lists of an arena under its operations. Whatever the allocator answers, the mappings
name the raw allocations one to one, and the raw allocations are exactly the live regions of the
allocator. -/
namespace AppHost.Memory

namespace Audited

variable {σ : Type} [Allocator σ]

theorem history_of_refused {a b : Audited σ} {size : Word} {prot : Protection}
    (h : Allocator.allocate a size prot = (none, b)) : b.history = a.history := by
  simp only [Allocator.allocate] at h
  split at h <;> cases h
  rfl

theorem history_of_granted {a b : Audited σ} {size : Word} {prot : Protection} {r : Region}
    (h : Allocator.allocate a size prot = (some r, b)) :
    b.history = a.history ++ [.granted size r] := by
  simp only [Allocator.allocate] at h
  split at h <;> cases h
  rfl

@[simp] theorem history_free (a : Audited σ) (r : Region) :
    (Allocator.free a r).history = a.history ++ [.released r] := rfl

theorem history_write {a b : Audited σ} {address : Word} {bytes : Bytes}
    (h : Allocator.write a address bytes = some b) : b.history = a.history := by
  simp only [Allocator.write, Option.map_eq_some_iff] at h
  obtain ⟨inner, -, rfl⟩ := h
  rfl

end Audited

namespace Arena

variable {σ : Type}

def grow (a : Arena σ) (allocator : σ) (raw promise : Region) : Arena σ :=
  { a with
    allocator
    actual := a.actual ++ [raw]
    mapped := a.mapped ++ [⟨promise, a.actual.length⟩] }

/-- The mappings name the places of the raw allocations one to one. -/
def Paired (a : Arena σ) : Prop :=
  (a.mapped.map (·.actual)).Perm (List.range a.actual.length)

theorem Paired.lt {a : Arena σ} (h : a.Paired) {m : Mapping} (hm : m ∈ a.mapped) :
    m.actual < a.actual.length :=
  List.mem_range.mp (h.mem_iff.mp (List.mem_map_of_mem hm))

theorem Paired.raw {a : Arena σ} (h : a.Paired) {m : Mapping} (hm : m ∈ a.mapped) :
    ∃ raw, a.actual[m.actual]? = some raw :=
  ⟨_, List.getElem?_eq_getElem (h.lt hm)⟩

theorem Paired.grow {a : Arena σ} (h : a.Paired) (s : σ) (raw promise : Region) :
    (a.grow s raw promise).Paired := by
  unfold Paired Arena.grow
  simp only [List.map_append, List.map_cons, List.map_nil, List.length_append,
    List.length_cons, List.length_nil, Nat.zero_add, List.range_succ]
  exact h.append_right _

/-- The place of an allocation once the one at `gone` is taken out. -/
def shift (gone i : ℕ) : ℕ := if gone < i then i - 1 else i

theorem Paired.others {a : Arena σ} (h : a.Paired) {index : ℕ} {m : Mapping}
    (hm : a.mapped[index]? = some m) :
    ((a.mapped.eraseIdx index).map (·.actual)).Nodup ∧
      ∀ i, i ∈ (a.mapped.eraseIdx index).map (·.actual) ↔ i < a.actual.length ∧ i ≠ m.actual := by
  obtain ⟨hlt, rfl⟩ := List.getElem?_eq_some_iff.mp hm
  have whole : (a.mapped[index].actual :: (a.mapped.eraseIdx index).map (·.actual)).Perm
      (List.range a.actual.length) :=
    ((List.getElem_cons_eraseIdx_perm hlt).map Mapping.actual).trans h
  have nodup := whole.nodup_iff.mpr List.nodup_range
  obtain ⟨fresh, nodup⟩ := List.nodup_cons.mp nodup
  refine ⟨nodup, fun i => ?_⟩
  have mem := whole.mem_iff (a := i)
  rw [List.mem_cons, List.mem_range] at mem
  constructor
  · intro hi
    exact ⟨mem.mp (Or.inr hi), fun eq => fresh (eq ▸ hi)⟩
  · rintro ⟨hi, ne⟩
    exact (mem.mpr hi).resolve_left ne

/-- The raw allocations of an arena are the live regions of its allocator, and its allocator has
only taken back what was live. -/
structure Accounted (a : Arena (Audited σ)) : Prop where
  paired : a.Paired
  live : a.allocator.live.Perm a.actual
  balanced : a.allocator.Balanced

theorem accounted_empty (pid : Pid) (s : σ) :
    (Arena.empty pid (Audited.ofAllocator s)).Accounted :=
  ⟨List.Perm.refl _, List.Perm.refl _, trivial⟩

theorem Accounted.of_same {a : Arena (Audited σ)} (h : a.Accounted) {s : Audited σ}
    (hs : s.history = a.allocator.history) : ({ a with allocator := s } : Arena _).Accounted := by
  obtain ⟨paired, live, balanced⟩ := h
  unfold Audited.live at live
  unfold Audited.Balanced at balanced
  rw [← hs] at live balanced
  exact ⟨paired, live, balanced⟩

theorem Accounted.grow {a : Arena (Audited σ)} (h : a.Accounted) {s : Audited σ} {size : Word}
    {raw : Region} (hs : s.history = a.allocator.history ++ [.granted size raw])
    (promise : Region) : (a.grow s raw promise).Accounted where
  paired := h.paired.grow s raw promise
  live := by
    change s.live.Perm (a.actual ++ [raw])
    rw [Audited.live_snoc hs]
    exact h.live.append_right [raw]
  balanced := (Audited.balanced_snoc hs).mpr ⟨h.balanced, trivial⟩

variable [Allocator σ]

theorem map_cases (a : Arena σ) (minLength : Word) (prot : Protection) (minAlign : Word) :
    (∃ e, MapPlan.of minLength minAlign = .error e ∧
      a.map minLength prot minAlign = (.error e, a)) ∨
    (∃ plan s, MapPlan.of minLength minAlign = .ok plan ∧
      Allocator.allocate a.allocator plan.size prot = (none, s) ∧
      a.map minLength prot minAlign = (.error (.exhausted plan.size), { a with allocator := s })) ∨
    ∃ plan raw s, MapPlan.of minLength minAlign = .ok plan ∧
      Allocator.allocate a.allocator plan.size prot = (some raw, s) ∧
      a.map minLength prot minAlign =
        (.ok (plan.baseIn raw), a.grow s raw ⟨plan.baseIn raw, plan.length⟩) := by
  unfold map
  cases hp : MapPlan.of minLength minAlign with
  | error e => exact Or.inl ⟨e, rfl, rfl⟩
  | ok plan =>
    cases ha : Allocator.allocate a.allocator plan.size prot with
    | mk answer s =>
      cases answer with
      | none => exact Or.inr (Or.inl ⟨plan, s, rfl, ha, by simp [ha]⟩)
      | some raw => exact Or.inr (Or.inr ⟨plan, raw, s, rfl, ha, by simp [ha, grow]⟩)

theorem release_cases (a : Arena σ) (base : Word) :
    (a.release base = a ∧ a.mapped.findIdx? (·.promise.base == base) = none) ∨
    ∃ index m, a.mapped[index]? = some m ∧ m.promise.base = base ∧
      a.mapped.findIdx? (·.promise.base == base) = some index ∧
      a.release base = a.remove index m := by
  unfold release unmap?
  cases hi : a.mapped.findIdx? (·.promise.base == base) with
  | none => exact Or.inl ⟨rfl, rfl⟩
  | some index =>
    obtain ⟨hlt, hb, -⟩ := List.findIdx?_eq_some_iff_getElem.mp hi
    have hm : a.mapped[index]? = some a.mapped[index] := List.getElem?_eq_getElem hlt
    exact Or.inr ⟨index, a.mapped[index], hm, by simpa using hb, rfl, by simp [hm]⟩

theorem write_cases {a b : Arena σ} {address : Word} {bytes : Bytes}
    (h : a.write address bytes = .ok b) : bytes = [] ∧ b = a ∨
      ∃ s, bytes ≠ [] ∧ a.checkSpan address (UInt64.ofNat bytes.length) = .ok () ∧
        Allocator.write a.allocator address bytes = some s ∧ b = { a with allocator := s } := by
  unfold write at h
  split at h
  · rename_i nothing
    cases h
    exact Or.inl ⟨by simpa using nothing, rfl⟩
  · rename_i some_bytes
    split at h
    · cases h
    · rename_i hc
      split at h
      · rename_i s hs
        cases h
        exact Or.inr ⟨s, by simpa using some_bytes, hc, hs, rfl⟩
      · cases h

theorem perform_write_cases (a : Arena σ) (address : Word) (bytes : Bytes) :
    a.perform (.write address bytes) = a ∨
      ∃ s, bytes ≠ [] ∧ a.checkSpan address (UInt64.ofNat bytes.length) = .ok () ∧
        Allocator.write a.allocator address bytes = some s ∧
        a.perform (.write address bytes) = { a with allocator := s } := by
  cases h : a.write address bytes with
  | error e => exact Or.inl (by simp [perform, h, Except.toOption])
  | ok b =>
    rw [perform_write h]
    exact (write_cases h).imp_left And.right

inductive Step (a : Arena σ) : Arena σ → Prop where
  | idle : Step a a
  | pointed (point : ResumePoint) : Step a (a.setResume point)
  | refused {size prot s} (asked : Allocator.allocate a.allocator size prot = (none, s)) :
      Step a { a with allocator := s }
  | grown {minLength minAlign plan prot raw s} (planned : MapPlan.of minLength minAlign = .ok plan)
      (asked : Allocator.allocate a.allocator plan.size prot = (some raw, s)) :
      Step a (a.grow s raw ⟨plan.baseIn raw, plan.length⟩)
  | removed {index m} (found : a.mapped[index]? = some m) : Step a (a.remove index m)
  | stored {address bytes s} (some_bytes : bytes ≠ [])
      (checked : a.checkSpan address (UInt64.ofNat bytes.length) = .ok ())
      (wrote : Allocator.write a.allocator address bytes = some s) :
      Step a { a with allocator := s }

theorem perform_step (a : Arena σ) (o : Operation) : a.Step (a.perform o) := by
  cases o with
  | map minLength prot minAlign =>
    rcases map_cases a minLength prot minAlign with ⟨e, -, eq⟩ | ⟨plan, s, -, ha, eq⟩ |
        ⟨plan, raw, s, hp, ha, eq⟩ <;> rw [perform, eq]
    · exact .idle
    · exact .refused ha
    · exact .grown hp ha
  | unmap base =>
    rcases release_cases a base with ⟨eq, -⟩ | ⟨index, m, hm, -, -, eq⟩ <;> rw [perform, eq]
    · exact .idle
    · exact .removed hm
  | write address bytes =>
    rcases perform_write_cases a address bytes with eq | ⟨s, some_bytes, hc, hs, eq⟩ <;> rw [eq]
    · exact .idle
    · exact .stored some_bytes hc hs
  | setResume point => exact .pointed point

theorem Reaches.preserves {P : Arena σ → Prop} {a b : Arena σ} (h : a.Reaches b)
    (step : ∀ {c d : Arena σ}, P c → c.Step d → P d) (start : P a) : P b := by
  obtain ⟨operations, rfl⟩ := h
  induction operations generalizing a with
  | nil => exact start
  | cons o rest ih => exact ih (step start (a.perform_step o))

theorem mapped_remove (a : Arena σ) (index : ℕ) (m : Mapping) :
    (a.remove index m).mapped = (a.mapped.eraseIdx index).map fun other =>
      { other with actual := shift m.actual other.actual } := by
  unfold remove shift
  refine List.map_congr_left fun other _ => ?_
  split <;> simp_all

theorem Paired.remove {a : Arena σ} (h : a.Paired) {index : ℕ} {m : Mapping}
    (hm : a.mapped[index]? = some m) : (a.remove index m).Paired := by
  obtain ⟨nodup, mem⟩ := h.others hm
  have hlt := h.lt (List.mem_of_getElem? hm)
  have length : (a.actual.eraseIdx m.actual).length = a.actual.length - 1 :=
    List.length_eraseIdx_of_lt hlt
  have places : ((a.remove index m).mapped.map (·.actual)) =
      ((a.mapped.eraseIdx index).map (·.actual)).map (shift m.actual) := by
    rw [mapped_remove, List.map_map, List.map_map]
    rfl
  unfold Paired
  rw [places]
  refine (List.perm_ext_iff_of_nodup (List.Nodup.map_on ?_ nodup) List.nodup_range).mpr ?_
  · intro i hi j hj eq
    have hi := ((mem i).mp hi).2
    have hj := ((mem j).mp hj).2
    unfold shift at eq
    split at eq <;> split at eq <;> omega
  · intro i
    rw [List.mem_map, List.mem_range]
    change _ ↔ i < (a.actual.eraseIdx m.actual).length
    rw [length]
    constructor
    · rintro ⟨j, hj, rfl⟩
      have hj := (mem j).mp hj
      unfold shift
      split <;> omega
    · intro hi
      by_cases below : i < m.actual
      · exact ⟨i, (mem i).mpr ⟨by omega, by omega⟩, by unfold shift; split <;> omega⟩
      · exact ⟨i + 1, (mem (i + 1)).mpr ⟨by omega, by omega⟩, by unfold shift; split <;> omega⟩

theorem actual_remove (a : Arena σ) (index : ℕ) (m : Mapping) :
    (a.remove index m).actual = a.actual.eraseIdx m.actual := rfl

theorem allocator_remove {a : Arena σ} {m : Mapping} {raw : Region}
    (h : a.actual[m.actual]? = some raw) (index : ℕ) :
    (a.remove index m).allocator = Allocator.free a.allocator raw := by
  simp [remove, h]

theorem Accounted.remove {a : Arena (Audited σ)} (h : a.Accounted) {index : ℕ} {m : Mapping}
    (hm : a.mapped[index]? = some m) : (a.remove index m).Accounted := by
  obtain ⟨raw, hr⟩ := h.paired.raw (List.mem_of_getElem? hm)
  have freed := Audited.history_free a.allocator raw
  rw [← allocator_remove hr index] at freed
  obtain ⟨hlt, rfl⟩ := List.getElem?_eq_some_iff.mp hr
  refine ⟨h.paired.remove hm, ?_, (Audited.balanced_snoc freed).mpr ⟨h.balanced, ?_⟩⟩
  · rw [Audited.live_snoc freed, actual_remove]
    have apart := h.live.trans (List.getElem_cons_eraseIdx_perm hlt).symm
    exact (apart.erase _).trans (by rw [List.erase_cons_head])
  · exact h.live.mem_iff.mpr (List.getElem_mem hlt)

theorem Accounted.step {a b : Arena (Audited σ)} (h : a.Accounted) (next : a.Step b) :
    b.Accounted := by
  cases next with
  | idle => exact h
  | pointed point => exact ⟨h.paired, h.live, h.balanced⟩
  | refused asked => exact h.of_same (Audited.history_of_refused asked)
  | grown _ asked => exact h.grow (Audited.history_of_granted asked) _
  | removed found => exact h.remove found
  | stored _ _ wrote => exact h.of_same (Audited.history_write wrote)

theorem Accounted.reaches {a b : Arena (Audited σ)} (h : a.Accounted) (hr : a.Reaches b) :
    b.Accounted :=
  hr.preserves Accounted.step h

theorem Step.history_prefix {a b : Arena (Audited σ)} (next : a.Step b) :
    a.allocator.history <+: b.allocator.history := by
  cases next with
  | idle => exact List.prefix_refl _
  | pointed point => exact List.prefix_refl _
  | refused asked => exact ⟨[], (List.append_nil _).trans (Audited.history_of_refused asked).symm⟩
  | grown _ asked => exact ⟨_, (Audited.history_of_granted asked).symm⟩
  | @removed index m found =>
    cases hr : a.actual[m.actual]? with
    | none => simp [remove, hr]
    | some raw => exact allocator_remove hr index ▸ ⟨_, rfl⟩
  | stored _ _ wrote => exact ⟨[], (List.append_nil _).trans (Audited.history_write wrote).symm⟩

theorem Reaches.history_prefix {a b : Arena (Audited σ)} (h : a.Reaches b) :
    a.allocator.history <+: b.allocator.history :=
  h.preserves (P := fun b => a.allocator.history <+: b.allocator.history)
    (fun before next => before.trans next.history_prefix) (List.prefix_refl _)

theorem Reaches.kept {a b : Arena (Audited σ)} (h : a.Reaches b) (kept : b.allocator.Kept) :
    a.allocator.Kept :=
  kept.of_prefix h.history_prefix

/-- What every step preserves while the allocator keeps its contract, such a run preserves. -/
theorem Reaches.preserves_kept {P : Arena (Audited σ) → Prop} {a b : Arena (Audited σ)}
    (h : a.Reaches b) (kept : b.allocator.Kept)
    (step : ∀ {c d : Arena (Audited σ)}, P c → c.Step d → d.allocator.Kept → P d)
    (start : P a) : P b := by
  have guarded : b.allocator.Kept → P b :=
    h.preserves (P := fun b => b.allocator.Kept → P b)
      (fun before next kept => step (before (kept.of_prefix next.history_prefix)) next kept)
      fun _ => start
  exact guarded kept

theorem Reaches.pid {a b : Arena σ} (h : a.Reaches b) : b.pid = a.pid := by
  refine h.preserves (P := fun b => b.pid = a.pid) (fun same next => ?_) rfl
  rw [← same]
  cases next <;> rfl

theorem history_foldl_free (regions : List Region) (s : Audited σ) :
    (regions.foldl Allocator.free s).history =
      s.history ++ regions.map AllocatorEvent.released := by
  induction regions generalizing s with
  | nil => simp
  | cons r rest ih => rw [List.foldl_cons, ih]; simp

open AllocatorEvent in
theorem release_all {live regions : List Region} (h : live.Perm regions) :
    Throughout Releasing live (regions.map .released) ∧
      (regions.map AllocatorEvent.released).foldl account live = [] := by
  induction regions generalizing live with
  | nil => exact ⟨trivial, h.eq_nil⟩
  | cons r rest ih =>
    have mem : r ∈ live := h.mem_iff.mpr List.mem_cons_self
    have others : (live.erase r).Perm rest := (h.erase r).trans (by rw [List.erase_cons_head])
    obtain ⟨releasing, none_left⟩ := ih others
    exact ⟨⟨mem, releasing⟩, none_left⟩

theorem Accounted.close {a : Arena (Audited σ)} (h : a.Accounted) :
    a.close.Accounted ∧ a.close.allocator.live = [] := by
  have freed := history_foldl_free a.actual a.allocator
  obtain ⟨releasing, none_left⟩ := release_all h.live
  have live : a.close.allocator.live = [] := by
    change (a.actual.foldl Allocator.free a.allocator).history.foldl
      AllocatorEvent.account [] = []
    rw [freed, List.foldl_append]
    exact none_left
  refine ⟨⟨List.Perm.refl _, ?_, ?_⟩, live⟩
  · rw [live]
    exact List.Perm.refl _
  · change AllocatorEvent.Throughout AllocatorEvent.Releasing []
      (a.actual.foldl Allocator.free a.allocator).history
    rw [freed]
    exact (AllocatorEvent.throughout_append _ _ _).mpr ⟨h.balanced, releasing⟩

end Arena

end AppHost.Memory
