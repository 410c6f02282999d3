import AppHost.Memory.Bump
import AppHost.Proofs.Memory.Bookkeeping
import Mathlib.Order.Bounds.Basic
/-! The regions an arena promises. While the allocator keeps its contract, every promise lies
inside the raw allocation that its mapping names, at the alignment and the length its request
asked for, and apart from every other promise, whatever was mapped and unmapped before. -/
namespace AppHost.Memory

structure MapRequest where
  minLength : Word
  minAlign : Word
  deriving DecidableEq, Repr

namespace MapRequest

def align (q : MapRequest) : ℕ := max q.minAlign.toNat 8

/-- A region that serves a request: aligned, and as short as the alignment allows. -/
structure Served (q : MapRequest) (promise : Region) : Prop where
  aligned : q.align ∣ promise.base.toNat
  least : IsLeast {n | q.align ∣ n ∧ q.minLength.toNat ≤ n} promise.length.toNat

end MapRequest

namespace MapPlan

theorem least_multiple {n a b : ℕ} (hd : n ∣ b) (hle : a ≤ b) (hlt : b < a + n) :
    IsLeast {k | n ∣ k ∧ a ≤ k} b := by
  refine ⟨⟨hd, hle⟩, ?_⟩
  rintro k ⟨hk, hak⟩
  by_contra hn
  have step := Nat.le_of_dvd (by omega) (Nat.dvd_sub hd hk)
  omega

theorem of_eq_ok {minLength minAlign : Word} {plan : MapPlan}
    (h : MapPlan.of minLength minAlign = .ok plan) :
    0 < minLength.toNat ∧ plan.align.toNat = max minAlign.toNat 8 ∧
    IsLeast {n | max minAlign.toNat 8 ∣ n ∧ minLength.toNat ≤ n} plan.length.toNat ∧
    plan.size.toNat =
      plan.length.toNat + if plan.align ≤ Word.size then 0 else plan.align.toNat := by
  have align := Word.toNat_max minAlign Word.size
  rw [show Word.size.toNat = 8 from rfl] at align
  unfold MapPlan.of at h
  split at h
  · cases h
  rename_i nonzero
  have pos : 0 < minLength.toNat := Nat.pos_of_ne_zero fun zero =>
    nonzero (beq_iff_eq.mpr (UInt64.toNat_inj.mp zero))
  split at h
  · cases h
  simp only at h
  split at h
  · cases h
  rename_i length hl
  obtain ⟨hd, hle, hlt⟩ := Word.alignUp?_spec (by omega) hl
  rw [align] at hd hlt
  split at h
  · rename_i small
    cases h
    exact ⟨pos, align, least_multiple hd hle hlt, by simp [small]⟩
  · rename_i large
    split at h
    · cases h
    · rename_i size hs
      cases h
      exact ⟨pos, align, least_multiple hd hle hlt, by simp [large, Word.toNat_of_add? hs]⟩

/-- The base promised in a raw region is the first aligned address there; finding it never wraps. -/
theorem baseIn_least {minLength minAlign : Word} {plan : MapPlan} {raw : Region}
    {live : List Region} (h : MapPlan.of minLength minAlign = .ok plan)
    (fits : Fits plan.size raw live) :
    IsLeast {n | max minAlign.toNat 8 ∣ n ∧ raw.base.toNat ≤ n} (plan.baseIn raw).toNat := by
  obtain ⟨-, align, -, size⟩ := of_eq_ok h
  have long := fits.long
  have representable := fits.representable
  unfold Region.Representable at representable
  unfold baseIn
  split at size
  · rename_i small
    rw [if_pos small]
    have eight : max minAlign.toNat 8 = 8 := by
      have : plan.align.toNat ≤ 8 := UInt64.le_iff_toNat_le.mp small
      omega
    rw [eight]
    exact least_multiple fits.aligned (Nat.le_refl _) (by omega)
  · rename_i large
    rw [if_neg large]
    have up := Word.alignUp?_of_room (a := raw.base) (by omega)
      (show raw.base.toNat + plan.align.toNat ≤ 2 ^ 64 by omega)
    obtain ⟨hd, hle, hlt⟩ := Word.alignUp?_spec (by omega) up
    rw [align] at hd hlt
    exact least_multiple hd hle hlt

/-- Wherever the raw region lies, its padding leaves room to align inside. -/
theorem promise_within {minLength minAlign : Word} {plan : MapPlan} {raw : Region}
    {live : List Region} (h : MapPlan.of minLength minAlign = .ok plan)
    (fits : Fits plan.size raw live) :
    max minAlign.toNat 8 ∣ (plan.baseIn raw).toNat ∧
      Region.Within ⟨plan.baseIn raw, plan.length⟩ raw := by
  obtain ⟨-, align, -, size⟩ := of_eq_ok h
  obtain ⟨⟨aligned, above⟩, least⟩ := baseIn_least h fits
  have long := fits.long
  refine ⟨aligned, above, ?_⟩
  change (plan.baseIn raw).toNat + plan.length.toNat ≤ _
  split at size
  · rename_i small
    have already : max minAlign.toNat 8 ∣ raw.base.toNat := by
      have small : plan.align.toNat ≤ 8 := UInt64.le_iff_toNat_le.mp small
      rw [show max minAlign.toNat 8 = 8 by omega]
      exact fits.aligned
    have first := least ⟨already, Nat.le_refl _⟩
    omega
  · have next := least ⟨Word.dvd_add_sub_mod raw.base.toNat (by omega), Nat.le_add_right _ _⟩
    omega

end MapPlan

namespace Arena

variable {σ : Type}

/-- The state of an arena while its allocator keeps its contract. -/
structure Sound (a : Arena (Audited σ)) : Prop extends Accounted a where
  backed : ∀ m ∈ a.mapped, ∃ raw, a.actual[m.actual]? = some raw ∧ m.promise.Within raw
  nonempty : ∀ m ∈ a.mapped, 0 < m.promise.length.toNat
  representable : ∀ r ∈ a.actual, r.Representable
  apart : a.actual.Pairwise Region.Apart

theorem sound_empty (pid : Pid) (s : σ) : (Arena.empty pid (Audited.ofAllocator s)).Sound where
  toAccounted := accounted_empty pid s
  backed _ hm := nomatch hm
  nonempty _ hm := nomatch hm
  representable _ hr := nomatch hr
  apart := .nil

theorem Sound.apart_of_ne {a : Arena (Audited σ)} (h : a.Sound) {i j : ℕ} {r s : Region}
    (hi : a.actual[i]? = some r) (hj : a.actual[j]? = some s) (ne : i ≠ j) : r.Apart s := by
  obtain ⟨li, rfl⟩ := List.getElem?_eq_some_iff.mp hi
  obtain ⟨lj, rfl⟩ := List.getElem?_eq_some_iff.mp hj
  have apart := List.pairwise_iff_getElem.mp h.apart
  rcases Nat.lt_or_gt_of_ne ne with lt | lt
  · exact apart i j li lj lt
  · exact (apart j i lj li lt).symm

theorem Sound.promises_apart {a : Arena (Audited σ)} (h : a.Sound) :
    a.mapped.Pairwise fun m n => m.promise.Apart n.promise := by
  have places : a.mapped.Pairwise fun m n => m.actual ≠ n.actual :=
    List.pairwise_map.mp (h.paired.nodup_iff.mpr List.nodup_range)
  refine places.imp_of_mem fun {m n} hm hn ne => ?_
  obtain ⟨r, hr, hmr⟩ := h.backed m hm
  obtain ⟨s, hs, hns⟩ := h.backed n hn
  exact (h.apart_of_ne hr hs ne).mono hmr hns

theorem Sound.of_same {a : Arena (Audited σ)} (h : a.Sound) {s : Audited σ}
    (hs : s.history = a.allocator.history) : ({ a with allocator := s } : Arena _).Sound :=
  ⟨h.toAccounted.of_same hs, h.backed, h.nonempty, h.representable, h.apart⟩

theorem Sound.grow {a : Arena (Audited σ)} (h : a.Sound) {s : Audited σ} {size : Word}
    {raw promise : Region} (hs : s.history = a.allocator.history ++ [.granted size raw])
    (fits : Fits size raw a.allocator.live) (within : promise.Within raw)
    (pos : 0 < promise.length.toNat) : (a.grow s raw promise).Sound where
  toAccounted := h.toAccounted.grow hs promise
  backed m hm := by
    rcases List.mem_append.mp hm with hm | hm
    · obtain ⟨r, hr, hw⟩ := h.backed m hm
      exact ⟨r, List.getElem?_append_left (h.paired.lt hm) ▸ hr, hw⟩
    · cases List.mem_singleton.mp hm
      exact ⟨raw, List.getElem?_concat_length, within⟩
  nonempty m hm := by
    rcases List.mem_append.mp hm with hm | hm
    · exact h.nonempty m hm
    · cases List.mem_singleton.mp hm
      exact pos
  representable r hr := by
    rcases List.mem_append.mp hr with hr | hr
    · exact h.representable r hr
    · cases List.mem_singleton.mp hr
      exact fits.representable
  apart := by
    refine List.pairwise_append.mpr ⟨h.apart, List.pairwise_singleton _ _, fun r hr s hs => ?_⟩
    cases List.mem_singleton.mp hs
    exact (fits.apart r (h.live.mem_iff.mpr hr)).symm

theorem checkSpan_cases {a : Arena σ} {address length : Word}
    (h : a.checkSpan address length = .ok ()) :
    ∃ m ∈ a.mapped, m.promise.Holds address.toNat ∧ m.promise.covers address length = true := by
  unfold checkSpan at h
  split at h
  · rename_i r hr
    split at h
    · rename_i covers
      obtain ⟨m, hm, rfl⟩ := List.mem_map.mp (List.mem_of_find?_eq_some hr)
      have first := List.find?_some hr
      exact ⟨m, hm, Region.holds_of_covers first (by decide), covers⟩
    · cases h
  · cases h

theorem Sound.raw_of_promise {a : Arena (Audited σ)} (h : a.Sound) {m : Mapping}
    (hm : m ∈ a.mapped) :
    ∃ raw, a.actual[m.actual]? = some raw ∧ raw ∈ a.actual ∧ m.promise.Within raw ∧
      ∀ {address length : Word}, m.promise.covers address length = true →
        raw.covers address length = true := by
  obtain ⟨raw, hr, within⟩ := h.backed m hm
  have mem := List.mem_of_getElem? hr
  exact ⟨raw, hr, mem, within,
    fun covers => Region.covers_within covers within (h.representable raw mem)⟩

variable [Allocator σ]

theorem getElem?_remove {a : Arena σ} (h : a.Paired) {index : ℕ} {m other : Mapping}
    (hm : a.mapped[index]? = some m) (ho : other ∈ a.mapped.eraseIdx index) :
    (a.remove index m).actual[shift m.actual other.actual]? = a.actual[other.actual]? := by
  obtain ⟨-, ne⟩ := ((h.others hm).2 other.actual).mp (List.mem_map_of_mem ho)
  rw [actual_remove, List.getElem?_eraseIdx]
  unfold shift
  rcases Nat.lt_or_gt_of_ne ne with below | above
  · rw [if_neg (Nat.lt_asymm below), if_pos below]
  · rw [if_pos above, if_neg (by omega), Nat.sub_add_cancel (by omega)]

theorem Sound.remove {a : Arena (Audited σ)} (h : a.Sound) {index : ℕ} {m : Mapping}
    (hm : a.mapped[index]? = some m) : (a.remove index m).Sound where
  toAccounted := h.toAccounted.remove hm
  backed n hn := by
    rw [mapped_remove] at hn
    obtain ⟨other, ho, rfl⟩ := List.mem_map.mp hn
    obtain ⟨raw, hr, hw⟩ := h.backed other (List.mem_of_mem_eraseIdx ho)
    exact ⟨raw, (getElem?_remove h.paired hm ho).trans hr, hw⟩
  nonempty n hn := by
    rw [mapped_remove] at hn
    obtain ⟨other, ho, rfl⟩ := List.mem_map.mp hn
    exact h.nonempty other (List.mem_of_mem_eraseIdx ho)
  representable r hr := h.representable r (List.mem_of_mem_eraseIdx hr)
  apart := h.apart.sublist (List.eraseIdx_sublist _ _)

theorem served_of_kept {s t : Audited σ} {q : MapRequest} {plan : MapPlan} {prot : Protection}
    {raw : Region} (planned : MapPlan.of q.minLength q.minAlign = .ok plan)
    (asked : Allocator.allocate s plan.size prot = (some raw, t)) (kept : t.Kept) :
    Fits plan.size raw s.live ∧ Region.Within ⟨plan.baseIn raw, plan.length⟩ raw ∧
      q.Served ⟨plan.baseIn raw, plan.length⟩ ∧ 0 < plan.size.toNat ∧ 0 < plan.length.toNat := by
  have fits : Fits plan.size raw s.live :=
    ((Audited.kept_snoc (Audited.history_of_granted asked)).mp kept).2
  obtain ⟨pos, -, least, size⟩ := MapPlan.of_eq_ok planned
  obtain ⟨aligned, within⟩ := MapPlan.promise_within planned fits
  have long : q.minLength.toNat ≤ plan.length.toNat := least.1.2
  exact ⟨fits, within, ⟨aligned, least⟩, by omega, by omega⟩

theorem Sound.step {a b : Arena (Audited σ)} (h : a.Sound) (next : a.Step b)
    (kept : b.allocator.Kept) : b.Sound := by
  cases next with
  | idle => exact h
  | pointed point =>
    exact ⟨h.toAccounted.step (.pointed point), h.backed, h.nonempty, h.representable, h.apart⟩
  | refused asked => exact h.of_same (Audited.history_of_refused asked)
  | @grown minLength minAlign plan prot raw s planned asked =>
    obtain ⟨fits, within, -, -, pos⟩ :=
      served_of_kept (q := ⟨minLength, minAlign⟩) planned asked kept
    exact h.grow (Audited.history_of_granted asked) fits within pos
  | removed found => exact h.remove found
  | stored _ _ wrote => exact h.of_same (Audited.history_write wrote)

theorem Sound.reaches {a b : Arena (Audited σ)} (h : a.Sound) (hr : a.Reaches b)
    (kept : b.allocator.Kept) : b.Sound :=
  hr.preserves_kept kept Sound.step h

/-- The requests that the mappings answer after an operation, if they answered `requests`. -/
def answering (a : Arena σ) (requests : List MapRequest) : Operation → List MapRequest
  | .map minLength prot minAlign =>
    match (a.map minLength prot minAlign).1 with
    | .ok _ => requests ++ [⟨minLength, minAlign⟩]
    | .error _ => requests
  | .unmap base =>
    match a.mapped.findIdx? (·.promise.base == base) with
    | some index => requests.eraseIdx index
    | none => requests
  | .write .. | .setResume _ => requests

def answered (a : Arena σ) (requests : List MapRequest) : List Operation → List MapRequest
  | [] => requests
  | o :: rest => (a.perform o).answered (a.answering requests o) rest

theorem forall₂_eraseIdx {α β : Type} {R : α → β → Prop} {l : List α} {m : List β}
    (h : List.Forall₂ R l m) (index : ℕ) :
    List.Forall₂ R (l.eraseIdx index) (m.eraseIdx index) := by
  induction h generalizing index with
  | nil => exact .nil
  | cons r rest ih =>
    cases index with
    | zero => exact rest
    | succ index => exact .cons r (ih index)

def Serves (a : Arena σ) (requests : List MapRequest) : Prop :=
  List.Forall₂ (fun q m => q.Served m.promise) requests a.mapped

theorem Serves.remove {a : Arena σ} {requests : List MapRequest} (h : a.Serves requests)
    (index : ℕ) (m : Mapping) : (a.remove index m).Serves (requests.eraseIdx index) := by
  unfold Serves
  rw [mapped_remove, List.forall₂_map_right_iff]
  exact forall₂_eraseIdx h index

theorem Serves.perform {a : Arena (Audited σ)} {requests : List MapRequest}
    (h : a.Serves requests) {o : Operation} (kept : (a.perform o).allocator.Kept) :
    (a.perform o).Serves (a.answering requests o) := by
  cases o with
  | map minLength prot minAlign =>
    rw [Arena.perform] at kept ⊢
    rcases map_cases a minLength prot minAlign with
      ⟨e, -, eq⟩ | ⟨plan, s, -, -, eq⟩ | ⟨plan, raw, s, planned, asked, eq⟩ <;>
      rw [answering, eq]
    · exact h
    · exact h
    · rw [eq] at kept
      obtain ⟨-, -, served, -⟩ := served_of_kept (q := ⟨minLength, minAlign⟩) planned asked kept
      exact List.rel_append h (.cons served .nil)
  | unmap base =>
    rcases release_cases a base with ⟨eq, hi⟩ | ⟨index, m, -, -, hi, eq⟩ <;>
      rw [Arena.perform, answering, eq, hi]
    · exact h
    · exact h.remove index m
  | write address bytes =>
    rcases perform_write_cases a address bytes with eq | ⟨s, -, -, -, eq⟩ <;> rw [eq]
    · exact h
    · exact h
  | setResume point => exact h

theorem Serves.run {a : Arena (Audited σ)} {requests : List MapRequest} (h : a.Serves requests)
    {operations : List Operation} (kept : (a.run operations).allocator.Kept) :
    (a.run operations).Serves (a.answered requests operations) := by
  induction operations generalizing a requests with
  | nil => exact h
  | cons o rest ih =>
    have first : (a.perform o).allocator.Kept := Reaches.kept ⟨rest, rfl⟩ kept
    exact ih (h.perform first) kept

/-- However mappings come and go, the two lists stay paired one to one, and every promise lies in
the raw allocation it names, is aligned and sized as it was asked for, and is apart from the
others. -/
theorem promises_paired_served_apart (pid : Pid) (allocator : σ) (operations : List Operation) :
    let start := Arena.empty pid (Audited.ofAllocator allocator)
    let a := start.run operations
    a.allocator.Kept →
      a.mapped.length = a.actual.length ∧
      (a.mapped.map (·.actual)).Perm (List.range a.actual.length) ∧
      (∀ m ∈ a.mapped, ∃ raw, a.actual[m.actual]? = some raw ∧ m.promise.Within raw) ∧
      List.Forall₂ (fun q m => q.Served m.promise) (start.answered [] operations) a.mapped ∧
      a.mapped.Pairwise fun m n => m.promise.Apart n.promise := by
  intro start a kept
  have sound : a.Sound := (sound_empty pid allocator).reaches ⟨operations, rfl⟩ kept
  have serves : a.Serves (start.answered [] operations) :=
    Serves.run (a := start) List.Forall₂.nil kept
  have length := sound.paired.length_eq
  rw [List.length_map, List.length_range] at length
  exact ⟨length, sound.paired, sound.backed, serves, sound.promises_apart⟩

/-- The run refuses one request, serves two past word alignment, and unmaps the first mapping
below two others. -/
theorem promises_after_churn :
    let start := Arena.empty 1 (Audited.ofAllocator
      (⟨.empty none, 0x10008, 0, 0, [3], false, false⟩ : Bump))
    let operations : List Operation := [.map 3 .readWrite 1, .map 100 .readWrite 64,
      .map 8 .readWrite 8, .map 5000 .readWrite 4096, .unmap 0x10008, .write 0x10040 [1, 2],
      .unmap 0x10044]
    let a := start.run operations
    a.allocator.Kept ∧ a.mapped.length = a.actual.length ∧
      (a.mapped.map (·.actual)).Perm (List.range a.actual.length) ∧
      (∀ m ∈ a.mapped, ∃ raw, a.actual[m.actual]? = some raw ∧ m.promise.Within raw) ∧
      List.Forall₂ (fun q m => q.Served m.promise) (start.answered [] operations) a.mapped ∧
      a.mapped.Pairwise fun m n => m.promise.Apart n.promise :=
  ⟨by decide, promises_paired_served_apart 1 _ _ (by decide)⟩

end Arena

end AppHost.Memory
