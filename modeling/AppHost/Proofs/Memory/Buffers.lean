import AppHost.Proofs.Execution.Confinement
import AppHost.Proofs.Memory.Charging
import AppHost.Proofs.Memory.Refinement
import AppHost.Proofs.Memory.Requests
/-! The byte buffers that a host is asked to make for an arena over a heap. A mapping that the heap
has room for takes a storage, and a read takes a buffer before it looks at the promises; neither
asks whether a host can hold so many bytes in one piece. -/
namespace AppHost.Memory

theorem MapRequest.Valid.eight_dvd_size {q : MapRequest} (h : q.Valid) : 8 ∣ q.size := by
  obtain ⟨k, power⟩ := h.power
  have align : 8 ∣ q.align := by
    unfold MapRequest.align
    by_cases small : q.minAlign.toNat ≤ 8
    · rw [Nat.max_eq_right small]
    · rw [Nat.max_eq_left (by omega), power]
      exact Word.two_pow_dvd_of_le (j := 3) (by omega)
  have length : 8 ∣ q.length := align.trans q.length_least.1.1
  unfold MapRequest.size
  split
  · exact length
  · exact Nat.dvd_add length align

namespace Arena

def occupied {σ : Type} (a : Arena σ) : ℕ := (a.actual.map (·.length.toNat)).sum

def storageFor? (a : Arena (Audited HostHeap)) (q : MapRequest) : Option ℕ :=
  (MapPlan.of q.minLength q.minAlign).toOption.bind fun plan =>
    (a.allocator.inner.heap.storageSize? plan.size).map (·.toNat)

/-- A valid request that a heap has room for beside what it has given out. -/
structure Affords {σ : Type} (a : Arena σ) (budget : Option Word) (q : MapRequest) : Prop where
  valid : q.Valid
  counted : a.occupied + q.size < 2 ^ 64
  budgeted : ∀ limit ∈ budget, a.occupied + q.size ≤ limit.toNat

/-- The host was asked for one storage more, of so many bytes, and the latest raw allocation
starts at the first word in it. -/
structure Provided (a b : Arena (Audited HostHeap)) (bytes : ℕ) : Prop where
  requests : b.allocator.inner.requests = a.allocator.inner.requests + 1
  raw : ∃ raw, b.actual = a.actual ++ [raw] ∧ raw.length.toNat + 7 = bytes ∧ raw.base =
    Word.alignUp (a.allocator.inner.host a.allocator.inner.requests (.ofNat bytes)) Word.size

abbrev Counts (budget : Option Word) (a : Arena (Audited HostHeap)) : Prop :=
  a.Held fun (s : HostHeap) live => s.heap.Backs live ∧ s.heap.Charged budget live

variable {budget : Option Word} {a : Arena (Audited HostHeap)} {q : MapRequest}

theorem Counts.inUse_eq (h : a.Counts budget) :
    a.allocator.inner.heap.inUse.toNat = a.occupied :=
  h.stored.2.sum.trans (h.live.map _).sum_eq

/-- The sum that makes room to align a storage never overflows, as a request is for whole words. -/
theorem Counts.storageFor?_eq_some_iff (h : a.Counts budget) {n : ℕ} :
    a.storageFor? q = some n ↔ a.Affords budget q ∧ n = q.size + 7 := by
  unfold storageFor?
  cases planned : MapPlan.of q.minLength q.minAlign with
  | error e =>
    have invalid := (MapPlan.of_eq_error_iff.mp planned).not_valid
    exact iff_of_false nofun fun affords => invalid affords.1.valid
  | ok plan =>
    obtain ⟨valid, -, -, words⟩ := MapPlan.valid_of_ok planned
    have small := MapRequest.not_tooLarge_iff.mp valid.small
    have whole := valid.eight_dvd_size
    simp only [Except.toOption, Option.bind_some, Option.map_eq_some_iff,
      Heap.storageSize?_eq_some_iff, h.inUse_eq, h.stored.2.budget, words]
    constructor
    · rintro ⟨word, ⟨counted, budgeted, -, long⟩, rfl⟩
      exact ⟨⟨valid, counted, budgeted⟩, long⟩
    · rintro ⟨⟨-, counted, budgeted⟩, rfl⟩
      have fits : q.size + 7 < 2 ^ 64 := by omega
      have long := UInt64.toNat_ofNat_of_lt' fits
      exact ⟨.ofNat (q.size + 7), ⟨counted, budgeted, fits, long⟩, long⟩

theorem map_of_storageFor? {n : ℕ} (asked : a.storageFor? q = some n) (prot : Protection) :
    ∃ base b, a.map q.minLength prot q.minAlign = (.ok base, b) ∧ a.Provided b n := by
  unfold storageFor? at asked
  cases planned : MapPlan.of q.minLength q.minAlign with
  | error e =>
    rw [planned] at asked
    cases asked
  | ok plan =>
    rw [planned] at asked
    obtain ⟨size, sized, rfl⟩ := Option.map_eq_some_iff.mp asked
    have long := (Heap.storageSize?_eq_some_iff.mp sized).2.2.2
    simp only [map, planned, Allocator.allocate, HostHeap.allocate_eq, sized]
    refine ⟨_, _, rfl, rfl, _, rfl, long.symm, ?_⟩
    rw [UInt64.ofNat_toNat]

theorem map_of_no_storage (asked : a.storageFor? q = none) (prot : Protection) :
    ∃ e, a.map q.minLength prot q.minAlign = (.error e, a) := by
  cases found : MapPlan.of q.minLength q.minAlign with
  | error e => exact ⟨e, by simp only [map, found]⟩
  | ok plan =>
    have refused : a.allocator.inner.heap.storageSize? plan.size = none := by
      simpa [storageFor?, found, Except.toOption] using asked
    refine ⟨.exhausted plan.size, ?_⟩
    simp only [map, found, Allocator.allocate, HostHeap.allocate_eq, refused]

theorem mapping_eq_lost_iff (prot : Protection) {n : ℕ} :
    a.mapping q.minLength prot q.minAlign = .lost n ↔
      a.storageFor? q = some n ∧ bufferLimit < n := by
  cases asked : a.storageFor? q with
  | none =>
    obtain ⟨e, refused⟩ := map_of_no_storage asked prot
    have nothing : a.buffersSince a = [] := by
      rw [buffersSince, List.drop_length]
      rfl
    rw [mapping_of_map refused, nothing, Fate.taking_nil]
    exact iff_of_false nofun nofun
  | some m =>
    obtain ⟨base, b, mapped, provided⟩ := map_of_storageFor? asked prot
    obtain ⟨raw, added, long, -⟩ := provided.raw
    have storage : b.buffersSince a = [m] := by
      rw [buffersSince, added, List.drop_left]
      exact congrArg (· :: []) long
    rw [mapping_of_map mapped, storage, Fate.taking_one_eq_lost_iff, Option.some.injEq, eq_comm]

theorem Counts.oversized_iff (h : a.Counts budget) :
    (∃ n ∈ a.storageFor? q, bufferLimit < n) ↔ a.Affords budget q ∧ 2 ^ 63 ≤ q.size := by
  unfold bufferLimit
  constructor
  · rintro ⟨n, asked, large⟩
    obtain ⟨affords, rfl⟩ := h.storageFor?_eq_some_iff.mp asked
    have whole := affords.valid.eight_dvd_size
    exact ⟨affords, by omega⟩
  · rintro ⟨affords, large⟩
    exact ⟨_, h.storageFor?_eq_some_iff.mpr ⟨affords, rfl⟩, by omega⟩

theorem Sound.faults_of_oversized (h : a.Sound)
    (pieces : ∀ r ∈ a.allocator.granted, r.length.toNat + 7 ≤ bufferLimit) {address length : Word}
    (large : bufferLimit < readBuffer length) :
    ∃ e, a.read address length = .error e ∧ Faults a.extents address length e := by
  have beyond : ∀ m ∈ a.mapped, ¬ m.promise.covers address length = true := by
    intro m hm covers
    obtain ⟨raw, -, mem, -, whole⟩ := h.raw_of_promise hm
    have given : raw ∈ a.allocator.granted := h.balanced.perm.mem_iff.mpr
      (List.mem_append_right _ (h.live.mem_iff.mpr mem))
    have inside := (Region.covers_iff _ _ _).mp (whole covers)
    have limit := raw.toNat_limit
    have piece := pieces raw given
    unfold readBuffer at large
    omega
  obtain ⟨e, refused, fault⟩ := h.faults beyond
  have some_bytes : ¬ readBuffer length = 0 := by omega
  exact ⟨e, by simp [read, some_bytes, refused], fault⟩

/-- What an arena has its host make, in answer to requests for memory and for bytes. -/
structure Buffered (budget : Option Word) (a : Arena (Audited HostHeap)) : Prop where
  storage : ∀ q n, a.storageFor? q = some n ↔ a.Affords budget q ∧ n = q.size + 7
  mapped : ∀ q prot, a.Affords budget q → q.size < 2 ^ 63 →
    ∃ base b, a.map q.minLength prot q.minAlign = (.ok base, b) ∧ a.Provided b (q.size + 7)
  refused : ∀ q prot, ¬ a.Affords budget q →
    ∃ e, a.map q.minLength prot q.minAlign = (.error e, a)
  lost : ∀ q prot n, a.mapping q.minLength prot q.minAlign = .lost n ↔
    a.storageFor? q = some n ∧ bufferLimit < n
  lost_reading : ∀ address length n, a.reading address length = .lost n ↔
    n = readBuffer length ∧ bufferLimit < n
  /-- What an application asks for is passed on as it is. -/
  called : ∀ c : Context (Audited HostHeap), c.arena = a → ∀ (q : MapRequest) executable, ∃ prot,
    (c.memMap q.minLength q.minAlign executable).1 =
      (a.map q.minLength prot q.minAlign).1.toOption.getD 0 ∧
    (c.memMap q.minLength q.minAlign executable).2.arena = (a.map q.minLength prot q.minAlign).2
  oversized : ∀ q, (∃ n ∈ a.storageFor? q, bufferLimit < n) ↔ a.Affords budget q ∧ 2 ^ 63 ≤ q.size
  spared : ∀ limit ∈ budget, limit.toNat < 2 ^ 63 → ∀ q, ∀ n ∈ a.storageFor? q, n ≤ bufferLimit
  /-- The check after the buffer refuses every read of more than one piece. -/
  faults : (∀ r ∈ a.allocator.granted, r.length.toNat + 7 ≤ bufferLimit) →
    ∀ address length, bufferLimit < readBuffer length →
      ∃ e, a.read address length = .error e ∧ Faults a.extents address length e

theorem Counts.buffered (h : a.Counts budget) : a.Buffered budget where
  storage q n := h.storageFor?_eq_some_iff
  mapped q prot affords _ := map_of_storageFor? (h.storageFor?_eq_some_iff.mpr ⟨affords, rfl⟩) prot
  refused q prot dear := by
    refine map_of_no_storage (Option.eq_none_iff_forall_ne_some.mpr fun n asked => ?_) prot
    exact dear (h.storageFor?_eq_some_iff.mp asked).1
  lost q prot n := mapping_eq_lost_iff prot
  lost_reading address length n := Fate.taking_one_eq_lost_iff
  called c same q executable := by
    subst same
    exact ⟨_, c.memMap_eq q.minLength q.minAlign executable⟩
  oversized q := h.oversized_iff
  spared limit set small q n asked := by
    refine Nat.not_lt.mp fun large => ?_
    obtain ⟨affords, upper⟩ := h.oversized_iff.mp ⟨n, asked, large⟩
    have room := affords.budgeted limit set
    omega
  faults pieces address length large := h.toSound.faults_of_oversized pieces large

/-- Whatever an arena over a heap was asked before, a request to map has its host make a storage
seven bytes longer than the raw allocation if the heap has room for that, and is refused otherwise.
What a host can hold in one piece is not looked at, and the process ends there: a raw allocation of
half the address space that there is room for is too long, and so is the buffer of a read that the
check after it refuses. -/
theorem buffers_of_requests (pid : Pid) (budget : Option Word) (host : ℕ → Word → Word)
    (earlier : List Operation) :
    let a := (Arena.empty pid (Audited.ofAllocator (HostHeap.empty budget host))).run earlier
    a.allocator.Kept → a.Buffered budget := by
  intro a kept
  have fresh : (HostHeap.empty budget host).heap.Charged budget [] := ⟨rfl, rfl⟩
  have counts :
      (Arena.empty pid (Audited.ofAllocator (HostHeap.empty budget host))).Counts budget :=
    held_empty pid ⟨Heap.backs_empty budget, fresh⟩
  have later : a.Counts budget := counts.reaches (HostHeap.charging budget) ⟨earlier, rfl⟩ kept
  exact later.buffered

/-- A budget that is used up by two mappings, one of them taken back. -/
theorem buffers_within_budget :
    let host : ℕ → Word → Word := fun n _ => if n = 1 then 0x30001 else 0x20003
    let a := (Arena.empty 1 (Audited.ofAllocator (HostHeap.empty (some 300) host))).run
      [.map 20 .readWrite 1, .map 100 .readWrite 64, .unmap 0x20008]
    a.allocator.Kept ∧ a.storageFor? ⟨104, 8⟩ = some 111 ∧ a.storageFor? ⟨105, 8⟩ = none ∧
      a.Buffered (some 300) :=
  ⟨by decide, by decide, by decide, buffers_of_requests 1 _ _ _ (by decide)⟩

/-- Nothing keeps the first mapping of an arena without a budget from a storage that no host can
hold, nor a read at an address that is not mapped from such a buffer. Neither is answered. -/
theorem oversized_buffers :
    let a := Arena.empty 1 (Audited.ofAllocator (HostHeap.empty none fun _ _ => 0x10000))
    let length : Word := 0x8000000000000000
    a.storageFor? ⟨length, 8⟩ = some (2 ^ 63 + 7) ∧ bufferLimit < 2 ^ 63 + 7 ∧
      bufferLimit < readBuffer length ∧ a.read 0 length = .error (.unmapped 0) ∧
      a.mapping length .readWrite 8 = .lost (2 ^ 63 + 7) ∧ a.reading 0 length = .lost (2 ^ 63) :=
  ⟨by decide, by decide, by decide, by decide, rfl, rfl⟩

end Arena

end AppHost.Memory
