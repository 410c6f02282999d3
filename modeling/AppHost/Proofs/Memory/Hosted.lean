import AppHost.Proofs.Memory.Cells
import AppHost.Proofs.Memory.Refinement
/-! Storages that a host gives to a heap. When each has bytes of its own below the top of the
address space, the blocks inside them are what an arena relies on, and an arena over the heap is a
memory of ranges apart. -/
namespace AppHost.Memory

namespace HostHeap

variable {host : ℕ → Word → Word}

def storage (host : ℕ → Word → Word) (n : ℕ) (size : Word) : Region :=
  ⟨host n (size + (Word.size - 1)), size + (Word.size - 1)⟩

def block (host : ℕ → Word → Word) (n : ℕ) (size : Word) : Region :=
  ⟨Word.alignUp (storage host n size).base Word.size, size⟩

/-- A host that gives each storage bytes of its own: `n` storages were given before the events, and
the live ones among them come with their blocks. -/
def Separate (host : ℕ → Word → Word) : ℕ → List (Region × Region) → List AllocatorEvent → Prop
  | _, _, [] => True
  | n, live, .granted size r :: rest =>
    (storage host n size).Representable ∧ (∀ other ∈ live, (storage host n size).Apart other.1) ∧
      Separate host (n + 1) (live ++ [(storage host n size, r)]) rest
  | n, live, .released r :: rest => Separate host n (live.eraseP (r == ·.2)) rest

instance decidableSeparate (host : ℕ → Word → Word) : (n : ℕ) → (live : List (Region × Region)) →
    (events : List AllocatorEvent) → Decidable (Separate host n live events)
  | _, _, [] => inferInstanceAs (Decidable True)
  | n, live, .granted size r :: rest =>
    have := decidableSeparate host (n + 1) (live ++ [(storage host n size, r)]) rest
    inferInstanceAs (Decidable (_ ∧ _ ∧ _))
  | n, live, .released r :: rest => decidableSeparate host n (live.eraseP (r == ·.2)) rest

/-- Every region given out is the next block. -/
def Numbered (host : ℕ → Word → Word) : ℕ → List AllocatorEvent → Prop
  | _, [] => True
  | n, .granted size r :: rest =>
    size.toNat + 7 < 2 ^ 64 ∧ r = block host n size ∧ Numbered host (n + 1) rest
  | n, .released _ :: rest => Numbered host n rest

theorem numbered_append (n : ℕ) (first second : List AllocatorEvent) :
    Numbered host n (first ++ second) ↔ Numbered host n first ∧
      Numbered host (n + (first.filterMap (·.granted?)).length) second := by
  induction first generalizing n with
  | nil => simp [Numbered]
  | cons e rest ih =>
    cases e with
    | granted size r =>
      simp only [List.cons_append, Numbered, ih, List.filterMap_cons, AllocatorEvent.granted?,
        List.length_cons, and_assoc, Nat.add_assoc, Nat.add_comm 1]
    | released r =>
      simp only [List.cons_append, Numbered, ih, List.filterMap_cons, AllocatorEvent.granted?]

theorem length_storage {n : ℕ} {size : Word} (small : size.toNat + 7 < 2 ^ 64) :
    (storage host n size).length.toNat = size.toNat + 7 :=
  (UInt64.toNat_add size 7).trans (Nat.mod_eq_of_lt small)

theorem block_base {n : ℕ} {size : Word} (small : size.toNat + 7 < 2 ^ 64)
    (representable : (storage host n size).Representable) :
    8 ∣ (block host n size).base.toNat ∧
      (storage host n size).base.toNat ≤ (block host n size).base.toNat ∧
      (block host n size).base.toNat < (storage host n size).base.toNat + 8 := by
  have eight : Word.size.toNat = 8 := rfl
  have length := @length_storage host n size small
  unfold Region.Representable at representable
  have up : Word.alignUp? (storage host n size).base Word.size = some (block host n size).base :=
    Word.alignUp?_of_room (by decide) (by omega)
  exact Word.alignUp?_spec (by decide) up

/-- A block and its alignment fit into a storage seven bytes longer. -/
theorem block_within {n : ℕ} {size : Word} (small : size.toNat + 7 < 2 ^ 64)
    (representable : (storage host n size).Representable) :
    8 ∣ (block host n size).base.toNat ∧ (block host n size).Within (storage host n size) := by
  have length := @length_storage host n size small
  obtain ⟨aligned, low, high⟩ := block_base small representable
  refine ⟨aligned, low, ?_⟩
  change (block host n size).base.toNat + size.toNat ≤ _
  omega

theorem granting_of_separate {n : ℕ} {live : List (Region × Region)} {events : List AllocatorEvent}
    (numbered : Numbered host n events) (separate : Separate host n live events)
    (inside : ∀ p ∈ live, p.2.Within p.1) :
    AllocatorEvent.Throughout AllocatorEvent.Granting (live.map (·.2)) events := by
  induction events generalizing n live with
  | nil => trivial
  | cons e rest ih =>
    cases e with
    | granted size r =>
      obtain ⟨small, rfl, numbered⟩ := numbered
      obtain ⟨representable, apart, separate⟩ := separate
      obtain ⟨aligned, within⟩ := block_within small representable
      refine ⟨⟨aligned, Nat.le_refl _, ?_, ?_⟩, ?_⟩
      · unfold Region.Representable at *
        unfold Region.Within at within
        omega
      · intro other hother
        obtain ⟨p, hp, rfl⟩ := List.mem_map.mp hother
        exact (apart p hp).mono within (inside p hp)
      · have later := ih numbered separate fun p hp => by
          rcases List.mem_append.mp hp with hp | hp
          · exact inside p hp
          · cases List.mem_singleton.mp hp
            exact within
        rwa [List.map_append] at later
    | released r =>
      have later := ih numbered separate fun p hp => inside p (List.mem_of_mem_eraseP hp)
      refine ⟨trivial, ?_⟩
      -- the storage of the region is taken out with it
      change AllocatorEvent.Throughout _ ((live.map (·.2)).erase r) rest
      rw [List.erase_eq_eraseP, List.eraseP_map]
      exact later

structure Hosts (host : ℕ → Word → Word) (s : Audited HostHeap) : Prop where
  same : s.inner.host = host
  requests : s.inner.requests = s.granted.length
  numbered : Numbered host 0 s.history

theorem Hosts.of_same {s t : Audited HostHeap} (h : Hosts host s)
    (same : t.inner.host = s.inner.host) (requests : t.inner.requests = s.inner.requests)
    (history : t.history = s.history) : Hosts host t := by
  refine ⟨same.trans h.same, ?_, history ▸ h.numbered⟩
  rw [requests, h.requests, Audited.granted, Audited.granted, history]

theorem Hosts.allocate {s t : Audited HostHeap} (h : Hosts host s) {size : Word} {prot : Protection}
    {answer : Option Region} (asked : Allocator.allocate s size prot = (answer, t)) :
    Hosts host t := by
  cases answer with
  | none =>
    have history := Audited.history_of_refused asked
    simp only [Allocator.allocate] at asked
    split at asked
    · cases asked
    · rename_i inner refused
      cases asked
      cases allocate_none refused
      exact h.of_same rfl rfl history
  | some r =>
    simp only [Allocator.allocate] at asked
    split at asked
    · rename_i inner granted
      cases asked
      obtain ⟨words, sum, rfl, rfl⟩ := allocate_some granted
      obtain ⟨small, rfl⟩ := Word.add?_eq_some_iff.mp sum
      refine ⟨h.same, ?_, (numbered_append _ _ _).mpr ⟨h.numbered, small, ?_, trivial⟩⟩
      · simp [Audited.note, Audited.granted, AllocatorEvent.granted?, h.requests]
      · rw [h.same, h.requests, Nat.zero_add]
        rfl
    · cases asked

theorem Hosts.free {s : Audited HostHeap} (h : Hosts host s) (r : Region) :
    Hosts host (Allocator.free s r) := by
  have granted : (Allocator.free s r).granted = s.granted := by
    simp [Audited.granted, AllocatorEvent.granted?]
  refine ⟨h.same, granted ▸ h.requests, ?_⟩
  rw [Audited.history_free]
  exact (numbered_append _ _ _).mpr ⟨h.numbered, trivial⟩

theorem Hosts.write {s t : Audited HostHeap} (h : Hosts host s) {address : Word} {bytes : Bytes}
    (wrote : Allocator.write s address bytes = some t) : Hosts host t := by
  have history := Audited.history_write wrote
  obtain ⟨inner, hi, rfl⟩ := Option.map_eq_some_iff.mp wrote
  obtain ⟨heap, -, rfl⟩ := Option.map_eq_some_iff.mp hi
  exact h.of_same rfl rfl history

theorem Hosts.step {a b : Arena (Audited HostHeap)} (h : Hosts host a.allocator)
    (next : a.Step b) : Hosts host b.allocator := by
  cases next with
  | idle => exact h
  | pointed point => exact h
  | refused asked => exact h.allocate asked
  | grown _ asked => exact h.allocate asked
  | @removed index m found =>
    cases place : a.actual[m.actual]? with
    | none => simpa [Arena.remove, place] using h
    | some raw =>
      rw [Arena.allocator_remove place]
      exact h.free raw
  | stored _ _ wrote => exact h.write wrote

theorem Hosts.kept {s : Audited HostHeap} (h : Hosts host s)
    (separate : Separate host 0 [] s.history) : s.Kept :=
  granting_of_separate h.numbered separate fun _ hp => nomatch hp

end HostHeap

namespace Arena

open HostHeap

/-- The heap behind an arena keeps its contract as long as its host keeps the storages apart. -/
theorem kept_of_separate {pid : Pid} {budget : Option Word} {host : ℕ → Word → Word}
    {a : Arena (Audited HostHeap)}
    (reaches : (Arena.empty pid (Audited.ofAllocator (HostHeap.empty budget host))).Reaches a)
    (separate : Separate host 0 [] a.allocator.history) : a.allocator.Kept := by
  have hosts : Hosts host a.allocator :=
    reaches.preserves (P := fun b => Hosts host b.allocator) Hosts.step ⟨rfl, rfl, trivial⟩
  exact hosts.kept separate

/-- An arena over a heap is a memory of ranges apart, whatever is asked of it and wherever the host
puts the storages, as long as each has bytes of its own below the top of the address space. -/
theorem heap_arena_is_memory (pid : Pid) (budget : Option Word) (host : ℕ → Word → Word)
    (requests : List Request) :
    let start := Arena.empty pid (Audited.ofAllocator (HostHeap.empty budget host))
    let replies := (start.serveAll requests).1
    let a := (start.serveAll requests).2
    (∀ q ∈ requests, q.Storable) → Separate host 0 [] a.allocator.history →
      ∃ memory, AnswersAll [] requests replies memory ∧ memory.Pairwise Extent.Apart ∧
        (memory.map fun e => (e.base, e.bytes.length)) =
          (a.mapped.map fun m => (m.promise.base, m.promise.length.toNat)) ∧
        (∀ address length, 0 < length.toNat →
          Decides memory address length (a.read address length)) ∧
        ∀ address bytes, bytes ≠ [] → bytes.length < 2 ^ 64 →
          Decides memory address (UInt64.ofNat bytes.length) (a.write address bytes) := by
  intro start replies a storable separate
  have reaches : start.Reaches a := start.reaches_serveAll requests
  have hosts : Hosts host a.allocator :=
    reaches.preserves (P := fun b => Hosts host b.allocator) Hosts.step ⟨rfl, rfl, trivial⟩
  have kept : a.allocator.Kept := hosts.kept separate
  have fresh : start.Held fun (s : HostHeap) live => s.heap.Backs live :=
    held_empty pid (Heap.backs_empty budget)
  have held := fresh.reaches HostHeap.backing reaches kept
  have answers := fresh.answersAll HostHeap.storing HostHeap.accepting storable kept
  refine ⟨a.extents, answers, held.extents_apart, ?_, ?_, ?_⟩
  · simp [extents, extentOf]
  · intro address length pos
    exact (held.answers_read HostHeap.storing address length).read_decides pos
  · intro address bytes some_bytes short
    have answer := held.answers_write HostHeap.storing HostHeap.accepting address short
    exact (answer.write_decides some_bytes short).of_map

/-- The host puts two blocks side by side, and a third where the first one was. -/
theorem memory_of_reused_storage :
    let host : ℕ → Word → Word := fun n _ => if n = 1 then 0x1018 else 0x1001
    let requests : List Request := [.map 9 .readWrite 1, .write 0x1014 [1, 2, 3, 4],
      .map 8 .readWrite 8, .write 0x1016 [5, 6, 7], .read 0x1014 4, .read 0x1020 1,
      .unmap 0x1010, .unmap 0x1008, .read 0x1014 4, .map 16 .readWrite 8, .read 0x1014 4]
    let start := Arena.empty 1 (Audited.ofAllocator (HostHeap.empty (some 24) host))
    let replies := (start.serveAll requests).1
    let a := (start.serveAll requests).2
    replies = [.mapped (.ok 0x1008), .written (.ok ()), .mapped (.ok 0x1018),
        .written (.error (.outOfBounds 0x1016 3)), .bytes (.ok [1, 2, 3, 4]),
        .bytes (.error (.unmapped 0x1020)), .unmapped false, .unmapped true,
        .bytes (.error (.unmapped 0x1014)), .mapped (.ok 0x1008), .bytes (.ok [0, 0, 0, 0])] ∧
      (∀ q ∈ requests, q.Storable) ∧ Separate host 0 [] a.allocator.history ∧
      ∃ memory, AnswersAll [] requests replies memory ∧ memory.Pairwise Extent.Apart ∧
        (memory.map fun e => (e.base, e.bytes.length)) =
          (a.mapped.map fun m => (m.promise.base, m.promise.length.toNat)) ∧
        (∀ address length, 0 < length.toNat →
          Decides memory address length (a.read address length)) ∧
        ∀ address bytes, bytes ≠ [] → bytes.length < 2 ^ 64 →
          Decides memory address (UInt64.ofNat bytes.length) (a.write address bytes) :=
  ⟨by decide, by decide, by decide, heap_arena_is_memory 1 _ _ _ (by decide) (by decide)⟩

end Arena

end AppHost.Memory
