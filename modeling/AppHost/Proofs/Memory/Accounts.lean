import AppHost.Proofs.Memory.Charging
import AppHost.Proofs.Memory.Hosted
import Mathlib.Algebra.Order.BigOperators.Group.List
import Mathlib.Algebra.Order.Group.Nat
/-! What a heap counts. Its blocks are found by the base of the range that was given out. A range
without bytes may be based at the end of its storage, and where another storage begins there, the
two ranges have one base: the heap keeps the block of the later one only, and counts the bytes of
the other one for good. Other than that, the bytes in use are those of the ranges that were given
out and not released, and there is a block for each. -/
namespace AppHost.Memory

inductive HeapCall where
  | allocate (length : Word) (prot : Protection)
  | free (range : Region)
  deriving DecidableEq, Repr

/-- A range that was given out, and the storage around it. -/
structure Holding where
  range : Region
  storage : Region
  deriving DecidableEq, Repr

/-- A heap, and all that it has given out and not got back. -/
structure HeapBooks where
  heap : HostHeap
  held : List Holding

namespace HeapBooks

def opened (budget : Option Word) (host : ℕ → Word → Word) : HeapBooks :=
  ⟨.empty budget host, []⟩

def granted? (b : HeapBooks) : HeapCall → Option Holding
  | .allocate length prot => (Allocator.allocate b.heap length prot).1.map fun range =>
      ⟨range, HostHeap.storage b.heap.host b.heap.requests length⟩
  | .free _ => none

def next (b : HeapBooks) : HeapCall → HeapBooks
  | .allocate length prot =>
    match Allocator.allocate b.heap length prot with
    | (none, heap) => { b with heap }
    | (some range, heap) =>
      ⟨heap, b.held ++ [⟨range, HostHeap.storage b.heap.host b.heap.requests length⟩]⟩
  | .free range => ⟨Allocator.free b.heap range, b.held.eraseP (·.range.base == range.base)⟩

def run (b : HeapBooks) (calls : List HeapCall) : HeapBooks := calls.foldl next b

def bytes (held : List Holding) : ℕ := (held.map (·.range.length.toNat)).sum

/-- A property of whatever is given out on the way, and of what is held just before. -/
def Throughout (P : List Holding → Holding → Prop) (b : HeapBooks) : List HeapCall → Prop
  | [] => True
  | call :: later =>
    (∀ new ∈ b.granted? call, P b.held new) ∧ Throughout P (b.next call) later

instance decidableThroughout (P : List Holding → Holding → Prop) [∀ held h, Decidable (P held h)]
    (b : HeapBooks) : (calls : List HeapCall) → Decidable (Throughout P b calls)
  | [] => inferInstanceAs (Decidable True)
  | call :: later =>
    have := decidableThroughout P (b.next call) later
    inferInstanceAs (Decidable (_ ∧ _))

end HeapBooks

namespace Holding

/-- The storage lies in bytes of its own, and its end is an address. -/
def Placed (held : List Holding) (new : Holding) : Prop :=
  new.storage.Representable ∧ ∀ k ∈ held, new.storage.Apart k.storage

/-- The range has no byte, and its storage begins one past a multiple of the word size, so that all
seven bytes of it lie before the range. -/
def Outside (h : Holding) : Prop := h.range.length = 0 ∧ h.storage.base.toNat % 8 = 1

/-- The range is based where the storage of the other one begins, and the two bases are the same. -/
def Meets (h k : Holding) : Prop :=
  h.Outside ∧ h.range.base = k.storage.base ∧ h.range.base = k.range.base

def Unmet (held : List Holding) (new : Holding) : Prop :=
  ∀ k ∈ held, ¬ k.Meets new ∧ ¬ new.Meets k

structure Housed (h : Holding) : Prop where
  nonempty : 0 < h.storage.length.toNat
  aligned : 8 ∣ h.range.base.toNat
  within : h.range.Within h.storage
  owned : h.storage.base.toNat % 8 ≠ 1 → h.storage.Holds h.range.base.toNat

instance (held : List Holding) (new : Holding) : Decidable (new.Placed held) :=
  inferInstanceAs (Decidable (_ ∧ _))

instance (h : Holding) : Decidable h.Outside := inferInstanceAs (Decidable (_ ∧ _))

instance (h k : Holding) : Decidable (h.Meets k) := inferInstanceAs (Decidable (_ ∧ _))

instance (held : List Holding) (new : Holding) : Decidable (new.Unmet held) :=
  inferInstanceAs (Decidable (∀ k ∈ held, ¬ k.Meets new ∧ ¬ new.Meets k))

end Holding

theorem filter_base_of_below {blocks : List Block} {base : Word}
    (below : ∀ b ∈ blocks, b.base < base) : blocks.filter (·.base != base) = blocks :=
  List.filter_eq_self.mpr fun b met => bne_iff_ne.mpr (UInt64.ne_of_lt (below b met))

theorem Descending.below {b : Block} {rest : List Block} (h : Descending (b :: rest)) {base : Word}
    (under : b.base < base) : ∀ c ∈ b :: rest, c.base < base := by
  intro c met
  rcases List.mem_cons.mp met with rfl | met
  · exact under
  · exact UInt64.lt_trans ((List.pairwise_cons.mp h).1 c met) under

/-- A block takes the place of the one with its base. -/
theorem Descending.insertBlock_perm {new : Block} {blocks : List Block} (h : Descending blocks) :
    (insertBlock new blocks).Perm (new :: blocks.filter (·.base != new.base)) := by
  induction blocks with
  | nil => exact .refl _
  | cons b rest ih =>
    obtain ⟨below, rest_below⟩ := List.pairwise_cons.mp h
    unfold insertBlock
    split
    · rename_i under
      rw [filter_base_of_below (h.below under)]
    · split
      · rename_i same
        rw [beq_iff_eq] at same
        rw [List.filter_cons_of_neg (by simp [same]), filter_base_of_below]
        exact same ▸ below
      · rename_i other
        rw [List.filter_cons_of_pos (by simpa using other)]
        exact ((ih rest_below).cons b).trans (List.Perm.swap new b _)

theorem Descending.insertBlock {new : Block} {blocks : List Block} (h : Descending blocks) :
    Descending (insertBlock new blocks) := by
  induction blocks with
  | nil => exact List.pairwise_singleton _ _
  | cons b rest ih =>
    have ⟨below, rest_below⟩ := List.pairwise_cons.mp h
    unfold Memory.insertBlock
    split
    · rename_i under
      exact List.pairwise_cons.mpr ⟨h.below under, h⟩
    · rename_i not_under
      split
      · rename_i same
        exact List.pairwise_cons.mpr ⟨beq_iff_eq.mp same ▸ below, rest_below⟩
      · rename_i other
        refine List.pairwise_cons.mpr ⟨fun c met => ?_, ih rest_below⟩
        have met := (insertBlock_perm rest_below).mem_iff.mp met
        rcases List.mem_cons.mp met with rfl | met
        · exact UInt64.lt_of_le_of_ne (UInt64.not_lt.mp not_under)
            fun same => by simp [same] at other
        · exact below c (List.mem_of_mem_filter met)

def Heap.HasRoom (h : Heap) (length : Word) : Prop :=
  h.inUse.toNat + length.toNat < 2 ^ 64 ∧ length.toNat + 7 < 2 ^ 64 ∧
    ∀ limit ∈ h.budget, h.inUse.toNat + length.toNat ≤ limit.toNat

theorem Heap.storageSize?_eq_none_iff {h : Heap} {length : Word} :
    h.storageSize? length = none ↔ ¬ h.HasRoom length := by
  rw [Option.eq_none_iff_forall_ne_some]
  constructor
  · rintro refused ⟨room, small, allowed⟩
    refine refused (length + 7) (storageSize?_eq_some_iff.mpr ⟨room, allowed, small, ?_⟩)
    exact (UInt64.toNat_add length 7).trans (Nat.mod_eq_of_lt small)
  · intro full n fits
    obtain ⟨room, allowed, small, -⟩ := storageSize?_eq_some_iff.mp fits
    exact full ⟨room, small, allowed⟩

namespace HostHeap

theorem allocate_refused_iff (s : HostHeap) (length : Word) :
    (s.allocate length).1 = none ↔ ¬ s.heap.HasRoom length := by
  rw [← Heap.storageSize?_eq_none_iff, allocate_eq]
  cases s.heap.storageSize? length with
  | none => exact iff_of_true rfl rfl
  | some n => exact iff_of_false nofun nofun

theorem length_of_allocate {s : HostHeap} {length : Word} {r : Region}
    (granted : (s.allocate length).1 = some r) : r.length = length := by
  rw [allocate_eq] at granted
  cases fits : s.heap.storageSize? length with
  | none => simp [fits] at granted
  | some n =>
    rw [fits] at granted
    cases granted
    rfl

/-- The heaps differ by one block, for this range, and by its bytes. -/
def Releases (s : HostHeap) (range : Region) (t : HostHeap) : Prop :=
  ∃ before block later, s.heap.blocks = before ++ block :: later ∧ block.region = range ∧
    block.length ≤ s.heap.inUse ∧ t = { s with heap := { s.heap with
      blocks := before ++ later
      inUse := s.heap.inUse - block.length } }

theorem housed_block (host : ℕ → Word → Word) (n : ℕ) {length : Word}
    (small : length.toNat + 7 < 2 ^ 64) (low : (storage host n length).Representable) :
    Holding.Housed ⟨block host n length, storage host n length⟩ := by
  have whole := @length_storage host n length small
  have ⟨aligned, within⟩ := block_within small low
  refine ⟨?_, aligned, within, ?_⟩
  · change 0 < (storage host n length).length.toNat
    omega
  · intro offset
    have before := block_base small low
    change (storage host n length).base.toNat % 8 ≠ 1 at offset
    change (storage host n length).Holds (block host n length).base.toNat
    unfold Region.Holds
    omega

theorem allocate_block {s t : HostHeap} {length : Word} {r : Region}
    (asked : s.allocate length = (some r, t)) :
    r = block s.host s.requests length ∧
      t = { s with heap := s.heap.place r.base length, requests := s.requests + 1 } ∧
      s.heap.HasRoom length := by
  rw [allocate_eq] at asked
  split at asked
  · cases asked
  · rename_i n fits
    obtain ⟨room, allowed, small, size⟩ := Heap.storageSize?_eq_some_iff.mp fits
    have whole : n = length + (Word.size - 1) := by
      apply UInt64.toNat_inj.mp
      rw [size]
      exact ((UInt64.toNat_add length 7).trans (Nat.mod_eq_of_lt small)).symm
    subst whole
    cases asked
    exact ⟨rfl, rfl, room, small, allowed⟩

end HostHeap

namespace Holding

/-- Two ranges with one base, in storages apart: one of them is based at the end of its storage,
which has no byte for it, and the storage of the other one begins there. -/
theorem meets_of_base {h k : Holding} (hh : h.Housed) (hk : k.Housed)
    (apart : h.storage.Apart k.storage) (same : h.range.base = k.range.base) :
    h.Meets k ∨ k.Meets h := by
  have apart := (Region.apart_iff _ _).mp apart
  have ⟨some_bytes, aligned, within, owned⟩ := hh
  have ⟨more_bytes, _, inside, based⟩ := hk
  have one_base := congrArg UInt64.toNat same
  unfold Region.Within at within inside
  unfold Region.Holds at owned based
  -- the storage that begins lower ends at the common base at the latest, and holds no byte of it
  rcases Nat.lt_or_ge h.storage.base.toNat k.storage.base.toNat with first | first
  · refine Or.inl ⟨⟨UInt64.toNat_inj.mp ?_, ?_⟩, UInt64.toNat_inj.mp ?_, same⟩
    · change h.range.length.toNat = 0
      omega
    · by_contra level
      have := owned level
      omega
    · omega
  · refine Or.inr ⟨⟨UInt64.toNat_inj.mp ?_, ?_⟩, UInt64.toNat_inj.mp ?_, same.symm⟩
    · change k.range.length.toNat = 0
      omega
    · by_contra level
      have := based level
      omega
    · omega

theorem unmet_of_not_outside {held : List Holding} {new : Holding}
    (inside : ¬ new.Outside) (others : ∀ k ∈ held, ¬ k.Outside) : new.Unmet held :=
  fun k met => ⟨fun meets => others k met meets.1, fun meets => inside meets.1⟩

theorem eraseP_of_distinct {held : List Holding} (base : Word)
    (distinct : held.Pairwise fun h k => h.range.base ≠ k.range.base) :
    held.eraseP (·.range.base == base) = held.filter (·.range.base != base) := by
  induction held with
  | nil => rfl
  | cons h held ih =>
    obtain ⟨other, distinct⟩ := List.pairwise_cons.mp distinct
    by_cases same : h.range.base = base
    · rw [List.eraseP_cons_of_pos (by simpa using same),
        List.filter_cons_of_neg (by simpa using same)]
      refine (List.filter_eq_self.mpr fun k met => bne_iff_ne.mpr fun again => ?_).symm
      exact other k met (same.trans again.symm)
    · rw [List.eraseP_cons_of_neg (by simpa using same),
        List.filter_cons_of_pos (by simpa using same), ih distinct]

end Holding

namespace HeapBooks

variable {budget : Option Word} {b : HeapBooks}

theorem bytes_append (first rest : List Holding) :
    bytes (first ++ rest) = bytes first + bytes rest := by
  rw [bytes, List.map_append, List.sum_append]
  rfl

theorem bytes_of_blocks {blocks : List Block} {held : List Holding}
    (regions : (blocks.map Block.region).Perm (held.map Holding.range)) :
    bytes held = (blocks.map (·.length.toNat)).sum := by
  have lengths := (regions.map (·.length.toNat)).sum_eq
  rw [List.map_map, List.map_map] at lengths
  exact lengths.symm

theorem next_allocate (b : HeapBooks) (length : Word) (prot : Protection) :
    (b.granted? (.allocate length prot) = none ∧ b.next (.allocate length prot) = b) ∨
    ∃ new, b.granted? (.allocate length prot) = some new ∧
      b.next (.allocate length prot) = ⟨{ b.heap with
        heap := b.heap.heap.place new.range.base new.range.length
        requests := b.heap.requests + 1 }, b.held ++ [new]⟩ ∧
      (new.storage.Representable → new.Housed) ∧ b.heap.heap.HasRoom new.range.length := by
  rw [granted?, HeapBooks.next]
  cases asked : Allocator.allocate b.heap length prot with
  | mk answer heap =>
    cases answer with
    | none =>
      cases HostHeap.allocate_none asked
      exact Or.inl ⟨rfl, rfl⟩
    | some r =>
      obtain ⟨rfl, rfl, room⟩ := HostHeap.allocate_block asked
      exact Or.inr ⟨_, rfl, rfl, HostHeap.housed_block _ _ room.2.1, room⟩

/-- What holds whether ranges meet or not: a block is that of a range held, its bytes are counted,
and the ranges lie in storages apart. -/
structure Sound (budget : Option Word) (b : HeapBooks) : Prop where
  limited : b.heap.heap.budget = budget
  bounded : ∀ limit ∈ budget, b.heap.heap.inUse.toNat ≤ limit.toNat
  descending : Descending b.heap.heap.blocks
  known : ∀ block ∈ b.heap.heap.blocks, ∃ h ∈ b.held, h.range = block.region
  covered : (b.heap.heap.blocks.map (·.length.toNat)).sum ≤ b.heap.heap.inUse.toNat
  housed : ∀ h ∈ b.held, h.Housed
  apart : b.held.Pairwise fun h k => h.storage.Apart k.storage

theorem sound_opened (budget : Option Word) (host : ℕ → Word → Word) :
    (opened budget host).Sound budget where
  limited := rfl
  bounded limit _ := Nat.zero_le limit.toNat
  descending := .nil
  known := nofun
  covered := Nat.zero_le 0
  housed := nofun
  apart := .nil

theorem inUse_place {h : Heap} {base length : Word} (room : h.HasRoom length) :
    (h.place base length).inUse.toNat = h.inUse.toNat + length.toNat :=
  (UInt64.toNat_add _ _).trans (Nat.mod_eq_of_lt room.1)

theorem Sound.grant (s : b.Sound budget) {new : Holding} {requests : ℕ}
    (placed : new.Placed b.held) (housed : new.Housed)
    (room : b.heap.heap.HasRoom new.range.length) : Sound budget ⟨{ b.heap with
      heap := b.heap.heap.place new.range.base new.range.length
      requests }, b.held ++ [new]⟩ := by
  let block := Block.zeroed new.range.base new.range.length
  have inserted : (insertBlock block b.heap.heap.blocks).Perm _ := s.descending.insertBlock_perm
  have total : (b.heap.heap.place new.range.base new.range.length).inUse.toNat =
      b.heap.heap.inUse.toNat + new.range.length.toNat := inUse_place room
  refine ⟨s.limited, ?_, s.descending.insertBlock, ?_, ?_, ?_, ?_⟩
  · intro limit met
    rw [total]
    exact room.2.2 limit (s.limited ▸ met)
  · intro other met
    rcases List.mem_cons.mp (inserted.mem_iff.mp met) with rfl | met
    · exact ⟨new, by simp, rfl⟩
    · obtain ⟨h, before, same⟩ := s.known other (List.mem_of_mem_filter met)
      exact ⟨h, List.mem_append_left _ before, same⟩
  -- the bytes of a block that gives way stay counted, so the sum may fall short from here on
  · have fewer : ((b.heap.heap.blocks.filter (·.base != new.range.base)).map (·.length.toNat)).sum ≤
        (b.heap.heap.blocks.map (·.length.toNat)).sum :=
      (List.filter_sublist.map _).sum_le_sum fun _ _ => Nat.zero_le _
    have sum := (inserted.map (·.length.toNat)).sum_eq
    rw [List.map_cons, List.sum_cons] at sum
    have covered := s.covered
    rw [total]
    change ((insertBlock block b.heap.heap.blocks).map (·.length.toNat)).sum ≤ _
    rw [sum]
    change new.range.length.toNat +
      ((b.heap.heap.blocks.filter (·.base != new.range.base)).map (·.length.toNat)).sum ≤ _
    omega
  · intro h met
    rcases List.mem_append.mp met with met | met
    · exact s.housed h met
    · exact List.mem_singleton.mp met ▸ housed
  · refine List.pairwise_append.mpr ⟨s.apart, List.pairwise_singleton _ _, ?_⟩
    intro k met other there
    rw [List.mem_singleton.mp there]
    exact (placed.2 k met).symm

theorem Sound.ignores (s : b.Sound budget) {r : Region}
    (other : ∀ h ∈ b.held, h.range.base ≠ r.base) : Allocator.free b.heap r = b.heap := by
  have no_block : ∀ block ∈ b.heap.heap.blocks, block.base ≠ r.base := by
    intro block met same
    obtain ⟨h, held, region⟩ := s.known block met
    exact other h held ((congrArg Region.base region).trans same)
  exact congrArg (fun heap => { b.heap with heap }) (Heap.free_of_none no_block)

theorem Sound.counted (s : b.Sound budget) {before later : List Block} {block : Block}
    (split : b.heap.heap.blocks = before ++ block :: later) :
    ((before ++ later).map (·.length.toNat)).sum + block.length.toNat ≤
      b.heap.heap.inUse.toNat := by
  have covered := s.covered
  rw [split, List.map_append, List.map_cons, List.sum_append, List.sum_cons] at covered
  rw [List.map_append, List.sum_append]
  omega

theorem Sound.free_cases (s : b.Sound budget) (r : Region) :
    (Allocator.free b.heap r = b.heap ∧ ∀ block ∈ b.heap.heap.blocks, block.base ≠ r.base) ∨
    ∃ block : Block, block.base = r.base ∧
      b.heap.Releases block.region (Allocator.free b.heap r) := by
  by_cases known : ∃ block ∈ b.heap.heap.blocks, block.base = r.base
  · obtain ⟨block, met, based⟩ := known
    obtain ⟨before, later, split⟩ := List.append_of_mem met
    have counted := s.counted split
    refine Or.inr ⟨block, based, before, block, later, split, rfl, ?_, ?_⟩
    · exact UInt64.le_iff_toNat_le.mpr (by omega)
    · have freed := Heap.free_of_split s.descending split based
      exact congrArg (fun heap => { b.heap with heap }) freed
  · have none : ∀ block ∈ b.heap.heap.blocks, block.base ≠ r.base := fun block met same =>
      known ⟨block, met, same⟩
    exact Or.inl ⟨congrArg (fun heap => { b.heap with heap }) (Heap.free_of_none none), none⟩

theorem Sound.release (s : b.Sound budget) (r : Region) :
    Sound budget ⟨Allocator.free b.heap r, b.held.eraseP (·.range.base == r.base)⟩ := by
  have housed : ∀ h ∈ b.held.eraseP (·.range.base == r.base), h.Housed :=
    fun h met => s.housed h (List.mem_of_mem_eraseP met)
  have apart := s.apart.sublist (List.eraseP_sublist (p := fun h => h.range.base == r.base))
  -- whichever range of that base is taken out, the ranges at other bases stay
  have known : ∀ block ∈ b.heap.heap.blocks, block.base ≠ r.base →
      ∃ h ∈ b.held.eraseP (·.range.base == r.base), h.range = block.region := by
    intro block met other
    obtain ⟨h, held, region⟩ := s.known block met
    have based : h.range.base ≠ r.base := fun same =>
      other ((congrArg Region.base region).symm.trans same)
    exact ⟨h, (List.mem_eraseP_of_neg (by simpa using based)).mpr held, region⟩
  rcases s.free_cases r with
    ⟨same, none⟩ | ⟨_, based, before, block, later, split, region, low, freed⟩
  · rw [same]
    exact ⟨s.limited, s.bounded, s.descending, fun block met => known block met (none block met),
      s.covered, housed, apart⟩
  · have based : block.base = r.base := (congrArg Region.base region).trans based
    have inUse : (b.heap.heap.inUse - block.length).toNat =
        b.heap.heap.inUse.toNat - block.length.toNat := UInt64.toNat_sub_of_le _ _ low
    have distinct := s.descending.distinct
    rw [split] at distinct
    have left := filter_of_split distinct
    rw [freed]
    refine ⟨s.limited, fun limit met => ?_, ?_, ?_, ?_, housed, apart⟩
    · have := s.bounded limit met
      change (b.heap.heap.inUse - block.length).toNat ≤ _
      omega
    · change Descending (before ++ later)
      rw [← left, ← split]
      exact s.descending.filter _
    · intro other met
      change other ∈ before ++ later at met
      rw [← left, ← split, List.mem_filter] at met
      exact known other met.1 (based ▸ bne_iff_ne.mp met.2)
    · have counted := s.counted split
      change ((before ++ later).map (·.length.toNat)).sum ≤ (b.heap.heap.inUse - block.length).toNat
      omega

theorem Sound.next (s : b.Sound budget) {call : HeapCall}
    (placed : ∀ new ∈ b.granted? call, new.Placed b.held) : (b.next call).Sound budget := by
  cases call with
  | free r => exact s.release r
  | allocate length prot =>
    rcases b.next_allocate length prot with ⟨-, same⟩ | ⟨new, granted, entered, housed, room⟩
    · rw [same]
      exact s
    · rw [entered]
      have placed := placed new granted
      exact s.grant placed (housed placed.1) room

theorem Sound.run (s : b.Sound budget) {calls : List HeapCall}
    (placed : b.Throughout (fun held new => new.Placed held) calls) :
    (b.run calls).Sound budget := by
  induction calls generalizing b with
  | nil => exact s
  | cons call later ih => exact ih (s.next placed.1) placed.2

structure Level (b : HeapBooks) : Prop where
  regions : (b.heap.heap.blocks.map Block.region).Perm (b.held.map Holding.range)
  sum : b.heap.heap.inUse.toNat = bytes b.held

theorem level_opened (budget : Option Word) (host : ℕ → Word → Word) :
    (opened budget host).Level := ⟨.refl _, rfl⟩

theorem Level.bases (l : b.Level) (s : b.Sound budget) :
    b.held.Pairwise fun h k => h.range.base ≠ k.range.base := by
  have blocks : (b.heap.heap.blocks.map Block.region).Pairwise fun r t => r.base ≠ t.base :=
    List.pairwise_map.mpr s.descending.distinct
  have ranges := (l.regions.pairwise_iff Ne.symm).mp blocks
  rwa [List.pairwise_map] at ranges

theorem Level.grant (l : b.Level) (s : b.Sound budget) {new : Holding} {requests : ℕ}
    (fresh : ∀ k ∈ b.held, k.range.base ≠ new.range.base)
    (room : b.heap.heap.HasRoom new.range.length) : Level ⟨{ b.heap with
      heap := b.heap.heap.place new.range.base new.range.length
      requests }, b.held ++ [new]⟩ := by
  constructor
  · let block := Block.zeroed new.range.base new.range.length
    have inserted : (insertBlock block b.heap.heap.blocks).Perm _ := s.descending.insertBlock_perm
    have kept : b.heap.heap.blocks.filter (·.base != block.base) = b.heap.heap.blocks := by
      refine List.filter_eq_self.mpr fun other met => bne_iff_ne.mpr fun same => ?_
      obtain ⟨k, held, region⟩ := s.known other met
      exact fresh k held ((congrArg Region.base region).trans same)
    rw [kept] at inserted
    refine (inserted.map Block.region).trans ((l.regions.cons new.range).trans ?_)
    simp only [List.map_append]
    exact (List.perm_append_singleton _ _).symm
  · have single : bytes [new] = new.range.length.toNat := rfl
    change (b.heap.heap.place new.range.base new.range.length).inUse.toNat = _
    rw [inUse_place room, l.sum, bytes_append, single]

theorem Level.releases (l : b.Level) (s : b.Sound budget) {h : Holding} (held : h ∈ b.held)
    {r : Region} (base : h.range.base = r.base) :
    b.heap.Releases h.range (Allocator.free b.heap r) := by
  obtain ⟨block, met, region⟩ := List.mem_map.mp (l.regions.mem_iff.mpr (List.mem_map_of_mem held))
  have based : block.base = r.base := (congrArg Region.base region).trans base
  rcases s.free_cases r with ⟨-, none⟩ | ⟨_, same, before, c, later, split, out, freed⟩
  · exact absurd based (none block met)
  · have bases : (b.heap.heap.blocks.map Block.base).Nodup :=
      List.pairwise_map.mpr s.descending.distinct
    have again : c.base = block.base := ((congrArg Region.base out).trans same).trans based.symm
    have one : c = block := List.inj_on_of_nodup_map bases (by simp [split]) met again
    exact ⟨before, c, later, split, one ▸ region, freed⟩

theorem Level.release (l : b.Level) (s : b.Sound budget) (r : Region) :
    Level ⟨Allocator.free b.heap r, b.held.eraseP (·.range.base == r.base)⟩ := by
  by_cases known : ∃ h ∈ b.held, h.range.base = r.base
  · obtain ⟨h, held, based⟩ := known
    obtain ⟨before, block, later, split, region, low, freed⟩ := l.releases s held based
    have base : block.base = r.base := (congrArg Region.base region).trans based
    have distinct := s.descending.distinct
    rw [split] at distinct
    have left : (b.heap.heap.blocks.filter (·.base != block.base)) = before ++ later :=
      split ▸ filter_of_split distinct
    have regions := l.regions.filter (·.base != r.base)
    rw [List.filter_map, List.filter_map] at regions
    change ((b.heap.heap.blocks.filter (·.base != r.base)).map Block.region).Perm
      ((b.held.filter (·.range.base != r.base)).map Holding.range) at regions
    rw [← base, left, base, ← Holding.eraseP_of_distinct r.base (l.bases s)] at regions
    have total := l.sum
    rw [bytes_of_blocks l.regions, split, List.map_append, List.map_cons, List.sum_append,
      List.sum_cons] at total
    rw [freed]
    refine ⟨regions, ?_⟩
    change (b.heap.heap.inUse - block.length).toNat = _
    rw [UInt64.toNat_sub_of_le _ _ low, bytes_of_blocks regions, List.map_append, List.sum_append]
    omega
  · have other : ∀ h ∈ b.held, h.range.base ≠ r.base := fun h met same => known ⟨h, met, same⟩
    rw [s.ignores other, List.eraseP_of_forall_not fun h met => by simpa using other h met]
    exact l

theorem Level.next (l : b.Level) (s : b.Sound budget) {call : HeapCall}
    (placed : ∀ new ∈ b.granted? call, new.Placed b.held)
    (unmet : ∀ new ∈ b.granted? call, new.Unmet b.held) : (b.next call).Level := by
  cases call with
  | free r => exact l.release s r
  | allocate length prot =>
    rcases b.next_allocate length prot with ⟨-, same⟩ | ⟨new, granted, entered, housed, room⟩
    · rw [same]
      exact l
    · rw [entered]
      have placed := placed new granted
      have unmet := unmet new granted
      -- with an equal base, one of the two ranges would meet the other
      refine l.grant s (fun k held same => ?_) room
      rcases Holding.meets_of_base (s.housed k held) (housed placed.1) (placed.2 k held).symm same
        with meets | meets
      · exact (unmet k held).1 meets
      · exact (unmet k held).2 meets

theorem Level.run (l : b.Level) (s : b.Sound budget) {calls : List HeapCall}
    (placed : b.Throughout (fun held new => new.Placed held) calls)
    (unmet : b.Throughout (fun held new => new.Unmet held) calls) : (b.run calls).Level := by
  induction calls generalizing b with
  | nil => exact l
  | cons call later ih =>
    exact ih (l.next s placed.1 unmet.1) (s.next placed.1) placed.2 unmet.2

theorem unmet_throughout {calls : List HeapCall} (others : ∀ h ∈ b.held, ¬ h.Outside)
    (inside : b.Throughout (fun _ new => ¬ new.Outside) calls) :
    b.Throughout (fun held new => new.Unmet held) calls := by
  induction calls generalizing b with
  | nil => trivial
  | cons call later ih =>
    refine ⟨fun new granted => ?_, ih ?_ inside.2⟩
    · exact Holding.unmet_of_not_outside (inside.1 new granted) others
    · cases call with
      | free r => exact fun h met => others h (List.mem_of_mem_eraseP met)
      | allocate length prot =>
        rcases b.next_allocate length prot with ⟨-, same⟩ | ⟨new, granted, entered, -, -⟩
        · rw [same]
          exact others
        · rw [entered]
          intro h met
          rcases List.mem_append.mp met with met | met
          · exact others h met
          · exact List.mem_singleton.mp met ▸ inside.1 new granted

/-- What is held lies in its storage, apart from the rest. Two ranges with one base are such that
one meets the other. No more is taken from the bytes in use than is in them, nothing is taken for a
range that is not held, and what is refused there is no room for. -/
structure Kept (budget : Option Word) (b : HeapBooks) : Prop where
  bounded : ∀ limit ∈ budget, b.heap.heap.inUse.toNat ≤ limit.toNat
  covered : ∀ block ∈ b.heap.heap.blocks, block.length ≤ b.heap.heap.inUse
  inside : ∀ h ∈ b.held, h.range.Within h.storage ∧ 8 ∣ h.range.base.toNat
  apart : b.held.Pairwise fun h k => h.range.Apart k.range ∧
    (h.range.base = k.range.base → h.Meets k ∨ k.Meets h)
  ignores : ∀ r : Region, (∀ h ∈ b.held, h.range.base ≠ r.base) →
    Allocator.free b.heap r = b.heap
  refuses : ∀ length prot,
    (Allocator.allocate b.heap length prot).1 = none ↔ ¬ b.heap.heap.HasRoom length
  grants : ∀ length prot, ∀ r ∈ (Allocator.allocate b.heap length prot).1, r.length = length

/-- What is counted is what is held, and freeing a range that is held takes out that one. -/
structure Balanced (b : HeapBooks) : Prop where
  inUse : b.heap.heap.inUse.toNat = bytes b.held
  blocks : b.heap.heap.blocks.length = b.held.length
  bases : b.held.Pairwise fun h k => h.range.base ≠ k.range.base
  releases : ∀ h ∈ b.held, ∀ r : Region, h.range.base = r.base →
    b.heap.Releases h.range (Allocator.free b.heap r)

theorem Sound.kept (s : b.Sound budget) : b.Kept budget where
  bounded := s.bounded
  covered block met := by
    obtain ⟨before, later, split⟩ := List.append_of_mem met
    have counted := s.counted split
    exact UInt64.le_iff_toNat_le.mpr (by omega)
  inside h met := ⟨(s.housed h met).within, (s.housed h met).aligned⟩
  apart := by
    refine s.apart.imp_of_mem fun {h k} hh hk apart => ?_
    have first := s.housed h hh
    have second := s.housed k hk
    exact ⟨apart.mono first.within second.within, Holding.meets_of_base first second apart⟩
  ignores _ := s.ignores
  refuses length _ := b.heap.allocate_refused_iff length
  grants _ _ _ := HostHeap.length_of_allocate

theorem Level.balanced (l : b.Level) (s : b.Sound budget) : b.Balanced where
  inUse := l.sum
  blocks := by simpa using l.regions.length_eq
  bases := l.bases s
  releases _ held _ := l.releases s held

/-- Whatever is allocated and freed, as long as the host puts every storage in bytes of its own
below the top of the address space: what is held lies in its storage and apart, the bytes in use are
within the budget and never less than what a block would take from them, and what is not held is not
freed. As long as no range is based where the storage of another begins, and so if no range without
bytes is put into a storage that begins one past a multiple of the word size, the bytes in use are
those of the ranges held, with a block and a base for each, and freeing one of them takes out its
block. -/
theorem heap_accounts_balance (budget : Option Word) (host : ℕ → Word → Word)
    (calls : List HeapCall)
    (placed : (opened budget host).Throughout (fun held new => new.Placed held) calls) :
    let b := (opened budget host).run calls
    b.Kept budget ∧
      ((opened budget host).Throughout (fun held new => new.Unmet held) calls → b.Balanced) ∧
      ((opened budget host).Throughout (fun _ new => ¬ new.Outside) calls → b.Balanced) := by
  intro b
  have start := sound_opened budget host
  have sound := start.run placed
  have balanced (unmet : (opened budget host).Throughout (fun held new => new.Unmet held) calls) :
      b.Balanced :=
    ((level_opened budget host).run start placed unmet).balanced sound
  exact ⟨sound.kept, balanced, fun inside => balanced (unmet_throughout nofun inside)⟩

/-- A range without bytes ends where its storage does, and no other storage begins there; two calls
free what is not held, and one asks for more than the budget. -/
theorem accounts_of_empty_range :
    let host : ℕ → Word → Word := fun n _ => [0x1001, 0x100a, 0x1016].getD n 0x1009
    let calls : List HeapCall := [.allocate 0 .readWrite, .allocate 5 .readWrite,
      .allocate 9 .readWrite, .allocate 2 .readWrite, .free ⟨0x1010, 99⟩, .free ⟨0x1010, 5⟩,
      .free ⟨0x1011, 0⟩, .allocate 6 .readWrite]
    let b := (opened (some 15) host).run calls
    (opened (some 15) host).Throughout (fun held new => new.Placed held) calls ∧
      b.held.map (·.range) = [⟨0x1008, 0⟩, ⟨0x1018, 9⟩, ⟨0x1010, 6⟩] ∧
      b.heap.heap.inUse = 15 ∧ b.Kept (some 15) ∧ b.Balanced := by
  intro host calls
  have placed : (opened (some 15) host).Throughout (fun held new => new.Placed held) calls := by
    decide
  have unmet : (opened (some 15) host).Throughout (fun held new => new.Unmet held) calls := by
    decide
  have accounts := heap_accounts_balance (some 15) host calls placed
  exact ⟨placed, by decide, by decide, accounts.1, accounts.2.1 unmet⟩

/-- Two storages side by side, the second for a range without bytes, which is based where the first
one begins. There is one block for the two ranges that are held, without a byte in it; and when both
are freed, five bytes are in use, and the budget has no room left for another one. -/
theorem empty_range_takes_base :
    let host : ℕ → Word → Word := fun n _ => [0x1008].getD n 0x1001
    let calls : List HeapCall := [.allocate 5 .readWrite, .allocate 0 .readWrite]
    let b := (opened (some 5) host).run calls
    let freed := b.run [.free ⟨0x1008, 5⟩, .free ⟨0x1008, 0⟩]
    (opened (some 5) host).Throughout (fun held new => new.Placed held) calls ∧
      b.held.map (·.range) = [⟨0x1008, 5⟩, ⟨0x1008, 0⟩] ∧
      b.heap.heap.blocks.map (·.region) = [⟨0x1008, 0⟩] ∧
      freed.held = [] ∧ freed.heap.heap.blocks = [] ∧ freed.heap.heap.inUse = 5 ∧
      (Allocator.allocate freed.heap 1 .readWrite).1 = none := by
  decide

end HeapBooks

end AppHost.Memory
