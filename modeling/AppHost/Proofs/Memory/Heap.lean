import AppHost.Memory.Bump
import AppHost.Proofs.Memory.Backing
/-! The heap and the allocators on top of it store bytes as an arena relies on. Blocks stand in
descending order and apart, so the nearest block at or below an address inside one of them is
that block. -/
namespace AppHost.Memory

namespace Block

def region (b : Block) : Region := ⟨b.base, b.length⟩

def Above (b c : Block) : Prop := c.base.toNat + c.length.toNat ≤ b.base.toNat

@[simp] theorem region_store (b : Block) (offset : ℕ) (bytes : Bytes) :
    (b.store offset bytes).region = b.region := rfl

theorem offset_of_covers {b : Block} {address length : Word}
    (covers : b.region.covers address length = true) : b.base.toNat ≤ address.toNat ∧
      (address - b.base).toNat = address.toNat - b.base.toNat ∧
      (address - b.base).toNat + length.toNat ≤ b.length.toNat := by
  obtain ⟨low, high⟩ := (Region.covers_iff _ _ _).mp covers
  have limit := b.region.toNat_limit
  simp only [region] at low limit high
  have offset := UInt64.toNat_sub_of_le _ _ (UInt64.le_iff_toNat_le.mpr low)
  omega

end Block

section Keys

variable {α : Type} {key : α → Word} {before later : List α} {x : α}

theorem filter_of_split (distinct : (before ++ x :: later).Pairwise fun a b => key a ≠ key b) :
    (before ++ x :: later).filter (key · != key x) = before ++ later := by
  rw [List.pairwise_append, List.pairwise_cons] at distinct
  obtain ⟨-, ⟨ahead, -⟩, across⟩ := distinct
  rw [List.filter_append, List.filter_cons_of_neg (by simp)]
  congr 1
  · refine List.filter_eq_self.mpr fun a met => bne_iff_ne.mpr ?_
    exact across a met x List.mem_cons_self
  · refine List.filter_eq_self.mpr fun a met => bne_iff_ne.mpr ?_
    exact (ahead a met).symm

theorem find?_of_split (distinct : (before ++ x :: later).Pairwise fun a b => key a ≠ key b) :
    (before ++ x :: later).find? (key · == key x) = some x := by
  rw [List.pairwise_append] at distinct
  refine List.find?_eq_some_iff_append.mpr ⟨beq_self_eq_true _, before, later, rfl, ?_⟩
  intro a met
  have other := distinct.2.2 a met x List.mem_cons_self
  simpa using other

end Keys

def Descending (blocks : List Block) : Prop := blocks.Pairwise fun b c => c.base < b.base

theorem Descending.distinct {blocks : List Block} (h : Descending blocks) :
    blocks.Pairwise fun b c => b.base ≠ c.base :=
  h.imp fun below => (UInt64.ne_of_lt below).symm

/-- Blocks in descending order, with no address in two of them. -/
structure Ordered (blocks : List Block) : Prop where
  above : blocks.Pairwise Block.Above
  nonempty : ∀ b ∈ blocks, 0 < b.length.toNat

theorem Ordered.of_regions {blocks others : List Block} (h : Ordered blocks)
    (regions : others.map Block.region = blocks.map Block.region) : Ordered others := by
  refine ⟨?_, fun b hb => ?_⟩
  · have above : (blocks.map Block.region).Pairwise fun r s =>
        s.base.toNat + s.length.toNat ≤ r.base.toNat := List.pairwise_map.mpr h.above
    rw [← regions, List.pairwise_map] at above
    exact above
  · have mem : b.region ∈ blocks.map Block.region := regions ▸ List.mem_map_of_mem hb
    obtain ⟨c, hc, eq⟩ := List.mem_map.mp mem
    have pos := h.nonempty c hc
    rwa [show c.length = b.length from congrArg Region.length eq] at pos

theorem Ordered.tail {b : Block} {rest : List Block} (h : Ordered (b :: rest)) : Ordered rest :=
  ⟨(List.pairwise_cons.mp h.above).2, fun c hc => h.nonempty c (List.mem_cons_of_mem b hc)⟩

theorem Ordered.below {b c : Block} {rest : List Block} (h : Ordered (b :: rest)) (hc : c ∈ rest) :
    c.base.toNat + c.length.toNat ≤ b.base.toNat ∧ c.base.toNat < b.base.toNat := by
  have above : c.base.toNat + c.length.toNat ≤ b.base.toNat :=
    (List.pairwise_cons.mp h.above).1 c hc
  have pos := h.nonempty c (List.mem_cons_of_mem b hc)
  omega

theorem Ordered.descending {blocks : List Block} (h : Ordered blocks) : Descending blocks := by
  refine h.above.imp_of_mem fun {b c} _ hc above => ?_
  have pos := h.nonempty c hc
  unfold Block.Above at above
  rw [UInt64.lt_iff_toNat_lt]
  omega

theorem Ordered.find?_base {b : Block} {blocks : List Block} (h : Ordered blocks)
    (hb : b ∈ blocks) : blocks.find? (·.base == b.base) = some b := by
  obtain ⟨before, later, rfl⟩ := List.append_of_mem hb
  exact find?_of_split h.descending.distinct

theorem Ordered.eq_of_base {blocks : List Block} (h : Ordered blocks) {b c : Block}
    (hb : b ∈ blocks) (hc : c ∈ blocks) (base : b.base = c.base) : b = c := by
  have found := h.find?_base hb
  rw [base, h.find?_base hc] at found
  exact (Option.some.inj found).symm

theorem Ordered.find?_eq {blocks : List Block} (h : Ordered blocks) {b : Block} (hb : b ∈ blocks)
    {address : Word} (holds : b.region.Holds address.toNat) :
    blocks.find? (·.base ≤ address) = some b := by
  obtain ⟨low, high⟩ := holds
  change b.base.toNat ≤ address.toNat at low
  change address.toNat < b.base.toNat + b.length.toNat at high
  induction blocks with
  | nil => nomatch hb
  | cons c rest ih =>
    rcases List.mem_cons.mp hb with rfl | hb
    · rw [List.find?_cons_of_pos (by simpa [UInt64.le_iff_toNat_le] using low)]
    · have below := h.below hb
      have past : ¬ c.base.toNat ≤ address.toNat := by omega
      rw [List.find?_cons_of_neg (by simpa [UInt64.le_iff_toNat_le] using past)]
      exact ih h.tail hb

theorem mem_insertBlock (new : Block) (blocks : List Block) : new ∈ insertBlock new blocks := by
  induction blocks with
  | nil => exact List.mem_cons_self
  | cons b rest ih =>
    unfold insertBlock
    split
    · exact List.mem_cons_self
    · split
      · exact List.mem_cons_self
      · exact List.mem_cons_of_mem b ih

theorem insertBlock_perm {new : Block} {blocks : List Block}
    (fresh : ∀ b ∈ blocks, b.base ≠ new.base) : (insertBlock new blocks).Perm (new :: blocks) := by
  induction blocks with
  | nil => exact List.Perm.refl _
  | cons b rest ih =>
    have other : (b.base == new.base) = false :=
      beq_false_of_ne (fresh b List.mem_cons_self)
    unfold insertBlock
    rw [other]
    split
    · exact List.Perm.refl _
    · have rest := ih fun c hc => fresh c (List.mem_cons_of_mem b hc)
      exact (rest.cons b).trans (List.Perm.swap new b _)

theorem Ordered.insert {new : Block} {blocks : List Block} (h : Ordered blocks)
    (pos : 0 < new.length.toNat) (apart : ∀ b ∈ blocks, new.region.Apart b.region) :
    Ordered (insertBlock new blocks) := by
  have fresh : ∀ b ∈ blocks, b.base ≠ new.base := fun b hb =>
    (apart b hb).symm.base_ne (h.nonempty b hb) pos
  refine ⟨?_, fun b hb => ?_⟩
  · induction blocks with
    | nil => exact List.pairwise_singleton _ _
    | cons b rest ih =>
      have ne := fresh b List.mem_cons_self
      have sides := (Region.apart_iff _ _).mp (apart b List.mem_cons_self)
      have tail : ∀ c ∈ rest, c ∈ b :: rest := fun c hc => List.mem_cons_of_mem b hc
      have nonempty := h.nonempty b List.mem_cons_self
      simp only [Block.region] at sides
      unfold insertBlock
      split
      · rename_i lt
        rw [UInt64.lt_iff_toNat_lt] at lt
        refine List.pairwise_cons.mpr ⟨fun c hc => ?_, h.above⟩
        unfold Block.Above
        rcases List.mem_cons.mp hc with rfl | hc
        · omega
        · have := h.below hc
          omega
      · rename_i ge
        rw [UInt64.lt_iff_toNat_lt] at ge
        have differ : b.base.toNat ≠ new.base.toNat := fun eq => ne (UInt64.toNat_inj.mp eq)
        rw [beq_false_of_ne ne]
        have rest_fresh := fun c hc => fresh c (tail c hc)
        refine List.pairwise_cons.mpr ⟨fun c hc => ?_,
          ih h.tail (fun c hc => apart c (tail c hc)) rest_fresh⟩
        rcases List.mem_cons.mp ((insertBlock_perm rest_fresh).mem_iff.mp hc) with rfl | hc
        · unfold Block.Above
          omega
        · exact (List.pairwise_cons.mp h.above).1 c hc
  · rcases List.mem_cons.mp ((insertBlock_perm fresh).mem_iff.mp hb) with rfl | hb
    · exact pos
    · exact h.nonempty b hb

/-- Inserting a block at the base of another puts it in the other's place. -/
theorem Ordered.insert_replaces {new b : Block} {blocks : List Block} (h : Ordered blocks)
    (hb : b ∈ blocks) (base : new.base = b.base) :
    insertBlock new blocks = blocks.map fun c => if c.base = b.base then new else c := by
  induction blocks with
  | nil => nomatch hb
  | cons c rest ih =>
    unfold insertBlock
    rw [List.map_cons]
    rcases List.mem_cons.mp hb with rfl | hb
    · have same : rest.map (fun c => if c.base = b.base then new else c) = rest := by
        refine (List.map_congr_left fun c hc => ?_).trans (List.map_id rest)
        have below := (h.below hc).2
        rw [if_neg fun eq => by rw [eq] at below; omega]
        rfl
      rw [base, if_neg (UInt64.lt_irrefl _), if_pos (beq_self_eq_true _), if_pos rfl, same]
    · have below := (h.below hb).2
      have past : ¬ c.base < new.base := by
        rw [base, UInt64.lt_iff_toNat_lt]
        omega
      have ne : c.base ≠ b.base := fun eq => by
        rw [eq] at below
        omega
      rw [if_neg past, base, if_neg (by simpa using ne), if_neg ne, ih h.tail hb]

theorem Ordered.perm_filter {b : Block} {blocks : List Block} (h : Ordered blocks)
    (hb : b ∈ blocks) : (b :: blocks.filter (·.base != b.base)).Perm blocks := by
  obtain ⟨before, later, rfl⟩ := List.append_of_mem hb
  rw [filter_of_split h.descending.distinct]
  exact List.perm_middle.symm

namespace Heap

structure Backs (h : Heap) (live : List Region) : Prop where
  ordered : Ordered h.blocks
  regions : (h.blocks.map (·.region)).Perm live

theorem backs_empty (budget : Option Word) : (Heap.empty budget).Backs [] :=
  ⟨⟨.nil, fun _ hb => nomatch hb⟩, .refl _⟩

variable {h i : Heap} {live : List Region}

theorem free_of_split {before later : List Block} {b : Block} {r : Region}
    (descending : Descending h.blocks) (split : h.blocks = before ++ b :: later)
    (base : b.base = r.base) :
    h.free r = { h with blocks := before ++ later, inUse := h.inUse - b.length } := by
  have distinct := descending.distinct
  rw [split] at distinct
  have found : h.blocks.find? (·.base == r.base) = some b := by
    rw [split, ← base]
    exact find?_of_split distinct
  rw [Heap.free, found, split, ← base]
  exact congrArg (Heap.mk · _ _) (filter_of_split distinct)

theorem free_of_none {r : Region} (none : ∀ b ∈ h.blocks, b.base ≠ r.base) : h.free r = h := by
  have missing : h.blocks.find? (·.base == r.base) = .none :=
    List.find?_eq_none.mpr fun b met same => none b met (beq_iff_eq.mp same)
  rw [Heap.free, missing]

theorem Backs.block (hb : h.Backs live) {r : Region} (hr : r ∈ live) :
    ∃ b ∈ h.blocks, b.region = r :=
  List.mem_map.mp (hb.regions.mem_iff.mpr hr)

theorem Backs.region (hb : h.Backs live) {b : Block} (mem : b ∈ h.blocks) : b.region ∈ live :=
  hb.regions.mem_iff.mp (List.mem_map_of_mem mem)

theorem Backs.nearest? (hb : h.Backs live) {b : Block} (mem : b ∈ h.blocks) {address length : Word}
    (pos : 0 < length.toNat) (covers : b.region.covers address length = true) :
    h.nearest? address = some b :=
  hb.ordered.find?_eq mem (Region.holds_of_covers covers pos)

theorem Backs.read_eq (hb : h.Backs live) {b : Block} (mem : b ∈ h.blocks) {address length : Word}
    (pos : 0 < length.toNat) (covers : b.region.covers address length = true) :
    h.read address length = some (b.load (address - b.base).toNat length.toNat) := by
  obtain ⟨-, -, inside⟩ := Block.offset_of_covers covers
  simp [read, hb.nearest? mem pos covers, Block.offset?, inside]

def Same (r : Region) (h i : Heap) : Prop :=
  ∀ address length : Word, 0 < length.toNat → r.covers address length = true →
    h.read address length = i.read address length

theorem Backs.same (hb : h.Backs live) {later : List Region} (ib : i.Backs later) {b : Block}
    (before : b ∈ h.blocks) (after : b ∈ i.blocks) : Same b.region h i := by
  intro address length pos covers
  rw [hb.read_eq before pos covers, ib.read_eq after pos covers]

theorem Backs.place (hb : h.Backs live) {base length size : Word} (pos : 0 < length.toNat)
    (fits : Fits size ⟨base, length⟩ live) :
    (h.place base length).Backs (live ++ [⟨base, length⟩]) ∧
      ∀ other ∈ live, Same other h (h.place base length) := by
  have apart : ∀ b ∈ h.blocks, (Block.zeroed base length).region.Apart b.region :=
    fun b mem => fits.apart b.region (hb.region mem)
  have perm := insertBlock_perm fun b mem =>
    (apart b mem).symm.base_ne (hb.ordered.nonempty b mem) pos
  have placed : (h.place base length).Backs (live ++ [⟨base, length⟩]) := by
    refine ⟨hb.ordered.insert pos apart, ?_⟩
    have regions := (perm.map Block.region).trans (hb.regions.cons _)
    exact regions.trans (List.perm_append_singleton _ _).symm
  refine ⟨placed, fun other mem => ?_⟩
  obtain ⟨b, before, rfl⟩ := hb.block mem
  exact hb.same placed before (perm.mem_iff.mpr (List.mem_cons_of_mem _ before))

theorem Backs.free_eq (hb : h.Backs live) {b : Block} (mem : b ∈ h.blocks) :
    h.free b.region = { h with
      blocks := h.blocks.filter (·.base != b.base)
      inUse := h.inUse - b.length } := by
  have found : h.blocks.find? (·.base == b.region.base) = some b := hb.ordered.find?_base mem
  rw [Heap.free, found]
  rfl

theorem Backs.free (hb : h.Backs live) {r : Region} (hr : r ∈ live) :
    (h.free r).Backs (live.erase r) ∧ ∀ other ∈ live.erase r, Same other h (h.free r) := by
  obtain ⟨b, mem, rfl⟩ := hb.block hr
  have blocks : (h.free b.region).blocks = h.blocks.filter (·.base != b.base) := by
    rw [hb.free_eq mem]
  have whole := (hb.ordered.perm_filter mem).map Block.region
  have freed : (h.free b.region).Backs (live.erase b.region) := by
    refine ⟨?_, ?_⟩
    · rw [blocks]
      exact ⟨hb.ordered.above.filter _, fun c hc =>
        hb.ordered.nonempty c (List.mem_of_mem_filter hc)⟩
    · rw [blocks]
      exact (List.cons_perm_iff_perm_erase.mp (whole.trans hb.regions)).2
  refine ⟨freed, fun other hm => ?_⟩
  obtain ⟨c, after, rfl⟩ := freed.block hm
  have before : c ∈ h.blocks := List.mem_of_mem_filter (blocks ▸ after)
  exact hb.same freed before after

theorem length_of_write {address : Word} {bytes : Bytes} (hw : h.write address bytes = some i) :
    bytes.length < 2 ^ 64 := by
  simp only [Heap.write, Option.bind_eq_bind, Option.bind_eq_some_iff] at hw
  obtain ⟨b, -, offset, ho, -⟩ := hw
  have top := b.length.toNat_lt
  simp only [Block.offset?, Option.ite_none_right_eq_some] at ho
  omega

theorem Backs.write_eq (hb : h.Backs live) {b : Block} (mem : b ∈ h.blocks) {address : Word}
    {bytes : Bytes} (some_bytes : bytes ≠ []) (short : bytes.length < 2 ^ 64)
    (covers : b.region.covers address (UInt64.ofNat bytes.length) = true) :
    h.write address bytes = some
      { h with
        blocks := h.blocks.map fun c =>
          if c.base = b.base then b.store (address - b.base).toNat bytes else c } := by
  have length := UInt64.toNat_ofNat_of_lt' short
  have pos : 0 < (UInt64.ofNat bytes.length).toNat := by
    rw [length]
    exact List.length_pos_iff.mpr some_bytes
  obtain ⟨-, -, inside⟩ := Block.offset_of_covers covers
  rw [length] at inside
  have replaced : insertBlock (b.store (address - b.base).toNat bytes) h.blocks = _ :=
    hb.ordered.insert_replaces mem rfl
  simp [Heap.write, hb.nearest? mem pos covers, Block.offset?, inside, replaced]

theorem Backs.write (hb : h.Backs live) {r : Region} (hr : r ∈ live) {address : Word}
    {bytes : Bytes} (some_bytes : bytes ≠ [])
    (covers : r.covers address (UInt64.ofNat bytes.length) = true)
    (hw : h.write address bytes = some i) :
    i.Backs live ∧ ∀ other ∈ live, other.Apart r → Same other h i := by
  obtain ⟨b, mem, rfl⟩ := hb.block hr
  rw [hb.write_eq mem some_bytes (length_of_write hw) covers, Option.some.injEq] at hw
  have blocks : i.blocks = h.blocks.map fun c =>
      if c.base = b.base then b.store (address - b.base).toNat bytes else c :=
    hw ▸ rfl
  have regions : i.blocks.map Block.region = h.blocks.map Block.region := by
    rw [blocks, List.map_map]
    refine List.map_congr_left fun c hc => ?_
    by_cases same : c.base = b.base
    · rw [hb.ordered.eq_of_base hc mem same]
      simp
    · simp [same]
  have stored : i.Backs live := ⟨hb.ordered.of_regions regions, regions ▸ hb.regions⟩
  refine ⟨stored, fun other hm apart => ?_⟩
  obtain ⟨c, before, rfl⟩ := hb.block hm
  have ne : c.base ≠ b.base :=
    apart.base_ne (hb.ordered.nonempty c before) (hb.ordered.nonempty b mem)
  have after : c ∈ i.blocks := by
    rw [blocks]
    exact List.mem_map.mpr ⟨c, before, if_neg ne⟩
  exact hb.same stored before after

end Heap

namespace HostHeap

theorem allocate_eq (s : HostHeap) (size : Word) :
    s.allocate size = match s.heap.storageSize? size with
      | none => (none, s)
      | some storage =>
        let base := Word.alignUp (s.host s.requests storage) Word.size
        (some ⟨base, size⟩,
          { s with heap := s.heap.place base size, requests := s.requests + 1 }) := by
  unfold allocate Heap.allocateAt
  cases s.heap.storageSize? size <;> rfl

theorem allocate_some {s t : HostHeap} {size : Word} {r : Region}
    (h : s.allocate size = (some r, t)) :
    ∃ storage, Word.add? size (Word.size - 1) = some storage ∧
      r = ⟨Word.alignUp (s.host s.requests storage) Word.size, size⟩ ∧
      t = { s with heap := s.heap.place r.base size, requests := s.requests + 1 } := by
  rw [allocate_eq] at h
  cases charged : s.heap.storageSize? size with
  | none =>
    rw [charged] at h
    cases h
  | some storage =>
    rw [charged] at h
    cases h
    obtain ⟨inUse, -, sum⟩ := Option.bind_eq_some_iff.mp charged
    exact ⟨storage, sum, rfl, rfl⟩

theorem allocate_none {s t : HostHeap} {size : Word} (h : s.allocate size = (none, t)) : t = s := by
  rw [allocate_eq] at h
  cases charged : s.heap.storageSize? size <;> rw [charged] at h <;> cases h
  rfl

/-- A heap that takes its addresses from a host backs its regions wherever the host puts them. -/
theorem backing : Backing fun (s : HostHeap) live => s.heap.Backs live where
  granted hb ha pos fits := by
    obtain ⟨storage, -, rfl, rfl⟩ := allocate_some ha
    exact hb.place pos fits
  refused {s t live size prot} hb ha := by
    cases allocate_none ha
    exact ⟨hb, fun r _ => SameBytes.refl r s⟩
  released hb hr := hb.free hr
  written {s t live r address bytes} hb hr some_bytes covers hw := by
    obtain ⟨heap, hh, rfl⟩ := Option.map_eq_some_iff.mp hw
    exact hb.write hr some_bytes covers hh

end HostHeap

theorem Bump.backing : Backing fun (s : Bump) live => s.heap.Backs live where
  granted {s t live size prot r} hb ha pos fits := by
    change s.allocate size = (some r, t) at ha
    unfold Bump.allocate at ha
    simp only at ha
    split at ha
    · cases ha
    · split at ha
      · cases ha
      · cases ha
        obtain ⟨placed, same⟩ := hb.place pos fits
        refine ⟨placed, fun other mem address length pos covers => ?_⟩
        simp only [Allocator.read, same other mem address length pos covers]
  refused {s t live size prot} hb ha := by
    change s.allocate size = (none, t) at ha
    unfold Bump.allocate at ha
    simp only at ha
    split at ha
    · cases ha
      exact ⟨hb, fun r _ _ _ _ _ => rfl⟩
    · split at ha
      · cases ha
        exact ⟨hb, fun r _ _ _ _ _ => rfl⟩
      · cases ha
  released hb hr := by
    obtain ⟨freed, same⟩ := hb.free hr
    refine ⟨freed, fun other mem address length pos covers => ?_⟩
    simp only [Allocator.read, Allocator.free, same other mem address length pos covers]
  written {s t live r address bytes} hb hr some_bytes covers hw := by
    simp only [Allocator.write] at hw
    split at hw
    · cases hw
    · obtain ⟨heap, hh, rfl⟩ := Option.map_eq_some_iff.mp hw
      obtain ⟨stored, same⟩ := hb.write hr some_bytes covers hh
      refine ⟨stored, fun other mem apart address length pos covers => ?_⟩
      simp only [Allocator.read, same other mem apart address length pos covers]

end AppHost.Memory
