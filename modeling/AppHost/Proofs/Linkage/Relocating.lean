import AppHost.Elf.Object
import AppHost.Proofs.Linkage.Housing
import AppHost.Proofs.Memory.Stores
/-! Relocating modules. What a module stores is worked out from its image and the table alone, and
goes to the mapping of its own image, so the order of the modules makes no difference. -/
namespace AppHost

open Memory

def Image.Receives (image : Image) (s : Store) : Prop :=
  s.2.length < 2 ^ 64 ∧ ∃ v, image.translate? v = some s.1

namespace Image

variable {σ : Type} {backs : σ → List Region → Prop} {a : Arena (Audited σ)}

theorem home_of_touched {image : Image} (held : a.Held backs) (housed : image.Housed a) {s : Store}
    (received : image.Receives s) (taken : a.Takes s) {p : Mapping}
    (hp : p ∈ a.mapped) {x : ℕ} (holds : p.promise.Holds x) (touched : s.Touches x) :
    image.base = some p.promise.base := by
  obtain ⟨short, v, translated⟩ := received
  rcases housed with ⟨-, none_there⟩ | ⟨home, hh, base, inside⟩
  · rw [none_there v] at translated
    cases translated
  rcases taken with nothing | checked
  · unfold Store.Touches at touched
    rw [nothing, List.length_nil] at touched
    omega
  · obtain ⟨n, hn, first, covers⟩ := Arena.checkSpan_cases checked
    have at_home : n = home := held.mapping_unique hn hh first (inside v s.1 translated)
    subst at_home
    have span := (held.covers_iff hn).mp covers
    rw [UInt64.toNat_ofNat_of_lt' short] at span
    have ⟨low, high⟩ := touched
    have also : n.promise.Holds x := ⟨by omega, by omega⟩
    rw [held.mapping_unique hp hn holds also]
    exact base

theorem untouched_outside {image : Image} (held : a.Held backs) (housed : image.Housed a)
    {list : List Store} (received : ∀ s ∈ list, image.Receives s) (taken : ∀ s ∈ list, a.Takes s)
    {p : Mapping} (hp : p ∈ a.mapped) (elsewhere : image.base ≠ some p.promise.base) {x : ℕ}
    (holds : p.promise.Holds x) : ∀ s ∈ list, ¬ s.Touches x := by
  intro s hs touched
  exact elsewhere (home_of_touched held housed (received s hs) (taken s hs) hp holds touched)

end Image

namespace Elf.Relocation

variable {cls : Class} {image : Image} {symbols : SymbolTable}

def stores (cls : Class) (image : Image) (symbols : SymbolTable) :
    List Relocation → Except LoadError (List Store)
  | [] => .ok []
  | r :: rest => do
    let patch ← r.patch cls image symbols
    return patch.toList ++ (← stores cls image symbols rest)

theorem length_stored {r : Relocation} {bytes : Bytes}
    (h : r.stored cls image symbols = .ok (some bytes)) : bytes.length ≤ 8 := by
  have width : cls.wordSize ≤ 8 := by cases cls <;> decide
  have mapped {n : ℕ} (small : n ≤ 8) {x : Except LoadError Word} {f : Word → Word}
      (h : x.map (fun s => some (Word.toBytes n (f s))) = .ok (some bytes)) : bytes.length ≤ 8 := by
    cases x with
    | error e => cases h
    | ok s =>
      cases h
      rw [Word.length_toBytes]
      exact small
  unfold stored at h
  split at h
  · cases h
  · exact mapped (by decide) h
  · exact mapped (Nat.le_refl 8) h
  · split at h
    · cases h
      rw [Word.length_toBytes]
      exact width
    · cases h
  · exact mapped width h
  · cases h

theorem patch_some {r : Relocation} {s : Store} (h : r.patch cls image symbols = .ok (some s)) :
    image.Receives s := by
  unfold patch at h
  split at h
  · cases h
  · cases h
  · rename_i bytes stored
    split at h
    · rename_i place translated
      cases h
      exact ⟨Nat.lt_of_le_of_lt (length_stored stored) (by decide), r.offset, translated⟩
    · cases h

theorem stores_into {relocations : List Relocation} {list : List Store}
    (h : stores cls image symbols relocations = .ok list) :
    ∀ s ∈ list, image.Receives s := by
  induction relocations generalizing list with
  | nil =>
    cases h
    nofun
  | cons r rest ih =>
    obtain ⟨patch, first, h⟩ := bind_eq_ok.mp h
    obtain ⟨others, later, h⟩ := bind_eq_ok.mp h
    cases h
    intro s hs
    rcases List.mem_append.mp hs with hs | hs
    · rw [Option.mem_toList.mp hs] at first
      exact patch_some first
    · exact ih later s hs

variable {σ : Type} [Allocator σ] {backs : σ → List Region → Prop} {a b : Arena (Audited σ)}

theorem apply_stored (laws : Storing backs) (h : a.Held backs) {r : Relocation}
    (done : r.apply cls image symbols a = .ok b) :
    ∃ patch, r.patch cls image symbols = .ok patch ∧ a.Stored backs patch.toList b := by
  unfold apply at done
  split at done
  · cases done
  · rename_i nothing
    cases done
    exact ⟨none, nothing, h.stored_none⟩
  · rename_i place bytes patched
    split at done
    · rename_i wrote
      cases done
      exact ⟨some (place, bytes), patched, h.stored_one laws (patch_some patched).1 wrote⟩
    · cases done

/-- However far relocating comes, it made stores into the image, all of them if it succeeds. -/
theorem applyAll_stored (laws : Storing backs) (h : a.Held backs) (relocations : List Relocation) :
    ∃ made, a.Stored backs made (applyAll cls image symbols relocations a).2 ∧
      (∀ s ∈ made, image.Receives s) ∧
      ((applyAll cls image symbols relocations a).1 = .ok () →
        stores cls image symbols relocations = .ok made) := by
  induction relocations generalizing a with
  | nil => exact ⟨[], h.stored_none, nofun, fun _ => rfl⟩
  | cons r rest ih =>
    unfold applyAll
    split
    · rename_i next applied
      obtain ⟨patch, patched, first⟩ := apply_stored laws h applied
      obtain ⟨made, later, into_image, all⟩ := ih first.held
      refine ⟨patch.toList ++ made, first.trans later, ?_, ?_⟩
      · intro s hs
        rcases List.mem_append.mp hs with hs | hs
        · rw [Option.mem_toList.mp hs] at patched
          exact patch_some patched
        · exact into_image s hs
      · intro ok
        simp only [stores, patched, all ok]
        rfl
    · exact ⟨[], h.stored_none, nofun, nofun⟩

theorem applyAll_ok (laws : Storing backs) (accepts : Accepting backs) (h : a.Held backs)
    {relocations : List Relocation} {made : List Store}
    (all : stores cls image symbols relocations = .ok made) (taken : ∀ s ∈ made, a.Takes s) :
    (applyAll cls image symbols relocations a).1 = .ok () := by
  induction relocations generalizing a made with
  | nil => rfl
  | cons r rest ih =>
    obtain ⟨patch, patched, all⟩ := bind_eq_ok.mp all
    obtain ⟨others, later, all⟩ := bind_eq_ok.mp all
    cases all
    obtain ⟨first, taken⟩ := List.forall_mem_append.mp taken
    have applied : ∃ next, r.apply cls image symbols a = .ok next := by
      unfold apply
      rw [patched]
      cases patch with
      | none => exact ⟨a, rfl⟩
      | some s =>
        obtain ⟨next, wrote⟩ := (h.takes_iff accepts (patch_some patched).1).mpr
          (first s (Option.mem_toList.mpr rfl))
        simp only [wrote]
        exact ⟨next, rfl⟩
    obtain ⟨next, applied⟩ := applied
    obtain ⟨_, -, stored⟩ := apply_stored laws h applied
    simp only [applyAll, applied]
    refine ih stored.held later ?_
    intro s hs
    exact (Arena.takes_of_mapped stored.mapped s).mpr (taken s hs)

end Elf.Relocation

namespace Linkage

variable {σ : Type} [Allocator σ] {backs : σ → List Region → Prop} {a b : Arena (Audited σ)}
  {symbols : SymbolTable} {m : LoadedModule (Audited σ)}

/-- A module whose relocation makes stores that are known before, into the module's own image. -/
structure RelocatedBy (backs : σ → List Region → Prop) (symbols : SymbolTable)
    (m : LoadedModule (Audited σ)) (stores : Except LoadError (List Store)) : Prop where
  made : ∀ {a : Arena (Audited σ)} {object}, a.Held backs → m.object = some object →
    ∃ made, a.Stored backs made (object.relocate m.image symbols a).2 ∧
      (∀ s ∈ made, m.image.Receives s) ∧
      ((object.relocate m.image symbols a).1 = .ok () → stores = .ok made)
  succeeds : ∀ {a : Arena (Audited σ)} {object made}, a.Held backs → m.object = some object →
    stores = .ok made → (∀ s ∈ made, a.Takes s) → (object.relocate m.image symbols a).1 = .ok ()
  inside : ∀ {made}, stores = .ok made → ∀ s ∈ made, m.image.Receives s

theorem relocatedBy_elf (laws : Storing backs) (accepts : Accepting backs) {o : Elf.ElfObject}
    (elf : m.object = some o.toObject) :
    RelocatedBy backs symbols m (Elf.Relocation.stores o.cls m.image symbols o.relocations) := by
  constructor
  · intro a object held found
    cases found.symm.trans elf
    exact Elf.Relocation.applyAll_stored laws held o.relocations
  · intro a object made held found all taken
    cases found.symm.trans elf
    exact Elf.Relocation.applyAll_ok laws accepts held all taken
  · intro made all s hs
    exact Elf.Relocation.stores_into all s hs

def storesOf (stores : LoadedModule (Audited σ) → Except LoadError (List Store))
    (m : LoadedModule (Audited σ)) : List Store := (stores m).toOption.getD []

/-- Whether relocating modules can succeed in an arena, whatever their order. -/
def AllTaken (stores : LoadedModule (Audited σ) → Except LoadError (List Store))
    (modules : List (LoadedModule (Audited σ))) (a : Arena (Audited σ)) : Prop :=
  ∀ m ∈ modules, ∃ made, stores m = .ok made ∧ ∀ s ∈ made, a.Takes s

variable {stores : LoadedModule (Audited σ) → Except LoadError (List Store)}
  {modules other : List (LoadedModule (Audited σ))}

theorem allTaken_cons : AllTaken stores (m :: modules) a ↔
    (∃ made, stores m = .ok made ∧ ∀ s ∈ made, a.Takes s) ∧ AllTaken stores modules a :=
  List.forall_mem_cons

theorem allTaken_of_mapped (mapped : b.mapped = a.mapped) :
    AllTaken stores modules b ↔ AllTaken stores modules a := by
  simp only [AllTaken, Arena.takes_of_mapped mapped]

theorem Relocates.outcome {outcome : Except LoadError Unit}
    (run : Relocates symbols modules a outcome b) (held : a.Held backs)
    (known : ∀ m ∈ modules, RelocatedBy backs symbols m (stores m)) :
    (outcome = .ok () ↔ AllTaken stores modules a) ∧
      (outcome = .ok () → a.Stored backs (modules.flatMap (storesOf stores)) b) := by
  induction run with
  | done a =>
    constructor
    · exact iff_of_true rfl nofun
    · intro _
      exact held.stored_none
  | @next m rest object a b c outcome parsed moved others ih =>
    obtain ⟨first, later⟩ := List.forall_mem_cons.mp known
    obtain ⟨made, stored, -, all⟩ := first.made held parsed
    rw [moved] at stored all
    have stores_m : stores m = .ok made := all rfl
    obtain ⟨succeeds, stored'⟩ := ih stored.held later
    constructor
    · rw [succeeds, allTaken_cons, allTaken_of_mapped stored.mapped]
      exact (and_iff_right ⟨made, stores_m, stored.taken⟩).symm
    · intro ok
      have own : storesOf stores m = made := by
        unfold storesOf
        rw [stores_m]
        rfl
      rw [List.flatMap_cons, own]
      exact stored.trans (stored' ok)
  | @stop m rest object a b e parsed failed =>
    obtain ⟨first, -⟩ := List.forall_mem_cons.mp known
    constructor
    · refine iff_of_false nofun ?_
      intro taken
      -- had the arena taken every store, this module would not have failed
      obtain ⟨made, all, taken⟩ := (allTaken_cons.mp taken).1
      have ok := first.succeeds held parsed all taken
      rw [failed] at ok
      cases ok
    · nofun

/-- What relocating leaves at an address does not depend on the order of the modules. -/
theorem bytes_of_order {l : Linkage (Audited σ)} (held : l.arena.Held backs) (housed : l.Housed)
    (known : ∀ m ∈ l.modules, RelocatedBy backs symbols m (stores m))
    (taken : AllTaken stores l.modules l.arena) (perm : l.modules.Perm other) {p : Mapping}
    (hp : p ∈ l.arena.mapped) {x : ℕ} (holds : p.promise.Holds x) (byte : UInt8) :
    (l.modules.flatMap (storesOf stores)).foldl (Store.put x) byte =
      (other.flatMap (storesOf stores)).foldl (Store.put x) byte := by
  have outside (m) (hm : m ∈ l.modules) (elsewhere : m.image.base ≠ some p.promise.base) :
      ∀ s ∈ storesOf stores m, ¬ s.Touches x := by
    obtain ⟨made, all, takes⟩ := taken m hm
    have own : storesOf stores m = made := by
      unfold storesOf
      rw [all]
      rfl
    rw [own]
    exact Image.untouched_outside held (housed.homes m hm) ((known m hm).inside all) takes hp
      elsewhere
      holds
  rw [List.foldl_flatMap, List.foldl_flatMap]
  refine Store.foldl_put_perm perm ?_ byte
  intro m hm n hn ne
  by_cases here : m.image.base = some p.promise.base
  · right
    refine outside n hn ?_
    have symmetric : Std.Symm fun m n : LoadedModule (Audited σ) =>
        ∀ base, m.image.base = some base → n.image.base ≠ some base :=
      ⟨fun _ _ apart base there here => apart base here there⟩
    exact housed.own.forall hm hn ne _ here
  · left
    exact outside m hm here

theorem held_of_writes (laws : Storing backs) (held : a.Held backs) (writes : List Store) :
    (a.run (writes.map fun s => .write s.1 s.2)).Held backs ∧
      (a.run (writes.map fun s => .write s.1 s.2)).mapped = a.mapped := by
  induction writes generalizing a with
  | nil => exact ⟨held, rfl⟩
  | cons s rest ih =>
    rw [List.map_cons, Arena.run_cons]
    rcases a.perform_write_cases s.1 s.2 with eq | ⟨t, some_bytes, checked, wrote, eq⟩ <;> rw [eq]
    · exact ih held
    · obtain ⟨m, hm, -, covers⟩ := Arena.checkSpan_cases checked
      exact ih (held.write laws.toBacking hm some_bytes covers wrote).1

theorem relocate_confined (laws : Storing backs) (held : a.Held backs) (housed : m.image.Housed a)
    {object : Object (Audited σ)} {stores : Except LoadError (List Store)}
    (known : RelocatedBy backs symbols m stores) (found : m.object = some object) {address : Word}
    (elsewhere : ∀ p ∈ a.mapped, p.promise.Holds address.toNat →
      m.image.base ≠ some p.promise.base) (length : Word) :
    (object.relocate m.image symbols a).2.read address length = a.read address length := by
  obtain ⟨made, stored, received, -⟩ := known.made held found
  refine held.read_same laws stored.held stored.mapped ?_ length
  intro p hp first x holds
  have untouched :=
    Image.untouched_outside held housed received stored.taken hp (elsewhere p hp first) holds
  rw [stored.bytes p hp x holds, Store.foldl_put_untouched untouched]

/-- Whatever a linkage of ELF modules went through before it is linked, if no image was unmapped:
with its modules in another order linking succeeds or fails as before, and when it succeeds every
read has the same answer. Each image has a mapping of its own, and the relocation of a module,
whatever was written before and however far it comes, shows in that mapping only. -/
theorem relocation_free_of_order (laws : Storing backs) (accepts : Accepting backs) (pid : Pid)
    {s : σ} (fresh : backs s []) (earlier : List Operation) (parser : ObjectParser (Audited σ))
    (policy : CollisionPolicy) (calls : List LinkageCall)
    (modules : List (LoadedModule (Audited σ))) :
    let start := Linkage.empty ((Arena.empty pid (Audited.ofAllocator s)).run earlier) parser policy
    let l := start.after calls
    let l' := { l with modules }
    l.attempted = false → l.arena.allocator.Kept → start.SparesImages calls →
    (∀ m ∈ l.modules, ∃ o : Elf.ElfObject, m.object = some o.toObject) → l.modules.Perm modules →
    l.Housed ∧ (l'.link.1 = .ok () ↔ l.link.1 = .ok ()) ∧
      (l.link.1 = .ok () → l'.link.2.arena.mapped = l.link.2.arena.mapped ∧
        l'.link.2.arena.actual = l.link.2.arena.actual ∧
        ∀ address length,
          l'.link.2.arena.read address length = l.link.2.arena.read address length) ∧
      ∀ m ∈ l.modules, ∀ object, m.object = some object → ∀ writes : List Store,
        let b := l.arena.run (writes.map fun w => .write w.1 w.2)
        let r := object.relocate m.image l.symbols b
        r.2.mapped = b.mapped ∧ r.2.actual = b.actual ∧
          ∀ address length, (∀ p ∈ l.arena.mapped, p.promise.Holds address.toNat →
            m.image.base ≠ some p.promise.base) →
              r.2.read address length = b.read address length := by
  intro start l l' first kept spared elf perm
  have reached : (Arena.empty pid (Audited.ofAllocator s)).Reaches start.arena := ⟨earlier, rfl⟩
  have lived : start.arena.Reaches l.arena := after_reaches start calls
  have begun : start.arena.Held backs :=
    (Arena.held_empty pid fresh).reaches laws.toBacking reached (lived.kept kept)
  have held : l.arena.Held backs := begun.reaches laws.toBacking lived kept
  have unlinked : .link ∉ calls := by
    intro called
    rw [(start.attempted_after calls).mpr (Or.inr called)] at first
    cases first
  have housed : l.Housed :=
    (housed_empty _ parser policy).after laws.toBacking begun kept unlinked spared
  have relocated (m) (hm : m ∈ l.modules) : ∃ stores, RelocatedBy backs l.symbols m stores := by
    obtain ⟨o, found⟩ := elf m hm
    exact ⟨_, relocatedBy_elf laws accepts found⟩
  -- what a module stores is known before any of them is relocated, so no order can change it
  choose! stores known using relocated
  have objects (m) (hm : m ∈ l.modules) : ∃ object, m.object = some object := by
    obtain ⟨o, found⟩ := elf m hm
    exact ⟨_, found⟩
  obtain ⟨outcome, arena, journal, eq, run⟩ := link_first first
  obtain ⟨outcome', arena', journal', eq', run'⟩ := link_first (l := l') first
  obtain ⟨succeeds, stored⟩ := (run objects).outcome held known
  obtain ⟨succeeds', stored'⟩ := (run' fun m hm => objects m (perm.mem_iff.mpr hm)).outcome held
    fun m hm => known m (perm.mem_iff.mpr hm)
  have same : AllTaken stores l'.modules l.arena ↔ AllTaken stores l.modules l.arena :=
    forall_congr' fun m => imp_congr_left perm.mem_iff.symm
  refine ⟨housed, ?_, ?_, ?_⟩
  · rw [eq, eq']
    exact succeeds'.trans (same.trans succeeds.symm)
  · rw [eq, eq']
    intro ok
    have ok' : outcome' = .ok () := succeeds'.mpr (same.mpr (succeeds.mp ok))
    have one := stored ok
    have two := stored' ok'
    have mapped := two.mapped.trans one.mapped.symm
    refine ⟨mapped, two.actual.trans one.actual.symm, ?_⟩
    intro address length
    refine one.held.read_same laws two.held mapped ?_ length
    intro p hp _ x holds
    rw [one.mapped] at hp
    rw [one.bytes p hp x holds, two.bytes p hp x holds]
    exact (bytes_of_order held housed known (succeeds.mp ok) perm hp holds _).symm
  · intro m hm object found writes b r
    obtain ⟨held', mapped⟩ := held_of_writes laws held writes
    obtain ⟨made, stored, -⟩ := (known m hm).made held' found
    refine ⟨stored.mapped, stored.actual, ?_⟩
    intro address length elsewhere
    have home : m.image.Housed b := (housed.homes m hm).of_subset fun p hp => mapped ▸ hp
    exact relocate_confined laws held' home (known m hm) found
      (fun p hp => elsewhere p (mapped ▸ hp)) length

theorem elf_modules {parser : ObjectParser σ} (elf : ∀ bytes object, parser bytes = .ok object →
    ∃ o : Elf.ElfObject, object = o.toObject) (arena : Arena σ) (policy : CollisionPolicy)
    (calls : List LinkageCall)
    (first : ((empty arena parser policy).after calls).attempted = false) :
    ∀ m ∈ ((empty arena parser policy).after calls).modules, ∃ o : Elf.ElfObject,
      m.object = some o.toObject := by
  intro m hm
  have coherent := lifelong_coherent.after (coherent_empty arena parser policy) calls
  obtain ⟨object, bytes, found, parsed⟩ := coherent.parsed first m hm
  rw [parser_after] at parsed
  obtain ⟨o, rfl⟩ := elf bytes object parsed
  exact ⟨o, found⟩

/-- Two modules that store addresses of each other and of themselves, linked either way round; a
third mapping was there before them and another one is gone. -/
theorem same_bytes_in_either_order :
    let first : Elf.ElfObject := ⟨.bits64, [⟨0x1000, 32, 8, [1, 2, 3], .readWrite⟩], ["two"],
      [⟨"one", 0x1000, false⟩], some 0x1000,
      [⟨0x1008, .absolute64, 1, some ⟨"two", none, false⟩⟩, ⟨0x100c, .relative, 0x1001, none⟩]⟩
    let second : Elf.ElfObject := ⟨.bits64, [⟨0x2000, 16, 8, [4], .readWrite⟩], [],
      [⟨"two", 0x2004, false⟩], none, [⟨0x2008, .jumpSlot, 0, some ⟨"one", none, false⟩⟩]⟩
    let parser : ObjectParser (Audited HostHeap) := fun bytes =>
      .ok (if bytes.isEmpty then first.toObject else second.toObject)
    let heap := HostHeap.empty none fun n _ => 0x10000 * UInt64.ofNat (n + 1)
    let start := Linkage.empty ((Arena.empty 1 (Audited.ofAllocator heap)).run
      [.map 8 .readWrite 1, .map 8 .readWrite 1]) parser .lastWins
    let calls : List LinkageCall := [.loadExecutable "one" (.ok []), .memory (.unmap 0x20000),
      .loadLibrary "two" (.ok [0])]
    let l := start.after calls
    let l' := { l with modules := l.modules.reverse }
    l.filenames = ["one", "two"] ∧ l.link.1 = .ok () ∧ l'.link.1 = .ok () ∧
      l.link.2.arena.read 0x30008 8 = .ok [5, 0, 4, 0, 1, 0, 3, 0] ∧
      l'.link.2.arena.read 0x30008 8 = l.link.2.arena.read 0x30008 8 ∧
      l'.link.2.arena.read 0x40000 16 = l.link.2.arena.read 0x40000 16 ∧
      l.Housed := by
  intro first second parser heap start calls l l'
  have spared : start.SparesImages calls := by
    refine ⟨nofun, ?_, nofun, trivial⟩
    intro base eq
    cases eq
    decide
  have elf : ∀ m ∈ l.modules, ∃ o : Elf.ElfObject, m.object = some o.toObject := by
    refine elf_modules ?_ _ _ calls (by decide)
    intro bytes object parsed
    cases bytes <;> cases parsed <;> exact ⟨_, rfl⟩
  obtain ⟨housed, either, same, -⟩ := relocation_free_of_order HostHeap.storing HostHeap.accepting 1
    (Heap.backs_empty none) [.map 8 .readWrite 1, .map 8 .readWrite 1] parser .lastWins calls
    l.modules.reverse (by decide) (by decide) spared elf l.modules.reverse_perm.symm
  have linked : l.link.1 = .ok () := by decide
  obtain ⟨-, -, reads⟩ := same linked
  exact ⟨by decide, linked, either.mpr linked, by decide, reads _ _, reads _ _, housed⟩

end Linkage

end AppHost
