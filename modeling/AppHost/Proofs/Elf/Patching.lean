import AppHost.Proofs.Linkage.Relocating
/-! What relocations do to memory. Each stores one little-endian word, the last one that covers an
address decides the byte there, and the first one that has no value, no place or no room is the one
reported. -/
namespace AppHost

open Memory

def Word.byte (a : Word) (i : ℕ) : UInt8 := UInt8.ofNat (a.toNat / 256 ^ i)

theorem Word.getD_toBytes {width i : ℕ} (h : i < width) (a : Word) :
    (toBytes width a).getD i 0 = a.byte i := by
  induction width generalizing a i with
  | zero => omega
  | succ width ih =>
    cases i with
    | zero =>
      rw [toBytes, List.getD_cons_zero, byte, Nat.pow_zero, Nat.div_one]
      rfl
    | succ i =>
      have shifted : (a >>> 8).toNat = a.toNat / 256 := by
        rw [UInt64.toNat_shiftRight]
        exact Nat.shiftRight_eq_div_pow a.toNat 8
      rw [toBytes, List.getD_cons_succ, ih (by omega), byte, byte, shifted, Nat.div_div_eq_div_mul,
        Nat.pow_succ']

namespace Elf

inductive RelocationKind.UsesSymbol : RelocationKind → Prop where
  | absolute32 : UsesSymbol .absolute32
  | absolute64 : UsesSymbol .absolute64
  | jumpSlot : UsesSymbol .jumpSlot

namespace Relocation

section Values

variable (cls : Class) (image : Image) (symbols : SymbolTable)

/-- What a symbol resolves to: what the shared table has for its name, else the object's own
definition where it was placed, else zero for a weak symbol. No symbol is zero. -/
inductive Resolves : Option RelocationSymbol → Except LoadError Word → Prop where
  | absent : Resolves none (.ok 0)
  | shared {s address} (found : symbols.get? s.name = some address) :
      Resolves (some s) (.ok address)
  | own {s vaddr address} (missing : symbols.get? s.name = none) (defined : s.own = some vaddr)
      (placed : image.translate? vaddr = some address) : Resolves (some s) (.ok address)
  | outside {s vaddr} (missing : symbols.get? s.name = none) (defined : s.own = some vaddr)
      (nowhere : image.translate? vaddr = none) : Resolves (some s) (.error (.invalid .localSymbol))
  | weak {s} (missing : symbols.get? s.name = none) (undefined : s.own = none)
      (weak : s.weak = true) : Resolves (some s) (.ok 0)
  | undefined {s} (missing : symbols.get? s.name = none) (undefined : s.own = none)
      (strong : s.weak = false) : Resolves (some s) (.error (.unresolvedSymbol s.name))

/-- The width in bytes and the value of the word that a relocation stores. -/
inductive Yields (r : Relocation) : ℕ → Word → Prop where
  | absolute32 {s} (kind : r.kind = .absolute32)
      (symbol : Resolves image symbols r.symbol (.ok s)) : Yields r 4 (s + r.addend)
  | absolute64 {s} (kind : r.kind = .absolute64)
      (symbol : Resolves image symbols r.symbol (.ok s)) : Yields r 8 (s + r.addend)
  | relative {target} (kind : r.kind = .relative)
      (placed : image.translate? r.addend = some target) : Yields r cls.wordSize target
  | jumpSlot {s} (kind : r.kind = .jumpSlot) (symbol : Resolves image symbols r.symbol (.ok s)) :
      Yields r cls.wordSize s

inductive Lacks (r : Relocation) : LoadError → Prop where
  | unsupported {code} (kind : r.kind = .other code) : Lacks r (.unsupportedRelocation code)
  | symbol {e} (uses : r.kind.UsesSymbol)
      (unresolved : Resolves image symbols r.symbol (.error e)) : Lacks r e
  | addend (kind : r.kind = .relative) (nowhere : image.translate? r.addend = none) :
      Lacks r (.invalid .relativeAddend)

structure Patches (r : Relocation) (place : Word) (width : ℕ) (value : Word) : Prop where
  yields : r.Yields cls image symbols width value
  placed : image.translate? r.offset = some place

def Covers (r : Relocation) (x : ℕ) : Prop :=
  ∃ place width value, r.Patches cls image symbols place width value ∧
    place.toNat ≤ x ∧ x < place.toNat + width

/-- What relocations leave at an address where `byte` was: the byte of the last word there, or the
byte that was there if none is. -/
inductive Leaves (relocations : List Relocation) (x : ℕ) (byte : UInt8) : UInt8 → Prop where
  | last {before r after place width value} (split : relocations = before ++ r :: after)
      (patches : r.Patches cls image symbols place width value) (above : place.toNat ≤ x)
      (below : x < place.toNat + width) (latest : ∀ t ∈ after, ¬ t.Covers cls image symbols x) :
      Leaves relocations x byte (value.byte (x - place.toNat))
  | unchanged (uncovered : ∀ r ∈ relocations, ¬ r.Covers cls image symbols x) :
      Leaves relocations x byte byte

/-- Why a relocation does not go through in an arena. -/
inductive Fails {σ : Type} [Allocator σ] (a : Arena σ) (r : Relocation) : LoadError → Prop where
  | value {e} (lacks : r.Lacks image symbols e) : Fails a r e
  | target {width value} (yields : r.Yields cls image symbols width value)
      (nowhere : image.translate? r.offset = none) : Fails a r (.invalid .relocationTarget)
  | refused {place width value e} (patches : r.Patches cls image symbols place width value)
      (refused : a.write place (Word.toBytes width value) = .error e) : Fails a r (.access e)

end Values

variable {cls : Class} {image : Image} {symbols : SymbolTable} {r : Relocation}

theorem resolves_iff {symbol : Option RelocationSymbol} {result : Except LoadError Word} :
    Resolves image symbols symbol result ↔ symbolValue symbol image symbols = result := by
  constructor
  · intro h
    cases h with
    | absent => rfl
    | shared found => simp only [symbolValue, found]
    | own missing defined place => simp only [symbolValue, missing, defined, place]
    | outside missing defined nowhere => simp only [symbolValue, missing, defined, nowhere]
    | weak missing undefined weak => simp [symbolValue, missing, undefined, weak]
    | undefined missing undefined strong => simp [symbolValue, missing, undefined, strong]
  · rintro rfl
    unfold symbolValue
    split
    · exact .absent
    · split
      · rename_i found
        exact .shared found
      · rename_i missing defined
        split
        · rename_i placed
          exact .own missing defined placed
        · rename_i nowhere
          exact .outside missing defined nowhere
      · rename_i missing undefined
        split
        · rename_i weak
          exact .weak missing undefined weak
        · rename_i strong
          exact .undefined missing undefined (Bool.eq_false_iff.mpr strong)

theorem stored_of_yields {width : ℕ} {value : Word} (h : r.Yields cls image symbols width value) :
    r.stored cls image symbols = .ok (some (Word.toBytes width value)) := by
  cases h with
  | absolute32 kind symbol | absolute64 kind symbol | jumpSlot kind symbol =>
    simp only [stored, kind, resolves_iff.mp symbol, Except.map]
  | relative kind placed => simp only [stored, kind, placed]

theorem stored_of_lacks {e : LoadError} (h : r.Lacks image symbols e) :
    r.stored cls image symbols = .error e := by
  cases h with
  | unsupported kind => simp only [stored, kind]
  | symbol uses unresolved =>
    rw [resolves_iff] at unresolved
    cases kind : r.kind <;> rw [kind] at uses <;> cases uses <;>
      simp only [stored, kind, unresolved, Except.map]
  | addend kind nowhere => simp only [stored, kind, nowhere]

theorem value_cases (cls : Class) (image : Image) (symbols : SymbolTable) (r : Relocation) :
    r.kind = .none ∨ (∃ width value, r.Yields cls image symbols width value) ∨
      ∃ e, r.Lacks image symbols e := by
  have of_symbol (uses : r.kind.UsesSymbol) (yields : ∀ s, Resolves image symbols r.symbol (.ok s) →
      ∃ width value, r.Yields cls image symbols width value) :
      (∃ width value, r.Yields cls image symbols width value) ∨ ∃ e, r.Lacks image symbols e := by
    cases symbol : symbolValue r.symbol image symbols with
    | ok s => exact Or.inl (yields s (resolves_iff.mpr symbol))
    | error e => exact Or.inr ⟨e, .symbol uses (resolves_iff.mpr symbol)⟩
  cases kind : r.kind with
  | none => exact Or.inl rfl
  | absolute32 =>
    exact Or.inr (of_symbol (kind ▸ .absolute32) fun _ h => ⟨_, _, .absolute32 kind h⟩)
  | absolute64 =>
    exact Or.inr (of_symbol (kind ▸ .absolute64) fun _ h => ⟨_, _, .absolute64 kind h⟩)
  | jumpSlot => exact Or.inr (of_symbol (kind ▸ .jumpSlot) fun _ h => ⟨_, _, .jumpSlot kind h⟩)
  | relative =>
    cases placed : image.translate? r.addend with
    | some target => exact Or.inr (Or.inl ⟨_, _, .relative kind placed⟩)
    | none => exact Or.inr (Or.inr ⟨_, .addend kind placed⟩)
  | other code => exact Or.inr (Or.inr ⟨_, .unsupported kind⟩)

theorem patch_of_patches {place : Word} {width : ℕ} {value : Word}
    (h : r.Patches cls image symbols place width value) :
    r.patch cls image symbols = .ok (some (place, Word.toBytes width value)) := by
  simp only [patch, stored_of_yields h.yields, h.placed]

theorem patch_none_of_none (kind : r.kind = .none) : r.patch cls image symbols = .ok none := by
  simp only [patch, stored, kind]

theorem patch_cases (cls : Class) (image : Image) (symbols : SymbolTable) (r : Relocation) :
    r.kind = .none ∨ (∃ place width value, r.Patches cls image symbols place width value) ∨
      (∃ width value, r.Yields cls image symbols width value ∧ image.translate? r.offset = none) ∨
      ∃ e, r.Lacks image symbols e := by
  rcases value_cases cls image symbols r with kind | ⟨width, value, yields⟩ | lacks
  · exact Or.inl kind
  · cases placed : image.translate? r.offset with
    | some place => exact Or.inr (Or.inl ⟨place, width, value, yields, placed⟩)
    | none => exact Or.inr (Or.inr (Or.inl ⟨width, value, yields, rfl⟩))
  · exact Or.inr (Or.inr (Or.inr lacks))

theorem patch_some_iff {s : Store} : r.patch cls image symbols = .ok (some s) ↔
    ∃ place width value, r.Patches cls image symbols place width value ∧
      s = (place, Word.toBytes width value) := by
  constructor
  · intro h
    rcases patch_cases cls image symbols r with
      kind | ⟨place, width, value, patches⟩ | ⟨width, value, yields, nowhere⟩ | ⟨e, lacks⟩
    · rw [patch_none_of_none kind] at h
      cases h
    · rw [patch_of_patches patches] at h
      cases h
      exact ⟨place, width, value, patches, rfl⟩
    · simp only [patch, stored_of_yields yields, nowhere] at h
      cases h
    · simp only [patch, stored_of_lacks lacks] at h
      cases h
  · rintro ⟨place, width, value, patches, rfl⟩
    exact patch_of_patches patches

variable {σ : Type} [Allocator σ] {a b : Arena σ}

theorem apply_of_fails {e : LoadError} (h : r.Fails cls image symbols a e) :
    r.apply cls image symbols a = .error e := by
  cases h with
  | value lacks => simp only [apply, patch, stored_of_lacks lacks]
  | target yields nowhere => simp only [apply, patch, stored_of_yields yields, nowhere]
  | refused patches refused => simp only [apply, patch_of_patches patches, refused]

theorem apply_error_iff {e : LoadError} :
    r.apply cls image symbols a = .error e ↔ r.Fails cls image symbols a e := by
  refine ⟨?_, apply_of_fails⟩
  intro h
  have only {e' : LoadError} (fails : r.Fails cls image symbols a e') :
      r.Fails cls image symbols a e := by
    rw [apply_of_fails fails] at h
    cases h
    exact fails
  rcases patch_cases cls image symbols r with
    kind | ⟨place, width, value, patches⟩ | ⟨width, value, yields, nowhere⟩ | ⟨e', lacks⟩
  · simp only [apply, patch_none_of_none kind] at h
    cases h
  · cases wrote : a.write place (Word.toBytes width value) with
    | ok b =>
      simp only [apply, patch_of_patches patches, wrote] at h
      cases h
    | error e' => exact only (.refused patches wrote)
  · exact only (.target yields nowhere)
  · exact only (.value lacks)

theorem applyAll_append {first : List Relocation}
    (through : applyAll cls image symbols first a = (.ok (), b)) (rest : List Relocation) :
    applyAll cls image symbols (first ++ rest) a = applyAll cls image symbols rest b := by
  induction first generalizing a with
  | nil =>
    cases through
    rfl
  | cons r first ih =>
    unfold applyAll at through
    split at through
    · rename_i applied
      simp only [List.cons_append, applyAll, applied]
      exact ih through
    · cases through

/-- Relocating stops with the first relocation that fails where the ones before it lead to. -/
theorem applyAll_error_iff {relocations : List Relocation} {e : LoadError} :
    applyAll cls image symbols relocations a = (.error e, b) ↔
      ∃ first q rest, relocations = first ++ q :: rest ∧
        applyAll cls image symbols first a = (.ok (), b) ∧ q.Fails cls image symbols b e := by
  constructor
  · intro stopped
    induction relocations generalizing a with
    | nil => cases stopped
    | cons r rest ih =>
      unfold applyAll at stopped
      split at stopped
      · rename_i applied
        obtain ⟨first, q, rest, rfl, through, fails⟩ := ih stopped
        refine ⟨r :: first, q, rest, rfl, ?_, fails⟩
        simp only [applyAll, applied]
        exact through
      · rename_i applied
        cases stopped
        exact ⟨[], r, rest, rfl, rfl, apply_error_iff.mp applied⟩
  · rintro ⟨first, q, rest, rfl, through, fails⟩
    rw [applyAll_append through]
    simp only [applyAll, apply_of_fails fails]

theorem put_of_patches {patch : Option Store} (patched : r.patch cls image symbols = .ok patch)
    {place : Word} {width : ℕ} {value : Word} (h : r.Patches cls image symbols place width value)
    {x : ℕ} (above : place.toNat ≤ x) (below : x < place.toNat + width) (byte : UInt8) :
    patch.toList.foldl (Store.put x) byte = value.byte (x - place.toNat) := by
  rw [patch_of_patches h] at patched
  cases patched
  have touched : Store.Touches (place, Word.toBytes width value) x :=
    ⟨above, by rwa [Word.length_toBytes]⟩
  have inside : x - place.toNat < width := by omega
  rw [← Word.getD_toBytes inside]
  exact if_pos touched

theorem put_of_uncovered {patch : Option Store} (patched : r.patch cls image symbols = .ok patch)
    {x : ℕ} (uncovered : ¬ r.Covers cls image symbols x) (byte : UInt8) :
    patch.toList.foldl (Store.put x) byte = byte := by
  apply Store.foldl_put_untouched
  intro s hs touched
  rw [Option.mem_toList.mp hs] at patched
  obtain ⟨place, width, value, patches, rfl⟩ := patch_some_iff.mp patched
  obtain ⟨above, below⟩ := touched
  rw [Word.length_toBytes] at below
  exact uncovered ⟨place, width, value, patches, above, below⟩

theorem leaves_cons_iff {patch : Option Store} (patched : r.patch cls image symbols = .ok patch)
    {rest : List Relocation} {x : ℕ} {byte final : UInt8} :
    Leaves cls image symbols (r :: rest) x byte final ↔
      Leaves cls image symbols rest x (patch.toList.foldl (Store.put x) byte) final := by
  constructor
  · intro h
    cases h with
    | @last before q after place width value split patches above below latest =>
      cases before with
      | nil =>
        cases split
        rw [put_of_patches patched patches above below]
        exact .unchanged latest
      | cons p before =>
        cases split
        exact .last rfl patches above below latest
    | unchanged uncovered =>
      obtain ⟨first, later⟩ := List.forall_mem_cons.mp uncovered
      rw [put_of_uncovered patched first]
      exact .unchanged later
  · intro h
    cases h with
    | @last before q after place width value split patches above below latest =>
      have split : r :: rest = (r :: before) ++ q :: after := congrArg (r :: ·) split
      exact .last split patches above below latest
    | unchanged later =>
      by_cases covers : r.Covers cls image symbols x
      · obtain ⟨place, width, value, patches, above, below⟩ := covers
        rw [put_of_patches patched patches above below]
        exact .last (List.nil_append (r :: rest)).symm patches above below later
      · rw [put_of_uncovered patched covers]
        exact .unchanged (List.forall_mem_cons.mpr ⟨covers, later⟩)

theorem leaves_iff {relocations : List Relocation} {made : List Store}
    (h : stores cls image symbols relocations = .ok made) {x : ℕ} {byte final : UInt8} :
    Leaves cls image symbols relocations x byte final ↔
      made.foldl (Store.put x) byte = final := by
  induction relocations generalizing made byte with
  | nil =>
    cases h
    constructor
    · intro left
      cases left with
      | last split => simp at split
      | unchanged => rfl
    · rintro rfl
      apply Leaves.unchanged
      intro r hr
      cases hr
  | cons r rest ih =>
    obtain ⟨patch, patched, h⟩ := bind_eq_ok.mp h
    obtain ⟨others, later, h⟩ := bind_eq_ok.mp h
    cases h
    rw [leaves_cons_iff patched, ih later, List.foldl_append]

section Accepting

variable {backs : σ → List Region → Prop} {a b : Arena (Audited σ)}

theorem Patches.width_le {place : Word} {width : ℕ} {value : Word}
    (h : r.Patches cls image symbols place width value) : width ≤ 8 := by
  have short := length_stored (stored_of_yields h.yields)
  rwa [Word.length_toBytes] at short

theorem applyAll_held (laws : Storing backs) (h : a.Held backs) {relocations : List Relocation}
    {outcome : Except LoadError Unit}
    (eq : applyAll cls image symbols relocations a = (outcome, b)) :
    b.Held backs ∧ b.mapped = a.mapped := by
  obtain ⟨made, stored, -⟩ : ∃ made,
      a.Stored backs made (applyAll cls image symbols relocations a).2 ∧ _ :=
    applyAll_stored laws h relocations
  rw [eq] at stored
  exact ⟨stored.held, stored.mapped⟩

/-- Where the host accepts every write into a mapping, what fails is decided by the mappings. -/
theorem fails_of_mapped (accepts : Accepting backs) (h : a.Held backs) (i : b.Held backs)
    (mapped : b.mapped = a.mapped) {e : LoadError} (fails : r.Fails cls image symbols a e) :
    r.Fails cls image symbols b e := by
  cases fails with
  | value lacks => exact .value lacks
  | target yields nowhere => exact .target yields nowhere
  | @refused place width value e patches refused =>
    refine .refused patches ?_
    have short : (Word.toBytes width value).length < 2 ^ 64 := by
      have small := patches.width_le
      rw [Word.length_toBytes]
      omega
    exact (Arena.write_error_of_mapped accepts h i mapped short).mp refused

theorem applyAll_ok_iff (laws : Storing backs) (accepts : Accepting backs) (h : a.Held backs)
    {relocations : List Relocation} :
    (applyAll cls image symbols relocations a).1 = .ok () ↔
      ∀ q ∈ relocations, ∀ e, ¬ q.Fails cls image symbols a e := by
  induction relocations generalizing a with
  | nil =>
    apply iff_of_true rfl
    intro q hq
    cases hq
  | cons r rest ih =>
    rw [List.forall_mem_cons]
    cases applied : r.apply cls image symbols a with
    | error e =>
      have stopped : (applyAll cls image symbols (r :: rest) a).1 = .error e := by
        simp only [applyAll, applied]
      constructor
      · intro ok
        rw [stopped] at ok
        cases ok
      · intro none_fails
        exact absurd (apply_error_iff.mp applied) (none_fails.1 e)
    | ok next =>
      obtain ⟨_, -, stored⟩ := apply_stored laws h applied
      have first : ∀ e, ¬ r.Fails cls image symbols a e := by
        intro e fails
        rw [apply_of_fails fails] at applied
        cases applied
      simp only [applyAll, applied]
      rw [ih stored.held, and_iff_right first]
      refine forall₂_congr fun q _ => forall_congr' fun e => not_congr ?_
      constructor
      · apply fails_of_mapped accepts stored.held h stored.mapped.symm
      · apply fails_of_mapped accepts h stored.held stored.mapped

theorem applyAll_error_iff_exists (laws : Storing backs) (accepts : Accepting backs)
    (h : a.Held backs) {relocations : List Relocation} :
    (∃ e, (applyAll cls image symbols relocations a).1 = .error e) ↔
      ∃ q ∈ relocations, ∃ e, q.Fails cls image symbols a e := by
  have ok : (applyAll cls image symbols relocations a).1 = .ok () ↔
      ∀ q ∈ relocations, ∀ e, ¬ q.Fails cls image symbols a e := applyAll_ok_iff laws accepts h
  constructor
  · rintro ⟨e, failed⟩
    by_contra none_fails
    push Not at none_fails
    rw [ok.mpr none_fails] at failed
    cases failed
  · rintro ⟨q, hq, e, fails⟩
    cases outcome : (applyAll cls image symbols relocations a).1 with
    | ok => exact absurd fails (ok.mp outcome q hq e)
    | error e' => exact ⟨e', rfl⟩

theorem applyAll_first_error_iff (laws : Storing backs) (accepts : Accepting backs)
    (h : a.Held backs) {relocations : List Relocation} {e : LoadError} :
    (applyAll cls image symbols relocations a).1 = .error e ↔
      ∃ first q rest, relocations = first ++ q :: rest ∧ q.Fails cls image symbols a e ∧
        ∀ p ∈ first, ∀ e', ¬ p.Fails cls image symbols a e' := by
  constructor
  · intro failed
    obtain ⟨first, q, rest, split, through, fails⟩ := applyAll_error_iff.mp (Prod.ext failed rfl)
    -- what was stored on the way changes no mapping, and mappings alone decide what fails
    obtain ⟨held, mapped⟩ := applyAll_held laws h through
    refine ⟨first, q, rest, split, ?_, ?_⟩
    · exact fails_of_mapped accepts held h mapped.symm fails
    · exact (applyAll_ok_iff laws accepts h).mp (congrArg Prod.fst through)
  · rintro ⟨first, q, rest, split, fails, through⟩
    have through : applyAll cls image symbols first a = (.ok (), _) :=
      Prod.ext ((applyAll_ok_iff laws accepts h).mpr through) rfl
    obtain ⟨held, mapped⟩ := applyAll_held laws h through
    have failed := applyAll_error_iff.mpr
      ⟨first, q, rest, split, through, fails_of_mapped accepts h held mapped fails⟩
    exact congrArg Prod.fst failed

end Accepting

end Relocation

namespace ElfObject

open Relocation

variable {σ : Type} [Allocator σ] {backs : σ → List Region → Prop}

/-- Relocating an object leaves the lists of the arena alone. If it succeeds, every byte of memory
is that of the last word there, or as it was; and it stops with the first entry that fails. Where
the host accepts every write into a mapping, it fails exactly if some entry does where relocating
began. -/
theorem relocation_leaves_last_words (laws : Storing backs) {s : σ} (fresh : backs s [])
    (pid : Pid) (earlier : List Operation) (o : ElfObject) (image : Image) (symbols : SymbolTable) :
    let a := (Arena.empty pid (Audited.ofAllocator s)).run earlier
    let relocated := o.toObject.relocate image symbols a
    a.allocator.Kept →
      (relocated.2.mapped = a.mapped ∧ relocated.2.actual = a.actual) ∧
      (relocated.1 = .ok () → ∀ m ∈ a.mapped, ∀ x : Word, m.promise.Holds x.toNat →
        ∃ before, a.read x 1 = .ok [before] ∧ ∀ after, relocated.2.read x 1 = .ok [after] ↔
          Leaves o.cls image symbols o.relocations x.toNat before after) ∧
      (∀ e b, relocated = (.error e, b) ↔ ∃ first q rest, o.relocations = first ++ q :: rest ∧
        applyAll o.cls image symbols first a = (.ok (), b) ∧ q.Fails o.cls image symbols b e) ∧
      (Accepting backs →
        ((∃ e, relocated.1 = .error e) ↔
          ∃ q ∈ o.relocations, ∃ e, q.Fails o.cls image symbols a e) ∧
        ∀ e, relocated.1 = .error e ↔ ∃ first q rest, o.relocations = first ++ q :: rest ∧
          q.Fails o.cls image symbols a e ∧
          ∀ p ∈ first, ∀ e', ¬ p.Fails o.cls image symbols a e') := by
  intro a relocated kept
  have held : a.Held backs :=
    (Arena.held_empty pid fresh).reaches laws.toBacking ⟨earlier, rfl⟩ kept
  obtain ⟨made, stored, -, all⟩ : ∃ made, a.Stored backs made relocated.2 ∧
      (∀ s ∈ made, image.Receives s) ∧
      (relocated.1 = .ok () → stores o.cls image symbols o.relocations = .ok made) :=
    applyAll_stored laws held o.relocations
  refine ⟨⟨stored.mapped, stored.actual⟩, ?_, ?_, ?_⟩
  · intro ok m hm x holds
    refine ⟨_, held.read_byte laws hm holds, ?_⟩
    intro after
    rw [stored.held.read_byte laws (stored.mapped ▸ hm) holds, stored.bytes m hm _ holds,
      leaves_iff (all ok), Except.ok.injEq, List.singleton_inj]
  · intro e b
    exact applyAll_error_iff
  · intro accepts
    exact ⟨applyAll_error_iff_exists laws accepts held,
      fun e => applyAll_first_error_iff laws accepts held⟩

/-- Words of three kinds over one another, one of them of the object's own weak symbol, and an entry
of no effect behind them. -/
theorem overlapping_words_patched :
    let o : ElfObject := ⟨.bits64, [⟨0x1000, 32, 8, [1, 2, 3], .readWrite⟩], [],
      [⟨"own", 0x1004, false⟩], none, [⟨0x1008, .relative, 0x1010, none⟩,
        ⟨0x100c, .absolute32, 0 - 1, some ⟨"far", none, false⟩⟩,
        ⟨0x100e, .jumpSlot, 7, some ⟨"own", some 0x1004, true⟩⟩, ⟨0x1000, .none, 9, none⟩]⟩
    let image : Image := ⟨some 0x10000, 0x1000, [⟨0x1000, 32, 0x10000⟩], none⟩
    let symbols : SymbolTable := .ofList [("far", 0x300000001)]
    let earlier : List Operation := [.map 32 .readWrite 8, .write 0x10000 [1, 2, 3]]
    let heap := HostHeap.empty none fun _ _ => 0x10000
    let a := (Arena.empty 1 (Audited.ofAllocator heap)).run earlier
    let relocated := o.toObject.relocate image symbols a
    a.allocator.Kept ∧ relocated.1 = .ok () ∧
      relocated.2.read 0x10000 24 =
        .ok [1, 2, 3, 0, 0, 0, 0, 0, 0x10, 0, 1, 0, 0, 0, 4, 0, 1, 0, 0, 0, 0, 0, 0, 0] ∧
      relocated.2.mapped = a.mapped ∧
      (∀ m ∈ a.mapped, ∀ x : Word, m.promise.Holds x.toNat →
        ∃ before, a.read x 1 = .ok [before] ∧ ∀ after, relocated.2.read x 1 = .ok [after] ↔
          Leaves o.cls image symbols o.relocations x.toNat before after) ∧
      ¬ ∃ q ∈ o.relocations, ∃ e, q.Fails o.cls image symbols a e := by
  intro o image symbols earlier heap a relocated
  have kept : a.allocator.Kept := by decide
  have through : relocated.1 = .ok () := by decide
  obtain ⟨⟨mapped, -⟩, bytes, -, failing⟩ := relocation_leaves_last_words HostHeap.storing
    (Heap.backs_empty none) 1 earlier o image symbols kept
  refine ⟨kept, through, by decide, mapped, bytes through, ?_⟩
  rw [← (failing HostHeap.accepting).1]
  rintro ⟨e, failed⟩
  rw [through] at failed
  cases failed

/-- An entry that takes no value from its symbol goes through although nobody defines the symbol. -/
theorem undefined_symbol_unused :
    let missing : RelocationSymbol := ⟨"missing", none, false⟩
    let o : ElfObject := ⟨.bits64, [⟨0x1000, 16, 8, [], .readWrite⟩], [], [], none,
      [⟨0x1000, .relative, 0x1008, some missing⟩]⟩
    let a := Arena.empty 1 (Audited.ofAllocator (HostHeap.empty none fun _ _ => 0x10000))
    let placed := Image.place o.segments a
    ∃ image, placed.1 = .ok image ∧
      (∃ q ∈ o.relocations, q.symbol = some missing ∧ SymbolTable.empty.get? missing.name = none ∧
        missing.own = none ∧ missing.weak = false) ∧
      (o.toObject.relocate image .empty placed.2).1 = .ok () := by
  intro missing o a placed
  exact ⟨.around 0x10000 0x1000 o.segments, by decide,
    ⟨_, List.mem_singleton_self _, rfl, rfl, rfl, rfl⟩, by decide⟩

end ElfObject

end Elf

end AppHost
