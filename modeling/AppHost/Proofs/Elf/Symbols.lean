import AppHost.Elf.Object
import AppHost.Linkage.State
import AppHost.Proofs.Linkage.Placement
/-! The symbols that an object defines. A reference to one is looked up by name before the object's
own definition counts, whatever its binding; and it is moved with the image even where publishing
the symbol would leave it alone. -/
namespace AppHost.Elf

open Memory

namespace Symbol

def isLocal (s : Symbol) : Bool := s.binding == 0

def address (s : Symbol) : Word := UInt64.ofNat s.value

/-- What the object offers others if the symbol of this name is exported. -/
def offer (s : Symbol) (name : String) : Export := ⟨name, s.address, s.isAbsolute⟩

def reference (s : Symbol) (name : String) : RelocationSymbol :=
  ⟨name, if s.isDefined then some s.address else none, s.isWeak⟩

/-- The place of the object's own definition, absolute or not. -/
def ownValue (s : Symbol) (image : Image) : Except LoadError Word :=
  match image.translate? s.address with
  | some place => .ok place
  | none => .error (.invalid .localSymbol)

theorem ownValue_eq_ok {s : Symbol} {image : Image} {place : Word} :
    s.ownValue image = .ok place ↔ image.translate? s.address = some place := by
  unfold ownValue
  cases image.translate? s.address <;> simp

theorem not_exported_of_local {s : Symbol} (h : s.isLocal = true) :
    DynamicFacts.isExported s = false := by
  have binding : s.binding = 0 := eq_of_beq h
  simp [DynamicFacts.isExported, isGlobal, isWeak, binding]

theorem address_offer_eq_ok {s : Symbol} {name : String} {image : Image} {place : Word} :
    StagedModule.address image (s.offer name) = .ok (name, place) ↔
      if s.isAbsolute then place = s.address else s.ownValue image = .ok place := by
  unfold StagedModule.address
  cases absolute : s.isAbsolute with
  | true => simp [offer, absolute, eq_comm]
  | false =>
    rw [ownValue_eq_ok]
    simp only [offer, absolute]
    cases image.translate? s.address <;> simp

end Symbol

structure File.Refers (f : File) (n index : ℕ) (s : Symbol) : Prop where
  entry : ∃ e, f.dynamic.relocations[n]? = some e ∧ e.symbol = index
  nonzero : index ≠ 0
  symbol : f.dynamic.symbols[index]? = some s

namespace DynamicFacts

theorem symbolName_eq_ok {d : DynamicFacts} {s : Symbol} {name : String} :
    d.symbolName s = .ok name ↔ d.strings.name? s.name = some name := by
  unfold symbolName
  cases d.strings.name? s.name <;> simp

theorem relocationSymbol_ok {d : DynamicFacts} {index : ℕ} {s : Symbol}
    {reference : Option RelocationSymbol} (nonzero : index ≠ 0)
    (symbol : d.symbols[index]? = some s) (h : d.relocationSymbol index = .ok reference) :
    ∃ name, d.strings.name? s.name = some name ∧ reference = some (s.reference name) := by
  simp only [relocationSymbol, if_neg nonzero, symbol] at h
  obtain ⟨name, named, h⟩ := bind_eq_ok.mp h
  cases h
  exact ⟨name, symbolName_eq_ok.mp named, rfl⟩

theorem offer_mem {d : DynamicFacts} {offered : List Export} (h : d.exports = .ok offered)
    {s : Symbol} (hs : s ∈ d.symbols) (exported : isExported s = true) {name : String}
    (named : d.strings.name? s.name = some name) : s.offer name ∈ offered := by
  obtain ⟨n, hn⟩ := List.mem_iff_getElem?.mp (List.mem_filter.mpr ⟨hs, exported⟩)
  obtain ⟨x, hx, made⟩ := getElem?_of_mapM h hn
  obtain ⟨other, same, made⟩ := bind_eq_ok.mp made
  rw [symbolName_eq_ok, named] at same
  cases same
  cases made
  exact List.mem_of_getElem? hx

end DynamicFacts

namespace ElfObject

open Relocation

theorem ofFile_ok {f : File} {file : Bytes} {o : ElfObject} (h : ofFile f file = .ok o) :
    f.dynamic.exports = .ok o.exports ∧
      f.dynamic.relocations.mapM f.dynamic.resolved = .ok o.relocations := by
  unfold ofFile at h
  simp only at h
  -- the checks before and after reading the segments only refuse
  split at h
  · cases h
  split at h
  · cases h
  split at h
  · cases h
  obtain ⟨segments, -, h⟩ := bind_eq_ok.mp h
  split at h
  · cases h
  obtain ⟨exports, offered, h⟩ := bind_eq_ok.mp h
  obtain ⟨relocations, resolved, h⟩ := bind_eq_ok.mp h
  cases h
  exact ⟨offered, resolved⟩

theorem parse_ok {read : Reader} {file : Bytes} {o : ElfObject} (h : parse read file = .ok o) :
    ∃ f, read file = some f ∧ ofFile f file = .ok o := by
  unfold parse at h
  split at h
  · cases h
  split at h
  · cases h
  split at h
  · cases h
  · rename_i f found
    exact ⟨f, found, h⟩

theorem relocation_of_refers {f : File} {o : ElfObject}
    (resolved : f.dynamic.relocations.mapM f.dynamic.resolved = .ok o.relocations) {n index : ℕ}
    {s : Symbol} (h : f.Refers n index s) : ∃ name r, f.dynamic.strings.name? s.name = some name ∧
      o.relocations[n]? = some r ∧ r.symbol = some (s.reference name) := by
  obtain ⟨e, he, rfl⟩ := h.entry
  obtain ⟨r, hr, made⟩ := getElem?_of_mapM resolved he
  obtain ⟨reference, referred, made⟩ := bind_eq_ok.mp made
  obtain ⟨name, named, rfl⟩ := DynamicFacts.relocationSymbol_ok h.nonzero h.symbol referred
  cases made
  exact ⟨name, _, named, hr, rfl⟩

end ElfObject

namespace Relocation

variable {image : Image} {t u : SymbolTable}

/-- A defined symbol under a name that the table has is what the table says, else the object's
own. -/
theorem symbolValue_reference {s : Symbol} (defined : s.isDefined = true) (name : String)
    (image : Image) (t : SymbolTable) :
    symbolValue (some (s.reference name)) image t =
      ((t.get? name).map Except.ok).getD (s.ownValue image) := by
  simp only [symbolValue, Symbol.reference, defined, if_true]
  cases t.get? name with
  | some place => rfl
  | none => rfl

theorem symbolValue_of_unshared {s : Symbol} (defined : s.isDefined = true) {name : String}
    (missing : t.get? name = none) :
    symbolValue (some (s.reference name)) image t = s.ownValue image := by
  rw [symbolValue_reference defined, missing]
  rfl

theorem symbolValue_eq_ownValue_iff {s : Symbol} (defined : s.isDefined = true) {name : String} :
    symbolValue (some (s.reference name)) image t = s.ownValue image ↔
      ∀ place, t.get? name = some place → s.ownValue image = .ok place := by
  rw [symbolValue_reference defined]
  cases shared : t.get? name with
  | none => simp
  | some place =>
    constructor
    · intro own other eq
      cases eq
      exact own.symm
    · intro own
      exact (own place rfl).symm

theorem symbolValue_iff_published_iff {s : Symbol} (defined : s.isDefined = true) {name : String} :
    (∀ t : SymbolTable, t.get? name = none → ∀ place,
        symbolValue (some (s.reference name)) image t = .ok place ↔
          StagedModule.address image (s.offer name) = .ok (name, place)) ↔
      (s.isAbsolute = true → image.translate? s.address = some s.address) := by
  constructor
  · intro alike absolute
    have published : StagedModule.address image (s.offer name) = .ok (name, s.address) :=
      Symbol.address_offer_eq_ok.mpr (by simp [absolute])
    have moved := (alike .empty rfl s.address).mpr published
    rw [symbolValue_of_unshared defined rfl] at moved
    exact Symbol.ownValue_eq_ok.mp moved
  · intro fixed t missing place
    rw [symbolValue_of_unshared defined missing, Symbol.address_offer_eq_ok]
    cases absolute : s.isAbsolute with
    | false => rfl
    | true =>
      rw [Symbol.ownValue_eq_ok, fixed absolute]
      simp [eq_comm]

theorem symbolValue_congr {symbol : Option RelocationSymbol}
    (agree : ∀ s, symbol = some s → t.get? s.name = u.get? s.name) :
    symbolValue symbol image t = symbolValue symbol image u := by
  cases symbol with
  | none => rfl
  | some s => simp only [symbolValue, agree s rfl]

theorem patch_congr (cls : Class) {r : Relocation}
    (agree : ∀ s, r.symbol = some s → t.get? s.name = u.get? s.name) :
    r.patch cls image t = r.patch cls image u := by
  simp only [patch, stored, symbolValue_congr agree]

theorem applyAll_congr {σ : Type} [Allocator σ] (cls : Class) {relocations : List Relocation}
    (agree : ∀ r ∈ relocations, ∀ s, r.symbol = some s → t.get? s.name = u.get? s.name)
    (a : Arena σ) : applyAll cls image t relocations a = applyAll cls image u relocations a := by
  induction relocations generalizing a with
  | nil => rfl
  | cons r rest ih =>
    obtain ⟨first, later⟩ := List.forall_mem_cons.mp agree
    simp only [applyAll, apply, patch_congr cls first, ih later]

end Relocation

namespace ElfObject

open Relocation

/-- A reference to a symbol that the object defines stands for the object's own definition exactly
if the table has no other address under the symbol's name, and tables that agree on the name have it
stored alike. The binding plays no part: a local symbol is not offered to others, but what others
offer under its name is taken for it. Relocating as a whole sees no other names than those of its
symbols. -/
theorem own_definition_unless_name_shared {read : Reader} {file : Bytes} {o : ElfObject}
    (parsed : parse read file = .ok o) :
    ∃ f, read file = some f ∧
      (∀ n index s, f.Refers n index s → s.isDefined = true →
        ∃ name r, f.dynamic.strings.name? s.name = some name ∧ o.relocations[n]? = some r ∧
          (s.isLocal = true → DynamicFacts.isExported s = false) ∧
          ∀ image t,
            (symbolValue r.symbol image t = s.ownValue image ↔
              ∀ place, t.get? name = some place → s.ownValue image = .ok place) ∧
            ∀ u, t.get? name = u.get? name →
              r.patch o.cls image t = r.patch o.cls image u) ∧
      ∀ image t u, (∀ r ∈ o.relocations, ∀ s, r.symbol = some s → t.get? s.name = u.get? s.name) →
        ∀ {σ : Type} [Allocator σ] (a : Arena σ),
          o.toObject.relocate image t a = o.toObject.relocate image u a := by
  obtain ⟨f, found, made⟩ := parse_ok parsed
  obtain ⟨-, resolved⟩ := ofFile_ok made
  refine ⟨f, found, ?_, fun image t u agree σ _ a => applyAll_congr o.cls agree a⟩
  intro n index s refers defined
  obtain ⟨name, r, named, hr, symbol⟩ := relocation_of_refers resolved refers
  refine ⟨name, r, named, hr, Symbol.not_exported_of_local, ?_⟩
  intro image t
  rw [symbol]
  refine ⟨symbolValue_eq_ownValue_iff defined, fun u same => patch_congr o.cls ?_⟩
  intro reference eq
  rw [symbol] at eq
  cases eq
  exact same

/-- A 32-bit library that is one segment at object address zero. Its symbols are a nameless section
symbol, a local `own`, an absolute local `fix` and a global `out`, each with one relocation. -/
def smallLibrary : Bytes :=
  let words : List Word := [
    -- the header and the two program headers
    0x464c457f, 0x10101, 0, 0, 0xf30003, 1, 0, 0x34, 0, 0, 0x200034, 2, 0,
    1, 0, 0, 0, 0x144, 0x144, 6, 4, 2, 0x74, 0x74, 0x74, 0x30, 0x30, 6, 4,
    -- the dynamic table and the names
    5, 0xa4, 10, 13, 6, 0xb4, 7, 0x104, 8, 0x30, 0, 0, 0x6e776f00, 0x78696600, 0x74756f00, 0,
    -- the symbols
    0, 0, 0, 0, 0, 0x134, 0, 0x10003, 1, 0x13c, 0, 0x10000, 5, 0x40, 0, 0xfff10000,
    9, 0x140, 0, 0x10010,
    -- the relocations and the words that they fill
    0x134, 0x101, 0, 0x138, 0x201, 0, 0x13c, 0x301, 0, 0x140, 0x401, 0, 0, 0, 0, 0]
  words.flatMap (Word.toBytes 4)

def smallObject : ElfObject where
  cls := .bits32
  segments := [⟨0, 0x144, 4, smallLibrary, .readWrite⟩]
  needed := []
  exports := [⟨"out", 0x140, false⟩]
  entry := none
  relocations := [
    ⟨0x134, .absolute32, 0, some ⟨"", some 0x134, false⟩⟩,
    ⟨0x138, .absolute32, 0, some ⟨"own", some 0x13c, false⟩⟩,
    ⟨0x13c, .absolute32, 0, some ⟨"fix", some 0x40, false⟩⟩,
    ⟨0x140, .absolute32, 0, some ⟨"out", some 0x140, false⟩⟩]

theorem parse_smallLibrary : parse File.read? smallLibrary = .ok smallObject := by decide +kernel

theorem refers_smallLibrary {f : File} (read : File.read? smallLibrary = some f) :
    f.Refers 0 1 ⟨0, 3, 1, 0x134⟩ ∧ f.Refers 1 2 ⟨1, 0, 1, 0x13c⟩ ∧
      f.Refers 2 3 ⟨5, 0, 0xfff1, 0x40⟩ ∧ f.Refers 3 4 ⟨9, 0x10, 1, 0x140⟩ := by
  have entries : (File.read? smallLibrary).map (·.dynamic.relocations) =
      some [⟨0x134, 1, 1, 0⟩, ⟨0x138, 2, 1, 0⟩, ⟨0x13c, 3, 1, 0⟩, ⟨0x140, 4, 1, 0⟩] := by
    decide +kernel
  have symbols : (File.read? smallLibrary).map (·.dynamic.symbols) =
      some [⟨0, 0, 0, 0⟩, ⟨0, 3, 1, 0x134⟩, ⟨1, 0, 1, 0x13c⟩, ⟨5, 0, 0xfff1, 0x40⟩,
        ⟨9, 0x10, 1, 0x140⟩] := by decide +kernel
  rw [read, Option.map_some, Option.some.injEq] at entries symbols
  refine ⟨?_, ?_, ?_, ?_⟩ <;>
    exact ⟨by rw [entries]; exact ⟨_, rfl, rfl⟩, by decide, by rw [symbols]; rfl⟩

theorem names_smallLibrary {f : File} (read : File.read? smallLibrary = some f) :
    f.dynamic.strings.name? 1 = some "own" ∧ f.dynamic.strings.name? 9 = some "out" := by
  have names : (File.read? smallLibrary).map
      (fun f => (f.dynamic.strings.name? 1, f.dynamic.strings.name? 9)) =
        some (some "own", some "out") := by decide +kernel
  rw [read, Option.map_some, Option.some.injEq, Prod.mk.injEq] at names
  exact names

/-- Names that others define do not matter to the local symbol `own`, but for that one. -/
theorem own_definition_among_foreign_names :
    let image : Image := ⟨some 0x10000, 0, [⟨0, 0x144, 0x10000⟩], none⟩
    parse File.read? smallLibrary = .ok smallObject ∧ ∃ r, smallObject.relocations[1]? = some r ∧
      (∀ t : SymbolTable, t.get? "own" = none → symbolValue r.symbol image t = .ok 0x1013c) ∧
      ∀ t u : SymbolTable, t.get? "own" = u.get? "own" →
        r.patch .bits32 image t = r.patch .bits32 image u := by
  intro image
  obtain ⟨f, read, own, -⟩ := own_definition_unless_name_shared parse_smallLibrary
  obtain ⟨-, refers, -⟩ := refers_smallLibrary read
  obtain ⟨named, -⟩ := names_smallLibrary read
  obtain ⟨name, r, same, hr, -, bound⟩ := own 1 2 _ refers rfl
  rw [named] at same
  cases same
  refine ⟨parse_smallLibrary, r, hr, ?_, fun t => (bound image t).2⟩
  intro t missing
  refine ((bound image t).1.mpr ?_).trans (by decide)
  intro place shared
  rw [missing] at shared
  cases shared

/-- A local symbol, with a name or without, is taken for another module's of that name, and the
other's address is stored. -/
theorem local_symbol_captured :
    let image : Image := ⟨some 0x10000, 0, [⟨0, 0x144, 0x10000⟩], none⟩
    let shared : SymbolTable := .ofList [("", 0x5000), ("own", 0x6000)]
    ∃ f, File.read? smallLibrary = some f ∧ parse File.read? smallLibrary = .ok smallObject ∧
      (∃ index s r, f.Refers 0 index s ∧ s.isLocal = true ∧ s.isDefined = true ∧
        smallObject.relocations[0]? = some r ∧ s.ownValue image = .ok 0x10134 ∧
        r.patch .bits32 image .empty = .ok (some (0x10134, Word.toBytes 4 0x10134)) ∧
        r.patch .bits32 image shared = .ok (some (0x10134, Word.toBytes 4 0x5000))) ∧
      ∃ index s r, f.Refers 1 index s ∧ s.isLocal = true ∧ s.isDefined = true ∧
        smallObject.relocations[1]? = some r ∧ s.ownValue image = .ok 0x1013c ∧
        r.patch .bits32 image .empty = .ok (some (0x10138, Word.toBytes 4 0x1013c)) ∧
        r.patch .bits32 image shared = .ok (some (0x10138, Word.toBytes 4 0x6000)) := by
  intro image shared
  obtain ⟨f, read, -⟩ := parse_ok parse_smallLibrary
  obtain ⟨nameless, named, -⟩ := refers_smallLibrary read
  refine ⟨f, read, parse_smallLibrary, ?_, ?_⟩
  · exact ⟨_, _, _, nameless, rfl, rfl, rfl, by decide, by decide, by decide⟩
  · exact ⟨_, _, _, named, rfl, rfl, rfl, by decide, by decide, by decide⟩

/-- Where the table has nothing under a symbol's name, a reference to the symbol stands for the
place of its value in the image, and so does what is published for the symbol if it is not absolute.
An absolute symbol is published at its value as it is: the two agree only where the image leaves
that value in its place. -/
theorem referenced_as_published_unless_absolute {read : Reader} {file : Bytes} {o : ElfObject}
    (parsed : parse read file = .ok o) :
    ∃ f, read file = some f ∧ ∀ index s name, index ≠ 0 →
      f.dynamic.symbols[index]? = some s → s.isDefined = true →
      f.dynamic.strings.name? s.name = some name →
        (DynamicFacts.isExported s = true → s.offer name ∈ o.exports) ∧
        (∀ n, f.Refers n index s →
          ∃ r, o.relocations[n]? = some r ∧ r.symbol = some (s.reference name)) ∧
        ∀ image,
          (∀ t : SymbolTable, t.get? name = none →
            symbolValue (some (s.reference name)) image t = s.ownValue image) ∧
          (∀ place, StagedModule.address image (s.offer name) = .ok (name, place) ↔
            if s.isAbsolute then place = s.address else s.ownValue image = .ok place) ∧
          ((∀ t : SymbolTable, t.get? name = none → ∀ place,
              symbolValue (some (s.reference name)) image t = .ok place ↔
                StagedModule.address image (s.offer name) = .ok (name, place)) ↔
            (s.isAbsolute = true → image.translate? s.address = some s.address)) := by
  obtain ⟨f, found, made⟩ := parse_ok parsed
  obtain ⟨offered, resolved⟩ := ofFile_ok made
  refine ⟨f, found, ?_⟩
  intro index s name nonzero symbol defined named
  refine ⟨?_, ?_, ?_⟩
  · intro exported
    exact DynamicFacts.offer_mem offered (List.mem_of_getElem? symbol) exported named
  · intro n refers
    obtain ⟨other, r, same, hr, reference⟩ := relocation_of_refers resolved refers
    rw [named] at same
    cases same
    exact ⟨r, hr, reference⟩
  · intro image
    exact ⟨fun t missing => symbolValue_of_unshared defined missing,
      fun place => Symbol.address_offer_eq_ok, symbolValue_iff_published_iff defined⟩

/-- A global symbol of the small library is published where references to it point. -/
theorem global_symbol_referenced_as_published :
    let image : Image := ⟨some 0x10000, 0, [⟨0, 0x144, 0x10000⟩], none⟩
    let out : Export := ⟨"out", 0x140, false⟩
    parse File.read? smallLibrary = .ok smallObject ∧ out ∈ smallObject.exports ∧
      StagedModule.address image out = .ok ("out", 0x10140) ∧
      ∃ r, smallObject.relocations[3]? = some r ∧
        ∀ t : SymbolTable, t.get? "out" = none → ∀ place,
          symbolValue r.symbol image t = .ok place ↔
            StagedModule.address image out = .ok ("out", place) := by
  intro image out
  obtain ⟨f, read, alike⟩ := referenced_as_published_unless_absolute parse_smallLibrary
  obtain ⟨-, -, -, refers⟩ := refers_smallLibrary read
  obtain ⟨-, named⟩ := names_smallLibrary read
  obtain ⟨exported, referred, bound⟩ := alike 4 _ "out" refers.nonzero refers.symbol rfl named
  obtain ⟨r, hr, symbol⟩ := referred 3 refers
  refine ⟨parse_smallLibrary, exported rfl, by decide, r, hr, ?_⟩
  rw [symbol]
  exact (bound image).2.2.mpr (by decide)

/-- An absolute symbol that is not published is moved with the image. -/
theorem absolute_symbol_moved :
    let image : Image := ⟨some 0x10000, 0, [⟨0, 0x144, 0x10000⟩], none⟩
    ∃ f index s r, File.read? smallLibrary = some f ∧
      parse File.read? smallLibrary = .ok smallObject ∧
      f.Refers 2 index s ∧ s.isDefined = true ∧ s.isAbsolute = true ∧
      smallObject.relocations[2]? = some r ∧ r.symbol = some (s.reference "fix") ∧
      StagedModule.address image (s.offer "fix") = .ok ("fix", 0x40) ∧
      symbolValue r.symbol image .empty = .ok 0x10040 := by
  intro image
  obtain ⟨f, read, -⟩ := parse_ok parse_smallLibrary
  obtain ⟨-, -, refers, -⟩ := refers_smallLibrary read
  exact ⟨f, 3, _, _, read, parse_smallLibrary, refers, rfl, rfl, rfl, rfl, by decide, by decide⟩

end ElfObject
end AppHost.Elf
