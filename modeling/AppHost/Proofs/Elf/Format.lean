import AppHost.Elf.File
import Mathlib.Data.List.Basic
/-! Where the format puts the fields of a file header and of the program headers, and what may be
relied on in a reader of files: it goes by these places, and takes what is dynamic from the dynamic
segment alone. The reader of this library is such a reader. -/
namespace AppHost.Elf

section Slices

variable {α : Type} {e : Encoding} {file raw : Bytes} {start size offset width : ℕ}

theorem Encoding.number?_slice (e : Encoding) (cut : file.slice? start size = some raw)
    (inside : offset + width ≤ size) :
    e.number? raw offset width = e.number? file (start + offset) width := by
  obtain ⟨room, rfl⟩ := Bytes.slice?_eq_some_iff.mp cut
  have long : ((file.drop start).take size).length = size := by
    rw [List.length_take, List.length_drop]
    omega
  have same : Bytes.slice? ((file.drop start).take size) offset width =
      file.slice? (start + offset) width := by
    rw [Bytes.slice?, Bytes.slice?, long, if_pos inside, if_pos (by omega), List.drop_take,
      List.take_take, List.drop_drop, Nat.min_eq_left (by omega)]
  rw [number?, number?, same]

theorem Encoding.length_of_number? {n : ℕ} (found : e.number? file offset width = some n) :
    offset + width ≤ file.length := by
  obtain ⟨piece, cut, -⟩ := Option.map_eq_some_iff.mp found
  exact (Bytes.slice?_eq_some_iff.mp cut).1

theorem mapM_eq_some_iff {β : Type} {f : α → Option β} {xs : List α} {ys : List β} :
    xs.mapM f = some ys ↔ xs.map f = ys.map some := by
  induction xs generalizing ys with
  | nil => cases ys <;> simp
  | cons x rest ih =>
    rw [List.mapM_cons, List.map_cons]
    cases ys with
    | nil => cases f x <;> cases rest.mapM f <;> simp
    | cons y ys =>
      rw [List.map_cons, List.cons.injEq, ← ih]
      cases f x <;> cases rest.mapM f <;> simp

theorem records?_eq_some_iff {read : Bytes → Option α} {count : ℕ} {entries : List α} :
    records? file read size offset count = some entries ↔
      entries.length = count ∧ ∀ i x, entries[i]? = some x →
        (file.slice? (offset + i * size) size).bind read = some x := by
  have pointwise :
      (List.range count).map (fun i => (file.slice? (offset + i * size) size).bind read) =
      entries.map some ↔ entries.length = count ∧ ∀ i x, entries[i]? = some x →
        (file.slice? (offset + i * size) size).bind read = some x := by
    constructor
    · intro same
      have length := congrArg List.length same
      rw [List.length_map, List.length_map, List.length_range] at length
      refine ⟨length.symm, fun i x at_i => ?_⟩
      have here := congrArg (·[i]?) same
      have below := (List.getElem?_eq_some_iff.mp at_i).1
      simpa [at_i, List.getElem?_range (length ▸ below)] using here
    · rintro ⟨rfl, each⟩
      refine List.ext_getElem? fun i => ?_
      cases at_i : entries[i]? with
      | none => simp [List.getElem?_eq_none_iff.mp at_i]
      | some x =>
        have below := (List.getElem?_eq_some_iff.mp at_i).1
        simp [at_i, List.getElem?_range below, each i x at_i]
  rw [records?]
  split
  · rename_i none
    subst none
    rw [Option.some.injEq, eq_comm, ← List.length_eq_zero_iff]
    refine ⟨fun empty => ⟨empty, fun i x at_i => ?_⟩, And.left⟩
    rw [List.eq_nil_of_length_eq_zero empty] at at_i
    cases at_i
  · split
    · rw [mapM_eq_some_iff]
      exact pointwise
    · rename_i some_entries beyond
      refine iff_of_false nofun ?_
      rintro ⟨rfl, each⟩
      -- the last record ends where the table does
      have last : entries.length - 1 < entries.length := by omega
      obtain ⟨piece, cut, -⟩ :=
        Option.bind_eq_some_iff.mp (each _ _ (List.getElem?_eq_getElem last))
      have room := (Bytes.slice?_eq_some_iff.mp cut).1
      rw [Nat.add_assoc, ← Nat.succ_mul, Nat.succ_eq_add_one,
        Nat.sub_add_cancel (by omega)] at room
      exact beyond room

end Slices

structure Header.LiesIn (h : Header) (file : Bytes) : Prop where
  encoding : Encoding.identify? file = some h.encoding
  fileType : h.encoding.number? file 16 2 = some h.fileType
  machine : h.encoding.number? file 18 2 = some h.machine
  entry : h.encoding.address? file 24 24 = some h.entry
  segmentTable : h.encoding.address? file 28 32 = some h.segmentTable
  sectionTable : h.encoding.address? file 32 40 = some h.sectionTable
  segmentCount : h.encoding.field? file 44 56 2 = some h.segmentCount
  sectionCount : h.encoding.field? file 48 60 2 = some h.sectionCount
  nameSection : h.encoding.field? file 50 62 2 = some h.nameSection

structure Program.LiesAt (p : Program) (e : Encoding) (file : Bytes) (start : ℕ) : Prop where
  kind : e.number? file start 4 = some p.kind
  flags : e.field? file (start + 24) (start + 4) 4 = some p.flags
  offset : e.address? file (start + 4) (start + 8) = some p.offset
  vaddr : e.address? file (start + 8) (start + 16) = some p.vaddr
  fileSize : e.address? file (start + 16) (start + 32) = some p.fileSize
  memSize : e.address? file (start + 20) (start + 40) = some p.memSize
  align : e.address? file (start + 28) (start + 48) = some p.align

def Header.Lists (h : Header) (file : Bytes) (programs : List Program) : Prop :=
  programs.length = h.segmentCount ∧ ∀ (i : ℕ) (p : Program), programs[i]? = some p →
    p.LiesAt h.encoding file (h.segmentTable + i * Program.size h.encoding.cls)

/-- A header as the format has it, with the magic, the version and the sizes of headers. -/
structure Header.Leads (h : Header) (file : Bytes) : Prop extends h.LiesIn file where
  marked : file.take 4 = magic
  identified : file[6]? = some 1
  version : h.encoding.number? file 20 4 = some 1
  headerSize : h.encoding.field? file 40 52 2 = some (h.encoding.cls.select 52 64)
  entrySize : h.encoding.field? file 42 54 2 = some (Program.size h.encoding.cls)

def Program.interpreterKind : ℕ := 3

/-- What reading objects relies on. -/
structure Reader.Lawful (read : Reader) : Prop where
  header : ∀ file f, read file = some f → f.header.LiesIn file
  programs : ∀ file f, read file = some f → f.header.Lists file f.programs
  /-- Only a dynamic segment tells what is needed, defined and relocated. -/
  static : ∀ file f, read file = some f → (∀ p ∈ f.programs, p.kind ≠ Program.dynamicKind) →
    f.dynamic.needed = [] ∧ f.dynamic.symbols = [] ∧ f.dynamic.relocations = []
  /-- Nothing is refused where there is no more to read than the headers. -/
  accepts : ∀ file (h : Header) programs, h.Leads file → h.Lists file programs →
    h.sectionTable = 0 → h.sectionCount = 0 →
    (∀ p ∈ programs, p.kind ≠ Program.dynamicKind ∧ p.kind ≠ Program.interpreterKind) →
    ∃ f, read file = some f

section Reading

variable {e : Encoding} {file raw : Bytes} {start : ℕ}

theorem Class.select_le_select {small wide small' wide' : ℕ} (c : Class) (first : small ≤ small')
    (second : wide ≤ wide') : c.select small wide ≤ c.select small' wide' := by
  cases c with
  | bits32 => exact first
  | bits64 => exact second

theorem Encoding.address?_slice (e : Encoding) {size : ℕ}
    (cut : file.slice? start size = some raw) {narrow wide : ℕ}
    (inside : e.cls.select (narrow + 4) (wide + 8) ≤ size) :
    e.address? raw narrow wide = e.address? file (start + narrow) (start + wide) := by
  obtain ⟨cls, order⟩ := e
  cases cls with
  | bits32 => exact Encoding.number?_slice _ cut inside
  | bits64 => exact Encoding.number?_slice _ cut inside

theorem Encoding.field?_slice (e : Encoding) {size : ℕ}
    (cut : file.slice? start size = some raw) {narrow wide width : ℕ}
    (inside : e.cls.select (narrow + width) (wide + width) ≤ size) :
    e.field? raw narrow wide width = e.field? file (start + narrow) (start + wide) width := by
  obtain ⟨cls, order⟩ := e
  cases cls with
  | bits32 => exact Encoding.number?_slice _ cut inside
  | bits64 => exact Encoding.number?_slice _ cut inside

theorem Header.LiesIn.cut {h : Header} (lies : h.LiesIn file) :
    ∃ raw, file.slice? 0 (h.encoding.cls.select 52 64) = some raw := by
  have room : h.encoding.cls.select 52 64 ≤ file.length := by
    have last := lies.nameSection
    rw [Encoding.field?] at last
    split at last <;> rename_i cls <;> rw [cls] <;> exact Encoding.length_of_number? last
  exact ⟨_, Bytes.slice?_eq_some_iff.mpr ⟨by rwa [Nat.zero_add], rfl⟩⟩

theorem Header.read?_of_cut (identified : Encoding.identify? file = some e)
    (cut : file.slice? 0 (e.cls.select 52 64) = some raw) {h : Header} :
    Header.read? file = some h ↔ h.LiesIn file := by
  have number (place : ℕ) (inside : place + 2 ≤ 52) :
      e.number? raw place 2 = e.number? file place 2 := by
    have room : place + 2 ≤ e.cls.select 52 64 := by
      cases e.cls with
      | bits32 => exact inside
      | bits64 => exact Nat.le_trans inside (by decide)
    rw [e.number?_slice cut room, Nat.zero_add]
  have address (narrow wide : ℕ) (inside : narrow + 4 ≤ 52) (inside' : wide + 8 ≤ 64) :
      e.address? raw narrow wide = e.address? file narrow wide := by
    rw [e.address?_slice cut (e.cls.select_le_select inside inside'), Nat.zero_add, Nat.zero_add]
  have field (narrow wide : ℕ) (inside : narrow + 2 ≤ 52) (inside' : wide + 2 ≤ 64) :
      e.field? raw narrow wide 2 = e.field? file narrow wide 2 := by
    rw [e.field?_slice cut (e.cls.select_le_select inside inside'), Nat.zero_add, Nat.zero_add]
  simp only [Header.read?, identified, cut, Option.bind_eq_bind, Option.bind_some,
    number 16 (by decide), number 18 (by decide),
    address 24 24 (by decide) (by decide),
    address 28 32 (by decide) (by decide),
    address 32 40 (by decide) (by decide),
    field 44 56 (by decide) (by decide),
    field 48 60 (by decide) (by decide),
    field 50 62 (by decide) (by decide)]
  constructor
  · intro read
    simp only [Option.bind_eq_some_iff] at read
    obtain ⟨_, fileType, _, machine, _, entry, _, segmentTable, _, sectionTable, _, segmentCount, _,
      sectionCount, _, nameSection, made⟩ := read
    cases made
    exact ⟨identified, fileType, machine, entry, segmentTable, sectionTable, segmentCount,
      sectionCount, nameSection⟩
  · intro lies
    cases Option.some.inj (identified.symm.trans lies.encoding)
    simp only [lies.fileType, lies.machine, lies.entry, lies.segmentTable, lies.sectionTable,
      lies.segmentCount, lies.sectionCount, lies.nameSection]
    rfl

theorem Header.read?_eq_some_iff {h : Header} : Header.read? file = some h ↔ h.LiesIn file := by
  constructor
  · intro read
    obtain ⟨e, identified, rest⟩ := Option.bind_eq_some_iff.mp read
    obtain ⟨raw, cut, -⟩ := Option.bind_eq_some_iff.mp rest
    exact (read?_of_cut identified cut).mp read
  · intro lies
    obtain ⟨raw, cut⟩ := lies.cut
    exact (read?_of_cut lies.encoding cut).mpr lies

theorem Header.LiesIn.unique {h k : Header} (lies : h.LiesIn file) (other : k.LiesIn file) :
    h = k :=
  Option.some.inj ((read?_eq_some_iff.mpr lies).symm.trans (read?_eq_some_iff.mpr other))

theorem Program.read?_of_cut (cut : file.slice? start (size e.cls) = some raw) {p : Program} :
    read? e raw = some p ↔ p.LiesAt e file start := by
  have number : e.number? raw 0 4 = e.number? file start 4 := by
    refine e.number?_slice cut ?_
    cases e.cls <;> decide
  have address (narrow wide : ℕ) (inside : narrow + 4 ≤ 32) (inside' : wide + 8 ≤ 56) :
      e.address? raw narrow wide = e.address? file (start + narrow) (start + wide) :=
    e.address?_slice cut (e.cls.select_le_select inside inside')
  have field : e.field? raw 24 4 4 = e.field? file (start + 24) (start + 4) 4 :=
    e.field?_slice cut (e.cls.select_le_select (show 24 + 4 ≤ 32 by decide) (by decide))
  simp only [read?, Option.bind_eq_bind, number, field,
    address 4 8 (by decide) (by decide),
    address 8 16 (by decide) (by decide),
    address 16 32 (by decide) (by decide),
    address 20 40 (by decide) (by decide),
    address 28 48 (by decide) (by decide)]
  constructor
  · intro read
    simp only [Option.bind_eq_some_iff] at read
    obtain ⟨_, kind, _, flags, _, offset, _, vaddr, _, fileSize, _, memSize, _, align, made⟩ := read
    cases made
    exact ⟨kind, flags, offset, vaddr, fileSize, memSize, align⟩
  · intro lies
    simp only [lies.kind, lies.flags, lies.offset, lies.vaddr, lies.fileSize, lies.memSize,
      lies.align]
    rfl

theorem Program.LiesAt.cut {p : Program} (lies : p.LiesAt e file start) :
    ∃ raw, file.slice? start (size e.cls) = some raw := by
  have room : start + size e.cls ≤ file.length := by
    have last := lies.align
    rw [Encoding.address?] at last
    rw [size]
    split at last <;> rename_i cls <;> rw [cls]
    · have room := Encoding.length_of_number? last
      change start + 32 ≤ file.length
      omega
    · have room := Encoding.length_of_number? last
      change start + 56 ≤ file.length
      omega
  exact ⟨_, Bytes.slice?_eq_some_iff.mpr ⟨room, rfl⟩⟩

theorem Program.read?_eq_some_iff {p : Program} :
    (file.slice? start (size e.cls)).bind (read? e) = some p ↔ p.LiesAt e file start := by
  constructor
  · intro read
    obtain ⟨raw, cut, read⟩ := Option.bind_eq_some_iff.mp read
    exact (read?_of_cut cut).mp read
  · intro lies
    obtain ⟨raw, cut⟩ := lies.cut
    rw [cut]
    exact (read?_of_cut cut).mpr lies

theorem Header.programs?_eq_some_iff {h : Header} {programs : List Program} :
    h.programs? file = some programs ↔ h.Lists file programs := by
  rw [Header.programs?, records?_eq_some_iff]
  exact and_congr_right fun _ => forall₃_congr fun i p _ => Program.read?_eq_some_iff

theorem Header.Lists.unique {h : Header} {first second : List Program}
    (lists : h.Lists file first) (other : h.Lists file second) : first = second :=
  Option.some.inj ((programs?_eq_some_iff.mpr lists).symm.trans (programs?_eq_some_iff.mpr other))

theorem File.read?_eq_some {f : File} (read : File.read? file = some f) :
    Header.read? file = some f.header ∧ f.header.programs? file = some f.programs ∧
      ∃ found, Dynamic.read? f.header.encoding file f.programs = some found ∧
        (found = none → f.dynamic = ⟨[], [], [], []⟩) := by
  obtain ⟨header, headed, read⟩ := Option.bind_eq_some_iff.mp read
  obtain ⟨programs, listed, read⟩ := Option.bind_eq_some_iff.mp read
  obtain ⟨sections, -, read⟩ := Option.bind_eq_some_iff.mp read
  split at read
  · cases read
  obtain ⟨found, segment, read⟩ := Option.bind_eq_some_iff.mp read
  cases found with
  | none =>
    cases read
    exact ⟨headed, listed, none, segment, fun _ => rfl⟩
  | some d =>
    obtain ⟨dynamic, -, made⟩ := Option.bind_eq_some_iff.mp read
    cases made
    exact ⟨headed, listed, some d, segment, nofun⟩

theorem Dynamic.read?_of_static {programs : List Program}
    (static : ∀ p ∈ programs, p.kind ≠ Program.dynamicKind) :
    Dynamic.read? e file programs = some none := by
  have absent : programs.find? (·.kind == Program.dynamicKind) = none :=
    List.find?_eq_none.mpr fun p met same => static p met (beq_iff_eq.mp same)
  rw [Dynamic.read?, absent]

/-- The reader of this library keeps to the format. -/
theorem File.lawful_read? : Reader.Lawful File.read? where
  header file f read := Header.read?_eq_some_iff.mp (File.read?_eq_some read).1
  programs file f read := Header.programs?_eq_some_iff.mp (File.read?_eq_some read).2.1
  static file f read static := by
    obtain ⟨-, -, found, segment, led⟩ := File.read?_eq_some read
    rw [Dynamic.read?_of_static static] at segment
    cases segment
    rw [led rfl]
    exact ⟨rfl, rfl, rfl⟩
  accepts file h programs leads lists no_sections _ plain := by
    have sections : h.sections? file = some [] := if_pos no_sections
    have sound : sectionsSound h.encoding file h [] = true := by
      simp [sectionsSound, sectionStrings?]
    have dynamic : Dynamic.read? h.encoding file programs = some none :=
      Dynamic.read?_of_static fun p met => (plain p met).1
    refine ⟨⟨h, programs, ⟨[], [], [], []⟩⟩, ?_⟩
    simp only [File.read?, Header.read?_eq_some_iff.mpr leads.toLiesIn, Option.bind_eq_bind,
      Option.bind_some, Header.programs?_eq_some_iff.mpr lists, sections, sound, dynamic]
    rfl

end Reading

end AppHost.Elf
