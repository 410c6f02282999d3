import AppHost.Elf.Object
import AppHost.Proofs.Elf.Format
import AppHost.Proofs.Linkage.Placement
/-! Files written from their headers: the file header, a table of program headers and whatever
follows them, in either class. Whichever reader takes them apart, as long as it keeps to the format,
reading such a file gives back every loaded segment, or says what is wrong with the first one that
the file cannot hold. -/
namespace AppHost.Elf

structure Field where
  width : ℕ
  value : Word

namespace Field

def bytes (f : Field) : Bytes := f.value.toBytes f.width

def Fits (f : Field) : Prop := f.value.toNat < 256 ^ f.width

instance (f : Field) : Decidable f.Fits := inferInstanceAs (Decidable (_ < _))

end Field

/-- Fields one after the other, each with its least significant byte first. -/
def record (fields : List Field) : Bytes := fields.flatMap Field.bytes

def extent (fields : List Field) : ℕ := fields.foldr (fun f later => f.width + later) 0

section Reading

variable {e : Encoding} {fields : List Field} {f : Field} {file front back : Bytes}

theorem length_record (fields : List Field) : (record fields).length = extent fields := by
  induction fields with
  | nil => rfl
  | cons f rest ih =>
    rw [record, List.flatMap_cons, List.length_append, ← record, ih]
    exact congrArg (· + extent rest) (Word.length_toBytes f.width f.value)

theorem slice?_between (front middle back : Bytes) :
    Bytes.slice? (front ++ (middle ++ back)) front.length middle.length = some middle := by
  rw [Bytes.slice?_eq_some_iff]
  refine ⟨?_, ?_⟩
  · simp only [List.length_append]
    omega
  · rw [List.drop_left, List.take_left]

theorem number?_record (laid : file = front ++ (record fields ++ back)) (little : e.order = .little)
    {i place : ℕ} (there : fields[i]? = some f) (fits : f.Fits)
    (start : place = front.length + extent (fields.take i)) :
    e.number? file place f.width = some f.value.toNat := by
  have split : fields = fields.take i ++ f :: fields.drop (i + 1) := by
    obtain ⟨inside, rfl⟩ := List.getElem?_eq_some_iff.mp there
    rw [List.getElem_cons_drop, List.take_append_drop]
  have whole : file = (front ++ record (fields.take i)) ++
      (f.bytes ++ (record (fields.drop (i + 1)) ++ back)) := by
    rw [laid]
    conv => lhs; rw [split]
    simp only [record, List.flatMap_append, List.flatMap_cons, List.append_assoc]
  have found := slice?_between (front ++ record (fields.take i)) f.bytes
    (record (fields.drop (i + 1)) ++ back)
  have width : f.bytes.length = f.width := Word.length_toBytes _ _
  rw [← whole, width, List.length_append, length_record, ← start] at found
  rw [Encoding.number?, found, Option.map_some, little]
  exact congrArg some ((ByteOrder.littleValue_toBytes _ _).trans (Nat.mod_eq_of_lt fits))

theorem address?_record {c : Class} (laid : file = front ++ (record fields ++ back))
    {i narrow wide : ℕ} {a : Word} (there : fields[i]? = some ⟨c.wordSize, a⟩)
    (fits : Field.Fits ⟨c.wordSize, a⟩)
    (start : c.select narrow wide = front.length + extent (fields.take i)) :
    Encoding.address? ⟨c, .little⟩ file narrow wide = some a.toNat := by
  cases c with
  | bits32 => exact number?_record laid rfl there fits start
  | bits64 => exact number?_record laid rfl there fits start

theorem field?_record {c : Class} (laid : file = front ++ (record fields ++ back))
    {i narrow wide : ℕ} (there : fields[i]? = some f) (fits : f.Fits)
    (start : c.select narrow wide = front.length + extent (fields.take i)) :
    Encoding.field? ⟨c, .little⟩ file narrow wide f.width = some f.value.toNat := by
  cases c with
  | bits32 => exact number?_record laid rfl there fits start
  | bits64 => exact number?_record laid rfl there fits start

theorem length_table {α : Type} {write : α → Bytes} {size : ℕ} {entries : List α}
    (sized : ∀ x ∈ entries, (write x).length = size) :
    (entries.flatMap write).length = entries.length * size := by
  rw [List.length_flatMap, List.map_congr_left sized, List.map_const', List.sum_replicate_nat]

end Reading

structure ProgramEntry where
  kind : UInt32
  flags : UInt32
  offset : Word
  vaddr : Word
  paddr : Word
  fileSize : Word
  memSize : Word
  align : Word
  deriving DecidableEq, Repr

namespace ProgramEntry

/-- The flags stand last but one in the narrow class, and second in the wide one. -/
def fields (c : Class) (p : ProgramEntry) : List Field :=
  let word (a : Word) : Field := ⟨c.wordSize, a⟩
  match c with
  | .bits32 => [⟨4, p.kind.toUInt64⟩, word p.offset, word p.vaddr, word p.paddr, word p.fileSize,
      word p.memSize, ⟨4, p.flags.toUInt64⟩, word p.align]
  | .bits64 => [⟨4, p.kind.toUInt64⟩, ⟨4, p.flags.toUInt64⟩, word p.offset, word p.vaddr,
      word p.paddr, word p.fileSize, word p.memSize, word p.align]

def Narrow (p : ProgramEntry) : Prop :=
  ∀ a ∈ [p.offset, p.vaddr, p.paddr, p.fileSize, p.memSize, p.align], a.toNat < UInt32.size

instance (p : ProgramEntry) : Decidable p.Narrow :=
  List.decidableBAll (fun a : Word => a.toNat < UInt32.size) _

def program (p : ProgramEntry) : Program :=
  ⟨p.kind.toNat, p.flags.toNat, p.offset.toNat, p.vaddr.toNat, p.fileSize.toNat, p.memSize.toNat,
    p.align.toNat⟩

def isLoaded (p : ProgramEntry) : Bool := p.kind == 1

/-- The entry describes part of a file of so many bytes, and no more than it has room for. -/
structure Within (p : ProgramEntry) (size : ℕ) : Prop where
  sizes : p.fileSize ≤ p.memSize
  inside : p.offset.toNat + p.fileSize.toNat ≤ size

/-- The segment that a file has at the entry. Bits 2, 1 and 0 of the flags read, write and
execute. -/
def segment (p : ProgramEntry) (file : Bytes) : Segment where
  vaddr := p.vaddr
  memSize := p.memSize
  align := p.align
  data := (file.drop p.offset.toNat).take p.fileSize.toNat
  protection := ⟨p.flags.toNat.testBit 2, p.flags.toNat.testBit 1, p.flags.toNat.testBit 0⟩

def fault (p : ProgramEntry) : LoadError :=
  if p.memSize < p.fileSize then .invalid .fileSizeAboveMemorySize else .truncated

variable {c : Class} {p : ProgramEntry}

theorem fits_half (a : UInt32) : Field.Fits ⟨4, a.toUInt64⟩ := by
  rw [Field.Fits, UInt32.toNat_toUInt64]
  exact a.toNat_lt

theorem extent_fields (c : Class) (p : ProgramEntry) : extent (p.fields c) = Program.size c := by
  cases c <;> rfl

theorem fits_word {a : Word} (narrow : c = .bits32 → a.toNat < UInt32.size) :
    Field.Fits ⟨c.wordSize, a⟩ := by
  cases c with
  | bits32 => exact narrow rfl
  | bits64 => exact a.toNat_lt

theorem program_liesAt {file front back : Bytes}
    (laid : file = front ++ (record (p.fields c) ++ back)) (narrow : c = .bits32 → p.Narrow) :
    p.program.LiesAt ⟨c, .little⟩ file front.length := by
  have word {a : Word}
      (met : a ∈ [p.offset, p.vaddr, p.paddr, p.fileSize, p.memSize, p.align]) :
      Field.Fits ⟨c.wordSize, a⟩ :=
    fits_word fun small => narrow small a met
  exact {
    kind := number?_record laid (i := 0) rfl (by cases c <;> rfl) (fits_half p.kind)
      (by cases c <;> rfl)
    flags := field?_record laid (i := c.select 6 1) (by cases c <;> rfl) (fits_half p.flags)
      (by cases c <;> rfl)
    offset := address?_record laid (i := c.select 1 2) (by cases c <;> rfl) (word (by simp))
      (by cases c <;> rfl)
    vaddr := address?_record laid (i := c.select 2 3) (by cases c <;> rfl) (word (by simp))
      (by cases c <;> rfl)
    fileSize := address?_record laid (i := c.select 4 5) (by cases c <;> rfl) (word (by simp))
      (by cases c <;> rfl)
    memSize := address?_record laid (i := c.select 5 6) (by cases c <;> rfl) (word (by simp))
      (by cases c <;> rfl)
    align := address?_record laid (i := 7) (by cases c <;> rfl) (word (by simp))
      (by cases c <;> rfl) }

end ProgramEntry

structure PlainFile where
  entry : Word
  /-- What lies between the file header and the program headers. -/
  gap : Bytes
  programs : List ProgramEntry
  body : Bytes
  short : gap.length < 65536
  few : programs.length < 65535

namespace PlainFile

def headerSize (c : Class) : ℕ := c.select 52 64

def tableOffset (c : Class) (f : PlainFile) : ℕ := headerSize c + f.gap.length

/-- The magic, the class, the order of bytes and the version of the format, padded. -/
def identity : Class → Bytes
  | .bits32 => magic ++ [1, 1, 1, 0, 0, 0, 0, 0, 0, 0, 0, 0]
  | .bits64 => magic ++ [2, 1, 1, 0, 0, 0, 0, 0, 0, 0, 0, 0]

def fields (c : Class) (f : PlainFile) : List Field :=
  [⟨2, 2⟩, ⟨2, .ofNat Machine.riscv⟩, ⟨4, 1⟩, ⟨c.wordSize, f.entry⟩,
    ⟨c.wordSize, .ofNat (f.tableOffset c)⟩, ⟨c.wordSize, 0⟩, ⟨4, 0⟩, ⟨2, .ofNat (headerSize c)⟩,
    ⟨2, .ofNat (Program.size c)⟩, ⟨2, .ofNat f.programs.length⟩, ⟨2, 0⟩, ⟨2, 0⟩, ⟨2, 0⟩]

def table (c : Class) (f : PlainFile) : Bytes := f.programs.flatMap fun p => record (p.fields c)

def bytes (c : Class) (f : PlainFile) : Bytes :=
  (identity c ++ record (f.fields c)) ++ (f.gap ++ (f.table c ++ f.body))

def Narrow (f : PlainFile) : Prop := f.entry.toNat < UInt32.size ∧ ∀ p ∈ f.programs, p.Narrow

instance (f : PlainFile) : Decidable f.Narrow :=
  inferInstanceAs (Decidable (_ < UInt32.size ∧ ∀ p ∈ f.programs, p.Narrow))

def loads (f : PlainFile) : List ProgramEntry := f.programs.filter (·.isLoaded)

def object (c : Class) (f : PlainFile) : ElfObject where
  cls := c
  segments := f.loads.map (·.segment (f.bytes c))
  needed := []
  exports := []
  entry := if f.entry = 0 then none else some f.entry
  relocations := []

def header (c : Class) (f : PlainFile) : Header where
  encoding := ⟨c, .little⟩
  fileType := 2
  machine := Machine.riscv
  entry := f.entry.toNat
  segmentTable := f.tableOffset c
  segmentCount := f.programs.length
  sectionTable := 0
  sectionCount := 0
  nameSection := 0

variable {c : Class} {f : PlainFile}

theorem length_header (c : Class) (f : PlainFile) :
    (identity c ++ record (f.fields c)).length = headerSize c := by
  rw [List.length_append, length_record]
  cases c <;> rfl

theorem length_bytes (c : Class) (f : PlainFile) : (f.bytes c).length =
    f.tableOffset c + f.programs.length * Program.size c + f.body.length := by
  have table : (f.table c).length = f.programs.length * Program.size c :=
    length_table fun p _ => (length_record (p.fields c)).trans (p.extent_fields c)
  rw [bytes, List.length_append, length_header, List.length_append, List.length_append, table,
    tableOffset]
  omega

theorem tableOffset_lt (c : Class) (f : PlainFile) : f.tableOffset c < UInt32.size := by
  have short := f.short
  cases c with
  | bits32 =>
    change 52 + f.gap.length < 4294967296
    omega
  | bits64 =>
    change 64 + f.gap.length < 4294967296
    omega

theorem toNat_tableOffset (c : Class) (f : PlainFile) :
    (UInt64.ofNat (f.tableOffset c)).toNat = f.tableOffset c :=
  UInt64.toNat_ofNat_of_lt' (Nat.lt_trans (f.tableOffset_lt c) (by decide))

theorem toNat_count (f : PlainFile) :
    (UInt64.ofNat f.programs.length).toNat = f.programs.length :=
  UInt64.toNat_ofNat_of_lt' (Nat.lt_trans f.few (by decide))

theorem header_leads (narrow : c = .bits32 → f.Narrow) : (f.header c).Leads (f.bytes c) := by
  have laid : f.bytes c =
      identity c ++ (record (f.fields c) ++ (f.gap ++ (f.table c ++ f.body))) :=
    List.append_assoc _ _ _
  have small : Field.Fits ⟨c.wordSize, .ofNat (f.tableOffset c)⟩ := by
    refine ProgramEntry.fits_word fun _ => ?_
    rw [toNat_tableOffset]
    exact f.tableOffset_lt c
  have few : Field.Fits ⟨2, .ofNat f.programs.length⟩ := by
    rw [Field.Fits, toNat_count]
    exact Nat.lt_trans f.few (show 65535 < 256 ^ 2 by decide)
  have headerSize : Encoding.field? ⟨c, .little⟩ (f.bytes c) 40 52 2 = some (c.select 52 64) := by
    have fits : Field.Fits ⟨2, .ofNat (headerSize c)⟩ := by cases c <;> decide
    have read : Encoding.field? ⟨c, .little⟩ (f.bytes c) 40 52 2 = _ :=
      field?_record laid (i := 7) rfl fits (by cases c <;> rfl)
    cases c <;> exact read
  have entrySize : Encoding.field? ⟨c, .little⟩ (f.bytes c) 42 54 2 = some (Program.size c) := by
    have fits : Field.Fits ⟨2, .ofNat (Program.size c)⟩ := by cases c <;> decide
    have read : Encoding.field? ⟨c, .little⟩ (f.bytes c) 42 54 2 = _ :=
      field?_record laid (i := 8) rfl fits (by cases c <;> rfl)
    cases c <;> exact read
  have segmentTable : Encoding.address? ⟨c, .little⟩ (f.bytes c) 28 32 =
      some (UInt64.ofNat (f.tableOffset c)).toNat :=
    address?_record laid (i := 4) rfl small (by cases c <;> rfl)
  have segmentCount : Encoding.field? ⟨c, .little⟩ (f.bytes c) 44 56 2 =
      some (UInt64.ofNat f.programs.length).toNat :=
    field?_record laid (i := 9) rfl few (by cases c <;> rfl)
  rw [toNat_tableOffset] at segmentTable
  rw [toNat_count] at segmentCount
  exact {
    encoding := by cases c <;> rfl
    fileType := number?_record laid (f := ⟨2, 2⟩) (i := 0) rfl rfl (by decide)
      (by cases c <;> rfl)
    machine := number?_record laid (f := ⟨2, 243⟩) (i := 1) rfl rfl (by decide)
      (by cases c <;> rfl)
    entry := address?_record laid (i := 3) rfl
      (ProgramEntry.fits_word fun small => (narrow small).1) (by cases c <;> rfl)
    segmentTable
    sectionTable := address?_record laid (a := 0) (i := 5) rfl
      (ProgramEntry.fits_word fun _ => by decide) (by cases c <;> rfl)
    segmentCount
    sectionCount := field?_record laid (f := ⟨2, 0⟩) (i := 11) rfl (by decide) (by cases c <;> rfl)
    nameSection := field?_record laid (f := ⟨2, 0⟩) (i := 12) rfl (by decide) (by cases c <;> rfl)
    marked := by cases c <;> rfl
    identified := by cases c <;> rfl
    version := number?_record laid (f := ⟨4, 1⟩) (i := 2) rfl rfl (by decide) (by cases c <;> rfl)
    headerSize
    entrySize }

theorem programs_listed (narrow : c = .bits32 → f.Narrow) :
    (f.header c).Lists (f.bytes c) (f.programs.map (·.program)) := by
  refine ⟨List.length_map _, fun i q at_i => ?_⟩
  rw [List.getElem?_map] at at_i
  obtain ⟨p, there, rfl⟩ := Option.map_eq_some_iff.mp at_i
  obtain ⟨inside, rfl⟩ := List.getElem?_eq_some_iff.mp there
  have met : f.programs[i] ∈ f.programs := List.getElem_mem inside
  let write (p : ProgramEntry) : Bytes := record (p.fields c)
  let before := f.programs.take i
  let after := f.programs.drop (i + 1)
  have split : f.programs = before ++ f.programs[i] :: after := by
    rw [List.getElem_cons_drop, List.take_append_drop]
  let front := identity c ++ record (f.fields c) ++ f.gap ++ before.flatMap write
  have laid : f.bytes c = front ++ (record (f.programs[i].fields c) ++
      (after.flatMap write ++ f.body)) := by
    have table : f.table c =
        before.flatMap write ++ (write f.programs[i] ++ after.flatMap write) := by
      conv => lhs; rw [table, split]
      rw [List.flatMap_append, List.flatMap_cons]
    rw [bytes, table]
    simp only [front, write, List.append_assoc]
  -- all headers are of one size, so the i-th one begins i sizes behind the start of the table
  have start : front.length = f.tableOffset c + i * Program.size c := by
    have sized : (before.flatMap write).length = before.length * Program.size c :=
      length_table fun p _ => (length_record (p.fields c)).trans (p.extent_fields c)
    rw [List.length_append, List.length_append, length_header, sized, List.length_take,
      Nat.min_eq_left (Nat.le_of_lt inside)]
    rfl
  have lies := ProgramEntry.program_liesAt laid fun small => (narrow small).2 _ met
  rw [start] at lies
  exact lies

/-- A reader that keeps to the format finds the headers, and nothing that is dynamic. -/
theorem file_read {read : Reader} (lawful : read.Lawful) (narrow : c = .bits32 → f.Narrow)
    (static : ∀ p ∈ f.programs, p.kind ≠ 2 ∧ p.kind ≠ 3) :
    ∃ g, read (f.bytes c) = some g ∧ g.header = f.header c ∧
      g.programs = f.programs.map (·.program) ∧
      g.dynamic.needed = [] ∧ g.dynamic.symbols = [] ∧ g.dynamic.relocations = [] := by
  have leads := header_leads narrow
  have lists := programs_listed narrow
  have plain : ∀ q ∈ f.programs.map (·.program),
      q.kind ≠ Program.dynamicKind ∧ q.kind ≠ Program.interpreterKind := by
    intro q met
    obtain ⟨p, there, rfl⟩ := List.mem_map.mp met
    exact ⟨fun same => (static p there).1 (UInt32.toNat_inj.mp same),
      fun same => (static p there).2 (UInt32.toNat_inj.mp same)⟩
  obtain ⟨g, found⟩ := lawful.accepts _ _ _ leads lists rfl rfl plain
  have header : g.header = f.header c := (lawful.header _ _ found).unique leads.toLiesIn
  have programs : g.programs = f.programs.map (·.program) := by
    have listed := lawful.programs _ _ found
    rw [header] at listed
    exact listed.unique lists
  refine ⟨g, found, header, programs, lawful.static _ _ found ?_⟩
  rw [programs]
  exact fun q met => (plain q met).1

theorem parse_eq {read : Reader} (lawful : read.Lawful) (narrow : c = .bits32 → f.Narrow)
    (static : ∀ p ∈ f.programs, p.kind ≠ 2 ∧ p.kind ≠ 3) :
    ElfObject.parse read (f.bytes c) =
      (f.loads.mapM fun p => p.program.segment (f.bytes c)) >>= fun segments =>
        if segments.isEmpty then .error (.unsupported .noSegments)
        else .ok { f.object c with segments } := by
  have long : ¬ (f.bytes c).length < 52 := by
    have whole : 52 ≤ headerSize c := by
      cases c <;> decide
    rw [length_bytes, tableOffset]
    omega
  have marked : (f.bytes c).take 4 = magic := by
    cases c <;> rfl
  have kinds : (f.programs.map (·.program)).filter (·.kind == Program.loadKind) =
      f.loads.map (·.program) := by
    rw [loads, List.filter_map]
    congr 1
    refine List.filter_congr fun p _ => ?_
    rw [Bool.eq_iff_iff, Function.comp_apply, beq_iff_eq, ProgramEntry.isLoaded, beq_iff_eq,
      ← UInt32.toNat_inj]
    rfl
  have entry : (if f.entry.toNat = 0 then none else some (UInt64.ofNat f.entry.toNat)) =
      if f.entry = 0 then none else some f.entry := by
    rw [UInt64.ofNat_toNat]
    exact if_congr (UInt64.toNat_inj (b := 0)) rfl rfl
  have little : ¬ (f.header c).encoding.order ≠ .little := not_not_intro rfl
  have riscv : ¬ (f.header c).machine ≠ Machine.riscv := not_not_intro rfl
  have executable : ¬ ((f.header c).fileType ≠ 3 ∧ (f.header c).fileType ≠ 2) :=
    fun neither => neither.2 rfl
  obtain ⟨g, found, header, programs, needed, symbols, relocations⟩ :=
    file_read lawful narrow static
  have exports : g.dynamic.exports = .ok [] := by
    rw [DynamicFacts.exports, symbols]
    rfl
  rw [ElfObject.parse, if_neg (not_not_intro marked), if_neg long, found]
  simp only [ElfObject.ofFile, header, programs, kinds, List.mapM_map, needed, exports, relocations]
  rw [if_neg little, if_neg riscv, if_neg executable]
  apply bind_congr
  intro segments
  split
  · rfl
  · exact congrArg (fun e => Except.ok (⟨c, segments, [], [], e, []⟩ : ElfObject)) entry

end PlainFile

namespace ProgramEntry

variable {p : ProgramEntry} {file : Bytes}

theorem within_iff {size : ℕ} : p.Within size ↔
    p.fileSize ≤ p.memSize ∧ p.offset.toNat + p.fileSize.toNat ≤ size :=
  ⟨fun h => ⟨h.sizes, h.inside⟩, fun h => ⟨h.1, h.2⟩⟩

instance (p : ProgramEntry) (size : ℕ) : Decidable (p.Within size) :=
  decidable_of_iff' _ within_iff

theorem segment_eq (p : ProgramEntry) (file : Bytes) : p.program.segment file =
    if p.Within file.length then .ok (p.segment file) else .error p.fault := by
  rw [Program.segment, fault]
  change (if p.memSize.toNat < p.fileSize.toNat then _ else _) = _
  by_cases large : p.memSize < p.fileSize
  · have beyond : ¬ p.Within file.length := fun within => UInt64.not_le.mpr large within.sizes
    rw [if_pos (UInt64.lt_iff_toNat_lt.mp large), if_neg beyond, if_pos large]
  · rw [if_neg (UInt64.lt_iff_toNat_lt.not.mp large), if_neg large]
    by_cases inside : p.offset.toNat + p.fileSize.toNat ≤ file.length
    · have data : Bytes.slice? file p.program.offset p.program.fileSize =
          some ((file.drop p.offset.toNat).take p.fileSize.toNat) := if_pos inside
      rw [data, if_pos ⟨UInt64.not_lt.mp large, inside⟩]
      simp only [program, UInt64.ofNat_toNat]
      rfl
    · have data : Bytes.slice? file p.program.offset p.program.fileSize = none := if_neg inside
      rw [data, if_neg fun within => inside within.inside]

end ProgramEntry

namespace PlainFile

/-- A file written from its headers, in either class, is read as the entries to load in their order,
each with its bytes of the file and the protection in its flags, and as the entry point unless that
is zero. Other entries make no difference as long as none is dynamic or names an interpreter. If an
entry to load is not within the file, the first such entry decides the error. -/
theorem headers_read_back {read : Reader} (lawful : read.Lawful) (c : Class) (f : PlainFile)
    (narrow : c = .bits32 → f.Narrow) (loaded : ∃ p ∈ f.programs, p.kind = 1)
    (static : ∀ p ∈ f.programs, p.kind ≠ 2 ∧ p.kind ≠ 3) :
    ((∀ p ∈ f.loads, p.Within (f.bytes c).length) →
      ElfObject.parse read (f.bytes c) = .ok (f.object c)) ∧
    ((∃ p ∈ f.loads, ¬ p.Within (f.bytes c).length) →
      ∃ before p after, f.loads = before ++ p :: after ∧
        (∀ q ∈ before, q.Within (f.bytes c).length) ∧ ¬ p.Within (f.bytes c).length ∧
        ElfObject.parse read (f.bytes c) = .error p.fault) := by
  have parsed := parse_eq lawful narrow static
  simp only [ProgramEntry.segment_eq] at parsed
  constructor
  · intro within
    have nonempty : (f.loads.map (·.segment (f.bytes c))).isEmpty = false := by
      obtain ⟨p, there, kind⟩ := loaded
      have met : p ∈ f.loads := List.mem_filter.mpr ⟨there, beq_iff_eq.mpr kind⟩
      exact List.isEmpty_eq_false_iff_exists_mem.mpr ⟨_, List.mem_map_of_mem met⟩
    rw [parsed, mapM_eq_ok_map fun p met => if_pos (within p met)]
    change (if _ then _ else _) = _
    rw [nonempty]
    rfl
  · intro outside
    -- reading stops at the first entry that is not within the file, not at the one that is given
    cases first : f.loads.find? fun p => !decide (p.Within (f.bytes c).length) with
    | none =>
      obtain ⟨p, met, beyond⟩ := outside
      exact absurd (by simpa using beyond) (List.find?_eq_none.mp first p met)
    | some p =>
      obtain ⟨fails, before, after, split, fine⟩ := List.find?_eq_some_iff_append.mp first
      have beyond : ¬ p.Within (f.bytes c).length := by simpa using fails
      have within : ∀ q ∈ before, q.Within (f.bytes c).length := by simpa using fine
      refine ⟨before, p, after, split, within, beyond, ?_⟩
      rw [parsed, bind_eq_error]
      refine Or.inl (mapM_eq_error_iff.mpr ⟨before, p, after, split, ?_, if_neg beyond⟩)
      exact fun q met => ⟨_, if_pos (within q met)⟩

/-- Two segments, one of them over the headers, beside an entry of another kind that lies nowhere in
the file; and a segment whose end is beyond the greatest word. -/
theorem headers_of_overlapping_segments :
    let note : ProgramEntry := ⟨4, 7, 0xffffffff, 0, 0, 0xffffffff, 0, 3⟩
    let text : ProgramEntry := ⟨1, 0xd, 0, 0x10000, 0, 0x40, 0x1000, 0x1000⟩
    let data : ProgramEntry := ⟨1, 6, 0x30, 0x20000, 7, 0x60, 0x60, 0⟩
    let beyond : ProgramEntry := ⟨1, 6, 0xffffffffffffffff, 0x20000, 0, 2, 2, 8⟩
    let f : PlainFile := ⟨0x10004, [0xaa], [note, text, data], [1, 2, 3], by decide, by decide⟩
    let g : PlainFile := ⟨0, [], [text, beyond], [], by decide, by decide⟩
    File.read?.Lawful ∧ (f.Narrow ∧ (∃ p ∈ f.programs, p.kind = 1) ∧
      (∀ p ∈ f.programs, p.kind ≠ 2 ∧ p.kind ≠ 3) ∧
      (∀ p ∈ f.loads, p.Within (f.bytes .bits32).length) ∧
      (f.object .bits32).segments.map (·.protection) = [⟨true, false, true⟩, ⟨true, true, false⟩] ∧
      ElfObject.parse File.read? (f.bytes .bits32) = .ok (f.object .bits32)) ∧
    (∃ p ∈ g.programs, p.kind = 1) ∧ (∀ p ∈ g.programs, p.kind ≠ 2 ∧ p.kind ≠ 3) ∧
      (∃ p ∈ g.loads, ¬ p.Within (g.bytes .bits64).length) ∧
      ∃ before p after, g.loads = before ++ p :: after ∧
        (∀ q ∈ before, q.Within (g.bytes .bits64).length) ∧ ¬ p.Within (g.bytes .bits64).length ∧
        ElfObject.parse File.read? (g.bytes .bits64) = .error p.fault := by
  intro note text data beyond f g
  have narrow : f.Narrow := by decide
  have within : ∀ p ∈ f.loads, p.Within (f.bytes .bits32).length := by
    rw [length_bytes]
    decide
  have outside : ∃ p ∈ g.loads, ¬ p.Within (g.bytes .bits64).length := by
    rw [length_bytes]
    decide
  have lawful := File.lawful_read?
  have read := headers_read_back lawful .bits32 f (fun _ => narrow) (by decide) (by decide)
  have refused := headers_read_back lawful .bits64 g nofun (by decide) (by decide)
  exact ⟨lawful, ⟨narrow, by decide, by decide, within, by decide, read.1 within⟩, by decide,
    by decide, outside, refused.2 outside⟩

end PlainFile

end AppHost.Elf
