import AppHost.Proofs.Linkage.Loading
/-! The life of a linkage: modules are added until the first attempt to link, which relocates them
once; from then on only parsed objects are dropped. One relation says what a call can change, and
every law of a whole life is carried through it. -/
namespace AppHost

open Memory

theorem StagedModule.of_ok {image : Image} {entry : Option Word} {exports : List Export}
    {executable : Bool} {staged : StagedModule}
    (h : StagedModule.of image entry exports executable = .ok staged) :
    staged.entry = (if executable then entry.bind image.translate? else none) ∧
      staged.entry.isSome = executable ∧
      exports.mapM (StagedModule.address image) = .ok staged.exports := by
  cases executable with
  | false =>
    obtain ⟨found, entered, h⟩ := bind_eq_ok.mp h
    obtain ⟨addresses, offered, h⟩ := bind_eq_ok.mp h
    cases h
    cases entered
    exact ⟨rfl, rfl, offered⟩
  | true =>
    obtain ⟨found, entered, h⟩ := bind_eq_ok.mp h
    obtain ⟨addresses, offered, h⟩ := bind_eq_ok.mp h
    cases h
    unfold entryPoint at entered
    cases translated : entry.bind image.translate? with
    | none =>
      rw [translated] at entered
      cases entered
    | some address =>
      rw [translated] at entered
      cases entered
      exact ⟨rfl, rfl, offered⟩

def LoadedModule.facts {σ : Type} [Allocator σ] (m : LoadedModule σ) :
    String × Image × List String :=
  (m.name, m.image, m.needed)

def LinkageCall.IsLoad : LinkageCall → Prop
  | .loadLibrary _ _ | .loadExecutable _ _ => True
  | _ => False

namespace Linkage

variable {σ : Type} [Allocator σ]

/-- Relocating modules in order against one table, up to the first that fails. Each of them still
has its parsed object. -/
inductive Relocates (symbols : SymbolTable) :
    List (LoadedModule σ) → Arena σ → Except LoadError Unit → Arena σ → Prop where
  | done (a : Arena σ) : Relocates symbols [] a (.ok ()) a
  | next {m rest object a b c outcome} (parsed : m.object = some object)
      (moved : object.relocate m.image symbols a = (.ok (), b))
      (others : Relocates symbols rest b outcome c) : Relocates symbols (m :: rest) a outcome c
  | stop {m rest object a b e} (parsed : m.object = some object)
      (failed : object.relocate m.image symbols a = (.error e, b)) :
      Relocates symbols (m :: rest) a (.error e) b

/-- Relocation works on the arena alone, and on every module that still has its object. -/
theorem relocateAll_cases (l : Linkage σ) (modules : List (LoadedModule σ)) :
    ∃ outcome arena journal, l.relocateAll modules = (outcome, { l with arena, journal }) ∧
      ((∀ m ∈ modules, ∃ object, m.object = some object) →
        Relocates l.symbols modules l.arena outcome arena) := by
  induction modules generalizing l with
  | nil => exact ⟨.ok (), l.arena, l.journal, rfl, fun _ => .done l.arena⟩
  | cons m rest ih =>
    unfold relocateAll
    cases parsed : m.object with
    | none =>
      refine ⟨_, l.arena, l.journal, rfl, ?_⟩
      intro all
      obtain ⟨object, found⟩ := all m List.mem_cons_self
      rw [parsed] at found
      cases found
    | some object =>
      simp only [note]
      cases moved : object.relocate m.image l.symbols l.arena with
      | mk outcome arena =>
        cases outcome with
        | error e => exact ⟨_, _, _, rfl, fun _ => .stop parsed moved⟩
        | ok =>
          obtain ⟨outcome, after, journal, eq, relocates⟩ :=
            ih { l with arena, journal := l.journal ++ [.relocating m.name object.format] }
          refine ⟨outcome, after, journal, eq, ?_⟩
          intro all
          exact .next parsed moved (relocates fun other ho => all other (List.mem_cons_of_mem m ho))

theorem link_first {l : Linkage σ} (first : l.attempted = false) :
    ∃ outcome arena journal, l.link = (outcome, { l with
        arena, journal, attempted := true, succeeded := outcome.isOk || l.succeeded }) ∧
      ((∀ m ∈ l.modules, ∃ object, m.object = some object) →
        Relocates l.symbols l.modules l.arena outcome arena) := by
  obtain ⟨outcome, arena, journal, eq, relocates⟩ :=
    relocateAll_cases { l with attempted := true } l.modules
  refine ⟨outcome, arena, journal, ?_, relocates⟩
  unfold link
  rw [first, if_neg (by decide), eq]
  cases outcome <;> rfl

theorem link_again {l : Linkage σ} (attempted : l.attempted = true) :
    l.link = (if l.succeeded then .ok () else .error .linkFailed, l) := by
  simp [link, attempted]

theorem load_refused {l : Linkage σ} (attempted : l.attempted = true) (name : String)
    (source : Except FileError Bytes) :
    l.loadLibrary name source = (.error .linkAttempted, l) ∧
      l.loadExecutable name source = (.error .linkAttempted, l) := by
  simp [loadLibrary, load, loadExecutable, attempted]

/-- Everything that one call can make of a linkage. -/
inductive Step (l : Linkage σ) : LinkageCall → Linkage σ → Prop where
  /-- A load was refused or failed, a link was repeated, or the arena was used. -/
  | idle (call arena journal) (linked : call = .link → l.attempted = true) :
      Step l call { l with arena, journal }
  | bound (symbols) : Step l (.setSymbols symbols) { l with symbols }
  | library {name bytes object} {image : Image} (first : l.attempted = false)
      (parsed : l.parser bytes = .ok object) (arena symbols journal) :
      Step l (.loadLibrary name (.ok bytes)) { l with
        arena, symbols, journal
        modules := l.modules ++ [⟨name, { image with entry := none }, object.needed, some object⟩] }
  | executable {name bytes object} {image : Image} {address : Word} (first : l.attempted = false)
      (only : l.hasExecutable = false) (parsed : l.parser bytes = .ok object)
      (entered : object.entry.bind image.translate? = some address) (arena symbols journal) :
      Step l (.loadExecutable name (.ok bytes)) { l with
        arena, symbols, journal
        modules := l.modules ++
          [⟨name, { image with entry := some address }, object.needed, some object⟩]
        hasExecutable := true
        entry := some address }
  | linked (first : l.attempted = false) (ok : Bool) (arena journal) :
      Step l .link { l with arena, journal, attempted := true, succeeded := ok || l.succeeded }
  | collected (attempted : l.attempted = true) :
      Step l .collect { l with modules := l.modules.map ({ · with object := none }) }

theorem loadLibrary_step (l : Linkage σ) (name : String) (source : Except FileError Bytes) :
    l.Step (.loadLibrary name source) (l.loadLibrary name source).2 := by
  unfold loadLibrary
  rcases l.load_cases name source false with
    ⟨e, arena, journal, eq⟩ |
    ⟨bytes, object, image, arena, staged, first, rfl, parsed, -, ready, eq⟩
  · rw [eq]
    exact .idle _ arena journal nofun
  · obtain ⟨entered, -, -⟩ := StagedModule.of_ok ready
    obtain ⟨symbols, journal, added⟩ :=
      add_frame { l.note (.parsed name) with arena } name object image staged
    rw [eq, added, entered]
    exact .library first parsed arena symbols journal

theorem loadExecutable_step (l : Linkage σ) (name : String) (source : Except FileError Bytes) :
    l.Step (.loadExecutable name source) (l.loadExecutable name source).2 := by
  rcases l.loadExecutable_cases name source with ⟨e, arena, journal, eq⟩ | ⟨after, only, loaded, eq⟩
  · rw [eq]
    exact .idle _ arena journal nofun
  rcases l.load_cases name source true with ⟨e, arena, journal, no⟩ |
      ⟨bytes, object, image, arena, staged, first, rfl, parsed, -, ready, eq'⟩
  · rw [loaded] at no
    cases no
  · obtain ⟨entered, some_entry, -⟩ := StagedModule.of_ok ready
    obtain ⟨address, found⟩ := Option.isSome_iff_exists.mp some_entry
    obtain ⟨symbols, journal, added⟩ :=
      add_frame { l.note (.parsed name) with arena } name object image staged
    rw [loaded, added, found] at eq'
    cases eq'
    rw [eq]
    simp only [List.getLast?_concat, Option.bind_some]
    exact .executable first only parsed (entered.symm.trans found) arena symbols journal

theorem act_step (l : Linkage σ) (call : LinkageCall) : l.Step call (l.act call) := by
  cases call with
  | loadLibrary name source => exact l.loadLibrary_step name source
  | loadExecutable name source => exact l.loadExecutable_step name source
  | link =>
    change l.Step .link l.link.2
    by_cases attempted : l.attempted = true
    · rw [link_again attempted]
      exact .idle .link l.arena l.journal fun _ => attempted
    · have first : l.attempted = false := by simpa using attempted
      obtain ⟨outcome, arena, journal, eq, -⟩ := link_first first
      rw [eq]
      exact .linked first outcome.isOk arena journal
  | collect =>
    change l.Step .collect l.collect
    unfold collect
    by_cases attempted : l.attempted = true
    · rw [if_pos attempted]
      exact .collected attempted
    · rw [if_neg attempted]
      exact .idle .collect l.arena l.journal nofun
  | setSymbols symbols => exact .bound symbols
  | memory operation => exact .idle _ (l.arena.perform operation) l.journal nofun

theorem after_preserves {P : Linkage σ → Prop}
    (step : ∀ {l l' : Linkage σ} {call}, P l → l.Step call l' → P l') {l : Linkage σ} (start : P l)
    (calls : List LinkageCall) : P (l.after calls) := by
  induction calls generalizing l with
  | nil => exact start
  | cons call rest ih => exact ih (step start (l.act_step call))

/-- A property of fresh linkages that no step ends. -/
structure Lifelong (P : Linkage σ → Prop) : Prop where
  empty : ∀ arena parser policy, P (.empty arena parser policy)
  step : ∀ {l l' : Linkage σ} {call}, P l → l.Step call l' → P l'

theorem Lifelong.after {P : Linkage σ → Prop} (life : Lifelong P) {l : Linkage σ} (start : P l)
    (calls : List LinkageCall) : P (l.after calls) :=
  after_preserves life.step start calls

theorem Lifelong.idle {P : Linkage σ → Prop} (life : Lifelong P) {l : Linkage σ} (start : P l)
    (arena : Arena σ) (journal : List LinkEvent) : P { l with arena, journal } :=
  life.step start (.idle .collect arena journal nofun)

theorem after_append (l : Linkage σ) (first second : List LinkageCall) :
    l.after (first ++ second) = (l.after first).after second := List.foldl_append

variable {l l' : Linkage σ} {call : LinkageCall}

theorem Step.parser (next : l.Step call l') : l'.parser = l.parser := by
  cases next <;> rfl

theorem parser_after (l : Linkage σ) (calls : List LinkageCall) :
    (l.after calls).parser = l.parser :=
  after_preserves (P := fun l' => l'.parser = l.parser) (fun same next => next.parser.trans same)
    rfl calls

theorem Step.policy (next : l.Step call l') : l'.policy = l.policy := by
  cases next <;> rfl

theorem policy_after (l : Linkage σ) (calls : List LinkageCall) :
    (l.after calls).policy = l.policy :=
  after_preserves (P := fun l' => l'.policy = l.policy) (fun same next => next.policy.trans same)
    rfl calls

theorem Step.attempted_iff (next : l.Step call l') :
    l'.attempted = true ↔ l.attempted = true ∨ call = .link := by
  cases next with
  | idle _ _ _ linked =>
    constructor
    · exact Or.inl
    · rintro (before | now)
      · exact before
      · exact linked now
  | linked => simp
  | _ => simp

theorem attempted_after (l : Linkage σ) (calls : List LinkageCall) :
    (l.after calls).attempted = true ↔ l.attempted = true ∨ .link ∈ calls := by
  induction calls generalizing l with
  | nil => simp [after]
  | cons call rest ih =>
    have later : (l.after (call :: rest)).attempted = true ↔ _ := ih (l.act call)
    rw [later, (l.act_step call).attempted_iff, List.mem_cons, or_assoc, @eq_comm _ _ call]

theorem unattempted_of_loads {l : Linkage σ} (first : l.attempted = false)
    {calls : List LinkageCall} (loads : ∀ c ∈ calls, c.IsLoad) :
    (l.after calls).attempted = false := by
  refine Bool.eq_false_iff.mpr ?_
  intro attempted
  rcases (l.attempted_after calls).mp attempted with before | called
  · rw [first] at before
    cases before
  · exact loads .link called

/-- The state of a linkage at any time of its life. -/
structure Coherent (l : Linkage σ) : Prop where
  attempted : l.succeeded = true → l.attempted = true
  executable : l.hasExecutable = l.entry.isSome
  /-- At most one module carries an entry point, and it is the linkage's. -/
  entries : l.modules.filterMap (·.image.entry) = l.entry.toList
  parsed : l.attempted = false → ∀ m ∈ l.modules, ∃ object bytes,
    m.object = some object ∧ l.parser bytes = .ok object

theorem coherent_empty (arena : Arena σ) (parser : ObjectParser σ) (policy : CollisionPolicy) :
    (empty arena parser policy).Coherent := by
  constructor
  · intro no
    cases no
  · rfl
  · rfl
  · intro _ m hm
    cases hm

theorem Coherent.added (h : l.Coherent) {m : LoadedModule σ} {object : Object σ}
    {bytes : Bytes} (found : m.object = some object) (parsed : l.parser bytes = .ok object)
    (first : l.attempted = false) : ∀ n ∈ l.modules ++ [m], ∃ object bytes,
      n.object = some object ∧ l.parser bytes = .ok object := by
  intro n hn
  rcases List.mem_append.mp hn with hn | hn
  · exact h.parsed first n hn
  · cases List.mem_singleton.mp hn
    exact ⟨object, bytes, found, parsed⟩

theorem Coherent.step (h : l.Coherent) (next : l.Step call l') : l'.Coherent := by
  cases next with
  | idle => exact ⟨h.attempted, h.executable, h.entries, h.parsed⟩
  | bound => exact ⟨h.attempted, h.executable, h.entries, h.parsed⟩
  | library first parsed =>
    constructor
    · exact h.attempted
    · exact h.executable
    · simpa using h.entries
    · intro _
      exact h.added rfl parsed first
  | executable first only parsed entered =>
    have none_yet : l.entry = none := by simpa [h.executable] using only
    have entries := h.entries
    rw [none_yet] at entries
    constructor
    · exact h.attempted
    · rfl
    · simp [entries]
    · intro _
      exact h.added rfl parsed first
  | linked =>
    constructor
    · intro _
      rfl
    · exact h.executable
    · exact h.entries
    · intro no
      cases no
  | collected attempted =>
    constructor
    · exact h.attempted
    · exact h.executable
    · simpa [List.filterMap_map, Function.comp_def] using h.entries
    · intro first
      rw [attempted] at first
      cases first

theorem lifelong_coherent : Lifelong (σ := σ) Coherent := ⟨coherent_empty, Coherent.step⟩

/-- The entry point of a linkage is carried by exactly one module, or there is none. -/
theorem Coherent.carriers (h : l.Coherent) :
    l.entry.isSome = true ↔ l.modules.countP (·.image.entry.isSome) = 1 := by
  have carried := congrArg List.length h.entries
  rw [List.length_filterMap_eq_countP] at carried
  rw [carried]
  cases l.entry <;> simp

/-- What cannot change any more once linking was attempted. -/
structure Frozen (l l' : Linkage σ) : Prop where
  attempted : l'.attempted = true
  facts : l'.modules.map (·.facts) = l.modules.map (·.facts)
  entry : l'.entry = l.entry
  executable : l'.hasExecutable = l.hasExecutable
  succeeded : l'.succeeded = l.succeeded

theorem Frozen.step {last : Linkage σ} (h : l.Frozen l') (next : l'.Step call last) :
    l.Frozen last := by
  have closed : ¬ l'.attempted = false := by simp [h.attempted]
  cases next with
  | idle => exact ⟨h.attempted, h.facts, h.entry, h.executable, h.succeeded⟩
  | bound => exact ⟨h.attempted, h.facts, h.entry, h.executable, h.succeeded⟩
  | library first => exact absurd first closed
  | executable first => exact absurd first closed
  | linked first => exact absurd first closed
  | collected attempted =>
    refine ⟨h.attempted, ?_, h.entry, h.executable, h.succeeded⟩
    rw [← h.facts, List.map_map]
    rfl

theorem frozen_after (attempted : l.attempted = true) (calls : List LinkageCall) :
    l.Frozen (l.after calls) :=
  after_preserves Frozen.step ⟨attempted, rfl, rfl, rfl, rfl⟩ calls

/-- The entry point is where an object put it that was loaded from these bytes under this name:
one of the modules has the object's needs, and its own image gave the declared entry a place. -/
def EnteredFrom (l : Linkage σ) (name : String) (bytes : Bytes) : Prop :=
  ∃ object, ∃ m ∈ l.modules, l.parser bytes = .ok object ∧ m.name = name ∧
    m.needed = object.needed ∧ (∀ o, m.object = some o → o = object) ∧
    m.image.entry = l.entry ∧ l.entry = object.entry.bind m.image.translate? ∧
    l.entry.isSome = true

theorem EnteredFrom.step {name : String} {bytes : Bytes}
    (h : l.Coherent ∧ l.EnteredFrom name bytes) (next : l.Step call l') :
    l'.Coherent ∧ l'.EnteredFrom name bytes := by
  refine ⟨h.1.step next, ?_⟩
  obtain ⟨object, m, hm, parsed, named, needed, held, carried, entered, found⟩ := h.2
  cases next with
  | idle => exact ⟨object, m, hm, parsed, named, needed, held, carried, entered, found⟩
  | bound => exact ⟨object, m, hm, parsed, named, needed, held, carried, entered, found⟩
  | library =>
    exact ⟨object, m, List.mem_append_left _ hm, parsed, named, needed, held, carried, entered,
      found⟩
  | executable first only =>
    rw [h.1.executable, found] at only
    cases only
  | linked => exact ⟨object, m, hm, parsed, named, needed, held, carried, entered, found⟩
  | collected =>
    exact ⟨object, { m with object := none }, List.mem_map_of_mem hm, parsed, named, needed, nofun,
      carried, entered, found⟩

theorem Coherent.entered_from (h : l.Coherent) (none_yet : l.entry = none)
    (calls : List LinkageCall) (entered : (l.after calls).entry.isSome = true) :
    ∃ name bytes, .loadExecutable name (.ok bytes) ∈ calls ∧
      (l.after calls).EnteredFrom name bytes := by
  induction calls generalizing l with
  | nil =>
    change l.entry.isSome = true at entered
    rw [none_yet] at entered
    cases entered
  | cons call rest ih =>
    have next := l.act_step call
    have coherent := h.step next
    by_cases still : (l.act call).entry = none
    · obtain ⟨name, bytes, called, from_there⟩ := ih coherent still entered
      exact ⟨name, bytes, List.mem_cons_of_mem call called, from_there⟩
    · -- only the load of an executable sets the entry point
      suffices now : ∃ name bytes, call = .loadExecutable name (.ok bytes) ∧
          (l.act call).EnteredFrom name bytes by
        obtain ⟨name, bytes, rfl, entered⟩ := now
        exact ⟨name, bytes, List.mem_cons_self,
          (after_preserves EnteredFrom.step ⟨coherent, entered⟩ rest).2⟩
      generalize eq : l.act call = l' at next still
      cases next with
      | executable first only parsed declared =>
        exact ⟨_, _, rfl, _, _, List.mem_concat_self, parsed, rfl, rfl,
          fun o ho => (Option.some.inj ho).symm, rfl, declared.symm, rfl⟩
      | _ => exact absurd none_yet still

theorem Step.executable_stays (executable : l.hasExecutable = true) (next : l.Step call l') :
    l'.hasExecutable = true := by
  cases next with
  | executable => rfl
  | _ => exact executable

theorem loadExecutable_executable {name : String} {source : Except FileError Bytes}
    (loaded : l.loadExecutable name source = (.ok (), l')) : l'.hasExecutable = true := by
  rcases l.loadExecutable_cases name source with ⟨e, arena, journal, eq⟩ | ⟨after, -, -, eq⟩
  · rw [eq] at loaded
    cases loaded
  · rw [eq] at loaded
    cases loaded
    rfl

theorem link_succeeded (linked : l.link = (.ok (), l')) : l'.succeeded = true := by
  by_cases attempted : l.attempted = true
  · obtain ⟨repeated, rfl⟩ := Prod.mk.inj ((link_again attempted).symm.trans linked)
    by_cases succeeded : l.succeeded = true
    · exact succeeded
    · rw [if_neg succeeded] at repeated
      cases repeated
  · obtain ⟨outcome, arena, journal, eq, -⟩ := link_first (by simpa using attempted)
    rw [eq] at linked
    cases linked
    rfl

theorem program_of_link (executable : l.hasExecutable = true) (linked : l.link = (.ok (), l')) :
    l'.isProgram = true := by
  have step := l.act_step .link
  change l.Step .link l.link.2 at step
  rw [linked] at step
  rw [isProgram, step.executable_stays executable, link_succeeded linked]
  rfl

theorem Coherent.entry_of_program (h : l.Coherent) (program : l.isProgram = true) :
    l.entry.isSome = true := by
  have executable : l.hasExecutable = true := (Bool.and_eq_true_iff.mp program).1
  rwa [h.executable] at executable

theorem Coherent.relocates (h : l.Coherent) (first : l.attempted = false) :
    Relocates l.symbols l.modules l.arena l.link.1 l.link.2.arena := by
  obtain ⟨outcome, arena, journal, eq, relocates⟩ := link_first first
  rw [eq]
  refine relocates ?_
  intro m hm
  obtain ⟨object, bytes, found, -⟩ := h.parsed first m hm
  exact ⟨object, found⟩

/-- The order of a life: what a linkage shows after calls on it, and after later ones. -/
structure Lifecycle (calls later : List LinkageCall) (l : Linkage σ) : Prop where
  succeeded : l.succeeded = true → l.attempted = true
  attempted : l.attempted = true ↔ .link ∈ calls
  executable : l.hasExecutable = true ↔ l.entry.isSome = true
  carried : l.entry.isSome = true ↔ l.modules.countP (·.image.entry.isSome) = 1
  declared : l.entry.isSome = true → ∃ name bytes,
    .loadExecutable name (.ok bytes) ∈ calls ∧ l.EnteredFrom name bytes
  parsed : .link ∉ calls → ∀ m ∈ l.modules, m.object.isSome = true
  apart : ¬ (l.isProgram = true ∧ l.isLibrary = true)
  unlinked : .link ∉ calls → l.isProgram = false ∧ l.isLibrary = false
  program : l.isProgram = true → (l.after later).isProgram = true
  library : l.isLibrary = true → (l.after later).isLibrary = true
  refused : .link ∈ calls → ∀ name source,
    ((l.after later).loadLibrary name source).1 = .error .linkAttempted ∧
      ((l.after later).loadExecutable name source).1 = .error .linkAttempted
  frozen : .link ∈ calls → l.Frozen (l.after later)

theorem lifecycle_after (arena : Arena σ) (parser : ObjectParser σ) (policy : CollisionPolicy)
    (calls later : List LinkageCall) :
    ((empty arena parser policy).after calls).Lifecycle calls later := by
  have fresh : (empty arena parser policy).Coherent := coherent_empty arena parser policy
  have attempted : ((empty arena parser policy).after calls).attempted = true ↔ .link ∈ calls := by
    rw [attempted_after]
    simp [empty]
  have coherent := lifelong_coherent.after fresh calls
  have entered := fresh.entered_from rfl calls
  generalize (empty arena parser policy).after calls = l at *
  have unsuccessful (first : .link ∉ calls) : l.succeeded = false := by
    refine Bool.eq_false_iff.mpr ?_
    intro succeeded
    exact first (attempted.mp (coherent.attempted succeeded))
  -- a ready linkage was linked, and what it is ready for is frozen from then on
  have frozen (succeeded : l.succeeded = true) : l.Frozen (l.after later) :=
    frozen_after (coherent.attempted succeeded) later
  constructor
  · exact coherent.attempted
  · exact attempted
  · rw [coherent.executable]
  · exact coherent.carriers
  · exact entered
  · intro first m hm
    have unattempted : l.attempted = false := Bool.eq_false_iff.mpr (first ∘ attempted.mp)
    obtain ⟨object, bytes, found, -⟩ := coherent.parsed unattempted m hm
    exact Option.isSome_iff_exists.mpr ⟨object, found⟩
  · simp only [isProgram, isLibrary, Bool.and_eq_true, Bool.not_eq_true']
    rintro ⟨⟨yes, -⟩, no, -⟩
    rw [yes] at no
    cases no
  · intro first
    simp [isProgram, isLibrary, unsuccessful first]
  · intro program
    have kept := frozen (Bool.and_eq_true_iff.mp program).2
    rwa [isProgram, kept.executable, kept.succeeded]
  · intro library
    have kept := frozen (Bool.and_eq_true_iff.mp library).2
    rwa [isLibrary, kept.executable, kept.succeeded]
  · intro linked name source
    obtain ⟨library, executable⟩ :=
      load_refused (frozen_after (attempted.mpr linked) later).attempted name source
    exact ⟨congrArg Prod.fst library, congrArg Prod.fst executable⟩
  · intro linked
    exact frozen_after (attempted.mpr linked) later

end Linkage

end AppHost
