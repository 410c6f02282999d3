import AppHost.Linkage.Call
import AppHost.Object.Declared
import AppHost.Proofs.Linkage.Placement
import AppHost.Proofs.Memory.Heap
/-! Loads that fail. Nothing is published before the last step that can fail, and the mapping made
on the way is given back, so a failed load cannot be seen in the linkage or in its arena. -/
namespace AppHost

open Memory

namespace Linkage

variable {σ : Type} [Allocator σ]

theorem publish_frame (module : String) (l : Linkage σ) (name : String) (address : Word) :
    ∃ symbols journal, publish module l name address = { l with symbols, journal } := by
  unfold publish
  split
  · simp only
    split <;> exact ⟨_, _, rfl⟩
  · exact ⟨_, l.journal, rfl⟩

theorem publishAll_frame (module : String) (l : Linkage σ) (exports : List (String × Word)) :
    ∃ symbols journal,
      exports.foldl (fun l (symbol, address) => publish module l symbol address) l =
        { l with symbols, journal } := by
  induction exports generalizing l with
  | nil => exact ⟨l.symbols, l.journal, rfl⟩
  | cons e rest ih =>
    obtain ⟨symbols, journal, first⟩ := publish_frame module l e.1 e.2
    obtain ⟨symbols', journal', later⟩ := ih (publish module l e.1 e.2)
    exact ⟨symbols', journal', by rw [List.foldl_cons, later, first]⟩

theorem add_frame (l : Linkage σ) (name : String) (object : Object σ) (image : Image)
    (staged : StagedModule) : ∃ symbols journal, l.add name object image staged =
      { l with
        symbols, journal
        modules := l.modules ++
          [⟨name, { image with entry := staged.entry }, object.needed, some object⟩] } := by
  obtain ⟨symbols, journal, eq⟩ := publishAll_frame name l staged.exports
  exact ⟨symbols, _, by simp only [add, eq]; rfl⟩

theorem add_arena (l : Linkage σ) (name : String) (object : Object σ) (image : Image)
    (staged : StagedModule) : (l.add name object image staged).arena = l.arena := by
  obtain ⟨symbols, journal, eq⟩ := l.add_frame name object image staged
  rw [eq]

/-- Everything that loading can come to: a failure that shows in the arena and the journal at most,
or an object placed, staged and added. -/
theorem load_cases (l : Linkage σ) (name : String) (source : Except FileError Bytes)
    (executable : Bool) :
    (∃ e arena journal, l.load name source executable = (.error e, { l with arena, journal })) ∨
    ∃ bytes object image arena staged, l.attempted = false ∧ source = .ok bytes ∧
      l.parser bytes = .ok object ∧ Image.place object.segments l.arena = (.ok image, arena) ∧
      StagedModule.of image object.entry object.exports executable = .ok staged ∧
      l.load name source executable =
        (.ok (), ({ l.note (.parsed name) with arena }).add name object image staged) := by
  unfold load
  by_cases attempted : l.attempted = true
  · rw [if_pos attempted]
    exact Or.inl ⟨_, l.arena, l.journal, rfl⟩
  rw [if_neg attempted]
  cases source with
  | error e => exact Or.inl ⟨_, l.arena, l.journal, rfl⟩
  | ok bytes =>
    cases parsed : l.parser bytes with
    | error e => exact Or.inl ⟨e, l.arena, l.journal, by simp [parsed]⟩
    | ok object =>
      simp only [parsed, accept]
      cases placed : Image.place object.segments (l.note (.parsed name)).arena with
      | mk outcome arena =>
        cases outcome with
        | error e => exact Or.inl ⟨e, arena, _, rfl⟩
        | ok image =>
          simp only
          cases ready : StagedModule.of image object.entry object.exports executable with
          | error e => exact Or.inl ⟨e, _, _, rfl⟩
          | ok staged =>
            exact Or.inr ⟨bytes, object, image, arena, staged, by simpa using attempted, rfl,
              parsed, placed, ready, rfl⟩

theorem loadExecutable_cases (l : Linkage σ) (name : String) (source : Except FileError Bytes) :
    (∃ e arena journal, l.loadExecutable name source = (.error e, { l with arena, journal })) ∨
    ∃ after, l.hasExecutable = false ∧ l.load name source true = (.ok (), after) ∧
      l.loadExecutable name source = (.ok (), { after with
        hasExecutable := true, entry := after.modules.getLast?.bind (·.image.entry) }) := by
  unfold loadExecutable
  by_cases attempted : l.attempted = true
  · rw [if_pos attempted]
    exact Or.inl ⟨_, l.arena, l.journal, rfl⟩
  by_cases loaded : l.hasExecutable = true
  · rw [if_neg attempted, if_pos loaded]
    exact Or.inl ⟨_, l.arena, l.journal, rfl⟩
  rw [if_neg attempted, if_neg loaded]
  cases h : l.load name source true with
  | mk outcome after =>
    cases outcome with
    | ok => exact Or.inr ⟨after, by simpa using loaded, rfl, rfl⟩
    | error e =>
      rcases l.load_cases name source true with
        ⟨e', arena, journal, eq⟩ | ⟨_, _, _, _, _, -, -, -, -, -, eq⟩
      · rw [h] at eq
        cases eq
        exact Or.inl ⟨e, arena, journal, rfl⟩
      · rw [h] at eq
        cases eq

theorem load_ok {l after : Linkage σ} {name : String} {source : Except FileError Bytes}
    {executable : Bool} (h : l.load name source executable = (.ok (), after)) :
    ∃ bytes object m, source = .ok bytes ∧ l.parser bytes = .ok object ∧
      m.name = name ∧ m.needed = object.needed ∧
      after.modules = l.modules ++ [m] ∧ after.parser = l.parser := by
  rcases l.load_cases name source executable with
    ⟨e, arena, journal, eq⟩ |
    ⟨bytes, object, image, arena, staged, -, read, parsed, -, -, eq⟩ <;> rw [h] at eq
  · cases eq
  · obtain ⟨symbols, journal, added⟩ :=
      add_frame { l.note (.parsed name) with arena } name object image staged
    rw [added] at eq
    cases eq
    exact ⟨bytes, object, _, read, parsed, rfl, rfl, rfl, rfl⟩

theorem loadExecutable_ok {l after : Linkage σ} {name : String} {source : Except FileError Bytes}
    (h : l.loadExecutable name source = (.ok (), after)) :
    ∃ m, m.name = name ∧ after.modules = l.modules ++ [m] := by
  rcases l.loadExecutable_cases name source with
    ⟨e, arena, journal, eq⟩ | ⟨loaded, -, done, eq⟩ <;> rw [h] at eq <;> cases eq
  obtain ⟨bytes, object, m, -, -, named, -, modules, -⟩ := load_ok done
  exact ⟨m, named, modules⟩

theorem accept_reaches (l : Linkage σ) (name : String) (object : Object σ) (executable : Bool) :
    l.arena.Reaches (l.accept name object executable).2.arena := by
  have placed := Image.place_reaches object.segments l.arena
  unfold accept
  cases hp : Image.place object.segments l.arena with
  | mk outcome arena =>
    rw [hp] at placed
    cases outcome with
    | error e => exact placed
    | ok image =>
      simp only
      split
      · exact placed.trans (Image.discard_reaches image arena)
      · rw [add_arena]
        exact placed

theorem load_reaches (l : Linkage σ) (name : String) (source : Except FileError Bytes)
    (executable : Bool) : l.arena.Reaches (l.load name source executable).2.arena := by
  unfold load
  split
  · exact .refl _
  · split
    · exact .refl _
    · split
      · exact .refl _
      · rename_i object _
        exact accept_reaches (l.note (.parsed name)) name object executable

theorem loadExecutable_reaches (l : Linkage σ) (name : String) (source : Except FileError Bytes) :
    l.arena.Reaches (l.loadExecutable name source).2.arena := by
  have loaded := l.load_reaches name source true
  unfold loadExecutable
  split
  · exact .refl _
  · split
    · exact .refl _
    · split <;> rename_i h <;> rw [h] at loaded <;> exact loaded

theorem relocateAll_reaches (l : Linkage σ) (modules : List (LoadedModule σ)) :
    l.arena.Reaches (l.relocateAll modules).2.arena := by
  induction modules generalizing l with
  | nil => exact .refl _
  | cons m rest ih =>
    unfold relocateAll
    split
    · exact .refl _
    · rename_i object _
      have confined := object.confined m.image l.symbols l.arena
      simp only [note]
      split <;> rename_i h <;> rw [h] at confined
      · exact confined.trans (ih _)
      · exact confined

theorem link_reaches (l : Linkage σ) : l.arena.Reaches l.link.2.arena := by
  have relocated := relocateAll_reaches { l with attempted := true } l.modules
  unfold link
  split
  · exact .refl _
  · split <;> rename_i h <;> rw [h] at relocated <;> exact relocated

theorem collect_arena (l : Linkage σ) : l.collect.arena = l.arena := by
  unfold collect
  split <;> rfl

theorem act_reaches (l : Linkage σ) (call : LinkageCall) : l.arena.Reaches (l.act call).arena := by
  cases call with
  | loadLibrary name source => exact l.load_reaches name source false
  | loadExecutable name source => exact l.loadExecutable_reaches name source
  | link => exact l.link_reaches
  | collect =>
    change l.arena.Reaches l.collect.arena
    rw [collect_arena]
    exact .refl _
  | setSymbols symbols => exact .refl _
  | memory operation => exact Arena.reaches_perform l.arena operation

theorem after_reaches (l : Linkage σ) (calls : List LinkageCall) :
    l.arena.Reaches (l.after calls).arena := by
  induction calls generalizing l with
  | nil => exact .refl _
  | cons call rest ih => exact (l.act_reaches call).trans (ih (l.act call))

variable {backs : σ → List Region → Prop}

/-- A linkage that differs from another in its journal at most, over an arena that was given
back whatever was taken from its allocator. -/
def Unchanged (l after : Linkage (Audited σ)) : Prop :=
  ∃ arena journal, after = { l with arena, journal } ∧ l.arena.Restores arena

theorem Unchanged.refl (l : Linkage (Audited σ)) : l.Unchanged l :=
  ⟨l.arena, l.journal, rfl, .refl l.arena⟩

theorem accept_error (laws : Backing backs) {l after : Linkage (Audited σ)}
    (held : l.arena.Held backs) {name : String} {object : Object (Audited σ)} {executable : Bool}
    {e : LoadError} (failed : l.accept name object executable = (.error e, after))
    (kept : after.arena.allocator.Kept) : l.Unchanged after := by
  unfold accept at failed
  cases hp : Image.place object.segments l.arena with
  | mk outcome arena =>
    have placed : (Image.place object.segments l.arena).2.allocator.Kept := by
      refine Arena.Reaches.kept ?_ kept
      rw [hp] at failed ⊢
      cases outcome with
      | error cause =>
        cases failed
        exact .refl arena
      | ok image =>
        simp only at failed
        split at failed <;> cases failed
        exact Image.discard_reaches image arena
    rcases Image.place_cases laws held placed with
      ⟨cause, b, eq, restored⟩ | eq | ⟨image, size, raw, promise, b, eq, base, extended⟩ <;>
      simp only [eq] at failed
    · cases failed
      exact ⟨b, l.journal, rfl, restored⟩
    · split at failed <;> cases failed
      exact .refl l
    · split at failed <;> cases failed
      refine ⟨_, l.journal, rfl, ?_⟩
      simp only [Image.discard, base]
      exact extended.release laws held.paired

theorem load_error (laws : Backing backs) {l after : Linkage (Audited σ)}
    (held : l.arena.Held backs) {name : String} {source : Except FileError Bytes}
    {executable : Bool} {e : LoadError} (failed : l.load name source executable = (.error e, after))
    (kept : after.arena.allocator.Kept) : l.Unchanged after := by
  unfold load at failed
  split at failed
  · cases failed
    exact .refl l
  · split at failed
    · cases failed
      exact .refl l
    · split at failed
      · cases failed
        exact .refl l
      · rename_i bytes object parsed
        have noted : (l.note (.parsed name)).arena.Held backs := held
        obtain ⟨arena, journal, eq, restored⟩ := accept_error laws noted failed kept
        exact ⟨arena, journal, eq, restored⟩

theorem loadExecutable_error (laws : Backing backs) {l after : Linkage (Audited σ)}
    (held : l.arena.Held backs) {name : String} {source : Except FileError Bytes} {e : LoadError}
    (failed : l.loadExecutable name source = (.error e, after))
    (kept : after.arena.allocator.Kept) : l.Unchanged after := by
  unfold loadExecutable at failed
  split at failed
  · cases failed
    exact .refl l
  · split at failed
    · cases failed
      exact .refl l
    · split at failed <;> rename_i loaded <;> cases failed
      exact load_error laws held loaded kept

/-- Whatever a linkage and its arena went through before: a load that fails leaves the symbols,
the modules, the entry point, the flags and both lists of the arena as they were, every byte reads
as before, and what the allocator gave out meanwhile it got back, once. -/
theorem failed_load_leaves_no_trace (laws : Backing backs) (pid : Pid) {s : σ}
    (fresh : backs s []) (earlier : List Operation) (parser : ObjectParser (Audited σ))
    (policy : CollisionPolicy) (calls : List LinkageCall) (name : String)
    (source : Except FileError Bytes) (executable : Bool) (e : LoadError) :
    let arena := (Arena.empty pid (Audited.ofAllocator s)).run earlier
    let l := (Linkage.empty arena parser policy).after calls
    let r := if executable then l.loadExecutable name source else l.loadLibrary name source
    r.1 = .error e → r.2.arena.allocator.Kept →
      (r.2.symbols = l.symbols ∧ r.2.modules = l.modules ∧ r.2.entry = l.entry ∧
        r.2.hasExecutable = l.hasExecutable ∧ r.2.attempted = l.attempted ∧
        r.2.succeeded = l.succeeded) ∧
      (r.2.arena.actual = l.arena.actual ∧ r.2.arena.mapped = l.arena.mapped ∧
        ∀ address length, r.2.arena.read address length = l.arena.read address length) ∧
      (r.2.arena.allocator.history = l.arena.allocator.history ∨
        ∃ size raw, r.2.arena.allocator.history =
          l.arena.allocator.history ++ [.granted size raw, .released raw]) := by
  intro arena l r failed kept
  have loaded : l.arena.Reaches r.2.arena := by
    cases executable
    · exact l.load_reaches name source false
    · exact l.loadExecutable_reaches name source
  have reached : (Arena.empty pid (Audited.ofAllocator s)).Reaches l.arena :=
    Arena.Reaches.trans ⟨earlier, rfl⟩ (after_reaches (Linkage.empty arena parser policy) calls)
  have held : l.arena.Held backs :=
    (Arena.held_empty pid fresh).reaches laws reached (loaded.kept kept)
  have unchanged : l.Unchanged r.2 := by
    cases executable
    · exact load_error laws held (Prod.ext failed rfl) kept
    · exact loadExecutable_error laws held (Prod.ext failed rfl) kept
  obtain ⟨b, journal, eq, restored⟩ := unchanged
  rw [eq]
  exact ⟨⟨rfl, rfl, rfl, rfl, rfl, rfl⟩,
    ⟨restored.actual, restored.mapped, held.read_eq restored.mapped restored.keeps⟩,
    restored.history⟩

/-- An executable is loaded, then a library is placed and filled before its last export turns out
to lie outside. -/
theorem no_trace_of_export_outside :
    let data : Segment := ⟨0x1000, 16, 4096, [1, 2, 3], .readWrite⟩
    let program : DeclaredObject := ⟨[data], [], [⟨"main", 0x1000, false⟩], some 0x1000, [], none⟩
    let broken : DeclaredObject :=
      ⟨[data, ⟨0x2000, 8, 0, [4], .readWrite⟩], [], [⟨"one", 1, true⟩, ⟨"two", 0x3000, false⟩],
        none, [], none⟩
    let parser : ObjectParser (Audited HostHeap) := fun bytes =>
      .ok (if bytes.isEmpty then program.toObject else broken.toObject)
    let heap := HostHeap.empty none fun n _ => 0x10004 + 0x10000 * UInt64.ofNat n
    let arena := (Arena.empty 1 (Audited.ofAllocator heap)).run [.map 24 .readWrite 1]
    let l := (Linkage.empty arena parser .lastWins).after [.loadExecutable "main" (.ok [])]
    let r := l.loadLibrary "lib" (.ok [0])
    r.1 = .error (.invalid .exportOutside) ∧ r.2.arena.allocator.Kept ∧
      r.2.arena.allocator.history ≠ l.arena.allocator.history ∧
      r.2.modules = l.modules ∧ r.2.arena.mapped = l.arena.mapped := by
  intro data program broken parser heap arena l r
  have failed : r.1 = .error (.invalid .exportOutside) := by decide
  have kept : r.2.arena.allocator.Kept := by decide
  obtain ⟨⟨-, modules, -⟩, ⟨-, mapped, -⟩, -⟩ :=
    failed_load_leaves_no_trace HostHeap.backing 1 (Heap.backs_empty none)
      [.map 24 .readWrite 1] parser .lastWins [.loadExecutable "main" (.ok [])] "lib" (.ok [0])
      false _ failed kept
  exact ⟨failed, kept, by decide, modules, mapped⟩

end Linkage

end AppHost
