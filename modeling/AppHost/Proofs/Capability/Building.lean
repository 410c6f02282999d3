import AppHost.Host.Build
import AppHost.Host.Launch
import AppHost.Memory.Heap
import AppHost.Proofs.Capability.Catalog
/-! When the catalog is built. Calls try to build it, each from the first slot on, until the
generator has made a stub for every name; from then on the catalog alone answers. -/
namespace AppHost

/-- A generator makes stubs for the slots from one on, but not for the next of `count` slots. -/
inductive Refuses {γ : Type} [CodeGenerator γ] : γ → ℕ → ℕ → ExportError → γ → Prop where
  | refused {g h k slot count stubs e} (emits : Emits g slot stubs h) (more : stubs.length < count)
      (room : slot + stubs.length < UInt32.size)
      (refusal : CodeGenerator.emit h (UInt32.ofNat (slot + stubs.length)) = (.error e, k)) :
      Refuses g slot count e k
  /-- The slots are numbered in 32 bits. -/
  | full {g h slot count stubs} (emits : Emits g slot stubs h) (more : stubs.length < count)
      (last : slot + stubs.length = UInt32.size) : Refuses g slot count .tableFull h

theorem Refuses.after {γ : Type} [CodeGenerator γ] {g h k : γ} {slot count : ℕ} {stub : Word}
    {e : ExportError} (room : slot < UInt32.size)
    (answer : CodeGenerator.emit g (UInt32.ofNat slot) = (.ok stub, h))
    (later : Refuses h (slot + 1) count e k) : Refuses g slot (count + 1) e k := by
  cases later with
  | @refused h' _ _ _ stubs _ emits more left refusal =>
    have place : slot + 1 + stubs.length = slot + (stub :: stubs).length := by
      rw [List.length_cons]
      omega
    rw [place] at left refusal
    exact .refused (.next room answer emits) (by simpa using more) left refusal
  | @full _ _ _ stubs emits more last =>
    refine .full (.next room answer emits) (by simpa using more) ?_
    rw [List.length_cons]
    omega

namespace Capabilities

inductive Call where
  | exportInto (t : SymbolTable)
  | dispatch
  | isBuilt
  deriving DecidableEq

inductive Answer where
  | exported (outcome : Except ExportError SymbolTable)
  | dispatched (outcome : Except ExportError (List Word))
  | built (yes : Bool)
  deriving DecidableEq

end Capabilities

open Capabilities (Call Answer)
open Memory (HostHeap)

def Catalog.answer (catalog : Catalog) : Call → Answer
  | .exportInto t => .exported (.ok (t.merge catalog.symbols))
  | .dispatch => .dispatched (.ok catalog.dispatch)
  | .isBuilt => .built true

def ExportError.answer (e : ExportError) : Call → Answer
  | .exportInto _ => .exported (.error e)
  | .dispatch => .dispatched (.error e)
  | .isBuilt => .built false

namespace Capabilities

variable {γ : Type} [CodeGenerator γ]

def serve (c : Capabilities γ) : Call → Answer × Capabilities γ
  | .exportInto t => (.exported (c.exportWrapped t).1, (c.exportWrapped t).2)
  | .dispatch => (.dispatched (Capabilities.dispatch c).1, (Capabilities.dispatch c).2)
  | .isBuilt => (.built c.built.isSome, c)

def serveAll (c : Capabilities γ) : List Call → List Answer × Capabilities γ
  | [] => ([], c)
  | call :: rest =>
    let later := (c.serve call).2.serveAll rest
    ((c.serve call).1 :: later.1, later.2)

/-- The catalog could not be built: the generator was asked for the slots from the first on, and
refused one of them. -/
structure Fails (c : Capabilities γ) (e : ExportError) (g : γ) : Prop where
  isolates : CodeGenerator.isolates c.generator = true
  refuses : Refuses c.generator 0 c.raw.entries.length e g

/-- The catalog was built, of all names, with a stub for each where the generator isolates. -/
inductive Builds (c : Capabilities γ) : Catalog → γ → Prop where
  | direct (direct : CodeGenerator.isolates c.generator = false) :
      Builds c ⟨c.raw, []⟩ c.generator
  | isolated {stubs g} (isolates : CodeGenerator.isolates c.generator = true)
      (emits : Emits c.generator 0 stubs g) (all : stubs.length = c.raw.entries.length) :
      Builds c ⟨⟨c.raw.names.zip stubs⟩, c.raw.entries.map (·.2)⟩ g

def keeping (c : Capabilities γ) (catalog : Catalog) (g : γ) : Capabilities γ :=
  { c with generator := g, built := some catalog
           journal := c.journal ++ [.built catalog.symbols.size] }

/-- How capabilities without a catalog answer calls, one after another. -/
inductive Serves : Capabilities γ → List Call → List Answer → Capabilities γ → Prop where
  | nil (c) : Serves c [] [] c
  | notYet {c d calls answers} (rest : Serves c calls answers d) :
      Serves c (.isBuilt :: calls) (.built false :: answers) d
  /-- Nothing is left of an attempt but what has become of the generator. -/
  | failed {c d e g call calls answers} (asks : call ≠ .isBuilt) (fails : c.Fails e g)
      (rest : Serves { c with generator := g } calls answers d) :
      Serves c (call :: calls) (e.answer call :: answers) d
  /-- The first attempt that comes through answers its own call and all later ones. -/
  | succeeded {c catalog g call} (calls) (asks : call ≠ .isBuilt) (builds : c.Builds catalog g) :
      Serves c (call :: calls) ((call :: calls).map catalog.answer) (c.keeping catalog g)

theorem wrap_error {g h : γ} {slot : ℕ} {entries : List (String × Word)} {e : ExportError}
    (bound : slot ≤ UInt32.size) (failed : wrap g slot entries = (.error e, h)) :
    Refuses g slot entries.length e h := by
  induction entries generalizing g slot with
  | nil => cases failed
  | cons entry rest ih =>
    unfold wrap at failed
    split at failed
    · cases failed
      exact .full (.done _ _) (by simp) (by simp; omega)
    · rename_i room
      split at failed
      · rename_i refusal
        cases failed
        exact .refused (.done _ _) (by simp) (by simp; omega) refusal
      · rename_i answer
        split at failed
        · rename_i later
          cases failed
          exact (ih (by omega) later).after (by omega) answer
        · cases failed

theorem build_error {c : Capabilities γ} {e : ExportError} {g : γ}
    (failed : c.build = (.error e, g)) : c.Fails e g := by
  unfold build at failed
  split at failed
  · rename_i isolates
    split at failed
    · rename_i refused
      cases failed
      exact ⟨isolates, wrap_error (Nat.zero_le _) refused⟩
    · cases failed
  · cases failed

theorem builds_of_build {c : Capabilities γ} {catalog : Catalog} {g : γ}
    (built : c.build = (.ok catalog, g)) : c.Builds catalog g := by
  rcases build_cases built with ⟨direct, rfl⟩ | ⟨isolates, stubs, emits, all, rfl⟩
  · obtain rfl : c.generator = g := by simpa [build, direct] using built
    exact .direct direct
  · exact .isolated isolates emits all

theorem catalog_of_unbuilt {c : Capabilities γ} (fresh : c.built = none) :
    (∃ e g, c.Fails e g ∧ c.catalog = (.error e, { c with generator := g })) ∨
    ∃ catalog g, c.Builds catalog g ∧ c.catalog = (.ok catalog, c.keeping catalog g) := by
  unfold Capabilities.catalog
  rw [fresh]
  cases made : c.build with
  | mk outcome g =>
    cases outcome with
    | error e => exact Or.inl ⟨e, g, build_error made, by simp⟩
    | ok catalog => exact Or.inr ⟨catalog, g, builds_of_build made, rfl⟩

theorem serve_unbuilt {c : Capabilities γ} (fresh : c.built = none) {call : Call}
    (asks : call ≠ .isBuilt) :
    (∃ e g, c.Fails e g ∧ c.serve call = (e.answer call, { c with generator := g })) ∨
    ∃ catalog g, c.Builds catalog g ∧
      c.serve call = (catalog.answer call, c.keeping catalog g) := by
  rcases catalog_of_unbuilt fresh with ⟨e, g, fails, eq⟩ | ⟨catalog, g, builds, eq⟩
  · refine Or.inl ⟨e, g, fails, ?_⟩
    cases call with
    | exportInto t => simp [serve, exportWrapped, eq, ExportError.answer]
    | dispatch => simp [serve, Capabilities.dispatch, eq, ExportError.answer]
    | isBuilt => exact absurd rfl asks
  · refine Or.inr ⟨catalog, g, builds, ?_⟩
    cases call with
    | exportInto t => simp [serve, exportWrapped, eq, Catalog.answer]
    | dispatch => simp [serve, Capabilities.dispatch, eq, Catalog.answer]
    | isBuilt => exact absurd rfl asks

theorem serve_built {c : Capabilities γ} {catalog : Catalog} (built : c.built = some catalog)
    (call : Call) : c.serve call = (catalog.answer call, c) := by
  have kept : c.catalog = (.ok catalog, c) := by
    unfold Capabilities.catalog
    rw [built]
  cases call with
  | exportInto t => simp [serve, exportWrapped, kept, Catalog.answer]
  | dispatch => simp [serve, Capabilities.dispatch, kept, Catalog.answer]
  | isBuilt => simp [serve, built, Catalog.answer]

theorem serveAll_built {c : Capabilities γ} {catalog : Catalog} (built : c.built = some catalog)
    (calls : List Call) : c.serveAll calls = (calls.map catalog.answer, c) := by
  induction calls with
  | nil => rfl
  | cons call rest ih => rw [serveAll, serve_built built, ih]; rfl

theorem serves {c : Capabilities γ} (fresh : c.built = none) (calls : List Call) :
    c.Serves calls (c.serveAll calls).1 (c.serveAll calls).2 := by
  induction calls generalizing c with
  | nil => exact .nil c
  | cons call rest ih =>
    by_cases asks : call = .isBuilt
    · subst asks
      have answer : c.serve .isBuilt = (.built false, c) := by simp [serve, fresh]
      rw [serveAll, answer]
      exact .notYet (ih fresh)
    · rcases serve_unbuilt fresh asks with ⟨e, g, fails, answer⟩ | ⟨catalog, g, builds, answer⟩
      · rw [serveAll, answer]
        exact .failed asks fails (ih fresh)
      · rw [serveAll, answer, serveAll_built rfl]
        exact .succeeded rest asks builds

end Capabilities

/-- An export that fails leaves the table it was for, and all else of the host, as it was, but for
the generator. -/
theorem Host.exportInto_error {σ γ : Type} [Memory.Allocator σ] [CodeGenerator γ]
    {h after : Host σ γ} {id : ℕ} {e : ExportError} (failed : h.exportInto id = (.error e, after)) :
    h.capabilities.built = none ∧ ∃ g, h.capabilities.Fails e g ∧
      after = { h with capabilities := { h.capabilities with generator := g } } := by
  unfold exportInto onCapabilities at failed
  generalize ((h.linkage? id).map (·.symbols)).getD .empty = table at failed
  cases built : h.capabilities.built with
  | some catalog => simp [Capabilities.exportWrapped, Capabilities.catalog, built] at failed
  | none =>
    refine ⟨rfl, ?_⟩
    rcases Capabilities.catalog_of_unbuilt built with ⟨e', g, fails, eq⟩ | ⟨catalog, g, -, eq⟩
    · simp only [Capabilities.exportWrapped, eq, List.drop_length, List.map_nil, noteAll,
        List.append_nil] at failed
      cases failed
      exact ⟨g, fails, rfl⟩
    · simp [Capabilities.exportWrapped, eq] at failed

namespace Capabilities

/-- Until a build comes through, each call that needs the catalog tries to build it, from the first
slot on; where the generator refuses a stub, the call answers that refusal, and neither the table
it was for nor anything else is changed. The first catalog that is built is the last: all later
calls answer out of it, whatever providers and generator there are then. -/
theorem catalog_built_once {γ : Type} [CodeGenerator γ] (providers : List Provider) (generator : γ)
    (journal : List CatalogEvent) (calls : List Call) :
    let c : Capabilities γ := ⟨providers, generator, none, journal⟩
    let d := (c.serveAll calls).2
    c.Serves calls (c.serveAll calls).1 d ∧
    (∀ catalog later, d.built = some catalog → d.serveAll later = (later.map catalog.answer, d) ∧
      ∀ (β : Type) [CodeGenerator β] (others : List Provider) (other : β) log,
        let changed : Capabilities β := ⟨others, other, some catalog, log⟩
        changed.serveAll later = (later.map catalog.answer, changed)) ∧
    ∀ (σ : Type) [Memory.Allocator σ] (h after : Host σ γ) (id : ℕ) e,
      h.exportInto id = (.error e, after) →
      h.capabilities.built = none ∧ ∃ g, h.capabilities.Fails e g ∧
        after = { h with capabilities := { h.capabilities with generator := g } } := by
  intro c d
  refine ⟨serves rfl calls, fun catalog later built => ⟨serveAll_built built later, ?_⟩, ?_⟩
  · intro β _ others other log
    exact serveAll_built rfl later
  · intro σ _ h after id e failed
    exact Host.exportInto_error failed

/-- The generator refuses its second stub once, in a call for a table of its client and in one for
the table of a linkage. -/
theorem catalog_built_at_second_attempt :
    let providers : List Provider := [⟨"first", [("write", 1), ("read", 2)]⟩]
    let generator : SpacedStubs := ⟨0x9000, some 1⟩
    let c : Capabilities SpacedStubs := ⟨providers, generator, none, []⟩
    let calls : List Call := [.isBuilt, .exportInto (.ofList [("main", 7)]), .isBuilt, .dispatch,
      .exportInto (.ofList [("main", 7), ("read", 8)]), .isBuilt]
    let d := (c.serveAll calls).2
    let parts : Host.Parts HostHeap SpacedStubs :=
      { parser := fun _ => .error (.truncated), generator := none, code := 0, providers := []
        files := .empty [], allocator := .empty none fun _ _ => 0, spawner := ⟨.later, true, none⟩
        resumePoint := ⟨0, 0⟩, programs := fun _ => ⟨[], 0⟩, others := fun unit => unit }
    (c.serveAll calls).1 = [.built false, .exported (.error (.trampoline 1)), .built false,
        .dispatched (.ok [2, 1]),
        .exported (.ok ⟨[("main", 7), ("read", 0x9000), ("write", 0x9010)]⟩), .built true] ∧
      (∃ catalog, d.built = some catalog ∧ catalog.dispatch = [2, 1] ∧
        d.serveAll [.dispatch, .isBuilt] = ([.dispatched (.ok [2, 1]), .built true], d)) ∧
      ∃ built, Host.build .standard parts = .ok built ∧
        let h : Host HostHeap SpacedStubs :=
          { built with capabilities := ⟨providers, .generated generator, none, []⟩ }.newLinkage.2
        (h.exportInto 0).1 = .error (.trampoline 1) ∧ (h.exportInto 0).2.spaces = h.spaces := by
  intro providers generator c calls d parts
  have built : d.built = some ⟨⟨[("read", 0x9000), ("write", 0x9010)]⟩, [2, 1]⟩ := by decide
  obtain ⟨-, kept, refused⟩ := catalog_built_once providers generator [] calls
  refine ⟨by decide, ⟨_, built, rfl, (kept _ [.dispatch, .isBuilt] built).1⟩, ?_⟩
  obtain ⟨host, done⟩ : ∃ host, Host.build .standard parts = .ok host := ⟨_, rfl⟩
  refine ⟨host, done, ?_⟩
  cases done
  intro h
  have failed : h.exportInto 0 = (.error (.trampoline 1), (h.exportInto 0).2) :=
    Prod.ext (by decide) rfl
  obtain ⟨-, g, -, after⟩ := refused HostHeap h _ 0 _ failed
  exact ⟨by rw [failed], by rw [after]⟩

end Capabilities

end AppHost
