import AppHost.Proofs.Capability.Catalog
import AppHost.Proofs.Host.Preparing
import AppHost.Proofs.Linkage.Bindings
/-! The table that a started program is relocated against: the catalog first, whatever the modules
export, and their own definitions by the policy for all other names. -/
namespace AppHost

open Memory

namespace Capabilities

variable {γ : Type} [CodeGenerator γ] {c after : Capabilities γ}

/-- A catalog that was built before is a sorted table, as all tables filled by binding are. -/
def InOrder (c : Capabilities γ) : Prop :=
  ∀ catalog, c.built = some catalog → catalog.symbols.Sorted

theorem InOrder.catalog {catalog : Catalog} (ordered : c.InOrder)
    (made : c.catalog = (.ok catalog, after)) : catalog.symbols.Sorted ∧ after.InOrder := by
  cases cached : c.built with
  | some before =>
    have kept : c.catalog = (.ok before, c) := by
      unfold Capabilities.catalog
      rw [cached]
    rw [kept] at made
    cases made
    exact ⟨ordered catalog cached, ordered⟩
  | none =>
    obtain ⟨built, kept⟩ := catalog_ok cached made
    have sorted : catalog.symbols.Sorted := c.sorted_raw.of_names (names_of_build built)
    refine ⟨sorted, ?_⟩
    intro other found
    rw [kept] at found
    cases found
    exact sorted

/-- Capabilities that somebody made: providers were added, and the catalog was built on use. -/
inductive Made : Capabilities γ → Prop where
  | empty (generator : γ) : Made (.empty generator)
  | provided {c : Capabilities γ} (made : Made c) (p : Provider) : Made (c.withProvider p)
  | used {c : Capabilities γ} (made : Made c) : Made c.catalog.2

theorem InOrder.used (ordered : c.InOrder) : c.catalog.2.InOrder := by
  cases made : c.catalog with
  | mk outcome after =>
    cases outcome with
    | ok catalog => exact (ordered.catalog made).2
    | error e =>
      unfold Capabilities.catalog at made
      split at made
      · cases made
      · rename_i none
        split at made <;> cases made
        intro catalog found
        exact ordered catalog found

theorem Made.inOrder (made : c.Made) : c.InOrder := by
  induction made with
  | empty generator => exact nofun
  | provided _ p ih => exact ih
  | used _ ih => exact ih.used

theorem InOrder.exported {t symbols : SymbolTable} (ordered : c.InOrder)
    (done : c.exportWrapped t = (.ok symbols, after)) :
    ∃ catalog, c.catalog = (.ok catalog, after) ∧
      ∀ name, symbols.get? name = (catalog.symbols.get? name).or (t.get? name) := by
  unfold exportWrapped at done
  split at done <;> rename_i made <;> cases done
  rename_i catalog
  exact ⟨catalog, made, (ordered.catalog made).1.get?_merge t⟩

end Capabilities

namespace Linkage

variable {σ : Type} [Allocator σ] {l l' : Linkage σ}

theorem load_failed {name : String} {source : Except FileError Bytes} {executable : Bool}
    {e : LoadError} (failed : l.load name source executable = (.error e, l')) :
    l'.symbols = l.symbols ∧ l'.modules = l.modules := by
  rcases l.load_cases name source executable with
    ⟨_, arena, journal, eq⟩ | ⟨_, _, _, _, _, -, -, -, -, -, eq⟩
  · rw [eq] at failed
    cases failed
    exact ⟨rfl, rfl⟩
  · rw [eq] at failed
    cases failed

theorem loadExecutable_failed {name : String} {source : Except FileError Bytes} {e : LoadError}
    (failed : l.loadExecutable name source = (.error e, l')) :
    l'.symbols = l.symbols ∧ l'.modules = l.modules := by
  rcases l.loadExecutable_cases name source with ⟨_, arena, journal, eq⟩ | ⟨_, -, -, eq⟩
  · rw [eq] at failed
    cases failed
    exact ⟨rfl, rfl⟩
  · rw [eq] at failed
    cases failed

theorem Bound.of_loads (arena : Arena σ) (parser : ObjectParser σ) (policy : CollisionPolicy)
    {calls : List LinkageCall} (loads : ∀ c ∈ calls, c.IsLoad) :
    ((empty arena parser policy).after calls).Bound :=
  (bound_empty arena parser policy).after loads

end Linkage

namespace Host

variable {σ γ : Type} [Allocator σ] {h p : Host σ γ} {id : ℕ}

theorem begin_capabilities (h : Host σ γ) (name : String) :
    (h.begin name).capabilities = h.capabilities := by
  change (h.newLinkage.2.removeRecord h.processes.next).capabilities = _
  unfold removeRecord
  split <;> rfl

def executable? (h : Host σ γ) : Launch → Option (String × Handle)
  | .path path => (h.files.openPath path).toOption.map fun handle => (Path.lastPiece path, handle)
  | .handle name handle => some (name, handle)
  | .linked _ => none

variable [CodeGenerator γ]

theorem launch_eq_startHandle {launch : Launch} {name : String} {handle : Handle}
    (reads : h.executable? launch = some (name, handle)) (hook : Bool) :
    h.launch launch hook = h.startHandle name handle hook := by
  cases launch with
  | path path =>
    change (h.files.openPath path).toOption.map _ = _ at reads
    change h.start path hook = _
    unfold start
    cases opened : h.files.openPath path with
    | error e =>
      rw [opened] at reads
      cases reads
    | ok found =>
      rw [opened] at reads
      cases reads
      rfl
  | handle _ _ =>
    cases reads
    rfl
  | linked _ => cases reads

theorem phases_append {first : List Phase} (done : h.phases id first = (.ok (), p))
    (second : List Phase) : h.phases id (first ++ second) = p.phases id second := by
  induction first generalizing h with
  | nil =>
    cases done
    rfl
  | cons phase rest ih =>
    obtain ⟨q, passed, done⟩ := phases_cons_ok done
    simp only [List.cons_append, phases, passed]
    exact ih done

theorem link_phase {l : Linkage (Audited σ)} (found : h.linkage? id = some l) :
    (h.phases id [.link]).1 = l.link.1.mapError .cannotLink := by
  have linked : ∃ after, h.onLinkage id (·.link) = some (l.link.1, after) := by
    unfold onLinkage
    rw [found]
    exact ⟨_, rfl⟩
  obtain ⟨after, eq⟩ := linked
  simp only [phases, phase, eq]
  rcases l.link.1 with e | _ <;> rfl

theorem prepare_of_bound {name : String} {handle : Handle} {l : Linkage (Audited σ)}
    (reached : h.phases id [.load name handle, .resolve, .bind] = (.ok (), p))
    (found : p.linkage? id = some l) :
    (h.prepare id name handle).1 = l.link.1.mapError .cannotLink := by
  rw [prepare_eq_phases, ← link_phase found]
  exact congrArg Prod.fst (phases_append reached [.link])

theorem startHandle_of_prepare {name : String} {handle : Handle} {hook : Bool} {e : LaunchError}
    (failed : ((h.begin name).prepare h.spaces.length name handle).1 = .error e) :
    (h.startHandle name handle hook).1 = .error e := by
  rcases h.startHandle_cases name handle hook with
    ⟨e, p, hp, eq⟩ | ⟨p, e, q, hp, hq, eq⟩ | ⟨p, q, hp, hq, eq⟩ <;> rw [eq] <;> rw [hp] at failed
  · cases failed
    rfl
  · cases failed
  · cases failed

/-- The symbols of any series of loads are those that the policy chooses among the exports of the
modules that were loaded; a load that failed leaves both as they were. So when a launch comes to
relocating its modules, the table used for it has the catalog's addresses under the catalog's
names, the chosen definitions under all others, and nothing else. The catalog may be any: those of
capabilities that somebody made are all in order. -/
theorem relocation_sees_catalog_over_exports (ordered : h.capabilities.InOrder) {launch : Launch}
    {name : String} {handle : Handle} (reads : h.executable? launch = some (name, handle))
    (reached : (h.begin name).phases h.spaces.length [.load name handle, .resolve, .bind] =
      (.ok (), p)) :
    (∀ c : Capabilities (CallSites γ), c.Made → c.InOrder) ∧
    (∀ (arena : Arena (Audited σ)) (parser : ObjectParser (Audited σ)) (policy : CollisionPolicy)
      (calls : List LinkageCall), (∀ c ∈ calls, c.IsLoad) →
      let l := (Linkage.empty arena parser policy).after calls
      l.policy = policy ∧ l.Bound ∧ ∀ name source e l',
        l.loadLibrary name source = (.error e, l') ∨ l.loadExecutable name source = (.error e, l') →
          l'.symbols = l.symbols ∧ l'.modules = l.modules) ∧
    ∃ l catalog, p.linkage? h.spaces.length = some l ∧
      h.capabilities.catalog = (.ok catalog, p.capabilities) ∧
      l.policy = h.settings.symbolCollisions ∧
      (∀ m ∈ l.modules, ∃ object, m.object = some object ∧
        m.definitions.map (·.1) = object.exports.map (·.name)) ∧
      (∀ symbol, l.symbols.get? symbol = (catalog.symbols.get? symbol).or
        (l.policy.choose (l.modules.flatMap (·.definitions)) symbol)) ∧
      (∀ symbol, l.symbols.get? symbol = none ↔ catalog.symbols.get? symbol = none ∧
        ∀ m ∈ l.modules, ∀ d ∈ m.definitions, d.1 ≠ symbol) ∧
      Linkage.Relocates l.symbols l.modules l.arena l.link.1 l.link.2.arena ∧
      ((h.begin name).prepare h.spaces.length name handle).1 = l.link.1.mapError .cannotLink ∧
      ∀ hook e, l.link.1 = .error e → (h.launch launch hook).1 = .error (.cannotLink e) := by
  refine ⟨fun c made => made.inOrder, ?_, ?_⟩
  · intro arena parser policy calls loads l
    refine ⟨Linkage.policy_after _ calls, .of_loads arena parser policy loads, ?_⟩
    rintro name source e l' (failed | failed)
    · exact Linkage.load_failed failed
    · exact Linkage.loadExecutable_failed failed
  obtain ⟨arena, begun⟩ := h.begin_linkage name
  obtain ⟨rest, symbols, loads, -, exported, found⟩ := bound_linkage begun reached
  let fresh := Linkage.empty arena h.parser h.settings.symbolCollisions
  have bound : (fresh.after (.loadExecutable name handle :: rest)).Bound := .of_loads _ _ _ loads
  have coherent : (fresh.after (.loadExecutable name handle :: rest)).Coherent :=
    Linkage.lifelong_coherent.after (Linkage.coherent_empty _ _ _) _
  have first : (fresh.after (.loadExecutable name handle :: rest)).attempted = false :=
    Linkage.unattempted_of_loads rfl loads
  -- the catalog is merged last, so its addresses come before the chosen definitions
  rw [begin_capabilities] at exported
  obtain ⟨catalog, made, merged⟩ := ordered.exported exported
  have seen (symbol : String) := (merged symbol).trans
    (congrArg (Option.or (catalog.symbols.get? symbol)) (bound.chosen symbol))
  refine ⟨_, catalog, found, made, Linkage.policy_after fresh _, bound.defined, seen, ?_,
    (coherent.step (.bound symbols)).relocates first, prepare_of_bound reached found, ?_⟩
  · intro symbol
    rw [seen symbol, Option.or_eq_none_iff, CollisionPolicy.choose_eq_none]
    constructor
    · rintro ⟨absent, undefined⟩
      refine ⟨absent, ?_⟩
      intro m hm d hd
      exact undefined d (List.mem_flatMap.mpr ⟨m, hm, hd⟩)
    · rintro ⟨absent, undefined⟩
      refine ⟨absent, ?_⟩
      intro d hd
      obtain ⟨m, hm, hd⟩ := List.mem_flatMap.mp hd
      exact undefined m hm d hd
  · intro hook e failed
    rw [launch_eq_startHandle reads]
    refine startHandle_of_prepare ?_
    rw [prepare_of_bound reached found, failed]
    rfl

/-- The executable defines one name twice and one of the catalog; its library defines the first
one again. -/
theorem first_definition_under_catalog :
    let segment : Segment := ⟨0x1000, 8, 0, [7], .readWrite⟩
    let program : DeclaredObject := ⟨[segment], ["A"],
      [⟨"f", 9, true⟩, ⟨"f", 0x1002, false⟩, ⟨"write", 5, true⟩], some 0x1004, ["f"], none⟩
    let library : DeclaredObject :=
      ⟨[segment], [], [⟨"f", 3, true⟩, ⟨"g", 0x1001, false⟩], none, ["gone"], none⟩
    let parts : Parts HostHeap SpacedStubs :=
      { parser := fun bytes => .ok (if bytes.isEmpty then program.toObject else library.toObject)
        generator := none, code := 0, providers := [], files := .empty []
        allocator := .empty none fun n _ => 0x10000 * UInt64.ofNat (n + 1)
        spawner := ⟨.later, true, none⟩, resumePoint := ⟨0, 0⟩
        programs := fun _ => ⟨[], 0⟩, others := fun unit => unit }
    ∃ built : Host HostHeap SpacedStubs,
      build { Settings.standard with symbolCollisions := .firstWins } parts = .ok built ∧
      let h : Host HostHeap SpacedStubs :=
        { built with
          libraries := ⟨[("A", .buffer [2])], []⟩
          capabilities := (Capabilities.empty .direct).withProvider ⟨"os", [("write", 0x77)]⟩ }
      ∃ p l catalog,
        (h.begin "E").phases 0 [.load "E" (.ok []), .resolve, .bind] = (.ok (), p) ∧
        p.linkage? 0 = some l ∧ h.capabilities.catalog = (.ok catalog, p.capabilities) ∧
        (∀ symbol, l.symbols.get? symbol = (catalog.symbols.get? symbol).or
          (l.policy.choose (l.modules.flatMap (·.definitions)) symbol)) ∧
        ["f", "g", "write", "x"].map l.symbols.get? = [some 9, some 0x20001, some 0x77, none] ∧
        (h.launch (.handle "E" (.ok [])) false).1 =
          .error (.cannotLink (.unresolvedSymbol "gone")) := by
  intro segment program library parts
  obtain ⟨built, done⟩ : ∃ built,
    build { Settings.standard with symbolCollisions := .firstWins } parts = .ok built := ⟨_, rfl⟩
  refine ⟨built, done, ?_⟩
  cases done
  intro h
  have made : h.capabilities.Made := .provided (.empty _) _
  have ordered := made.inOrder
  have outcome : ((h.begin "E").phases 0 [.load "E" (.ok []), .resolve, .bind]).1 = .ok () := by
    decide
  have reads : h.executable? (.handle "E" (.ok [])) = some ("E", .ok []) := rfl
  have reached : (h.begin "E").phases 0 [.load "E" (.ok []), .resolve, .bind] = (.ok (), _) :=
    Prod.ext outcome rfl
  obtain ⟨-, -, l, catalog, found, made, -, -, seen, -, -, -, failed⟩ :=
    relocation_sees_catalog_over_exports ordered reads reached
  refine ⟨_, l, catalog, reached, found, made, seen, ?_, ?_⟩
  · have bound : (((h.begin "E").phases 0 [.load "E" (.ok []), .resolve, .bind]).2.linkage? 0).map
        (["f", "g", "write", "x"].map ·.symbols.get?) =
          some [some 9, some 0x20001, some 0x77, none] := by decide
    rw [show Host.linkage? _ 0 = some l from found] at bound
    exact Option.some.inj bound
  · refine failed false _ ?_
    have linked : (((h.begin "E").phases 0 [.load "E" (.ok []), .resolve, .bind]).2.linkage? 0).map
        (·.link.1) = some (.error (.unresolvedSymbol "gone")) := by decide
    rw [show Host.linkage? _ 0 = some l from found] at linked
    exact Option.some.inj linked

end Host

end AppHost
