import AppHost.Proofs.Library.Cycle
import AppHost.Proofs.Library.Sources
import AppHost.Proofs.Linkage.Loading
import Mathlib.Data.Set.Card
/-! Resolving dependencies comes to an end. The scan of all modules that starts again after every
load has no counter of its own; but it never loads a name twice, and only finitely many names can
come to be needed. -/
namespace AppHost

open Memory

def LibraryCall.loaded? : LibraryCall → Option String
  | .opened _ => none
  | .loaded name => some name

def Resolution.loads {σ : Type} [Allocator σ] (r : Resolution σ) : List String :=
  r.calls.filterMap LibraryCall.loaded?

namespace Linkage

variable {σ : Type} [Allocator σ]

/-- The scan for a needed name that nothing provides yet, started again after every load for as long
as there is such a name and nothing fails. -/
inductive Scans (libraries : LibraryRegistry) (files : FileSystem) :
    List String → Linkage σ → Resolution σ → Prop where
  | finished {satisfied l} (provided : l.nextNeeded? satisfied = none) :
      Scans libraries files satisfied l ⟨.ok (), l, []⟩
  | failed {satisfied name e calls} {l after : Linkage σ}
      (next : l.nextNeeded? satisfied = some name)
      (failed : provide libraries files l name = ⟨.error e, after, calls⟩) :
      Scans libraries files satisfied l ⟨.error e, after, calls⟩
  | again {satisfied name calls r} {l after : Linkage σ}
      (next : l.nextNeeded? satisfied = some name)
      (provided : provide libraries files l name = ⟨.ok (), after, calls⟩)
      (rest : Scans libraries files (name :: satisfied) after r) :
      Scans libraries files satisfied l ⟨r.outcome, r.linkage, calls ++ r.calls⟩

variable {libraries : LibraryRegistry} {files : FileSystem} {satisfied : List String}
  {name : String} {l after : Linkage σ} {r s : Resolution σ}

theorem Scans.unique (h : Scans libraries files satisfied l r)
    (i : Scans libraries files satisfied l s) : r = s := by
  induction h generalizing s with
  | finished provided =>
    cases i with
    | finished => rfl
    | failed next => simp [provided] at next
    | again next => simp [provided] at next
  | failed next failed =>
    cases i with
    | finished provided => simp [next] at provided
    | failed next' failed' =>
      cases next.symm.trans next'
      cases failed.symm.trans failed'
      rfl
    | again next' provided =>
      cases next.symm.trans next'
      cases failed.symm.trans provided
  | again next provided _ ih =>
    cases i with
    | finished none_left => simp [next] at none_left
    | failed next' failed =>
      cases next.symm.trans next'
      cases provided.symm.trans failed
    | again next' provided' rest =>
      cases next.symm.trans next'
      cases provided.symm.trans provided'
      rw [ih rest]

theorem nextNeeded?_some (h : l.nextNeeded? satisfied = some name) :
    (∃ m ∈ l.modules, name ∈ m.needed) ∧ name ∉ satisfied := by
  constructor
  · exact List.mem_flatMap.mp (List.mem_of_find?_eq_some h)
  · simpa using List.find?_some h

theorem provide_ok {calls : List LibraryCall}
    (h : provide libraries files l name = ⟨.ok (), after, calls⟩) :
    ∃ handle, libraries.openLibrary files name = .ok (some handle) ∧
      l.loadLibrary name handle = (.ok (), after) ∧
      ¬ after.graph.CycleFrom name ∧ calls = [.opened name, .loaded name] := by
  unfold provide at h
  split at h
  · cases h
  · cases h
  · rename_i handle found
    split at h
    · cases h
    · rename_i loaded
      split at h
      · cases h
      · rename_i acyclic
        cases h
        exact ⟨handle, found, loaded, mt (DependencyGraph.reachesCycle_iff _ _).mpr acyclic, rfl⟩

theorem provide_loads (libraries : LibraryRegistry) (files : FileSystem) (l : Linkage σ)
    (name : String) : (provide libraries files l name).loads = [] ∨
      (provide libraries files l name).loads = [name] := by
  unfold provide
  split
  · exact Or.inl rfl
  · exact Or.inl rfl
  · split <;> exact Or.inr rfl

/-- A name that a loaded module needs, or any object that a library can be opened as. -/
def CanNeed (l : Linkage σ) (libraries : LibraryRegistry) (files : FileSystem) (n : String) :
    Prop :=
  (∃ m ∈ l.modules, n ∈ m.needed) ∨
  ∃ name bytes object, libraries.openLibrary files name = .ok (some (.ok bytes)) ∧
    l.parser bytes = .ok object ∧ n ∈ object.needed

theorem CanNeed.of_provide {calls : List LibraryCall} {n : String}
    (h : after.CanNeed libraries files n)
    (provided : provide libraries files l name = ⟨.ok (), after, calls⟩) :
    l.CanNeed libraries files n := by
  obtain ⟨handle, found, loaded, -, -⟩ := provide_ok provided
  obtain ⟨bytes, object, m, rfl, parsed, -, needs, modules, parser⟩ := load_ok loaded
  rcases h with ⟨user, hu, need⟩ | opened
  · rw [modules] at hu
    rcases List.mem_append.mp hu with hu | hu
    · exact Or.inl ⟨user, hu, need⟩
    · cases List.mem_singleton.mp hu
      exact Or.inr ⟨name, bytes, object, found, parsed, needs ▸ need⟩
  · rw [parser] at opened
    exact Or.inr opened

theorem CanNeed.mem_everNeeded {n : String} (h : l.CanNeed libraries files n) :
    n ∈ l.everNeeded libraries files := by
  rcases h with ⟨user, hu, need⟩ | ⟨name, bytes, object, found, parsed, need⟩
  · exact List.mem_append_left _ (List.mem_flatMap.mpr ⟨user, hu, need⟩)
  · refine List.mem_append_right _ (List.mem_flatMap.mpr ⟨bytes, mem_contents found, ?_⟩)
    simpa [neededBy, parsed] using need

def unsatisfied (names satisfied : List String) : ℕ :=
  (names.filter (!satisfied.contains ·)).length

theorem unsatisfied_cons_lt {names satisfied : List String} {name : String} (mem : name ∈ names)
    (fresh : name ∉ satisfied) :
    unsatisfied names (name :: satisfied) < unsatisfied names satisfied := by
  have twice : names.filter (!(name :: satisfied).contains ·) =
      (names.filter (!satisfied.contains ·)).filter (· != name) := by
    rw [List.filter_filter]
    refine List.filter_congr fun n _ => ?_
    rw [List.contains_cons, Bool.not_or]
    rfl
  unfold unsatisfied
  rw [twice, List.length_filter_lt_length_iff_exists]
  exact ⟨name, List.mem_filter.mpr ⟨mem, by simpa using fresh⟩, by simp⟩

/-- A bound above the number of names that can still be asked for does not cut a scan short. -/
theorem provideAll_scans {names : List String} {fuel : ℕ}
    (known : ∀ n, l.CanNeed libraries files n → n ∈ names)
    (enough : unsatisfied names satisfied < fuel) :
    Scans libraries files satisfied l (provideAll libraries files fuel satisfied l) := by
  induction fuel generalizing satisfied l with
  | zero => omega
  | succ fuel ih =>
    unfold provideAll
    cases next : l.nextNeeded? satisfied with
    | none => exact .finished next
    | some name =>
      cases provided : provide libraries files l name with
      | mk outcome after calls =>
        cases outcome with
        | error e =>
          simp only [provided]
          exact .failed next provided
        | ok =>
          simp only [provided]
          -- each load satisfies one name more of those that can be needed, and brings no others
          obtain ⟨needed, fresh⟩ := nextNeeded?_some next
          have fewer := unsatisfied_cons_lt (known name (Or.inl needed)) fresh
          refine .again next provided (ih ?_ ?_)
          · intro n can
            exact known n (can.of_provide provided)
          · omega

theorem resolution_scans (builtins : List String) (l : Linkage σ) {fuel : ℕ}
    (enough : l.neededBound libraries files ≤ fuel) :
    Scans libraries files (l.filenames ++ builtins) l
      (provideAll libraries files fuel (l.filenames ++ builtins) l) := by
  have known (n : String) (can : l.CanNeed libraries files n) : n ∈ l.everNeeded libraries files :=
    can.mem_everNeeded
  apply provideAll_scans known
  have all := List.length_filter_le (!(l.filenames ++ builtins).contains ·)
    (l.everNeeded libraries files)
  unfold neededBound at enough
  unfold unsatisfied
  omega

/-- What a scan loads: names that were needed and not satisfied, none of them twice. -/
theorem Scans.loads (h : Scans libraries files satisfied l r) :
    r.loads.Nodup ∧ ∀ n ∈ r.loads, n ∉ satisfied ∧ l.CanNeed libraries files n := by
  induction h with
  | finished => exact ⟨.nil, nofun⟩
  | @failed satisfied name e calls l after next failed =>
    obtain ⟨needed, fresh⟩ := nextNeeded?_some next
    have loads := provide_loads libraries files l name
    rw [failed] at loads
    rcases loads with none_loaded | one <;> simp only [*]
    · exact ⟨.nil, nofun⟩
    · refine ⟨List.nodup_singleton name, ?_⟩
      intro n hn
      cases List.mem_singleton.mp hn
      exact ⟨fresh, Or.inl needed⟩
  | @again satisfied name calls r l after next provided rest ih =>
    obtain ⟨needed, fresh⟩ := nextNeeded?_some next
    obtain ⟨handle, -, -, -, rfl⟩ := provide_ok provided
    obtain ⟨distinct, each⟩ := ih
    constructor
    · refine List.nodup_cons.mpr ⟨?_, distinct⟩
      intro twice
      exact (each name twice).1 List.mem_cons_self
    · intro n hn
      rcases List.mem_cons.mp hn with rfl | hn
      · exact ⟨fresh, Or.inl needed⟩
      · obtain ⟨unmet, can⟩ := each n hn
        exact ⟨unmet ∘ List.mem_cons_of_mem name, can.of_provide provided⟩

/-- Whatever is loaded, registered and stored, however its objects name each other: the scan comes
to an end, with one result only, and no bound above the one used changes it; nor does a greater
depth change a search for cycles. Each load is of another name, of those that the modules and the
objects behind all names need; there are finitely many of them, so there are no more loads than
that. -/
theorem resolution_terminates (builtins : List String) (libraries : LibraryRegistry)
    (files : FileSystem) (l : Linkage σ) :
    let r := l.resolution builtins libraries files
    (∀ s, Scans libraries files (l.filenames ++ builtins) l s ↔ s = r) ∧
      (∀ fuel, l.neededBound libraries files ≤ fuel →
        provideAll libraries files fuel (l.filenames ++ builtins) l = r) ∧
      (∀ (g : DependencyGraph) start depth, g.length + 2 ≤ depth →
        g.visit depth start ⟨[], []⟩ = g.search start) ∧
      (∀ n ∈ r.loads, n ∉ l.filenames ++ builtins ∧ l.CanNeed libraries files n) ∧
      {n | l.CanNeed libraries files n}.Finite ∧
      r.loads.length ≤ {n | l.CanNeed libraries files n}.ncard := by
  intro r
  have scanned : Scans libraries files (l.filenames ++ builtins) l r :=
    resolution_scans builtins l (Nat.le_refl _)
  obtain ⟨distinct, each⟩ := scanned.loads
  have finite : {n | l.CanNeed libraries files n}.Finite := by
    apply (l.everNeeded libraries files).toFinset.finite_toSet.subset
    intro n can
    exact List.mem_toFinset.mpr can.mem_everNeeded
  refine ⟨?_, ?_, fun g start depth => g.visit_eq_search start, each, finite, ?_⟩
  · intro s
    constructor
    · intro other
      exact other.unique scanned
    · rintro rfl
      exact scanned
  · intro fuel enough
    exact (resolution_scans builtins l enough).unique scanned
  · rw [← List.toFinset_card_of_nodup distinct, ← Set.ncard_coe_finset]
    apply Set.ncard_le_ncard _ finite
    intro n hn
    exact (each n (List.mem_toFinset.mp hn)).2

end Linkage

end AppHost
