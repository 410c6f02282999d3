import AppHost.Proofs.Library.Scanning
import Mathlib.Logic.Relation
/-! Resolving dependencies is a breadth-first traversal. The loader scans all modules again after
every load; what makes this a queue is that every name before the one found was already provided
for, so the scan resumes where it stopped, with the needs of the new module at the end. -/
namespace AppHost

open Memory

namespace Linkage

variable {σ : Type} [Allocator σ]

/-- A breadth-first traversal from the names that are visited and a queue of names to come: its
outcome, the linkage it leaves and the calls it makes. -/
inductive Traverses (libraries : LibraryRegistry) (files : FileSystem) :
    List String → List String → Linkage σ → Resolution σ → Prop where
  | done (visited l) : Traverses libraries files visited [] l ⟨.ok (), l, []⟩
  | skip {visited name queue l r} (known : name ∈ visited)
      (rest : Traverses libraries files visited queue l r) :
      Traverses libraries files visited (name :: queue) l r
  | unopened {visited name l e} (queue) (fresh : name ∉ visited)
      (refused : libraries.openLibrary files name = .error e) :
      Traverses libraries files visited (name :: queue) l
        ⟨.error (.cannotOpenLibrary name e), l, [.opened name]⟩
  | missing {visited name} (queue l) (fresh : name ∉ visited)
      (absent : libraries.openLibrary files name = .ok none) :
      Traverses libraries files visited (name :: queue) l
        ⟨.error (.missingLibrary name), l, [.opened name]⟩
  | unloaded {visited name handle e} {l after : Linkage σ} (queue) (fresh : name ∉ visited)
      (found : libraries.openLibrary files name = .ok (some handle))
      (refused : l.loadLibrary name handle = (.error e, after)) :
      Traverses libraries files visited (name :: queue) l
        ⟨.error (.cannotLoad name e), after, [.opened name, .loaded name]⟩
  | cyclic {visited name handle} {l after : Linkage σ} (queue) (fresh : name ∉ visited)
      (found : libraries.openLibrary files name = .ok (some handle))
      (loaded : l.loadLibrary name handle = (.ok (), after))
      (cycle : after.graph.CycleFrom name) :
      Traverses libraries files visited (name :: queue) l
        ⟨.error (.dependencyCycle name), after, [.opened name, .loaded name]⟩
  | loaded {visited name queue handle m r} {l after : Linkage σ} (fresh : name ∉ visited)
      (found : libraries.openLibrary files name = .ok (some handle))
      (loaded : l.loadLibrary name handle = (.ok (), after))
      (acyclic : ¬ after.graph.CycleFrom name)
      (appended : after.modules = l.modules ++ [m])
      (rest : Traverses libraries files (name :: visited) (queue ++ m.needed) after r) :
      Traverses libraries files visited (name :: queue) l
        ⟨r.outcome, r.linkage, [.opened name, .loaded name] ++ r.calls⟩

variable {libraries : LibraryRegistry} {files : FileSystem}

theorem Traverses.unique {visited queue : List String} {l : Linkage σ} {r s : Resolution σ}
    (h : Traverses libraries files visited queue l r)
    (i : Traverses libraries files visited queue l s) : r = s := by
  induction h generalizing s with
  | done => cases i; rfl
  | skip known _ ih =>
    cases i with
    | skip _ rest => exact ih rest
    | _ => contradiction
  | unopened | missing | unloaded | cyclic => cases i <;> simp_all
  | loaded fresh found loaded acyclic appended _ ih =>
    cases i with
    | loaded _ found' loaded' _ appended' rest =>
      rw [found] at found'
      cases found'
      rw [loaded] at loaded'
      cases loaded'
      rw [appended] at appended'
      cases List.append_cancel_left appended'
      rw [ih rest]
    | skip known => contradiction
    | _ => simp_all

theorem Traverses.skip_all {visited skipped queue : List String} {l : Linkage σ}
    {r : Resolution σ} (known : ∀ n ∈ skipped, n ∈ visited)
    (rest : Traverses libraries files visited queue l r) :
    Traverses libraries files visited (skipped ++ queue) l r := by
  induction skipped with
  | nil => exact rest
  | cons name later ih =>
    exact .skip (known name List.mem_cons_self)
      (ih fun n hn => known n (List.mem_cons_of_mem name hn))

theorem Traverses.of_provide_error {visited : List String} {name : String} {l after : Linkage σ}
    {e : LaunchError} {calls : List LibraryCall} (queue : List String) (fresh : name ∉ visited)
    (h : provide libraries files l name = ⟨.error e, after, calls⟩) :
    Traverses libraries files visited (name :: queue) l ⟨.error e, after, calls⟩ := by
  unfold provide at h
  split at h
  · rename_i refused
    cases h
    exact .unopened queue fresh refused
  · rename_i absent
    cases h
    exact .missing queue l fresh absent
  · rename_i handle found
    split at h
    · rename_i cause refused
      cases h
      exact .unloaded queue fresh found refused
    · rename_i loaded
      split at h
      · rename_i cycle
        cases h
        exact .cyclic queue fresh found loaded ((DependencyGraph.reachesCycle_iff _ _).mp cycle)
      · cases h

theorem provide_reaches (libraries : LibraryRegistry) (files : FileSystem) (l : Linkage σ)
    (name : String) :
    l.arena.Reaches (provide libraries files l name).linkage.arena := by
  unfold provide
  split
  · exact .refl _
  · exact .refl _
  · rename_i handle _
    have loaded := l.load_reaches name handle false
    change l.arena.Reaches (l.loadLibrary name handle).2.arena at loaded
    split <;> rename_i h <;> rw [h] at loaded <;> exact loaded

theorem resolution_reaches (builtins : List String) (libraries : LibraryRegistry)
    (files : FileSystem) (l : Linkage σ) :
    l.arena.Reaches (l.resolution builtins libraries files).linkage.arena := by
  unfold resolution
  generalize l.filenames ++ builtins = satisfied
  induction l.neededBound libraries files generalizing satisfied l with
  | zero => exact .refl _
  | succ fuel ih =>
    unfold provideAll
    split
    · exact .refl _
    · rename_i name _
      have provided := provide_reaches libraries files l name
      split <;> rename_i h <;> rw [h] at provided
      · exact provided
      · exact provided.trans (ih _ _)

/-- The scan of all modules finds what the queue holds next, as long as whatever stands before the
queue was provided for. -/
theorem nextNeeded?_eq {l : Linkage σ} {satisfied handled queue : List String}
    (scan : l.modules.flatMap (·.needed) = handled ++ queue)
    (provided : ∀ n ∈ handled, n ∈ satisfied) :
    l.nextNeeded? satisfied = queue.find? (!satisfied.contains ·) := by
  have none_left : handled.find? (!satisfied.contains ·) = none :=
    List.find?_eq_none.mpr fun n hn => by simpa using provided n hn
  rw [nextNeeded?, scan, List.find?_append, none_left, Option.none_or]

/-- A scan works off a queue: what it loads next is the first name in the queue that is not yet
satisfied, and the needs of the new module go to the end. -/
theorem Scans.traverses {handled satisfied queue : List String} {l : Linkage σ} {r : Resolution σ}
    (h : Scans libraries files satisfied l r)
    (scan : l.modules.flatMap (·.needed) = handled ++ queue)
    (provided : ∀ n ∈ handled, n ∈ satisfied) :
    Traverses libraries files satisfied queue l r := by
  induction h generalizing handled queue with
  | @finished satisfied l none_left =>
    rw [nextNeeded?_eq scan provided] at none_left
    have all : ∀ n ∈ queue, n ∈ satisfied := by simpa using List.find?_eq_none.mp none_left
    simpa using Traverses.skip_all all (.done satisfied l)
  | failed next failed =>
    rw [nextNeeded?_eq scan provided] at next
    obtain ⟨unmet, skipped, rest, rfl, met⟩ := List.find?_eq_some_iff_append.mp next
    refine Traverses.skip_all (by simpa using met) ?_
    exact .of_provide_error rest (by simpa using unmet) failed
  | @again satisfied name calls r l after next done _ ih =>
    rw [nextNeeded?_eq scan provided] at next
    obtain ⟨unmet, skipped, rest, rfl, met⟩ := List.find?_eq_some_iff_append.mp next
    have met : ∀ n ∈ skipped, n ∈ satisfied := by simpa using met
    obtain ⟨handle, found, loaded, acyclic, rfl⟩ := provide_ok done
    obtain ⟨bytes, object, m, rfl, parsed, -, needs, modules, parser⟩ := load_ok loaded
    have later : after.modules.flatMap (·.needed) =
        handled ++ skipped ++ [name] ++ (rest ++ m.needed) := by
      simp [modules, scan]
    refine Traverses.skip_all met ?_
    refine .loaded (by simpa using unmet) found loaded acyclic modules (ih later ?_)
    intro n hn
    simp only [List.mem_append, List.mem_singleton] at hn
    rcases hn with (hn | hn) | rfl
    · exact List.mem_cons_of_mem name (provided n hn)
    · exact List.mem_cons_of_mem name (met n hn)
    · exact List.mem_cons_self

theorem resolution_traverses (builtins : List String) (libraries : LibraryRegistry)
    (files : FileSystem) (l : Linkage σ) :
    Traverses libraries files (l.filenames ++ builtins) (l.modules.flatMap (·.needed)) l
      (l.resolution builtins libraries files) := by
  have scan : l.modules.flatMap (·.needed) = [] ++ l.modules.flatMap (·.needed) := rfl
  exact (resolution_scans builtins l (Nat.le_refl _)).traverses scan nofun

theorem Traverses.opened_fresh {visited queue : List String} {l : Linkage σ} {r : Resolution σ}
    (h : Traverses libraries files visited queue l r) {n : String}
    (opened : .opened n ∈ r.calls) : n ∉ visited := by
  induction h with
  | done => cases opened
  | skip _ _ ih => exact ih opened
  | unopened _ fresh | missing _ _ fresh | unloaded _ fresh | cyclic _ fresh =>
    simp only [List.mem_cons, List.not_mem_nil, LibraryCall.opened.injEq, reduceCtorEq,
      or_false] at opened
    rw [opened]
    exact fresh
  | loaded fresh _ _ _ _ _ ih =>
    rcases List.mem_append.mp opened with first | later
    · simp only [List.mem_cons, List.not_mem_nil, LibraryCall.opened.injEq, reduceCtorEq,
        or_false] at first
      rw [first]
      exact fresh
    · exact fun known => ih later (List.mem_cons_of_mem _ known)

def Needs (l : Linkage σ) (user name : String) : Prop :=
  ∃ m ∈ l.modules, m.name = user ∧ name ∈ m.needed

/-- What is loaded at a point of a traversal from one executable, and what is still to come. -/
structure Frontier (executable : String) (builtins visited queue : List String)
    (l : Linkage σ) : Prop where
  distinct : l.filenames.Nodup
  visited_iff : ∀ n, n ∈ visited ↔ n ∈ builtins ∨ n ∈ l.filenames
  awaited : ∀ m ∈ l.modules, ∀ n ∈ m.needed, n ∈ visited ∨ n ∈ queue
  justified : ∀ n ∈ queue, ∃ user ∈ l.filenames, l.Needs user n
  reached : ∀ n ∈ l.filenames, Relation.ReflTransGen l.Needs executable n

variable {executable : String} {builtins visited queue : List String}

theorem frontier_single {l : Linkage σ} {m : LoadedModule σ} (modules : l.modules = [m]) :
    Frontier m.name builtins (m.name :: builtins) (l.modules.flatMap (·.needed)) l where
  distinct := by simp [filenames, modules]
  visited_iff n := by simp [filenames, modules, or_comm]
  awaited m' hm n hn := Or.inr (List.mem_flatMap.mpr ⟨m', hm, hn⟩)
  justified n hn := by
    obtain ⟨user, hu, needs⟩ := List.mem_flatMap.mp hn
    exact ⟨user.name, List.mem_map_of_mem hu, user, hu, rfl, needs⟩
  reached n hn := by
    have eq : n = m.name := by simpa [filenames, modules] using hn
    rw [eq]

theorem Frontier.skip {l : Linkage σ} {name : String}
    (h : Frontier executable builtins visited (name :: queue) l) (known : name ∈ visited) :
    Frontier executable builtins visited queue l where
  distinct := h.distinct
  visited_iff := h.visited_iff
  awaited m hm n hn := by
    rcases h.awaited m hm n hn with seen | waiting
    · exact Or.inl seen
    · rcases List.mem_cons.mp waiting with rfl | waiting
      · exact Or.inl known
      · exact Or.inr waiting
  justified n hn := h.justified n (List.mem_cons_of_mem name hn)
  reached := h.reached

theorem Frontier.load {l after : Linkage σ} {m : LoadedModule σ}
    (h : Frontier executable builtins visited (m.name :: queue) l) (fresh : m.name ∉ visited)
    (modules : after.modules = l.modules ++ [m]) :
    Frontier executable builtins (m.name :: visited) (queue ++ m.needed) after := by
  have names : after.filenames = l.filenames ++ [m.name] := by simp [filenames, modules]
  have needs : ∀ user n, l.Needs user n → after.Needs user n := by
    rintro user n ⟨owner, ho, named, mem⟩
    exact ⟨owner, by rw [modules]; exact List.mem_append_left _ ho, named, mem⟩
  -- whatever is loaded was visited before, and this name was not
  have new : m.name ∉ l.filenames := fun mem => fresh ((h.visited_iff m.name).mpr (Or.inr mem))
  have last : m.name ∈ after.filenames := by rw [names]; simp
  have reached : ∀ n ∈ l.filenames, Relation.ReflTransGen after.Needs executable n :=
    fun n hn => Relation.ReflTransGen.mono needs _ _ (h.reached n hn)
  refine ⟨?_, fun n => ?_, fun owner ho n hn => ?_, fun n hn => ?_, fun n hn => ?_⟩
  · rw [names, List.nodup_append]
    refine ⟨h.distinct, List.nodup_singleton _, fun n hn other ho => ?_⟩
    rw [List.mem_singleton.mp ho]
    exact fun eq => new (eq ▸ hn)
  · rw [List.mem_cons, h.visited_iff, names, List.mem_append, List.mem_singleton]
    tauto
  · rw [modules] at ho
    rcases List.mem_append.mp ho with earlier | latest
    · rcases h.awaited owner earlier n hn with seen | waiting
      · exact Or.inl (List.mem_cons_of_mem _ seen)
      · rcases List.mem_cons.mp waiting with rfl | waiting
        · exact Or.inl List.mem_cons_self
        · exact Or.inr (List.mem_append_left _ waiting)
    · rw [List.mem_singleton.mp latest] at hn
      exact Or.inr (List.mem_append_right _ hn)
  · rcases List.mem_append.mp hn with waiting | added
    · obtain ⟨user, hu, need⟩ := h.justified n (List.mem_cons_of_mem _ waiting)
      exact ⟨user, by rw [names]; exact List.mem_append_left _ hu, needs user n need⟩
    · exact ⟨m.name, last, m, by rw [modules]; simp, rfl, added⟩
  · rw [names] at hn
    rcases List.mem_append.mp hn with earlier | latest
    · exact reached n earlier
    · rw [List.mem_singleton.mp latest]
      obtain ⟨user, hu, need⟩ := h.justified m.name List.mem_cons_self
      exact (reached user hu).tail (needs user m.name need)

theorem Traverses.closed {l : Linkage σ} {r : Resolution σ}
    (h : Traverses libraries files visited queue l r)
    (inv : Frontier executable builtins visited queue l) (ok : r.outcome = .ok ()) :
    ∃ visited', Frontier executable builtins visited' [] r.linkage := by
  induction h with
  | done visited l => exact ⟨visited, inv⟩
  | skip known _ ih => exact ih (inv.skip known) ok
  | unopened | missing | unloaded | cyclic => cases ok
  | loaded fresh _ loaded _ appended _ ih =>
    obtain ⟨bytes, object, m, -, -, rfl, -, modules, -⟩ := load_ok loaded
    rw [appended] at modules
    cases List.append_cancel_left modules
    exact ih (inv.load fresh appended) ok

/-- From a loaded executable, resolution makes the calls of a breadth-first traversal of what is
needed, and ends as it ends. If all goes well, every module was loaded once and for a reason, all
that is needed is there, and nothing built in was looked for. -/
theorem resolution_breadth_first (arena : Arena σ) (parser : ObjectParser σ)
    (policy : CollisionPolicy) (name : String) (source : Except FileError Bytes)
    (builtins : List String) (libraries : LibraryRegistry) (files : FileSystem) :
    let start := (Linkage.empty arena parser policy).loadExecutable name source
    let l := start.2
    let r := l.resolution builtins libraries files
    start.1 = .ok () →
      l.resolve builtins libraries files = (r.outcome, r.linkage) ∧
      (∀ s, Traverses libraries files (name :: builtins) (l.modules.flatMap (·.needed)) l s ↔
        s = r) ∧
      (∀ n ∈ name :: builtins, .opened n ∉ r.calls) ∧
      (r.outcome = .ok () →
        r.linkage.filenames.Nodup ∧
        (∀ m ∈ r.linkage.modules, ∀ n ∈ m.needed, n ∈ builtins ∨ n ∈ r.linkage.filenames) ∧
        ∀ m ∈ r.linkage.modules, Relation.ReflTransGen r.linkage.Needs name m.name) := by
  intro start l r ok
  have loaded : (Linkage.empty arena parser policy).loadExecutable name source = (.ok (), l) :=
    Prod.ext ok rfl
  obtain ⟨m, rfl, modules⟩ := loadExecutable_ok loaded
  have single : l.modules = [m] := modules
  have traversed : Traverses libraries files (m.name :: builtins)
      (l.modules.flatMap (·.needed)) l r := by
    have all := l.resolution_traverses builtins libraries files
    rwa [show l.filenames ++ builtins = m.name :: builtins by simp [filenames, single]] at all
  refine ⟨rfl, fun s => ⟨fun other => other.unique traversed, fun eq => eq ▸ traversed⟩,
    fun n known opened => traversed.opened_fresh opened known, fun succeeded => ?_⟩
  obtain ⟨visited, closed⟩ := traversed.closed (frontier_single single) succeeded
  refine ⟨closed.distinct, fun user hu n hn => ?_, fun user hu => ?_⟩
  · rcases closed.awaited user hu n hn with seen | waiting
    · exact (closed.visited_iff n).mp seen
    · nomatch waiting
  · exact closed.reached user.name (List.mem_map_of_mem hu)

/-- The executable needs two libraries, itself and a built-in one. Both libraries need a third, and
the second one needs the first. -/
theorem breadth_first_diamond :
    let object (needed : List String) (entry : Option Word) : DeclaredObject :=
      ⟨[⟨0, 8, 0, [], .readWrite⟩], needed, [], entry, [], none⟩
    let parser : ObjectParser HostHeap := fun bytes => .ok (
      match bytes with
      | [1] => (object ["A", "B", "E", "libc"] (some 0)).toObject
      | [2] => (object ["C"] none).toObject
      | [3] => (object ["C", "A"] none).toObject
      | _ => (object [] none).toObject)
    let arena := Arena.empty 1 (HostHeap.empty none fun n _ => 0x10000 * UInt64.ofNat (n + 1))
    let libraries : LibraryRegistry :=
      ⟨[("A", .buffer [2]), ("B", .buffer [3]), ("C", .buffer [4])], []⟩
    let start := (Linkage.empty arena parser .lastWins).loadExecutable "E" (.ok [1])
    let r := start.2.resolution ["libc"] libraries (.empty [])
    start.1 = .ok () ∧ r.outcome = .ok () ∧
      r.calls = [.opened "A", .loaded "A", .opened "B", .loaded "B", .opened "C", .loaded "C"] ∧
      r.linkage.filenames = ["E", "A", "B", "C"] ∧ r.linkage.filenames.Nodup := by
  intro object parser arena libraries start r
  have ok : start.1 = .ok () := by decide
  have succeeded : r.outcome = .ok () := by decide
  obtain ⟨-, -, -, closed⟩ := resolution_breadth_first arena parser .lastWins "E" (.ok [1])
    ["libc"] libraries (.empty []) ok
  exact ⟨ok, succeeded, by decide, by decide, (closed succeeded).1⟩

end Linkage

end AppHost
