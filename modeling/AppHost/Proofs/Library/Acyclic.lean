import AppHost.Proofs.Library.BreadthFirst
import AppHost.Proofs.Library.Cycle
/-! Resolution refuses dependency cycles. A library that is loaded closes every new cycle, so a
search from it alone keeps the loaded modules free of cycles. No search starts at the executable,
which is there before: that it needs itself is the one cycle that can go unnoticed. -/
namespace AppHost

open Memory
open Relation (ReflTransGen TransGen)

namespace Linkage

variable {σ : Type} [Allocator σ]

def Depends (l : Linkage σ) (user name : String) : Prop := l.Needs user name ∧ name ∈ l.filenames

/-- Dependencies but for the executable's need of itself. -/
def DependsOtherwise (executable : String) (l : Linkage σ) (user name : String) : Prop :=
  l.Depends user name ∧ ¬ (user = executable ∧ name = executable)

theorem lookup_graph {l : Linkage σ} (distinct : l.filenames.Nodup) {m : LoadedModule σ}
    (hm : m ∈ l.modules) : l.graph.lookup m.name = some m.needed := by
  obtain ⟨before, after, split⟩ := List.append_of_mem hm
  have later : ∀ n ∈ after, n.name ≠ m.name := by
    intro n hn same
    unfold filenames at distinct
    rw [split, List.map_append, List.map_cons, List.nodup_append, List.nodup_cons] at distinct
    exact distinct.2.1.1 (same ▸ List.mem_map_of_mem hn)
  have skipped : ∀ p ∈ (after.map fun m => (m.name, m.needed)).reverse, m.name != p.1 := by
    intro p hp
    obtain ⟨n, hn, rfl⟩ := List.mem_map.mp (List.mem_reverse.mp hp)
    exact bne_iff_ne.mpr (later n hn).symm
  refine List.lookup_eq_some_iff.mpr
    ⟨_, (before.map fun m => (m.name, m.needed)).reverse, ?_, skipped⟩
  simp [graph, split]

theorem lookup_graph_isSome {l : Linkage σ} (distinct : l.filenames.Nodup) (name : String) :
    (l.graph.lookup name).isSome ↔ name ∈ l.filenames := by
  constructor
  · intro known
    obtain ⟨needs, found⟩ := Option.isSome_iff_exists.mp known
    obtain ⟨before, after, split, -⟩ := List.lookup_eq_some_iff.mp found
    have mem : (name, needs) ∈ l.graph := by simp [split]
    obtain ⟨m, hm, eq⟩ := List.mem_map.mp (List.mem_reverse.mp mem)
    cases eq
    exact List.mem_map_of_mem hm
  · intro loaded
    obtain ⟨m, hm, rfl⟩ := List.mem_map.mp loaded
    rw [lookup_graph distinct hm]
    rfl

theorem edge_graph {l : Linkage σ} (distinct : l.filenames.Nodup) :
    l.graph.Edge = l.Depends := by
  funext user name
  apply propext
  unfold DependencyGraph.Edge Depends
  rw [lookup_graph_isSome distinct]
  refine and_congr_left fun _ => ?_
  constructor
  · rintro ⟨needs, found, mem⟩
    have known := (lookup_graph_isSome distinct user).mp (by simp [found])
    obtain ⟨m, hm, rfl⟩ := List.mem_map.mp known
    rw [lookup_graph distinct hm] at found
    cases found
    exact ⟨m, hm, rfl, mem⟩
  · rintro ⟨m, hm, rfl, mem⟩
    exact ⟨m.needed, lookup_graph distinct hm, mem⟩

theorem depends_of_reached {l : Linkage σ} {start n : String} (hn : n ∈ l.filenames)
    (reach : ReflTransGen l.Needs start n) : ReflTransGen l.Depends start n := by
  induction reach with
  | refl => exact .refl
  | tail _ needs ih =>
    obtain ⟨m, hm, rfl, mem⟩ := needs
    exact (ih (List.mem_map_of_mem hm)).tail ⟨⟨m, hm, rfl, mem⟩, hn⟩

variable {executable : String} {l after : Linkage σ} {m : LoadedModule σ}

theorem Depends.of_added (modules : after.modules = l.modules ++ [m]) {a b : String}
    (h : after.Depends a b) (ha : a ≠ m.name) (hb : b ≠ m.name) : l.Depends a b := by
  obtain ⟨⟨user, hu, rfl, mem⟩, known⟩ := h
  unfold filenames at known
  rw [modules] at hu known
  constructor
  · rcases List.mem_append.mp hu with hu | hu
    · exact ⟨user, hu, rfl, mem⟩
    · exact absurd (congrArg LoadedModule.name (List.mem_singleton.mp hu)) ha
  · rw [List.map_append, List.mem_append] at known
    exact known.resolve_right fun last => hb (List.mem_singleton.mp last)

/-- The module that was added, when no cycle can be reached from it, has closed none. -/
theorem acyclic_of_added (distinct : after.filenames.Nodup)
    (modules : after.modules = l.modules ++ [m])
    (acyclic : ∀ n, ¬ TransGen (l.DependsOtherwise executable) n n)
    (clear : ¬ after.graph.CycleFrom m.name) :
    ∀ n, ¬ TransGen (after.DependsOtherwise executable) n n := by
  intro n cycle
  rcases cycle_avoids_or_meets m.name cycle with around | ⟨there, back⟩
  · refine acyclic n (TransGen.mono ?_ n n around)
    rintro a b ⟨⟨depends, other⟩, ha, hb⟩
    exact ⟨depends.of_added modules ha hb, other⟩
  · have back : TransGen after.Depends m.name m.name :=
      TransGen.mono (fun a b h => h.1) _ _ (back.trans_left there)
    exact clear ⟨m.name, .refl, by rwa [edge_graph distinct]⟩

/-- A cycle that can be reached from the module that was added runs through it, because the
executable leads to that module. -/
theorem cycle_through_added (distinct : after.filenames.Nodup)
    (modules : after.modules = l.modules ++ [m])
    (acyclic : ∀ n, ¬ TransGen (l.DependsOtherwise executable) n n)
    (ne : m.name ≠ executable) (reached : ReflTransGen after.Depends executable m.name)
    (found : after.graph.CycleFrom m.name) : TransGen after.Depends m.name m.name := by
  obtain ⟨c, reach, cycle⟩ := found
  rw [edge_graph distinct] at reach cycle
  rcases cycle_avoids_or_meets m.name cycle with around | ⟨there, back⟩
  · rcases cycle_avoids_or_meets executable around with beside | ⟨there, -⟩
    · refine absurd (TransGen.mono ?_ c c beside) (acyclic c)
      rintro a b ⟨⟨depends, ha, hb⟩, user, -⟩
      exact ⟨depends.of_added modules ha hb, fun own => user own.1⟩
    · have there : ReflTransGen after.Depends c executable :=
        ReflTransGen.mono (fun a b h => h.1) _ _ there
      have onward : TransGen after.Depends executable m.name :=
        (ReflTransGen.cases_head reached).elim (fun eq => absurd eq.symm ne)
          fun ⟨_, edge, rest⟩ => .head' edge rest
      exact onward.trans_right (reach.trans there)
  · exact back.trans_left there

variable {libraries : LibraryRegistry} {files : FileSystem} {builtins visited queue : List String}

/-- A traversal from a frontier without cycles: it ends without any, or with the one that the
last module closes. -/
theorem Traverses.cycles {r : Resolution σ} (h : Traverses libraries files visited queue l r)
    (inv : Frontier executable builtins visited queue l) (first : executable ∈ l.filenames)
    (acyclic : ∀ n, ¬ TransGen (l.DependsOtherwise executable) n n) :
    (r.outcome = .ok () → ∀ n, ¬ TransGen (r.linkage.DependsOtherwise executable) n n) ∧
    ∀ n, r.outcome = .error (.dependencyCycle n) →
      (∃ m, r.linkage.modules.getLast? = some m ∧ m.name = n) ∧
        TransGen r.linkage.Depends n n := by
  induction h with
  | done => exact ⟨fun _ => acyclic, fun n failed => nomatch failed⟩
  | skip known _ ih => exact ih (inv.skip known) first acyclic
  | unopened | missing | unloaded =>
    exact ⟨fun ok => (nomatch ok), fun n failed => nomatch failed⟩
  | @cyclic visited name handle l after queue fresh _ loaded cycle =>
    refine ⟨fun ok => (nomatch ok), fun n failed => ?_⟩
    obtain ⟨bytes, object, m, -, -, rfl, -, modules, -⟩ := load_ok loaded
    cases failed
    have next := inv.load fresh modules
    have last : m.name ∈ after.filenames := by simp [filenames, modules]
    have ne : m.name ≠ executable := fun eq =>
      fresh ((inv.visited_iff m.name).mpr (Or.inr (eq ▸ first)))
    refine ⟨⟨m, by simp [modules], rfl⟩, ?_⟩
    exact cycle_through_added next.distinct modules acyclic ne
      (depends_of_reached last (next.reached m.name last)) cycle
  | @loaded visited name queue handle m r l after fresh _ loaded clear appended _ ih =>
    obtain ⟨bytes, object, m', -, -, rfl, -, modules, -⟩ := load_ok loaded
    rw [appended] at modules
    cases List.append_cancel_left modules
    have next := inv.load fresh appended
    have first : executable ∈ after.filenames := by
      unfold filenames
      rw [appended, List.map_append]
      exact List.mem_append_left _ first
    exact ih next first (acyclic_of_added next.distinct appended acyclic clear)

/-- Where resolution succeeds, the loaded modules have no dependency cycle, unless the executable
needs itself, and then only that one. Where it reports a cycle, the module it names was the last
one to be loaded, and is on a cycle. -/
theorem cycles_refused_but_own_need (arena : Arena σ) (parser : ObjectParser σ)
    (policy : CollisionPolicy) (name : String) (source : Except FileError Bytes)
    (builtins : List String) (libraries : LibraryRegistry) (files : FileSystem) :
    let start := (Linkage.empty arena parser policy).loadExecutable name source
    let r := start.2.resolve builtins libraries files
    start.1 = .ok () →
      (r.1 = .ok () →
        (∀ n, ¬ TransGen (r.2.DependsOtherwise name) n n) ∧
        ((∀ n, ¬ TransGen r.2.Depends n n) ↔ ¬ r.2.Depends name name)) ∧
      ∀ n, r.1 = .error (.dependencyCycle n) →
        (∃ m, r.2.modules.getLast? = some m ∧ m.name = n) ∧ TransGen r.2.Depends n n := by
  intro start r ok
  have loaded : (Linkage.empty arena parser policy).loadExecutable name source =
      (.ok (), start.2) := Prod.ext ok rfl
  obtain ⟨m, rfl, modules⟩ := loadExecutable_ok loaded
  have single : start.2.modules = [m] := modules
  have traversed := start.2.resolution_traverses builtins libraries files
  rw [show start.2.filenames ++ builtins = m.name :: builtins by simp [filenames, single]]
    at traversed
  -- an executable on its own can only depend on itself
  have alone : ∀ n, ¬ TransGen (start.2.DependsOtherwise m.name) n n := by
    intro n cycle
    obtain ⟨b, ⟨⟨⟨user, hu, named, -⟩, known⟩, other⟩, -⟩ := TransGen.head'_iff.mp cycle
    rw [single, List.mem_singleton] at hu
    have known : b = m.name := by simpa [filenames, single] using known
    exact other ⟨by rw [← named, hu], known⟩
  obtain ⟨clear, refused⟩ := traversed.cycles (frontier_single single)
    (by simp [filenames, single]) alone
  refine ⟨fun succeeded => ⟨clear succeeded, ?_⟩, refused⟩
  constructor
  · intro acyclic own
    exact acyclic m.name (.single own)
  · intro innocent n cycle
    refine clear succeeded n (TransGen.mono (fun a b depends => ⟨depends, ?_⟩) n n cycle)
    rintro ⟨rfl, rfl⟩
    exact innocent depends

/-- The executable needs a first library, which needs a second one, which needs the first. -/
theorem cycle_of_two_libraries :
    let object (needed : List String) (entry : Option Word) : DeclaredObject :=
      ⟨[⟨0, 8, 0, [], .readWrite⟩], needed, [], entry, [], none⟩
    let parser : ObjectParser HostHeap := fun bytes => .ok (
      match bytes with
      | [1] => (object ["A"] (some 0)).toObject
      | [2] => (object ["B"] none).toObject
      | _ => (object ["libc", "A"] none).toObject)
    let arena := Arena.empty 1 (HostHeap.empty none fun n _ => 0x10000 * UInt64.ofNat (n + 1))
    let libraries : LibraryRegistry := ⟨[("A", .buffer [2]), ("B", .buffer [3])], []⟩
    let start := (Linkage.empty arena parser .lastWins).loadExecutable "E" (.ok [1])
    let r := start.2.resolve ["libc"] libraries (.empty [])
    start.1 = .ok () ∧ r.1 = .error (.dependencyCycle "B") ∧ r.2.filenames = ["E", "A", "B"] ∧
      TransGen r.2.Depends "B" "B" := by
  intro object parser arena libraries start r
  have ok : start.1 = .ok () := by decide
  have failed : r.1 = .error (.dependencyCycle "B") := by decide
  obtain ⟨-, refused⟩ := cycles_refused_but_own_need arena parser .lastWins "E" (.ok [1])
    ["libc"] libraries (.empty []) ok
  exact ⟨ok, failed, by decide, (refused "B" failed).2⟩

/-- Resolution accepts an executable that needs itself, and leaves that cycle behind. -/
theorem own_need_unnoticed :
    let object : DeclaredObject := ⟨[⟨0, 8, 0, [], .readWrite⟩], ["E"], [], some 0, [], none⟩
    let parser : ObjectParser HostHeap := fun _ => .ok object.toObject
    let arena := Arena.empty 1 (HostHeap.empty none fun n _ => 0x10000 * UInt64.ofNat (n + 1))
    let start := (Linkage.empty arena parser .lastWins).loadExecutable "E" (.ok [])
    let r := start.2.resolve [] .empty (.empty [])
    start.1 = .ok () ∧ r.1 = .ok () ∧ TransGen r.2.Depends "E" "E" := by
  intro object parser arena start r
  have needs : (r.2.modules.any fun m => m.name == "E" && m.needed.contains "E") = true := by decide
  obtain ⟨m, hm, own⟩ := List.any_eq_true.mp needs
  rw [Bool.and_eq_true, beq_iff_eq, List.contains_iff_mem] at own
  have known : "E" ∈ r.2.filenames := by decide
  exact ⟨by decide, by decide, .single ⟨⟨m, hm, own⟩, known⟩⟩

end Linkage

end AppHost
