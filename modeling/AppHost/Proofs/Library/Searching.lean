import AppHost.Proofs.Library.Cycle
/-! The search for a dependency cycle comes to an end by itself. It has no counter to stop it; but a
module that is on the path or finished is not entered again, so a path is no longer than there are
modules. It answers whether a cycle can be reached, and where it finds none it has finished exactly
the modules that can be reached. -/
namespace AppHost

open Relation (ReflTransGen)

namespace DependencyGraph

/-- The search through several modules one after another, for as long as it takes: its answer and
the marks it leaves. A module that is entered is searched through its needs first. -/
inductive Searches (g : DependencyGraph) : List String → Marks → Bool × Marks → Prop where
  | nil (m) : Searches g [] m (false, m)
  | finished {name rest m r} (done : name ∈ m.done) (later : Searches g rest m r) :
      Searches g (name :: rest) m r
  | met {name m} (rest) (undone : name ∉ m.done) (path : name ∈ m.inProgress) :
      Searches g (name :: rest) m (true, m)
  | cyclic {name m m'} (rest) (undone : name ∉ m.done) (fresh : name ∉ m.inProgress)
      (inner : Searches g (g.successors name) { m with inProgress := name :: m.inProgress }
        (true, m')) :
      Searches g (name :: rest) m (true, m')
  | clear {name rest m m' r} (undone : name ∉ m.done) (fresh : name ∉ m.inProgress)
      (inner : Searches g (g.successors name) { m with inProgress := name :: m.inProgress }
        (false, m'))
      (later : Searches g rest
        { inProgress := m'.inProgress.erase name, done := name :: m'.done } r) :
      Searches g (name :: rest) m r

variable {g : DependencyGraph} {names targets : List String} {depth : ℕ} {name : String}
  {m m' : Marks} {r s : Bool × Marks}

theorem Searches.unique (h : Searches g targets m r) (i : Searches g targets m s) : r = s := by
  induction h generalizing s with
  | nil => cases i; rfl
  | finished done _ ih =>
    cases i with
    | finished _ later => exact ih later
    | _ => contradiction
  | met rest undone path =>
    cases i with
    | met => rfl
    | _ => contradiction
  | cyclic rest undone fresh _ ih =>
    cases i with
    | cyclic _ _ _ inner => exact ih inner
    | clear _ _ inner => nomatch ih inner
    | _ => contradiction
  | clear undone fresh _ _ ih later_ih =>
    cases i with
    | cyclic _ _ _ inner => nomatch ih inner
    | clear _ _ inner later =>
      cases ih inner
      exact later_ih later
    | _ => contradiction

theorem Searches.stop (h : Searches g [name] m (true, m')) (rest : List String) :
    Searches g (name :: rest) m (true, m') := by
  cases h with
  | finished _ later => nomatch later
  | met _ undone path => exact .met rest undone path
  | cyclic _ undone fresh inner => exact .cyclic rest undone fresh inner
  | clear _ _ _ later => nomatch later

theorem Searches.go_on {rest : List String} (h : Searches g [name] m (false, m'))
    (later : Searches g rest m' r) : Searches g (name :: rest) m r := by
  cases h with
  | finished done ended =>
    cases ended
    exact .finished done later
  | clear undone fresh inner ended =>
    cases ended
    exact .clear undone fresh inner later

theorem Searches.reached (h : Searches g targets m r) {n : String} (finished : n ∈ r.2.done) :
    n ∈ m.done ∨ ∃ t ∈ targets, ReflTransGen g.Edge t n := by
  induction h with
  | nil => exact Or.inl finished
  | finished _ _ ih =>
    refine (ih finished).imp_right ?_
    rintro ⟨t, ht, path⟩
    exact ⟨t, List.mem_cons_of_mem _ ht, path⟩
  | met => exact Or.inl finished
  | cyclic _ _ _ _ ih =>
    refine (ih finished).imp_right ?_
    rintro ⟨t, ht, path⟩
    exact ⟨_, List.mem_cons_self, .head (mem_successors.mp ht) path⟩
  | @clear name _ _ _ _ _ _ _ _ ih later_ih =>
    rcases later_ih finished with before | ⟨t, ht, path⟩
    · rcases List.mem_cons.mp before with rfl | before
      · exact Or.inr ⟨n, List.mem_cons_self, .refl⟩
      · refine (ih before).imp_right ?_
        rintro ⟨t, ht, path⟩
        exact ⟨name, List.mem_cons_self, .head (mem_successors.mp ht) path⟩
    · exact Or.inr ⟨t, List.mem_cons_of_mem _ ht, path⟩

theorem firstFound_searches {search : String → Marks → Bool × Marks}
    (each : ∀ n m, Underway g names depth [n] m → Answered g [n] m (search n m))
    (searched : ∀ n m, Underway g names depth [n] m → Searches g [n] m (search n m))
    (h : Underway g names depth targets m) :
    Searches g targets m (firstFound search targets m) := by
  induction targets generalizing m with
  | nil => exact .nil m
  | cons n rest ih =>
    have answered := each n m h.first
    have first := searched n m h.first
    unfold firstFound
    cases hs : search n m with
    | mk found m' =>
      rw [hs] at answered first
      cases answered with
      | cyclic => exact first.stop rest
      | clear same settled => exact first.go_on (ih (h.rest same settled))

/-- A search with room for every path is cut short nowhere. -/
theorem visit_searches (closed : ∀ a b, g.Edge a b → b ∈ names)
    (h : Underway g names depth [name] m) : Searches g [name] m (g.visit depth name m) := by
  induction depth generalizing name m with
  | zero => exact absurd h.depth_pos (Nat.lt_irrefl 0)
  | succ depth ih =>
    by_cases done : name ∈ m.done
    · rw [visit_of_done done]
      exact .finished done (.nil m)
    by_cases met : name ∈ m.inProgress
    · rw [visit_of_met done met]
      exact .met [] done met
    have inner := firstFound_searches (fun n m => visit_answered closed) (fun n m => ih)
      (h.enter met closed)
    rw [visit_of_fresh done met]
    cases outcome : firstFound (g.visit depth) (g.successors name)
        { m with inProgress := name :: m.inProgress } with
    | mk found m' =>
      rw [outcome] at inner
      cases found with
      | true => exact .cyclic [] done met inner
      | false => exact .clear done met inner (.nil _)

/-- Every search from one module on, through whatever needs there are, comes to its end with one
answer: that a cycle can be reached, exactly where one can. Where none can, no module is left in
progress, and the finished ones are those that can be reached. -/
theorem search_decides_cycles (g : DependencyGraph) (start : String) :
    (∀ r, Searches g [start] ⟨[], []⟩ r ↔ r = g.search start) ∧
      ((g.search start).1 = true ↔ g.CycleFrom start) ∧
      ((g.search start).1 = false → (g.search start).2.inProgress = [] ∧
        ∀ n, n ∈ (g.search start).2.done ↔ ReflTransGen g.Edge start n) := by
  have searched : Searches g [start] ⟨[], []⟩ (g.search start) :=
    visit_searches (edge_known start) (g.underway_start start)
  have answered := g.search_answered start
  refine ⟨?_, g.reachesCycle_iff start, ?_⟩
  · intro r
    constructor
    · intro other
      exact other.unique searched
    · rintro rfl
      exact searched
  · intro innocent
    generalize g.search start = outcome at *
    cases answered with
    | cyclic => nomatch innocent
    | clear same settled _ finished =>
      refine ⟨same, fun n => ⟨fun hn => ?_, settled.reach (finished List.mem_cons_self)⟩⟩
      obtain old | ⟨t, ht, path⟩ := searched.reached hn
      · nomatch old
      · exact List.mem_singleton.mp ht ▸ path

/-- Modules that share their needs, and name some twice and one that is not known; beside them a
module that needs itself. -/
theorem search_of_shared_needs :
    let g : DependencyGraph :=
      [("a", ["b", "c", "b", "libc"]), ("b", ["d"]), ("c", ["d", "b"]), ("d", []),
        ("e", ["a", "e"])]
    (g.search "a").1 = false ∧ (g.search "a").2.inProgress = [] ∧
      (∀ n, n ∈ ["a", "c", "b", "d"] ↔ ReflTransGen g.Edge "a" n) ∧ g.CycleFrom "e" := by
  intro g
  obtain ⟨-, -, clear⟩ := search_decides_cycles g "a"
  obtain ⟨-, cyclic, -⟩ := search_decides_cycles g "e"
  have innocent : (g.search "a").1 = false := by decide
  obtain ⟨path, finished⟩ := clear innocent
  have done : (g.search "a").2.done = ["a", "c", "b", "d"] := by decide
  exact ⟨innocent, path, done ▸ finished, cyclic.mp (by decide)⟩

end DependencyGraph

end AppHost
