import AppHost.Library.Cycle
import Mathlib.Data.List.Nodup
import Mathlib.Data.List.Perm.Subperm
import Mathlib.Logic.Relation
/-! The search for a dependency cycle is exact: it finds one when, and only when, one can be
reached from where it starts. Modules are finished in reverse order of need, so a finished module
cannot lead back to itself; a module met while it is in progress does. -/
namespace AppHost

open Relation (ReflTransGen TransGen)

theorem avoids_or_meets {α : Type} {r : α → α → Prop} (x : α) {a b : α} (path : TransGen r a b)
    (ends : b ≠ x) :
    TransGen (fun u v => r u v ∧ u ≠ x ∧ v ≠ x) a b ∨ ReflTransGen r a x ∧ TransGen r x b := by
  induction path with
  | single edge =>
    by_cases h : a = x
    · subst h
      exact Or.inr ⟨.refl, .single edge⟩
    · exact Or.inl (.single ⟨edge, h, ends⟩)
  | @tail b c before edge ih =>
    by_cases h : b = x
    · subst h
      exact Or.inr ⟨before.to_reflTransGen, .single edge⟩
    · rcases ih h with clear | ⟨reach, rest⟩
      · exact Or.inl (clear.tail ⟨edge, h, ends⟩)
      · exact Or.inr ⟨reach, rest.tail edge⟩

theorem cycle_avoids_or_meets {α : Type} {r : α → α → Prop} (x : α) {a : α}
    (cycle : TransGen r a a) :
    TransGen (fun u v => r u v ∧ u ≠ x ∧ v ≠ x) a a ∨ ReflTransGen r a x ∧ TransGen r x a := by
  by_cases h : a = x
  · subst h
    exact Or.inr ⟨.refl, cycle⟩
  · exact avoids_or_meets x cycle h

namespace DependencyGraph

variable {g : DependencyGraph}

/-- The first module needs the second, and both are known. -/
def Edge (g : DependencyGraph) (a b : String) : Prop :=
  (∃ needs, g.lookup a = some needs ∧ b ∈ needs) ∧ (g.lookup b).isSome

theorem mem_successors {a b : String} : b ∈ g.successors a ↔ g.Edge a b := by
  unfold successors Edge
  rw [List.mem_filter]
  cases g.lookup a <;> simp

/-- Some module on a cycle can be reached. -/
def CycleFrom (g : DependencyGraph) (start : String) : Prop :=
  ∃ n, ReflTransGen g.Edge start n ∧ TransGen g.Edge n n

/-- Whatever a finished module needs was finished before it. -/
def Settled (g : DependencyGraph) : List String → Prop
  | [] => True
  | n :: before => (∀ b, g.Edge n b → b ∈ before) ∧ Settled g before

theorem Settled.closed {done : List String} (h : Settled g done) {a b : String} (ha : a ∈ done)
    (edge : g.Edge a b) : b ∈ done := by
  induction done with
  | nil => nomatch ha
  | cons n before ih =>
    apply List.mem_cons_of_mem
    rcases List.mem_cons.mp ha with rfl | ha
    · exact h.1 b edge
    · exact ih h.2 ha

theorem Settled.reach {done : List String} (h : Settled g done) {a b : String} (ha : a ∈ done)
    (path : ReflTransGen g.Edge a b) : b ∈ done := by
  induction path with
  | refl => exact ha
  | tail _ edge ih => exact h.closed ih edge

theorem Settled.no_cycle {done : List String} (h : Settled g done) {n : String} (hn : n ∈ done) :
    ¬ TransGen g.Edge n n := by
  induction done generalizing n with
  | nil => nomatch hn
  | cons d before ih =>
    by_cases old : n ∈ before
    · exact ih h.2 old
    · intro cycle
      obtain rfl : n = d := (List.mem_cons.mp hn).resolve_right old
      obtain ⟨b, edge, back⟩ := TransGen.head'_iff.mp cycle
      exact old (h.2.reach (h.1 b edge) back)

theorem Settled.no_cycle_from {done : List String} (h : Settled g done) {n : String}
    (hn : n ∈ done) : ¬ g.CycleFrom n := by
  rintro ⟨c, reach, cycle⟩
  exact h.no_cycle (h.reach hn reach) cycle

/-- What a search may assume of its marks: the modules in progress lead to those it is asked
about, and the path still has room for every name. -/
structure Underway (g : DependencyGraph) (names : List String) (depth : ℕ)
    (targets : List String) (m : Marks) : Prop where
  settled : Settled g m.done
  path : ∀ p ∈ m.inProgress, ∀ n ∈ targets, TransGen g.Edge p n
  distinct : m.inProgress.Nodup
  known : m.inProgress ⊆ names
  targets_known : targets ⊆ names
  room : names.length < depth + m.inProgress.length

/-- What a search has found out about its targets. -/
inductive Answered (g : DependencyGraph) (targets : List String) (m : Marks) :
    Bool × Marks → Prop where
  | cyclic {n m'} (target : n ∈ targets) (cycle : g.CycleFrom n) : Answered g targets m (true, m')
  | clear {m'} (same : m'.inProgress = m.inProgress) (settled : Settled g m'.done)
      (kept : m.done ⊆ m'.done) (finished : targets ⊆ m'.done) :
      Answered g targets m (false, m')

theorem Underway.first {names : List String} {depth : ℕ} {n : String} {rest : List String}
    {m : Marks} (h : Underway g names depth (n :: rest) m) : Underway g names depth [n] m :=
  { h with
    path := fun p hp t ht => by
      rw [List.mem_singleton.mp ht]
      exact h.path p hp n List.mem_cons_self
    targets_known := by
      intro t ht
      rw [List.mem_singleton.mp ht]
      exact h.targets_known List.mem_cons_self }

theorem Underway.rest {names : List String} {depth : ℕ} {n : String} {rest : List String}
    {m m' : Marks} (h : Underway g names depth (n :: rest) m)
    (same : m'.inProgress = m.inProgress) (settled : Settled g m'.done) :
    Underway g names depth rest m' where
  settled := settled
  path p hp t ht := h.path p (same ▸ hp) t (List.mem_cons_of_mem n ht)
  distinct := same ▸ h.distinct
  known := same ▸ h.known
  targets_known _ ht := h.targets_known (List.mem_cons_of_mem n ht)
  room := same ▸ h.room

theorem Underway.depth_pos {names : List String} {depth : ℕ} {targets : List String} {m : Marks}
    (h : Underway g names depth targets m) : 0 < depth := by
  have short := (h.distinct.subperm h.known).length_le
  have room := h.room
  omega

theorem firstFound_answered {names : List String} {depth : ℕ}
    {search : String → Marks → Bool × Marks}
    (each : ∀ n m, Underway g names depth [n] m → Answered g [n] m (search n m))
    {targets : List String} {m : Marks} (h : Underway g names depth targets m) :
    Answered g targets m (firstFound search targets m) := by
  induction targets generalizing m with
  | nil => exact .clear rfl h.settled (List.Subset.refl _) (List.nil_subset _)
  | cons n rest ih =>
    have first := each n m h.first
    unfold firstFound
    cases hs : search n m with
    | mk found m' =>
      rw [hs] at first
      cases first with
      | cyclic target cycle =>
        obtain rfl := List.mem_singleton.mp target
        exact .cyclic List.mem_cons_self cycle
      | clear same settled kept finished =>
        have others := ih (h.rest same settled)
        simp only
        generalize firstFound search rest m' = outcome at others ⊢
        cases others with
        | cyclic target cycle => exact .cyclic (List.mem_cons_of_mem n target) cycle
        | clear same' settled' kept' finished' =>
          refine .clear (same'.trans same) settled' (fun x hx => kept' (kept hx)) ?_
          exact List.cons_subset.mpr ⟨kept' (finished List.mem_cons_self), finished'⟩

theorem CycleFrom.head {a b : String} (edge : g.Edge a b) (h : g.CycleFrom b) : g.CycleFrom a := by
  obtain ⟨n, reach, cycle⟩ := h
  exact ⟨n, .head edge reach, cycle⟩

theorem Underway.enter {names : List String} {depth : ℕ} {name : String} {m : Marks}
    (h : Underway g names (depth + 1) [name] m) (fresh : name ∉ m.inProgress)
    (closed : ∀ a b, g.Edge a b → b ∈ names) :
    Underway g names depth (g.successors name)
      { m with inProgress := name :: m.inProgress } where
  settled := h.settled
  path p hp n hn := by
    rcases List.mem_cons.mp hp with rfl | hp
    · exact .single (mem_successors.mp hn)
    · exact (h.path p hp name List.mem_cons_self).tail (mem_successors.mp hn)
  distinct := List.nodup_cons.mpr ⟨fresh, h.distinct⟩
  known := List.cons_subset.mpr ⟨h.targets_known List.mem_cons_self, h.known⟩
  targets_known n hn := closed name n (mem_successors.mp hn)
  room := by
    have room := h.room
    rw [List.length_cons]
    omega

section Visit

variable {name : String} {m : Marks}

theorem visit_of_done (done : name ∈ m.done) (depth : ℕ) :
    g.visit (depth + 1) name m = (false, m) := by
  simp [visit, done]

theorem visit_of_met (undone : name ∉ m.done) (met : name ∈ m.inProgress) (depth : ℕ) :
    g.visit (depth + 1) name m = (true, m) := by
  simp [visit, undone, met]

theorem visit_of_fresh (undone : name ∉ m.done) (fresh : name ∉ m.inProgress) (depth : ℕ) :
    g.visit (depth + 1) name m =
      match firstFound (g.visit depth) (g.successors name)
        { m with inProgress := name :: m.inProgress } with
      | (true, m) => (true, m)
      | (false, m) =>
        (false, { inProgress := m.inProgress.erase name, done := name :: m.done }) :=
  (if_neg (mt List.contains_iff_mem.mp undone)).trans (if_neg (mt List.contains_iff_mem.mp fresh))

end Visit

theorem visit_answered {names : List String} (closed : ∀ a b, g.Edge a b → b ∈ names)
    {depth : ℕ} {name : String} {m : Marks} (h : Underway g names depth [name] m) :
    Answered g [name] m (g.visit depth name m) := by
  induction depth generalizing name m with
  | zero => exact absurd h.depth_pos (Nat.lt_irrefl 0)
  | succ depth ih =>
    by_cases done : name ∈ m.done
    · rw [visit_of_done done]
      refine .clear rfl h.settled (List.Subset.refl _) ?_
      exact List.cons_subset.mpr ⟨done, List.nil_subset _⟩
    by_cases met : name ∈ m.inProgress
    · rw [visit_of_met done met]
      have back := h.path name met name List.mem_cons_self
      exact .cyclic List.mem_cons_self ⟨name, .refl, back⟩
    -- the path is one longer in there, and the induction is on the depth that is left
    have inner := firstFound_answered (fun n m => ih) (h.enter met closed)
    rw [visit_of_fresh done met]
    generalize firstFound (g.visit depth) (g.successors name)
      { m with inProgress := name :: m.inProgress } = outcome at inner ⊢
    cases inner with
    | cyclic target cycle =>
      exact .cyclic List.mem_cons_self (cycle.head (mem_successors.mp target))
    | @clear m' same settled kept finished =>
      refine .clear ?_ ⟨fun b edge => finished (mem_successors.mpr edge), settled⟩ ?_ ?_
      · rw [same, List.erase_cons_head]
      · exact List.subset_cons_of_subset name kept
      · exact List.cons_subset.mpr ⟨List.mem_cons_self, List.nil_subset _⟩

theorem firstFound_congr {names : List String} {depth : ℕ}
    {search other : String → Marks → Bool × Marks}
    (each : ∀ n m, Underway g names depth [n] m → Answered g [n] m (search n m))
    (agree : ∀ n m, Underway g names depth [n] m → other n m = search n m)
    {targets : List String} {m : Marks} (h : Underway g names depth targets m) :
    firstFound other targets m = firstFound search targets m := by
  induction targets generalizing m with
  | nil => rfl
  | cons n rest ih =>
    have first := each n m h.first
    unfold firstFound
    rw [agree n m h.first]
    cases hs : search n m with
    | mk found m' =>
      rw [hs] at first
      cases first with
      | cyclic => rfl
      | clear same settled => exact ih (h.rest same settled)

/-- A search with room for every path makes no use of more. -/
theorem visit_add {names : List String} (closed : ∀ a b, g.Edge a b → b ∈ names) (more : ℕ)
    {depth : ℕ} {name : String} {m : Marks} (h : Underway g names depth [name] m) :
    g.visit (depth + more) name m = g.visit depth name m := by
  induction depth generalizing name m with
  | zero => exact absurd h.depth_pos (Nat.lt_irrefl 0)
  | succ depth ih =>
    rw [Nat.succ_add]
    by_cases done : name ∈ m.done
    · rw [visit_of_done done, visit_of_done done]
    by_cases met : name ∈ m.inProgress
    · rw [visit_of_met done met, visit_of_met done met]
    rw [visit_of_fresh done met, visit_of_fresh done met,
      firstFound_congr (fun n m => visit_answered closed) (fun n m => ih) (h.enter met closed)]

theorem edge_known (start : String) (a b : String) (edge : g.Edge a b) :
    b ∈ start :: g.map (·.1) := by
  obtain ⟨needs, found⟩ := Option.isSome_iff_exists.mp edge.2
  obtain ⟨before, after, split, -⟩ := List.lookup_eq_some_iff.mp found
  simp [split]

theorem underway_start (g : DependencyGraph) (start : String) :
    Underway g (start :: g.map (·.1)) (g.length + 2) [start] ⟨[], []⟩ where
  settled := trivial
  path := nofun
  distinct := .nil
  known := List.nil_subset _
  targets_known := List.cons_subset.mpr ⟨List.mem_cons_self, List.nil_subset _⟩
  room := by simp

theorem search_answered (g : DependencyGraph) (start : String) :
    Answered g [start] ⟨[], []⟩ (g.search start) :=
  visit_answered (edge_known start) (g.underway_start start)

theorem visit_eq_search (g : DependencyGraph) (start : String) {depth : ℕ}
    (deep : g.length + 2 ≤ depth) : g.visit depth start ⟨[], []⟩ = g.search start := by
  obtain ⟨more, rfl⟩ := Nat.exists_eq_add_of_le deep
  exact visit_add (edge_known start) more (g.underway_start start)

theorem reachesCycle_iff (g : DependencyGraph) (start : String) :
    g.reachesCycle start = true ↔ g.CycleFrom start := by
  have answered := g.search_answered start
  unfold reachesCycle
  generalize g.search start = outcome at answered ⊢
  cases answered with
  | cyclic target cycle =>
    obtain rfl := List.mem_singleton.mp target
    exact iff_of_true rfl cycle
  | clear _ settled _ finished =>
    exact iff_of_false Bool.false_ne_true (settled.no_cycle_from (finished List.mem_cons_self))

end DependencyGraph

end AppHost
