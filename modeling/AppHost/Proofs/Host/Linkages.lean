import AppHost.Proofs.Host.Reachable
import AppHost.Proofs.Linkage.Lifecycle
/-! The linkages of a host. Nothing that happens to one is more than a call on it, a use of its
arena or the closing of that arena, so what holds of linkages all their life holds of all of them
at any time. -/
namespace AppHost

open Memory

namespace Linkage

variable {σ : Type} [Allocator σ] (libraries : LibraryRegistry) (files : FileSystem)

theorem provide_after (l : Linkage σ) (name : String) :
    ∃ calls : List LinkageCall, (∀ c ∈ calls, c.IsLoad) ∧
      (provide libraries files l name).linkage = l.after calls := by
  unfold provide
  split
  · exact ⟨[], nofun, rfl⟩
  · exact ⟨[], nofun, rfl⟩
  · rename_i handle _
    refine ⟨[.loadLibrary name handle], ?_, ?_⟩
    · intro c hc
      rw [List.mem_singleton.mp hc]
      trivial
    · change _ = (l.loadLibrary name handle).2
      split <;> rename_i loaded <;> rw [loaded]

theorem provideAll_after (fuel : ℕ) (satisfied : List String) (l : Linkage σ) :
    ∃ calls : List LinkageCall, (∀ c ∈ calls, c.IsLoad) ∧
      (provideAll libraries files fuel satisfied l).linkage = l.after calls := by
  induction fuel generalizing satisfied l with
  | zero => exact ⟨[], nofun, rfl⟩
  | succ fuel ih =>
    unfold provideAll
    split
    · exact ⟨[], nofun, rfl⟩
    · rename_i name _
      obtain ⟨calls, loads, first⟩ := provide_after libraries files l name
      split <;> rename_i provided <;> rw [provided] at first
      · exact ⟨calls, loads, first⟩
      · rename_i next _
        obtain ⟨later, loads', rest⟩ := ih (name :: satisfied) next
        refine ⟨calls ++ later, ?_, ?_⟩
        · intro c hc
          rcases List.mem_append.mp hc with hc | hc
          · exact loads c hc
          · exact loads' c hc
        · rw [after_append, ← first]
          exact rest

theorem resolve_after (builtins : List String) (l : Linkage σ) :
    ∃ calls : List LinkageCall, (∀ c ∈ calls, c.IsLoad) ∧
      (l.resolve builtins libraries files).2 = l.after calls :=
  provideAll_after libraries files _ _ l

end Linkage

namespace Host

variable {σ γ : Type} [Allocator σ] {P : Linkage (Audited σ) → Prop} {h after : Host σ γ} {id : ℕ}

def Every (P : Linkage (Audited σ) → Prop) (h : Host σ γ) : Prop :=
  ∀ (i : ℕ) (s : Space σ), h.spaces[i]? = some s → P s.linkage

theorem Every.linkage (e : h.Every P) {l : Linkage (Audited σ)} (found : h.linkage? id = some l) :
    P l := by
  obtain ⟨s, hs, rfl⟩ := Option.map_eq_some_iff.mp found
  exact e id s hs

theorem Every.of_same (e : h.Every P) (spaces : after.spaces = h.spaces) : after.Every P := by
  intro i s hs
  rw [spaces] at hs
  exact e i s hs

theorem Every.note (e : h.Every P) (event : HostEvent) : (h.note event).Every P := e.of_same rfl

theorem Every.modifySpace (e : h.Every P) {f : Space σ → Space σ}
    (keeps : ∀ s : Space σ, P s.linkage → P (f s).linkage) : (h.modifySpace id f).Every P := by
  intro i t ht
  rw [getElem?_modifySpace] at ht
  obtain ⟨s, hs, rfl⟩ := Option.map_eq_some_iff.mp ht
  by_cases at_id : id = i
  · rw [if_pos at_id]
    exact keeps s (e i s hs)
  · rw [if_neg at_id]
    exact e i s hs

theorem Every.hold (e : h.Every P) (id : ℕ) (who : Holder) : (h.hold id who).Every P :=
  e.modifySpace fun _ kept => kept

theorem Every.takePending? (e : h.Every P) {taken : Host σ γ} {i : ℕ} {t : Task}
    (found : h.takePending? i = some (t, taken)) : taken.Every P := by
  obtain ⟨t, -, eq⟩ := Option.map_eq_some_iff.mp found
  cases eq
  exact e.of_same rfl

variable (life : Linkage.Lifelong P)

include life

theorem Every.release (e : h.Every P) (id : ℕ) (who : Holder) : (h.release id who).Every P := by
  refine e.modifySpace ?_
  intro s kept
  unfold Space.release
  simp only
  split
  · exact life.idle kept s.linkage.arena.close s.linkage.journal
  · exact kept

theorem Every.newLinkage (e : h.Every P) : h.newLinkage.2.Every P := by
  intro i s hs
  change (h.spaces ++ [⟨h.freshLinkage, [.linkage]⟩])[i]? = some s at hs
  rcases List.mem_append.mp (List.mem_of_getElem? hs) with old | new
  · obtain ⟨j, hj⟩ := List.getElem?_of_mem old
    exact e j s hj
  · rw [List.mem_singleton.mp new]
    exact life.empty _ _ _

theorem Every.removeRecord (e : h.Every P) (pid : Pid) : (h.removeRecord pid).Every P := by
  unfold Host.removeRecord
  split
  · exact Every.release life (e.of_same rfl) _ _
  · exact e

theorem Every.addRecord (e : h.Every P) (pid : Pid) (name : String) (id : ℕ) :
    (h.addRecord pid name id).Every P :=
  ((e.removeRecord life pid).hold id .record).of_same rfl

theorem Every.leave (e : h.Every P) (id : ℕ) (c : Context (Audited σ)) :
    (h.leave id c).Every P := by
  have left : (h.modifySpace id fun s =>
      { s with linkage := { s.linkage with arena := c.arena } }).Every P :=
    e.modifySpace fun s kept => life.idle kept c.arena s.linkage.journal
  exact left.of_same rfl

theorem Every.dropTask (e : h.Every P) (t : Task) : (h.dropTask t).Every P :=
  (e.release life t.space .context).release life t.space .linkage

theorem Every.runTask (e : h.Every P) (t : Task) : (h.runTask t).Every P := by
  unfold Host.runTask
  split
  · exact e
  · rename_i l hl
    simp only
    generalize @Context.run (Audited σ) _ _ _ = c
    have left := ((e.note (.resumePointAsked t.pid (h.contextOf l.arena t.entry).unit.active?)).note
      (.executing t.pid (h.contextOf l.arena t.entry).unit.active? (some h.resumePoint) t.entry
        t.argv t.envp)).leave life t.space c
    have dropped := (left.release life t.space .context).release life t.space .linkage
    have ended := (dropped.removeRecord life t.pid).note
      (.ended t.pid (exitReason c.exitCode (h.programs t.pid).result).code)
    split
    · exact ended.note _
    · exact ended

theorem Every.submit (e : h.Every P) (t : Task) : (h.submit t).2.Every P := by
  have asked := e.note (.taskRequested (taskName t.pid) h.settings.taskStackBytes)
  unfold Host.submit
  simp only
  split
  · exact asked.runTask life t
  · exact asked.of_same rfl
  · exact (asked.dropTask life t).note _

theorem Every.spawn (e : h.Every P) (id : ℕ) (pid : Pid) (hook : Bool) :
    (h.spawn id pid hook).2.Every P := by
  rcases h.spawn_cases id pid hook with eq | ⟨entry, eq⟩ <;> rw [eq]
  · exact e.release life id .linkage
  · have collected : (h.modifySpace id fun s => { s with linkage := s.linkage.collect }).Every P :=
      e.modifySpace fun s kept => life.after kept [.collect]
    exact ((collected.hold id .context).note (.starting pid entry)).submit life _

theorem Every.startLinked (e : h.Every P) (id : ℕ) (hook : Bool) :
    (h.startLinked id hook).2.Every P := by
  rcases h.startLinked_cases id hook with ⟨-, eq⟩ | ⟨s, -, rest⟩
  · rw [eq]
    exact e
  have spawned := (e.addRecord life s.linkage.arena.pid (s.linkage.filenames.head?.getD "a.out")
    id).spawn life id s.linkage.arena.pid hook
  rcases rest with eq | ⟨cause, q, hq, eq⟩ | ⟨q, hq, eq⟩ <;> rw [eq]
  · exact (e.note _).release life id .linkage
  · rw [hq] at spawned
    exact spawned.removeRecord life _
  · rwa [hq] at spawned

theorem Every.begin (e : h.Every P) (name : String) : (h.begin name).Every P :=
  (e.newLinkage life).addRecord life _ name _

theorem Every.onLinkage {α : Type} (e : h.Every P)
    {f : Linkage (Audited σ) → α × Linkage (Audited σ)} {a : α}
    (calls : ∀ l, ∃ calls, (f l).2 = l.after calls)
    (done : h.onLinkage id f = some (a, after)) : after.Every P := by
  unfold Host.onLinkage at done
  obtain ⟨l, hl, done⟩ := Option.bind_eq_some_iff.mp done
  obtain ⟨s, hs, rfl⟩ := Option.map_eq_some_iff.mp hl
  cases done
  obtain ⟨made, eq⟩ := calls s.linkage
  have worked : (h.modifySpace id ({ · with linkage := (f s.linkage).2 })).Every P := by
    refine e.modifySpace ?_
    intro t _
    simp only [eq]
    exact life.after (e id s hs) made
  exact worked.of_same rfl

variable [CodeGenerator γ]

theorem Every.exportInto (e : h.Every P) (id : ℕ) : (h.exportInto id).2.Every P := by
  have same : (h.onCapabilities
      (·.exportWrapped (((h.linkage? id).map (·.symbols)).getD .empty))).2.Every P := e.of_same rfl
  unfold Host.exportInto
  simp only
  split
  · rename_i eq
    rw [eq] at same
    exact same
  · rename_i symbols h₁ eq
    rw [eq] at same
    exact same.modifySpace fun s kept => life.after kept [.setSymbols symbols]

theorem Every.phase (e : h.Every P) (id : ℕ) (phase : Phase) : (h.phase id phase).2.Every P := by
  cases phase with
  | load name handle =>
    have calls (l : Linkage (Audited σ)) :
        ∃ calls, (l.loadExecutable name handle).2 = l.after calls :=
      ⟨[.loadExecutable name handle], rfl⟩
    simp only [Host.phase]
    split
    · exact e
    · rename_i loaded
      exact e.onLinkage life calls loaded
    · rename_i loaded
      exact e.onLinkage life calls loaded
  | resolve =>
    have calls (l : Linkage (Audited σ)) : ∃ calls,
        (l.resolve h.settings.builtinLibraries h.libraries h.files).2 = l.after calls := by
      obtain ⟨calls, -, eq⟩ := Linkage.resolve_after h.libraries h.files _ l
      exact ⟨calls, eq⟩
    simp only [Host.phase]
    split
    · exact e
    · rename_i resolved
      have refused := e.onLinkage life calls resolved
      unfold noteUnresolved
      split
      · exact refused.note _
      · exact refused.note _
      · exact refused
    · rename_i resolved
      exact e.onLinkage life calls resolved
  | bind =>
    have exported := e.exportInto life id
    simp only [Host.phase]
    split <;> rename_i h₁ eq <;> rw [eq] at exported <;> exact exported
  | link =>
    have calls (l : Linkage (Audited σ)) : ∃ calls, l.link.2 = l.after calls := ⟨[.link], rfl⟩
    simp only [Host.phase]
    split
    · exact e
    · rename_i linked
      exact e.onLinkage life calls linked
    · rename_i linked
      exact e.onLinkage life calls linked

theorem Every.phases (e : h.Every P) (id : ℕ) (list : List Phase) :
    (h.phases id list).2.Every P := by
  induction list generalizing h with
  | nil => exact e
  | cons phase rest ih =>
    have first := e.phase life id phase
    simp only [Host.phases]
    split <;> rename_i eq <;> rw [eq] at first
    · exact first
    · exact ih first

theorem Every.startHandle (e : h.Every P) (name : String) (handle : Handle) (hook : Bool) :
    (h.startHandle name handle hook).2.Every P := by
  have prepared := (e.begin life name).phases life h.spaces.length (Phase.all name handle)
  rw [← prepare_eq_phases] at prepared
  rcases h.startHandle_cases name handle hook with
    ⟨cause, p, hp, eq⟩ | ⟨p, cause, q, hp, hq, eq⟩ | ⟨p, q, hp, hq, eq⟩ <;>
    rw [eq] <;> rw [hp] at prepared
  · exact ((prepared.release life _ _).removeRecord life _).note _
  · have spawned := prepared.spawn life h.spaces.length h.processes.next hook
    rw [hq] at spawned
    exact (spawned.removeRecord life _).note _
  · have spawned := prepared.spawn life h.spaces.length h.processes.next hook
    rwa [hq] at spawned

theorem Every.launch (e : h.Every P) (launch : Launch) (hook : Bool) :
    (h.launch launch hook).2.Every P := by
  cases launch with
  | path path =>
    change (h.start path hook).2.Every P
    unfold start
    split
    · exact e.note _
    · exact e.startHandle life _ _ hook
  | handle name handle => exact e.startHandle life name handle hook
  | linked id => exact e.startLinked life id hook

theorem Every.step (e : h.Every P) (next : Step h after) : after.Every P := by
  cases next with
  | reconfigure => exact e.of_same rfl
  | newLinkage => exact e.newLinkage life
  | use id call => exact e.modifySpace fun s kept => life.after kept [call]
  | export_ id => exact e.exportInto life id
  | drop id => exact e.release life id .linkage
  | launch launch hook => exact e.launch life launch hook
  | run found => exact (e.takePending? found).runTask life _
  | abandon found => exact (e.takePending? found).dropTask life _

/-- What holds of linkages all their life holds of all linkages of a host, whenever looked at. -/
theorem Reachable.every (r : h.Reachable) : h.Every P := by
  induction r with
  | built done =>
    unfold build at done
    obtain ⟨sites, -, done⟩ := bind_eq_ok.mp done
    cases done
    intro i s hs
    cases hs
  | step _ next ih => exact ih.step life next

end Host

end AppHost
