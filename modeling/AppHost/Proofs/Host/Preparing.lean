import AppHost.Proofs.Host.Linkages
/-! Preparing a program. Its linkage is loaded and linked before anybody could have attempted to
link it, so no stage finds metadata missing, and a linkage that comes out of all stages has an
entry point. -/
namespace AppHost

open Memory

namespace Linkage

variable {σ : Type} [Allocator σ]

theorem provide_ne_notReady (libraries : LibraryRegistry) (files : FileSystem) (l : Linkage σ)
    (name : String) : (provide libraries files l name).outcome ≠ .error .notReady := by
  unfold provide
  split
  · nofun
  · nofun
  · split
    · nofun
    · simp only
      split <;> nofun

theorem resolve_ne_notReady (builtins : List String) (libraries : LibraryRegistry)
    (files : FileSystem) (l : Linkage σ) :
    (l.resolve builtins libraries files).1 ≠ .error .notReady := by
  change (provideAll libraries files _ _ l).outcome ≠ _
  generalize l.neededBound libraries files = fuel
  generalize l.filenames ++ builtins = satisfied
  induction fuel generalizing satisfied l with
  | zero => nofun
  | succ fuel ih =>
    unfold provideAll
    split
    · nofun
    · rename_i name _
      have provided := provide_ne_notReady libraries files l name
      split <;> rename_i eq <;> rw [eq] at provided
      · exact provided
      · exact ih _ _

end Linkage

namespace Host

variable {σ γ : Type} [Allocator σ] {h p q : Host σ γ} {id : ℕ}

theorem onLinkage_done {α : Type} {f : Linkage (Audited σ) → α × Linkage (Audited σ)} {a : α}
    (done : h.onLinkage id f = some (a, p)) {l : Linkage (Audited σ)}
    (found : h.linkage? id = some l) :
    ∃ l', f l = (a, l') ∧ p.linkage? id = some l' ∧ p.capabilities = h.capabilities := by
  unfold onLinkage at done
  obtain ⟨l₀, found', done⟩ := Option.bind_eq_some_iff.mp done
  cases found.symm.trans found'
  cases done
  obtain ⟨s, hs, -⟩ := Option.map_eq_some_iff.mp found
  refine ⟨(f l).2, rfl, ?_, rfl⟩
  change ((h.modifySpace id ({ · with linkage := (f l).2 })).spaces[id]?).map (·.linkage) = _
  rw [getElem?_modifySpace, hs]
  simp

theorem onLinkage_none {α : Type} {f : Linkage (Audited σ) → α × Linkage (Audited σ)}
    (none_there : h.onLinkage id f = none) : h.linkage? id = none := by
  unfold onLinkage at none_there
  cases found : h.linkage? id with
  | none => rfl
  | some l =>
    rw [found] at none_there
    cases none_there

theorem submit_ne_notReady (h : Host σ γ) (t : Task) : (h.submit t).1 ≠ .error .notReady := by
  unfold submit
  simp only
  split <;> nofun

theorem spawn_notReady {pid : Pid} {hook : Bool}
    (failed : h.spawn id pid hook = (.error .notReady, q)) {l : Linkage (Audited σ)}
    (found : h.linkage? id = some l) : l.entry = none := by
  unfold spawn at failed
  split at failed
  · rename_i no_entry
    rwa [found] at no_entry
  · exact absurd (congrArg Prod.fst failed) (submit_ne_notReady _ _)

/-- A process is recorded without a change to its linkage, but for the arena that a record of the
same identifier may have been the last to hold. -/
theorem addRecord_linkage {l : Linkage (Audited σ)} (found : h.linkage? id = some l) (pid : Pid)
    (name : String) : ∃ arena,
      (h.addRecord pid name id).linkage? id = some { l with arena } := by
  obtain ⟨s, hs, rfl⟩ := Option.map_eq_some_iff.mp found
  have recorded := getElem?_modifySpace (h.removeRecord pid) id id fun s =>
    { s with holders := .record :: s.holders }
  rw [getElem?_removeRecord, hs] at recorded
  have linkage := congrArg (Option.map (·.linkage)) recorded
  by_cases recycled : (h.processes.get? pid).map (·.arena) = some id
  · simp only [Option.map_some, if_true, recycled] at linkage
    unfold Space.release at linkage
    simp only at linkage
    split at linkage
    · exact ⟨_, linkage⟩
    · exact ⟨s.linkage.arena, linkage⟩
  · simp only [Option.map_some, if_true, if_neg recycled] at linkage
    exact ⟨s.linkage.arena, linkage⟩

theorem begin_linkage (h : Host σ γ) (name : String) : ∃ arena,
    (h.begin name).linkage? h.spaces.length =
      some (.empty arena h.parser h.settings.symbolCollisions) := by
  have fresh : h.newLinkage.2.linkage? h.spaces.length = some h.freshLinkage :=
    congrArg (Option.map fun s : Space σ => s.linkage) h.newLinkage_space
  obtain ⟨arena, begun⟩ := addRecord_linkage fresh h.processes.next name
  exact ⟨arena, begun⟩

variable [CodeGenerator γ]

inductive Passes (h p : Host σ γ) (l : Linkage (Audited σ)) :
    Phase → Linkage (Audited σ) → Prop where
  | loaded {name handle l'} (done : l.loadExecutable name handle = (.ok (), l'))
      (same : p.capabilities = h.capabilities) : Passes h p l (.load name handle) l'
  | resolved {calls} (loads : ∀ c ∈ calls, LinkageCall.IsLoad c)
      (same : p.capabilities = h.capabilities) : Passes h p l .resolve (l.after calls)
  | bound {symbols}
      (exported : h.capabilities.exportWrapped l.symbols = (.ok symbols, p.capabilities)) :
      Passes h p l .bind { l with symbols }
  | linked {l'} (done : l.link = (.ok (), l')) (same : p.capabilities = h.capabilities) :
      Passes h p l .link l'

theorem exportInto_ok {size : ℕ} (done : h.exportInto id = (.ok size, p)) {l : Linkage (Audited σ)}
    (found : h.linkage? id = some l) :
    ∃ symbols, p.linkage? id = some { l with symbols } ∧
      h.capabilities.exportWrapped l.symbols = (.ok symbols, p.capabilities) := by
  unfold exportInto at done
  simp only [found, Option.map_some, Option.getD_some] at done
  split at done <;> rename_i eq <;> cases done
  rename_i symbols made
  have merged : ((h.capabilities.exportWrapped l.symbols).1, (_ : Host σ γ)) =
      (.ok symbols, made) := eq
  obtain ⟨outcome, rfl⟩ := Prod.mk.inj merged
  refine ⟨symbols, ?_, Prod.ext outcome rfl⟩
  obtain ⟨s, hs, rfl⟩ := Option.map_eq_some_iff.mp found
  unfold linkage?
  rw [getElem?_modifySpace]
  change ((h.spaces[id]?).map _).map _ = _
  rw [hs]
  simp

theorem phase_passes {phase : Phase} (done : h.phase id phase = (.ok (), p))
    {l : Linkage (Audited σ)} (found : h.linkage? id = some l) :
    ∃ l', p.linkage? id = some l' ∧ h.Passes p l phase l' := by
  cases phase with
  | load name handle =>
    simp only [Host.phase] at done
    split at done <;> rename_i loaded <;> cases done
    obtain ⟨l', done, found', same⟩ := onLinkage_done loaded found
    exact ⟨l', found', .loaded done same⟩
  | resolve =>
    simp only [Host.phase] at done
    split at done <;> rename_i resolved <;> cases done
    obtain ⟨l', done, found', same⟩ := onLinkage_done resolved found
    obtain ⟨calls, loads, eq⟩ :=
      Linkage.resolve_after h.libraries h.files h.settings.builtinLibraries l
    rw [done] at eq
    cases eq
    exact ⟨l.after calls, found', .resolved loads same⟩
  | bind =>
    simp only [Host.phase] at done
    split at done <;> rename_i exported <;> cases done
    obtain ⟨symbols, found', exported⟩ := exportInto_ok exported found
    exact ⟨_, found', .bound exported⟩
  | link =>
    simp only [Host.phase] at done
    split at done <;> rename_i linked <;> cases done
    obtain ⟨l', done, found', same⟩ := onLinkage_done linked found
    exact ⟨l', found', .linked done same⟩

theorem phase_notReady {phase : Phase} (failed : h.phase id phase = (.error .notReady, p)) :
    h.linkage? id = none := by
  cases phase with
  | load name handle =>
    simp only [Host.phase] at failed
    split at failed <;> rename_i loaded <;> cases failed
    exact onLinkage_none loaded
  | resolve =>
    simp only [Host.phase] at failed
    split at failed <;> rename_i resolved <;> cases failed
    · exact onLinkage_none resolved
    · cases found : h.linkage? id with
      | none => rfl
      | some l =>
        obtain ⟨l', done, -⟩ := onLinkage_done resolved found
        exact absurd (congrArg Prod.fst done) (Linkage.resolve_ne_notReady _ _ _ l)
  | bind =>
    simp only [Host.phase] at failed
    split at failed <;> cases failed
  | link =>
    simp only [Host.phase] at failed
    split at failed <;> rename_i linked <;> cases failed
    exact onLinkage_none linked

theorem phases_cons_ok {phase : Phase} {rest : List Phase}
    (done : h.phases id (phase :: rest) = (.ok (), p)) :
    ∃ q, h.phase id phase = (.ok (), q) ∧ q.phases id rest = (.ok (), p) := by
  simp only [phases] at done
  split at done
  · cases done
  · rename_i q eq
    exact ⟨q, eq, done⟩

theorem phases_append_ok {first second : List Phase}
    (done : h.phases id (first ++ second) = (.ok (), p)) :
    ∃ q, h.phases id first = (.ok (), q) ∧ q.phases id second = (.ok (), p) := by
  induction first generalizing h with
  | nil => exact ⟨h, rfl, done⟩
  | cons phase rest ih =>
    obtain ⟨q, passed, done⟩ := phases_cons_ok done
    obtain ⟨last, first, second⟩ := ih done
    refine ⟨last, ?_, second⟩
    simp only [phases, passed]
    exact first

theorem phases_notReady {list : List Phase} {l : Linkage (Audited σ)}
    (found : h.linkage? id = some l) : (h.phases id list).1 ≠ .error .notReady := by
  induction list generalizing h l with
  | nil => nofun
  | cons phase rest ih =>
    simp only [phases]
    split <;> rename_i eq
    · intro same
      cases same
      rw [phase_notReady eq] at found
      cases found
    · obtain ⟨l', found', -⟩ := phase_passes eq found
      exact ih found'

/-- Before it is linked, the linkage of a launch went through the load of the executable and
further loads; the catalog was merged into its table last. -/
theorem bound_linkage {name : String} {handle : Handle} {l : Linkage (Audited σ)}
    (found : h.linkage? id = some l)
    (done : h.phases id [.load name handle, .resolve, .bind] = (.ok (), p)) :
    ∃ rest symbols,
      let calls := .loadExecutable name handle :: rest
      (∀ c ∈ calls, LinkageCall.IsLoad c) ∧ (l.loadExecutable name handle).1 = .ok () ∧
        h.capabilities.exportWrapped (l.after calls).symbols = (.ok symbols, p.capabilities) ∧
        p.linkage? id = some { l.after calls with symbols } := by
  obtain ⟨h₁, load, done⟩ := phases_cons_ok done
  obtain ⟨h₂, resolve, done⟩ := phases_cons_ok done
  obtain ⟨h₃, bind, done⟩ := phases_cons_ok done
  cases done
  obtain ⟨l₁, found₁, passed⟩ := phase_passes load found
  cases passed with
  | loaded done same₁ =>
  obtain ⟨l₂, found₂, passed⟩ := phase_passes resolve found₁
  cases passed with
  | @resolved calls loads same₂ =>
  obtain ⟨l₃, found₃, passed⟩ := phase_passes bind found₂
  cases passed with
  | @bound symbols exported =>
  have after_load : l.after (.loadExecutable name handle :: calls) = l₁.after calls :=
    congrArg (Linkage.after · calls) (congrArg Prod.snd done)
  refine ⟨calls, symbols, ?_, congrArg Prod.fst done, ?_, ?_⟩
  · intro c hc
    rcases List.mem_cons.mp hc with rfl | hc
    · trivial
    · exact loads c hc
  · rw [after_load, ← same₁, ← same₂]
    exact exported
  · rw [after_load]
    exact found₃

theorem prepared_program {name : String} {handle : Handle} {l : Linkage (Audited σ)}
    (found : h.linkage? id = some l) (done : h.prepare id name handle = (.ok (), p)) :
    ∃ l', p.linkage? id = some l' ∧ l'.isProgram = true := by
  rw [prepare_eq_phases] at done
  have staged : h.phases id ([.load name handle, .resolve, .bind] ++ [.link]) = (.ok (), p) := done
  obtain ⟨q, bound, done⟩ := phases_append_ok staged
  obtain ⟨rest, symbols, loads, loaded, -, found'⟩ := bound_linkage found bound
  obtain ⟨last, link, done⟩ := phases_cons_ok done
  cases done
  obtain ⟨l', found'', passed⟩ := phase_passes link found'
  cases passed with
  | linked done same =>
  have executable : (l.after (.loadExecutable name handle :: rest)).hasExecutable = true :=
    Linkage.after_preserves Linkage.Step.executable_stays
      (Linkage.loadExecutable_executable (Prod.ext loaded rfl)) rest
  refine ⟨l', found'', ?_⟩
  exact Linkage.program_of_link (l := { l.after _ with symbols }) executable done

theorem startHandle_ne_notReady (coherent : h.Every Linkage.Coherent) (name : String)
    (handle : Handle) (hook : Bool) : (h.startHandle name handle hook).1 ≠ .error .notReady := by
  obtain ⟨arena, begun⟩ := h.begin_linkage name
  rcases h.startHandle_cases name handle hook with
    ⟨e, p, hp, eq⟩ | ⟨p, e, q, hp, hq, eq⟩ | ⟨p, q, hp, hq, eq⟩ <;> rw [eq]
  · intro same
    cases same
    rw [prepare_eq_phases] at hp
    exact phases_notReady begun (congrArg Prod.fst hp)
  · intro same
    cases same
    have prepared := (coherent.begin Linkage.lifelong_coherent name).phases
      Linkage.lifelong_coherent h.spaces.length (Phase.all name handle)
    rw [← prepare_eq_phases, hp] at prepared
    obtain ⟨l, found, program⟩ := prepared_program begun hp
    obtain ⟨s, hs, rfl⟩ := Option.map_eq_some_iff.mp found
    have entered := (prepared _ s hs).entry_of_program program
    rw [spawn_notReady hq found] at entered
    cases entered
  · nofun

theorem launch_notReady (coherent : h.Every Linkage.Coherent) {launch : Launch} {hook : Bool}
    (failed : (h.launch launch hook).1 = .error .notReady) :
    ∃ id, launch = .linked id ∧ ∀ l, h.linkage? id = some l → l.isProgram = false := by
  cases launch with
  | path path =>
    change (h.start path hook).1 = _ at failed
    unfold start at failed
    split at failed
    · cases failed
    · exact absurd failed (startHandle_ne_notReady coherent _ _ hook)
  | handle name handle => exact absurd failed (startHandle_ne_notReady coherent name handle hook)
  | linked id =>
    refine ⟨id, rfl, ?_⟩
    intro l found
    refine Bool.eq_false_iff.mpr ?_
    intro program
    change (h.startLinked id hook).1 = _ at failed
    unfold startLinked at failed
    simp only [found, program, Bool.not_true, Bool.false_eq_true, if_false] at failed
    split at failed
    · rename_i e q spawned
      cases failed
      obtain ⟨arena, found'⟩ := addRecord_linkage found l.arena.pid (l.filenames.head?.getD "a.out")
      obtain ⟨s, hs, rfl⟩ := Option.map_eq_some_iff.mp found
      have entered := (coherent id s hs).entry_of_program program
      have no_entry := spawn_notReady spawned found'
      simp only at no_entry
      rw [no_entry] at entered
      cases entered
    · cases failed

/-- Any linkage lives in order: loads, then at most one link that does any work, then nothing new.
So in a host the first link of a linkage finds every module's object, also where the host itself
links the program that it starts; and a start never comes to an end for want of an entry point. -/
theorem linkages_live_in_order {τ : Type} [Allocator τ] (arena : Arena τ) (parser : ObjectParser τ)
    (policy : CollisionPolicy) (calls later : List LinkageCall) (reachable : h.Reachable) :
    ((Linkage.empty arena parser policy).after calls).Lifecycle calls later ∧
      (∀ id l, h.linkage? id = some l → l.attempted = false →
        Linkage.Relocates l.symbols l.modules l.arena l.link.1 l.link.2.arena) ∧
      (∀ name handle p,
        (h.begin name).phases h.spaces.length [.load name handle, .resolve, .bind] = (.ok (), p) →
        ∃ l, p.linkage? h.spaces.length = some l ∧ l.attempted = false ∧
          Linkage.Relocates l.symbols l.modules l.arena l.link.1 l.link.2.arena) ∧
      (∀ name handle p, (h.begin name).prepare h.spaces.length name handle = (.ok (), p) →
        ∃ l, p.linkage? h.spaces.length = some l ∧ l.isProgram = true ∧ l.entry.isSome = true) ∧
      ∀ launch hook, (h.launch launch hook).1 = .error .notReady →
        ∃ id, launch = .linked id ∧ ∀ l, h.linkage? id = some l → l.isProgram = false := by
  have coherent : h.Every Linkage.Coherent := reachable.every Linkage.lifelong_coherent
  have staged (name : String) (list : List Phase) {outcome p}
      (done : (h.begin name).phases h.spaces.length list = (outcome, p)) {l}
      (found : p.linkage? h.spaces.length = some l) : l.Coherent := by
    have begun := coherent.begin Linkage.lifelong_coherent name
    have kept := begun.phases Linkage.lifelong_coherent h.spaces.length list
    rw [done] at kept
    exact kept.linkage found
  refine ⟨Linkage.lifecycle_after arena parser policy calls later, ?_, ?_, ?_, ?_⟩
  · intro id l found first
    exact (coherent.linkage found).relocates first
  · intro name handle p done
    obtain ⟨arena, begun⟩ := h.begin_linkage name
    obtain ⟨rest, symbols, loads, -, -, found⟩ := bound_linkage begun done
    have fresh : (Linkage.empty arena h.parser h.settings.symbolCollisions).attempted = false := rfl
    have first := Linkage.unattempted_of_loads fresh loads
    exact ⟨_, found, first, (staged name _ done found).relocates first⟩
  · intro name handle p done
    obtain ⟨arena, begun⟩ := h.begin_linkage name
    obtain ⟨l, found, program⟩ := prepared_program begun done
    rw [prepare_eq_phases] at done
    exact ⟨l, found, program, (staged name _ done found).entry_of_program program⟩
  · intro launch hook failed
    exact launch_notReady coherent failed

/-- A program that is linked while one of its loads failed, and a host that is asked to run a
linkage with nothing in it. -/
theorem linked_program_stays_ready :
    let program : DeclaredObject :=
      ⟨[⟨0x1000, 8, 0, [7], .readWrite⟩], [], [], some 0x1004, [], none⟩
    let parser : ObjectParser HostHeap := fun bytes =>
      if bytes.isEmpty then .error .linkFailed else .ok program.toObject
    let arena := Arena.empty 1 (HostHeap.empty none fun n _ => 0x10000 * UInt64.ofNat (n + 1))
    let calls : List LinkageCall :=
      [.loadLibrary "A" (.ok []), .loadExecutable "E" (.ok [1]), .loadLibrary "B" (.ok [2]), .link]
    let later : List LinkageCall :=
      [.collect, .setSymbols .empty, .loadLibrary "C" (.ok [3]), .link]
    let l := (Linkage.empty arena parser .lastWins).after calls
    let parts : Parts HostHeap SpacedStubs :=
      { parser := fun _ => .ok program.toObject, generator := none, code := 0, providers := []
        files := .empty [], allocator := .empty none fun n _ => 0x10000 * UInt64.ofNat (n + 1)
        spawner := ⟨.later, true, none⟩, resumePoint := ⟨0, 0⟩
        programs := fun _ => ⟨[], 0⟩, others := fun unit => unit }
    l.isProgram = true ∧ l.entry = some 0x10004 ∧ l.filenames = ["E", "B"] ∧
      (l.after later).isProgram = true ∧ (l.after later).entry = l.entry ∧
      (l.after later).modules.map (·.facts) = l.modules.map (·.facts) ∧
      ∃ built : Host HostHeap SpacedStubs, build .standard parts = .ok built ∧
        let h := built.newLinkage.2
        (h.launch (.linked 0) false).1 = .error .notReady ∧
          ∃ id, Launch.linked 0 = .linked id ∧
            ∀ l, h.linkage? id = some l → l.isProgram = false := by
  intro program parser arena calls later l parts
  obtain ⟨built, done⟩ : ∃ built, build .standard parts = .ok built := ⟨_, rfl⟩
  have reachable : built.newLinkage.2.Reachable := .step (.built done) (.newLinkage built)
  obtain ⟨life, -, -, -, unready⟩ :=
    linkages_live_in_order arena parser .lastWins calls later reachable
  have ready : l.isProgram = true := by decide
  have frozen := life.frozen (by simp [calls])
  have failed : (built.newLinkage.2.launch (.linked 0) false).1 = .error .notReady := by
    cases done
    decide
  exact ⟨ready, by decide, by decide, life.program ready, frozen.entry, frozen.facts, built, done,
    failed, unready (.linked 0) false failed⟩

end Host

end AppHost
