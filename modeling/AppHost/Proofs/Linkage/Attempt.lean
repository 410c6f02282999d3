import AppHost.Proofs.Linkage.Lifecycle
/-! The one attempt to link. Modules are called upon to relocate in load order, up to the first that
fails. No other call of a life relocates anything, so an attempt that is repeated can only repeat
its outcome. -/
namespace AppHost

open Memory

def LinkEvent.relocating? : LinkEvent → Option String
  | .relocating module _ => some module
  | _ => none

def LoadedModule.relocating? {σ : Type} [Allocator σ] (m : LoadedModule σ) : Option LinkEvent :=
  m.object.map fun object => .relocating m.name object.format

namespace Linkage

variable {σ : Type} [Allocator σ]

/-- The modules that were called upon to relocate so far, in order. -/
def relocated (l : Linkage σ) : List String := l.journal.filterMap LinkEvent.relocating?

theorem relocated_note (l : Linkage σ) (e : LinkEvent) :
    (l.note e).relocated = l.relocated ++ e.relocating?.toList := by
  unfold relocated note
  rw [List.filterMap_append]
  cases h : e.relocating? <;> simp [h]

theorem relocated_publish (module : String) (l : Linkage σ) (name : String) (address : Word) :
    (publish module l name address).relocated = l.relocated := by
  unfold publish
  split
  · simp only
    split
    · rfl
    · rw [relocated_note]
      exact List.append_nil _
  · rfl

theorem relocated_publishAll (module : String) (l : Linkage σ) (exports : List (String × Word)) :
    (exports.foldl (fun l (symbol, address) => publish module l symbol address) l).relocated =
      l.relocated := by
  induction exports generalizing l with
  | nil => rfl
  | cons e rest ih =>
    rw [List.foldl_cons, ih]
    exact relocated_publish module l e.1 e.2

theorem relocated_add (l : Linkage σ) (name : String) (object : Object σ) (image : Image)
    (staged : StagedModule) : (l.add name object image staged).relocated = l.relocated := by
  have bound := relocated_publishAll name l staged.exports
  have noted := relocated_note
    (staged.exports.foldl (fun l (symbol, address) => publish name l symbol address) l)
    (.loaded name (image.base.getD 0) image.offset)
  rw [bound] at noted
  exact noted.trans (List.append_nil _)

theorem relocated_accept (l : Linkage σ) (name : String) (object : Object σ) (executable : Bool) :
    (l.accept name object executable).2.relocated = l.relocated := by
  unfold accept
  split
  · rfl
  · split
    · rfl
    · rw [relocated_add]
      rfl

theorem relocated_load (l : Linkage σ) (name : String) (source : Except FileError Bytes)
    (executable : Bool) : (l.load name source executable).2.relocated = l.relocated := by
  unfold load
  split
  · rfl
  · split
    · rfl
    · split
      · rfl
      · rw [relocated_accept, relocated_note]
        exact List.append_nil _

theorem relocated_loadExecutable (l : Linkage σ) (name : String) (source : Except FileError Bytes) :
    (l.loadExecutable name source).2.relocated = l.relocated := by
  have loaded := l.relocated_load name source true
  unfold loadExecutable
  split
  · rfl
  · split
    · rfl
    · split <;> rename_i h <;> rw [h] at loaded <;> exact loaded

/-- Only the first attempt to link calls upon modules to relocate. -/
theorem relocated_act (l : Linkage σ) {call : LinkageCall}
    (repeated : call = .link → l.attempted = true) : (l.act call).relocated = l.relocated := by
  cases call with
  | loadLibrary name source => exact l.relocated_load name source false
  | loadExecutable name source => exact l.relocated_loadExecutable name source
  | link =>
    change l.link.2.relocated = l.relocated
    rw [link_again (repeated rfl)]
  | collect =>
    change l.collect.relocated = l.relocated
    unfold collect
    split <;> rfl
  | setSymbols symbols => rfl
  | memory operation => rfl

theorem relocated_before_link (l : Linkage σ) {calls : List LinkageCall}
    (unlinked : .link ∉ calls) : (l.after calls).relocated = l.relocated := by
  induction calls generalizing l with
  | nil => rfl
  | cons call rest ih =>
    obtain ⟨first, later⟩ := not_or.mp (List.mem_cons.not.mp unlinked)
    have now : (l.act call).relocated = l.relocated :=
      l.relocated_act fun eq => absurd eq.symm first
    exact (ih (l.act call) later).trans now

theorem relocated_after_link {l : Linkage σ} (attempted : l.attempted = true)
    (calls : List LinkageCall) : (l.after calls).relocated = l.relocated := by
  induction calls generalizing l with
  | nil => rfl
  | cons call rest ih =>
    have still : (l.act call).attempted = true :=
      (l.act_step call).attempted_iff.mpr (Or.inl attempted)
    exact (ih still).trans (l.relocated_act fun _ => attempted)

/-- An attempt to link: the modules that it calls upon, how it ends and the arena it leaves. Each
module relocates in the arena that those before it leave, and the first that fails is the last one
to be called upon. -/
inductive Attempt (l : Linkage σ) :
    List (LoadedModule σ) → Except LoadError Unit → Arena σ → Prop where
  | completed {a} (run : Relocates l.symbols l.modules l.arena (.ok ()) a) :
      Attempt l l.modules (.ok ()) a
  | stopped {before m after object a b e} (order : l.modules = before ++ m :: after)
      (run : Relocates l.symbols before l.arena (.ok ()) a) (parsed : m.object = some object)
      (failed : object.relocate m.image l.symbols a = (.error e, b)) :
      Attempt l (before ++ [m]) (.error e) b

theorem relocateAll_reports (l : Linkage σ) {modules : List (LoadedModule σ)}
    (parsed : ∀ m ∈ modules, ∃ object, m.object = some object) :
    (∃ a, Relocates l.symbols modules l.arena (.ok ()) a ∧
      l.relocateAll modules = (.ok (), { l with
        arena := a, journal := l.journal ++ modules.filterMap (·.relocating?) })) ∨
    ∃ before m after object a b e, modules = before ++ m :: after ∧
      Relocates l.symbols before l.arena (.ok ()) a ∧ m.object = some object ∧
      object.relocate m.image l.symbols a = (.error e, b) ∧
      l.relocateAll modules = (.error e, { l with
        arena := b
        journal := l.journal ++ (before ++ [m]).filterMap (·.relocating?) ++
          [.failed m.name e] }) := by
  induction modules generalizing l with
  | nil =>
    refine Or.inl ⟨l.arena, .done l.arena, ?_⟩
    simp [relocateAll]
  | cons m rest ih =>
    obtain ⟨⟨object, found⟩, others⟩ := List.forall_mem_cons.mp parsed
    have reported : m.relocating? = some (.relocating m.name object.format) := by
      simp [LoadedModule.relocating?, found]
    unfold relocateAll
    simp only [found, note]
    cases moved : object.relocate m.image l.symbols l.arena with
    | mk outcome a =>
      cases outcome with
      | error e =>
        refine Or.inr ⟨[], m, rest, object, l.arena, a, e, rfl, .done l.arena, found, moved, ?_⟩
        simp [reported]
      | ok =>
        simp only
        rcases ih { l with arena := a, journal := l.journal ++ [.relocating m.name object.format] }
          others with
          ⟨b, run, eq⟩ | ⟨before, n, after, object', b, c, e, rfl, run, found', failed, eq⟩
        · refine Or.inl ⟨b, .next found moved run, ?_⟩
          rw [eq]
          simp [reported]
        · refine Or.inr ⟨m :: before, n, after, object', b, c, e, rfl, .next found moved run,
            found', failed, ?_⟩
          rw [eq]
          simp [reported]

theorem Coherent.attempt {l : Linkage σ} (h : l.Coherent) (first : l.attempted = false) :
    ∃ called, l.Attempt called l.link.1 l.link.2.arena ∧
      l.link.2.relocated = l.relocated ++ called.map (·.name) := by
  have parsed : ∀ m ∈ l.modules, ∃ object, m.object = some object := by
    intro m hm
    obtain ⟨object, bytes, found, -⟩ := h.parsed first m hm
    exact ⟨object, found⟩
  have names {called : List (LoadedModule σ)} (within : ∀ m ∈ called, m ∈ l.modules) :
      (called.filterMap (·.relocating?)).filterMap LinkEvent.relocating? =
        called.map (·.name) := by
    rw [List.filterMap_filterMap, ← List.filterMap_eq_map]
    refine List.filterMap_congr ?_
    intro m hm
    obtain ⟨object, found⟩ := parsed m (within m hm)
    simp [LoadedModule.relocating?, LinkEvent.relocating?, found]
  rcases relocateAll_reports { l with attempted := true } parsed with
    ⟨a, run, eq⟩ | ⟨before, m, after, object, a, b, e, order, run, found, failed, eq⟩
  · refine ⟨l.modules, ?_, ?_⟩ <;> simp only [link, first, eq, Bool.false_eq_true, if_false]
    · exact .completed run
    · simp only [relocated, List.filterMap_append, names fun m hm => hm]
  · have within : ∀ n ∈ before ++ [m], n ∈ l.modules := by
      intro n hn
      change l.modules = before ++ m :: after at order
      rw [order]
      simp only [List.mem_append, List.mem_cons, List.not_mem_nil, or_false] at hn ⊢
      tauto
    refine ⟨before ++ [m], ?_, ?_⟩ <;> simp only [link, first, eq, Bool.false_eq_true, if_false]
    · exact .stopped order run found failed
    · rw [relocated, List.filterMap_append, List.filterMap_append, names within]
      exact List.append_nil _

/-- Whatever a linkage goes through before it is linked and afterwards: nothing is relocated before
the first attempt. That attempt calls upon the modules in load order, up to and including the first
that fails, and returns its error, or succeeds if none fails. From then on no module is called upon
any more, whether objects are collected or symbols change, and every attempt tells how the first
one ended and leaves the linkage as it is. -/
theorem relocated_at_first_attempt_only (arena : Arena σ) (parser : ObjectParser σ)
    (policy : CollisionPolicy) (before later : List LinkageCall) :
    let l := (empty arena parser policy).after before
    let l' := l.link.2.after later
    .link ∉ before →
      l.relocated = [] ∧
      (∃ called, l.Attempt called l.link.1 l.link.2.arena ∧
        l.link.2.relocated = called.map (·.name) ∧ l'.relocated = called.map (·.name)) ∧
      l'.link = (if l.link.1.isOk then .ok () else .error .linkFailed, l') := by
  intro l l' unlinked
  have coherent : l.Coherent :=
    lifelong_coherent.after (coherent_empty arena parser policy) before
  have unattempted : l.attempted = false := by
    refine Bool.eq_false_iff.mpr ?_
    intro attempted
    have called := (attempted_after _ before).mp attempted
    simp [empty, unlinked] at called
  have silent : l.relocated = [] := relocated_before_link _ unlinked
  obtain ⟨outcome, a, journal, eq, -⟩ := link_first unattempted
  have attempted : l.link.2.attempted = true := by rw [eq]
  have unsuccessful : l.succeeded = false := by
    refine Bool.eq_false_iff.mpr ?_
    intro succeeded
    rw [coherent.attempted succeeded] at unattempted
    cases unattempted
  have succeeded : l'.succeeded = l.link.1.isOk := by
    rw [(frozen_after attempted later).succeeded, eq]
    simp [unsuccessful]
  obtain ⟨called, attempt, reported⟩ := coherent.attempt unattempted
  rw [silent, List.nil_append] at reported
  refine ⟨silent, ⟨called, attempt, reported, ?_⟩, ?_⟩
  · exact (relocated_after_link attempted later).trans reported
  · rw [link_again (frozen_after attempted later).attempted, succeeded]

end Linkage

def Image.tally {σ : Type} [Allocator σ] (image : Image) (arena : Arena σ) : Arena σ :=
  match image.base with
  | none => arena
  | some base =>
    match arena.read base 1 with
    | .ok [n] => arena.perform (.write base [n + 1])
    | _ => arena

theorem Image.tally_confined {σ : Type} [Allocator σ] (image : Image) (arena : Arena σ) :
    arena.Reaches (image.tally arena) := by
  unfold tally
  split
  · exact .refl arena
  · split
    · exact arena.reaches_perform _
    · exact .refl arena

/-- An object that keeps count in its image of how often it is relocated. -/
def Object.tallied {σ : Type} [Allocator σ] (o : Object σ) : Object σ :=
  { o with
    relocate := fun image symbols arena => o.relocate image symbols (image.tally arena)
    confined := fun image symbols arena =>
      (image.tally_confined arena).trans (o.confined image symbols (image.tally arena)) }

namespace Linkage

/-- The second of three modules fails for want of a symbol. The symbol comes too late, and so does
another library. In memory the first two modules have been relocated once, and the third one never,
also after linking again. -/
theorem missing_symbol_comes_too_late :
    let object (entry : Option Word) (requires : List String) : DeclaredObject :=
      ⟨[⟨0, 8, 0, [], .readWrite⟩], [], [], entry, requires, none⟩
    let parser : ObjectParser HostHeap := fun bytes => .ok (
      match bytes with
      | [1] => (object (some 0) []).toObject.tallied
      | [2] => (object none ["late"]).toObject.tallied
      | _ => (object none []).toObject.tallied)
    let arena := Arena.empty 1 (HostHeap.empty none fun n _ => 0x10000 * UInt64.ofNat (n + 1))
    let before : List LinkageCall :=
      [.loadExecutable "E" (.ok [1]), .loadLibrary "A" (.ok [2]), .loadLibrary "B" (.ok [])]
    let later : List LinkageCall :=
      [.setSymbols (.ofList [("late", 8)]), .link, .collect, .loadLibrary "C" (.ok [])]
    let l := (empty arena parser .lastWins).after before
    let l' := l.link.2.after later
    .link ∉ before ∧ l.filenames = ["E", "A", "B"] ∧ l.relocated = [] ∧
      l.link.1 = .error (.unresolvedSymbol "late") ∧ l'.relocated = ["E", "A"] ∧
      l'.link = (.error .linkFailed, l') ∧
      l'.modules.map (·.image.base) = [some 0x10000, some 0x20000, some 0x30000] ∧
      [0x10000, 0x20000, 0x30000].map (l'.arena.read · 1) = [.ok [1], .ok [1], .ok [0]] := by
  intro object parser arena before later l l'
  have unlinked : .link ∉ before := by simp [before]
  obtain ⟨silent, -, again⟩ :=
    relocated_at_first_attempt_only arena parser .lastWins before later unlinked
  have failed : l.link.1 = .error (.unresolvedSymbol "late") := by decide
  rw [failed] at again
  exact ⟨unlinked, by decide, silent, failed, by decide, again, by decide, by decide⟩

end Linkage

end AppHost
