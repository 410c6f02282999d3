import AppHost.Host.Build
import AppHost.Linkage.Call
import AppHost.Proofs.Host.Working
/-! The states a host can get into. Its embedder makes linkages, works on them, drops or launches
them, runs or drops pending tasks, and changes where libraries and capabilities come from, in any
order; the books stay in order throughout. -/
namespace AppHost

open Memory

inductive Launch where
  | path (path : String)
  | handle (name : String) (handle : Handle)
  | linked (id : ℕ)

namespace Host

variable {σ γ : Type} [Allocator σ]

section Tasks

variable {h : Host σ γ} {id : ℕ}

theorem context_ne : Holder.context ≠ .record := by decide

theorem linkage_ne : Holder.linkage ≠ .record := by decide

theorem Orderly.note (o : h.Orderly) (e : HostEvent) : (h.note e).Orderly := o.of_same rfl rfl

theorem Orderly.leave (o : h.Orderly) (id : ℕ) {c : Context (Audited σ)}
    (reaches : ∀ l, h.linkage? id = some l → l.arena.Reaches c.arena) : (h.leave id c).Orderly := by
  have left := (h.works_modifySpace id ({ · with arena := c.arena }) reaches).orderly o
  exact left.of_same rfl rfl

theorem Orderly.runTask (o : h.Orderly) (t : Task) : (h.runTask t).Orderly := by
  unfold Host.runTask
  split
  · exact o
  · rename_i l hl
    simp only
    generalize hc : @Context.run (Audited σ) _ _ _ = c
    have reached : l.arena.Reaches c.arena := by
      rw [← hc]
      exact (Arena.reaches_perform l.arena (.setResume h.resumePoint)).trans
        (Context.run_reaches _ _)
    have noted := (o.note (.resumePointAsked t.pid (h.contextOf l.arena t.entry).unit.active?)).note
      (.executing t.pid (h.contextOf l.arena t.entry).unit.active? (some h.resumePoint) t.entry
        t.argv t.envp)
    have left := noted.leave t.space (c := c) fun l' hl' => by
      cases hl.symm.trans hl'
      exact reached
    have dropped := (left.release t.space context_ne).release t.space linkage_ne
    have ended := (dropped.removeRecord t.pid).note
      (.ended t.pid (exitReason c.exitCode (h.programs t.pid).result).code)
    split
    · exact ended.note _
    · exact ended

theorem Orderly.dropTask (o : h.Orderly) (t : Task) : (h.dropTask t).Orderly :=
  (o.release t.space context_ne).release t.space linkage_ne

theorem Orderly.takePending? (o : h.Orderly) {taken : Host σ γ} {i : ℕ} {t : Task}
    (found : h.takePending? i = some (t, taken)) : taken.Orderly := by
  obtain ⟨t, -, eq⟩ := Option.map_eq_some_iff.mp found
  cases eq
  exact o.of_same rfl rfl

theorem Orderly.submit (o : h.Orderly) (t : Task) : (h.submit t).2.Orderly := by
  have asked := o.note (.taskRequested (taskName t.pid) h.settings.taskStackBytes)
  unfold Host.submit
  simp only
  split
  · exact asked.runTask t
  · exact asked.of_same rfl rfl
  · exact (asked.dropTask t).note _

def ready (h : Host σ γ) (id : ℕ) (pid : Pid) (entry : Word) : Host σ γ :=
  ((h.modifySpace id fun s => { s with linkage := s.linkage.collect }).hold id .context).note
    (.starting pid entry)

theorem spawn_cases (h : Host σ γ) (id : ℕ) (pid : Pid) (hook : Bool) :
    h.spawn id pid hook = (.error .notReady, h.release id .linkage) ∨
    ∃ entry, h.spawn id pid hook = (h.ready id pid entry).submit
      ⟨id, pid, entry, [h.settings.argv0], h.settings.envp, hook⟩ := by
  unfold spawn
  split
  · exact Or.inl rfl
  · rename_i entry _
    exact Or.inr ⟨entry, rfl⟩

theorem Orderly.ready (o : h.Orderly) (id : ℕ) (pid : Pid) (entry : Word) :
    (h.ready id pid entry).Orderly := by
  have collected := (h.works_modifySpace id Linkage.collect fun l _ => by
    rw [Linkage.collect_arena]
    exact .refl _).orderly o
  have held : (Host.hold _ id .context).Orderly :=
    collected.modifySpace fun s _ => s.follows_hold .context
  exact held.note (.starting pid entry)

theorem Orderly.spawn (o : h.Orderly) (id : ℕ) (pid : Pid) (hook : Bool) :
    (h.spawn id pid hook).2.Orderly := by
  rcases h.spawn_cases id pid hook with eq | ⟨entry, eq⟩ <;> rw [eq]
  · exact o.release id linkage_ne
  · exact (o.ready id pid entry).submit _

end Tasks

def freshLinkage (h : Host σ γ) : Linkage (Audited σ) :=
  .empty (.empty h.processes.next (.ofAllocator h.allocator)) h.parser h.settings.symbolCollisions

theorem newLinkage_space (h : Host σ γ) :
    h.newLinkage.2.spaces[h.spaces.length]? = some ⟨h.freshLinkage, [.linkage]⟩ :=
  List.getElem?_concat_length

/-- A launch has begun: there is a new space, and a record that holds it. -/
def begin (h : Host σ γ) (name : String) : Host σ γ :=
  h.newLinkage.2.addRecord h.processes.next name h.spaces.length

theorem Orderly.begin {h : Host σ γ} (o : h.Orderly) (name : String) : (h.begin name).Orderly := by
  have recorded := o.newLinkage.addRecord name h.newLinkage_space
  rwa [← o.counter] at recorded

theorem startLinked_cases (h : Host σ γ) (id : ℕ) (hook : Bool) :
    (h.spaces[id]? = none ∧ h.startLinked id hook = (.error .notReady, h)) ∨
    ∃ s, h.spaces[id]? = some s ∧
      let pid := s.linkage.arena.pid
      let begun := h.addRecord pid (s.linkage.filenames.head?.getD "a.out") id
      (h.startLinked id hook = (.error .notReady, (h.note (.notReady pid)).release id .linkage)) ∨
      (∃ e q, begun.spawn id pid hook = (.error e, q) ∧
        h.startLinked id hook = (.error e, q.removeRecord pid)) ∨
      ∃ q, begun.spawn id pid hook = (.ok (), q) ∧ h.startLinked id hook = (.ok pid, q) := by
  unfold startLinked linkage?
  cases hs : h.spaces[id]? with
  | none => exact Or.inl ⟨rfl, rfl⟩
  | some s =>
    refine Or.inr ⟨s, rfl, ?_⟩
    simp only [Option.map_some]
    split
    · exact Or.inl rfl
    · cases hq : (h.addRecord s.linkage.arena.pid (s.linkage.filenames.head?.getD "a.out") id).spawn
          id s.linkage.arena.pid hook with
      | mk outcome q =>
        cases outcome with
        | error e => exact Or.inr (Or.inl ⟨e, q, rfl, rfl⟩)
        | ok => exact Or.inr (Or.inr ⟨q, rfl, rfl⟩)

theorem Orderly.startLinked {h : Host σ γ} (o : h.Orderly) (id : ℕ) (hook : Bool) :
    (h.startLinked id hook).2.Orderly := by
  rcases h.startLinked_cases id hook with ⟨-, eq⟩ | ⟨s, hs, rest⟩
  · rw [eq]
    exact o
  have pid := (o.spaces id s hs).1
  simp only [pid] at rest
  have spawned := (o.addRecord (s.linkage.filenames.head?.getD "a.out") hs).spawn id
    (pidOf id) hook
  rcases rest with eq | ⟨e, q, hq, eq⟩ | ⟨q, hq, eq⟩ <;> rw [eq]
  · exact (o.note _).release id linkage_ne
  · rw [hq] at spawned
    exact spawned.removeRecord _
  · rwa [hq] at spawned

theorem orderly_built {h : Host σ γ} {settings : Settings} {parts : Parts σ γ}
    (done : build settings parts = .ok h) : h.Orderly := by
  unfold build at done
  obtain ⟨sites, -, done⟩ := bind_eq_ok.mp done
  cases done
  exact ⟨rfl, fun i s hs => by simp at hs, fun e he => nomatch he⟩

variable [CodeGenerator γ] {h after : Host σ γ}

theorem startHandle_cases (h : Host σ γ) (name : String) (handle : Handle) (hook : Bool) :
    let id := h.spaces.length
    let pid := h.processes.next
    (∃ e p, (h.begin name).prepare id name handle = (.error e, p) ∧
      h.startHandle name handle hook = (.error e,
        ((p.release id .linkage).removeRecord pid).note (.startFailed name e))) ∨
    (∃ p e q, (h.begin name).prepare id name handle = (.ok (), p) ∧
      p.spawn id pid hook = (.error e, q) ∧
      h.startHandle name handle hook =
        (.error e, (q.removeRecord pid).note (.startFailed name e))) ∨
    ∃ p q, (h.begin name).prepare id name handle = (.ok (), p) ∧
      p.spawn id pid hook = (.ok (), q) ∧ h.startHandle name handle hook = (.ok pid, q) := by
  intro id pid
  cases hp : (h.begin name).prepare id name handle with
  | mk outcome p =>
    have prepared : (h.newLinkage.2.addRecord h.processes.next name h.newLinkage.1).prepare
        h.newLinkage.1 name handle = (outcome, p) := hp
    unfold startHandle
    simp only [prepared]
    cases outcome with
    | error e => exact Or.inl ⟨e, p, rfl, rfl⟩
    | ok =>
      cases hs : p.spawn id pid hook with
      | mk outcome q =>
        have spawned : p.spawn h.newLinkage.1 h.processes.next hook = (outcome, q) := hs
        simp only [spawned]
        cases outcome with
        | error e => exact Or.inr (Or.inl ⟨p, e, q, rfl, hs, rfl⟩)
        | ok => exact Or.inr (Or.inr ⟨p, q, rfl, hs, rfl⟩)

theorem Orderly.startHandle (o : h.Orderly) (name : String) (handle : Handle) (hook : Bool) :
    (h.startHandle name handle hook).2.Orderly := by
  have prepared := ((h.begin name).prepare_works h.spaces.length name handle).orderly (o.begin name)
  rcases h.startHandle_cases name handle hook with
    ⟨e, p, hp, eq⟩ | ⟨p, e, q, hp, hq, eq⟩ | ⟨p, q, hp, hq, eq⟩ <;> rw [eq] <;> rw [hp] at prepared
  · exact ((prepared.release _ linkage_ne).removeRecord _).note _
  · have spawned := prepared.spawn h.spaces.length h.processes.next hook
    rw [hq] at spawned
    exact (spawned.removeRecord _).note _
  · have spawned := prepared.spawn h.spaces.length h.processes.next hook
    rwa [hq] at spawned

theorem Orderly.start (o : h.Orderly) (path : String) (hook : Bool) :
    (h.start path hook).2.Orderly := by
  unfold Host.start
  split
  · exact o.note _
  · exact o.startHandle _ _ hook

def launch (h : Host σ γ) (launch : Launch) (hook : Bool) : Except LaunchError Pid × Host σ γ :=
  match launch with
  | .path path => h.start path hook
  | .handle name handle => h.startHandle name handle hook
  | .linked id => h.startLinked id hook

theorem Orderly.launch (o : h.Orderly) (launch : Launch) (hook : Bool) :
    (h.launch launch hook).2.Orderly := by
  cases launch with
  | path path => exact o.start path hook
  | handle name handle => exact o.startHandle name handle hook
  | linked id => exact o.startLinked id hook

inductive Step : Host σ γ → Host σ γ → Prop where
  | reconfigure (h : Host σ γ) (libraries files capabilities) :
      Step h { h with libraries, files, capabilities }
  | newLinkage (h : Host σ γ) : Step h h.newLinkage.2
  | use (h : Host σ γ) (id call) :
      Step h (h.modifySpace id fun s => { s with linkage := s.linkage.act call })
  | export_ (h : Host σ γ) (id) : Step h (h.exportInto id).2
  | drop (h : Host σ γ) (id) : Step h (h.release id .linkage)
  | launch (h : Host σ γ) (launch hook) : Step h (h.launch launch hook).2
  | run {h taken : Host σ γ} {i t} (found : h.takePending? i = some (t, taken)) :
      Step h (taken.runTask t)
  | abandon {h taken : Host σ γ} {i t} (found : h.takePending? i = some (t, taken)) :
      Step h (taken.dropTask t)

inductive Reachable : Host σ γ → Prop where
  | built {settings parts} {h : Host σ γ} (done : build settings parts = .ok h) : Reachable h
  | step {h after : Host σ γ} (before : Reachable h) (next : Step h after) : Reachable after

theorem Orderly.step (o : h.Orderly) (next : Step h after) : after.Orderly := by
  cases next with
  | reconfigure => exact o.of_same rfl rfl
  | newLinkage => exact o.newLinkage
  | use id call =>
    have worked := h.works_modifySpace id (·.act call) fun l _ => l.act_reaches call
    exact worked.orderly o
  | export_ id => exact (h.exportInto_works id).orderly o
  | drop id => exact o.release id linkage_ne
  | launch launch hook => exact o.launch launch hook
  | run found => exact (o.takePending? found).runTask _
  | abandon found => exact (o.takePending? found).dropTask _

theorem Reachable.orderly (r : Reachable h) : h.Orderly := by
  induction r with
  | built done => exact orderly_built done
  | step _ next ih => exact ih.step next

end Host

end AppHost
