import AppHost.Proofs.Host.Reachable
/-! Launches that fail. Whatever stage a launch comes to, on its way back its linkage, its context
and its record let go of its memory, the last of them closes it, and its task is dropped unrun. -/
namespace AppHost

open Memory

variable {σ γ : Type} [Allocator σ]

/-- The space of a process that is gone: nobody holds it, and all it was ever granted was given
back, each region once. -/
structure Space.Gone (s : Space σ) : Prop where
  unheld : s.holders = []
  balanced : s.linkage.arena.allocator.Balanced
  none_live : s.linkage.arena.allocator.live = []
  returned : s.linkage.arena.allocator.granted.Perm s.linkage.arena.allocator.released

theorem Space.gone_of_last {s : Space σ} {who : Holder} (held : s.holders = [who])
    (accounted : s.linkage.arena.Accounted) : (s.release who).Gone := by
  obtain ⟨closed, none_live⟩ := accounted.close
  have returned := closed.balanced.perm
  rw [none_live, List.append_nil] at returned
  rw [s.release_of_last who held]
  exact ⟨rfl, closed.balanced, none_live, returned⟩

namespace Host

variable {h after p q : Host σ γ} {id : ℕ} {pid : Pid}

/-- A launch in a space has been taken back. -/
structure Withdrawn (id : ℕ) (h after : Host σ γ) : Prop where
  gone : ∃ s, after.spaces[id]? = some s ∧ s.Gone ∧ s.linkage.arena.pid = pidOf id
  records : after.processes.records = h.processes.records ∨
    after.processes.records = (h.processes.remove (pidOf id)).records
  pending : after.pending = h.pending
  quiet : h.Quiet after

theorem removeRecord_processes (h : Host σ γ) (pid : Pid) :
    (h.removeRecord pid).processes = h.processes.remove pid := by
  unfold removeRecord
  split
  · rfl
  · rename_i absent
    exact (ProcessTable.remove_eq_self (ProcessTable.ne_of_get?_eq_none absent)).symm

theorem removeRecord_pending (h : Host σ γ) (pid : Pid) :
    (h.removeRecord pid).pending = h.pending := by
  unfold removeRecord
  split <;> rfl

theorem removeRecord_journal (h : Host σ γ) (pid : Pid) :
    (h.removeRecord pid).journal = h.journal := by
  unfold removeRecord
  split <;> rfl

theorem addRecord_processes (h : Host σ γ) (pid : Pid) (name : String) (id : ℕ) :
    (h.addRecord pid name id).processes = h.processes.insert pid ⟨name, id⟩ := by
  change (h.removeRecord pid).processes.insert pid ⟨name, id⟩ = _
  rw [removeRecord_processes, ProcessTable.insert_remove]

theorem addRecord_space {s : Space σ} (unrecorded : ∀ e ∈ h.processes.records, e.2.arena ≠ id)
    (hs : h.spaces[id]? = some s) (pid : Pid) (name : String) :
    (h.addRecord pid name id).spaces[id]? = some { s with holders := .record :: s.holders } := by
  have other : (h.processes.get? pid).map (·.arena) ≠ some id := by
    intro eq
    obtain ⟨r, found, rfl⟩ := Option.map_eq_some_iff.mp eq
    exact unrecorded _ (mem_of_lookup found) rfl
  have kept := h.getElem?_removeRecord pid id
  rw [hs, Option.map_some, if_neg other] at kept
  change ((h.removeRecord pid).hold id .record).spaces[id]? = _
  rw [hold, getElem?_modifySpace, kept]
  simp

theorem dropTask_space {l : Linkage (Audited σ)} {t : Task}
    (hs : h.spaces[t.space]? = some ⟨l, [.context, .record, .linkage]⟩) :
    (h.dropTask t).spaces[t.space]? = some ⟨l, [.record]⟩ := by
  rw [dropTask, release, getElem?_modifySpace, release, getElem?_modifySpace, hs]
  simp only [Option.map_some, if_true]
  rfl

theorem submit_error {t : Task} {e : LaunchError} (failed : h.submit t = (.error e, after)) :
    ∃ reason, after =
      ((h.note (.taskRequested (taskName t.pid) h.settings.taskStackBytes)).dropTask t).note
        (.taskRefused t.pid reason) := by
  unfold submit at failed
  simp only at failed
  split at failed
  · cases failed
  · cases failed
  · rename_i reason _
    cases failed
    exact ⟨reason, rfl⟩

theorem spawn_error {s : Space σ} {hook : Bool} {e : LaunchError} (hs : h.spaces[id]? = some s)
    (held : s.holders = [.record, .linkage]) (failed : h.spawn id pid hook = (.error e, after)) :
    (∃ l, after.spaces[id]? = some ⟨l, [.record]⟩ ∧ l.arena = s.linkage.arena) ∧
      after.processes = h.processes ∧ after.pending = h.pending ∧ h.Quiet after := by
  rcases h.spawn_cases id pid hook with eq | ⟨entry, eq⟩ <;> rw [eq] at failed
  · cases failed
    refine ⟨⟨s.linkage, ?_, rfl⟩, rfl, rfl, .refl h⟩
    rw [release, getElem?_modifySpace, hs]
    simp [Space.release, held]
  · have ready : (h.ready id pid entry).spaces[id]? =
        some ⟨s.linkage.collect, [.context, .record, .linkage]⟩ := by
      change ((h.modifySpace id _).modifySpace id _).spaces[id]? = _
      rw [getElem?_modifySpace, getElem?_modifySpace, hs]
      simp [held]
    have quiet : h.Quiet (h.ready id pid entry) := quiet_note _ trivial
    obtain ⟨reason, rfl⟩ := submit_error failed
    refine ⟨⟨s.linkage.collect, ?_, s.linkage.collect_arena⟩, ?_, ?_, ?_⟩
    · rw [spaces_note]
      exact dropTask_space ready
    · simp [dropTask, release, Host.ready, hold]
    · simp [dropTask, release, Host.ready, hold]
    · have asked := quiet.trans (quiet_note (h.ready id pid entry) (e := .taskRequested
        (taskName pid) (h.ready id pid entry).settings.taskStackBytes) trivial)
      exact asked.trans ⟨[.taskRefused pid reason], by simp [dropTask, release, note],
        by simp [HostEvent.Silent]⟩

/-- When nothing but its record holds a space any more, removing the record gives all back. -/
theorem withdraw {l : Linkage (Audited σ)} {t : ProcessTable ℕ} {name : String}
    (space : p.spaces[id]? = some ⟨l, [.record]⟩)
    (recorded : p.processes = t.insert (pidOf id) ⟨name, id⟩)
    (accounted : l.arena.Accounted) (named : l.arena.pid = pidOf id)
    (records : t.records = h.processes.records) (pending : p.pending = h.pending)
    (quiet : h.Quiet p) : Withdrawn id h (p.removeRecord (pidOf id)) := by
  have found : (p.processes.get? (pidOf id)).map (·.arena) = some id := by
    rw [recorded, ProcessTable.get?_insert, if_pos rfl, Option.map_some]
  have released := p.getElem?_removeRecord (pidOf id) id
  rw [space, Option.map_some, if_pos found] at released
  refine ⟨⟨_, released, Space.gone_of_last rfl accounted, ?_⟩, Or.inr ?_, ?_, ?_⟩
  · rw [Space.release_of_last _ _ rfl]
    exact named
  · rw [removeRecord_processes, recorded, ProcessTable.remove_insert]
    exact congrArg (List.filter (·.1 != pidOf id)) records
  · rw [removeRecord_pending, pending]
  · exact quiet.trans ⟨[], by rw [removeRecord_journal, List.append_nil], fun _ he => nomatch he⟩

theorem Withdrawn.note (w : Withdrawn id h after) {e : HostEvent} (silent : e.Silent) :
    Withdrawn id h (after.note e) :=
  ⟨w.gone, w.records, w.pending, w.quiet.trans (quiet_note after silent)⟩

theorem addRecord_pending (h : Host σ γ) (pid : Pid) (name : String) (id : ℕ) :
    (h.addRecord pid name id).pending = h.pending :=
  h.removeRecord_pending pid

theorem quiet_addRecord (h : Host σ γ) (pid : Pid) (name : String) (id : ℕ) :
    h.Quiet (h.addRecord pid name id) :=
  ⟨[], (h.removeRecord_journal pid).trans (List.append_nil _).symm, fun _ he => nomatch he⟩

theorem Orderly.fresh (o : h.Orderly) (unrecorded : ∀ e ∈ h.processes.records, e.2.arena ≠ id)
    (below : id ≤ h.spaces.length) (room : h.spaces.length < 2 ^ 32) :
    h.processes.remove (pidOf id) = h.processes := by
  refine ProcessTable.remove_eq_self fun e he eq => unrecorded e he ?_
  obtain ⟨named, s, hs, -⟩ := o.records e he
  have lt := (List.getElem?_eq_some_iff.mp hs).1
  exact pidOf_inj (by omega) (by omega) (named.symm.trans eq)

theorem Orderly.unrecorded_next (o : h.Orderly) :
    ∀ e ∈ h.processes.records, e.2.arena ≠ h.spaces.length := by
  intro e he eq
  obtain ⟨-, s, hs, -⟩ := o.records e he
  have lt := (List.getElem?_eq_some_iff.mp hs).1
  omega

theorem Orderly.unrecorded_unheld (o : h.Orderly) {s : Space σ} (hs : h.spaces[id]? = some s)
    (alone : s.holders = [.linkage]) : ∀ e ∈ h.processes.records, e.2.arena ≠ id := by
  intro e he eq
  obtain ⟨-, t, ht, held⟩ := o.records e he
  rw [eq, hs] at ht
  cases ht
  simp [alone] at held

theorem startLinked_error (o : h.Orderly) {hook : Bool} {e : LaunchError} {s : Space σ}
    (hs : h.spaces[id]? = some s) (alone : s.holders = [.linkage])
    (failed : h.startLinked id hook = (.error e, after)) : Withdrawn id h after := by
  obtain ⟨named, accounted⟩ := o.spaces id s hs
  rcases h.startLinked_cases id hook with ⟨absent, -⟩ | ⟨s', hs', rest⟩
  · rw [absent] at hs
    cases hs
  cases hs.symm.trans hs'
  simp only [named] at rest
  rcases rest with eq | ⟨cause, q, hq, eq⟩ | ⟨q, hq, eq⟩ <;> rw [eq] at failed <;> cases failed
  · have released := (h.note (.notReady (pidOf id))).getElem?_modifySpace id id (·.release .linkage)
    rw [spaces_note, hs, Option.map_some, if_pos rfl] at released
    refine ⟨⟨_, released, Space.gone_of_last alone accounted, ?_⟩, Or.inl rfl, rfl, ?_⟩
    · rw [s.release_of_last _ alone]
      exact named
    · exact quiet_note h (e := .notReady (pidOf id)) trivial
  · have begun := addRecord_space (o.unrecorded_unheld hs alone) hs (pidOf id)
      (s.linkage.filenames.head?.getD "a.out")
    obtain ⟨⟨l, space, arena⟩, processes, pending, quiet⟩ := spawn_error begun (by simp [alone]) hq
    simp only at arena
    rw [← arena] at accounted named
    exact withdraw space (processes.trans (addRecord_processes _ _ _ _)) accounted named rfl
      (pending.trans (h.addRecord_pending _ _ _)) ((h.quiet_addRecord _ _ _).trans quiet)

variable [CodeGenerator γ]

theorem startHandle_error (o : h.Orderly) {name : String} {handle : Handle} {hook : Bool}
    {e : LaunchError} (failed : h.startHandle name handle hook = (.error e, after)) :
    Withdrawn h.spaces.length h after := by
  have begun : (h.begin name).spaces[h.spaces.length]? =
      some ⟨h.freshLinkage, [.record, .linkage]⟩ :=
    addRecord_space (h := h.newLinkage.2) o.unrecorded_next h.newLinkage_space _ name
  have recorded : (h.begin name).processes =
      h.newLinkage.2.processes.insert (pidOf h.spaces.length) ⟨name, h.spaces.length⟩ := by
    rw [← o.counter]
    exact addRecord_processes _ _ _ _
  have pending : (h.begin name).pending = h.pending := h.newLinkage.2.addRecord_pending _ _ _
  have quiet : h.Quiet (h.begin name) := h.newLinkage.2.quiet_addRecord _ _ _
  have silent : ∀ cause, HostEvent.Silent (.startFailed name cause) := fun _ => trivial
  -- every failure below leaves the space to its record alone, which is then removed
  have worked := (h.begin name).prepare_works h.spaces.length name handle
  obtain ⟨l, space, reached⟩ := worked.space _ begun
  have accounted : l.arena.Accounted := (Arena.accounted_empty _ _).reaches reached
  have named : l.arena.pid = pidOf h.spaces.length := reached.pid.trans o.counter
  rcases h.startHandle_cases name handle hook with
    ⟨e, p, hp, eq⟩ | ⟨p, e, q, hp, hq, eq⟩ | ⟨p, q, hp, hq, eq⟩ <;>
    rw [eq] at failed <;> cases failed <;> rw [hp] at worked space
  · have left : (p.release h.spaces.length .linkage).spaces[h.spaces.length]? =
        some ⟨l, [.record]⟩ := by
      rw [release, getElem?_modifySpace, space]
      simp [Space.release]
    have withdrawn : Withdrawn h.spaces.length h
        ((p.release h.spaces.length .linkage).removeRecord (pidOf h.spaces.length)) :=
      withdraw left (worked.processes.trans recorded) accounted named rfl
        (worked.pending.trans pending) (quiet.trans worked.quiet)
    rw [o.counter]
    exact withdrawn.note (silent _)
  · rw [o.counter] at hq ⊢
    obtain ⟨⟨l', space', arena⟩, processes, pending', quiet'⟩ := spawn_error space rfl hq
    simp only at arena
    rw [← arena] at accounted named
    have withdrawn : Withdrawn h.spaces.length h (q.removeRecord (pidOf h.spaces.length)) :=
      withdraw space' (processes.trans (worked.processes.trans recorded)) accounted named rfl
        (pending'.trans (worked.pending.trans pending))
        ((quiet.trans worked.quiet).trans quiet')
    exact withdrawn.note (silent _)

/-- The place of the space that a launch is for, if it comes to have one. -/
def spaceFor? (h : Host σ γ) : Launch → Option ℕ
  | .path path => (h.files.openPath path).toOption.map fun _ => h.spaces.length
  | .handle _ _ => some h.spaces.length
  | .linked id => (h.spaces[id]?).map fun _ => id

theorem launch_error (o : h.Orderly) {launch : Launch} {hook : Bool} {e : LaunchError}
    (alone : ∀ id s, launch = .linked id → h.spaces[id]? = some s → s.holders = [.linkage])
    (failed : h.launch launch hook = (.error e, after)) :
    (h.spaceFor? launch = none ∧ after.processes = h.processes ∧ after.pending = h.pending ∧
      h.Quiet after) ∨
    ∃ id, h.spaceFor? launch = some id ∧ id ≤ h.spaces.length ∧
      (∀ e ∈ h.processes.records, e.2.arena ≠ id) ∧ Withdrawn id h after := by
  cases launch with
  | path path =>
    change h.start path hook = _ at failed
    unfold start at failed
    split at failed
    · rename_i cause opened
      cases failed
      exact Or.inl ⟨by simp [spaceFor?, opened, Except.toOption], rfl, rfl,
        quiet_note h (e := .cannotOpen path cause) trivial⟩
    · rename_i handle opened
      exact Or.inr ⟨_, by simp [spaceFor?, opened, Except.toOption], Nat.le_refl _,
        o.unrecorded_next, startHandle_error o failed⟩
  | handle name handle =>
    exact Or.inr ⟨_, rfl, Nat.le_refl _, o.unrecorded_next, startHandle_error o failed⟩
  | linked id =>
    cases hs : h.spaces[id]? with
    | none =>
      have failed : h.startLinked id hook = (.error e, after) := failed
      rcases h.startLinked_cases id hook with ⟨-, eq⟩ | ⟨s, hs', -⟩
      · rw [eq] at failed
        cases failed
        exact Or.inl ⟨by simp [spaceFor?, hs], rfl, rfl, .refl h⟩
      · rw [hs] at hs'
        cases hs'
    | some s =>
      have held := alone id s rfl hs
      have lt := (List.getElem?_eq_some_iff.mp hs).1
      exact Or.inr ⟨id, by simp [spaceFor?, hs], by omega, o.unrecorded_unheld hs held,
        startLinked_error o hs held failed⟩

end Host

end AppHost
