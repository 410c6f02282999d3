import AppHost.Proofs.Host.Schedule
/-! What every move of a schedule keeps: each space is held as its stage says, the trace of a
process is the past of its stage, the tasks that wait are the pending ones, and the hooks called
are those of the trace. -/
namespace AppHost

open Memory

theorem getElem?_concat_cases {α : Type} {l : List α} {a b : α} {i : ℕ}
    (at_i : (l ++ [a])[i]? = some b) : l[i]? = some b ∨ i = l.length ∧ b = a := by
  rcases Nat.lt_trichotomy i l.length with lt | rfl | gt
  · rw [List.getElem?_append_left lt] at at_i
    exact Or.inl at_i
  · rw [List.getElem?_concat_length] at at_i
    exact Or.inr ⟨rfl, (Option.some.inj at_i).symm⟩
  · have past : (l ++ [a]).length ≤ i := by
      rw [List.length_append, List.length_singleton]
      omega
    rw [List.getElem?_eq_none past] at at_i
    cases at_i

theorem getElem?_set_cases {α : Type} {l : List α} {i j : ℕ} {a b : α}
    (at_i : (l.set j a)[i]? = some b) : i = j ∧ b = a ∨ i ≠ j ∧ l[i]? = some b := by
  by_cases same : i = j
  · subst same
    have lt := (List.getElem?_eq_some_iff.mp at_i).1
    rw [List.length_set] at lt
    rw [List.getElem?_set_self lt] at at_i
    exact Or.inl ⟨rfl, (Option.some.inj at_i).symm⟩
  · rw [List.getElem?_set_ne (Ne.symm same)] at at_i
    exact Or.inr ⟨same, at_i⟩

/-- Changing one entry changes what a list selects by that entry's share. -/
theorem filterMap_set_perm {α β : Type} {f : α → Option β} {l : List α} {i : ℕ} {a : α}
    (b : α) (at_i : l[i]? = some a) :
    ((f b).toList ++ l.filterMap f).Perm ((f a).toList ++ (l.set i b).filterMap f) := by
  obtain ⟨lt, rfl⟩ := List.getElem?_eq_some_iff.mp at_i
  obtain ⟨before, rest, split, -, changed⟩ : ∃ before rest, l = before ++ l[i] :: rest ∧
      before.length = i ∧ l.set i b = before ++ b :: rest := List.exists_of_set lt
  have cons : ∀ x, (x :: rest).filterMap f = (f x).toList ++ rest.filterMap f := by
    intro x
    rw [List.filterMap_cons]
    cases f x <;> rfl
  generalize l[i] = a at split ⊢
  rw [changed, split, List.filterMap_append, cons, List.filterMap_append, cons]
  calc
    List.Perm ((f b).toList ++ (before.filterMap f ++ ((f a).toList ++ rest.filterMap f)))
        ((f b).toList ++ ((f a).toList ++ (before.filterMap f ++ rest.filterMap f))) :=
      (List.perm_append_comm_assoc _ _ _).append_left _
    List.Perm _ ((f a).toList ++ ((f b).toList ++ (before.filterMap f ++ rest.filterMap f))) :=
      List.perm_append_comm_assoc _ _ _
    List.Perm _ ((f a).toList ++ (before.filterMap f ++ ((f b).toList ++ rest.filterMap f))) :=
      (List.perm_append_comm_assoc _ _ _).append_left _

namespace Host

variable {σ γ : Type} [Allocator σ] {h after taken : Host σ γ} {id i : ℕ} {t : Task}

@[simp] theorem processes_dropTask (h : Host σ γ) (t : Task) :
    (h.dropTask t).processes = h.processes := rfl

@[simp] theorem pending_dropTask (h : Host σ γ) (t : Task) :
    (h.dropTask t).pending = h.pending := rfl

@[simp] theorem processes_ready (h : Host σ γ) (id : ℕ) (pid : Pid) (entry : Word) :
    (h.ready id pid entry).processes = h.processes := rfl

@[simp] theorem pending_ready (h : Host σ γ) (id : ℕ) (pid : Pid) (entry : Word) :
    (h.ready id pid entry).pending = h.pending := rfl

theorem hooked_note (h : Host σ γ) (e : HostEvent) :
    (h.note e).hooked = h.hooked ++ e.hook?.toList := by
  unfold hooked note
  rw [List.filterMap_append, List.filterMap_cons]
  cases e.hook? <;> rfl

theorem hooked_noteAll (h : Host σ γ) (events : List HostEvent) :
    (h.noteAll events).hooked = h.hooked ++ events.filterMap HostEvent.hook? := by
  simp [hooked, noteAll]

theorem hooked_removeRecord (h : Host σ γ) (pid : Pid) :
    (h.removeRecord pid).hooked = h.hooked := by
  unfold hooked
  rw [removeRecord_journal]

theorem hooked_addRecord (h : Host σ γ) (pid : Pid) (name : String) (id : ℕ) :
    (h.addRecord pid name id).hooked = h.hooked :=
  h.hooked_removeRecord pid

theorem Quiet.hooked (quiet : h.Quiet after) : after.hooked = h.hooked := by
  obtain ⟨events, journal, silent⟩ := quiet
  have none : events.filterMap HostEvent.hook? = [] :=
    List.filterMap_eq_nil_iff.mpr fun e he => (silent e he).no_hook
  rw [Host.hooked, journal, List.filterMap_append, none, List.append_nil]
  rfl

theorem takePending?_cases (found : h.takePending? i = some (t, taken)) :
    h.pending.Perm (t :: taken.pending) ∧ taken.processes = h.processes ∧
      taken.spaces = h.spaces ∧ taken.hooked = h.hooked := by
  obtain ⟨t', at_i, eq⟩ := Option.map_eq_some_iff.mp found
  cases eq
  obtain ⟨lt, rfl⟩ := List.getElem?_eq_some_iff.mp at_i
  exact ⟨(List.getElem_cons_eraseIdx_perm lt).symm, rfl, rfl, rfl⟩

theorem Custody.alike {base : Host σ γ} {holders : List Holder} (c : Custody base id holders h)
    (alike : h.Alike after) : Custody base id holders after :=
  c.same alike.processes alike.spaces

theorem length_removeRecord (h : Host σ γ) (pid : Pid) :
    (h.removeRecord pid).spaces.length = h.spaces.length := by
  unfold removeRecord
  split
  · exact List.length_modify _ _ _
  · rfl

@[simp] theorem length_modifySpace (h : Host σ γ) (id : ℕ) (f : Space σ → Space σ) :
    (h.modifySpace id f).spaces.length = h.spaces.length :=
  List.length_modify _ _ _

variable {stage later : Stage} {events : List RecordEvent}

def Stage.Housed (id : ℕ) (stage : Stage) : Prop :=
  ∀ t, stage.task? = some t → t.space = id ∧ t.pid = pidOf id

section Moves

variable [CodeGenerator γ]

theorem works_of_phase {phase : Phase} {outcome : Except LaunchError Unit}
    (done : h.phase id phase = (outcome, after)) : Works id h after := by
  have worked := h.phase_works id phase
  rwa [done] at worked

namespace Move

theorem length (m : Move id h stage events after later) :
    after.spaces.length = h.spaces.length := by
  cases m with
  | launch name => exact (length_modifySpace _ _ _).trans (h.length_removeRecord _)
  | export_ => exact (h.exportInto_works id).length
  | prepare done => exact (works_of_phase done).length
  | stop failed => exact (length_modifySpace _ _ _).trans (works_of_phase failed).length
  | rollBack | tearDown => exact h.length_removeRecord _
  | enter found =>
    obtain ⟨-, -, spaces, -⟩ := takePending?_cases found
    rw [spaces]
  | abandon found =>
    obtain ⟨-, -, spaces, -⟩ := takePending?_cases found
    simp [dropTask, release, spaces]
  | _ => simp [Host.release, dropTask, Host.ready, Host.hold, Host.keep]

theorem housed (m : Move id h stage events after later) (housed : stage.Housed id) :
    later.Housed id := by
  cases m with
  | accept =>
    intro t eq
    cases eq
    exact ⟨rfl, rfl⟩
  | enter | abandon | work | leave | letGo | tearDown | callHook | noHook => exact housed
  | _ =>
    intro t eq
    cases eq

theorem custody (m : Move id h stage events after later) (housed : stage.Housed id)
    (c : Custody h id stage.holders h) : Custody h id later.holders after := by
  cases m with
  | use call =>
    exact c.works (h.works_modifySpace id (·.act call) fun l _ => l.act_reaches call) (by decide)
  | export_ => exact c.works (h.exportInto_works id) (by decide)
  | drop => exact c.release linkage_ne (by decide)
  | launch name => exact c.addRecord name
  | prepare done => exact c.works (works_of_phase done) (by simp [Stage.holders])
  | stop failed =>
    have worked := c.works (works_of_phase failed) (by simp [Stage.holders])
    exact worked.release linkage_ne (by simp [Stage.holders])
  | noEntry => exact c.release linkage_ne (by simp [Stage.holders])
  | @accept entry hook found =>
    have ready := c.ready (by simp [Stage.holders]) (pidOf id) entry
    exact ready.same rfl rfl
  | @refuse entry hook found =>
    have ready := c.ready (by simp [Stage.holders]) (pidOf id) entry
    exact ready.dropTask rfl
  | rollBack => exact c.removeRecord
  | enter found =>
    obtain ⟨-, processes, spaces, -⟩ := takePending?_cases found
    exact c.same processes spaces
  | abandon found =>
    obtain ⟨-, processes, spaces, -⟩ := takePending?_cases found
    exact (c.same processes spaces).dropTask (housed _ rfl).1
  | work t arena reaches =>
    exact c.works (h.works_modifySpace id ({ · with arena }) reaches) (by simp [Stage.holders])
  | leave => exact c.release context_ne (by simp [Stage.holders])
  | letGo => exact c.release linkage_ne (by simp [Stage.holders])
  | tearDown t reason =>
    rw [(housed t rfl).2]
    exact c.removeRecord
  | callHook => exact c.same rfl rfl
  | noHook => exact c

theorem past (m : Move id h stage events after later) (housed : stage.Housed id) :
    later.past (pidOf id) = stage.past (pidOf id) ++ events := by
  cases m with
  | tearDown t reason =>
    rw [(housed t rfl).2]
    rfl
  | @callHook t reason hook =>
    rw [(housed t rfl).2]
    simp [Stage.past, hook]
  | noHook reason none => simp [Stage.past, none]
  | _ => rfl

theorem pids (m : Move id h stage events after later) (housed : stage.Housed id) :
    ∀ e ∈ events, e.pid = pidOf id := by
  cases m with
  | launch | accept | rollBack =>
    intro e he
    rw [List.mem_singleton.mp he]
    rfl
  | tearDown t | @callHook t =>
    intro e he
    rw [List.mem_singleton.mp he]
    exact (housed t rfl).2
  | _ =>
    intro e he
    cases he

theorem pending (m : Move id h stage events after later) :
    (later.waiting?.toList ++ h.pending).Perm (stage.waiting?.toList ++ after.pending) := by
  cases m with
  | launch name =>
    rw [addRecord_pending]
    exact .refl _
  | export_ => rw [(h.exportInto_works id).pending]
  | prepare done =>
    rw [(works_of_phase done).pending]
    exact .refl _
  | stop failed =>
    rw [Host.release, pending_modifySpace, (works_of_phase failed).pending]
    exact .refl _
  | accept => exact List.perm_append_comm
  | refuse =>
    rw [pending_dropTask, pending_ready]
    exact .refl _
  | rollBack | tearDown =>
    rw [removeRecord_pending]
    exact .refl _
  | enter found => exact (takePending?_cases found).1
  | abandon found => exact (takePending?_cases found).1
  | _ => exact .refl _

theorem hooked (m : Move id h stage events after later) :
    after.hooked = h.hooked ++ events.filterMap RecordEvent.hook? := by
  cases m with
  | launch name => exact (h.hooked_addRecord _ _ _).trans (List.append_nil _).symm
  | export_ => exact (h.exportInto_works id).quiet.hooked.trans (List.append_nil _).symm
  | prepare done => exact (works_of_phase done).quiet.hooked.trans (List.append_nil _).symm
  | stop failed => exact (works_of_phase failed).quiet.hooked.trans (List.append_nil _).symm
  | @accept entry hook found | @refuse entry hook found =>
    have quiet : h.Quiet (h.ready id (pidOf id) entry) := quiet_note _ trivial
    exact quiet.hooked.trans (List.append_nil _).symm
  | rollBack | tearDown => exact (h.hooked_removeRecord _).trans (List.append_nil _).symm
  | enter found => exact (takePending?_cases found).2.2.2.trans (List.append_nil _).symm
  | abandon found => exact (takePending?_cases found).2.2.2.trans (List.append_nil _).symm
  | callHook reason => exact h.hooked_note _
  | _ => exact (List.append_nil _).symm

end Move

end Moves

namespace World

variable {w next : World σ γ}

def past (w : World σ γ) (pid : Pid) : List RecordEvent := w.trace.filter (·.pid == pid)

structure At (w : World σ γ) (id : ℕ) (stage : Stage) : Prop where
  custody : Custody w.host id stage.holders w.host
  housed : stage.Housed id
  past : w.past (pidOf id) = stage.past (pidOf id)

structure Tracks (w : World σ γ) : Prop where
  orderly : w.host.Orderly
  length : w.host.spaces.length = w.stages.length
  stage : ∀ (id : ℕ) (stage : Stage), w.stages[id]? = some stage → w.At id stage
  named : ∀ e ∈ w.trace, ∃ id < w.stages.length, e.pid = pidOf id
  pending : w.host.pending.Perm (w.stages.filterMap Stage.waiting?)
  hooked : w.host.hooked = w.trace.filterMap RecordEvent.hook?

theorem tracks_built {h : Host σ γ} {settings : Settings} {parts : Parts σ γ}
    (done : build settings parts = .ok h) : Tracks ⟨h, [], []⟩ := by
  have orderly := orderly_built done
  unfold build at done
  obtain ⟨sites, -, done⟩ := bind_eq_ok.mp done
  cases done
  exact
    { orderly
      length := rfl
      stage := fun id stage at_id => by simp at at_id
      named := fun e he => nomatch he
      pending := .refl _
      hooked := rfl }

namespace Tracks

theorem alike (tracks : w.Tracks) (alike : w.host.Alike after) :
    Tracks { w with host := after } where
  orderly := tracks.orderly.of_same alike.processes alike.spaces
  length := by rw [alike.spaces]; exact tracks.length
  stage id stage at_id :=
    { tracks.stage id stage at_id with
      custody := ((tracks.stage id stage at_id).custody.alike alike).here }
  named := tracks.named
  pending := by rw [alike.pending]; exact tracks.pending
  hooked := by rw [alike.hooked]; exact tracks.hooked

theorem apart (tracks : w.Tracks) (few : w.host.spaces.length < 2 ^ 32) {i j : ℕ}
    (hi : i ≤ w.stages.length) (hj : j ≤ w.stages.length) (ne : i ≠ j) : pidOf i ≠ pidOf j := by
  intro eq
  rw [tracks.length] at few
  exact ne (pidOf_inj (by omega) (by omega) eq)

theorem waiting (tracks : w.Tracks) (mem : t ∈ w.host.pending) :
    w.stages[t.space]? = some (.waiting t) := by
  obtain ⟨stage, known, waits⟩ := List.mem_filterMap.mp (tracks.pending.mem_iff.mp mem)
  obtain ⟨id, at_id⟩ := List.mem_iff_getElem?.mp known
  rw [Stage.waiting_of_waiting? waits] at at_id
  rw [((tracks.stage id _ at_id).housed t rfl).1]
  exact at_id

theorem newLinkage (tracks : w.Tracks) (few : w.host.newLinkage.2.spaces.length < 2 ^ 32) :
    Tracks { w with host := w.host.newLinkage.2, stages := w.stages ++ [.owned] } := by
  have longer : w.host.newLinkage.2.spaces.length = w.host.spaces.length + 1 :=
    List.length_append
  have room : w.host.spaces.length + 1 < 2 ^ 32 := longer ▸ few
  -- The new space comes after the others, and no event is about it yet.
  have fresh : w.past (pidOf w.stages.length) = [] := by
    refine List.filter_eq_nil_iff.mpr fun e he => ?_
    obtain ⟨i, lt, named⟩ := tracks.named e he
    have ne := tracks.apart (by omega) lt.le (le_refl w.stages.length) lt.ne
    simpa [named] using ne
  refine ⟨tracks.orderly.newLinkage, ?_, fun id stage at_id => ?_, fun e he => ?_, ?_,
    tracks.hooked⟩
  · simp [longer, tracks.length]
  · rcases getElem?_concat_cases at_id with old | ⟨rfl, rfl⟩
    · have known := tracks.stage id stage old
      exact ⟨known.custody.before_newLinkage, known.housed, known.past⟩
    · refine ⟨?_, fun t eq => (nomatch eq), fresh⟩
      rw [← tracks.length]
      exact Custody.newLinkage tracks.orderly room
  · obtain ⟨i, lt, named⟩ := tracks.named e he
    exact ⟨i, by simp only [List.length_append, List.length_singleton]; omega, named⟩
  · rw [List.filterMap_append]
    exact tracks.pending.trans (.of_eq (List.append_nil _).symm)

variable [CodeGenerator γ]

theorem move (tracks : w.Tracks) (few : w.host.spaces.length < 2 ^ 32)
    (at_stage : w.stages[id]? = some stage) (m : Move id w.host stage events after later) :
    Tracks ⟨after, w.stages.set id later, w.trace ++ events⟩ := by
  have lt := (List.getElem?_eq_some_iff.mp at_stage).1
  obtain ⟨custody, housed, past⟩ := tracks.stage id stage at_stage
  have moved := m.custody housed custody
  refine ⟨moved.orderly, ?_, fun i other at_i => ?_, fun e he => ?_, ?_, ?_⟩
  · rw [m.length, tracks.length, List.length_set]
  · rcases getElem?_set_cases at_i with ⟨rfl, rfl⟩ | ⟨ne, at_i⟩
    · refine ⟨moved.here, m.housed housed, ?_⟩
      have mine : events.filter (·.pid == pidOf i) = events :=
        List.filter_eq_self.mpr fun e he => beq_iff_eq.mpr (m.pids housed e he)
      rw [m.past housed, ← past, World.past, List.filter_append, mine]
      rfl
    · have known := tracks.stage i other at_i
      have apart := tracks.apart few (List.getElem?_eq_some_iff.mp at_i).1.le lt.le ne
      refine ⟨moved.beside known.custody ne apart, known.housed, ?_⟩
      have none : events.filter (·.pid == pidOf i) = [] := by
        refine List.filter_eq_nil_iff.mpr fun e he => ?_
        simpa [m.pids housed e he] using apart.symm
      rw [World.past, List.filter_append, none, List.append_nil]
      exact known.past
  · rcases List.mem_append.mp he with old | new
    · rw [List.length_set]
      exact tracks.named e old
    · exact ⟨id, by rwa [List.length_set], m.pids housed e new⟩
  · have selected := filterMap_set_perm (f := Stage.waiting?) later at_stage
    have waiting := (tracks.pending.append_left later.waiting?.toList).trans selected
    exact (List.perm_append_left_iff _).mp (m.pending.symm.trans waiting)
  · rw [m.hooked, tracks.hooked, List.filterMap_append]

theorem step (tracks : w.Tracks) (s : w.Step next) (few : next.host.spaces.length < 2 ^ 32) :
    next.Tracks := by
  cases s with
  | elsewhere alike => exact tracks.alike alike
  | newLinkage => exact tracks.newLinkage few
  | move at_stage moved => exact tracks.move (moved.length ▸ few) at_stage moved

end Tracks

variable [CodeGenerator γ]

theorem Step.length_le (s : w.Step next) : w.host.spaces.length ≤ next.host.spaces.length := by
  cases s with
  | elsewhere alike => rw [alike.spaces]
  | newLinkage => simp [Host.newLinkage]
  | move _ moved => exact moved.length.ge

theorem Reachable.tracks (r : w.Reachable) (few : w.host.spaces.length < 2 ^ 32) : w.Tracks := by
  induction r with
  | built done => exact tracks_built done
  | step _ next ih => exact (ih (next.length_le.trans_lt few)).step next few

end World

end Host

end AppHost
