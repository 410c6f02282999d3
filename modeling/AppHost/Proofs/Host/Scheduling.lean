import AppHost.Proofs.Host.Tracking
import Mathlib.Logic.Relation
/-! The operations of a host as schedules. A launch that runs through, up to the end of its program
where that runs at once, and a pending task that is run, each come about by moves of their own
space. -/
namespace AppHost.Host

open Memory
open Relation (ReflTransGen)

variable {σ γ : Type} [Allocator σ] {h worked after : Host σ γ} {id i : ℕ} {t : Task}

theorem Alike.trans {last : Host σ γ} (first : h.Alike after) (second : after.Alike last) :
    h.Alike last where
  processes := second.processes.trans first.processes
  spaces := second.spaces.trans first.spaces
  pending := second.pending.trans first.pending
  hooked := second.hooked.trans first.hooked

theorem alike_note (h : Host σ γ) {e : HostEvent} (none : e.hook? = none) : h.Alike (h.note e) :=
  ⟨rfl, rfl, rfl, by rw [hooked_note, none]; exact List.append_nil _⟩

def retire (h : Host σ γ) (t : Task) (reason : ExitReason) : Host σ γ :=
  let h := ((h.release t.space .context).release t.space .linkage).removeRecord t.pid
  let h := h.note (.ended t.pid reason.code)
  if t.hook then h.note (.hookRan t.pid reason h.live) else h

/-- A task runs by working in its arena, up to an end that it retires from. -/
theorem runTask_eq_retire {l : Linkage (Audited σ)} (known : h.linkage? t.space = some l) :
    ∃ arena worked reason, l.arena.Reaches arena ∧
      (h.modifySpace t.space fun s => { s with linkage := { s.linkage with arena } }).Alike worked ∧
      h.runTask t = worked.retire t reason := by
  unfold runTask
  rw [known]
  simp only
  generalize hc : @Context.run (Audited σ) _ _ _ = c
  have reached : l.arena.Reaches c.arena := by
    rw [← hc]
    exact (Arena.reaches_perform l.arena (.setResume h.resumePoint)).trans
      (Context.run_reaches _ _)
  refine ⟨c.arena, _, exitReason c.exitCode (h.programs t.pid).result, reached, ?_, rfl⟩
  refine ⟨rfl, rfl, rfl, ?_⟩
  have none : (c.journal.map HostEvent.context).filterMap HostEvent.hook? = [] := by
    refine List.filterMap_eq_nil_iff.mpr fun e he => ?_
    obtain ⟨event, -, rfl⟩ := List.mem_map.mp he
    rfl
  simp only [leave, hooked_noteAll, none, List.append_nil]
  exact ((h.alike_note rfl).trans (alike_note _ rfl)).hooked

theorem runTask_processes {l : Linkage (Audited σ)} (known : h.linkage? t.space = some l) :
    (h.runTask t).processes = h.processes.remove t.pid := by
  obtain ⟨arena, worked, reason, -, alike, eq⟩ := runTask_eq_retire known
  have removed : (worked.retire t reason).processes = worked.processes.remove t.pid := by
    unfold retire
    simp only
    split <;> exact removeRecord_processes _ _
  rw [eq, removed, alike.processes, processes_modifySpace]

theorem takePending?_keep (h : Host σ γ) (t : Task) :
    (h.keep t).takePending? h.pending.length = some (t, h) := by
  unfold takePending? keep
  simp [List.eraseIdx_append_of_length_le]

theorem linkage?_ready {l : Linkage (Audited σ)} (known : h.linkage? id = some l) (entry : Word) :
    ∃ l, (h.ready id (pidOf id) entry).linkage? id = some l := by
  obtain ⟨s, hs, -⟩ := Option.map_eq_some_iff.mp known
  have length : (h.ready id (pidOf id) entry).spaces.length = h.spaces.length :=
    (length_modifySpace _ _ _).trans (length_modifySpace _ _ _)
  have lt := (List.getElem?_eq_some_iff.mp hs).1
  rw [← length] at lt
  exact ⟨_, by rw [linkage?, List.getElem?_eq_getElem lt]; rfl⟩

variable [CodeGenerator γ]

namespace World

variable {w : World σ γ} {stage later : Stage} {events : List RecordEvent}

def Leads (w : World σ γ) (id : ℕ) (h : Host σ γ) (stage : Stage) : Prop :=
  ∃ after : World σ γ, ReflTransGen Step w after ∧ after.host = h ∧ after.stages[id]? = some stage

def Comes (w : World σ γ) (h : Host σ γ) : Prop :=
  ∃ after : World σ γ, ReflTransGen Step w after ∧ after.host = h

theorem Reachable.steps {after : World σ γ} (reachable : w.Reachable)
    (steps : ReflTransGen Step w after) : after.Reachable := by
  induction steps with
  | refl => exact reachable
  | tail _ next ih => exact ih.step next

namespace Leads

theorem comes (led : w.Leads id h stage) : w.Comes h := by
  obtain ⟨after, steps, host, -⟩ := led
  exact ⟨after, steps, host⟩

theorem refl (at_stage : w.stages[id]? = some stage) : w.Leads id w.host stage :=
  ⟨w, .refl, rfl, at_stage⟩

theorem move (led : w.Leads id h stage) (m : Move id h stage events after later) :
    w.Leads id after later := by
  obtain ⟨between, steps, rfl, at_stage⟩ := led
  have lt := (List.getElem?_eq_some_iff.mp at_stage).1
  exact ⟨_, steps.tail (.move at_stage m), rfl, List.getElem?_set_self lt⟩

theorem elsewhere (led : w.Leads id h stage) (alike : h.Alike after) : w.Leads id after stage := by
  obtain ⟨between, steps, rfl, at_stage⟩ := led
  exact ⟨_, steps.tail (.elsewhere between alike), rfl, at_stage⟩

theorem newLinkage (tracks : w.Tracks) :
    w.Leads w.host.spaces.length w.host.newLinkage.2 .owned := by
  rw [tracks.length]
  exact ⟨_, .tail .refl (.newLinkage w), rfl, List.getElem?_concat_length⟩

theorem retire {reason : ExitReason} (led : w.Leads t.space h (.running t)) :
    w.Leads t.space (h.retire t reason) (.finished t reason) := by
  have gone := ((led.move (.leave h t reason)).move (.letGo _ t reason)).move
    (.tearDown _ t reason)
  have ended := gone.elsewhere (alike_note _ (e := .ended t.pid reason.code) rfl)
  unfold Host.retire
  simp only
  split
  · rename_i hook
    exact ended.move (.callHook _ reason hook)
  · rename_i none
    exact ended.move (.noHook _ reason (by simpa using none))

theorem run {l : Linkage (Audited σ)} (led : w.Leads t.space h (.running t))
    (known : h.linkage? t.space = some l) :
    ∃ reason, w.Leads t.space (h.runTask t) (.finished t reason) := by
  obtain ⟨arena, worked, reason, reached, alike, eq⟩ := runTask_eq_retire known
  have working := led.move (.work t arena fun l' known' => by
    cases known.symm.trans known'
    exact reached)
  rw [eq]
  exact ⟨reason, (working.elsewhere alike).retire⟩

theorem phases_ok {rest : List Phase} {hook : Bool} (led : w.Leads id h (.preparing rest hook))
    (done : h.phases id rest = (.ok (), after)) : w.Leads id after (.preparing [] hook) := by
  induction rest generalizing h with
  | nil =>
    cases done
    exact led
  | cons phase rest ih =>
    simp only [phases] at done
    split at done
    · cases done
    · rename_i prepared
      exact ih (led.move (.prepare prepared)) done

theorem phases_error {rest : List Phase} {hook : Bool} {e : LaunchError}
    (led : w.Leads id h (.preparing rest hook)) (failed : h.phases id rest = (.error e, after)) :
    w.Leads id (after.release id .linkage) .failed := by
  induction rest generalizing h with
  | nil => cases failed
  | cons phase rest ih =>
    simp only [phases] at failed
    split at failed
    · rename_i stopped
      cases failed
      exact led.move (.stop stopped)
    · rename_i prepared
      exact ih (led.move (.prepare prepared)) failed

theorem spawn_error {hook : Bool} {e : LaunchError} (led : w.Leads id h (.preparing [] hook))
    (failed : h.spawn id (pidOf id) hook = (.error e, after)) : w.Leads id after .failed := by
  unfold spawn at failed
  split at failed
  · rename_i none
    cases failed
    exact led.move (.noEntry hook none)
  · rename_i entry found
    obtain ⟨reason, rfl⟩ := submit_error failed
    exact (led.move (.refuse found)).elsewhere ((alike_note _ rfl).trans (alike_note _ rfl))

theorem spawn_ok {hook : Bool} (led : w.Leads id h (.preparing [] hook))
    (spawned : h.spawn id (pidOf id) hook = (.ok (), after)) : ∃ t, t.hook = hook ∧
      (w.Leads id after (.waiting t) ∨ ∃ reason, w.Leads id after (.finished t reason)) := by
  unfold spawn at spawned
  split at spawned
  · cases spawned
  rename_i entry found
  have accepted := led.move (.accept found)
  refine ⟨h.taskOf id entry hook, rfl, ?_⟩
  unfold submit at spawned
  simp only at spawned
  split at spawned
  · cases spawned
    have entered := accepted.move (.enter (takePending?_keep _ _))
    obtain ⟨l, known, -⟩ := Option.bind_eq_some_iff.mp found
    obtain ⟨l', ready⟩ := linkage?_ready known entry
    exact Or.inr ((entered.elsewhere (alike_note _ rfl)).run ready)
  · cases spawned
    exact Or.inl (accepted.elsewhere (alike_note _ rfl))
  · cases spawned

end Leads

/-- A launch with an exit hook, or without one, has come to a task that waits or has run. -/
def Launched (w : World σ γ) (id : ℕ) (hook : Bool) (h : Host σ γ) : Prop :=
  ∃ t, t.hook = hook ∧ (w.Leads id h (.waiting t) ∨ ∃ reason, w.Leads id h (.finished t reason))

namespace Tracks

theorem leads_begin (tracks : w.Tracks) (name : String) (rest : List Phase) (hook : Bool) :
    w.Leads w.host.spaces.length (w.host.begin name) (.preparing rest hook) := by
  have launched := (Leads.newLinkage tracks).move (.launch _ name rest hook)
  rw [← tracks.orderly.counter] at launched
  exact launched

theorem startHandle_ok (tracks : w.Tracks) {name : String} {handle : Handle} {hook : Bool}
    {pid : Pid} (launched : w.host.startHandle name handle hook = (.ok pid, after)) :
    pid = pidOf w.host.spaces.length ∧ w.Launched w.host.spaces.length hook after := by
  rcases w.host.startHandle_cases name handle hook with
    ⟨e, p, hp, eq⟩ | ⟨p, e, q, hp, hq, eq⟩ | ⟨p, q, hp, hq, eq⟩ <;>
    rw [eq] at launched <;> cases launched
  rw [prepare_eq_phases] at hp
  rw [tracks.orderly.counter] at hq ⊢
  exact ⟨rfl, ((tracks.leads_begin name _ hook).phases_ok hp).spawn_ok hq⟩

theorem startHandle_error (tracks : w.Tracks) {name : String} {handle : Handle} {hook : Bool}
    {e : LaunchError} (failed : w.host.startHandle name handle hook = (.error e, after)) :
    w.Leads w.host.spaces.length after .withdrawn := by
  have begun := tracks.leads_begin name (Phase.all name handle) hook
  rcases w.host.startHandle_cases name handle hook with
    ⟨e, p, hp, eq⟩ | ⟨p, e, q, hp, hq, eq⟩ | ⟨p, q, hp, hq, eq⟩ <;>
    rw [eq] at failed <;> cases failed
  · rw [prepare_eq_phases] at hp
    rw [tracks.orderly.counter]
    exact ((begun.phases_error hp).move (.rollBack _)).elsewhere (alike_note _ rfl)
  · rw [prepare_eq_phases] at hp
    rw [tracks.orderly.counter] at hq ⊢
    exact (((begun.phases_ok hp).spawn_error hq).move (.rollBack _)).elsewhere (alike_note _ rfl)

theorem startLinked_ok (tracks : w.Tracks) {hook : Bool} {pid : Pid}
    (mine : w.stages[id]? = some .owned)
    (launched : w.host.startLinked id hook = (.ok pid, after)) :
    pid = pidOf id ∧ w.Launched id hook after := by
  rcases w.host.startLinked_cases id hook with ⟨-, eq⟩ | ⟨s, hs, rest⟩
  · rw [eq] at launched
    cases launched
  simp only [(tracks.orderly.spaces id s hs).1] at rest
  rcases rest with eq | ⟨e, q, hq, eq⟩ | ⟨q, hq, eq⟩ <;> rw [eq] at launched <;> cases launched
  exact ⟨rfl, ((Leads.refl mine).move (.launch _ _ [] hook)).spawn_ok hq⟩

theorem startLinked_error (tracks : w.Tracks) {hook : Bool} {e : LaunchError}
    (mine : w.stages[id]? = some .owned)
    (failed : w.host.startLinked id hook = (.error e, after)) :
    w.Leads id after .dropped ∨ w.Leads id after .withdrawn := by
  have owned := Leads.refl mine
  rcases w.host.startLinked_cases id hook with ⟨absent, -⟩ | ⟨s, hs, rest⟩
  · obtain ⟨s, hs, -⟩ := (tracks.stage id _ mine).custody.space
    rw [absent] at hs
    cases hs
  simp only [(tracks.orderly.spaces id s hs).1] at rest
  rcases rest with eq | ⟨e, q, hq, eq⟩ | ⟨q, hq, eq⟩ <;> rw [eq] at failed <;> cases failed
  · exact Or.inl ((owned.elsewhere (alike_note _ rfl)).move (.drop _))
  · exact Or.inr (((owned.move (.launch _ _ [] hook)).spawn_error hq).move (.rollBack _))

theorem launch_ok (tracks : w.Tracks) {launch : Launch} {hook : Bool} {pid : Pid}
    (mine : ∀ id, launch = .linked id → w.stages[id]? = some .owned)
    (launched : w.host.launch launch hook = (.ok pid, after)) :
    ∃ id, pid = pidOf id ∧ w.Launched id hook after := by
  cases launch with
  | path path =>
    change w.host.start path hook = _ at launched
    unfold start at launched
    split at launched
    · cases launched
    · exact ⟨_, tracks.startHandle_ok launched⟩
  | handle name handle => exact ⟨_, tracks.startHandle_ok launched⟩
  | linked id => exact ⟨id, tracks.startLinked_ok (mine id rfl) launched⟩

theorem launch_error (tracks : w.Tracks) {launch : Launch} {hook : Bool} {e : LaunchError}
    (mine : ∀ id, launch = .linked id → w.stages[id]? = some .owned)
    (failed : w.host.launch launch hook = (.error e, after)) : w.Comes after := by
  cases launch with
  | path path =>
    change w.host.start path hook = _ at failed
    unfold start at failed
    split at failed
    · cases failed
      exact ⟨_, .single (.elsewhere w (alike_note _ rfl)), rfl⟩
    · exact (tracks.startHandle_error failed).comes
  | handle name handle => exact (tracks.startHandle_error failed).comes
  | linked id =>
    rcases tracks.startLinked_error (mine id rfl) failed with dropped | withdrawn
    · exact dropped.comes
    · exact withdrawn.comes

theorem runTask (tracks : w.Tracks) {taken : Host σ γ}
    (found : w.host.takePending? i = some (t, taken)) :
    (∃ reason, w.Leads t.space (taken.runTask t) (.finished t reason)) ∧
      (w.host.processes.get? t.pid).isSome ∧
      (taken.runTask t).processes = w.host.processes.remove t.pid := by
  obtain ⟨pending, processes, spaces, -⟩ := takePending?_cases found
  have waiting := tracks.waiting (pending.mem_iff.mpr List.mem_cons_self)
  obtain ⟨custody, housed, -⟩ := tracks.stage _ _ waiting
  obtain ⟨l, known⟩ := custody.linkage
  have taken_known : taken.linkage? t.space = some l := by
    rw [linkage?, spaces]
    exact known
  refine ⟨((Leads.refl waiting).move (.enter found)).run taken_known, ?_, ?_⟩
  · rw [(housed t rfl).2]
    exact custody.isSome_iff.mpr (by simp [Stage.holders])
  · rw [runTask_processes taken_known, processes]

end Tracks

end World

end AppHost.Host
