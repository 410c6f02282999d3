import AppHost.Proofs.Host.Custody
/-! A host whose launches and tasks take turns. Each space is at some stage of its life, from the
linkage its embedder made, over the launch and the task it goes into, to the end; in any order, one
space moves on by one operation on the host. What each move does to the table of processes, and
every call of a hook, is kept in a trace. -/
namespace AppHost

open Memory

inductive RecordEvent where
  | inserted (pid : Pid)
  /-- The task was taken over, so that the launch has succeeded. -/
  | accepted (pid : Pid)
  | rolledBack (pid : Pid)
  | tornDown (pid : Pid)
  | hooked (pid : Pid) (reason : ExitReason)
  deriving DecidableEq, Repr

def RecordEvent.pid : RecordEvent → Pid
  | .inserted pid | .accepted pid | .rolledBack pid | .tornDown pid | .hooked pid _ => pid

def RecordEvent.hook? : RecordEvent → Option (Pid × ExitReason)
  | .hooked pid reason => some (pid, reason)
  | _ => none

def HostEvent.hook? : HostEvent → Option (Pid × ExitReason)
  | .hookRan pid reason _ => some (pid, reason)
  | _ => none

theorem HostEvent.Silent.no_hook {e : HostEvent} (silent : e.Silent) : e.hook? = none := by
  cases e with
  | hookRan => exact silent.elim
  | _ => rfl

namespace Host

inductive Stage where
  /-- In the hands of the embedder. -/
  | owned
  | dropped
  /-- A launch has recorded its process, and these stages of preparing are left. -/
  | preparing (rest : List Phase) (hook : Bool)
  /-- The launch has failed, but its record is still there. -/
  | failed
  | withdrawn
  | waiting (t : Task)
  | running (t : Task)
  /-- The program has ended, and its context let go. -/
  | returning (t : Task) (reason : ExitReason)
  /-- Only the record is left to be removed. -/
  | leaving (t : Task) (reason : ExitReason)
  | ended (t : Task) (reason : ExitReason)
  | finished (t : Task) (reason : ExitReason)
  /-- The task was dropped before it ran. -/
  | abandoned (t : Task)

namespace Stage

def holders : Stage → List Holder
  | .owned => [.linkage]
  | .preparing .. | .returning .. => [.record, .linkage]
  | .waiting _ | .running _ => [.context, .record, .linkage]
  | .failed | .leaving .. | .abandoned _ => [.record]
  | .dropped | .withdrawn | .ended .. | .finished .. => []

def task? : Stage → Option Task
  | .waiting t | .running t | .returning t _ | .leaving t _ | .ended t _ | .finished t _
  | .abandoned t => some t
  | _ => none

def waiting? : Stage → Option Task
  | .waiting t => some t
  | _ => none

def past (pid : Pid) : Stage → List RecordEvent
  | .owned | .dropped => []
  | .preparing .. | .failed => [.inserted pid]
  | .withdrawn => [.inserted pid, .rolledBack pid]
  | .waiting _ | .running _ | .returning .. | .leaving .. | .abandoned _ =>
    [.inserted pid, .accepted pid]
  | .ended .. => [.inserted pid, .accepted pid, .tornDown pid]
  | .finished t reason =>
    [.inserted pid, .accepted pid, .tornDown pid] ++
      if t.hook then [.hooked pid reason] else []

theorem waiting_of_waiting? {stage : Stage} {t : Task} (h : stage.waiting? = some t) :
    stage = .waiting t := by
  cases stage <;> cases h
  rfl

theorem recorded_iff (pid : Pid) (stage : Stage) :
    .record ∈ stage.holders ↔ .inserted pid ∈ stage.past pid ∧
      .rolledBack pid ∉ stage.past pid ∧ .tornDown pid ∉ stage.past pid := by
  cases stage <;> simp [holders, past]

theorem past_counts (pid : Pid) (stage : Stage) :
    (stage.past pid).count (.inserted pid) ≤ 1 ∧
      (stage.past pid).count (.rolledBack pid) + (stage.past pid).count (.tornDown pid) ≤
        (stage.past pid).count (.inserted pid) := by
  cases stage with
  | finished t reason => cases hook : t.hook <;> simp [past, hook]
  | _ => simp [past]

end Stage

variable {σ γ : Type} [Allocator σ]

def hooked (h : Host σ γ) : List (Pid × ExitReason) := h.journal.filterMap HostEvent.hook?

structure Alike (h after : Host σ γ) : Prop where
  processes : after.processes = h.processes
  spaces : after.spaces = h.spaces
  pending : after.pending = h.pending
  hooked : after.hooked = h.hooked

def taskOf (h : Host σ γ) (id : ℕ) (entry : Word) (hook : Bool) : Task :=
  ⟨id, pidOf id, entry, [h.settings.argv0], h.settings.envp, hook⟩

def keep (h : Host σ γ) (t : Task) : Host σ γ := { h with pending := h.pending ++ [t] }

variable [CodeGenerator γ]

/-- One space moves on to its next stage. -/
inductive Move (id : ℕ) : Host σ γ → Stage → List RecordEvent → Host σ γ → Stage → Prop where
  | use (h call) :
      Move id h .owned []
        (h.modifySpace id fun s => { s with linkage := s.linkage.act call }) .owned
  | export_ (h) : Move id h .owned [] (h.exportInto id).2 .owned
  | drop (h) : Move id h .owned [] (h.release id .linkage) .dropped
  /-- A launch takes the linkage over and records the process. All stages of preparing are left
  where it was given a handle, none where it was given a linked program. -/
  | launch (h name rest hook) :
      Move id h .owned [.inserted (pidOf id)] (h.addRecord (pidOf id) name id)
        (.preparing rest hook)
  | prepare {h after : Host σ γ} {phase rest hook} (done : h.phase id phase = (.ok (), after)) :
      Move id h (.preparing (phase :: rest) hook) [] after (.preparing rest hook)
  | stop {h after : Host σ γ} {phase rest hook e} (failed : h.phase id phase = (.error e, after)) :
      Move id h (.preparing (phase :: rest) hook) [] (after.release id .linkage) .failed
  | noEntry {h : Host σ γ} (hook) (none : (h.linkage? id).bind (·.entry) = none) :
      Move id h (.preparing [] hook) [] (h.release id .linkage) .failed
  | accept {h : Host σ γ} {entry hook} (found : (h.linkage? id).bind (·.entry) = some entry) :
      Move id h (.preparing [] hook) [.accepted (pidOf id)]
        ((h.ready id (pidOf id) entry).keep (h.taskOf id entry hook))
        (.waiting (h.taskOf id entry hook))
  | refuse {h : Host σ γ} {entry hook} (found : (h.linkage? id).bind (·.entry) = some entry) :
      Move id h (.preparing [] hook) []
        ((h.ready id (pidOf id) entry).dropTask (h.taskOf id entry hook)) .failed
  | rollBack (h) :
      Move id h .failed [.rolledBack (pidOf id)] (h.removeRecord (pidOf id)) .withdrawn
  | enter {h taken : Host σ γ} {i t} (found : h.takePending? i = some (t, taken)) :
      Move id h (.waiting t) [] taken (.running t)
  | abandon {h taken : Host σ γ} {i t} (found : h.takePending? i = some (t, taken)) :
      Move id h (.waiting t) [] (taken.dropTask t) (.abandoned t)
  /-- The program works in its arena, in whatever way. -/
  | work {h : Host σ γ} (t arena) (reaches : ∀ l, h.linkage? id = some l → l.arena.Reaches arena) :
      Move id h (.running t) []
        (h.modifySpace id fun s => { s with linkage := { s.linkage with arena } }) (.running t)
  | leave (h t reason) : Move id h (.running t) [] (h.release id .context) (.returning t reason)
  | letGo (h t reason) :
      Move id h (.returning t reason) [] (h.release id .linkage) (.leaving t reason)
  | tearDown (h t reason) :
      Move id h (.leaving t reason) [.tornDown t.pid] (h.removeRecord t.pid) (.ended t reason)
  | callHook (h) {t} (reason) (hook : t.hook = true) :
      Move id h (.ended t reason) [.hooked t.pid reason]
        (h.note (.hookRan t.pid reason h.live)) (.finished t reason)
  | noHook (h) {t} (reason) (none : t.hook = false) :
      Move id h (.ended t reason) [] h (.finished t reason)

/-- A host, the stage of each of its spaces, and what happened to records and tasks so far. -/
structure World (σ γ : Type) [Allocator σ] where
  host : Host σ γ
  stages : List Stage
  trace : List RecordEvent

namespace World

inductive Step : World σ γ → World σ γ → Prop where
  /-- Something else than the table, the spaces and the tasks changes. -/
  | elsewhere (w : World σ γ) {after} (alike : w.host.Alike after) :
      Step w { w with host := after }
  | newLinkage (w : World σ γ) :
      Step w { w with host := w.host.newLinkage.2, stages := w.stages ++ [.owned] }
  | move {w : World σ γ} {id stage events after later} (at_stage : w.stages[id]? = some stage)
      (moved : Move id w.host stage events after later) :
      Step w ⟨after, w.stages.set id later, w.trace ++ events⟩

inductive Reachable : World σ γ → Prop where
  | built {settings parts} {h : Host σ γ} (done : build settings parts = .ok h) :
      Reachable ⟨h, [], []⟩
  | step {w after : World σ γ} (before : Reachable w) (next : Step w after) : Reachable after

end World

end Host

end AppHost
