import AppHost.Memory.Heap
import AppHost.Proofs.Host.Scheduling
/-! Tasks that share one execution unit. A task gives the unit up inside a suspension or by ending,
and while it is away others may enter, suspend, return and end. Whenever control is in a program
the unit is bound to its process, and it is bound to none when no task is under way. -/
namespace AppHost

open Memory

def Action.suspension? : Action → Option Suspension
  | .yield | .schedYield | .yieldNow => some .yield
  | .delayMillis millis => if millis < 0 then none else some (.ofMicros (millis.toNat * 1000))
  | .usleep micros | .sleep micros => some (.ofMicros micros)
  | _ => none

/-- A request that a program can make: it binds the unit to no other process. -/
def Action.Confined : Action → Prop
  | .activate _ | .deactivate => False
  | _ => True

instance : (request : Action) → Decidable request.Confined
  | .activate _ | .deactivate => inferInstanceAs (Decidable False)
  | .yield | .schedYield | .delayMillis _ | .delayMicros _ | .usleep _ | .memMap .. | .memUnmap _
  | .exit _ | .uptime | .enter | .yieldNow | .sleep _ | .exitCode | .active | .setResume _
  | .resumePoint | .pid | .mapped | .read .. | .write .. | .describe =>
    inferInstanceAs (Decidable True)

theorem ExecUnit.active?_of_bound {u : ExecUnit} {pid : Pid} (bound : u.bound = pid)
    (nonzero : pid ≠ 0) : u.active? = some pid := by
  rw [active?, bound, if_neg nonzero]

namespace Context

variable {σ : Type}

def on (c : Context σ) (u : ExecUnit) : Context σ := { c with unit := u }

/-- The context of a task that others leave this unit to when its suspension is over. -/
def backOn (c : Context σ) (u : ExecUnit) : Context σ := { c with others := fun _ => u }

variable [Allocator σ]

theorem pid_perform (c : Context σ) (request : Action) : (c.perform request).2.pid = c.pid :=
  (c.perform_reaches request).pid

/-- A suspension binds the unit again when it returns, whatever has become of it. -/
theorem bound_of_suspension {request : Action} {how : Suspension}
    (suspends : request.suspension? = some how) (c : Context σ) :
    (c.perform request).2.unit.bound = c.pid := by
  cases request with
  | delayMillis millis =>
    by_cases negative : millis < 0
    · simp [Action.suspension?, negative] at suspends
    · simp [perform, negative, suspend, enter, note, pid, ExecUnit.activate]
  | yield | schedYield | yieldNow | usleep micros | sleep micros => rfl
  | _ => cases suspends

theorem unit_memMap (c : Context σ) (length align : Word) (executable : Bool) :
    (c.memMap length align executable).2.unit = c.unit := by
  unfold memMap
  split <;> rfl

theorem unit_memUnmap (c : Context σ) (base : Word) : (c.memUnmap base).unit = c.unit := by
  unfold memUnmap
  split <;> rfl

omit [Allocator σ] in
theorem unit_exit (c : Context σ) (code : Int32) : (c.exit code).unit = c.unit := by
  unfold exit
  simp only
  split <;> rfl

theorem unit_write (c : Context σ) (at_ : Operand) (bytes : Bytes) :
    (c.perform (.write at_ bytes)).2.unit = c.unit := by
  simp only [perform]
  split <;> rfl

theorem unit_of_no_suspension {request : Action} (stays : request.suspension? = none)
    (confined : request.Confined) (c : Context σ) :
    (c.perform request).2.unit = c.unit ∨ (c.perform request).2.unit.bound = c.pid := by
  cases request with
  | activate pid | deactivate => exact confined.elim
  | yield | schedYield | yieldNow | usleep micros | sleep micros => cases stays
  | enter => exact Or.inr rfl
  | delayMillis millis =>
    by_cases negative : millis < 0
    · exact Or.inl (by simp [perform, negative])
    · simp [Action.suspension?, negative] at stays
  | memMap length align executable => exact Or.inl (c.unit_memMap length align executable)
  | memUnmap at_ => exact Or.inl (c.unit_memUnmap _)
  | exit code => exact Or.inl (c.unit_exit code)
  | write at_ bytes => exact Or.inl (c.unit_write at_ bytes)
  | _ => exact Or.inl rfl

theorem bound_perform {request : Action} (confined : request.Confined) {c : Context σ}
    (bound : c.unit.bound = c.pid) : (c.perform request).2.unit.bound = c.pid := by
  cases suspends : request.suspension? with
  | some how => exact bound_of_suspension suspends c
  | none =>
    rcases unit_of_no_suspension suspends confined c with same | own
    · rw [same, bound]
    · exact own

theorem bound_run {actions : List Action} (confined : ∀ a ∈ actions, a.Confined) {c : Context σ}
    (bound : c.unit.bound = c.pid) : (c.run actions).unit.bound = c.pid := by
  induction actions generalizing c with
  | nil => exact bound
  | cons action rest ih =>
    have first := bound_perform (confined action List.mem_cons_self) bound
    have own := c.pid_perform action
    rw [← own] at first ⊢
    exact ih (fun a ha => confined a (List.mem_cons_of_mem action ha)) first

end Context

/-- Where a task on a shared unit is. -/
inductive Turn (σ : Type) where
  | outside (c : Context σ)
  /-- Control is in its program. -/
  | inside (c : Context σ)
  /-- Suspended in the middle of a request. -/
  | away (c : Context σ) (request : Action)
  | ended (pid : Pid)

namespace Turn

variable {σ : Type}

def pid : Turn σ → Pid
  | .outside c | .inside c | .away c _ => c.pid
  | .ended pid => pid

def isInside : Turn σ → Bool
  | .inside _ => true
  | .outside _ | .away .. | .ended _ => false

def isUnderWay : Turn σ → Bool
  | .inside _ | .away .. => true
  | .outside _ | .ended _ => false

end Turn

/-- An execution unit and the tasks that share it. -/
structure Sharing (σ : Type) where
  unit : ExecUnit
  turns : List (Turn σ)

namespace Sharing

variable {σ : Type} {w : Sharing σ}

def Vacant (w : Sharing σ) : Prop := ∀ turn ∈ w.turns, turn.isInside = false

structure Bound (w : Sharing σ) : Prop where
  named : 0 ∉ w.turns.map Turn.pid
  distinct : (w.turns.map Turn.pid).Nodup
  bound : ∀ {i : ℕ} {c}, w.turns[i]? = some (.inside c) → w.unit.bound = c.pid
  /-- Control is in one program at most. -/
  alone : ∀ {i j : ℕ} {c d}, w.turns[i]? = some (.inside c) → w.turns[j]? = some (.inside d) → i = j
  /-- A task is away only in a request that suspends it. -/
  waits : ∀ {i : ℕ} {c request}, w.turns[i]? = some (.away c request) →
    ∃ how, request.suspension? = some how
  idle : (∀ turn ∈ w.turns, turn.isUnderWay = false) → w.unit = .idle

theorem Vacant.sole (vacant : w.Vacant) {i j : ℕ} {d : Context σ}
    (at_j : w.turns[j]? = some (.inside d)) : j = i := by
  cases vacant _ (List.mem_of_getElem? at_j)

theorem Bound.start : Bound (⟨.idle, []⟩ : Sharing σ) where
  named := List.not_mem_nil
  distinct := List.nodup_nil
  bound at_i := by simp at at_i
  alone at_i := by simp at at_i
  waits at_i := by simp at at_i
  idle _ := rfl

/-- One task goes somewhere else while control is in no other one's program, and leaves the unit
bound as it should be there. -/
structure Moves (w : Sharing σ) (i : ℕ) (turn later : Turn σ) (unit : ExecUnit) : Prop where
  at_i : w.turns[i]? = some turn
  same : later.pid = turn.pid
  sole : ∀ {j : ℕ} {d}, w.turns[j]? = some (.inside d) → j = i
  binds : ∀ {c}, later = .inside c → unit.bound = c.pid
  waits : ∀ {c request}, later = .away c request → ∃ how, request.suspension? = some how
  idle : later.isUnderWay = false → unit = .idle

theorem Moves.into {i : ℕ} {turn : Turn σ} {c : Context σ} (at_i : w.turns[i]? = some turn)
    (same : c.pid = turn.pid) (sole : ∀ {j : ℕ} {d}, w.turns[j]? = some (.inside d) → j = i)
    (binds : c.unit.bound = c.pid) : w.Moves i turn (.inside c) c.unit where
  at_i := at_i
  same := same
  sole := sole
  binds eq := by
    cases eq
    exact binds
  waits := nofun
  idle := nofun

namespace Moves

variable {i : ℕ} {turn later : Turn σ} {unit : ExecUnit}

theorem pids (m : w.Moves i turn later unit) :
    (w.turns.set i later).map Turn.pid = w.turns.map Turn.pid := by
  refine List.ext_getElem? fun j => ?_
  rw [List.getElem?_map, List.getElem?_map, List.getElem?_set]
  split
  · rename_i here
    obtain ⟨lt, -⟩ := List.getElem?_eq_some_iff.mp m.at_i
    rw [if_pos lt, ← here, m.at_i, Option.map_some, Option.map_some, m.same]
  · rfl

theorem bound (m : w.Moves i turn later unit) (b : w.Bound) :
    Bound ⟨unit, w.turns.set i later⟩ where
  named := by
    rw [m.pids]
    exact b.named
  distinct := by
    rw [m.pids]
    exact b.distinct
  bound at_j := by
    rcases getElem?_set_cases at_j with ⟨-, eq⟩ | ⟨ne, at_j⟩
    · exact m.binds eq.symm
    · exact absurd (m.sole at_j) ne
  alone at_j at_k := by
    have here {j : ℕ} {d} (at_j : (w.turns.set i later)[j]? = some (.inside d)) : j = i := by
      rcases getElem?_set_cases at_j with ⟨eq, -⟩ | ⟨-, at_j⟩
      · exact eq
      · exact m.sole at_j
    rw [here at_j, here at_k]
  waits at_j := by
    rcases getElem?_set_cases at_j with ⟨-, eq⟩ | ⟨-, at_j⟩
    · exact m.waits eq.symm
    · exact b.waits at_j
  idle none := by
    obtain ⟨lt, -⟩ := List.getElem?_eq_some_iff.mp m.at_i
    exact m.idle (none later (List.mem_set lt later))

end Moves

theorem inside_of_arrive {i : ℕ} {c d : Context σ}
    (at_i : (w.turns ++ [.outside c])[i]? = some (.inside d)) : w.turns[i]? = some (.inside d) := by
  rcases getElem?_concat_cases at_i with at_i | ⟨-, eq⟩
  · exact at_i
  · cases eq

theorem Bound.arrive (b : w.Bound) {c : Context σ} (named : c.pid ≠ 0)
    (fresh : c.pid ∉ w.turns.map Turn.pid) :
    Bound { w with turns := w.turns ++ [.outside c] } where
  named := by
    rw [List.map_append, List.mem_append, List.map_singleton, List.mem_singleton]
    rintro (old | new)
    · exact b.named old
    · exact named new.symm
  distinct := by
    rw [List.map_append, List.map_singleton, ← List.concat_eq_append]
    exact b.distinct.concat fresh
  bound at_i := b.bound (inside_of_arrive at_i)
  alone at_i at_j := b.alone (inside_of_arrive at_i) (inside_of_arrive at_j)
  waits at_i := by
    rcases getElem?_concat_cases at_i with at_i | ⟨-, eq⟩
    · exact b.waits at_i
    · cases eq
  idle none := b.idle fun turn mem => none turn (List.mem_append_left _ mem)

/-- Control is in one program; the unit is bound to its process, and all other tasks are another
process's and elsewhere. -/
structure InControl (w : Sharing σ) (i : ℕ) (pid : Pid) : Prop where
  active : w.unit.active? = some pid
  others : ∀ (j : ℕ) turn, w.turns[j]? = some turn → j ≠ i → turn.pid ≠ pid ∧ turn.isInside = false

theorem Bound.nonzero (b : w.Bound) {i : ℕ} {turn : Turn σ} (at_i : w.turns[i]? = some turn) :
    turn.pid ≠ 0 := by
  intro none
  exact b.named (none ▸ List.mem_map_of_mem (List.mem_of_getElem? at_i))

theorem Bound.inControl (b : w.Bound) {i : ℕ} {c : Context σ}
    (at_i : w.turns[i]? = some (.inside c)) : w.InControl i c.pid where
  active := ExecUnit.active?_of_bound (b.bound at_i) (b.nonzero at_i)
  others := by
    intro j turn at_j ne
    refine ⟨fun same => ne ?_, ?_⟩
    · have first : (w.turns.map Turn.pid)[i]? = some c.pid := by
        rw [List.getElem?_map, at_i]
        rfl
      have second : (w.turns.map Turn.pid)[j]? = some c.pid := by
        rw [List.getElem?_map, at_j, ← same]
        rfl
      have lt := (List.getElem?_eq_some_iff.mp second).1
      exact (List.getElem?_inj lt b.distinct).mp (second.trans first.symm)
    · cases turn with
      | inside d => exact absurd (b.alone at_j at_i) ne
      | outside d | away d request | ended pid => rfl

variable [Allocator σ] {next : Sharing σ}

/-- One task takes a step. Only a task that is outside or away waits for the unit; one inside goes
on until its request suspends it, or until it ends. -/
inductive Step : Sharing σ → Sharing σ → Prop where
  | arrive (w : Sharing σ) (c) (named : c.pid ≠ 0) (fresh : c.pid ∉ w.turns.map Turn.pid) :
      Step w { w with turns := w.turns ++ [.outside c] }
  | enter {w : Sharing σ} {i c} (vacant : w.Vacant) (at_i : w.turns[i]? = some (.outside c)) :
      Step w ⟨(c.on w.unit).enter.unit, w.turns.set i (.inside (c.on w.unit).enter)⟩
  | answer {w : Sharing σ} {i c reply after} (request) (at_i : w.turns[i]? = some (.inside c))
      (confined : request.Confined) (stays : request.suspension? = none)
      (answered : (c.on w.unit).perform request = (reply, after)) :
      Step w ⟨after.unit, w.turns.set i (.inside (after.note (.performed request reply)))⟩
  | suspend {w : Sharing σ} {i c how} (request) (at_i : w.turns[i]? = some (.inside c))
      (suspends : request.suspension? = some how) :
      Step w { w with turns := w.turns.set i (.away (c.on w.unit) request) }
  /-- The rest of the request is done with the unit as the others have left it. -/
  | return_ {w : Sharing σ} {i c request how reply after} (vacant : w.Vacant)
      (at_i : w.turns[i]? = some (.away c request)) (suspends : request.suspension? = some how)
      (answered : (c.backOn w.unit).perform request = (reply, after)) :
      Step w ⟨after.unit, w.turns.set i (.inside (after.note (.performed request reply)))⟩
  | leave {w : Sharing σ} {i c} (at_i : w.turns[i]? = some (.inside c)) :
      Step w ⟨(c.on w.unit).unit.deactivate, w.turns.set i (.ended c.pid)⟩

inductive Reachable : Sharing σ → Prop where
  | start : Reachable ⟨.idle, []⟩
  | step {w next : Sharing σ} (before : Reachable w) (step : Step w next) : Reachable next

theorem Moves.back (vacant : w.Vacant) {i : ℕ} {c : Context σ} {request : Action}
    {how : Suspension} {reply : Reply} {after : Context σ}
    (at_i : w.turns[i]? = some (.away c request)) (suspends : request.suspension? = some how)
    (answered : (c.backOn w.unit).perform request = (reply, after)) :
    w.Moves i (.away c request) (.inside (after.note (.performed request reply))) after.unit := by
  have own := (c.backOn w.unit).pid_perform request
  have bound := Context.bound_of_suspension suspends (c.backOn w.unit)
  rw [answered] at own bound
  exact .into at_i own vacant.sole (bound.trans own.symm)

theorem Bound.step_cases (b : w.Bound) (s : Step w next) :
    (∃ c, c.pid ≠ 0 ∧ c.pid ∉ w.turns.map Turn.pid ∧
      next = { w with turns := w.turns ++ [.outside c] }) ∨
    ∃ i turn later unit, w.Moves i turn later unit ∧ next = ⟨unit, w.turns.set i later⟩ := by
  cases s with
  | arrive c named fresh => exact Or.inl ⟨c, named, fresh, rfl⟩
  | @enter i c vacant at_i =>
    exact Or.inr ⟨i, _, .inside (c.on w.unit).enter, _, .into at_i rfl vacant.sole rfl, rfl⟩
  | @answer i c reply after request at_i confined stays answered =>
    have before : (c.on w.unit).unit.bound = (c.on w.unit).pid := b.bound (c := c) at_i
    have own := (c.on w.unit).pid_perform request
    have bound := Context.bound_perform confined before
    rw [answered] at own bound
    have alone {j : ℕ} {d} (at_j : w.turns[j]? = some (.inside d)) := b.alone at_j at_i
    refine Or.inr ⟨i, .inside c, .inside (after.note (.performed request reply)), _, ?_, rfl⟩
    exact .into at_i own alone (bound.trans own.symm)
  | @suspend i c how request at_i suspends =>
    refine Or.inr ⟨i, .inside c, .away (c.on w.unit) request, w.unit, ?_, rfl⟩
    refine ⟨at_i, rfl, (b.alone · at_i), nofun, ?_, nofun⟩
    intro d other eq
    cases eq
    exact ⟨how, suspends⟩
  | return_ vacant at_i suspends answered =>
    exact Or.inr ⟨_, _, _, _, .back vacant at_i suspends answered, rfl⟩
  | @leave i c at_i =>
    refine Or.inr ⟨i, .inside c, .ended c.pid, .idle, ?_, rfl⟩
    exact ⟨at_i, rfl, (b.alone · at_i), nofun, nofun, fun _ => rfl⟩

theorem Bound.step (b : w.Bound) (s : Step w next) : next.Bound := by
  rcases b.step_cases s with ⟨c, named, fresh, rfl⟩ | ⟨i, turn, later, unit, m, rfl⟩
  · exact b.arrive named fresh
  · exact m.bound b

theorem Bound.pids_step (b : w.Bound) (s : Step w next) :
    ∃ new, next.turns.map Turn.pid = w.turns.map Turn.pid ++ new := by
  rcases b.step_cases s with ⟨c, -, -, rfl⟩ | ⟨i, turn, later, unit, m, rfl⟩
  · exact ⟨[c.pid], List.map_append⟩
  · exact ⟨[], m.pids.trans (List.append_nil _).symm⟩

theorem Bound.comes_back (b : w.Bound) (vacant : w.Vacant) {i : ℕ} {c : Context σ}
    {request : Action} (at_i : w.turns[i]? = some (.away c request)) :
    ∃ next d, w.Step next ∧ next.turns[i]? = some (.inside d) ∧ d.pid = c.pid ∧
      next.InControl i c.pid := by
  obtain ⟨how, suspends⟩ := b.waits at_i
  obtain ⟨lt, -⟩ := List.getElem?_eq_some_iff.mp at_i
  obtain ⟨reply, after, answered⟩ : ∃ reply after, (c.backOn w.unit).perform request =
    (reply, after) := ⟨_, _, rfl⟩
  have moves := Moves.back vacant at_i suspends answered
  have inside :=
    List.getElem?_set_self (a := Turn.inside (after.note (.performed request reply))) lt
  have control := (moves.bound b).inControl inside
  rw [show (after.note (.performed request reply)).pid = c.pid from moves.same] at control
  exact ⟨_, _, .return_ vacant at_i suspends answered, inside, moves.same, control⟩

theorem Reachable.bound (r : w.Reachable) : w.Bound := by
  induction r with
  | start => exact .start
  | step _ s ih => exact ih.step s

end Sharing

namespace Host

variable {σ γ : Type} [Allocator σ]

def entered (h : Host σ γ) (t : Task) (l : Linkage (Audited σ)) : Context (Audited σ) :=
  { h.contextOf l.arena t.entry with arena := l.arena.setResume h.resumePoint }

theorem runTask_eq {h : Host σ γ} {t : Task} {l : Linkage (Audited σ)}
    (found : h.linkage? t.space = some l) :
    let c := (h.entered t l).run (h.programs t.pid).actions
    let active := (h.contextOf l.arena t.entry).unit.active?
    let told := (h.note (.resumePointAsked t.pid active)).note
      (.executing t.pid active (some h.resumePoint) t.entry t.argv t.envp)
    h.runTask t = (told.leave t.space c).retire t
      (exitReason c.exitCode (h.programs t.pid).result) := by
  intro c active told
  unfold runTask
  rw [found]
  rfl

theorem runTask_eq_entered {h : Host σ γ} {t : Task} {l : Linkage (Audited σ)}
    (found : h.linkage? t.space = some l) (nonzero : l.arena.pid ≠ 0) :
    let c := (h.entered t l).run (h.programs t.pid).actions
    let told := (h.note (.resumePointAsked t.pid (some l.arena.pid))).note
      (.executing t.pid (some l.arena.pid) (some h.resumePoint) t.entry t.argv t.envp)
    h.runTask t = (told.leave t.space c).retire t
      (exitReason c.exitCode (h.programs t.pid).result) := by
  intro c told
  have active : (h.contextOf l.arena t.entry).unit.active? = some l.arena.pid :=
    ExecUnit.active?_of_bound rfl nonzero
  rw [runTask_eq found, active]

theorem unit_removeRecord (h : Host σ γ) (pid : Pid) : (h.removeRecord pid).unit = h.unit := by
  unfold removeRecord
  split <;> rfl

theorem unit_runTask {h : Host σ γ} {t : Task} {l : Linkage (Audited σ)}
    (found : h.linkage? t.space = some l) (shared : h.spawner.shared = true) :
    (h.runTask t).unit = .idle := by
  unfold runTask
  rw [found]
  simp only
  split <;> exact (unit_removeRecord _ _).trans (if_pos shared)

end Host

namespace Sharing

variable {σ γ : Type} [Allocator σ] {w : Sharing σ}

/-- Tasks of different processes share a unit, and each gives it up only in a suspension or by
ending. In whatever order they come, whenever control is in a program the unit is bound to its
process and control is in no other one's. That goes for any request of the program, whatever the
others do to the unit in a suspension, and a task that is away comes back to it. With no task
under way no process is active. The host runs each of its tasks in this way: its process is active
when the executor is told of it and before and after each of its requests. -/
theorem unit_bound_to_program_in_control (r : w.Reachable) :
    (∀ (i : ℕ) c, w.turns[i]? = some (.inside c) → w.InControl i c.pid ∧
      ∀ (request : Action) others, request.Confined →
        let after := ({ c.on w.unit with others }.perform request).2
        after.pid = c.pid ∧ after.unit.active? = some c.pid) ∧
    (∀ (i : ℕ) c request, w.Vacant → w.turns[i]? = some (.away c request) →
      ∃ next d, w.Step next ∧ next.turns[i]? = some (.inside d) ∧ d.pid = c.pid ∧
        next.InControl i c.pid) ∧
    ((∀ turn ∈ w.turns, turn.isUnderWay = false) → w.unit.active? = none) ∧
    (∀ next, w.Step next → ∃ new, next.turns.map Turn.pid = w.turns.map Turn.pid ++ new) ∧
    ∀ (h : Host σ γ) t l, h.linkage? t.space = some l →
      (l.arena.pid ≠ 0 →
        let c := (h.entered t l).run (h.programs t.pid).actions
        let told := (h.note (.resumePointAsked t.pid (some l.arena.pid))).note
          (.executing t.pid (some l.arena.pid) (some h.resumePoint) t.entry t.argv t.envp)
        h.runTask t = (told.leave t.space c).retire t
          (Host.exitReason c.exitCode (h.programs t.pid).result) ∧
        ((∀ a ∈ (h.programs t.pid).actions, a.Confined) →
          ∀ before rest, (h.programs t.pid).actions = before ++ rest →
            ((h.entered t l).run before).unit.active? = some l.arena.pid)) ∧
      (h.spawner.shared = true → (h.runTask t).unit.active? = none) := by
  have b := r.bound
  refine ⟨?_, ?_, ?_, fun _ s => b.pids_step s, ?_⟩
  · intro i c at_i
    have control := b.inControl at_i
    refine ⟨control, ?_⟩
    intro request others confined after
    have bound : after.unit.bound = c.pid :=
      Context.bound_perform (c := { c.on w.unit with others }) confined
        (b.bound (c := c) at_i)
    exact ⟨Context.pid_perform _ request, ExecUnit.active?_of_bound bound (b.nonzero at_i)⟩
  · intro i c request vacant at_i
    exact b.comes_back vacant at_i
  · intro none
    rw [b.idle none]
    rfl
  · intro h t l found
    refine ⟨?_, ?_⟩
    · intro nonzero c told
      refine ⟨Host.runTask_eq_entered found nonzero, ?_⟩
      intro confined before rest split
      -- a confined request leaves the unit bound to its own process, so all of them together do
      refine ExecUnit.active?_of_bound ?_ nonzero
      refine Context.bound_run (c := h.entered t l) ?_ rfl
      intro a ha
      exact confined a (split ▸ List.mem_append_left rest ha)
    · intro shared
      rw [Host.unit_runTask found shared]
      rfl

/-- One of two tasks ends while the other is asleep, which then has the unit to itself. -/
theorem second_task_back_after_first_ended :
    let heap : HostHeap := .empty none fun n _ => 0x10000 * UInt64.ofNat (n + 1)
    let task (pid : Pid) : Context HostHeap :=
      ⟨.empty pid heap, .idle, fun unit => unit, true, none, 0, [], []⟩
    ∃ w : Sharing HostHeap, w.Reachable ∧ w.turns.map Turn.pid = [(task 1).pid, (task 2).pid] ∧
      w.turns.map Turn.isUnderWay = [false, true] ∧ w.InControl 1 2 ∧
      ∃ last, w.Step last ∧ last.turns.map Turn.isUnderWay = [false, false] ∧
        last.unit.active? = none := by
  intro heap task
  have vacant (w : Sharing HostHeap) : (∀ turn ∈ w.turns, turn.isInside = false) → w.Vacant := id
  have one := (Reachable.start (σ := HostHeap)).step (.arrive _ (task 1) (by decide) (by decide))
  have both := one.step (.arrive _ (task 2) (by decide) (by decide))
  have first := both.step (.enter (i := 0) (vacant _ (by decide)) rfl)
  have away := first.step (.suspend (i := 0) .yield rfl rfl)
  have second := away.step (.enter (i := 1) (vacant _ (by decide)) rfl)
  have asleep := second.step (.suspend (i := 1) (.usleep 5) rfl rfl)
  have returned := asleep.step (.return_ (i := 0) (vacant _ (by decide)) rfl rfl rfl)
  have answered := returned.step (.answer (i := 0) (.delayMillis (-1)) rfl (by decide) rfl rfl)
  have left := answered.step (.leave (i := 0) rfl)
  have back := left.step (.return_ (i := 1) (vacant _ (by decide)) rfl rfl rfl)
  obtain ⟨inside, -⟩ := unit_bound_to_program_in_control (γ := SpacedStubs) back
  have ended := back.step (.leave (i := 1) rfl)
  obtain ⟨-, -, idle, -⟩ := unit_bound_to_program_in_control (γ := SpacedStubs) ended
  exact ⟨_, back, rfl, rfl, (inside 1 _ rfl).1, _, .leave rfl, rfl, idle (by decide)⟩

end Sharing

end AppHost
