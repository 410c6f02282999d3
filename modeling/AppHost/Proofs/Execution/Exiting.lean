import AppHost.Proofs.Execution.Confinement
import AppHost.Proofs.Memory.Bookkeeping
/-! Exits through the handles of a context. Handles share all but whether an exit through them has
somewhere to transfer control to. Whichever of them the requests come through, the first exit code
stays, and an exit transfers control at most once, to the point recorded last. -/
namespace AppHost

open Memory

namespace Action

def exit? : Action → Option Int32
  | .exit code => some code
  | _ => none

def point? : Action → Option ResumePoint
  | .setResume point => some point
  | _ => none

end Action

def firstCode (requests : List Action) : Option Int32 := requests.findSome? Action.exit?

def lastPoint (requests : List Action) : Option ResumePoint :=
  requests.reverse.findSome? Action.point?

theorem firstCode_cons (request : Action) (rest : List Action) :
    firstCode (request :: rest) = request.exit?.or (firstCode rest) := by
  rw [firstCode, List.findSome?_cons]
  cases request.exit? <;> rfl

theorem lastPoint_cons (request : Action) (rest : List Action) :
    lastPoint (request :: rest) = (lastPoint rest).or request.point? := by
  rw [lastPoint, List.reverse_cons, List.findSome?_append, List.findSome?_singleton]
  rfl

/-- Control handed to the point where a process continues, with its exit code. -/
structure Transfer where
  pid : Pid
  point : ResumePoint
  code : Int32
  deriving DecidableEq, Repr

def ContextEvent.transfer? : ContextEvent → Option Transfer
  | .resumed pid point code => some ⟨pid, point, code⟩
  | _ => none

namespace Context

variable {σ : Type}

def transfers (c : Context σ) : List Transfer := c.journal.filterMap ContextEvent.transfer?

theorem transfers_note (c : Context σ) (e : ContextEvent) :
    (c.note e).transfers = c.transfers ++ e.transfer?.toList := by
  rw [transfers, note, List.filterMap_append]
  cases made : e.transfer? <;> simp [made, transfers]

theorem exit_eq (c : Context σ) (code : Int32) :
    (c.exit code).exitCode = some (c.exitCode.getD code) ∧
      (c.exit code).resumable = c.resumable ∧
      (c.exit code).transfers = c.transfers ++
        match c.arena.resume, c.resumable with
        | some point, true => [⟨c.pid, point, c.exitCode.getD code⟩]
        | _, _ => [] := by
  unfold exit
  simp only
  cases c.arena.resume with
  | none => exact ⟨rfl, rfl, transfers_note _ _⟩
  | some point => cases c.resumable <;> exact ⟨rfl, rfl, transfers_note _ _⟩

/-- Nothing that exits depend on or leave behind has changed. -/
structure Undisturbed (c d : Context σ) : Prop where
  pid : d.pid = c.pid
  resumable : d.resumable = c.resumable
  exitCode : d.exitCode = c.exitCode
  point : d.arena.resume = c.arena.resume
  transfers : d.transfers = c.transfers

theorem Undisturbed.refl (c : Context σ) : c.Undisturbed c := ⟨rfl, rfl, rfl, rfl, rfl⟩

theorem Undisturbed.trans {c d e : Context σ} (h : c.Undisturbed d) (i : d.Undisturbed e) :
    c.Undisturbed e :=
  ⟨i.pid.trans h.pid, i.resumable.trans h.resumable, i.exitCode.trans h.exitCode,
    i.point.trans h.point, i.transfers.trans h.transfers⟩

theorem undisturbed_note (c : Context σ) {e : ContextEvent} (none : e.transfer? = none) :
    c.Undisturbed (c.note e) :=
  ⟨rfl, rfl, rfl, rfl, by rw [transfers_note, none]; exact List.append_nil _⟩

theorem undisturbed_suspend (c : Context σ) (how : Suspension) : c.Undisturbed (c.suspend how) :=
  (c.undisturbed_note (e := .suspended how) rfl).trans ⟨rfl, rfl, rfl, rfl, rfl⟩

theorem undisturbed_arena (c : Context σ) {arena : Arena σ} (pid : arena.pid = c.arena.pid)
    (point : arena.resume = c.arena.resume) : c.Undisturbed { c with arena } :=
  ⟨pid, rfl, rfl, point, rfl⟩

/-- What a request through a handle adds to the transfers. -/
inductive Transfers (c : Context σ) (target : Bool) : Action → List Transfer → Prop where
  | resumed {code point} (attached : target = true) (recorded : c.arena.resume = some point) :
      Transfers c target (.exit code) [⟨c.pid, point, c.exitCode.getD code⟩]
  | unattached {code} (detached : target = false) : Transfers c target (.exit code) []
  | unrecorded {code} (missing : c.arena.resume = none) : Transfers c target (.exit code) []
  | other {request} (no_exit : request.exit? = none) : Transfers c target request []

structure Passes (c : Context σ) (target : Bool) (request : Action) (d : Context σ) : Prop where
  pid : d.pid = c.pid
  resumable : d.resumable = target
  exitCode : d.exitCode = c.exitCode.or request.exit?
  point : d.arena.resume = request.point?.or c.arena.resume
  transfers : ∃ made, c.Transfers target request made ∧ d.transfers = c.transfers ++ made

theorem passes_exit (c : Context σ) (target : Bool) (code : Int32) :
    c.Passes target (.exit code) ({ c with resumable := target }.exit code) := by
  obtain ⟨exitCode, resumable, transfers⟩ := exit_eq { c with resumable := target } code
  have arena : ({ c with resumable := target }.exit code).arena = c.arena := arena_exit _ code
  refine ⟨congrArg Arena.pid arena, resumable, ?_, congrArg Arena.resume arena, ?_⟩
  · rw [exitCode]
    cases c.exitCode <;> rfl
  · simp only at transfers
    cases recorded : c.arena.resume with
    | none => exact ⟨[], .unrecorded recorded, by rw [transfers, recorded]; rfl⟩
    | some point =>
      cases target with
      | false => exact ⟨[], .unattached rfl, by rw [transfers, recorded]; rfl⟩
      | true => exact ⟨_, .resumed rfl recorded, by rw [transfers, recorded]; rfl⟩

variable [Allocator σ]

theorem undisturbed_memMap (c : Context σ) (length align : Word) (executable : Bool) :
    c.Undisturbed (c.memMap length align executable).2 := by
  unfold memMap
  rcases c.arena.map_cases length { Protection.readWrite with execute := executable } align with
    ⟨e, -, eq⟩ | ⟨plan, s, -, -, eq⟩ | ⟨plan, raw, s, -, -, eq⟩
  · rw [eq]
    exact undisturbed_note _ rfl
  · rw [eq]
    have kept : c.Undisturbed { c with arena := { c.arena with allocator := s } } :=
      c.undisturbed_arena rfl rfl
    exact kept.trans (undisturbed_note _ rfl)
  · rw [eq]
    exact ⟨rfl, rfl, rfl, rfl, rfl⟩

theorem undisturbed_memUnmap (c : Context σ) (base : Word) :
    c.Undisturbed (c.memUnmap base) := by
  unfold memUnmap
  split
  · rename_i arena unmapped
    have released : c.arena.release base = arena := by rw [Arena.release, unmapped]; rfl
    rcases c.arena.release_cases base with ⟨same, -⟩ | ⟨index, m, -, -, -, removed⟩
    · rw [← released, same]
      exact .refl c
    · rw [← released, removed]
      exact c.undisturbed_arena rfl rfl
  · exact c.undisturbed_note rfl

theorem undisturbed_perform (c : Context σ) {request : Action} (no_exit : request.exit? = none)
    (no_point : request.point? = none) : c.Undisturbed (c.perform request).2 := by
  cases request with
  | exit code => cases no_exit
  | setResume point => cases no_point
  | memMap length align executable => exact c.undisturbed_memMap length align executable
  | memUnmap at_ => exact c.undisturbed_memUnmap (c.address at_)
  | write at_ bytes =>
    simp only [perform]
    split
    · rename_i arena wrote
      rcases Arena.write_cases wrote with ⟨-, rfl⟩ | ⟨s, -, -, -, rfl⟩ <;>
        exact ⟨rfl, rfl, rfl, rfl, rfl⟩
    · exact .refl c
  | delayMillis millis =>
    simp only [perform]
    split
    · exact .refl c
    · exact c.undisturbed_suspend _
  | yield | schedYield | yieldNow | usleep micros | sleep micros => exact c.undisturbed_suspend _
  | _ => exact ⟨rfl, rfl, rfl, rfl, rfl⟩

def through (c : Context σ) (target : Bool) (request : Action) : Context σ :=
  let (reply, after) := { c with resumable := target }.perform request
  after.note (.performed request reply)

theorem passes_perform (c : Context σ) (target : Bool) (request : Action) :
    c.Passes target request ({ c with resumable := target }.perform request).2 := by
  have silent (no_exit : request.exit? = none) (no_point : request.point? = none) :
      c.Passes target request ({ c with resumable := target }.perform request).2 := by
    obtain ⟨pid, resumable, exitCode, point, transfers⟩ :=
      undisturbed_perform { c with resumable := target } no_exit no_point
    refine ⟨pid, resumable, ?_, ?_, [], .other no_exit, transfers.trans (List.append_nil _).symm⟩
    · rw [exitCode, no_exit, Option.or_none]
    · rw [point, no_point, Option.none_or]
  cases request with
  | exit code => exact c.passes_exit target code
  | setResume point =>
    exact ⟨rfl, rfl, (Option.or_none).symm, rfl, [], .other rfl, (List.append_nil _).symm⟩
  | _ => exact silent rfl rfl

theorem passes_through (c : Context σ) (target : Bool) (request : Action) :
    c.Passes target request (c.through target request) := by
  obtain ⟨pid, resumable, exitCode, point, made, due, transfers⟩ :=
    c.passes_perform target request
  refine ⟨pid, resumable, exitCode, point, made, due, ?_⟩
  exact (undisturbed_note (e := .performed request _) _ rfl).transfers.trans transfers

theorem run_cons (c : Context σ) (request : Action) (rest : List Action) :
    c.run (request :: rest) = (c.through c.resumable request).run rest := rfl

end Context

/-- A context with the handles on it: for each, whether an exit through it has somewhere to transfer
control to. They share all else. -/
structure Handles (σ : Type) where
  shared : Context σ
  targets : List Bool

inductive Use where
  | clone (i : ℕ)
  /-- Gives a handle somewhere to transfer control to. -/
  | attach (i : ℕ)
  | call (i : ℕ) (request : Action)
  deriving DecidableEq, Repr

def Use.request? : Use → Option Action
  | .call _ request => some request
  | _ => none

def requests (uses : List Use) : List Action := uses.filterMap Use.request?

namespace Handles

variable {σ : Type} [Allocator σ] {h k l : Handles σ} {u : Use} {uses first second : List Use}

/-- A handle is cloned with what it has; it stays with whoever holds it. -/
inductive Step (h : Handles σ) : Use → Handles σ → Prop where
  | clone {i target} (held : h.targets[i]? = some target) :
      Step h (.clone i) { h with targets := h.targets ++ [target] }
  | attach {i target} (held : h.targets[i]? = some target) :
      Step h (.attach i) { h with targets := h.targets.set i true }
  | call {i target request} (held : h.targets[i]? = some target) :
      Step h (.call i request) { h with shared := h.shared.through target request }

inductive Run : Handles σ → List Use → Handles σ → Prop where
  | nil (h : Handles σ) : Run h [] h
  | cons {h k l : Handles σ} {u uses} (step : Step h u k) (rest : Run k uses l) :
      Run h (u :: uses) l

theorem Run.append_iff : h.Run (first ++ second) l ↔ ∃ k, h.Run first k ∧ k.Run second l := by
  induction first generalizing h with
  | nil =>
    constructor
    · intro run
      exact ⟨h, .nil h, run⟩
    · rintro ⟨k, nothing, run⟩
      cases nothing
      exact run
  | cons u rest ih =>
    constructor
    · intro run
      cases run with
      | cons step run =>
        obtain ⟨k, before, after⟩ := ih.mp run
        exact ⟨k, .cons step before, after⟩
    · rintro ⟨k, before, after⟩
      cases before with
      | cons step before => exact .cons step (ih.mpr ⟨k, before, after⟩)

theorem Run.shared (run : h.Run uses k) : k.shared.pid = h.shared.pid ∧
    k.shared.exitCode = h.shared.exitCode.or (firstCode (requests uses)) ∧
    k.shared.arena.resume = (lastPoint (requests uses)).or h.shared.arena.resume := by
  induction run with
  | nil h => exact ⟨rfl, Option.or_none.symm, rfl⟩
  | @cons h m k u uses step rest ih =>
    obtain ⟨pid, exitCode, point⟩ := ih
    cases step with
    | clone held => exact ⟨pid, exitCode, point⟩
    | attach held => exact ⟨pid, exitCode, point⟩
    | @call i target request held =>
      have passes := h.shared.passes_through target request
      change _ ∧ _ = _ ∧ _ = _
      refine ⟨pid.trans passes.pid, ?_, ?_⟩
      · calc k.shared.exitCode
            = (h.shared.exitCode.or request.exit?).or (firstCode (requests uses)) := by
              rw [exitCode, passes.exitCode]
          _ = h.shared.exitCode.or (firstCode (request :: requests uses)) := by
              rw [firstCode_cons, Option.or_assoc]
      · calc k.shared.arena.resume
            = (lastPoint (requests uses)).or (request.point?.or h.shared.arena.resume) := by
              rw [point, passes.point]
          _ = (lastPoint (request :: requests uses)).or h.shared.arena.resume := by
              rw [lastPoint_cons, Option.or_assoc]

/-- The transfers due for a use, by the requests that were made before it. -/
inductive Due (h : Handles σ) (before : List Action) (targets : List Bool) :
    Use → List Transfer → Prop where
  | resumed {i code point} (attached : targets[i]? = some true)
      (recorded : (lastPoint before).or h.shared.arena.resume = some point) :
      Due h before targets (.call i (.exit code))
        [⟨h.shared.pid, point, (firstCode before).getD code⟩]
  | unattached {i code} (detached : targets[i]? = some false) :
      Due h before targets (.call i (.exit code)) []
  | unrecorded {i code} (missing : (lastPoint before).or h.shared.arena.resume = none) :
      Due h before targets (.call i (.exit code)) []
  | other {use : Use} (no_exit : use.request?.bind Action.exit? = none) :
      Due h before targets use []

theorem Run.due (run : h.Run uses k) (running : h.shared.exitCode = none) (step : k.Step u l) :
    ∃ made, h.Due (requests uses) k.targets u made ∧
      l.shared.transfers = k.shared.transfers ++ made := by
  obtain ⟨pid, exitCode, point⟩ := run.shared
  rw [running, Option.none_or] at exitCode
  cases step with
  | clone held => exact ⟨[], .other rfl, (List.append_nil _).symm⟩
  | attach held => exact ⟨[], .other rfl, (List.append_nil _).symm⟩
  | @call i target request held =>
    obtain ⟨-, -, -, -, made, passed, transfers⟩ := k.shared.passes_through target request
    refine ⟨made, ?_, transfers⟩
    cases passed with
    | resumed attached recorded =>
      rw [pid, exitCode]
      exact .resumed (attached ▸ held) (point ▸ recorded)
    | unattached detached => exact .unattached (detached ▸ held)
    | unrecorded missing => exact .unrecorded (point ▸ missing)
    | other no_exit => exact .other no_exit

/-- Handles that all have somewhere to transfer control to are as good as one. -/
theorem Run.attached (run : h.Run uses k) (all : ∀ target ∈ h.targets, target = true)
    (resumable : h.shared.resumable = true) :
    k.shared = h.shared.run (requests uses) := by
  induction run with
  | nil h => rfl
  | @cons h m k u uses step rest ih =>
    cases step with
    | clone held =>
      refine ih (fun target mem => ?_) resumable
      rcases List.mem_append.mp mem with mem | mem
      · exact all target mem
      · rw [List.mem_singleton.mp mem]
        exact all _ (List.mem_of_getElem? held)
    | attach held =>
      refine ih (fun target mem => ?_) resumable
      rcases List.mem_or_eq_of_mem_set mem with mem | rfl
      · exact all target mem
      · rfl
    | @call i target request held =>
      obtain rfl := all target (List.mem_of_getElem? held)
      rw [ih all (h.shared.passes_through true request).resumable]
      change _ = h.shared.run (request :: requests uses)
      rw [Context.run_cons, resumable]

theorem run_calls (c : Context σ) (resumable : c.resumable = true) (actions : List Action) :
    Run ⟨c, [true]⟩ (actions.map (.call 0)) ⟨c.run actions, [true]⟩ := by
  induction actions generalizing c with
  | nil => exact .nil _
  | cons request rest ih =>
    rw [Context.run_cons, resumable]
    exact .cons (.call rfl) (ih _ (c.passes_through true request).resumable)

theorem requests_calls (actions : List Action) :
    requests (actions.map (.call 0)) = actions := by
  induction actions with
  | nil => rfl
  | cons request rest ih => exact congrArg (request :: ·) ih

end Handles

end AppHost
