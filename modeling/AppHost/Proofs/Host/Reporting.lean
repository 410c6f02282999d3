import AppHost.Proofs.Execution.Exiting
import AppHost.Proofs.Host.Sharing
/-! What a host reports of a program that has ended: its first exit code, through whatever handle on
its context it was given, or else what its entry function returned. -/
namespace AppHost

open Memory

namespace Host

variable {σ γ : Type} [Allocator σ]

def farewell (h : Host σ γ) (t : Task) (reason : ExitReason) : List HostEvent :=
  .ended t.pid reason.code :: if t.hook then [.hookRan t.pid reason h.live] else []

theorem retire_journal (h : Host σ γ) (t : Task) (reason : ExitReason) :
    (h.retire t reason).journal =
      h.journal ++ (h.retire t reason).farewell t reason := by
  unfold retire farewell
  cases t.hook with
  | false => simp [note, removeRecord_journal, release]
  | true => simp [note, removeRecord_journal, release, live]

theorem runTask_journal {h : Host σ γ} {t : Task} {l : Linkage (Audited σ)}
    (found : h.linkage? t.space = some l) :
    let c := (h.entered t l).run (h.programs t.pid).actions
    let active := (h.contextOf l.arena t.entry).unit.active?
    (h.runTask t).journal = h.journal ++
      [.resumePointAsked t.pid active,
        .executing t.pid active (some h.resumePoint) t.entry t.argv t.envp] ++
      c.journal.map .context ++
      (h.runTask t).farewell t (exitReason c.exitCode (h.programs t.pid).result) := by
  intro c active
  rw [runTask_eq found, retire_journal]
  simp [leave, note, noteAll, c, active]

end Host

namespace Handles

variable {σ γ : Type} [Allocator σ]

/-- The first exit code stays, whichever handles requests come through. Each exit with somewhere to
transfer control to, once a point is recorded, transfers it once, to the point recorded last and
with the first code; no other use does. A host reports the first code of a task's program, or what
the program returned if it never exits, however the requests were spread over handles. -/
theorem first_exit_code_reported :
    (∀ (h k : Handles σ) uses, h.shared.exitCode = none → h.Run uses k →
      k.shared.exitCode = firstCode (requests uses) ∧
      ∀ before u after, uses = before ++ u :: after → ∃ m n made,
        h.Run before m ∧ m.Step u n ∧ n.Run after k ∧ h.Due (requests before) m.targets u made ∧
        n.shared.transfers = m.shared.transfers ++ made) ∧
    ∀ (h : Host σ γ) t l, h.linkage? t.space = some l →
      let c := h.entered t l
      let program := h.programs t.pid
      Run ⟨c, [true]⟩ (program.actions.map (.call 0)) ⟨c.run program.actions, [true]⟩ ∧
      requests (program.actions.map (.call 0)) = program.actions ∧
      ∀ uses k, Run ⟨c, [true]⟩ uses k → requests uses = program.actions → ∃ reason,
        (∀ first, firstCode (requests uses) = some first → reason = .exited first) ∧
        (firstCode (requests uses) = none → reason = .returned program.result) ∧
        let active := (h.contextOf l.arena t.entry).unit.active?
        (h.runTask t).journal = h.journal ++
          [.resumePointAsked t.pid active,
            .executing t.pid active (some h.resumePoint) t.entry t.argv t.envp] ++
          k.shared.journal.map .context ++ (h.runTask t).farewell t reason := by
  constructor
  · intro h k uses running run
    have code := run.shared.2.1
    rw [running, Option.none_or] at code
    refine ⟨code, ?_⟩
    rintro before u after rfl
    obtain ⟨m, first, rest⟩ := Run.append_iff.mp run
    cases rest with
    | @cons _ n _ _ _ step rest =>
      obtain ⟨made, due, transfers⟩ := first.due running step
      exact ⟨m, n, made, first, step, rest, due, transfers⟩
  · intro h t l found c program
    refine ⟨run_calls c rfl program.actions, requests_calls program.actions, ?_⟩
    intro uses k run made
    have shared : k.shared = c.run program.actions := by
      rw [← made]
      -- the one handle has somewhere to transfer control to, and so have all its clones
      exact run.attached (fun target mem => List.mem_singleton.mp mem) rfl
    have code : k.shared.exitCode = firstCode (requests uses) := run.shared.2.1
    refine ⟨Host.exitReason k.shared.exitCode program.result, ?_, ?_, ?_⟩
    · intro first exited
      rw [code, exited]
      rfl
    · intro never
      rw [code, never]
      rfl
    · rw [shared]
      exact Host.runTask_journal found

/-- A program that exits twice through clones of its context, each time past a new point. -/
theorem exits_through_clones :
    let object : DeclaredObject := ⟨[⟨0, 8, 0, [7], .readWrite⟩], [], [], some 0, [], none⟩
    let parts : Host.Parts HostHeap SpacedStubs :=
      { parser := fun _ => .ok object.toObject
        generator := none, code := 0, providers := [], files := .empty []
        allocator := .empty none fun n _ => 0x10000 * UInt64.ofNat (n + 1)
        spawner := ⟨.later, true, none⟩, resumePoint := ⟨0, 0⟩
        programs := fun _ => ⟨[.setResume ⟨1, 2⟩, .exit 7, .setResume ⟨3, 4⟩, .exit 9], 5⟩
        others := fun unit => unit }
    ∃ built : Host HostHeap SpacedStubs, Host.build .standard parts = .ok built ∧
      let bare : Host HostHeap SpacedStubs := { built with capabilities := .empty .direct }
      let h := (bare.launch (.handle "one" (.ok [])) true).2
      ∃ t taken l k, h.takePending? 0 = some (t, taken) ∧ taken.linkage? t.space = some l ∧
        Run ⟨taken.entered t l, [true]⟩ [.clone 0, .call 1 (.setResume ⟨1, 2⟩), .call 0 (.exit 7),
          .clone 1, .call 2 (.setResume ⟨3, 4⟩), .call 1 (.exit 9)] k ∧
        k.shared.exitCode = some 7 ∧
        k.shared.transfers = [⟨1, ⟨1, 2⟩, 7⟩, ⟨1, ⟨3, 4⟩, 7⟩] ∧
        (.hookRan 1 (.exited 7) (taken.runTask t).live) ∈ (taken.runTask t).journal := by
  intro object parts
  obtain ⟨built, done⟩ : ∃ built, Host.build .standard parts = .ok built := ⟨_, rfl⟩
  refine ⟨built, done, ?_⟩
  cases done
  intro bare h
  obtain ⟨⟨t, taken⟩, found⟩ := Option.isSome_iff_exists.mp
    (show (h.takePending? 0).isSome = true by decide)
  have task : ((h.takePending? 0).map fun x => (x.1.pid, x.1.hook)) = some (1, true) := by decide
  have program : ((h.takePending? 0).map fun x => (x.2.programs x.1.pid).actions) =
      some [.setResume ⟨1, 2⟩, .exit 7, .setResume ⟨3, 4⟩, .exit 9] := by decide
  have own : ((h.takePending? 0).bind fun x => (x.2.linkage? x.1.space).map (·.arena.pid)) =
      some 1 := by decide
  rw [found] at task program own
  simp only [Option.map_some, Option.some.injEq, Prod.mk.injEq] at task program
  obtain ⟨pid, hook⟩ := task
  obtain ⟨l, known, named⟩ := Option.map_eq_some_iff.mp own
  have run : Run ⟨taken.entered t l, [true]⟩ [.clone 0, .call 1 (.setResume ⟨1, 2⟩),
      .call 0 (.exit 7), .clone 1, .call 2 (.setResume ⟨3, 4⟩), .call 1 (.exit 9)] _ :=
    .cons (.clone rfl) (.cons (.call rfl) (.cons (.call rfl) (.cons (.clone rfl)
      (.cons (.call rfl) (.cons (.call rfl) (.nil _))))))
  obtain ⟨law, -⟩ := first_exit_code_reported (σ := Audited HostHeap) (γ := SpacedStubs)
  obtain ⟨-, report⟩ := first_exit_code_reported (σ := HostHeap) (γ := SpacedStubs)
  obtain ⟨code, -⟩ := law _ _ _ rfl run
  obtain ⟨-, -, reports⟩ := report taken t l known
  obtain ⟨reason, exited, -, journal⟩ := reports _ _ run program.symm
  obtain rfl := exited 7 rfl
  refine ⟨t, taken, l, _, found, known, run, code, ?_, ?_⟩
  · rw [← named]
    rfl
  · rw [journal]
    refine List.mem_append_right _ ?_
    rw [Host.farewell, hook, pid]
    exact List.mem_cons_of_mem _ List.mem_cons_self

end Handles

end AppHost
