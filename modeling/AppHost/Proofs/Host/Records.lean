import AppHost.Proofs.Host.Scheduling
/-! Records of processes under every schedule. A record is there from its insertion until its
launch is rolled back or its task torn down, whatever other launches and tasks do in between; and
an exit hook is called once, when the record is gone and all memory is back. -/
namespace AppHost.Host

open Memory
open Relation (ReflTransGen)

variable {σ γ : Type} [Allocator σ] {h after : Host σ γ} {id : ℕ} {pid : Pid} {t : Task}
  {stage later : Stage} {events : List RecordEvent}

theorem Move.table [CodeGenerator γ] (m : Move id h stage events after later)
    (housed : stage.Housed id) :
    (stage = .owned ∧ events = [.inserted (pidOf id)] ∧
      ∃ name, after.processes = h.processes.insert (pidOf id) ⟨name, id⟩) ∨
    (.record ∈ stage.holders ∧
      (events = [.rolledBack (pidOf id)] ∨ events = [.tornDown (pidOf id)]) ∧
      after.processes = h.processes.remove (pidOf id)) ∨
    (after.processes = h.processes ∧
      ∀ e ∈ events, e = .accepted (pidOf id) ∨
        stage.holders = [] ∧ ∃ reason, e = .hooked (pidOf id) reason) := by
  cases m with
  | launch name => exact Or.inl ⟨rfl, rfl, name, h.addRecord_processes _ _ _⟩
  | rollBack =>
    exact Or.inr (Or.inl ⟨by decide, Or.inl rfl, h.removeRecord_processes _⟩)
  | tearDown t reason =>
    rw [(housed t rfl).2]
    exact Or.inr (Or.inl ⟨by simp [Stage.holders], Or.inr rfl, h.removeRecord_processes _⟩)
  | export_ => exact Or.inr (Or.inr ⟨(h.exportInto_works id).processes, by simp⟩)
  | prepare done => exact Or.inr (Or.inr ⟨(works_of_phase done).processes, by simp⟩)
  | stop failed => exact Or.inr (Or.inr ⟨(works_of_phase failed).processes, by simp⟩)
  | enter found => exact Or.inr (Or.inr ⟨(takePending?_cases found).2.1, by simp⟩)
  | abandon found => exact Or.inr (Or.inr ⟨(takePending?_cases found).2.1, by simp⟩)
  | @accept entry hook found =>
    exact Or.inr (Or.inr ⟨h.processes_ready id (pidOf id) entry, by simp⟩)
  | refuse => exact Or.inr (Or.inr ⟨by rw [processes_dropTask, processes_ready], by simp⟩)
  | callHook reason =>
    rw [(housed _ rfl).2]
    exact Or.inr (Or.inr ⟨rfl, by simp [Stage.holders]⟩)
  | _ => exact Or.inr (Or.inr ⟨rfl, by simp⟩)

namespace World

variable {w next : World σ γ}

/-- There is a record exactly from its insertion until one of its two ends, and it holds the space
of its own process. -/
structure Recorded (w : World σ γ) (pid : Pid) : Prop where
  present : (w.host.processes.get? pid).isSome ↔
    .inserted pid ∈ w.trace ∧ .rolledBack pid ∉ w.trace ∧ .tornDown pid ∉ w.trace
  once : w.trace.count (.inserted pid) ≤ 1
  not_both : w.trace.count (.rolledBack pid) + w.trace.count (.tornDown pid) ≤
    w.trace.count (.inserted pid)
  own : ∀ r, w.host.processes.get? pid = some r → pid = pidOf r.arena

/-- What a step may do to the table, and when it may call a hook. -/
structure Exchange (w : World σ γ) (events : List RecordEvent) (next : World σ γ) : Prop where
  trace : next.trace = w.trace ++ events
  inserted : ∀ pid, .inserted pid ∈ events →
    w.host.processes.get? pid = none ∧ (next.host.processes.get? pid).isSome
  removed : ∀ pid, .rolledBack pid ∈ events ∨ .tornDown pid ∈ events →
    (w.host.processes.get? pid).isSome ∧ next.host.processes.get? pid = none
  kept : ∀ pid, .inserted pid ∉ events → .rolledBack pid ∉ events → .tornDown pid ∉ events →
    next.host.processes.get? pid = w.host.processes.get? pid
  hooked : ∀ pid reason, .hooked pid reason ∈ events → w.host.processes.get? pid = none ∧
    ∃ id s, pid = pidOf id ∧ w.host.spaces[id]? = some s ∧ s.Gone

namespace Exchange

variable {r : ProcessRecord ℕ}

theorem insert (trace : next.trace = w.trace ++ [.inserted pid])
    (absent : w.host.processes.get? pid = none)
    (inserted : next.host.processes = w.host.processes.insert pid r) :
    w.Exchange [.inserted pid] next where
  trace := trace
  inserted other mem := by
    cases List.mem_singleton.mp mem
    rw [inserted, ProcessTable.get?_insert, if_pos rfl]
    exact ⟨absent, rfl⟩
  removed other mem := by simp at mem
  kept other ne _ _ := by
    rw [inserted, ProcessTable.get?_insert, if_neg]
    intro eq
    exact ne (by rw [eq]; exact List.mem_singleton_self _)
  hooked other reason mem := by simp at mem

theorem remove (trace : next.trace = w.trace ++ events)
    (ended : events = [.rolledBack pid] ∨ events = [.tornDown pid])
    (present : (w.host.processes.get? pid).isSome)
    (removed : next.host.processes = w.host.processes.remove pid) : w.Exchange events next where
  trace := trace
  inserted other mem := by rcases ended with rfl | rfl <;> simp at mem
  removed other mem := by
    obtain rfl : other = pid := by rcases ended with rfl | rfl <;> simpa using mem
    rw [removed, ProcessTable.get?_remove, if_pos rfl]
    exact ⟨present, rfl⟩
  kept other _ rolled torn := by
    rw [removed, ProcessTable.get?_remove, if_neg]
    intro eq
    rcases ended with rfl | rfl <;> simp [eq] at rolled torn
  hooked other reason mem := by rcases ended with rfl | rfl <;> simp at mem

theorem quiet (trace : next.trace = w.trace ++ events)
    (same : ∀ pid, next.host.processes.get? pid = w.host.processes.get? pid)
    (quiet : ∀ e ∈ events, (∃ pid, e = .accepted pid) ∨
      ∃ id reason, e = .hooked (pidOf id) reason ∧ w.host.processes.get? (pidOf id) = none ∧
        ∃ s, w.host.spaces[id]? = some s ∧ s.Gone) : w.Exchange events next where
  trace := trace
  inserted other mem := by simpa using quiet _ mem
  removed other mem := by rcases mem with mem | mem <;> simpa using quiet _ mem
  kept other _ _ _ := same other
  hooked other reason mem := by
    rcases quiet _ mem with ⟨pid, eq⟩ | ⟨id, reason', eq, absent, s, hs, gone⟩ <;> cases eq
    exact ⟨absent, id, s, rfl, hs, gone⟩

end Exchange

/-- A task has run to its end: its record was removed once, its hook called once after that, and
all its memory is back. -/
structure Retired (w : World σ γ) (t : Task) (reason : ExitReason) : Prop where
  past : w.past t.pid = [.inserted t.pid, .accepted t.pid, .tornDown t.pid] ++
    if t.hook then [.hooked t.pid reason] else []
  hooks : w.host.hooked.filter (·.1 == t.pid) = if t.hook then [(t.pid, reason)] else []
  unrecorded : w.host.processes.get? t.pid = none
  gone : ∃ s, w.host.spaces[t.space]? = some s ∧ s.Gone

namespace Tracks

theorem past_cases (tracks : w.Tracks) (pid : Pid) :
    (∃ id stage, pid = pidOf id ∧ w.At id stage) ∨
    w.past pid = [] ∧ w.host.processes.get? pid = none := by
  by_cases known : ∃ id < w.stages.length, pid = pidOf id
  · obtain ⟨id, lt, rfl⟩ := known
    exact Or.inl ⟨id, _, rfl, tracks.stage id _ (List.getElem?_eq_getElem lt)⟩
  · refine Or.inr ⟨List.filter_eq_nil_iff.mpr fun e he same => known ?_, ?_⟩
    · rw [← beq_iff_eq.mp same]
      exact tracks.named e he
    · refine Option.eq_none_iff_forall_ne_some.mpr fun r found => known ?_
      obtain ⟨named, s, hs, -⟩ := tracks.orderly.records _ (mem_of_lookup found)
      exact ⟨r.arena, tracks.length ▸ (List.getElem?_eq_some_iff.mp hs).1, named⟩

theorem recorded (tracks : w.Tracks) (pid : Pid) : w.Recorded pid := by
  have mem : ∀ e : RecordEvent, e.pid = pid → (e ∈ w.past pid ↔ e ∈ w.trace) := by
    intro e same
    rw [World.past, List.mem_filter, same, beq_self_eq_true, and_iff_left rfl]
  have count : ∀ e : RecordEvent, e.pid = pid → (w.past pid).count e = w.trace.count e := by
    intro e same
    exact List.count_filter (p := fun e : RecordEvent => e.pid == pid) (beq_iff_eq.mpr same)
  have present : (w.host.processes.get? pid).isSome ↔ .inserted pid ∈ w.past pid ∧
      .rolledBack pid ∉ w.past pid ∧ .tornDown pid ∉ w.past pid := by
    rcases tracks.past_cases pid with ⟨id, stage, rfl, known⟩ | ⟨none, absent⟩
    · rw [known.custody.isSome_iff, known.past]
      exact stage.recorded_iff _
    · simp [none, absent]
  have counts : (w.past pid).count (.inserted pid) ≤ 1 ∧
      (w.past pid).count (.rolledBack pid) + (w.past pid).count (.tornDown pid) ≤
        (w.past pid).count (.inserted pid) := by
    rcases tracks.past_cases pid with ⟨id, stage, rfl, known⟩ | ⟨none, -⟩
    · rw [known.past]
      exact stage.past_counts _
    · simp [none]
  rw [mem _ rfl, mem _ rfl, mem _ rfl] at present
  rw [count _ rfl, count _ rfl, count _ rfl] at counts
  refine ⟨present, counts.1, counts.2, ?_⟩
  intro r found
  exact (tracks.orderly.records _ (mem_of_lookup found)).1

theorem hooks (tracks : w.Tracks) (pid : Pid) :
    w.host.hooked.filter (·.1 == pid) = (w.past pid).filterMap RecordEvent.hook? := by
  rw [tracks.hooked, World.past, List.filter_filterMap, List.filterMap_filter]
  refine congrArg (List.filterMap · w.trace) (funext fun e => ?_)
  cases e with
  | hooked pid' reason =>
    by_cases same : pid' = pid <;> simp [RecordEvent.hook?, RecordEvent.pid, same]
  | _ => simp [RecordEvent.hook?]

theorem retired (tracks : w.Tracks) {reason : ExitReason}
    (finished : w.stages[id]? = some (.finished t reason)) : w.Retired t reason := by
  obtain ⟨custody, housed, past⟩ := tracks.stage id _ finished
  obtain ⟨space, named⟩ := housed t rfl
  have hooks := tracks.hooks t.pid
  rw [← named] at past
  rw [past] at hooks
  refine ⟨past, ?_, ?_, ?_⟩
  · rw [hooks]
    cases hook : t.hook <;> simp only [Stage.past, hook] <;> rfl
  · rw [named]
    have absent := mt custody.isSome_iff.mp (List.not_mem_nil)
    simpa using absent
  · obtain ⟨s, hs, -, gone⟩ := custody.space
    exact ⟨s, space ▸ hs, gone rfl⟩

variable [CodeGenerator γ]

theorem exchange_move (tracks : w.Tracks) (at_stage : w.stages[id]? = some stage)
    (m : Move id w.host stage events after later) :
    w.Exchange events ⟨after, w.stages.set id later, w.trace ++ events⟩ := by
  obtain ⟨custody, housed, -⟩ := tracks.stage id stage at_stage
  have absent (free : .record ∉ stage.holders) : w.host.processes.get? (pidOf id) = none := by
    simpa using mt custody.isSome_iff.mp free
  rcases m.table housed with ⟨rfl, rfl, name, inserted⟩ | ⟨held, ended, removed⟩ | ⟨same, quiet⟩
  · exact .insert rfl (absent (by decide)) inserted
  · exact .remove rfl ended (custody.isSome_iff.mpr held) removed
  · refine .quiet rfl (fun pid => by rw [same]) ?_
    intro e he
    rcases quiet e he with accepted | ⟨none, reason, hooked⟩
    · exact Or.inl ⟨_, accepted⟩
    · obtain ⟨s, hs, -, gone⟩ := custody.space
      have unrecorded := absent (by rw [none]; exact List.not_mem_nil)
      exact Or.inr ⟨id, reason, hooked, unrecorded, s, hs, gone none⟩

theorem exchange (tracks : w.Tracks) (s : w.Step next) : ∃ events, w.Exchange events next := by
  cases s with
  | elsewhere alike =>
    have same : ∀ pid, _ := fun pid => congrArg (ProcessTable.get? · pid) alike.processes
    exact ⟨[], .quiet (List.append_nil _).symm same nofun⟩
  | newLinkage => exact ⟨[], .quiet (List.append_nil _).symm (fun _ => rfl) nofun⟩
  | move at_stage moved => exact ⟨_, tracks.exchange_move at_stage moved⟩

theorem task_move (tracks : w.Tracks) (at_stage : w.stages[id]? = some stage)
    (mine : stage.task? = some t) (m : Move id w.host stage events after later) :
    (∀ pid, pid ≠ t.pid → after.processes.get? pid = w.host.processes.get? pid) ∧
      ∀ pid, .inserted pid ∉ events ∧ .rolledBack pid ∉ events ∧
        (.tornDown pid ∈ events → pid = t.pid) := by
  obtain ⟨custody, housed, -⟩ := tracks.stage id stage at_stage
  rw [(housed t mine).2]
  refine ⟨(m.custody housed custody).records, ?_⟩
  cases m with
  | tearDown t' =>
    cases mine
    simp [(housed t rfl).2]
  | callHook => simp
  | enter | abandon | work | leave | letGo | noHook => simp
  | _ => cases mine

end Tracks

theorem Step.finished [CodeGenerator γ] (s : w.Step next) {reason : ExitReason}
    (finished : w.stages[id]? = some (.finished t reason)) :
    next.stages[id]? = some (.finished t reason) := by
  cases s with
  | elsewhere => exact finished
  | newLinkage =>
    exact (List.getElem?_append_left (List.getElem?_eq_some_iff.mp finished).1).trans finished
  | @move i stage events after later at_stage moved =>
    by_cases same : i = id
    · subst same
      cases at_stage.symm.trans finished
      cases moved
    · exact (List.getElem?_set_ne same).trans finished

variable [CodeGenerator γ]

/-- However launches and tasks take turns: the table has a record of a process exactly from its
insertion until its launch is rolled back or its task torn down, never both. A task removes its own
record and no other. When it has run, its hook has been called once, and never will be again, with
the record gone before and every allocation given back once. Launches that run through and pending
tasks that are run, at once or later, come about in this way. -/
theorem records_last_to_their_end (reachable : w.Reachable)
    (few : w.host.spaces.length < 2 ^ 32) :
    (∀ pid, w.Recorded pid) ∧
    (∀ next, w.Step next → ∃ events, w.Exchange events next) ∧
    (∀ (id : ℕ) stage t events after later, w.stages[id]? = some stage → stage.task? = some t →
      Move id w.host stage events after later →
      (∀ pid, pid ≠ t.pid → after.processes.get? pid = w.host.processes.get? pid) ∧
        ∀ pid, .inserted pid ∉ events ∧ .rolledBack pid ∉ events ∧
          (.tornDown pid ∈ events → pid = t.pid)) ∧
    (∀ (id : ℕ) t reason, w.stages[id]? = some (.finished t reason) → w.Retired t reason ∧
      ∀ next, w.Step next → next.stages[id]? = some (.finished t reason)) ∧
    (∀ launch hook result after, (∀ id : ℕ, launch = .linked id → w.stages[id]? = some .owned) →
      w.host.launch launch hook = (result, after) →
      w.Comes after ∧
        ∀ pid, result = .ok pid → ∃ id, pid = pidOf id ∧ w.Launched id hook after) ∧
    ∀ i t taken, w.host.takePending? i = some (t, taken) →
      (∃ reason, w.Leads t.space (taken.runTask t) (.finished t reason)) ∧
        (w.host.processes.get? t.pid).isSome ∧
        (taken.runTask t).processes = w.host.processes.remove t.pid := by
  have tracks := reachable.tracks few
  refine ⟨tracks.recorded, fun _ s => tracks.exchange s, ?_, ?_, ?_, ?_⟩
  · intro id stage t events after later at_stage mine m
    exact tracks.task_move at_stage mine m
  · intro id t reason finished
    exact ⟨tracks.retired finished, fun next s => s.finished finished⟩
  · intro launch hook result after mine launched
    cases result with
    | error e =>
      exact ⟨tracks.launch_error mine launched, fun pid eq => (nomatch eq)⟩
    | ok pid =>
      have led := tracks.launch_ok mine launched
      refine ⟨?_, fun pid' eq => by cases eq; exact led⟩
      obtain ⟨id, -, t, -, waiting | ⟨reason, finished⟩⟩ := led
      · exact waiting.comes
      · exact finished.comes
  · intro i t taken found
    exact tracks.runTask found

/-- Two programs wait to run. The second one runs first, and ends while the other still waits. -/
theorem second_program_ends_first :
    let object : DeclaredObject := ⟨[⟨0, 8, 0, [7], .readWrite⟩], [], [], some 0, [], none⟩
    let parts : Parts HostHeap SpacedStubs :=
      { parser := fun _ => .ok object.toObject
        generator := none, code := 0, providers := [], files := .empty []
        allocator := .empty none fun n _ => 0x10000 * UInt64.ofNat (n + 1)
        spawner := ⟨.later, true, none⟩, resumePoint := ⟨0, 0⟩
        programs := fun _ => ⟨[], 0⟩, others := fun unit => unit }
    ∃ built : Host HostHeap SpacedStubs, build .standard parts = .ok built ∧
      let bare : Host HostHeap SpacedStubs := { built with capabilities := .empty .direct }
      let first := (bare.launch (.handle "one" (.ok [])) true).2
      let both := (first.launch (.handle "two" (.ok [])) true).2
      ∃ t taken, both.takePending? 1 = some (t, taken) ∧ ∃ w : World HostHeap SpacedStubs,
        w.Reachable ∧ w.host.spaces.length < 2 ^ 32 ∧ w.host = taken.runTask t ∧
        (w.host.processes.get? 1).isSome ∧ w.host.processes.get? 2 = none ∧
        (∃ reason, w.host.hooked.filter (·.1 == 2) = [(2, reason)]) ∧
        ∃ s, w.host.spaces[1]? = some s ∧ s.Gone := by
  intro object parts
  obtain ⟨built, done⟩ : ∃ built, build .standard parts = .ok built := ⟨_, rfl⟩
  refine ⟨built, done, ?_⟩
  cases done
  intro bare first both
  have start : World.Reachable (⟨bare, [], []⟩ : World HostHeap SpacedStubs) :=
    .step (.built (show build .standard parts = .ok _ from rfl)) (.elsewhere _ ⟨rfl, rfl, rfl, rfl⟩)
  have launched : bare.launch (.handle "one" (.ok [])) true = (.ok 1, first) :=
    Prod.ext (by decide) rfl
  have launched' : first.launch (.handle "two" (.ok [])) true = (.ok 2, both) :=
    Prod.ext (by decide) rfl
  obtain ⟨⟨t, taken⟩, found⟩ := Option.isSome_iff_exists.mp
    (show (both.takePending? 1).isSome = true by decide)
  have run : ((both.takePending? 1).map fun x => (x.1.space, x.1.pid, x.1.hook)) =
      some (1, 2, true) := by decide
  have rooms : ((both.takePending? 1).all fun x => (x.2.runTask x.1).spaces.length < 2 ^ 32) =
      true := by decide
  rw [found] at run rooms
  simp only [Option.map_some, Option.some.injEq, Prod.mk.injEq] at run
  obtain ⟨space, pid, hook⟩ := run
  obtain ⟨-, -, -, -, launches, -⟩ := records_last_to_their_end start (by decide)
  obtain ⟨⟨w₁, steps₁, host₁⟩, -⟩ := launches _ _ _ _ (fun _ eq => by cases eq) launched
  have few₁ : w₁.host.spaces.length < 2 ^ 32 := by
    rw [host₁]
    decide
  rw [← host₁] at launched'
  obtain ⟨-, -, -, -, launches, -⟩ := records_last_to_their_end (start.steps steps₁) few₁
  obtain ⟨⟨w₂, steps₂, host₂⟩, -⟩ := launches _ _ _ _ (fun _ eq => by cases eq) launched'
  have few₂ : w₂.host.spaces.length < 2 ^ 32 := by
    rw [host₂]
    decide
  have found₂ := found
  rw [← host₂] at found₂
  obtain ⟨-, -, -, -, -, runs⟩ :=
    records_last_to_their_end ((start.steps steps₁).steps steps₂) few₂
  obtain ⟨⟨reason, w₃, steps₃, host₃, finished⟩, -, processes⟩ := runs 1 t taken found₂
  have few₃ : w₃.host.spaces.length < 2 ^ 32 := by
    rw [host₃]
    simpa using rooms
  have reachable := ((start.steps steps₁).steps steps₂).steps steps₃
  obtain ⟨-, -, -, ends, -, -⟩ := records_last_to_their_end reachable few₃
  have retired := (ends _ t reason finished).1
  have other : (w₂.host.processes.get? 1).isSome := by
    rw [host₂]
    decide
  refine ⟨t, taken, found, w₃, reachable, few₃, host₃, ?_, ?_, ⟨reason, ?_⟩, ?_⟩
  · rw [host₃, processes, ProcessTable.get?_remove, pid, if_neg (by decide)]
    exact other
  · rw [← pid]
    exact retired.unrecorded
  · rw [← pid]
    simpa [hook] using retired.hooks
  · rw [← space]
    exact retired.gone

end World

end AppHost.Host
