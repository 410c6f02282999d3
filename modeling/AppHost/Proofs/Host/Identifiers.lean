import AppHost.Memory.Heap
import AppHost.Object.Declared
import AppHost.Proofs.Host.Scheduling
/-! The identifiers that a host hands out: which ones they are, for how long they stay apart, and
what becomes of a record whose identifier comes round again. -/
namespace AppHost

open Memory

theorem toNat_pidOf (id : ℕ) : (pidOf id).toNat = (id + 1) % 2 ^ 32 := UInt32.toNat_ofNat'

theorem pidOf_lt {i j : ℕ} (lt : i < j) (few : j + 1 < 2 ^ 32) : pidOf i < pidOf j := by
  rw [UInt32.lt_iff_toNat_lt, toNat_pidOf, toNat_pidOf]
  omega

theorem pidOf_ne_zero {i : ℕ} (few : i + 1 < 2 ^ 32) : pidOf i ≠ 0 := by
  rw [← UInt32.toNat_inj.ne, toNat_pidOf, UInt32.toNat_zero]
  omega

namespace Host

variable {σ γ : Type} [Allocator σ] {h after : Host σ γ} {id : ℕ}

def identifiers (h : Host σ γ) : List Pid := h.spaces.map (·.linkage.arena.pid)

@[simp] theorem length_identifiers (h : Host σ γ) : h.identifiers.length = h.spaces.length :=
  List.length_map _

theorem Orderly.identifiers (o : h.Orderly) :
    h.identifiers = (List.range h.spaces.length).map pidOf := by
  refine List.ext_getElem (by simp) fun i hi _ => ?_
  rw [length_identifiers] at hi
  have named := (o.spaces i _ (List.getElem?_eq_getElem hi)).1
  simpa [Host.identifiers] using named

theorem Orderly.identifiers_succ (o : h.Orderly) (o' : after.Orderly)
    (length : after.spaces.length = h.spaces.length + 1) :
    after.identifiers = h.identifiers ++ [h.processes.next] := by
  rw [o'.identifiers, o.identifiers, o.counter, length, List.range_succ, List.map_append]
  rfl

/-- Identifiers count up from one and wrap with their width. Until then they rise, none is zero,
and the next one is no live process's. -/
structure Counted (h : Host σ γ) : Prop where
  nth : ∀ (i : ℕ) pid, h.identifiers[i]? = some pid → pid.toNat = (i + 1) % 2 ^ 32
  next : h.processes.next.toNat = (h.identifiers.length + 1) % 2 ^ 32
  rising : h.identifiers.length < 2 ^ 32 → h.identifiers.Pairwise (· < ·) ∧ 0 ∉ h.identifiers
  spare : h.identifiers.length < 2 ^ 32 → h.processes.get? h.processes.next = none

theorem Orderly.counted (o : h.Orderly) : h.Counted where
  nth i pid at_i := by
    rw [o.identifiers, List.getElem?_map] at at_i
    obtain ⟨k, at_k, rfl⟩ := Option.map_eq_some_iff.mp at_i
    obtain ⟨lt, rfl⟩ := List.getElem?_eq_some_iff.mp at_k
    rw [List.getElem_range, toNat_pidOf]
  next := by rw [o.counter, toNat_pidOf, length_identifiers]
  rising few := by
    rw [length_identifiers] at few
    rw [o.identifiers, List.pairwise_map]
    refine ⟨?_, ?_⟩
    · refine List.pairwise_lt_range.imp_of_mem fun {i j} _ mem lt => pidOf_lt lt ?_
      have := List.mem_range.mp mem
      omega
    · intro mem
      obtain ⟨i, mem, zero⟩ := List.mem_map.mp mem
      refine pidOf_ne_zero ?_ zero
      have := List.mem_range.mp mem
      omega
  spare few := by
    rw [length_identifiers] at few
    have free := o.fresh o.unrecorded_next le_rfl few
    rw [o.counter, ← free, ProcessTable.get?_remove, if_pos rfl]

/-- There are as many spaces as before, and no record but one process's has changed: it may be
gone. -/
structure Sheds (pid : Pid) (h after : Host σ γ) : Prop where
  length : after.spaces.length = h.spaces.length
  table : after.processes = h.processes ∨ after.processes = h.processes.remove pid

namespace Sheds

variable {pid : Pid} {last : Host σ γ}

theorem trans (first : Sheds pid h after) (second : Sheds pid after last) : Sheds pid h last where
  length := second.length.trans first.length
  table := by
    have twice : (h.processes.remove pid).remove pid = h.processes.remove pid := by
      simp [ProcessTable.remove, List.filter_filter]
    rcases first.table with one | one <;> rcases second.table with two | two <;>
      rw [one] at two
    · exact Or.inl two
    · exact Or.inr two
    · exact Or.inr two
    · exact Or.inr (two.trans twice)

theorem of_works (w : Works id h after) : Sheds pid h after := ⟨w.length, Or.inl w.processes⟩

theorem get? (s : Sheds pid h after) (other : Pid) :
    after.processes.get? other = h.processes.get? other ∨
      other = pid ∧ after.processes.get? other = none := by
  rcases s.table with same | removed
  · exact Or.inl (by rw [same])
  · rw [removed, ProcessTable.get?_remove]
    split
    · rename_i eq
      exact Or.inr ⟨eq, rfl⟩
    · exact Or.inl rfl

end Sheds

theorem sheds_note (h : Host σ γ) (pid : Pid) (e : HostEvent) : Sheds pid h (h.note e) :=
  ⟨rfl, Or.inl rfl⟩

theorem sheds_release (h : Host σ γ) (pid : Pid) (id : ℕ) (who : Holder) :
    Sheds pid h (h.release id who) :=
  ⟨length_modifySpace _ _ _, Or.inl rfl⟩

theorem sheds_removeRecord (h : Host σ γ) (pid : Pid) : Sheds pid h (h.removeRecord pid) :=
  ⟨length_removeRecord h pid, Or.inr (removeRecord_processes h pid)⟩

theorem sheds_dropTask (h : Host σ γ) (pid : Pid) (t : Task) : Sheds pid h (h.dropTask t) :=
  (h.sheds_release pid t.space .context).trans (sheds_release _ pid t.space .linkage)

theorem sheds_runTask (h : Host σ γ) (t : Task) : Sheds t.pid h (h.runTask t) := by
  cases known : h.linkage? t.space with
  | none =>
    have same : h.runTask t = h := by
      unfold runTask
      rw [known]
    rw [same]
    exact ⟨rfl, Or.inl rfl⟩
  | some l =>
    obtain ⟨arena, worked, reason, -, alike, eq⟩ := runTask_eq_retire known
    have retired : (worked.retire t reason).spaces.length = worked.spaces.length := by
      unfold retire
      simp only
      split <;> exact (length_removeRecord _ _).trans (worked.sheds_dropTask t.pid t).length
    refine ⟨?_, Or.inr (runTask_processes known)⟩
    rw [eq, retired, alike.spaces, length_modifySpace]

theorem sheds_submit (h : Host σ γ) (t : Task) : Sheds t.pid h (h.submit t).2 := by
  have asked := h.sheds_note t.pid (.taskRequested (taskName t.pid) h.settings.taskStackBytes)
  unfold submit
  simp only
  split
  · exact asked.trans (sheds_runTask _ t)
  · exact ⟨rfl, Or.inl rfl⟩
  · exact (asked.trans (sheds_dropTask _ t.pid t)).trans (sheds_note _ t.pid _)

theorem sheds_spawn (h : Host σ γ) (id : ℕ) (pid : Pid) (hook : Bool) :
    Sheds pid h (h.spawn id pid hook).2 := by
  rcases h.spawn_cases id pid hook with eq | ⟨entry, eq⟩ <;> rw [eq]
  · exact h.sheds_release pid id .linkage
  · have readied : (h.ready id pid entry).spaces.length = h.spaces.length :=
      (length_modifySpace _ _ _).trans (length_modifySpace _ _ _)
    exact Sheds.trans ⟨readied, Or.inl rfl⟩ (sheds_submit _ ⟨id, pid, entry, _, _, hook⟩)

theorem length_begin (h : Host σ γ) (name : String) :
    (h.begin name).spaces.length = h.spaces.length + 1 :=
  (length_modifySpace _ _ _).trans ((length_removeRecord _ _).trans (List.length_append ..))

theorem get?_begin (h : Host σ γ) (name : String) (pid : Pid) :
    (h.begin name).processes.get? pid =
      if pid = h.processes.next then some ⟨name, h.spaces.length⟩ else h.processes.get? pid := by
  unfold Host.begin
  rw [addRecord_processes, ProcessTable.get?_insert]
  rfl

theorem length_startLinked (h : Host σ γ) (id : ℕ) (hook : Bool) :
    (h.startLinked id hook).2.spaces.length = h.spaces.length := by
  rcases h.startLinked_cases id hook with ⟨-, eq⟩ | ⟨s, -, rest⟩
  · rw [eq]
  have begun : (h.addRecord s.linkage.arena.pid (s.linkage.filenames.head?.getD "a.out")
      id).spaces.length = h.spaces.length :=
    (length_modifySpace _ _ _).trans (length_removeRecord _ _)
  have spawned := (sheds_spawn _ id s.linkage.arena.pid hook).length.trans begun
  rcases rest with eq | ⟨e, q, hq, eq⟩ | ⟨q, hq, eq⟩ <;> rw [eq]
  · exact length_modifySpace _ _ _
  · rw [hq] at spawned
    exact (length_removeRecord _ _).trans spawned
  · rwa [hq] at spawned

variable [CodeGenerator γ]

theorem sheds_startHandle (h : Host σ γ) (name : String) (handle : Handle) (hook : Bool) :
    Sheds h.processes.next (h.begin name) (h.startHandle name handle hook).2 := by
  let pid := h.processes.next
  have prepared : Sheds pid (h.begin name) _ :=
    .of_works ((h.begin name).prepare_works h.spaces.length name handle)
  rcases h.startHandle_cases name handle hook with
    ⟨e, p, hp, eq⟩ | ⟨p, e, q, hp, hq, eq⟩ | ⟨p, q, hp, hq, eq⟩ <;> rw [eq] <;> rw [hp] at prepared
  · have dropped := prepared.trans (p.sheds_release pid h.spaces.length .linkage)
    exact (dropped.trans (sheds_removeRecord _ pid)).trans (sheds_note _ pid _)
  · have spawned := prepared.trans (p.sheds_spawn h.spaces.length pid hook)
    rw [hq] at spawned
    exact (spawned.trans (q.sheds_removeRecord pid)).trans (sheds_note _ pid _)
  · have spawned := prepared.trans (p.sheds_spawn h.spaces.length pid hook)
    rwa [hq] at spawned

theorem startHandle_pid {name : String} {handle : Handle} {hook : Bool} {pid : Pid}
    (started : (h.startHandle name handle hook).1 = .ok pid) : pid = h.processes.next := by
  rcases h.startHandle_cases name handle hook with
    ⟨e, p, -, eq⟩ | ⟨p, e, q, -, -, eq⟩ | ⟨p, q, -, -, eq⟩ <;> rw [eq] at started <;> cases started
  rfl

theorem length_launch (h : Host σ γ) (launch : Launch) (hook : Bool) :
    (h.launch launch hook).2.spaces.length = h.spaces.length ∨
      (h.launch launch hook).2.spaces.length = h.spaces.length + 1 := by
  have handled (name : String) (handle : Handle) :=
    (h.sheds_startHandle name handle hook).length.trans (h.length_begin name)
  cases launch with
  | path path =>
    change (h.start path hook).2.spaces.length = _ ∨ (h.start path hook).2.spaces.length = _
    unfold start
    split
    · exact Or.inl rfl
    · exact Or.inr (handled _ _)
  | handle name handle => exact Or.inr (handled name handle)
  | linked id => exact Or.inl (h.length_startLinked id hook)

theorem Step.length (next : Step h after) : after.spaces.length = h.spaces.length ∨
    after.spaces.length = h.spaces.length + 1 := by
  cases next with
  | reconfigure => exact Or.inl rfl
  | newLinkage => exact Or.inr (List.length_append ..)
  | use id call => exact Or.inl (length_modifySpace _ _ _)
  | export_ id => exact Or.inl (h.exportInto_works id).length
  | drop id => exact Or.inl (length_modifySpace _ _ _)
  | launch launch hook => exact h.length_launch launch hook
  | run found =>
    obtain ⟨-, -, spaces, -⟩ := takePending?_cases found
    exact Or.inl ((sheds_runTask _ _).length.trans (by rw [spaces]))
  | abandon found =>
    obtain ⟨-, -, spaces, -⟩ := takePending?_cases found
    exact Or.inl ((sheds_dropTask _ 0 _).length.trans (by rw [spaces]))

theorem records_startHandle {name : String} {handle : Handle} {hook : Bool}
    {outcome : Except LaunchError Pid} (done : h.startHandle name handle hook = (outcome, after)) :
    (∀ pid, pid ≠ h.processes.next → after.processes.get? pid = h.processes.get? pid) ∧
      ∀ r, after.processes.get? h.processes.next = some r → r = ⟨name, h.spaces.length⟩ := by
  have sheds := h.sheds_startHandle name handle hook
  rw [done] at sheds
  refine ⟨?_, ?_⟩
  · intro pid other
    rcases sheds.get? pid with same | ⟨own, -⟩
    · rw [same, get?_begin, if_neg other]
    · exact absurd own other
  · intro r found
    rcases sheds.get? h.processes.next with same | ⟨-, gone⟩
    · rw [same, get?_begin, if_pos rfl] at found
      exact (Option.some.inj found).symm
    · rw [gone] at found
      cases found

/-- A step of the host hands out the next identifier or none; a new linkage takes one, and so does
a launch, whatever comes of it. In all they count up from one, and wrap with their width: as long as
fewer than 2³² have been handed out they rise, none is zero, and a launch takes no live process's. A
launch leaves the record of any other identifier alone. -/
theorem identifiers_rise_until_they_wrap (r : h.Reachable) :
    h.Counted ∧
    (∀ after, Step h after →
      after.identifiers = h.identifiers ∨ after.identifiers = h.identifiers ++ [h.processes.next]) ∧
    (h.newLinkage.2.identifiers = h.identifiers ++ [h.processes.next] ∧
      (h.newLinkage.2.linkage? h.newLinkage.1).map (·.arena.pid) = some h.processes.next) ∧
    ∀ name handle hook outcome after, h.startHandle name handle hook = (outcome, after) →
      after.identifiers = h.identifiers ++ [h.processes.next] ∧
      (∀ pid, outcome = .ok pid → pid = h.processes.next) ∧
      (∀ pid, pid ≠ h.processes.next → after.processes.get? pid = h.processes.get? pid) ∧
      ∀ r, after.processes.get? h.processes.next = some r → r = ⟨name, h.spaces.length⟩ := by
  have o := r.orderly
  refine ⟨o.counted, ?_, ⟨?_, ?_⟩, ?_⟩
  · intro after next
    have o' := o.step next
    rcases next.length with same | succ
    · rw [o'.identifiers, same, ← o.identifiers]
      exact Or.inl rfl
    · exact Or.inr (o.identifiers_succ o' succ)
  · exact o.identifiers_succ o.newLinkage (List.length_append ..)
  · rw [linkage?, show h.newLinkage.2.spaces[h.newLinkage.1]? = _ from h.newLinkage_space]
    rfl
  · intro name handle hook outcome after done
    have o' := o.startHandle name handle hook
    have length := (h.sheds_startHandle name handle hook).length.trans (h.length_begin name)
    rw [done] at o' length
    refine ⟨o.identifiers_succ o' length, ?_, records_startHandle done⟩
    intro pid ok
    exact startHandle_pid ((congrArg Prod.fst done).trans ok)

/-- One program waits to run, and the contents of the next one cannot be read. -/
theorem identifiers_of_failed_launch :
    let object : DeclaredObject := ⟨[⟨0, 8, 0, [7], .readWrite⟩], [], [], some 0, [], none⟩
    let parts : Parts HostHeap SpacedStubs :=
      { parser := fun _ => .ok object.toObject
        generator := none, code := 0, providers := [], files := .empty []
        allocator := .empty none fun n _ => 0x10000 * UInt64.ofNat (n + 1)
        spawner := ⟨.later, true, none⟩, resumePoint := ⟨0, 0⟩
        programs := fun _ => ⟨[], 0⟩, others := fun unit => unit }
    ∃ built : Host HostHeap SpacedStubs, build .standard parts = .ok built ∧
      let bare : Host HostHeap SpacedStubs := { built with capabilities := .empty .direct }
      let first := (bare.launch (.handle "one" (.ok [])) false).2
      let second := (first.startHandle "two" (.error .notFound) false).2
      first.Reachable ∧ first.Counted ∧ second.identifiers = [1, 2] ∧
        second.processes.get? 1 = some ⟨"one", 0⟩ ∧ second.processes.get? 2 = none := by
  intro object parts
  obtain ⟨built, done⟩ : ∃ built, build .standard parts = .ok built := ⟨_, rfl⟩
  refine ⟨built, done, ?_⟩
  intro bare first second
  have reachable : first.Reachable :=
    .step (.step (.built done) (.reconfigure _ _ _ _)) (.launch _ _ _)
  obtain ⟨counted, -, -, launches⟩ := identifiers_rise_until_they_wrap reachable
  obtain ⟨grown, -, others, -⟩ := launches "two" (.error .notFound) false _ second rfl
  cases done
  refine ⟨reachable, counted, grown.trans (by decide), ?_, by decide⟩
  rw [others 1 (by decide)]
  decide

def withLinkages (h : Host σ γ) : ℕ → Host σ γ
  | 0 => h
  | n + 1 => (h.withLinkages n).newLinkage.2

section More

variable {σ γ : Type} [Allocator σ] (h : Host σ γ) (n : ℕ)

theorem length_withLinkages : (h.withLinkages n).spaces.length = h.spaces.length + n := by
  induction n with
  | zero => rfl
  | succ n ih => exact (List.length_append ..).trans (congrArg (· + 1) ih)

theorem pending_withLinkages : (h.withLinkages n).pending = h.pending := by
  induction n with
  | zero => rfl
  | succ n ih => exact ih

theorem Reachable.withLinkages [CodeGenerator γ] {h : Host σ γ} (r : h.Reachable) (n : ℕ) :
    (h.withLinkages n).Reachable := by
  induction n with
  | zero => exact r
  | succ n ih => exact .step ih (.newLinkage _)

theorem next_withLinkages [CodeGenerator γ] {h : Host σ γ} (r : h.Reachable) (n : ℕ) :
    (h.withLinkages n).processes.next = pidOf (h.spaces.length + n) := by
  rw [(r.withLinkages n).orderly.counter, length_withLinkages]

theorem get?_withLinkages (pid : Pid) :
    (h.withLinkages n).processes.get? pid = h.processes.get? pid := by
  induction n with
  | zero => rfl
  | succ n ih => exact ih

end More

/-- What a host is made of that starts a task when it is told to. Every object is a program. -/
def deferring : Parts HostHeap SpacedStubs where
  parser := fun _ =>
    .ok (DeclaredObject.toObject ⟨[⟨0, 8, 0, [7], .readWrite⟩], [], [], some 0, [], none⟩)
  generator := none
  code := 0
  providers := []
  files := .empty []
  allocator := .empty none fun n _ => 0x10000 * UInt64.ofNat (n + 1)
  spawner := ⟨.later, true, none⟩
  resumePoint := ⟨0, 0⟩
  programs := fun _ => ⟨[], 0⟩
  others := fun unit => unit

structure OneWaiting (h : Host HostHeap SpacedStubs) : Prop where
  reachable : h.Reachable
  one : h.spaces.length = 1
  waiting : h.pending.map (·.pid) = [1]
  recorded : h.processes.get? 1 = some ⟨"one", 0⟩

theorem oneWaiting_of_launch {built : Host HostHeap SpacedStubs}
    (done : build .standard deferring = .ok built) :
    let bare : Host HostHeap SpacedStubs := { built with capabilities := .empty .direct }
    (bare.launch (.handle "one" (.ok [])) false).2.OneWaiting := by
  intro bare
  refine ⟨.step (.step (.built done) (.reconfigure _ _ _ _)) (.launch _ _ _), ?_, ?_, ?_⟩ <;>
    cases done <;> decide

/-- When as many identifiers have been handed out as there are, the next one is zero, and after it
the first one comes round again. A launch then takes the identifier of a process that has been
waiting since the first, whose record is lost whatever comes of the launch. -/
theorem identifiers_come_round :
    let object : DeclaredObject := ⟨[⟨0, 8, 0, [7], .readWrite⟩], [], [], some 0, [], none⟩
    let parts : Parts HostHeap SpacedStubs :=
      { parser := fun _ => .ok object.toObject
        generator := none, code := 0, providers := [], files := .empty []
        allocator := .empty none fun n _ => 0x10000 * UInt64.ofNat (n + 1)
        spawner := ⟨.later, true, none⟩, resumePoint := ⟨0, 0⟩
        programs := fun _ => ⟨[], 0⟩, others := fun unit => unit }
    ∃ built : Host HostHeap SpacedStubs, build .standard parts = .ok built ∧
      let bare : Host HostHeap SpacedStubs := { built with capabilities := .empty .direct }
      let first := (bare.launch (.handle "one" (.ok [])) false).2
      let full := first.withLinkages (2 ^ 32 - 2)
      let spent := first.withLinkages (2 ^ 32 - 1)
      (full.Reachable ∧ full.newLinkage.2.identifiers = full.identifiers ++ [0]) ∧
      spent.Reachable ∧ spent.identifiers[0]? = some 1 ∧
      spent.newLinkage.2.identifiers = spent.identifiers ++ [1] ∧
      spent.pending.map (·.pid) = [1] ∧ spent.processes.get? 1 = some ⟨"one", 0⟩ ∧
      ∀ name handle hook outcome after, spent.startHandle name handle hook = (outcome, after) →
        (∀ pid, outcome = .ok pid → pid = 1) ∧ after.processes.get? 1 ≠ some ⟨"one", 0⟩ := by
  intro object parts
  obtain ⟨built, done⟩ : ∃ built, build .standard parts = .ok built := ⟨_, rfl⟩
  refine ⟨built, done, ?_⟩
  intro bare first
  have waits : first.OneWaiting := oneWaiting_of_launch done
  -- The host is only a name from here on: nothing below may run it two to the 32 times.
  clear_value first
  obtain ⟨reachable, one, waiting, recorded⟩ := waits
  intro full spent
  have length (n : ℕ) : (first.withLinkages n).spaces.length = 1 + n := by
    rw [length_withLinkages, one]
  have orderly (n : ℕ) : (first.withLinkages n).Orderly := (reachable.withLinkages n).orderly
  have grows (n : ℕ) : (first.withLinkages n).newLinkage.2.identifiers =
      (first.withLinkages n).identifiers ++ [pidOf (1 + n)] := by
    rw [(orderly n).identifiers_succ (orderly n).newLinkage (List.length_append ..),
      (orderly n).counter, length]
  have again : spent.processes.next = 1 := by
    rw [next_withLinkages reachable, one]
    decide
  refine ⟨⟨reachable.withLinkages _, grows _⟩, reachable.withLinkages _, ?_, grows _, ?_, ?_, ?_⟩
  · rw [(orderly _).identifiers, length, List.getElem?_map, List.getElem?_range (by omega)]
    rfl
  · rw [pending_withLinkages]
    exact waiting
  · rw [get?_withLinkages]
    exact recorded
  · intro name handle hook outcome after launched
    refine ⟨?_, ?_⟩
    · intro pid ok
      exact (startHandle_pid ((congrArg Prod.fst launched).trans ok)).trans again
    · intro kept
      rw [← again] at kept
      have same := (records_startHandle launched).2 _ kept
      rw [length] at same
      cases same

end Host

end AppHost
