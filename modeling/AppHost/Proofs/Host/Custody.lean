import AppHost.Proofs.Host.Rollback
/-! Who holds one space, followed through the operations on it. None of them touches another space
or the record of another process, and whoever lets go last closes the space. -/
namespace AppHost

open Memory

variable {σ γ : Type} [Allocator σ]

theorem Space.gone_of_none {s : Space σ} {holders : List Holder} {who : Holder}
    (held : s.holders = holders) (mem : who ∈ holders) (accounted : s.linkage.arena.Accounted)
    (none : holders.erase who = []) : (s.release who).Gone := by
  have all : holders.Perm (who :: holders.erase who) := List.perm_cons_erase mem
  rw [none, List.perm_singleton] at all
  exact Space.gone_of_last (held.trans all) accounted

namespace Host

/-- A host come from another by operations on one space, which has these holders now. -/
structure Custody (base : Host σ γ) (id : ℕ) (holders : List Holder) (h : Host σ γ) : Prop where
  orderly : h.Orderly
  others : ∀ i, i ≠ id → h.spaces[i]? = base.spaces[i]?
  records : ∀ pid, pid ≠ pidOf id → h.processes.get? pid = base.processes.get? pid
  space : ∃ s, h.spaces[id]? = some s ∧ s.holders = holders ∧ (holders = [] → s.Gone)
  record : (h.processes.get? (pidOf id)).map (·.arena) = if .record ∈ holders then some id else none

namespace Custody

variable {base h after : Host σ γ} {id i : ℕ} {holders others : List Holder} {who : Holder}

theorem here (c : Custody base id holders h) : Custody h id holders h :=
  ⟨c.orderly, fun _ _ => rfl, fun _ _ => rfl, c.space, c.record⟩

/-- Operations on one space leave the custody of another as it is. -/
theorem beside (c : Custody base id holders h) (mine : Custody base i others base)
    (ne : i ≠ id) (apart : pidOf i ≠ pidOf id) : Custody h i others h where
  orderly := c.orderly
  others _ _ := rfl
  records _ _ := rfl
  space := by
    rw [c.others i ne]
    exact mine.space
  record := by
    rw [c.records _ apart]
    exact mine.record

theorem linkage (c : Custody base id holders h) : ∃ l, h.linkage? id = some l := by
  obtain ⟨s, hs, -⟩ := c.space
  exact ⟨s.linkage, by rw [linkage?, hs]; rfl⟩

theorem isSome_iff (c : Custody base id holders h) :
    (h.processes.get? (pidOf id)).isSome ↔ .record ∈ holders := by
  have record := c.record
  split at record
  · rename_i held
    exact iff_of_true (by rw [← Option.isSome_map, record]; rfl) held
  · rename_i free
    exact iff_of_false (by rw [← Option.isSome_map, record]; simp) free

theorem same (c : Custody base id holders h) (processes : after.processes = h.processes)
    (spaces : after.spaces = h.spaces) : Custody base id holders after where
  orderly := c.orderly.of_same processes spaces
  others := by rw [spaces]; exact c.others
  records := by rw [processes]; exact c.records
  space := by rw [spaces]; exact c.space
  record := by rw [processes]; exact c.record

theorem works (c : Custody base id holders h) (w : Works id h after) (held : holders ≠ []) :
    Custody base id holders after where
  orderly := w.orderly c.orderly
  others i ne := (w.others i ne).trans (c.others i ne)
  records := by rw [w.processes]; exact c.records
  space := by
    obtain ⟨s, hs, eq, -⟩ := c.space
    obtain ⟨l, hl, -⟩ := w.space s hs
    exact ⟨_, hl, eq, fun none => absurd none held⟩
  record := by rw [w.processes]; exact c.record

theorem release (c : Custody base id holders h) (ne : who ≠ .record) (mem : who ∈ holders) :
    Custody base id (holders.erase who) (h.release id who) where
  orderly := c.orderly.release id ne
  others i ne := by
    rw [Host.release, getElem?_modifySpace, c.others i ne]
    simp [ne.symm]
  records := c.records
  space := by
    obtain ⟨s, hs, held, -⟩ := c.space
    refine ⟨s.release who, ?_, by rw [Space.release, held], fun none => ?_⟩
    · rw [Host.release, getElem?_modifySpace, hs]
      simp
    · exact Space.gone_of_none held mem (c.orderly.spaces id s hs).2 none
  record := by
    simp only [List.mem_erase_of_ne ne.symm]
    exact c.record

theorem hold (c : Custody base id holders h) (ne : who ≠ .record) :
    Custody base id (who :: holders) (h.hold id who) where
  orderly := c.orderly.modifySpace fun s _ => s.follows_hold who
  others i ne := by
    rw [Host.hold, getElem?_modifySpace, c.others i ne]
    simp [ne.symm]
  records := c.records
  space := by
    obtain ⟨s, hs, held, -⟩ := c.space
    refine ⟨{ s with holders := who :: s.holders }, ?_, by rw [held], ?_⟩
    · rw [Host.hold, getElem?_modifySpace, hs]
      simp
    · exact fun none => absurd none (List.cons_ne_nil _ _)
  record := by
    simp only [List.mem_cons, ne.symm, false_or]
    exact c.record

theorem removeRecord (c : Custody base id [.record] h) :
    Custody base id [] (h.removeRecord (pidOf id)) where
  orderly := c.orderly.removeRecord _
  others i ne := by
    rw [getElem?_removeRecord, c.record, c.others i ne]
    simp [ne.symm]
  records pid ne := by
    rw [removeRecord_processes, ProcessTable.get?_remove, if_neg ne]
    exact c.records pid ne
  space := by
    obtain ⟨s, hs, held, -⟩ := c.space
    refine ⟨s.release .record, ?_, by rw [Space.release, held]; rfl, fun _ => ?_⟩
    · rw [getElem?_removeRecord, c.record, hs]
      simp
    · exact Space.gone_of_last held (c.orderly.spaces id s hs).2
  record := by
    rw [removeRecord_processes, ProcessTable.get?_remove]
    simp

theorem addRecord (c : Custody base id [.linkage] h) (name : String) :
    Custody base id [.record, .linkage] (h.addRecord (pidOf id) name id) := by
  obtain ⟨s, hs, held, -⟩ := c.space
  have absent : h.processes.get? (pidOf id) = none := by simpa using c.record
  have fresh : h.removeRecord (pidOf id) = h := by rw [Host.removeRecord, absent]
  have spaces : (h.addRecord (pidOf id) name id).spaces = (h.hold id .record).spaces := by
    rw [Host.addRecord, fresh]
  refine ⟨c.orderly.addRecord name hs, fun i ne => ?_, fun pid ne => ?_, ?_, ?_⟩
  · rw [spaces, Host.hold, getElem?_modifySpace, c.others i ne]
    simp [ne.symm]
  · rw [addRecord_processes, ProcessTable.get?_insert, if_neg ne]
    exact c.records pid ne
  · refine ⟨{ s with holders := .record :: s.holders }, ?_, by rw [held], ?_⟩
    · rw [spaces, Host.hold, getElem?_modifySpace, hs]
      simp
    · exact fun none => absurd none (List.cons_ne_nil _ _)
  · rw [addRecord_processes, ProcessTable.get?_insert]
    simp

theorem ready (c : Custody base id holders h) (held : holders ≠ []) (pid : Pid) (entry : Word) :
    Custody base id (.context :: holders) (h.ready id pid entry) := by
  have collected := c.works (h.works_modifySpace id Linkage.collect fun l _ => by
    rw [Linkage.collect_arena]
    exact .refl _) held
  exact (collected.hold context_ne).same rfl rfl

theorem dropTask {t : Task} (c : Custody base id [.context, .record, .linkage] h)
    (space : t.space = id) : Custody base id [.record] (h.dropTask t) := by
  have first := c.release context_ne (by simp)
  have second := first.release linkage_ne (by decide)
  rw [Host.dropTask, space]
  exact second

theorem newLinkage (o : h.Orderly) (room : h.spaces.length + 1 < 2 ^ 32) :
    Custody h.newLinkage.2 h.spaces.length [.linkage] h.newLinkage.2 where
  orderly := o.newLinkage
  others _ _ := rfl
  records _ _ := rfl
  space := ⟨_, h.newLinkage_space, rfl, fun none => absurd none (List.cons_ne_nil _ _)⟩
  record := by
    have absent : h.processes.get? (pidOf h.spaces.length) = none := by
      refine List.lookup_eq_none_iff.mpr fun e he => bne_iff_ne.mpr fun eq => ?_
      obtain ⟨named, s, hs, -⟩ := o.records e he
      have lt := (List.getElem?_eq_some_iff.mp hs).1
      have same := pidOf_inj (by omega) (by omega) (eq.trans named)
      omega
    change (h.processes.get? _).map _ = _
    rw [absent]
    simp

theorem before_newLinkage (c : Custody h i others h) :
    Custody h.newLinkage.2 i others h.newLinkage.2 where
  orderly := c.orderly.newLinkage
  others _ _ := rfl
  records _ _ := rfl
  space := by
    obtain ⟨s, hs, rest⟩ := c.space
    have lt := (List.getElem?_eq_some_iff.mp hs).1
    exact ⟨s, (List.getElem?_append_left lt).trans hs, rest⟩
  record := c.record

end Custody

end Host

end AppHost
