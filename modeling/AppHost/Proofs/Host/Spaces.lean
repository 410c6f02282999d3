import AppHost.Host.Launch
import AppHost.Proofs.Execution.Confinement
import AppHost.Proofs.Library.BreadthFirst
/-! Who holds the memory of a host. Identifiers are handed out in order, one for each space; a
record in the table holds the space its identifier was handed out for; and every allocation in a
space is accounted for. -/
namespace AppHost

open Memory

/-- An event that is no trace of a running program. -/
def HostEvent.Silent : HostEvent → Prop
  | .context _ | .resumePointAsked .. | .executing .. | .ended .. | .hookRan .. => False
  | _ => True

/-- The identifier handed out for the space at a place. -/
def pidOf (id : ℕ) : Pid := UInt32.ofNat (id + 1)

theorem pidOf_inj {i j : ℕ} (hi : i < 2 ^ 32) (hj : j < 2 ^ 32) (h : pidOf i = pidOf j) :
    i = j := by
  have eq := congrArg UInt32.toNat h
  simp only [pidOf, UInt32.toNat_ofNat'] at eq
  omega

/-- A later state of the same space: it belongs to the same process, its allocations are still
accounted for, and its record has not let go. -/
structure Space.Follows {σ : Type} [Allocator σ] (s t : Space σ) : Prop where
  pid : t.linkage.arena.pid = s.linkage.arena.pid
  accounted : s.linkage.arena.Accounted → t.linkage.arena.Accounted
  recorded : .record ∈ s.holders → .record ∈ t.holders

namespace Space

variable {σ : Type} [Allocator σ]

theorem Follows.refl (s : Space σ) : s.Follows s := ⟨rfl, id, id⟩

theorem follows_of_reaches {s : Space σ} {l : Linkage (Audited σ)}
    (h : s.linkage.arena.Reaches l.arena) : s.Follows { s with linkage := l } :=
  ⟨h.pid, fun accounted => accounted.reaches h, id⟩

theorem follows_hold (s : Space σ) (who : Holder) :
    s.Follows { s with holders := who :: s.holders } :=
  ⟨rfl, id, List.mem_cons_of_mem who⟩

theorem follows_release (s : Space σ) {who : Holder} (ne : who ≠ .record) :
    s.Follows (s.release who) := by
  refine ⟨?_, fun accounted => ?_, fun held => ?_⟩
  · simp only [release]
    split <;> rfl
  · simp only [release]
    split
    · exact accounted.close.1
    · exact accounted
  · exact (List.mem_erase_of_ne ne.symm).mpr held

theorem release_of_last (s : Space σ) (who : Holder) (h : s.holders = [who]) :
    s.release who = ⟨{ s.linkage with arena := s.linkage.arena.close }, []⟩ := by
  simp [release, h]

end Space

namespace Host

variable {σ γ : Type} [Allocator σ]

structure Orderly (h : Host σ γ) : Prop where
  counter : h.processes.next = pidOf h.spaces.length
  spaces : ∀ (i : ℕ) (s : Space σ), h.spaces[i]? = some s →
    s.linkage.arena.pid = pidOf i ∧ s.linkage.arena.Accounted
  records : ∀ e ∈ h.processes.records, e.1 = pidOf e.2.arena ∧
    ∃ s, h.spaces[e.2.arena]? = some s ∧ .record ∈ s.holders

variable {h after : Host σ γ} {id : ℕ}

@[simp] theorem processes_note (h : Host σ γ) (e : HostEvent) :
    (h.note e).processes = h.processes := rfl

@[simp] theorem pending_note (h : Host σ γ) (e : HostEvent) : (h.note e).pending = h.pending := rfl

@[simp] theorem spaces_note (h : Host σ γ) (e : HostEvent) : (h.note e).spaces = h.spaces := rfl

@[simp] theorem processes_modifySpace (h : Host σ γ) (id : ℕ) (f : Space σ → Space σ) :
    (h.modifySpace id f).processes = h.processes := rfl

@[simp] theorem pending_modifySpace (h : Host σ γ) (id : ℕ) (f : Space σ → Space σ) :
    (h.modifySpace id f).pending = h.pending := rfl

@[simp] theorem journal_modifySpace (h : Host σ γ) (id : ℕ) (f : Space σ → Space σ) :
    (h.modifySpace id f).journal = h.journal := rfl

theorem getElem?_modifySpace (h : Host σ γ) (id i : ℕ) (f : Space σ → Space σ) :
    (h.modifySpace id f).spaces[i]? = (h.spaces[i]?).map fun s => if id = i then f s else s :=
  List.getElem?_modify f id h.spaces i

theorem Orderly.of_spaces (o : h.Orderly) (processes : after.processes = h.processes)
    (length : after.spaces.length = h.spaces.length)
    (spaces : ∀ (i : ℕ) (s : Space σ), h.spaces[i]? = some s →
      ∃ t, after.spaces[i]? = some t ∧ s.Follows t) : after.Orderly where
  counter := by rw [processes, length, o.counter]
  spaces i t ht := by
    have lt : i < h.spaces.length := length ▸ (List.getElem?_eq_some_iff.mp ht).1
    obtain ⟨t', ht', follows⟩ := spaces i _ (List.getElem?_eq_getElem lt)
    rw [ht] at ht'
    cases ht'
    obtain ⟨pid, accounted⟩ := o.spaces i _ (List.getElem?_eq_getElem lt)
    exact ⟨follows.pid.trans pid, follows.accounted accounted⟩
  records e he := by
    rw [processes] at he
    obtain ⟨pid, s, hs, held⟩ := o.records e he
    obtain ⟨t, ht, follows⟩ := spaces _ s hs
    exact ⟨pid, t, ht, follows.recorded held⟩

theorem Orderly.of_same (o : h.Orderly) (processes : after.processes = h.processes)
    (spaces : after.spaces = h.spaces) : after.Orderly :=
  o.of_spaces processes (by rw [spaces]) fun i s hs => ⟨s, spaces ▸ hs, .refl s⟩

theorem Orderly.modifySpace (o : h.Orderly) {f : Space σ → Space σ}
    (follows : ∀ s, h.spaces[id]? = some s → Space.Follows s (f s)) :
    (h.modifySpace id f).Orderly := by
  refine o.of_spaces rfl (List.length_modify _ _ _) fun i s hs => ?_
  rw [getElem?_modifySpace, hs]
  by_cases at_id : id = i
  · subst at_id
    exact ⟨f s, by simp, follows s hs⟩
  · exact ⟨s, by simp [at_id], .refl s⟩

theorem Orderly.release (o : h.Orderly) (id : ℕ) {who : Holder} (ne : who ≠ .record) :
    (h.release id who).Orderly :=
  o.modifySpace fun s _ => s.follows_release ne

theorem Orderly.newLinkage (o : h.Orderly) : h.newLinkage.2.Orderly where
  counter := by
    change h.processes.next + 1 = pidOf (h.spaces ++ [_]).length
    rw [o.counter, List.length_append, pidOf, pidOf]
    exact (UInt32.ofNat_add _ 1).symm
  spaces i s hs := by
    change (h.spaces ++ [_])[i]? = some s at hs
    rw [List.getElem?_append] at hs
    split at hs
    · exact o.spaces i s hs
    · rename_i past
      obtain ⟨last, rfl⟩ : i = h.spaces.length ∧ _ = s := by
        have lt := (List.getElem?_eq_some_iff.mp hs).1
        simp only [List.length_cons, List.length_nil] at lt
        have last : i = h.spaces.length := by omega
        subst last
        exact ⟨rfl, by simpa using hs⟩
      exact ⟨last ▸ o.counter, Arena.accounted_empty _ _⟩
  records e he := by
    obtain ⟨pid, s, hs, held⟩ := o.records e he
    exact ⟨pid, s, List.getElem?_append_left (List.getElem?_eq_some_iff.mp hs).1 ▸ hs, held⟩

theorem getElem?_removeRecord (h : Host σ γ) (pid : Pid) (i : ℕ) :
    (h.removeRecord pid).spaces[i]? = (h.spaces[i]?).map fun s =>
      if ((h.processes.get? pid).map (·.arena)) = some i then s.release .record else s := by
  unfold Host.removeRecord
  split
  · rename_i r found
    rw [found]
    exact (getElem?_modifySpace _ _ _ _).trans (by simp)
  · rename_i absent
    rw [absent]
    simp

theorem Orderly.removeRecord (o : h.Orderly) (pid : Pid) : (h.removeRecord pid).Orderly := by
  unfold Host.removeRecord
  split
  · rename_i r found
    have mem : (pid, r) ∈ h.processes.records := mem_of_lookup found
    obtain ⟨eq, -⟩ := o.records _ mem
    have spaces := fun i => getElem?_modifySpace { h with processes := h.processes.remove pid }
      r.arena i (·.release .record)
    refine ⟨?_, fun i t ht => ?_, fun e he => ?_⟩
    · exact o.counter.trans (congrArg pidOf (List.length_modify _ _ _).symm)
    · rw [Host.release, spaces, Option.map_eq_some_iff] at ht
      obtain ⟨s, hs, rfl⟩ := ht
      obtain ⟨pid, accounted⟩ := o.spaces i s hs
      split
      · simp only [Space.release]
        split
        · exact ⟨pid, accounted.close.1⟩
        · exact ⟨pid, accounted⟩
      · exact ⟨pid, accounted⟩
    · obtain ⟨old, other⟩ := List.mem_filter.mp he
      obtain ⟨named, s, hs, held⟩ := o.records e old
      have ne : r.arena ≠ e.2.arena := fun same => by
        rw [named, ← same, ← eq] at other
        simp at other
      exact ⟨named, s, by rw [Host.release, spaces, hs]; simp [ne], held⟩
  · exact o

theorem Orderly.addRecord (o : h.Orderly) (name : String) {s : Space σ}
    (hs : h.spaces[id]? = some s) : (h.addRecord (pidOf id) name id).Orderly := by
  have removed := o.removeRecord (pidOf id)
  have held : ((h.removeRecord (pidOf id)).hold id .record).Orderly :=
    removed.modifySpace fun s _ => s.follows_hold .record
  refine ⟨held.counter, held.spaces, fun e he => ?_⟩
  rcases List.mem_cons.mp he with rfl | older
  · have space := getElem?_modifySpace (h.removeRecord (pidOf id)) id id
      fun s => { s with holders := .record :: s.holders }
    rw [getElem?_removeRecord, hs] at space
    simp only [Option.map_some, if_true] at space
    exact ⟨rfl, _, space, List.mem_cons_self⟩
  · exact held.records e (List.mem_of_mem_filter older)

end Host

end AppHost
