import AppHost.Memory.Arena
import AppHost.Text.Quoted
/-! The table of live processes, and the counter that identifiers come from. Identifiers count
up from one and wrap with their width. -/
namespace AppHost

structure ProcessRecord (α : Type) where
  name : String
  arena : α
  deriving DecidableEq, Repr

def ProcessRecord.description {α : Type} (r : ProcessRecord α) : String :=
  "ProcessRecord \x7b name: " ++ Text.quoted r.name ++ ", .. \x7d"

structure ProcessTable (α : Type) where
  next : Pid
  /-- Live records; an identifier occurs once. -/
  records : List (Pid × ProcessRecord α)
  deriving DecidableEq, Repr

namespace ProcessTable

variable {α : Type}

def empty : ProcessTable α := ⟨1, []⟩

def allocate (t : ProcessTable α) : Pid × ProcessTable α := (t.next, { t with next := t.next + 1 })

def get? (t : ProcessTable α) (pid : Pid) : Option (ProcessRecord α) := t.records.lookup pid

def remove (t : ProcessTable α) (pid : Pid) : ProcessTable α :=
  { t with records := t.records.filter (·.1 != pid) }

def insert (t : ProcessTable α) (pid : Pid) (r : ProcessRecord α) : ProcessTable α :=
  { t with records := (pid, r) :: (t.remove pid).records }

def size (t : ProcessTable α) : Nat := t.records.length

@[simp] theorem get?_empty (pid : Pid) : (empty : ProcessTable α).get? pid = none := rfl

theorem get?_remove (t : ProcessTable α) (pid other : Pid) :
    (t.remove pid).get? other = if other = pid then none else t.get? other := by
  unfold remove get?
  induction t.records with
  | nil => simp
  | cons e rest ih =>
    rw [List.filter_cons, List.lookup_cons]
    by_cases h : e.1 = pid
    · rw [if_neg (by simp [h]), ih, h]
      by_cases k : other = pid <;> simp [k, beq_false_of_ne]
    · rw [if_pos (by simp [h]), List.lookup_cons, ih]
      by_cases k : other = e.1 <;> simp [k, h, beq_false_of_ne]

theorem get?_insert (t : ProcessTable α) (pid other : Pid) (r : ProcessRecord α) :
    (t.insert pid r).get? other = if other = pid then some r else t.get? other := by
  by_cases h : other = pid
  · simp [insert, get?, h]
  · have removed := t.get?_remove pid other
    simp_all [insert, get?, List.lookup_cons, beq_false_of_ne]

theorem remove_insert (t : ProcessTable α) (pid : Pid) (r : ProcessRecord α) :
    (t.insert pid r).remove pid = t.remove pid := by
  simp [insert, remove, List.filter_filter]

theorem insert_remove (t : ProcessTable α) (pid : Pid) (r : ProcessRecord α) :
    (t.remove pid).insert pid r = t.insert pid r := by
  simp [insert, remove, List.filter_filter]

theorem remove_eq_self {t : ProcessTable α} {pid : Pid} (h : ∀ e ∈ t.records, e.1 ≠ pid) :
    t.remove pid = t := by
  have kept : t.records.filter (·.1 != pid) = t.records :=
    List.filter_eq_self.mpr fun e he => bne_iff_ne.mpr (h e he)
  simp [remove, kept]

theorem ne_of_get?_eq_none {t : ProcessTable α} {pid : Pid} (h : t.get? pid = none) :
    ∀ e ∈ t.records, e.1 ≠ pid := by
  intro e he eq
  have absent := List.lookup_eq_none_iff.mp h e he
  simp [eq] at absent

end ProcessTable

end AppHost
