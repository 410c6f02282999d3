import AppHost.Proofs.Text.Utf8
import AppHost.Symbol.Table
import Mathlib.Data.List.Nodup
import Mathlib.Data.String.Basic
/-! Tables of symbols that were filled by binding names hold each name once, in byte order. Of
several bindings of a name, the last one counts. -/
namespace AppHost.SymbolTable

def Sorted (t : SymbolTable) : Prop := t.entries.Pairwise fun e f => e.1 < f.1

theorem sorted_empty : empty.Sorted := .nil

theorem mem_names {t : SymbolTable} {name : String} :
    name ∈ t.names ↔ ∃ address, t.get? name = some address := by
  unfold names get?
  constructor
  · intro mem
    obtain ⟨e, he, rfl⟩ := List.mem_map.mp mem
    cases found : t.entries.lookup e.1 with
    | some address => exact ⟨address, rfl⟩
    | none => simpa using List.lookup_eq_none_iff.mp found e he
  · rintro ⟨address, found⟩
    obtain ⟨before, after, split, -⟩ := List.lookup_eq_some_iff.mp found
    simp [split]

theorem mem_bind {name : String} {address : Word} {entries : List (String × Word)}
    {e : String × Word} (h : e ∈ bind name address entries) :
    e = (name, address) ∨ e ∈ entries := by
  induction entries with
  | nil => exact Or.inl (List.mem_singleton.mp h)
  | cons first rest ih =>
    unfold bind at h
    split at h
    · rcases List.mem_cons.mp h with rfl | h
      · exact Or.inr List.mem_cons_self
      · exact (ih h).imp_right (List.mem_cons_of_mem first)
    · split at h
      · exact (List.mem_cons.mp h).imp_right (List.mem_cons_of_mem first)
      · exact List.mem_cons.mp h

theorem Sorted.insert {t : SymbolTable} (h : t.Sorted) (name : String) (address : Word) :
    (t.insert name address).Sorted := by
  unfold Sorted SymbolTable.insert
  unfold Sorted at h
  generalize t.entries = entries at h
  induction entries with
  | nil => exact List.pairwise_singleton _ _
  | cons first rest ih =>
    obtain ⟨below, later⟩ := List.pairwise_cons.mp h
    unfold bind
    split
    · rename_i lt
      refine List.pairwise_cons.mpr ⟨fun e he => ?_, ih later⟩
      rcases mem_bind he with rfl | he
      · exact lt
      · exact below e he
    · rename_i ge
      split
      · rename_i eq
        have eq : first.1 = name := by simpa using eq
        exact List.pairwise_cons.mpr ⟨fun e he => eq ▸ below e he, later⟩
      · rename_i ne
        have lt : name < first.1 := by
          rcases lt_trichotomy name first.1 with lt | eq | gt
          · exact lt
          · exact absurd eq.symm (by simpa using ne)
          · exact absurd gt ge
        refine List.pairwise_cons.mpr ⟨fun e he => ?_, h⟩
        rcases List.mem_cons.mp he with rfl | he
        · exact lt
        · exact lt_trans lt (below e he)

theorem Sorted.insertAll {t : SymbolTable} (h : t.Sorted) (pairs : List (String × Word)) :
    (t.insertAll pairs).Sorted := by
  unfold SymbolTable.insertAll
  induction pairs generalizing t with
  | nil => exact h
  | cons e rest ih => exact ih (h.insert e.1 e.2)

theorem Sorted.of_names {t other : SymbolTable} (h : t.Sorted) (names : other.names = t.names) :
    other.Sorted := by
  have ascending : t.names.Pairwise (· < ·) := List.pairwise_map.mpr h
  rw [← names] at ascending
  exact List.pairwise_map.mp ascending

theorem Sorted.distinct {t : SymbolTable} (h : t.Sorted) : t.names.Nodup :=
  List.pairwise_map.mpr (h.imp fun lt => ne_of_lt lt)

theorem Sorted.byte_order {t : SymbolTable} (h : t.Sorted) :
    (t.names.map Text.utf8).Pairwise (· < ·) := by
  unfold names
  rw [List.map_map]
  exact List.pairwise_map.mpr (h.imp fun lt => Text.utf8_lt lt)

theorem Sorted.get?_of_mem {t : SymbolTable} (h : t.Sorted) {name : String} {address : Word}
    (mem : (name, address) ∈ t.entries) : t.get? name = some address := by
  obtain ⟨before, after, split⟩ := List.append_of_mem mem
  refine List.lookup_eq_some_iff.mpr ⟨before, after, split, fun e he => ?_⟩
  unfold Sorted at h
  rw [split] at h
  have lt := (List.pairwise_append.mp h).2.2 e he (name, address) List.mem_cons_self
  exact bne_iff_ne.mpr (ne_of_gt lt)

theorem get?_insertAll (t : SymbolTable) (pairs : List (String × Word)) (name : String) :
    (t.insertAll pairs).get? name = (pairs.reverse.lookup name).or (t.get? name) := by
  unfold insertAll
  induction pairs generalizing t with
  | nil => rfl
  | cons e rest ih =>
    obtain ⟨key, address⟩ := e
    rw [List.foldl_cons, ih, get?_insert, List.reverse_cons, List.lookup_append, Option.or_assoc]
    by_cases h : name = key
    · subst h
      simp
    · have ne : (name == key) = false := beq_false_of_ne h
      simp [List.lookup_cons, h, ne]

theorem lookup_reverse {entries : List (String × Word)} (distinct : (entries.map (·.1)).Nodup)
    (name : String) : entries.reverse.lookup name = entries.lookup name := by
  induction entries with
  | nil => rfl
  | cons e rest ih =>
    obtain ⟨key, address⟩ := e
    obtain ⟨fresh, distinct⟩ := List.nodup_cons.mp distinct
    rw [List.reverse_cons, List.lookup_append, ih distinct]
    by_cases h : name = key
    · subst h
      have absent : rest.lookup name = none := by
        refine List.lookup_eq_none_iff.mpr fun f hf => bne_iff_ne.mpr ?_
        intro eq
        exact fresh (List.mem_map.mpr ⟨f, hf, eq.symm⟩)
      simp [absent]
    · have ne : (name == key) = false := beq_false_of_ne h
      simp [List.lookup_cons, ne]

theorem Sorted.get?_merge {other : SymbolTable} (h : other.Sorted) (t : SymbolTable)
    (name : String) : (t.merge other).get? name = (other.get? name).or (t.get? name) := by
  unfold merge
  rw [get?_insertAll, lookup_reverse h.distinct]
  rfl

end AppHost.SymbolTable
