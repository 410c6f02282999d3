import AppHost.Proofs.Linkage.Placement
import AppHost.Proofs.Word
import Mathlib.Order.Bounds.Basic
/-! The numbers of a layout. Its alignment is the greatest that a segment asks for, and it starts at
the greatest multiple of that alignment at or below the lowest segment. -/
namespace AppHost

namespace Layout

theorem foldl_choice {op : Word → Word → Word} (choice : ∀ a b, op a b = a ∨ op a b = b)
    (words : List Word) (start : Word) :
    words.foldl op start = start ∨ words.foldl op start ∈ words := by
  induction words generalizing start with
  | nil => exact Or.inl rfl
  | cons first rest ih =>
    rw [List.foldl_cons]
    rcases ih (op start first) with same | later
    · rw [same]
      refine (choice start first).imp_right fun chosen => ?_
      rw [chosen]
      exact List.mem_cons_self
    · exact Or.inr (List.mem_cons_of_mem first later)

variable {segments : List Segment} {layout : Layout}

/-- The greatest alignment that segments ask for, one if they ask for none. -/
theorem greatest_align (segments : List Segment) :
    IsGreatest (insert 1 {n | ∃ s ∈ occupied segments, s.align.toNat = n})
      (((occupied segments).map (·.align)).foldl max 1 : Word).toNat := by
  constructor
  · rcases foldl_choice Word.max_choice ((occupied segments).map (·.align)) 1 with one | greatest
    · exact Or.inl (congrArg UInt64.toNat one)
    · obtain ⟨s, hs, same⟩ := List.mem_map.mp greatest
      exact Or.inr ⟨s, hs, congrArg UInt64.toNat same⟩
  · obtain ⟨one, each⟩ := le_foldl_max ((occupied segments).map (·.align)) 1
    rintro n (rfl | ⟨s, hs, rfl⟩)
    · exact one
    · exact each s.align (List.mem_map_of_mem hs)

theorem align_greatest (h : Layout.of segments = .ok (some layout)) :
    IsGreatest (insert 1 {n | ∃ s ∈ occupied segments, s.align.toNat = n})
      layout.align.toNat := by
  obtain ⟨stops, -, -, align, -⟩ := of_eq_some h
  rw [align]
  exact greatest_align segments

theorem start_of_least (h : Layout.of segments = .ok (some layout)) :
    ∃ low, IsLeast {n | ∃ s ∈ occupied segments, s.vaddr.toNat = n} low ∧
      layout.start.toNat = low / layout.align.toNat * layout.align.toNat := by
  obtain ⟨stops, -, some_used, -, power, start, -⟩ := of_eq_some h
  rw [start, Word.toNat_alignDown power]
  have least := (foldl_min_le ((occupied segments).map (·.vaddr)) (0 - 1)).2
  refine ⟨_, ⟨?_, ?_⟩, rfl⟩
  · rcases foldl_choice Word.min_choice ((occupied segments).map (·.vaddr)) (0 - 1) with
      top | lowest
    · -- nothing lies below the greatest word, so any segment is the lowest
      obtain ⟨s, hs⟩ := List.exists_mem_of_ne_nil _ some_used
      have below := least s.vaddr (List.mem_map_of_mem hs)
      have above := s.vaddr.toNat_lt
      rw [top, show (0 - 1 : Word).toNat = 2 ^ 64 - 1 from rfl] at below ⊢
      exact ⟨s, hs, by omega⟩
    · obtain ⟨s, hs, same⟩ := List.mem_map.mp lowest
      exact ⟨s, hs, congrArg UInt64.toNat same⟩
  · rintro n ⟨s, hs, rfl⟩
    exact least s.vaddr (List.mem_map_of_mem hs)

end Layout

end AppHost
