import AppHost.Library.Closure
import AppHost.Proofs.File.Location
/-! Where the bytes of libraries come from. Whatever a registry opens is one of its buffers or a
file of the file system, so the names that libraries can need are known in advance. -/
namespace AppHost

theorem mem_of_lookup {α β : Type} [BEq α] [LawfulBEq α] {entries : List (α × β)} {key : α}
    {value : β} (h : entries.lookup key = some value) : (key, value) ∈ entries := by
  obtain ⟨before, rest, rfl, -⟩ := List.lookup_eq_some_iff.mp h
  exact List.mem_append_right before List.mem_cons_self

namespace Linkage

variable {σ : Type} [Memory.Allocator σ]

theorem mem_contents {libraries : LibraryRegistry} {files : FileSystem} {name : String}
    {bytes : Bytes} (h : libraries.openLibrary files name = .ok (some (.ok bytes))) :
    bytes ∈ contents libraries files := by
  have opened : ∀ path, (files.openPath path).map some = .ok (some (.ok bytes)) →
      bytes ∈ contents libraries files := by
    intro path found
    cases ho : files.openPath path with
    | error e => simp [ho, Except.map] at found
    | ok handle =>
      simp only [ho, Except.map, Except.ok.injEq, Option.some.injEq] at found
      subst found
      have stored := FileSystem.lookup_of_isFile (FileSystem.isFile_of_openPath ho)
      rw [ho] at stored
      exact List.mem_append_right _ (List.mem_filterMap.mpr ⟨_, mem_of_lookup stored, rfl⟩)
  unfold LibraryRegistry.openLibrary at h
  split at h
  · rename_i found
    cases h
    exact List.mem_append_left _ (List.mem_filterMap.mpr ⟨_, mem_of_lookup found, rfl⟩)
  · exact opened _ h
  · split at h
    · exact opened _ h
    · cases h

end Linkage

end AppHost
