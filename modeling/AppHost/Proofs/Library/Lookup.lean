import AppHost.Library.Registry
import AppHost.Proofs.File.Location
/-! Looking libraries up in the search directories. Nothing holds a name to the directory that it is
looked up in: the file that is opened is where the name leads from there. -/
namespace AppHost

namespace LibraryRegistry

variable {r : LibraryRegistry} {fs : FileSystem} {name : String}

/-- In this search directory the name is a regular file, and in none before it. -/
def FirstIn (r : LibraryRegistry) (fs : FileSystem) (name dir : String) : Prop :=
  ∃ before after, r.searchDirs = before ++ dir :: after ∧ fs.isFile (Path.join dir name) = true ∧
    ∀ other ∈ before, fs.isFile (Path.join other name) = false

theorem candidate?_eq_some_iff {path : String} :
    r.candidate? fs name = some path ↔
      ∃ dir, r.FirstIn fs name dir ∧ Path.join dir name = path := by
  rw [candidate?, List.find?_map, Option.map_eq_some_iff]
  refine exists_congr fun dir => and_congr_left fun _ => ?_
  rw [List.find?_eq_some_iff_append]
  constructor
  · rintro ⟨file, before, after, split, others⟩
    exact ⟨before, after, split, file, fun other met => by simpa using others other met⟩
  · rintro ⟨before, after, split, file, others⟩
    exact ⟨file, before, after, split, fun other met => by simpa using others other met⟩

theorem lookup_of_unregistered (h : r.isRegistered name = false) :
    r.sources.lookup name = none := by
  rw [List.lookup_eq_none_iff]
  intro source met
  have other := List.any_eq_false.mp h source met
  exact bne_iff_ne.mpr fun same => other (beq_iff_eq.mpr same.symm)

/-- What a search directory has is opened there, and nowhere else if that fails. -/
theorem openLibrary_of_firstIn (unregistered : r.sources.lookup name = none) {dir : String}
    (first : r.FirstIn fs name dir) :
    r.openLibrary fs name = (fs.openPath (Path.join dir name)).map some := by
  have chosen : r.candidate? fs name = some (Path.join dir name) :=
    candidate?_eq_some_iff.mpr ⟨dir, first, rfl⟩
  simp only [openLibrary, unregistered, chosen]

theorem openLibrary_eq_ok_iff (unregistered : r.isRegistered name = false) {handle : Handle} :
    r.openLibrary fs name = .ok (some handle) ↔ ∃ dir, r.FirstIn fs name dir ∧
      fs.files.lookup (fs.locate (Path.join dir name)) = some (.ok handle) := by
  have missing := lookup_of_unregistered unregistered
  have opened_there {dir : String} (first : r.FirstIn fs name dir) :
      r.openLibrary fs name = .ok (some handle) ↔
        fs.files.lookup (fs.locate (Path.join dir name)) = some (.ok handle) := by
    have ⟨_, _, _, file, _⟩ := first
    rw [openLibrary_of_firstIn missing first, FileSystem.lookup_of_isFile file, Option.some.injEq]
    cases fs.openPath (Path.join dir name) with
    | error e => exact iff_of_false nofun nofun
    | ok other => simp [Except.map]
  constructor
  · intro returned
    cases chosen : r.candidate? fs name with
    | none =>
      simp only [openLibrary, missing, chosen] at returned
      cases returned
    | some path =>
      obtain ⟨dir, first, -⟩ := candidate?_eq_some_iff.mp chosen
      exact ⟨dir, first, (opened_there first).mp returned⟩
  · rintro ⟨dir, first, stored⟩
    exact (opened_there first).mpr stored

/-- A name that is neither registered nor absolute is opened in the first search directory where it
is a regular file, as the file to which its components lead from there. That file is below the
directory if the components lead nowhere above their start, which is so without a `..` among them;
any others lead out of some directory. -/
theorem opened_below_unless_name_climbs (unregistered : r.isRegistered name = false)
    (relative : Path.isAbsolute name = false) :
    (∀ handle, r.openLibrary fs name = .ok (some handle) ↔ ∃ dir, r.FirstIn fs name dir ∧
      fs.files.lookup (fs.locate (Path.join dir name)) = some (.ok handle)) ∧
    (∀ dir, fs.locate (Path.join dir name) = Path.walk (fs.locate dir) (Path.components name) ∧
      (Path.stays 0 (Path.components name) = true →
        fs.locate dir <+: fs.locate (Path.join dir name))) ∧
    ((∀ start, start <+: Path.walk start (Path.components name)) ↔
      Path.stays 0 (Path.components name) = true) ∧
    (.parent ∉ Path.components name → Path.stays 0 (Path.components name) = true) := by
  refine ⟨fun handle => openLibrary_eq_ok_iff unregistered, ?_, Path.forall_prefix_iff, ?_⟩
  · intro dir
    have located := FileSystem.locate_join relative fs dir
    refine ⟨located, fun inside => ?_⟩
    rw [located]
    exact Path.forall_prefix_iff.mpr inside (fs.locate dir)
  · intro no_parent
    exact Path.stays_of_not_mem (Path.root_not_mem_components relative) no_parent 0

/-- A name that enters a directory and leaves it again is opened in the second directory. -/
theorem opened_below_second_directory :
    let fs : FileSystem := ⟨[[], ["w"], ["w", "lib"], ["w", "lib", "sub"]],
      [(["w", "lib", "a.so"], .ok (.ok [1]))], ["w"]⟩
    let r : LibraryRegistry := ⟨[("b.so", .buffer [2])], ["/none", "lib/"]⟩
    let name := "./sub/..//a.so"
    r.isRegistered name = false ∧ Path.isAbsolute name = false ∧
      r.openLibrary fs name = .ok (some (.ok [1])) ∧
      (∃ dir, r.FirstIn fs name dir ∧ fs.locate dir <+: fs.locate (Path.join dir name)) := by
  intro fs r name
  have unregistered : r.isRegistered name = false := by decide
  have relative : Path.isAbsolute name = false := by decide
  have returned : r.openLibrary fs name = .ok (some (.ok [1])) := by decide
  obtain ⟨opened, below, -⟩ := opened_below_unless_name_climbs unregistered relative
  obtain ⟨dir, first, -⟩ := (opened _).mp returned
  exact ⟨unregistered, relative, returned, dir, first, (below dir).2 (by decide)⟩

/-- A name with `..` opens a file that is below no search directory, and so does an absolute one. -/
theorem opened_outside_every_directory :
    let fs : FileSystem := ⟨[[], ["w"], ["lib"], ["etc"]],
      [(["lib", "a.so"], .ok (.ok [1])), (["etc", "secret"], .ok (.ok [7]))], ["w"]⟩
    let r : LibraryRegistry := ⟨[], ["/lib"]⟩
    (∀ name ∈ ["../etc/secret", "/etc/secret"], r.isRegistered name = false ∧
      r.openLibrary fs name = .ok (some (.ok [7]))) ∧
      ∀ file ∈ fs.files, file.2 = .ok (.ok [7]) →
        ∀ dir ∈ r.searchDirs, ¬ fs.locate dir <+: file.1 := by
  decide

end LibraryRegistry

end AppHost
