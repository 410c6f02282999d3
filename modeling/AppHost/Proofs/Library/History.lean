import AppHost.Library.Call
import AppHost.Proofs.File.Spelling
import AppHost.Proofs.Library.Lookup
/-! What a registry opens after any calls. The calls alone decide it: of a name the last one that
registers or unregisters it, of a directory the last one that added or removed its path. -/
namespace AppHost

open AppHost.Path (Alike)

namespace RegistryCall

def Concerns (name : String) : RegistryCall → Prop
  | .register other _ => other = name
  | .unregister other => other = name
  | .addDir _ => False
  | .removeDir _ => False

/-- After this call, with its answer, an earlier addition of the directory does not count. -/
def Supersedes (dir : String) : RegistryCall × Bool → Prop
  | (.addDir other, true) => Alike dir other
  | (.removeDir other, _) => Alike dir other
  | _ => False

instance (dir : String) (entry : RegistryCall × Bool) : Decidable (Supersedes dir entry) := by
  unfold Supersedes
  split <;> infer_instance

def added? : RegistryCall × Bool → Option String
  | (.addDir dir, true) => some dir
  | _ => none

/-- The directories that calls with these answers leave: every path in the place of its last
addition that took effect, unless it was removed since. -/
def standing : List (RegistryCall × Bool) → List String
  | [] => []
  | entry :: later =>
    match added? entry with
    | none => standing later
    | some dir =>
      if ∃ next ∈ later, Supersedes dir next then standing later else dir :: standing later

def Registers (calls : List RegistryCall) (name : String) (source : LibrarySource) : Prop :=
  ∃ before later, calls = before ++ .register name source :: later ∧
    ∀ call ∈ later, ¬ call.Concerns name

theorem standing_concat (entries : List (RegistryCall × Bool)) (last : RegistryCall × Bool) :
    standing (entries ++ [last]) =
      (standing entries).filter (fun dir => ¬ Supersedes dir last) ++ (added? last).toList := by
  induction entries with
  | nil =>
    cases added : added? last <;> simp [standing, added]
  | cons entry entries ih =>
    rw [List.cons_append, standing, standing, ih]
    cases added? entry with
    | none => rfl
    | some dir =>
      have later : (∃ next ∈ entries ++ [last], Supersedes dir next) ↔
          (∃ next ∈ entries, Supersedes dir next) ∨ Supersedes dir last := by
        simp [or_and_right, exists_or]
      simp only [later]
      by_cases old : ∃ next ∈ entries, Supersedes dir next
      · rw [if_pos (Or.inl old), if_pos old]
      · by_cases now : Supersedes dir last
        · rw [if_pos (Or.inr now), if_neg old, List.filter_cons_of_neg (by simpa using now)]
        · rw [if_neg (not_or.mpr ⟨old, now⟩), if_neg old,
            List.filter_cons_of_pos (by simpa using now), List.cons_append]

theorem registers_concat {calls : List RegistryCall} {last : RegistryCall} {name : String}
    {source : LibrarySource} : Registers (calls ++ [last]) name source ↔
      last = .register name source ∨ ¬ last.Concerns name ∧ Registers calls name source := by
  constructor
  · rintro ⟨before, later, split, free⟩
    cases later using List.reverseRecOn with
    | nil => exact Or.inl (List.cons.inj (List.append_inj' split rfl).2).1
    | append_singleton later other =>
      rw [← List.cons_append, ← List.append_assoc] at split
      obtain ⟨rfl, same⟩ := List.append_inj' split rfl
      cases same
      refine Or.inr ⟨free last (List.mem_append_right _ List.mem_cons_self), before, later, rfl, ?_⟩
      exact fun call met => free call (List.mem_append_left _ met)
  · rintro (rfl | ⟨other, before, later, rfl, free⟩)
    · exact ⟨calls, [], rfl, nofun⟩
    · refine ⟨before, later ++ [last], by simp, ?_⟩
      intro call met
      rcases List.mem_append.mp met with met | met
      · exact free call met
      · exact List.mem_singleton.mp met ▸ other

end RegistryCall

namespace LibraryRegistry

open RegistryCall (Concerns Supersedes added? standing Registers)

section Steps

variable {r : LibraryRegistry} {call : RegistryCall} {name dir : String} {source : LibrarySource}

theorem hasDir_iff : r.hasDir dir = true ↔ ∃ stored ∈ r.searchDirs, Alike stored dir := by
  simp only [hasDir, List.any_eq_true, Path.same_iff_alike]

theorem searchDirs_removeDir (r : LibraryRegistry) (dir : String) :
    (r.removeDir dir).searchDirs = r.searchDirs.filter fun stored => ¬ Alike stored dir := by
  refine List.filter_congr fun stored _ => ?_
  rw [Bool.eq_iff_iff, Bool.not_eq_true', decide_eq_true_iff, ← Path.same_iff_alike,
    Bool.not_eq_true]

theorem addDir_of_stored (h : ∃ stored ∈ r.searchDirs, Alike stored dir) :
    r.perform (.addDir dir) = (false, r) := by
  have stored : r.hasDir dir = true := hasDir_iff.mpr h
  rw [perform, addDir, if_pos stored, stored]
  rfl

theorem addDir_of_new (h : ∀ stored ∈ r.searchDirs, ¬ Alike stored dir) :
    r.perform (.addDir dir) = (true, { r with searchDirs := r.searchDirs ++ [dir] }) := by
  have new : r.hasDir dir = false := by
    rw [← Bool.not_eq_true, hasDir_iff]
    rintro ⟨stored, met, alike⟩
    exact h stored met alike
  rw [perform, addDir, new]
  rfl

theorem searchDirs_perform (r : LibraryRegistry) (call : RegistryCall) :
    let entry := (call, (r.perform call).1)
    (r.perform call).2.searchDirs =
      r.searchDirs.filter (fun dir => ¬ Supersedes dir entry) ++ (added? entry).toList := by
  cases call with
  | register name source => simp [perform, register, Supersedes, added?]
  | unregister name => simp [perform, unregister, Supersedes, added?]
  | addDir dir =>
    by_cases stored : ∃ stored ∈ r.searchDirs, Alike stored dir
    · simp [addDir_of_stored stored, Supersedes, added?]
    · have new : ∀ stored ∈ r.searchDirs, ¬ Alike stored dir := by simpa using stored
      have kept : r.searchDirs.filter (fun stored => ¬ Alike stored dir) = r.searchDirs :=
        List.filter_eq_self.mpr fun stored met => decide_eq_true (new stored met)
      rw [addDir_of_new new]
      exact congrArg (· ++ [dir]) kept.symm
  | removeDir dir =>
    rw [perform]
    exact (searchDirs_removeDir r dir).trans (List.append_nil _).symm

theorem lookup_filter_ne (entries : List (String × LibrarySource)) (other name : String) :
    (entries.filter (·.1 != other)).lookup name =
      if other = name then none else entries.lookup name := by
  by_cases asked : other = name
  · rw [if_pos asked, List.lookup_eq_none_iff]
    intro entry met
    have apart : entry.1 ≠ other := by simpa using (List.mem_filter.mp met).2
    exact bne_iff_ne.mpr fun same => apart (asked.trans same).symm
  · rw [if_neg asked]
    induction entries with
    | nil => rfl
    | cons entry entries ih =>
      obtain ⟨key, source⟩ := entry
      by_cases same : key = other
      · subst same
        have apart : (name == key) = false := beq_eq_false_iff_ne.mpr (Ne.symm asked)
        rw [List.filter_cons_of_neg (by simp), ih, List.lookup_cons, apart]
      · rw [List.filter_cons_of_pos (by simpa using same), List.lookup_cons, List.lookup_cons, ih]

theorem lookup_perform (r : LibraryRegistry) (call : RegistryCall) (name : String)
    (source : LibrarySource) : (r.perform call).2.sources.lookup name = some source ↔
      call = .register name source ∨
        ¬ call.Concerns name ∧ r.sources.lookup name = some source := by
  cases call with
  | register other given =>
    change ((other, given) :: r.sources.filter (·.1 != other)).lookup name = _ ↔ _
    rw [List.lookup_cons, lookup_filter_ne]
    by_cases asked : other = name
    · simp [asked, Concerns]
    · have apart : (name == other) = false := beq_eq_false_iff_ne.mpr (Ne.symm asked)
      simp [asked, apart, Concerns]
  | unregister other =>
    change (r.sources.filter (·.1 != other)).lookup name = _ ↔ _
    rw [lookup_filter_ne]
    by_cases asked : other = name <;> simp [asked, Concerns]
  | addDir dir =>
    have kept : (r.perform (.addDir dir)).2.sources = r.sources := by
      rw [perform, addDir]
      split <;> rfl
    simp [kept, Concerns]
  | removeDir dir => simp [perform, removeDir, Concerns]

end Steps

section Histories

theorem after_concat (r : LibraryRegistry) (calls : List RegistryCall) (last : RegistryCall) :
    r.after (calls ++ [last]) = ((r.after calls).perform last).2 :=
  r.after_append calls [last]

theorem transcript_concat (r : LibraryRegistry) (calls : List RegistryCall) (last : RegistryCall) :
    r.transcript (calls ++ [last]) =
      r.transcript calls ++ [(last, ((r.after calls).perform last).1)] :=
  r.transcript_append calls [last]

theorem searchDirs_after (calls : List RegistryCall) :
    (empty.after calls).searchDirs = standing (empty.transcript calls) := by
  induction calls using List.reverseRecOn with
  | nil => rfl
  | append_singleton calls last ih =>
    rw [after_concat, transcript_concat, RegistryCall.standing_concat, searchDirs_perform, ih]

theorem lookup_after (calls : List RegistryCall) (name : String) (source : LibrarySource) :
    (empty.after calls).sources.lookup name = some source ↔ Registers calls name source := by
  induction calls using List.reverseRecOn with
  | nil =>
    refine iff_of_false nofun ?_
    rintro ⟨before, later, split, -⟩
    simp at split
  | append_singleton calls last ih =>
    rw [after_concat, RegistryCall.registers_concat, lookup_perform, ih]

theorem pairwise_after (calls : List RegistryCall) :
    (empty.after calls).searchDirs.Pairwise fun p q => ¬ Alike p q := by
  induction calls using List.reverseRecOn with
  | nil => exact .nil
  | append_singleton calls last ih =>
    rw [after_concat]
    cases last with
    | register name source => exact ih
    | unregister name => exact ih
    | addDir dir =>
      by_cases stored : ∃ stored ∈ (empty.after calls).searchDirs, Alike stored dir
      · rw [addDir_of_stored stored]
        exact ih
      · have new : ∀ stored ∈ (empty.after calls).searchDirs, ¬ Alike stored dir := by
          simpa using stored
        rw [addDir_of_new new]
        refine List.pairwise_append.mpr ⟨ih, List.pairwise_singleton _ _, ?_⟩
        intro stored met last there
        rw [List.mem_singleton.mp there]
        exact new stored met
    | removeDir dir => exact ih.filter _

end Histories

section Directories

variable {r : LibraryRegistry}

structure KeepsDirectories (r : LibraryRegistry) : Prop where
  distinct : r.searchDirs.Pairwise fun p q => ¬ Alike p q
  added : ∀ dir, (∀ stored ∈ r.searchDirs, ¬ Alike stored dir) →
    r.perform (.addDir dir) = (true, { r with searchDirs := r.searchDirs ++ [dir] })
  known : ∀ dir, (∃ stored ∈ r.searchDirs, Alike stored dir) →
    r.perform (.addDir dir) = (false, r)
  removed : ∀ dir before stored later, r.searchDirs = before ++ stored :: later →
    Alike stored dir →
      r.perform (.removeDir dir) = (true, { r with searchDirs := before ++ later })
  missing : ∀ dir, (∀ stored ∈ r.searchDirs, ¬ Alike stored dir) →
    r.perform (.removeDir dir) = (false, r)

theorem removeDir_of_split {dir stored : String} {before later : List String}
    (distinct : r.searchDirs.Pairwise fun p q => ¬ Alike p q)
    (split : r.searchDirs = before ++ stored :: later) (alike : Alike stored dir) :
    r.perform (.removeDir dir) = (true, { r with searchDirs := before ++ later }) := by
  rw [split, List.pairwise_append, List.pairwise_cons] at distinct
  obtain ⟨-, ⟨ahead, -⟩, across⟩ := distinct
  have keeps_before : before.filter (fun other => ¬ Alike other dir) = before := by
    refine List.filter_eq_self.mpr fun other met => decide_eq_true fun same => ?_
    exact across other met stored List.mem_cons_self (same.trans alike.symm)
  have keeps_later : later.filter (fun other => ¬ Alike other dir) = later := by
    refine List.filter_eq_self.mpr fun other met => decide_eq_true fun same => ?_
    exact ahead other met (alike.trans same.symm)
  have left : (r.removeDir dir).searchDirs = before ++ later := by
    rw [searchDirs_removeDir, split, List.filter_append, keeps_before,
      List.filter_cons_of_neg (by simpa using alike), keeps_later]
  have shorter : (before ++ later).length ≠ r.searchDirs.length := by
    rw [split, List.length_append, List.length_append, List.length_cons]
    omega
  rw [perform, left, bne_iff_ne.mpr shorter, ← left]
  rfl

theorem removeDir_of_missing {dir : String} (h : ∀ stored ∈ r.searchDirs, ¬ Alike stored dir) :
    r.perform (.removeDir dir) = (false, r) := by
  have kept : (r.removeDir dir).searchDirs = r.searchDirs := by
    rw [searchDirs_removeDir]
    exact List.filter_eq_self.mpr fun stored met => decide_eq_true (h stored met)
  have same : r.removeDir dir = r := congrArg (LibraryRegistry.mk r.sources) kept
  rw [perform, same, bne_self_eq_false]

theorem keepsDirectories (distinct : r.searchDirs.Pairwise fun p q => ¬ Alike p q) :
    r.KeepsDirectories where
  distinct := distinct
  added _ := addDir_of_new
  known _ := addDir_of_stored
  removed _ _ _ _ := removeDir_of_split distinct
  missing _ := removeDir_of_missing

end Directories

/-- What the name is opened as: its registration in these calls, or else the file that it is in the
first of these directories in which it is one. Either file may refuse to be opened. -/
inductive Opens (calls : List RegistryCall) (r : LibraryRegistry) (fs : FileSystem)
    (name : String) : Except FileError (Option Handle) → Prop where
  | buffer {bytes : Bytes} (registered : Registers calls name (.buffer bytes)) :
      Opens calls r fs name (.ok (some (.ok bytes)))
  | file {path : String} {handle : Handle} (registered : Registers calls name (.file path))
      (opened : fs.openPath path = .ok handle) : Opens calls r fs name (.ok (some handle))
  | unopened {path : String} {e : FileError} (registered : Registers calls name (.file path))
      (failed : fs.openPath path = .error e) : Opens calls r fs name (.error e)
  | found {dir : String} {handle : Handle} (unregistered : ∀ source, ¬ Registers calls name source)
      (first : r.FirstIn fs name dir) (opened : fs.openPath (Path.join dir name) = .ok handle) :
      Opens calls r fs name (.ok (some handle))
  | blocked {dir : String} {e : FileError} (unregistered : ∀ source, ¬ Registers calls name source)
      (first : r.FirstIn fs name dir) (failed : fs.openPath (Path.join dir name) = .error e) :
      Opens calls r fs name (.error e)
  | nowhere (unregistered : ∀ source, ¬ Registers calls name source)
      (missing : ∀ dir ∈ r.searchDirs, fs.isFile (Path.join dir name) = false) :
      Opens calls r fs name (.ok none)

section Opening

variable {calls : List RegistryCall} {fs : FileSystem} {name : String}
  {result : Except FileError (Option Handle)}

theorem lookup_eq_none_iff :
    (empty.after calls).sources.lookup name = none ↔ ∀ source, ¬ Registers calls name source := by
  rw [Option.eq_none_iff_forall_ne_some]
  exact forall_congr' fun source => not_congr (lookup_after calls name source)

theorem candidate?_eq_none_iff {r : LibraryRegistry} :
    r.candidate? fs name = none ↔ ∀ dir ∈ r.searchDirs, fs.isFile (Path.join dir name) = false := by
  simp [candidate?]

theorem Opens.openLibrary_eq (h : Opens calls (empty.after calls) fs name result) :
    (empty.after calls).openLibrary fs name = result := by
  cases h with
  | buffer registered => rw [openLibrary, (lookup_after calls name _).mpr registered]
  | file registered opened =>
    rw [openLibrary, (lookup_after calls name _).mpr registered]
    exact congrArg (Except.map some) opened
  | unopened registered failed =>
    rw [openLibrary, (lookup_after calls name _).mpr registered]
    exact congrArg (Except.map some) failed
  | found unregistered first opened =>
    rw [openLibrary_of_firstIn (lookup_eq_none_iff.mpr unregistered) first, opened]
    rfl
  | blocked unregistered first failed =>
    rw [openLibrary_of_firstIn (lookup_eq_none_iff.mpr unregistered) first, failed]
    rfl
  | nowhere unregistered missing =>
    simp only [openLibrary, lookup_eq_none_iff.mpr unregistered, candidate?_eq_none_iff.mpr missing]

theorem exists_opens (calls : List RegistryCall) (fs : FileSystem) (name : String) :
    ∃ result, Opens calls (empty.after calls) fs name result := by
  cases found : (empty.after calls).sources.lookup name with
  | some source =>
    have registered := (lookup_after calls name source).mp found
    cases source with
    | buffer bytes => exact ⟨_, .buffer registered⟩
    | file path =>
      cases opened : fs.openPath path with
      | error e => exact ⟨_, .unopened registered opened⟩
      | ok handle => exact ⟨_, .file registered opened⟩
  | none =>
    have unregistered := lookup_eq_none_iff.mp found
    cases chosen : (empty.after calls).candidate? fs name with
    | none => exact ⟨_, .nowhere unregistered (candidate?_eq_none_iff.mp chosen)⟩
    | some path =>
      obtain ⟨dir, first, -⟩ := candidate?_eq_some_iff.mp chosen
      cases opened : fs.openPath (Path.join dir name) with
      | error e => exact ⟨_, .blocked unregistered first opened⟩
      | ok handle => exact ⟨_, .found unregistered first opened⟩

end Opening

/-- From an empty registry on, whatever is called: no two stored directories are the same path, they
stand in the order in which each was last added, and adding and removing answer whether the path was
stored. What a name is opened as is the last registration that was not removed since, or else the
file in the first directory that has it. If that one cannot be opened, nothing else is tried. -/
theorem opened_by_latest_calls (calls : List RegistryCall) :
    let r := empty.after calls
    r.KeepsDirectories ∧ r.searchDirs = standing (empty.transcript calls) ∧
      ∀ fs name result, r.openLibrary fs name = result ↔ Opens calls r fs name result := by
  refine ⟨keepsDirectories (pairwise_after calls), searchDirs_after calls, ?_⟩
  intro fs name result
  constructor
  · rintro rfl
    obtain ⟨result, opens⟩ := exists_opens calls fs name
    rwa [opens.openLibrary_eq]
  · exact Opens.openLibrary_eq

/-- The file in the first directory cannot be opened, and that in the second is not tried. -/
example :
    let fs : FileSystem := ⟨[[], ["a"], ["b"]],
      [(["a", "l.so"], .error .permissionDenied), (["b", "l.so"], .ok (.ok [1]))], []⟩
    (empty.after [.addDir "/a", .addDir "/b"]).openLibrary fs "l.so" =
      .error .permissionDenied := by
  decide

end LibraryRegistry

end AppHost
