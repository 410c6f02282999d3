import AppHost.File.System
import Mathlib.Data.Finset.Preimage
import Mathlib.Data.Fintype.EquivFin
/-! Where paths lead. Each component of a path leads from one location to the next, whatever is
there, and an open file is the one at the location that its path leads to. -/
namespace AppHost

namespace Path

def step (at_ : Location) : PathComponent → Location
  | .root => []
  | .here => at_
  | .parent => at_.dropLast
  | .name text => at_ ++ [text]

def walk (start : Location) (components : List PathComponent) : Location :=
  components.foldl step start

/-- Whether components lead nowhere above their start, once they are `depth` names below it. -/
def stays : ℕ → List PathComponent → Bool
  | _, [] => true
  | _, .root :: _ => false
  | depth, .here :: rest => stays depth rest
  | depth, .parent :: rest => depth != 0 && stays (depth - 1) rest
  | depth, .name _ :: rest => stays (depth + 1) rest

section Walking

variable {start base inner : Location} {path : List PathComponent} {name top : String}

theorem walk_cons (start : Location) (component : PathComponent) (rest : List PathComponent) :
    walk start (component :: rest) = walk (step start component) rest := rfl

theorem walk_append (start : Location) (first rest : List PathComponent) :
    walk start (first ++ rest) = walk (walk start first) rest :=
  List.foldl_append

theorem stays_of_not_mem (no_root : .root ∉ path) (no_parent : .parent ∉ path) (depth : ℕ) :
    stays depth path = true := by
  induction path generalizing depth with
  | nil => rfl
  | cons component rest ih =>
    have later := ih (fun met => no_root (List.mem_cons_of_mem component met))
      fun met => no_parent (List.mem_cons_of_mem component met)
    cases component with
    | root => exact absurd List.mem_cons_self no_root
    | here => exact later depth
    | parent => exact absurd List.mem_cons_self no_parent
    | name text => exact later (depth + 1)

theorem mem_walk (h : name ∈ walk start path) : name ∈ start ∨ .name name ∈ path := by
  induction path generalizing start with
  | nil => exact Or.inl h
  | cons component rest ih =>
    rcases ih h with earlier | later
    · cases component with
      | root => cases earlier
      | here => exact Or.inl earlier
      | parent => exact Or.inl (List.mem_of_mem_dropLast earlier)
      | name text =>
        rcases List.mem_append.mp earlier with earlier | here
        · exact Or.inl earlier
        · cases List.mem_singleton.mp here
          exact Or.inr List.mem_cons_self
    · exact Or.inr (List.mem_cons_of_mem component later)

theorem prefix_of_stays (h : stays inner.length path = true) :
    base <+: walk (base ++ inner) path := by
  induction path generalizing inner with
  | nil => exact List.prefix_append base inner
  | cons component rest ih =>
    rw [walk_cons]
    cases component with
    | root => cases h
    | here => exact ih h
    | parent =>
      rw [stays, Bool.and_eq_true] at h
      cases inner using List.reverseRecOn with
      | nil => cases h.1
      | append_singleton above last =>
        rw [List.length_append] at h
        rw [step, ← List.append_assoc, List.dropLast_concat]
        exact ih h.2
    | name text =>
      rw [step, List.append_assoc]
      apply ih
      rw [List.length_append]
      exact h

/-- Components that do not stay lead out of a name above their start that is none of them. -/
theorem not_mem_walk_of_climbs (h : stays inner.length path = false) (fresh : .name top ∉ path)
    (other : top ∉ inner) : top ∉ walk (top :: inner) path := by
  induction path generalizing inner with
  | nil => cases h
  | cons component rest ih =>
    obtain ⟨ne, later⟩ := List.ne_and_not_mem_of_not_mem_cons fresh
    have left_behind : top ∉ walk [] rest := by
      intro met
      rcases mem_walk met with start | rest
      · cases start
      · exact later rest
    rw [walk_cons]
    cases component with
    | root => exact left_behind
    | here => exact ih h later other
    | parent =>
      cases inner using List.reverseRecOn with
      | nil => exact left_behind
      | append_singleton above last =>
        rw [step, ← List.cons_append, List.dropLast_concat]
        refine ih ?_ later fun met => other (List.mem_append_left _ met)
        simpa [stays] using h
    | name text =>
      rw [step, List.cons_append]
      refine ih ?_ later ?_
      · rw [List.length_append]
        exact h
      · intro met
        rcases List.mem_append.mp met with met | here
        · exact other met
        · exact ne (congrArg PathComponent.name (List.mem_singleton.mp here))

theorem forall_prefix_iff : (∀ start, start <+: walk start path) ↔ stays 0 path = true := by
  constructor
  · intro below
    rw [← Bool.not_eq_false]
    intro climbs
    have injective : Function.Injective PathComponent.name := fun _ _ => PathComponent.name.inj
    obtain ⟨top, fresh⟩ :=
      Infinite.exists_notMem_finset (path.toFinset.preimage .name injective.injOn)
    rw [Finset.mem_preimage, List.mem_toFinset] at fresh
    have out : top ∉ walk [top] path :=
      not_mem_walk_of_climbs climbs fresh List.not_mem_nil
    exact out ((below [top]).subset List.mem_cons_self)
  · intro h start
    have below : start <+: walk (start ++ []) path := prefix_of_stays h
    rwa [List.append_nil] at below

end Walking

theorem pieces_append_separator (left right : String) :
    pieces (left ++ "/" ++ right) = pieces left ++ pieces right := by
  have separator : "/".toList = ['/'] := rfl
  rw [pieces, String.toList_append, String.toList_append, separator, List.append_assoc,
    List.singleton_append, List.splitOn_append_cons_self, List.map_append]
  rfl

theorem inner_append (first rest : List String) :
    inner (first ++ rest) = inner first ++ inner rest := by
  rw [inner, List.filter_append, List.map_append]
  rfl

theorem inner_cons (piece : String) (rest : List String) :
    inner (piece :: rest) =
      if piece == "" || piece == "." then inner rest
      else (if piece == ".." then .parent else .name piece) :: inner rest := by
  have kept : (piece != "" && piece != ".") = !(piece == "" || piece == ".") :=
    (Bool.not_or _ _).symm
  rw [inner, List.filter_cons, kept]
  cases piece == "" || piece == "." with
  | true => rfl
  | false => rfl

theorem root_not_mem_inner (pieces : List String) : .root ∉ inner pieces := by
  intro met
  obtain ⟨piece, -, made⟩ := List.mem_map.mp met
  split at made <;> cases made

theorem walk_components (start : Location) (path : String) :
    walk start (components path) =
      walk (if isAbsolute path then [] else start) (inner (pieces path)) := by
  rw [components]
  split
  · rfl
  · split <;> rfl

theorem root_not_mem_components {path : String} (relative : isAbsolute path = false) :
    .root ∉ components path := by
  rw [components, relative, if_neg Bool.false_ne_true]
  split
  · intro met
    rcases List.mem_cons.mp met with here | later
    · cases here
    · exact root_not_mem_inner _ later
  · exact root_not_mem_inner _

theorem isAbsolute_append {left : String} (some_left : left ≠ "") (right : String) :
    isAbsolute (left ++ right) = isAbsolute left := by
  rw [isAbsolute, isAbsolute, String.toList_append]
  cases chars : left.toList with
  | nil => exact absurd (String.toList_eq_nil_iff.mp chars) some_left
  | cons c rest => rfl

theorem join_cases {name : String} (relative : isAbsolute name = false) (dir : String) :
    (dir = "" ∧ join dir name = name) ∨
    (∃ above, dir = above ++ "/" ∧ join dir name = above ++ "/" ++ name) ∨
    (dir ≠ "" ∧ join dir name = dir ++ "/" ++ name) := by
  rw [join, relative, if_neg Bool.false_ne_true]
  by_cases none : dir = ""
  · subst none
    exact Or.inl ⟨rfl, String.empty_append⟩
  by_cases closed : dir.toList.getLast? = some '/'
  · obtain ⟨above, split⟩ := List.getLast?_eq_some_iff.mp closed
    have dir_eq : dir = String.ofList above ++ "/" := by
      rw [← String.toList_inj, String.toList_append, split, String.toList_ofList]
      rfl
    refine Or.inr (Or.inl ⟨_, dir_eq, ?_⟩)
    rw [← dir_eq]
    simp [closed]
  · refine Or.inr (Or.inr ⟨none, ?_⟩)
    simp [none, closed]

theorem isAbsolute_join {name : String} (relative : isAbsolute name = false) (dir : String) :
    isAbsolute (join dir name) = isAbsolute dir := by
  rcases join_cases relative dir with ⟨rfl, joined⟩ | ⟨above, rfl, joined⟩ | ⟨some_dir, joined⟩
  · rw [joined, relative]
    rfl
  · have some_left : above ++ "/" ≠ "" := by simp
    rw [joined, isAbsolute_append some_left]
  · have some_left : dir ++ "/" ≠ "" := by simp
    rw [joined, isAbsolute_append some_left, isAbsolute_append some_dir]

theorem inner_join {name : String} (relative : isAbsolute name = false) (dir : String) :
    inner (pieces (join dir name)) = inner (pieces dir) ++ inner (pieces name) := by
  rcases join_cases relative dir with ⟨rfl, joined⟩ | ⟨above, rfl, joined⟩ | ⟨-, joined⟩
  · rw [joined]
    rfl
  · have nothing : pieces (above ++ "/") = pieces above ++ pieces "" := by
      rw [← pieces_append_separator, String.append_empty]
    rw [joined, pieces_append_separator, nothing, inner_append, inner_append]
    exact congrArg (· ++ inner (pieces name)) (List.append_nil _).symm
  · rw [joined, pieces_append_separator, inner_append]

theorem walk_join {name : String} (relative : isAbsolute name = false) (dir : String)
    (start : Location) : walk start (components (join dir name)) =
      walk (walk start (components dir)) (components name) := by
  rw [walk_components, walk_components, walk_components, isAbsolute_join relative,
    inner_join relative, walk_append, relative]
  rfl

end Path

namespace FileSystem

variable {fs : FileSystem} {path : String} {opened : Except FileError Handle}

def locate (fs : FileSystem) (path : String) : Location :=
  Path.walk fs.working (Path.components path)

theorem locate_join {name : String} (relative : Path.isAbsolute name = false) (fs : FileSystem)
    (dir : String) :
    fs.locate (Path.join dir name) = Path.walk (fs.locate dir) (Path.components name) :=
  Path.walk_join relative dir fs.working

/-- Following pieces ends where they lead, in the directory or the file that is there. -/
theorem follow_eq_ok {pieces : List String} {at_ : Location} {node : FileNode}
    (h : fs.follow pieces (.directory at_) = .ok node) :
    node = .directory (Path.walk at_ (Path.inner pieces)) ∨ ∃ opened, node = .file opened ∧
      fs.files.lookup (Path.walk at_ (Path.inner pieces)) = some opened := by
  induction pieces generalizing at_ with
  | nil =>
    cases h
    exact Or.inl rfl
  | cons piece rest ih =>
    rw [follow] at h
    rw [Path.inner_cons]
    by_cases ignored : (piece == "" || piece == ".") = true
    · rw [if_pos ignored] at h ⊢
      exact ih h
    rw [if_neg ignored] at h ⊢
    by_cases parent : (piece == "..") = true
    · rw [if_pos parent] at h ⊢
      exact ih h
    rw [if_neg parent] at h ⊢
    split at h
    · cases h
    split at h
    · rename_i child found
      rw [child?] at found
      split at found
      · rename_i opened stored
        cases found
        cases rest with
        | nil =>
          cases h
          exact Or.inr ⟨opened, rfl, stored⟩
        -- there is nothing below a file
        | cons => cases h
      · split at found
        · cases found
          exact ih h
        · cases found
    · cases h

theorem lookup_of_find (h : fs.find path = .ok (.file opened)) :
    fs.files.lookup (fs.locate path) = some opened := by
  rw [find] at h
  split at h
  · cases h
  split at h
  · cases h
  split at h
  · cases h
  rw [locate, Path.walk_components]
  rcases follow_eq_ok h with directory | ⟨stored, same, found⟩
  · cases directory
  · cases same
    exact found

/-- Opening a regular file gives what is stored for it, an error too. -/
theorem lookup_of_isFile (h : fs.isFile path = true) :
    fs.files.lookup (fs.locate path) = some (fs.openPath path) := by
  rw [isFile] at h
  split at h
  · rename_i opened found
    rw [openPath, found]
    exact lookup_of_find found
  · cases h

theorem isFile_of_openPath {bytes : Bytes} (h : fs.openPath path = .ok (.ok bytes)) :
    fs.isFile path = true := by
  rw [openPath] at h
  split at h
  · cases h
  · rename_i found
    rw [isFile, found]
  · cases h

end FileSystem

end AppHost
