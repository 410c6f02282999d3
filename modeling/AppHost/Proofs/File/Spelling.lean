import AppHost.Proofs.File.Location
import Mathlib.Logic.Relation
/-! Which texts are the same path. Two texts have the same components exactly if one can be
respelled as the other: separators doubled or left at the end, and `.` put in anywhere but at the
start. -/
namespace AppHost

namespace Path

/-- A text and a shorter one for the same path: less a separator at the end, or less a piece that is
empty or `.` between two separators. -/
inductive Respells : String → String → Prop where
  | trailing {left : String} (some_left : left ≠ "") : Respells (left ++ "/") left
  | between {piece : String} (ignored : piece = "" ∨ piece = ".") (left right : String) :
      Respells (left ++ "/" ++ piece ++ "/" ++ right) (left ++ "/" ++ right)

def Alike : String → String → Prop := Relation.EqvGen Respells

theorem Respells.alike {p q : String} (h : Respells p q) : Alike p q := .rel p q h

theorem Alike.symm {p q : String} (h : Alike p q) : Alike q p := Relation.EqvGen.symm p q h

theorem Alike.trans {p q r : String} (h : Alike p q) (i : Alike q r) : Alike p r :=
  Relation.EqvGen.trans p q r h i

section Components

theorem pieces_ne_nil (path : String) : pieces path ≠ [] := by
  intro empty
  exact List.splitOn_ne_nil '/' path.toList (List.map_eq_nil_iff.mp empty)

theorem inner_behind (left right : String) :
    inner (pieces (left ++ "/" ++ right)) = inner (pieces left) ++ inner (pieces right) := by
  rw [pieces_append_separator, inner_append]

theorem components_behind {right other : String} (left : String)
    (same_names : inner (pieces right) = inner (pieces other)) :
    components (left ++ "/" ++ right) = components (left ++ "/" ++ other) := by
  have some_left : left ++ "/" ≠ "" := by simp
  have start (p : String) : (pieces (left ++ "/" ++ p)).head? = (pieces left).head? := by
    rw [pieces_append_separator, List.head?_append_of_ne_nil _ (pieces_ne_nil left)]
  unfold components
  rw [start, start, inner_behind, inner_behind, same_names, isAbsolute_append some_left,
    isAbsolute_append some_left]

theorem components_trailing {left : String} (some_left : left ≠ "") :
    components (left ++ "/") = components left := by
  have closed : pieces (left ++ "/") = pieces left ++ [""] := by
    have split := pieces_append_separator left ""
    rwa [String.append_empty] at split
  have names : inner (pieces (left ++ "/")) = inner (pieces left) := by
    rw [closed, inner_append]
    exact List.append_nil _
  unfold components
  rw [isAbsolute_append some_left, names, closed,
    List.head?_append_of_ne_nil _ (pieces_ne_nil left)]

theorem Respells.components_eq {p q : String} (h : Respells p q) : components p = components q := by
  cases h with
  | trailing some_left => exact components_trailing some_left
  | @between piece ignored left right =>
    have nothing : inner (pieces piece) = [] := by
      rcases ignored with rfl | rfl <;> rfl
    have behind : inner (pieces (piece ++ "/" ++ right)) = inner (pieces right) := by
      rw [inner_behind, nothing, List.nil_append]
    have shown := components_behind left behind
    rwa [← String.append_assoc, ← String.append_assoc] at shown

theorem Alike.components_eq {p q : String} (h : Alike p q) : components p = components q := by
  induction h with
  | rel p q h => exact h.components_eq
  | refl p => rfl
  | symm p q _ ih => exact ih.symm
  | trans p q r _ _ first second => exact first.trans second

end Components

section Spelling

def trail : List String → String
  | [] => ""
  | piece :: rest => "/" ++ piece ++ trail rest

theorem eq_append_trail {path first : String} {rest : List String}
    (split : pieces path = first :: rest) : path = first ++ trail rest := by
  have joined (piece : List Char) (later : List (List Char)) :
      String.ofList (['/'].intercalate (piece :: later)) =
        String.ofList piece ++ trail (later.map String.ofList) := by
    induction later generalizing piece with
    | nil => simp [trail]
    | cons next later ih =>
      rw [List.intercalate_cons_cons, String.ofList_append, ih, String.ofList_append, List.map_cons,
        trail]
      simp only [String.append_assoc]
  obtain ⟨piece, later, cut, rfl, rfl⟩ := List.map_eq_cons_iff.mp split
  rw [← joined, ← cut, List.intercalate_splitOn, String.ofList_toList]

theorem first_of_absolute {path first : String} {rest : List String}
    (split : pieces path = first :: rest) (absolute : isAbsolute path = true) : first = "" := by
  obtain ⟨right, chars⟩ := List.head?_eq_some_iff.mp (beq_iff_eq.mp absolute)
  have whole : path = "" ++ "/" ++ String.ofList right := by
    rw [← String.ofList_toList (s := path), chars]
    exact String.ofList_cons
  rw [whole, pieces_append_separator] at split
  exact (List.cons.inj split).1.symm

def kept (pieces : List String) : List String := pieces.filter fun p => p != "" && p != "."

theorem alike_without {piece front : String} (ignored : piece = "" ∨ piece = ".")
    (some_front : front ≠ "") (rest : List String) :
    Alike (front ++ trail (piece :: rest)) (front ++ trail rest) := by
  cases rest with
  | nil =>
    have closed : Alike (front ++ "/" ++ piece ++ "/") (front ++ "/" ++ piece) :=
      (Respells.trailing (by simp)).alike
    have opened := (Respells.between ignored front "").alike
    simp only [trail, String.append_empty, ← String.append_assoc] at closed opened ⊢
    exact (closed.symm.trans opened).trans (Respells.trailing some_front).alike
  | cons next rest =>
    have shorter := (Respells.between ignored front (next ++ trail rest)).alike
    simpa only [trail, String.append_assoc] using shorter

theorem alike_kept {front : String} (some_front : front ≠ "") (rest : List String) :
    Alike (front ++ trail rest) (front ++ trail (kept rest)) := by
  induction rest generalizing front with
  | nil => exact .refl _
  | cons piece rest ih =>
    by_cases ignored : piece = "" ∨ piece = "."
    · have same : kept (piece :: rest) = kept rest := by
        rcases ignored with rfl | rfl <;> rfl
      rw [same]
      exact (alike_without ignored some_front rest).trans (ih some_front)
    · have same : kept (piece :: rest) = piece :: kept rest := by
        rw [not_or] at ignored
        exact List.filter_cons_of_pos (by simp [ignored])
      have some_longer : front ++ "/" ++ piece ≠ "" := by simp
      rw [same]
      simpa only [trail, String.append_assoc] using ih some_longer

def text : PathComponent → String
  | .root => "/"
  | .here => "."
  | .parent => ".."
  | .name text => text

/-- One text for components, with another separator behind the root. -/
def spelling : List PathComponent → String
  | [] => ""
  | first :: rest => text first ++ trail (rest.map text)

theorem text_of_piece (piece : String) :
    text (if piece == ".." then .parent else .name piece) = piece := by
  by_cases up : piece = ".."
  · subst up
    rfl
  · rw [if_neg (by simpa using up)]
    rfl

theorem map_text_inner (pieces : List String) : (inner pieces).map text = kept pieces := by
  rw [inner, List.map_map, kept]
  exact (List.map_congr_left fun piece _ => text_of_piece piece).trans (List.map_id' _)

theorem alike_spelling (path : String) : Alike path (spelling (components path)) := by
  obtain ⟨first, rest, split⟩ := List.exists_cons_of_ne_nil (pieces_ne_nil path)
  have whole := eq_append_trail split
  -- an empty first piece is that of an absolute path, or of no text at all
  by_cases empty : first = ""
  · subst empty
    rw [String.empty_append] at whole
    cases rest with
    | nil =>
      rw [whole]
      exact .refl _
    | cons next rest =>
      have absolute : isAbsolute path = true := by
        rw [whole, trail, String.append_assoc, isAbsolute_append (by decide)]
        rfl
      have read : components path = .root :: inner (next :: rest) := by
        rw [components, if_pos absolute, split]
        rfl
      have doubled : Alike ("/" ++ path) path := by
        have shorter := (Respells.between (Or.inl rfl) "" (next ++ trail rest)).alike
        rw [String.empty_append, String.append_empty, String.append_assoc] at shorter
        rw [whole, trail, String.append_assoc]
        exact shorter
      rw [read, spelling, map_text_inner]
      apply doubled.symm.trans
      rw [whole]
      exact alike_kept (by decide) (next :: rest)
  · have relative : ¬ isAbsolute path = true := fun absolute =>
      empty (first_of_absolute split absolute)
    have spelled : spelling (components path) = first ++ trail (kept rest) := by
      rw [components, if_neg relative, split, List.head?_cons, ← map_text_inner]
      by_cases here : first = "."
      · subst here
        rfl
      · have counts : ¬ (first == "" || first == ".") = true := by simp [empty, here]
        rw [if_neg (by simpa using here), inner_cons, if_neg counts, spelling, text_of_piece]
    rw [spelled]
    conv => lhs; rw [whole]
    exact alike_kept empty rest

/-- Two texts are compared as the same path exactly if one can be respelled as the other. -/
theorem same_iff_alike {p q : String} : same p q = true ↔ Alike p q := by
  rw [same_iff]
  constructor
  · intro equal
    exact (alike_spelling p).trans (equal ▸ (alike_spelling q).symm)
  · exact Alike.components_eq

instance (p q : String) : Decidable (Alike p q) := decidable_of_iff _ same_iff_alike

example : Alike "/lib//./x/." "/lib/x" ∧ ¬ Alike "./lib" "lib" := by decide

end Spelling

end Path

end AppHost
