import AppHost.Proofs.Linkage.Lifecycle
/-! What names are bound to. A table filled by any series of loads binds each name to the one of
its definitions that the policy chooses, in the order of the modules and of the exports in each. -/
namespace AppHost

open Memory

namespace CollisionPolicy

/-- The definition of a name that counts, of definitions in the order they were made. -/
def choose (policy : CollisionPolicy) (definitions : List (String × Word)) (name : String) :
    Option Word :=
  match policy with
  | .lastWins => definitions.reverse.lookup name
  | .firstWins => definitions.lookup name

@[simp] theorem choose_nil (policy : CollisionPolicy) (name : String) :
    policy.choose [] name = none := by
  cases policy <;> rfl

theorem choose_concat (policy : CollisionPolicy) (definitions : List (String × Word))
    (defined name : String) (address : Word) :
    policy.choose (definitions ++ [(defined, address)]) name =
      if name = defined then
        match policy with
        | .lastWins => some address
        | .firstWins => some ((policy.choose definitions name).getD address)
      else policy.choose definitions name := by
  by_cases same : name = defined
  · subst same
    cases policy with
    | lastWins => simp [choose]
    | firstWins =>
      rw [if_pos rfl]
      simp only [choose, List.lookup_append]
      cases definitions.lookup name <;> simp
  · have other : (name == defined) = false := beq_false_of_ne same
    rw [if_neg same]
    cases policy <;> simp [choose, List.lookup_append, List.lookup_cons, other]

theorem choose_eq_none (policy : CollisionPolicy) (definitions : List (String × Word))
    (name : String) : policy.choose definitions name = none ↔ ∀ d ∈ definitions, d.1 ≠ name := by
  cases policy with
  | lastWins => simp [choose, List.lookup_eq_none_iff, ne_comm]
  | firstWins => simp [choose, List.lookup_eq_none_iff, ne_comm]

end CollisionPolicy

def SymbolTable.Chosen (t : SymbolTable) (policy : CollisionPolicy)
    (definitions : List (String × Word)) : Prop :=
  ∀ name, t.get? name = policy.choose definitions name

namespace SymbolTable

variable {t : SymbolTable} {policy : CollisionPolicy} {definitions : List (String × Word)}

theorem Chosen.insertWith (h : t.Chosen policy definitions) (defined : String) (address : Word) :
    (t.insertWith policy defined address).Chosen policy (definitions ++ [(defined, address)]) := by
  intro name
  rw [CollisionPolicy.choose_concat, ← h name]
  cases policy with
  | lastWins => exact t.get?_insertWith_lastWins defined name address
  | firstWins =>
    rw [get?_insertWith_firstWins]
    by_cases same : name = defined
    · rw [if_pos same, if_pos same, same]
    · rw [if_neg same, if_neg same]

theorem Chosen.insertWith_all (h : t.Chosen policy definitions) (more : List (String × Word)) :
    (more.foldl (fun t e => t.insertWith policy e.1 e.2) t).Chosen policy
      (definitions ++ more) := by
  induction more generalizing t definitions with
  | nil => simpa using h
  | cons e rest ih =>
    have first := ih (h.insertWith e.1 e.2)
    rwa [List.append_assoc] at first

end SymbolTable

/-- What an export defines in a module with this image: its name, at its value when absolute, else
at the place that the image gives to the value. -/
def Export.definition? (e : Export) (image : Image) : Option (String × Word) :=
  (if e.absolute then some e.value else image.translate? e.value).map fun place => (e.name, place)

def LoadedModule.definitions {σ : Type} [Allocator σ] (m : LoadedModule σ) : List (String × Word) :=
  ((m.object.map (·.exports)).getD []).filterMap (·.definition? m.image)

namespace StagedModule

variable {image : Image}

theorem address_eq_ok {e : Export} {d : String × Word} (h : address image e = .ok d) :
    e.definition? image = some d ∧ d.1 = e.name := by
  unfold address at h
  unfold Export.definition?
  split at h
  · rename_i absolute
    cases h
    rw [if_pos absolute]
    exact ⟨rfl, rfl⟩
  · rename_i relative
    rw [if_neg relative]
    split at h <;> rename_i place <;> cases h
    rw [place]
    exact ⟨rfl, rfl⟩

theorem exports_of_ok {exports : List Export} {staged : List (String × Word)}
    (h : exports.mapM (address image) = .ok staged) :
    exports.filterMap (·.definition? image) = staged ∧
      staged.map (·.1) = exports.map (·.name) := by
  induction exports generalizing staged with
  | nil =>
    cases h
    exact ⟨rfl, rfl⟩
  | cons e rest ih =>
    rw [List.mapM_cons] at h
    obtain ⟨d, defined, h⟩ := bind_eq_ok.mp h
    obtain ⟨others, later, h⟩ := bind_eq_ok.mp h
    cases h
    obtain ⟨same, names⟩ := ih later
    obtain ⟨place, name⟩ := address_eq_ok defined
    constructor
    · rw [List.filterMap_cons, place]
      exact congrArg (d :: ·) same
    · rw [List.map_cons, List.map_cons, names, name]

end StagedModule

namespace Linkage

variable {σ : Type} [Allocator σ] {l l' : Linkage σ}

theorem publishAll_symbols (module : String) (l : Linkage σ) (exports : List (String × Word)) :
    (exports.foldl (fun l (symbol, address) => publish module l symbol address) l).symbols =
      exports.foldl (fun t e => t.insertWith l.policy e.1 e.2) l.symbols := by
  induction exports generalizing l with
  | nil => rfl
  | cons e rest ih =>
    have published : (publish module l e.1 e.2).symbols =
        l.symbols.insertWith l.policy e.1 e.2 := by
      unfold publish
      split
      · simp only
        split <;> rfl
      · rfl
    obtain ⟨symbols, journal, frame⟩ := publish_frame module l e.1 e.2
    have policy : (publish module l e.1 e.2).policy = l.policy := by rw [frame]
    rw [List.foldl_cons, List.foldl_cons, ih, published, policy]

theorem add_eq (l : Linkage σ) (name : String) (object : Object σ) (image : Image)
    (staged : StagedModule) : ∃ journal, l.add name object image staged =
      { l with
        journal
        symbols := staged.exports.foldl (fun t e => t.insertWith l.policy e.1 e.2) l.symbols
        modules := l.modules ++
          [⟨name, { image with entry := staged.entry }, object.needed, some object⟩] } := by
  obtain ⟨symbols, journal, frame⟩ := publishAll_frame name l staged.exports
  have published := publishAll_symbols name l staged.exports
  rw [frame] at published
  cases published
  exact ⟨_, by simp only [add, frame]; rfl⟩

/-- The table of a linkage is what the exports of its modules make of it. -/
structure Bound (l : Linkage σ) : Prop where
  chosen : l.symbols.Chosen l.policy (l.modules.flatMap (·.definitions))
  /-- Each export of each module is defined, in order. -/
  defined : ∀ m ∈ l.modules, ∃ object, m.object = some object ∧
    m.definitions.map (·.1) = object.exports.map (·.name)

theorem bound_empty (arena : Arena σ) (parser : ObjectParser σ) (policy : CollisionPolicy) :
    (empty arena parser policy).Bound := by
  constructor
  · intro name
    exact (policy.choose_nil name).symm
  · nofun

theorem Bound.load (h : l.Bound) (name : String) (source : Except FileError Bytes)
    (executable : Bool) : (l.load name source executable).2.Bound := by
  rcases l.load_cases name source executable with
    ⟨e, arena, journal, eq⟩ | ⟨bytes, object, image, arena, staged, -, -, -, -, ready, eq⟩
  · rw [eq]
    exact ⟨h.chosen, h.defined⟩
  · obtain ⟨-, -, offered⟩ := StagedModule.of_ok ready
    obtain ⟨definitions, names⟩ := StagedModule.exports_of_ok offered
    obtain ⟨journal, added⟩ := add_eq { l.note (.parsed name) with arena } name object image staged
    have own : LoadedModule.definitions
        ⟨name, { image with entry := staged.entry }, object.needed, some object⟩ =
          staged.exports := definitions
    rw [eq, added]
    constructor
    · simp only [List.flatMap_append, List.flatMap_singleton, own]
      exact h.chosen.insertWith_all staged.exports
    · intro m hm
      rcases List.mem_append.mp hm with hm | hm
      · exact h.defined m hm
      · cases List.mem_singleton.mp hm
        exact ⟨object, rfl, by rw [own, names]⟩

theorem Bound.act (h : l.Bound) {call : LinkageCall} (load : call.IsLoad) : (l.act call).Bound := by
  cases call with
  | loadLibrary name source => exact h.load name source false
  | loadExecutable name source =>
    change (l.loadExecutable name source).2.Bound
    rcases l.loadExecutable_cases name source with ⟨e, arena, journal, eq⟩ | ⟨after, -, loaded, eq⟩
    · rw [eq]
      exact ⟨h.chosen, h.defined⟩
    · have kept := h.load name source true
      rw [loaded] at kept
      rw [eq]
      exact ⟨kept.chosen, kept.defined⟩
  | _ => exact load.elim

theorem Bound.after (h : l.Bound) {calls : List LinkageCall} (loads : ∀ c ∈ calls, c.IsLoad) :
    (l.after calls).Bound := by
  induction calls generalizing l with
  | nil => exact h
  | cons call rest ih =>
    obtain ⟨first, later⟩ := List.forall_mem_cons.mp loads
    exact ih (h.act first) later

end Linkage

end AppHost
