import AppHost.Proofs.Host.Spaces
/-! Work on the linkage of one space: loading, resolving, exporting and linking. Whatever comes of
it, the table, the other spaces and the holders of this one are as before. -/
namespace AppHost.Host

open Memory

variable {σ γ : Type} [Allocator σ]

/-- Nothing was reported in between that a running program would have reported. -/
def Quiet (h after : Host σ γ) : Prop :=
  ∃ events, after.journal = h.journal ++ events ∧ ∀ e ∈ events, HostEvent.Silent e

theorem Quiet.refl (h : Host σ γ) : h.Quiet h :=
  ⟨[], (List.append_nil _).symm, fun _ he => nomatch he⟩

theorem Quiet.trans {h i j : Host σ γ} (first : h.Quiet i) (second : i.Quiet j) : h.Quiet j := by
  obtain ⟨events, hi, silent⟩ := first
  obtain ⟨later, hj, silent'⟩ := second
  refine ⟨events ++ later, by rw [hj, hi, List.append_assoc], fun e he => ?_⟩
  rcases List.mem_append.mp he with he | he
  · exact silent e he
  · exact silent' e he

theorem quiet_note (h : Host σ γ) {e : HostEvent} (silent : e.Silent) : h.Quiet (h.note e) :=
  ⟨[e], rfl, fun e' he => by rw [List.mem_singleton.mp he]; exact silent⟩

/-- The linkage of one space was worked on, through its arena's operations, and nothing else. -/
structure Works (id : ℕ) (h after : Host σ γ) : Prop where
  processes : after.processes = h.processes
  pending : after.pending = h.pending
  length : after.spaces.length = h.spaces.length
  others : ∀ i, i ≠ id → after.spaces[i]? = h.spaces[i]?
  space : ∀ s, h.spaces[id]? = some s → ∃ l, after.spaces[id]? = some ⟨l, s.holders⟩ ∧
    s.linkage.arena.Reaches l.arena
  quiet : h.Quiet after

variable {id : ℕ} {h after last : Host σ γ}

theorem Works.refl (id : ℕ) (h : Host σ γ) : Works id h h :=
  ⟨rfl, rfl, rfl, fun _ _ => rfl, fun s hs => ⟨s.linkage, hs, .refl _⟩, .refl h⟩

theorem Works.trans (first : Works id h after) (second : Works id after last) :
    Works id h last where
  processes := second.processes.trans first.processes
  pending := second.pending.trans first.pending
  length := second.length.trans first.length
  others i ne := (second.others i ne).trans (first.others i ne)
  space s hs := by
    obtain ⟨l, hl, reached⟩ := first.space s hs
    obtain ⟨l', hl', reached'⟩ := second.space _ hl
    exact ⟨l', hl', reached.trans reached'⟩
  quiet := first.quiet.trans second.quiet

theorem Works.orderly (w : Works id h after) (o : h.Orderly) : after.Orderly := by
  refine o.of_spaces w.processes w.length fun i s hs => ?_
  by_cases at_id : i = id
  · subst at_id
    obtain ⟨l, hl, reached⟩ := w.space s hs
    exact ⟨_, hl, Space.follows_of_reaches reached⟩
  · exact ⟨s, (w.others i at_id).trans hs, .refl s⟩

theorem works_note (h : Host σ γ) {e : HostEvent} (silent : e.Silent) : Works id h (h.note e) :=
  { Works.refl id h with quiet := h.quiet_note silent }

theorem works_noteAll (h : Host σ γ) {events : List HostEvent} (silent : ∀ e ∈ events, e.Silent) :
    Works id h (h.noteAll events) :=
  { Works.refl id h with quiet := ⟨events, rfl, silent⟩ }

theorem works_modifySpace (h : Host σ γ) (id : ℕ) (f : Linkage (Audited σ) → Linkage (Audited σ))
    (reaches : ∀ l, h.linkage? id = some l → l.arena.Reaches (f l).arena) :
    Works id h (h.modifySpace id fun s => { s with linkage := f s.linkage }) where
  processes := rfl
  pending := rfl
  length := List.length_modify _ _ _
  others i ne := (getElem?_modifySpace h id i _).trans (by simp [ne.symm])
  space s hs := by
    refine ⟨f s.linkage, ?_, reaches s.linkage (by simp [linkage?, hs])⟩
    rw [getElem?_modifySpace, hs]
    simp
  quiet := .refl _

theorem onLinkage_works {α : Type} {f : Linkage (Audited σ) → α × Linkage (Audited σ)} {a : α}
    (reaches : ∀ l : Linkage (Audited σ), l.arena.Reaches (f l).2.arena)
    (done : h.onLinkage id f = some (a, after)) : Works id h after := by
  unfold onLinkage at done
  obtain ⟨l, hl, done⟩ := Option.bind_eq_some_iff.mp done
  cases done
  have worked : Works id h (h.modifySpace id ({ · with linkage := (f l).2 })) := by
    refine h.works_modifySpace id (fun _ => (f l).2) fun l' hl' => ?_
    rw [hl] at hl'
    cases hl'
    exact reaches l
  refine worked.trans (works_noteAll _ fun e he => ?_)
  obtain ⟨event, -, rfl⟩ := List.mem_map.mp he
  trivial

theorem noteUnresolved_works (h : Host σ γ) (e : LaunchError) :
    Works id h (h.noteUnresolved e) := by
  unfold noteUnresolved
  split
  · exact h.works_note trivial
  · exact h.works_note trivial
  · exact .refl id h

theorem onCapabilities_works {α : Type} (h : Host σ γ) (id : ℕ)
    (f : Capabilities (CallSites γ) → α × Capabilities (CallSites γ)) :
    Works id h (h.onCapabilities f).2 := by
  have changed : Works id h { h with capabilities := (f h.capabilities).2 } :=
    { Works.refl id h with }
  refine changed.trans (works_noteAll _ fun e he => ?_)
  obtain ⟨event, -, rfl⟩ := List.mem_map.mp he
  trivial

variable [CodeGenerator γ]

theorem exportInto_works (h : Host σ γ) (id : ℕ) : Works id h (h.exportInto id).2 := by
  unfold exportInto
  have exported := h.onCapabilities_works id
    (·.exportWrapped (((h.linkage? id).map (·.symbols)).getD .empty))
  simp only
  split
  · rename_i e h₁ eq
    rw [eq] at exported
    exact exported
  · rename_i symbols h₁ eq
    rw [eq] at exported
    exact exported.trans (works_modifySpace _ id ({ · with symbols }) fun l _ => .refl l.arena)

inductive Phase where
  | load (name : String) (handle : Handle)
  | resolve
  | bind
  | link

def phase (h : Host σ γ) (id : ℕ) : Phase → Except LaunchError Unit × Host σ γ
  | .load name handle =>
    match h.onLinkage id (·.loadExecutable name handle) with
    | none => (.error .notReady, h)
    | some (.error e, h) => (.error (.cannotLoad name e), h)
    | some (.ok (), h) => (.ok (), h)
  | .resolve =>
    match h.onLinkage id (·.resolve h.settings.builtinLibraries h.libraries h.files) with
    | none => (.error .notReady, h)
    | some (.error e, h) => (.error e, h.noteUnresolved e)
    | some (.ok (), h) => (.ok (), h)
  | .bind =>
    match h.exportInto id with
    | (.error e, h) => (.error (.noCatalog e), h)
    | (.ok _, h) => (.ok (), h)
  | .link =>
    match h.onLinkage id (·.link) with
    | none => (.error .notReady, h)
    | some (.error e, h) => (.error (.cannotLink e), h)
    | some (.ok (), h) => (.ok (), h)

def phases (h : Host σ γ) (id : ℕ) : List Phase → Except LaunchError Unit × Host σ γ
  | [] => (.ok (), h)
  | phase :: rest =>
    match h.phase id phase with
    | (.error e, h) => (.error e, h)
    | (.ok (), h) => h.phases id rest

def Phase.all (name : String) (handle : Handle) : List Phase :=
  [.load name handle, .resolve, .bind, .link]

theorem prepare_eq_phases (h : Host σ γ) (id : ℕ) (name : String) (handle : Handle) :
    h.prepare id name handle = h.phases id (Phase.all name handle) := by
  unfold prepare
  simp only [Phase.all, phases, phase]
  rcases h.onLinkage id (·.loadExecutable name handle) with _ | ⟨e | _, h₁⟩
  · rfl
  · rfl
  simp only
  rcases h₁.onLinkage id (·.resolve h₁.settings.builtinLibraries h₁.libraries h₁.files) with
    _ | ⟨e | _, h₂⟩
  · rfl
  · rfl
  simp only
  rcases h₂.exportInto id with ⟨e | _, h₃⟩
  · rfl
  simp only
  rcases h₃.onLinkage id (·.link) with _ | ⟨e | _, h₄⟩ <;> rfl

theorem phase_works (h : Host σ γ) (id : ℕ) (phase : Phase) :
    Works id h (h.phase id phase).2 := by
  cases phase with
  | load name handle =>
    simp only [Host.phase]
    split
    · exact .refl id h
    · rename_i loaded
      exact onLinkage_works (·.loadExecutable_reaches name handle) loaded
    · rename_i loaded
      exact onLinkage_works (·.loadExecutable_reaches name handle) loaded
  | resolve =>
    simp only [Host.phase]
    split
    · exact .refl id h
    · rename_i e h₁ resolved
      have refused := onLinkage_works (Linkage.resolution_reaches _ _ _) resolved
      exact refused.trans (h₁.noteUnresolved_works e)
    · rename_i resolved
      exact onLinkage_works (Linkage.resolution_reaches _ _ _) resolved
  | bind =>
    have exported := h.exportInto_works id
    simp only [Host.phase]
    split <;> rename_i h₁ eq <;> rw [eq] at exported <;> exact exported
  | link =>
    simp only [Host.phase]
    split
    · exact .refl id h
    · rename_i linked
      exact onLinkage_works (·.link_reaches) linked
    · rename_i linked
      exact onLinkage_works (·.link_reaches) linked

theorem phases_works (h : Host σ γ) (id : ℕ) (list : List Phase) :
    Works id h (h.phases id list).2 := by
  induction list generalizing h with
  | nil => exact .refl id h
  | cons phase rest ih =>
    have first := h.phase_works id phase
    simp only [phases]
    split <;> rename_i h₁ eq <;> rw [eq] at first
    · exact first
    · exact first.trans (ih h₁)

theorem prepare_works (h : Host σ γ) (id : ℕ) (name : String) (handle : Handle) :
    Works id h (h.prepare id name handle).2 := by
  rw [prepare_eq_phases]
  exact h.phases_works id (Phase.all name handle)

end AppHost.Host
