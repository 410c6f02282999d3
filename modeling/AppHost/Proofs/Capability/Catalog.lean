import AppHost.Capability.Catalog
import AppHost.Proofs.Symbol.Order
/-! The catalog that applications link against. Every capability of every provider is in it once,
and under isolation the stub made for a slot and the raw address kept in that slot belong to one
name, whatever names collide. -/
namespace AppHost

namespace Provider

def Defines (p : Provider) (name : String) : Prop := name ∈ p.entries.map (·.1)

/-- The provider gives the name this address: its last entry for the name says so. -/
def Gives (p : Provider) (name : String) (address : Word) : Prop :=
  ∃ before after, p.entries = before ++ (name, address) :: after ∧ name ∉ after.map (·.1)

/-- The last of the providers that define the name gives it this address. -/
def LastGives (providers : List Provider) (name : String) (address : Word) : Prop :=
  ∃ before p after, providers = before ++ p :: after ∧ p.Gives name address ∧
    ∀ q ∈ after, ¬ q.Defines name

theorem gives_iff (p : Provider) (name : String) (address : Word) :
    p.Gives name address ↔ p.entries.reverse.lookup name = some address := by
  unfold Gives
  rw [List.lookup_eq_some_iff]
  constructor
  · rintro ⟨before, after, split, last⟩
    refine ⟨after.reverse, before.reverse, by simp [split], fun e he => bne_iff_ne.mpr ?_⟩
    rintro rfl
    exact last (List.mem_map_of_mem (List.mem_reverse.mp he))
  · rintro ⟨after, before, split, last⟩
    refine ⟨before.reverse, after.reverse, ?_, ?_⟩
    · rw [← List.reverse_reverse p.entries, split]
      simp
    · intro mem
      obtain ⟨e, he, eq⟩ := List.mem_map.mp mem
      have ne := bne_iff_ne.mp (last e (List.mem_reverse.mp he))
      exact ne eq.symm

theorem not_defines_iff (p : Provider) (name : String) :
    ¬ p.Defines name ↔ p.entries.reverse.lookup name = none := by
  unfold Defines
  rw [List.lookup_eq_none_iff]
  constructor
  · intro absent e he
    refine bne_iff_ne.mpr ?_
    rintro rfl
    exact absent (List.mem_map_of_mem (List.mem_reverse.mp he))
  · intro absent mem
    obtain ⟨e, he, rfl⟩ := List.mem_map.mp mem
    exact absurd rfl (bne_iff_ne.mp (absent e (List.mem_reverse.mpr he)))

theorem sorted_bindAll (providers : List Provider) {t : SymbolTable} (h : t.Sorted) :
    (bindAll providers t).Sorted := by
  unfold bindAll
  induction providers generalizing t with
  | nil => exact h
  | cons p rest ih => exact ih (h.insertAll p.entries)

theorem bindAll_append (first second : List Provider) (t : SymbolTable) :
    bindAll (first ++ second) t = bindAll second (bindAll first t) := List.foldl_append

theorem get?_bindAll_of_undefined {providers : List Provider} {name : String}
    (absent : ∀ p ∈ providers, ¬ p.Defines name) (t : SymbolTable) :
    (bindAll providers t).get? name = t.get? name := by
  unfold bindAll
  induction providers generalizing t with
  | nil => rfl
  | cons p rest ih =>
    have none_here := (not_defines_iff p name).mp (absent p List.mem_cons_self)
    rw [List.foldl_cons, ih fun q hq => absent q (List.mem_cons_of_mem p hq),
      SymbolTable.get?_insertAll, none_here, Option.none_or]

theorem LastGives.get?_bindAll {providers : List Provider} {name : String} {address : Word}
    (h : LastGives providers name address) (t : SymbolTable) :
    (bindAll providers t).get? name = some address := by
  obtain ⟨before, p, after, rfl, gives, last⟩ := h
  rw [bindAll_append, show p :: after = [p] ++ after from rfl, bindAll_append,
    get?_bindAll_of_undefined last]
  change ((bindAll before t).insertAll p.entries).get? name = some address
  rw [SymbolTable.get?_insertAll, (gives_iff p name address).mp gives, Option.some_or]

theorem exists_lastGives {providers : List Provider} {name : String}
    (defined : ∃ p ∈ providers, p.Defines name) : ∃ address, LastGives providers name address := by
  induction providers with
  | nil =>
    obtain ⟨p, hp, -⟩ := defined
    nomatch hp
  | cons p rest ih =>
    by_cases later : ∃ q ∈ rest, q.Defines name
    · obtain ⟨address, before, q, after, split, gives, last⟩ := ih later
      exact ⟨address, p :: before, q, after, by rw [split]; rfl, gives, last⟩
    · push Not at later
      obtain ⟨q, hq, here⟩ := defined
      have here : p.Defines name := by
        rcases List.mem_cons.mp hq with rfl | hq
        · exact here
        · exact absurd here (later q hq)
      cases found : p.entries.reverse.lookup name with
      | none => exact absurd here ((not_defines_iff p name).mpr found)
      | some address =>
        exact ⟨address, [], p, rest, rfl, (gives_iff p name address).mpr found, later⟩

theorem get?_bindAll_empty (providers : List Provider) (name : String) (address : Word) :
    (bindAll providers .empty).get? name = some address ↔ LastGives providers name address := by
  constructor
  · intro bound
    by_cases defined : ∃ p ∈ providers, p.Defines name
    · obtain ⟨other, last⟩ := exists_lastGives defined
      rw [last.get?_bindAll] at bound
      cases bound
      exact last
    · push Not at defined
      rw [get?_bindAll_of_undefined defined] at bound
      cases bound
  · exact fun last => last.get?_bindAll .empty

theorem mem_names_bindAll (providers : List Provider) (name : String) :
    name ∈ (bindAll providers .empty).names ↔ ∃ p ∈ providers, p.Defines name := by
  rw [SymbolTable.mem_names]
  constructor
  · rintro ⟨address, bound⟩
    obtain ⟨before, p, after, rfl, ⟨first, last, split, -⟩, -⟩ :=
      (get?_bindAll_empty providers name address).mp bound
    exact ⟨p, by simp, by simp [Defines, split]⟩
  · intro defined
    obtain ⟨address, last⟩ := exists_lastGives defined
    exact ⟨address, last.get?_bindAll .empty⟩

end Provider

/-- A generator answers requests for the slots from one on, in order, with these stubs. -/
inductive Emits {γ : Type} [CodeGenerator γ] : γ → ℕ → List Word → γ → Prop where
  | done (g slot) : Emits g slot [] g
  | next {g h k slot stub stubs} (room : slot < UInt32.size)
      (answer : CodeGenerator.emit g (UInt32.ofNat slot) = (.ok stub, h))
      (rest : Emits h (slot + 1) stubs k) : Emits g slot (stub :: stubs) k

namespace Trampolines

theorem emit_ok {t u : Trampolines} {index : UInt32} {stub : Word}
    (h : t.emit index = (.ok stub, u)) :
    index.toNat = t.stubs.length ∧ stub = t.host index.toNat ∧
      u = { t with stubs := t.stubs ++ [t.template ++ Word.toBytes 4 index.toUInt64] } := by
  unfold emit at h
  split at h
  · cases h
  · rename_i here
    cases h
    exact ⟨not_not.mp here, rfl, rfl⟩

theorem stubs_of_emits {t u : Trampolines} {slot : ℕ} {stubs : List Word}
    (h : Emits t slot stubs u) :
    (t.stubs <+: u.stubs ∧ u.template = t.template ∧ u.host = t.host) ∧
      ∀ (i : ℕ) (stub : Word), stubs[i]? = some stub →
        slot + i < UInt32.size ∧ stub = t.host (slot + i) ∧
          u.stubs[slot + i]? =
            some (t.template ++ Word.toBytes 4 (UInt32.ofNat (slot + i)).toUInt64) := by
  induction h with
  | done g slot => exact ⟨⟨List.prefix_refl _, rfl, rfl⟩, fun i stub found => nomatch found⟩
  | @next g h k slot stub stubs room answer rest ih =>
    obtain ⟨here, rfl, rfl⟩ := emit_ok answer
    rw [UInt32.toNat_ofNat_of_lt' room] at here
    obtain ⟨⟨grown, template, host⟩, others⟩ := ih
    refine ⟨⟨(List.prefix_append _ _).trans grown, template, host⟩, fun i other found => ?_⟩
    cases i with
    | zero =>
      cases found
      refine ⟨room, by rw [UInt32.toNat_ofNat_of_lt' room]; rfl, ?_⟩
      obtain ⟨later, eq⟩ := grown
      rw [Nat.add_zero, ← eq, here]
      simp
    | succ i =>
      obtain ⟨room, place, bytes⟩ := others i other found
      rw [show slot + (i + 1) = slot + 1 + i by omega]
      exact ⟨room, place, bytes⟩

end Trampolines

namespace Capabilities

theorem sorted_raw {γ : Type} (c : Capabilities γ) : c.raw.Sorted :=
  Provider.sorted_bindAll c.providers SymbolTable.sorted_empty

variable {γ : Type} [CodeGenerator γ]

theorem wrap_ok {g h : γ} {slot : ℕ} {entries wrapped : List (String × Word)}
    (made : wrap g slot entries = (.ok wrapped, h)) :
    ∃ stubs, Emits g slot stubs h ∧ stubs.length = entries.length ∧
      wrapped = (entries.map (·.1)).zip stubs := by
  induction entries generalizing g slot wrapped with
  | nil =>
    cases made
    exact ⟨[], .done _ _, rfl, rfl⟩
  | cons e rest ih =>
    unfold wrap at made
    split at made
    · cases made
    · rename_i room
      split at made
      · cases made
      · rename_i stub next answer
        split at made
        · cases made
        · rename_i others last later
          cases made
          obtain ⟨stubs, emits, length, rfl⟩ := ih later
          exact ⟨stub :: stubs, .next (by omega) answer emits, by simp [length], rfl⟩

structure Routes (c : Capabilities γ) (catalog : Catalog) (after : Capabilities γ) : Prop where
  names : ∀ name, name ∈ catalog.symbols.names ↔ ∃ p ∈ c.providers, p.Defines name
  ordered : (catalog.symbols.names.map Text.utf8).Pairwise (· < ·)
  raw : ∀ name address, c.raw.get? name = some address ↔
    Provider.LastGives c.providers name address
  direct : CodeGenerator.isolates c.generator = false →
    catalog.symbols = c.raw ∧ catalog.dispatch = []
  isolated : CodeGenerator.isolates c.generator = true →
    ∃ stubs, Emits c.generator 0 stubs after.generator ∧
      stubs.length = catalog.symbols.names.length ∧
      catalog.dispatch.length = catalog.symbols.names.length ∧
      ∀ (i : ℕ) (name : String), catalog.symbols.names[i]? = some name →
        ∃ address stub, c.raw.get? name = some address ∧ catalog.dispatch[i]? = some address ∧
          stubs[i]? = some stub ∧ catalog.symbols.get? name = some stub
  kept : after.catalog = (.ok catalog, after)
  exported : ∀ t, ∃ u, c.exportWrapped t = (.ok u, after) ∧ after.exportWrapped t = (.ok u, after) ∧
    ∀ name, u.get? name = (catalog.symbols.get? name).or (t.get? name)

theorem build_cases {c : Capabilities γ} {catalog : Catalog} {g : γ}
    (built : c.build = (.ok catalog, g)) :
    (CodeGenerator.isolates c.generator = false ∧ catalog = ⟨c.raw, []⟩) ∨
    CodeGenerator.isolates c.generator = true ∧ ∃ stubs, Emits c.generator 0 stubs g ∧
      stubs.length = c.raw.entries.length ∧
      catalog = ⟨⟨c.raw.names.zip stubs⟩, c.raw.entries.map (·.2)⟩ := by
  unfold build at built
  split at built
  · rename_i isolates
    split at built
    · cases built
    · rename_i wrapped h made
      cases built
      obtain ⟨stubs, emits, length, rfl⟩ := wrap_ok made
      exact Or.inr ⟨isolates, stubs, emits, length, rfl⟩
  · rename_i direct
    cases built
    exact Or.inl ⟨by simpa using direct, rfl⟩

theorem names_of_build {c : Capabilities γ} {catalog : Catalog} {g : γ}
    (built : c.build = (.ok catalog, g)) : catalog.symbols.names = c.raw.names := by
  rcases build_cases built with ⟨-, rfl⟩ | ⟨-, stubs, -, length, rfl⟩
  · rfl
  · refine List.map_fst_zip ?_
    simp [SymbolTable.names, length]

theorem slot_of_name {c : Capabilities γ} {catalog : Catalog} {g : γ}
    (built : c.build = (.ok catalog, g)) (isolates : CodeGenerator.isolates c.generator = true) :
    ∃ stubs, Emits c.generator 0 stubs g ∧
      stubs.length = catalog.symbols.names.length ∧
      catalog.dispatch.length = catalog.symbols.names.length ∧
      ∀ (i : ℕ) (name : String), catalog.symbols.names[i]? = some name →
        ∃ address stub, c.raw.get? name = some address ∧ catalog.dispatch[i]? = some address ∧
          stubs[i]? = some stub ∧ catalog.symbols.get? name = some stub := by
  have names := names_of_build built
  have sorted : catalog.symbols.Sorted := c.sorted_raw.of_names names
  rcases build_cases built with ⟨direct, -⟩ | ⟨-, stubs, emits, length, eq⟩
  · rw [isolates] at direct
    cases direct
  have size : c.raw.names.length = c.raw.entries.length := List.length_map _
  refine ⟨stubs, emits, by rw [names, size, length], by rw [names, size, eq, List.length_map],
    fun i name found => ?_⟩
  rw [names] at found
  have entry : c.raw.entries[i]?.map (·.1) = some name := List.getElem?_map ▸ found
  obtain ⟨e, he, rfl⟩ := Option.map_eq_some_iff.mp entry
  obtain ⟨inside, -⟩ := List.getElem?_eq_some_iff.mp he
  have stub : stubs[i]? = some stubs[i] := List.getElem?_eq_getElem (length ▸ inside)
  refine ⟨e.2, stubs[i], c.sorted_raw.get?_of_mem (List.mem_of_getElem? he), ?_, stub, ?_⟩
  · rw [eq, List.getElem?_map, he]
    rfl
  · refine sorted.get?_of_mem ?_
    rw [eq]
    exact List.mem_of_getElem? (List.getElem?_zip_eq_some.mpr ⟨found, stub⟩)

theorem catalog_ok {c after : Capabilities γ} {catalog : Catalog} (fresh : c.built = none)
    (made : c.catalog = (.ok catalog, after)) :
    c.build = (.ok catalog, after.generator) ∧ after.built = some catalog := by
  unfold Capabilities.catalog at made
  rw [fresh] at made
  simp only at made
  split at made
  · cases made
  · rename_i built
    cases made
    exact ⟨built, rfl⟩

theorem routes_of_catalog {c after : Capabilities γ} {catalog : Catalog} (fresh : c.built = none)
    (made : c.catalog = (.ok catalog, after)) : c.Routes catalog after := by
  obtain ⟨built, cached⟩ := catalog_ok fresh made
  have names := names_of_build built
  have sorted : catalog.symbols.Sorted := c.sorted_raw.of_names names
  have kept : after.catalog = (.ok catalog, after) := by
    unfold Capabilities.catalog
    rw [cached]
  constructor
  · intro name
    rw [names]
    exact Provider.mem_names_bindAll c.providers name
  · exact sorted.byte_order
  · exact Provider.get?_bindAll_empty c.providers
  · intro direct
    rcases build_cases built with ⟨-, rfl⟩ | ⟨isolates, -⟩
    · exact ⟨rfl, rfl⟩
    · rw [direct] at isolates
      cases isolates
  · exact slot_of_name built
  · exact kept
  · intro t
    refine ⟨t.merge catalog.symbols, ?_, ?_, sorted.get?_merge t⟩
    · unfold exportWrapped
      rw [made]
    · unfold exportWrapped
      rw [kept]

/-- A catalog of any providers, made with any generator, routes each name to the address that the
last of them gives it: at once, or through the stub made for the slot that keeps the address.
With template stubs, the stub holds the template and the number of that slot. -/
theorem catalog_routes_every_name (providers : List Provider) (journal : List CatalogEvent) :
    (∀ (γ : Type) [CodeGenerator γ] (generator : γ) (catalog : Catalog) (after : Capabilities γ),
      let c : Capabilities γ := ⟨providers, generator, none, journal⟩
      c.catalog = (.ok catalog, after) → c.Routes catalog after) ∧
    ∀ (generator : Trampolines) (catalog : Catalog) (after : Capabilities Trampolines),
      let c : Capabilities Trampolines := ⟨providers, generator, none, journal⟩
      c.catalog = (.ok catalog, after) →
        ∀ name ∈ catalog.symbols.names, ∃ (k : ℕ) (index : Bytes) (address : Word),
          catalog.symbols.get? name = some (generator.host k) ∧
          after.generator.stub? (UInt32.ofNat k) = some (generator.template ++ index) ∧
          index.length = 4 ∧ ByteOrder.littleValue index = k ∧
          catalog.dispatch[k]? = some address ∧ c.raw.get? name = some address := by
  constructor
  · intro γ _ generator catalog after c made
    exact routes_of_catalog rfl made
  · intro generator catalog after c made name mem
    obtain ⟨stubs, emits, -, -, slots⟩ := slot_of_name (catalog_ok rfl made).1 rfl
    obtain ⟨k, found⟩ := List.mem_iff_getElem?.mp mem
    obtain ⟨address, stub, raw, slot, answer, wrapped⟩ := slots k name found
    obtain ⟨-, stubs⟩ := Trampolines.stubs_of_emits emits
    obtain ⟨room, rfl, bytes⟩ := stubs k stub answer
    rw [Nat.zero_add] at room bytes wrapped
    refine ⟨k, Word.toBytes 4 (UInt32.ofNat k).toUInt64, address, wrapped, ?_,
      Word.length_toBytes 4 _, ?_, slot, raw⟩
    · unfold Trampolines.stub?
      rw [UInt32.toNat_ofNat_of_lt' room]
      exact bytes
    · rw [ByteOrder.littleValue_toBytes, UInt32.toNat_toUInt64, UInt32.toNat_ofNat_of_lt' room]
      exact Nat.mod_eq_of_lt room

/-- Three providers that collide, one of them with itself. -/
theorem catalog_of_colliding_providers :
    let providers : List Provider := [⟨"first", [("write", 1), ("exit", 2)]⟩,
      ⟨"second", [("exit", 3), ("read", 4), ("exit", 5)]⟩, ⟨"third", [("read", 6), ("é", 7)]⟩]
    let generator := Trampolines.empty [0xaa, 0xbb] fun n => 0x9000 + 8 * UInt64.ofNat n
    let c : Capabilities Trampolines := ⟨providers, generator, none, []⟩
    ∃ catalog after, c.catalog = (.ok catalog, after) ∧
      catalog.symbols.names = ["exit", "read", "write", "é"] ∧ catalog.dispatch = [5, 6, 1, 7] ∧
      Provider.LastGives providers "exit" 5 ∧
      ∃ (k : ℕ) (index : Bytes) (address : Word),
        catalog.symbols.get? "write" = some (generator.host k) ∧
        after.generator.stub? (UInt32.ofNat k) = some ([0xaa, 0xbb] ++ index) ∧
        index.length = 4 ∧ ByteOrder.littleValue index = k ∧
        catalog.dispatch[k]? = some address ∧ c.raw.get? "write" = some address := by
  intro providers generator c
  have made : c.catalog = (.ok ⟨⟨[("exit", 0x9000), ("read", 0x9008), ("write", 0x9010),
      ("é", 0x9018)]⟩, [5, 6, 1, 7]⟩, c.catalog.2) := Prod.ext (by decide) rfl
  obtain ⟨general, template⟩ := catalog_routes_every_name providers []
  refine ⟨_, _, made, rfl, rfl, ?_, template generator _ _ made "write" (by decide)⟩
  exact ((general _ generator _ _ made).raw "exit" 5).mp (by decide)

end Capabilities

end AppHost
