import AppHost.Capability.CodeGenerator
import AppHost.Capability.Provider
import AppHost.Log
/-! The catalog of capabilities that applications link against. It is built on first use from
all providers and kept from then on; a build that fails leaves nothing but the generator's own
state. -/
namespace AppHost

structure Catalog where
  symbols : SymbolTable
  /-- Raw addresses by slot, one for each name in name order; empty without isolation. -/
  dispatch : List Word
  deriving DecidableEq, Repr

inductive CatalogEvent where
  | built (size : Nat)
  deriving DecidableEq, Repr

def CatalogEvent.log : CatalogEvent → LogLine
  | .built size => ⟨.info, "abi: catalog built with " ++ toString size ++ " capabilities"⟩

structure Capabilities (γ : Type) where
  providers : List Provider
  generator : γ
  built : Option Catalog
  journal : List CatalogEvent

namespace Capabilities

variable {γ : Type}

def empty (generator : γ) : Capabilities γ := ⟨[], generator, none, []⟩

def withProvider (c : Capabilities γ) (p : Provider) : Capabilities γ :=
  { c with providers := c.providers ++ [p] }

def withBuiltins (code : Word) (generator : γ) : Capabilities γ :=
  (Provider.builtins code).foldl withProvider (empty generator)

def providerNames (c : Capabilities γ) : List String := c.providers.map (·.name)

def raw (c : Capabilities γ) : SymbolTable := Provider.bindAll c.providers .empty

def exportRaw (c : Capabilities γ) (t : SymbolTable) : SymbolTable :=
  Provider.bindAll c.providers t

variable [CodeGenerator γ]

def wrap (g : γ) (slot : Nat) :
    List (String × Word) → Except ExportError (List (String × Word)) × γ
  | [] => (.ok [], g)
  | (name, _) :: rest =>
    if UInt32.size ≤ slot then (.error .tableFull, g)
    else match CodeGenerator.emit g (UInt32.ofNat slot) with
      | (.error e, g) => (.error e, g)
      | (.ok stub, g) =>
        match wrap g (slot + 1) rest with
        | (.error e, g) => (.error e, g)
        | (.ok wrapped, g) => (.ok ((name, stub) :: wrapped), g)

def build (c : Capabilities γ) : Except ExportError Catalog × γ :=
  if CodeGenerator.isolates c.generator then
    match wrap c.generator 0 c.raw.entries with
    | (.error e, g) => (.error e, g)
    | (.ok wrapped, g) => (.ok ⟨⟨wrapped⟩, c.raw.entries.map (·.2)⟩, g)
  else (.ok ⟨c.raw, []⟩, c.generator)

def catalog (c : Capabilities γ) : Except ExportError Catalog × Capabilities γ :=
  match c.built with
  | some catalog => (.ok catalog, c)
  | none =>
    match c.build with
    | (.error e, generator) => (.error e, { c with generator })
    | (.ok catalog, generator) =>
      (.ok catalog,
        { c with generator, built := some catalog
                 journal := c.journal ++ [.built catalog.symbols.size] })

def exportWrapped (c : Capabilities γ) (t : SymbolTable) :
    Except ExportError SymbolTable × Capabilities γ :=
  match c.catalog with
  | (.error e, c) => (.error e, c)
  | (.ok catalog, c) => (.ok (t.merge catalog.symbols), c)

def dispatch (c : Capabilities γ) : Except ExportError (List Word) × Capabilities γ :=
  match c.catalog with
  | (.error e, c) => (.error e, c)
  | (.ok catalog, c) => (.ok catalog.dispatch, c)

end Capabilities

end AppHost
