import AppHost.Word
/-! Code generators decide what address an application sees for a capability: the raw one, or a
stub that goes through a slot of the dispatch table. -/
namespace AppHost

inductive ExportError where
  | trampoline (index : UInt32)
  | tableFull
  deriving DecidableEq, Repr

def ExportError.message : ExportError → String
  | .trampoline index => "trampoline generation failed for index " ++ toString index.toNat
  | .tableFull => "dispatch table full"

class CodeGenerator (γ : Type) where
  /-- Whether calls go through the dispatch table. -/
  isolates : γ → Bool
  /-- Makes the stub for a slot and gives its address. -/
  emit : γ → UInt32 → Except ExportError Word × γ

/-- No isolation: applications call raw addresses, and no stub is ever made. -/
inductive DirectCalls where
  | direct
  deriving DecidableEq, Repr

instance : CodeGenerator DirectCalls where
  isolates _ := false
  emit g index := (.error (.trampoline index), g)

/-- Stubs that copy a template and end in the slot's index. Slots are asked for in order from
zero; the host decides where each stub lies. -/
structure Trampolines where
  template : Bytes
  host : Nat → Word
  stubs : List Bytes

namespace Trampolines

def empty (template : Bytes) (host : Nat → Word) : Trampolines := ⟨template, host, []⟩

def indexOffset (t : Trampolines) : Nat := t.template.length

def stub? (t : Trampolines) (index : UInt32) : Option Bytes := t.stubs[index.toNat]?

def emit (t : Trampolines) (index : UInt32) : Except ExportError Word × Trampolines :=
  if index.toNat ≠ t.stubs.length then (.error (.trampoline index), t)
  else
    (.ok (t.host index.toNat),
      { t with stubs := t.stubs ++ [t.template ++ Word.toBytes 4 index.toUInt64] })

instance : CodeGenerator Trampolines where
  isolates _ := true
  emit := emit

end Trampolines

/-- Stubs at evenly spaced addresses. The first request for one chosen slot can be made to
fail. -/
structure SpacedStubs where
  base : Word
  failing : Option UInt32
  deriving DecidableEq, Repr

instance : CodeGenerator SpacedStubs where
  isolates _ := true
  emit g index :=
    if g.failing = some index then (.error (.trampoline index), { g with failing := none })
    else (.ok (g.base + 16 * index.toUInt64), g)

instance {α β : Type} [CodeGenerator α] [CodeGenerator β] : CodeGenerator (α ⊕ β) where
  isolates
    | .inl g => CodeGenerator.isolates g
    | .inr g => CodeGenerator.isolates g
  emit
    | .inl g, index => let (r, g) := CodeGenerator.emit g index; (r, .inl g)
    | .inr g, index => let (r, g) := CodeGenerator.emit g index; (r, .inr g)

inductive CallSites (γ : Type) where
  | direct
  | generated (g : γ)

instance {γ : Type} [CodeGenerator γ] : CodeGenerator (CallSites γ) where
  isolates
    | .direct => CodeGenerator.isolates DirectCalls.direct
    | .generated g => CodeGenerator.isolates g
  emit
    | .direct, index => ((CodeGenerator.emit DirectCalls.direct index).1, .direct)
    | .generated g, index => let (r, g) := CodeGenerator.emit g index; (r, .generated g)

end AppHost
