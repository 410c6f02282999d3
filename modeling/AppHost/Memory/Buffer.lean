import AppHost.Number.Power
/-! Byte buffers, which a host holds in one piece each. A process that asks for one longer than
any host can hold ends there, and the call that it was in is not answered. -/
namespace AppHost.Memory

/-- The greatest byte buffer a host can hold in one piece. -/
def bufferLimit : Nat := 2 ^ 63 - 1

inductive Fate (α : Type) where
  | answered (answer : α)
  /-- The process ends at a buffer of so many bytes. -/
  | lost (bytes : Nat)
  deriving DecidableEq, Repr

/-- A call is answered if no buffer that it takes on the way is too long. -/
def Fate.taking {α : Type} (buffers : List Nat) (answer : α) : Fate α :=
  match buffers.find? (bufferLimit < ·) with
  | some bytes => .lost bytes
  | none => .answered answer

@[simp] theorem Fate.taking_nil {α : Type} (answer : α) : taking [] answer = .answered answer := rfl

theorem Fate.taking_eq_lost_iff {α : Type} {buffers : List Nat} {answer : α} {bytes : Nat} :
    taking buffers answer = .lost bytes ↔ buffers.find? (bufferLimit < ·) = some bytes := by
  unfold taking
  cases buffers.find? (bufferLimit < ·) <;> simp

theorem Fate.taking_one_eq_lost_iff {α : Type} {buffer : Nat} {answer : α} {bytes : Nat} :
    taking [buffer] answer = .lost bytes ↔ bytes = buffer ∧ bufferLimit < bytes := by
  rw [taking_eq_lost_iff, List.find?_singleton]
  by_cases long : bufferLimit < buffer
  · simp only [long, decide_true, if_true, Option.some.injEq]
    exact ⟨fun same => ⟨same.symm, same ▸ long⟩, fun h => h.1.symm⟩
  · simp only [long, decide_false]
    refine iff_of_false nofun ?_
    rintro ⟨rfl, other⟩
    exact long other

end AppHost.Memory
