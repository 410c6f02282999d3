import AppHost.Memory.Arena
/-! What the holders of an arena can do to it. Nothing else reaches its lists or its allocator,
so whatever code is handed an arena leaves it as some run of these operations would. -/
namespace AppHost.Memory

inductive Operation where
  | map (minLength : Word) (prot : Protection) (minAlign : Word)
  | unmap (base : Word)
  | write (address : Word) (bytes : Bytes)
  | setResume (point : ResumePoint)
  deriving DecidableEq, Repr

namespace Arena

variable {σ : Type} [Allocator σ]

def perform (a : Arena σ) : Operation → Arena σ
  | .map minLength prot minAlign => (a.map minLength prot minAlign).2
  | .unmap base => a.release base
  | .write address bytes => (a.write address bytes).toOption.getD a
  | .setResume point => a.setResume point

/-- Performs operations in order; those that are refused change nothing that can be seen. -/
def run (a : Arena σ) (operations : List Operation) : Arena σ := operations.foldl perform a

@[simp] theorem run_nil (a : Arena σ) : a.run [] = a := rfl

@[simp] theorem run_cons (a : Arena σ) (o : Operation) (operations : List Operation) :
    a.run (o :: operations) = (a.perform o).run operations := rfl

theorem run_append (a : Arena σ) (first second : List Operation) :
    a.run (first ++ second) = (a.run first).run second :=
  List.foldl_append

def Reaches (a b : Arena σ) : Prop := ∃ operations : List Operation, b = a.run operations

theorem Reaches.refl (a : Arena σ) : a.Reaches a := ⟨[], rfl⟩

theorem Reaches.trans {a b c : Arena σ} (h : a.Reaches b) (i : b.Reaches c) : a.Reaches c := by
  obtain ⟨first, rfl⟩ := h
  obtain ⟨second, rfl⟩ := i
  exact ⟨first ++ second, (run_append a first second).symm⟩

theorem reaches_perform (a : Arena σ) (o : Operation) : a.Reaches (a.perform o) := ⟨[o], rfl⟩

theorem perform_write {a b : Arena σ} {address : Word} {bytes : Bytes}
    (h : a.write address bytes = .ok b) : a.perform (.write address bytes) = b := by
  simp [perform, h, Except.toOption]

end Arena

end AppHost.Memory
